import Picolibs.Text
/-!
# Ws — websocket packets (`ws.h`, `ws.cpp`)

`parsePacket` and `buildPacket` as the source computes them: the header is the two meta bytes of the bit-field union,
arithmetic on lengths is 32-bit, and every access to the packet is checked, so that an access outside it is the fault
`outOfBounds`.  The mask is applied in place, byte by byte (`xorLoop`); `xorLoop_eq` says what the loop leaves.
-/
namespace Pico
namespace Ws

def wsSuccess : Int := 0

def wsFail : Int := -1

/-- `WebsocketPacketHeader_t`.  `byte0` holds FIN, RSV and OPCODE, `byte1` holds MASK and PAYLOADLEN. -/
structure Header where
  byte0 : UInt8 := 0
  byte1 : UInt8 := 0
  start : UInt8 := 0
  length : UInt32 := 0
  maskBytes : Vector UInt8 4 := #v[0, 0, 0, 0]
  deriving DecidableEq

def Header.opcode (h : Header) : UInt8 := h.byte0 &&& 15

def Header.mask (h : Header) : Bool := 128 ≤ h.byte1

def Header.payloadLen (h : Header) : UInt8 := h.byte1 &&& 127

inductive OpCode where
  | continue_
  | text
  | bin
  | close
  | ping
  | pong
  deriving DecidableEq, Repr

def OpCode.code : OpCode → UInt8
  | .continue_ => 0x0
  | .text => 0x1
  | .bin => 0x2
  | .close => 0x8
  | .ping => 0x9
  | .pong => 0xA

-- the bytes of `mask.maskKey`, on a little-endian machine
def maskBytesOf (maskKey : UInt32) : Vector UInt8 4 :=
  #v[maskKey.toUInt8, (maskKey >>> 8).toUInt8, (maskKey >>> 16).toUInt8, (maskKey >>> 24).toUInt8]

def charAt (packet : Bytes) (i : Nat) : Except Fault UInt8 :=
  match packet[i]? with
  | some c => .ok c
  | none => .error .outOfBounds

-- `for (i = ..; n more times; i++) packet[start + i] ^= maskBytes[i % 4]`, the index in 32 bits
def xorLoop (mask : Vector UInt8 4) (start : Nat) : Nat → Nat → Bytes → Except Fault Bytes
  | 0, _, packet => .ok packet
  | n + 1, i, packet =>
    let k := (start + i) % 2 ^ 32
    if h : k < packet.length then
      xorLoop mask start n (i + 1) (packet.set k (packet[k] ^^^ mask[i % 4]))
    else .error .outOfBounds

-- the declared payload length and the index after it; `none` where `ParsePacket` asks for more bytes
def readLength (header : Header) (packet : Bytes) : Except Fault (Option (UInt32 × Nat)) :=
  if header.payloadLen = 126 then
    if packet.length < 4 then .ok none
    else do
      let b2 ← charAt packet 2
      let b3 ← charAt packet 3
      .ok (some (b2.toUInt32 <<< 8 ||| b3.toUInt32, 4))
  else if header.payloadLen = 127 then
    if packet.length < 10 then .ok none
    else do
      let b6 ← charAt packet 6
      let b7 ← charAt packet 7
      let b8 ← charAt packet 8
      let b9 ← charAt packet 9
      .ok (some (b6.toUInt32 <<< 24 ||| b7.toUInt32 <<< 16 ||| b8.toUInt32 <<< 8 ||| b9.toUInt32, 10))
  else .ok (some (header.payloadLen.toUInt32, 2))

def checkPayload (header : Header) (packet : Bytes) (payloadIndex : Nat) : Int × Header × Bytes :=
  if packet.length < (UInt32.ofNat payloadIndex + header.length).toNat then (wsFail, header, packet)
  else (wsSuccess, { header with start := UInt8.ofNat payloadIndex }, packet)

def readPayload (header : Header) (packet : Bytes) (payloadIndex : Nat) : Except Fault (Int × Header × Bytes) :=
  if header.mask then
    if packet.length < payloadIndex + 4 then .ok (wsFail, header, packet)
    else do
      let m0 ← charAt packet (payloadIndex + 0)
      let m1 ← charAt packet (payloadIndex + 1)
      let m2 ← charAt packet (payloadIndex + 2)
      let m3 ← charAt packet (payloadIndex + 3)
      let header := { header with maskBytes := #v[m0, m1, m2, m3] }
      let payloadIndex := payloadIndex + 4
      if packet.length < (UInt32.ofNat payloadIndex + header.length).toNat then .ok (wsFail, header, packet)
      else do
        let packet ← xorLoop header.maskBytes payloadIndex header.length.toNat 0 packet
        .ok (checkPayload header packet payloadIndex)
  else .ok (checkPayload header packet payloadIndex)

/-- `WS::ParsePacket`: the status, the header and the packet it leaves. -/
def parsePacket (header : Header) (packet : Bytes) : Except Fault (Int × Header × Bytes) :=
  if packet.length < 2 then .ok (wsFail, header, packet)
  else do
    let b0 ← charAt packet 0
    let b1 ← charAt packet 1
    let header := { header with byte0 := b0, byte1 := b1, length := (b1 &&& 127).toUInt32 }
    match ← readLength header packet with
    | none => .ok (wsFail, header, packet)
    | some (length, payloadIndex) => readPayload { header with length := length } packet payloadIndex

/-- `WS::BuildPacket` into a `std::string`: the returned size and the message. -/
def buildPacket (opcode : OpCode) (payload : Bytes) (mask : Bool) (rand : UInt32) : Except Fault (UInt32 × Bytes) := do
  let n := payload.length
  let masked := mask && decide (0 < n)
  let payloadLen : UInt8 := if n < 126 then UInt8.ofNat n else if n < 0x10000 then 126 else 127
  let metaBytes : Bytes := [0x80 ||| opcode.code, payloadLen ||| (if masked then 0x80 else 0)]
  let maskBytes := maskBytesOf rand
  let len : Bytes :=
    if payloadLen = 126 then [UInt8.ofNat (n >>> 8), UInt8.ofNat n]
    else if payloadLen = 127 then
      [0, 0, 0, 0, UInt8.ofNat (n >>> 24), UInt8.ofNat (n >>> 16), UInt8.ofNat (n >>> 8), UInt8.ofNat n]
    else []
  let payloadIndex := 2 + len.length + (if masked then 4 else 0)
  let msg := metaBytes ++ len ++ (if masked then maskBytes.toList else []) ++ payload
  let msg ← if masked then xorLoop maskBytes payloadIndex n 0 msg else .ok msg
  .ok (UInt32.ofNat msg.length, msg)

theorem charAt_apart (packet : Bytes) (i : Nat) : Text.Apart (charAt packet i) := by
  unfold charAt
  split <;> nofun

theorem xorLoop_apart (mask : Vector UInt8 4) (start : Nat) : ∀ (n i : Nat) (packet : Bytes),
    Text.Apart (xorLoop mask start n i packet)
  | 0, _, _ => Text.Apart.ok _
  | n + 1, i, packet => by
    rw [xorLoop]
    split
    · exact xorLoop_apart mask start n _ _
    · nofun

theorem readLength_apart (header : Header) (packet : Bytes) : Text.Apart (readLength header packet) := by
  unfold readLength
  split
  · split
    · exact Text.Apart.ok _
    · exact (charAt_apart _ _).bind fun _ => (charAt_apart _ _).bind fun _ => Text.Apart.ok _
  · split
    · split
      · exact Text.Apart.ok _
      · exact (charAt_apart _ _).bind fun _ => (charAt_apart _ _).bind fun _ => (charAt_apart _ _).bind fun _ =>
          (charAt_apart _ _).bind fun _ => Text.Apart.ok _
    · exact Text.Apart.ok _

theorem readPayload_apart (header : Header) (packet : Bytes) (i : Nat) :
    Text.Apart (readPayload header packet i) := by
  unfold readPayload
  split
  · split
    · exact Text.Apart.ok _
    · refine (charAt_apart _ _).bind fun _ => (charAt_apart _ _).bind fun _ => (charAt_apart _ _).bind fun _ =>
        (charAt_apart _ _).bind fun _ => ?_
      simp only
      split
      · exact Text.Apart.ok _
      · exact (xorLoop_apart _ _ _ _ _).bind fun _ => Text.Apart.ok _
  · exact Text.Apart.ok _

theorem parsePacket_apart (header : Header) (packet : Bytes) : Text.Apart (parsePacket header packet) := by
  unfold parsePacket
  split
  · exact Text.Apart.ok _
  · refine (charAt_apart _ _).bind fun _ => (charAt_apart _ _).bind fun _ => ?_
    refine (readLength_apart _ _).bind fun r => ?_
    cases r with
    | none => exact Text.Apart.ok _
    | some q => exact readPayload_apart _ _ _

/-! Parsing changes bytes in place and never their number. -/

theorem length_xorLoop {mask : Vector UInt8 4} {start : Nat} : ∀ {n i : Nat} {packet q : Bytes},
    xorLoop mask start n i packet = .ok q → q.length = packet.length
  | 0, _, _, _, h => by cases h; rfl
  | n + 1, i, packet, q, h => by
    rw [xorLoop] at h
    split at h
    · rw [length_xorLoop h, List.length_set]
    · cases h

theorem rqst_checkPayload (header : Header) (packet : Bytes) (i : Nat) :
    (checkPayload header packet i).2.2 = packet := by
  unfold checkPayload
  split <;> rfl

theorem length_readPayload {header : Header} {packet : Bytes} {i : Nat} {r : Int × Header × Bytes}
    (h : readPayload header packet i = .ok r) : r.2.2.length = packet.length := by
  unfold readPayload at h
  split at h
  · split at h
    · cases h; rfl
    · simp only [bind, Except.bind] at h
      split at h
      · cases h
      · split at h
        · cases h
        · split at h
          · cases h
          · split at h
            · cases h
            · split at h
              · cases h; rfl
              · split at h
                · cases h
                · next q hq =>
                  cases h
                  rw [rqst_checkPayload, length_xorLoop hq]
  · cases h
    rw [rqst_checkPayload]

theorem length_parsePacket {header : Header} {packet : Bytes} {r : Int × Header × Bytes}
    (h : parsePacket header packet = .ok r) : r.2.2.length = packet.length := by
  unfold parsePacket at h
  split at h
  · cases h; rfl
  · simp only [bind, Except.bind] at h
    split at h
    · cases h
    · split at h
      · cases h
      · split at h
        · cases h
        · split at h
          · cases h; rfl
          · exact length_readPayload h

/-- A packet without a mask is always built. -/
theorem buildPacket_unmasked (opcode : OpCode) (payload : Bytes) (rand : UInt32) :
    ∃ r, buildPacket opcode payload false rand = .ok r := by
  unfold buildPacket
  simp only [Bool.false_and, Bool.false_eq_true, if_false]
  exact ⟨_, rfl⟩

/-! ## Packets without a mask -/

/-- The header of an unmasked packet with `n` bytes of payload. -/
def plainHead (opcode : OpCode) (n : Nat) : Bytes :=
  let payloadLen : UInt8 := if n < 126 then UInt8.ofNat n else if n < 0x10000 then 126 else 127
  [0x80 ||| opcode.code, payloadLen] ++
    if payloadLen = 126 then [UInt8.ofNat (n >>> 8), UInt8.ofNat n]
    else if payloadLen = 127 then
      [0, 0, 0, 0, UInt8.ofNat (n >>> 24), UInt8.ofNat (n >>> 16), UInt8.ofNat (n >>> 8), UInt8.ofNat n]
    else []

def plainFrame (opcode : OpCode) (payload : Bytes) : Bytes := plainHead opcode payload.length ++ payload

theorem buildPacket_plain (opcode : OpCode) (payload : Bytes) (rand : UInt32) :
    buildPacket opcode payload false rand =
      .ok (UInt32.ofNat (plainFrame opcode payload).length, plainFrame opcode payload) := by
  unfold buildPacket plainFrame plainHead
  simp only [Bool.false_and, Bool.false_eq_true, if_false, UInt8.or_zero, List.append_nil]
  rfl

theorem length_plainHead (opcode : OpCode) (n : Nat) :
    (plainHead opcode n).length = if n < 126 then 2 else if n < 0x10000 then 4 else 10 := by
  unfold plainHead
  by_cases h1 : n < 126
  · have hne (k : Nat) (hk : 126 ≤ k) (hk' : k < 256) : UInt8.ofNat n ≠ UInt8.ofNat k := by
      intro e
      have := congrArg UInt8.toNat e
      simp only [UInt8.toNat_ofNat'] at this
      omega
    have h126 : UInt8.ofNat n ≠ 126 := hne 126 (by decide) (by decide)
    have h127 : UInt8.ofNat n ≠ 127 := hne 127 (by decide) (by decide)
    simp only [if_pos h1, if_neg h126, if_neg h127]
    rfl
  · by_cases h2 : n < 0x10000
    · simp only [if_neg h1, if_pos h2]
      rfl
    · simp only [if_neg h1, if_neg h2]
      rfl

theorem length_plainFrame (opcode : OpCode) (payload : Bytes) :
    (plainFrame opcode payload).length = (plainHead opcode payload.length).length + payload.length := by
  rw [plainFrame, List.length_append]

/-! ## The mask -/

-- a payload under the mask, its first byte being number `i`
def xorFrom (mask : Vector UInt8 4) : Nat → Bytes → Bytes
  | _, [] => []
  | i, c :: q => (c ^^^ mask[i % 4]) :: xorFrom mask (i + 1) q

@[simp] theorem length_xorFrom (mask : Vector UInt8 4) : ∀ (i : Nat) (q : Bytes), (xorFrom mask i q).length = q.length
  | _, [] => rfl
  | i, c :: q => by rw [xorFrom, List.length_cons, List.length_cons, length_xorFrom mask (i + 1) q]

/-- **Masking twice is no masking.** -/
theorem xorFrom_xorFrom (mask : Vector UInt8 4) : ∀ (i : Nat) (q : Bytes), xorFrom mask i (xorFrom mask i q) = q
  | _, [] => rfl
  | i, c :: q => by
    rw [xorFrom, xorFrom, xorFrom_xorFrom mask (i + 1) q, UInt8.xor_assoc, UInt8.xor_self, UInt8.xor_zero]

/-- **The in-place loop masks exactly its stretch of the packet**, wherever the 32-bit index does not wrap. -/
theorem xorLoop_eq (mask : Vector UInt8 4) (start : Nat) : ∀ (q pre post : Bytes) (i : Nat),
    pre.length = start + i → start + i + q.length ≤ 2 ^ 32 →
      xorLoop mask start q.length i (pre ++ q ++ post) = .ok (pre ++ xorFrom mask i q ++ post)
  | [], pre, post, i, _, _ => by rw [List.length_nil, xorLoop, xorFrom]
  | c :: q, pre, post, i, hpre, hle => by
    rw [List.length_cons] at hle
    have hk : (start + i) % 2 ^ 32 = pre.length := by rw [hpre]; exact Nat.mod_eq_of_lt (by omega)
    have hin : pre.length < (pre ++ c :: q ++ post).length := by simp
    have hget : (pre ++ c :: q ++ post)[pre.length] = c := by simp
    have hset (x : UInt8) : (pre ++ c :: q ++ post).set pre.length x = (pre ++ [x]) ++ q ++ post := by simp
    rw [List.length_cons, xorLoop]
    simp only [hk]
    rw [dif_pos hin, hget, hset, xorLoop_eq mask start q _ post (i + 1) (by simp; omega) (by omega)]
    simp [xorFrom]

end Ws
end Pico
