import Mathlib.Data.Fintype.Basic
import Picolibs.IrReceiver
/-!
# IrCodes — NEC and SAMSUNG (`nec_transmitter.cpp` and `samsung_transmitter.cpp`, with the receivers of those names)

Both codes send a mark and a space, four bytes from the lowest bit on, and a mark that ends the last space: two bytes
of address, the function, and the function complemented.  An address up to 255 is sent as one byte and a copy of it,
complemented (NEC) or as it is (SAMSUNG); the receiver takes the copy for the sign of a short address.
-/
namespace Pico
namespace Ir

/-- `NEC_MESSAGE_LEN`, `SAMSUNG_MESSAGE_LEN`. -/
def messageLen : Nat := 67

/-! ## What both codes do -/

/-- The pulses of a byte, with `k` bits to go. -/
def byteTimes (base : UInt32) : Nat → UInt8 → List UInt32
  | 0, _ => []
  | k + 1, data => base :: (if data &&& 1 = 0 then base else base * 3) :: byteTimes base k (data >>> 1)

/-- The pulses of a message. -/
def messageTimes (base mark : UInt32) (data : List UInt8) : List UInt32 :=
  mark :: (base * 8) :: (data.flatMap (byteTimes base 8) ++ [base])

/-- The inner loop of `decode`: a byte from the pulse `ii` on, with `k` bits to go. -/
def readByte (base : UInt32) (pulses : List UInt32) : Nat → Nat → UInt8 → UInt8 → UInt8
  | 0, _, _, data => data
  | k + 1, ii, mask, data =>
    readByte base pulses k (ii + 2) (mask <<< 1) (if pulses.getD ii 0 > 2 * base then data ||| mask else data)

/-- The outer loop of `decode`, with `n` bytes to go. -/
def readBytes (base : UInt32) (pulses : List UInt32) : Nat → Nat → List UInt8
  | 0, _ => []
  | n + 1, ii => readByte base pulses 8 ii 1 0 :: readBytes base pulses n (ii + 16)

/-! ## NEC -/

namespace Nec

def basePulse : UInt32 := 562

/-- The bytes of `setMessageTimes`. -/
def messageData (addr func : UInt16) : List UInt8 :=
  let data0 := addr.toUInt8
  let data1 := if addr > 255 then (addr >>> 8).toUInt8 else data0 ^^^ 0xff
  let data2 := func.toUInt8
  [data0, data1, data2, data2 ^^^ 0xff]

def setMessageTimes (addr func : UInt16) : List UInt32 :=
  messageTimes basePulse (basePulse * 16) (messageData addr func)

/-- `check_sync`. -/
def checkSync (r : Receiver) (ts : UInt64) (falling : Bool) : Bool × Receiver :=
  if r.sync = 0 then
    let r := { r with pulses := [] }
    if falling then
      let delta := r.delta ts
      if comparePulse delta (basePulse * 16) (basePulse / 2) then
        (false, { r with pulses := r.pulses ++ [delta], sync := 1 })
      else (false, r)
    else (false, r)
  else if r.sync = 1 then
    let delta := r.delta ts
    if !falling && comparePulse delta (basePulse * 8) (basePulse / 2) then
      (false, { r with sync := 2, pulses := r.pulses ++ [delta] })
    else
      let r := r.reset
      if !falling && comparePulse delta (basePulse * 4) (basePulse / 2) then
        (false, if r.rpt then r.act (.repeated ts r.rptAddr r.rptFunc) else r)
      else (false, r)
  else (decide (r.sync = 2), r)

/-- `decode`. -/
def decode (pulses : List UInt32) (address : UInt16) : Bool × UInt16 × UInt16 :=
  if pulses.length < 3 then (false, 0, 0)
  else
    let ii := if comparePulse (pulses.getD 0 0) (basePulse * 16) (basePulse / 2) then 1 else 0
    if comparePulse (pulses.getD ii 0) (basePulse * 4) (basePulse / 2) &&
        comparePulse (pulses.getD (ii + 1) 0) basePulse (basePulse / 2) then
      -- a repeat code
      (ii == 1, 0, 0)
    else
      let ii := if comparePulse (pulses.getD ii 0) (basePulse * 8) (basePulse / 2) then ii + 1 else ii
      let ii := ii + 1
      if ii ≠ 3 ∨ pulses.length - ii < 64 then (false, 0, 0)
      else
        let data := readBytes basePulse pulses 4 ii
        let data0 := data.getD 0 0
        let data1 := data.getD 1 0
        let addr := if data0 ^^^ data1 ≠ 0xff then data0.toUInt16 + data1.toUInt16 * 256 else data0.toUInt16
        let func := (data.getD 2 0).toUInt16
        (data.getD 2 0 ^^^ data.getD 3 0 == 0xff && (addr == address || address == 0xffff), addr, func)

def protocol : Protocol := ⟨checkSync, decode⟩

end Nec

/-! ## SAMSUNG -/

namespace Samsung

def basePulse : UInt32 := 562

/-- The bytes of `setMessageTimes`. -/
def messageData (addr func : UInt16) : List UInt8 :=
  let data0 := addr.toUInt8
  let data1 := if addr > 255 then (addr >>> 8).toUInt8 else data0
  let data2 := func.toUInt8
  [data0, data1, data2, data2 ^^^ 0xff]

def setMessageTimes (addr func : UInt16) : List UInt32 :=
  messageTimes basePulse (basePulse * 8) (messageData addr func)

/-- `check_sync`. -/
def checkSync (r : Receiver) (ts : UInt64) (falling : Bool) : Bool × Receiver :=
  if r.sync = 0 then
    let r := { r with pulses := [] }
    if falling then
      let delta := r.delta ts
      if comparePulse delta (basePulse * 8) (basePulse / 2) then
        (false, { r with pulses := r.pulses ++ [delta], sync := 1 })
      else (false, r)
    else (false, r)
  else if r.sync = 1 then
    let delta := r.delta ts
    if !falling && comparePulse delta (basePulse * 8) (basePulse / 2) then
      (false, { r with sync := 2, pulses := r.pulses ++ [delta] })
    else (false, r.reset)
  else (decide (r.sync = 2), r)

/-- `decode`. -/
def decode (pulses : List UInt32) (address : UInt16) : Bool × UInt16 × UInt16 :=
  if pulses.length < 3 then (false, 0, 0)
  else
    let ii := if comparePulse (pulses.getD 0 0) (basePulse * 8) (basePulse / 2) then 1 else 0
    let ii := if comparePulse (pulses.getD ii 0) (basePulse * 8) (basePulse / 2) then ii + 1 else ii
    let ii := ii + 1
    if ii ≠ 3 ∨ pulses.length - ii < 64 then (false, 0, 0)
    else
      let data := readBytes basePulse pulses 4 ii
      let data0 := data.getD 0 0
      let data1 := data.getD 1 0
      let addr := if data0 ≠ data1 then data0.toUInt16 + data1.toUInt16 * 256 else data0.toUInt16
      let func := (data.getD 2 0).toUInt16
      (data.getD 2 0 ^^^ data.getD 3 0 == 0xff && (addr == address || address == 0xffff), addr, func)

def protocol : Protocol := ⟨checkSync, decode⟩

end Samsung

/-! ## The two of them -/

inductive Code where
  | nec
  | samsung
  deriving DecidableEq

namespace Code

def setMessageTimes : Code → UInt16 → UInt16 → List UInt32
  | .nec => Nec.setMessageTimes
  | .samsung => Samsung.setMessageTimes

def protocol : Code → Protocol
  | .nec => Nec.protocol
  | .samsung => Samsung.protocol

/-- The copy of a short address. -/
def copy : Code → UInt8 → UInt8
  | .nec, data0 => data0 ^^^ 0xff
  | .samsung, data0 => data0

/-- The two bytes of the address are those of a short one. -/
def LooksShort (c : Code) (addr : UInt16) : Prop := (addr >>> 8).toUInt8 = c.copy addr.toUInt8

instance (c : Code) (addr : UInt16) : Decidable (c.LooksShort addr) :=
  inferInstanceAs (Decidable ((addr >>> 8).toUInt8 = c.copy addr.toUInt8))

/-- The address that arrives: of one that is long and looks short, its low byte. -/
def arrives (c : Code) (addr : UInt16) : UInt16 :=
  if addr > 255 ∧ c.LooksShort addr then addr.toUInt8.toUInt16 else addr

end Code

/-! ## Pulses that are nearly right -/

theorem comparePulse_near {p nom band : UInt32} (hlo : 281 ≤ nom.toNat) (hhi : nom.toNat + 281 < 2 ^ 32)
    (hband : band = 281) (h : Near p nom) : comparePulse p nom band = true := by
  subst hband
  have hiff : comparePulse p nom 281 = true ↔ Within (281 : UInt32).toNat p nom := comparePulse_iff hlo hhi
  exact hiff.2 h

theorem comparePulse_above {p nom band : UInt32} (h : nom.toNat + band.toNat ≤ p.toNat) :
    comparePulse p nom band = false := by
  have hlt : p.toNat < 2 ^ 32 := p.toNat_lt
  have hn : ¬ p < nom + band := by
    rw [UInt32.lt_iff_toNat_lt, UInt32.toNat_add, Nat.mod_eq_of_lt (by omega)]
    omega
  simp [comparePulse, hn]

/-! ## Reading what was sent -/

/-- A byte put together from its bits. -/
def assemble : Nat → UInt8 → UInt8 → UInt8 → UInt8
  | 0, _, _, data => data
  | k + 1, byte, mask, data =>
    assemble k (byte >>> 1) (mask <<< 1) (if byte &&& 1 = 0 then data else data ||| mask)

theorem assemble_eq (byte : UInt8) : assemble 8 byte 1 0 = byte := by
  have h : ∀ i : Fin 256, assemble 8 (UInt8.ofFin i) 1 0 = UInt8.ofFin i := by decide +kernel
  exact h byte.toFin

theorem length_byteTimes (base : UInt32) : ∀ (k : Nat) (data : UInt8), (byteTimes base k data).length = 2 * k
  | 0, _ => rfl
  | k + 1, data => by
    rw [byteTimes, List.length_cons, List.length_cons, length_byteTimes base k]
    omega

/-- A space is long exactly if the bit is set. -/
theorem long_iff {p : UInt32} {byte : UInt8} (h : Near p (if byte &&& 1 = 0 then 562 else 562 * 3)) :
    p > 2 * 562 ↔ ¬ byte &&& 1 = 0 := by
  obtain ⟨h1, h2⟩ := h
  rw [gt_iff_lt, UInt32.lt_iff_toNat_lt]
  by_cases hb : byte &&& 1 = 0
  · rw [if_pos hb] at h1
    have : p.toNat < 562 + 281 := h1
    exact ⟨fun h => absurd (show (1124 : Nat) < p.toNat from h) (by omega), fun h => absurd hb h⟩
  · rw [if_neg hb] at h2
    have : 1686 < p.toNat + 281 := h2
    exact ⟨fun _ => hb, fun _ => show (1124 : Nat) < p.toNat by omega⟩

theorem readByte_near (pulses : List UInt32) : ∀ (k : Nat) (byte : UInt8) (ii : Nat) (mask data : UInt8)
    (rest : List UInt32), List.Forall₂ Near (pulses.drop ii) (byteTimes 562 k byte ++ rest) →
    readByte 562 pulses k (ii + 1) mask data = assemble k byte mask data
  | 0, _, _, _, _, _, _ => rfl
  | k + 1, byte, ii, mask, data, rest, h => by
    rw [byteTimes, List.cons_append, List.cons_append] at h
    obtain ⟨p, tl, -, htl, hp⟩ := List.forall₂_cons_right_iff.1 h
    obtain ⟨q, tl', hq, htl', rfl⟩ := List.forall₂_cons_right_iff.1 htl
    have hget : pulses.getD (ii + 1) 0 = q := by
      rw [List.getD_eq_getElem?_getD, ← List.getElem?_drop, hp]
      rfl
    have hdrop : pulses.drop (ii + 2) = tl' := by
      rw [← List.drop_drop, hp]
      rfl
    rw [readByte, hget, assemble]
    rw [show (if q > 2 * 562 then data ||| mask else data) = if byte &&& 1 = 0 then data else data ||| mask by
      by_cases hb : byte &&& 1 = 0
      · rw [if_neg (fun hc => (long_iff hq).1 hc hb), if_pos hb]
      · rw [if_pos ((long_iff hq).2 hb), if_neg hb]]
    exact readByte_near pulses k (byte >>> 1) (ii + 2) _ _ rest (by rw [hdrop]; exact htl')

/-- **The bytes that were sent are the bytes that are read.** -/
theorem readBytes_near (pulses : List UInt32) : ∀ (data : List UInt8) (ii : Nat) (rest : List UInt32),
    List.Forall₂ Near (pulses.drop ii) (data.flatMap (byteTimes 562 8) ++ rest) →
    readBytes 562 pulses data.length (ii + 1) = data
  | [], _, _, _ => rfl
  | byte :: data, ii, rest, h => by
    rw [List.flatMap_cons, List.append_assoc] at h
    have hd := List.forall₂_drop_append _ _ _ h
    rw [length_byteTimes, List.drop_drop] at hd
    rw [List.length_cons, readBytes, readByte_near pulses 8 byte ii 1 0 _ h, assemble_eq,
      show ii + 1 + 16 = ii + 2 * 8 + 1 by omega, readBytes_near pulses data (ii + 2 * 8) rest hd]

/-- The pulses of a message: the start, the bytes and the mark at the end. -/
theorem length_messageTimes (base mark : UInt32) (d0 d1 d2 d3 : UInt8) :
    (messageTimes base mark [d0, d1, d2, d3]).length = messageLen := by
  simp [messageTimes, length_byteTimes, messageLen]

theorem near_split {pulses : List UInt32} {mark : UInt32} {d0 d1 d2 d3 : UInt8}
    (h : List.Forall₂ Near pulses (messageTimes 562 mark [d0, d1, d2, d3])) :
    ∃ p q is k, pulses = p :: q :: is ++ [k] ∧ Near p mark ∧ Near q (562 * 8) ∧ is.length = 64 ∧
      readBytes 562 pulses 4 3 = [d0, d1, d2, d3] := by
  have hlen := h.length_eq
  rw [length_messageTimes] at hlen
  obtain ⟨p, tl, hp, htl, rfl⟩ := List.forall₂_cons_right_iff.1 h
  obtain ⟨q, rest, hq, hrest, rfl⟩ := List.forall₂_cons_right_iff.1 htl
  have hread := readBytes_near (p :: q :: rest) [d0, d1, d2, d3] 2 [562] hrest
  rcases List.eq_nil_or_concat rest with rfl | ⟨is, k, rfl⟩
  · cases hlen
  · refine ⟨p, q, is, k, by rw [List.concat_eq_append]; rfl, hp, hq, ?_, hread⟩
    simp only [List.length_cons, List.concat_eq_append, List.length_append, List.length_nil, messageLen] at hlen
    omega

theorem syncs_nec : Syncs Nec.protocol (562 * 16) (562 * 8) where
  idle r ts hr := by simp [Nec.protocol, Nec.checkSync, hr]
  mark r ts hr h := by
    have hc : comparePulse (r.delta ts) (Nec.basePulse * 16) (Nec.basePulse / 2) = true :=
      comparePulse_near (by decide) (by decide) (by decide) h
    show Nec.checkSync r ts true = _
    unfold Nec.checkSync
    rw [if_pos hr]
    simp only [if_true]
    rw [if_pos (show comparePulse (Receiver.delta { r with pulses := [] } ts) _ _ = true from hc)]
    rfl
  space r ts hr h := by
    have hc : comparePulse (r.delta ts) (Nec.basePulse * 8) (Nec.basePulse / 2) = true :=
      comparePulse_near (by decide) (by decide) (by decide) h
    simp [Nec.protocol, Nec.checkSync, hr, hc]
  bits r ts falling hr := by simp [Nec.protocol, Nec.checkSync, hr]

theorem syncs_samsung : Syncs Samsung.protocol (562 * 8) (562 * 8) where
  idle r ts hr := by simp [Samsung.protocol, Samsung.checkSync, hr]
  mark r ts hr h := by
    have hc : comparePulse (r.delta ts) (Samsung.basePulse * 8) (Samsung.basePulse / 2) = true :=
      comparePulse_near (by decide) (by decide) (by decide) h
    show Samsung.checkSync r ts true = _
    unfold Samsung.checkSync
    rw [if_pos hr]
    simp only [if_true]
    rw [if_pos (show comparePulse (Receiver.delta { r with pulses := [] } ts) _ _ = true from hc)]
    rfl
  space r ts hr h := by
    have hc : comparePulse (r.delta ts) (Samsung.basePulse * 8) (Samsung.basePulse / 2) = true :=
      comparePulse_near (by decide) (by decide) (by decide) h
    simp [Samsung.protocol, Samsung.checkSync, hr, hc]
  bits r ts falling hr := by simp [Samsung.protocol, Samsung.checkSync, hr]

/-- What `decode` makes of a message of four bytes. -/
theorem decode_nec {pulses : List UInt32} {d0 d1 d2 d3 : UInt8}
    (h : List.Forall₂ Near pulses (messageTimes 562 (562 * 16) [d0, d1, d2, d3])) (address : UInt16) :
    Nec.decode pulses address =
      (d2 ^^^ d3 == 0xff && ((if d0 ^^^ d1 ≠ 0xff then d0.toUInt16 + d1.toUInt16 * 256 else d0.toUInt16) == address ||
        address == 0xffff),
       if d0 ^^^ d1 ≠ 0xff then d0.toUInt16 + d1.toUInt16 * 256 else d0.toUInt16, d2.toUInt16) := by
  have hlen := h.length_eq
  rw [length_messageTimes] at hlen
  obtain ⟨p, q, is, k, rfl, hp, hq, -, hread⟩ := near_split h
  have h0 : comparePulse p (Nec.basePulse * 16) (Nec.basePulse / 2) = true :=
    comparePulse_near (by decide) (by decide) (by decide) hp
  have h1 : comparePulse q (Nec.basePulse * 8) (Nec.basePulse / 2) = true :=
    comparePulse_near (by decide) (by decide) (by decide) hq
  have h2 : comparePulse q (Nec.basePulse * 4) (Nec.basePulse / 2) = false := by
    apply comparePulse_above
    have : 4496 < q.toNat + 281 := hq.2
    show 2248 + 281 ≤ q.toNat
    omega
  unfold Nec.decode
  rw [hlen]
  simp only [messageLen, List.cons_append, List.getD_cons_zero, List.getD_cons_succ, h0, if_true, h1, h2]
  simp only [List.cons_append] at hread
  have hread' : readBytes Nec.basePulse (p :: q :: (is ++ [k])) 4 (1 + 1 + 1) = [d0, d1, d2, d3] := hread
  simp [hread']

theorem decode_samsung {pulses : List UInt32} {d0 d1 d2 d3 : UInt8}
    (h : List.Forall₂ Near pulses (messageTimes 562 (562 * 8) [d0, d1, d2, d3])) (address : UInt16) :
    Samsung.decode pulses address =
      (d2 ^^^ d3 == 0xff && ((if d0 ≠ d1 then d0.toUInt16 + d1.toUInt16 * 256 else d0.toUInt16) == address ||
        address == 0xffff),
       if d0 ≠ d1 then d0.toUInt16 + d1.toUInt16 * 256 else d0.toUInt16, d2.toUInt16) := by
  have hlen := h.length_eq
  rw [length_messageTimes] at hlen
  obtain ⟨p, q, is, k, rfl, hp, hq, -, hread⟩ := near_split h
  have h0 : comparePulse p (Samsung.basePulse * 8) (Samsung.basePulse / 2) = true :=
    comparePulse_near (by decide) (by decide) (by decide) hp
  have h1 : comparePulse q (Samsung.basePulse * 8) (Samsung.basePulse / 2) = true :=
    comparePulse_near (by decide) (by decide) (by decide) hq
  unfold Samsung.decode
  rw [hlen]
  simp only [messageLen, List.cons_append, List.getD_cons_zero, List.getD_cons_succ, h0, if_true, h1]
  simp only [List.cons_append] at hread
  have hread' : readBytes Samsung.basePulse (p :: q :: (is ++ [k])) 4 (1 + 1 + 1) = [d0, d1, d2, d3] := hread
  simp [hread']

/-! ## Addresses -/

theorem long_address (addr : UInt16) : addr.toUInt8.toUInt16 + (addr >>> 8).toUInt8.toUInt16 * 256 = addr := by
  apply UInt16.toNat_inj.1
  have h : addr.toNat < 2 ^ 16 := addr.toNat_lt
  simp only [UInt16.toNat_add, UInt16.toNat_mul, UInt8.toNat_toUInt16, UInt16.toNat_toUInt8, UInt16.toNat_shiftRight]
  show (addr.toNat % 2 ^ 8 + addr.toNat >>> 8 % 2 ^ 8 * 256 % 2 ^ 16) % 2 ^ 16 = addr.toNat
  rw [Nat.shiftRight_eq_div_pow]
  omega

theorem short_address {addr : UInt16} (h : ¬ addr > 255) : addr.toUInt8.toUInt16 = addr := by
  apply UInt16.toNat_inj.1
  have hle : ¬ 255 < addr.toNat := fun hc => h (UInt16.lt_iff_toNat_lt.2 hc)
  rw [UInt8.toNat_toUInt16, UInt16.toNat_toUInt8]
  omega

theorem xor_eq_iff (a b c : UInt8) : a ^^^ b = c ↔ b = a ^^^ c := by
  constructor
  · rintro rfl
    rw [← UInt8.xor_assoc, UInt8.xor_self, UInt8.zero_xor]
  · rintro rfl
    rw [← UInt8.xor_assoc, UInt8.xor_self, UInt8.zero_xor]

/-- The address out of two bytes, the second of which is the copy of a short address or not. -/
theorem arrives_eq (c : Code) (addr : UInt16) {data1 : UInt8}
    (h : data1 = if addr > 255 then (addr >>> 8).toUInt8 else c.copy addr.toUInt8) :
    (if data1 ≠ c.copy addr.toUInt8 then addr.toUInt8.toUInt16 + data1.toUInt16 * 256 else addr.toUInt8.toUInt16) =
      c.arrives addr := by
  unfold Code.arrives
  by_cases hl : addr > 255
  · rw [if_pos hl] at h
    by_cases hs : c.LooksShort addr
    · rw [if_neg (fun hc => hc (h.trans hs)), if_pos ⟨hl, hs⟩]
    · rw [if_pos (fun hc => hs (h.symm.trans hc)), if_neg (fun hc => hs hc.2), h, long_address]
  · rw [if_neg hl] at h
    rw [if_neg (fun hc => hc h), if_neg (fun hc => hl hc.1), short_address hl]

/-- What a receiver for all addresses makes of a message that was sent. -/
theorem decode_sent (c : Code) (addr : UInt16) (func : UInt8) {pulses : List UInt32}
    (h : List.Forall₂ Near pulses (c.setMessageTimes addr func.toUInt16)) :
    c.protocol.decode pulses 0xffff = (true, c.arrives addr, func.toUInt16) := by
  have hfunc : func.toUInt16.toUInt8 = func := UInt8.toUInt8_toUInt16 func
  have hcheck : func ^^^ (func ^^^ 0xff) = 0xff := (xor_eq_iff _ _ _).2 rfl
  cases c with
  | nec =>
    have hd := decode_nec h 0xffff
    have ha := arrives_eq .nec addr rfl
    rw [← ha]
    refine hd.trans ?_
    simp only [ne_eq, xor_eq_iff, Code.copy, hfunc]
    simp [hcheck]
  | samsung =>
    have hd := decode_samsung h 0xffff
    have ha := arrives_eq .samsung addr rfl
    rw [← ha]
    refine hd.trans ?_
    simp only [ne_eq, Code.copy, hfunc, @eq_comm _ addr.toUInt8]
    simp [hcheck]

/-! ## A message over the air -/

/-- **A message is received as it was sent**, once, at its last edge; but an address that is long and looks short
arrives as its low byte. -/
theorem sent_received (c : Code) (addr : UInt16) (func : UInt8) {r : Receiver} (hr : r.Idle)
    (hmx : r.mxPulse = messageLen) (haddr : r.address = 0xffff) (hcb : r.rcb = true) (ts : UInt64) {is : List UInt32}
    (h : List.Forall₂ Near is (c.setMessageTimes addr func.toUInt16)) :
    (r.feed c.protocol (edges ts is).dropLast).acts = r.acts ∧
    (r.feed c.protocol (edges ts is)).acts = r.acts ++ [.received (lastTs ts is) (c.arrives addr) func.toUInt16] ∧
    (r.feed c.protocol (edges ts is)).Idle := by
  have hd : c.protocol.decode is r.address.toUInt16 = (true, c.arrives addr, func.toUInt16) := by
    rw [haddr]
    exact decode_sent c addr func h
  cases c with
  | nec =>
    obtain ⟨p, q, is, k, rfl, hp, hq, hlen, -⟩ := near_split h
    exact received_once syncs_nec.starts hr hcb hp hq is k (by rw [hmx, hlen]; rfl) ts hd
  | samsung =>
    obtain ⟨p, q, is, k, rfl, hp, hq, hlen, -⟩ := near_split h
    exact received_once syncs_samsung.starts hr hcb hp hq is k (by rw [hmx, hlen]; rfl) ts hd

/-- A receiver as the application sets it up. -/
def listener : Receiver := { mxPulse := messageLen, rcb := true }

/-- Every interval of a message is too long. -/
theorem sent_received_late :
    (listener.feed Nec.protocol (edges 7 ((Nec.setMessageTimes 0x1234 0x45).map (· + 280)))).acts =
      [.received (lastTs 7 ((Nec.setMessageTimes 0x1234 0x45).map (· + 280))) 0x1234 0x45] := by
  have hall : (Nec.setMessageTimes 0x1234 0x45).all (fun i => decide (Near (i + 280) i)) = true := by decide +kernel
  have hlate : List.Forall₂ Near ((Nec.setMessageTimes 0x1234 0x45).map (· + 280))
      (Nec.setMessageTimes 0x1234 0x45) := by
    rw [List.forall₂_map_left_iff, List.forall₂_same]
    exact fun i hi => of_decide_eq_true (List.all_eq_true.1 hall i hi)
  exact (sent_received .nec 0x1234 0x45 (r := listener) ⟨rfl, rfl, rfl, rfl, rfl⟩ rfl rfl rfl 7 hlate).2.1

/-- **A long address that looks short**: the frame is that of its low byte, and the low byte is what arrives. -/
theorem long_arrives_short :
    Nec.setMessageTimes 0xfe01 0x45 = Nec.setMessageTimes 0x01 0x45 ∧
    Samsung.setMessageTimes 0x0101 0x45 = Samsung.setMessageTimes 0x01 0x45 ∧
    (listener.feed Nec.protocol (edges 0 (Nec.setMessageTimes 0xfe01 0x45))).acts = [.received 68002 0x01 0x45] ∧
    (listener.feed Samsung.protocol (edges 0 (Samsung.setMessageTimes 0x0101 0x45))).acts =
      [.received 56762 0x01 0x45] := by
  decide +kernel

end Ir
end Pico
