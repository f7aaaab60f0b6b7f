import Picolibs.TxtOps
/-!
# Packet — a websocket packet built in its `TXT` (`ws.cpp`, `txt.cpp`)

`Txt.buildPacket` puts the header before the payload and then masks in place, with the enlarged `datasize()` as the
number of bytes.  `packetWrites` has every index of the buffer that is written, in the order of the source; `Same` is
the packet that `WS::BuildPacket` makes in a `std::string`, and `packet_same_iff` says that a mask is never that.
-/
namespace Pico
namespace Packet

open Txt (Owned Holds insert insert_holds)

/-- The bits of the header and what follows them. -/
def packetHead (opcode : Ws.OpCode) (n : Nat) (masked : Bool) (rand : UInt32) : Bytes :=
  let payloadLen : UInt8 := if n < 126 then UInt8.ofNat n else if n < 0x10000 then 126 else 127
  let len : Bytes :=
    if payloadLen = 126 then [UInt8.ofNat (n >>> 8), UInt8.ofNat n]
    else if payloadLen = 127 then
      [0, 0, 0, 0, UInt8.ofNat (n >>> 24), UInt8.ofNat (n >>> 16), UInt8.ofNat (n >>> 8), UInt8.ofNat n]
    else []
  [0x80 ||| opcode.code, payloadLen ||| (if masked then 0x80 else 0)] ++ len ++
    (if masked then (Ws.maskBytesOf rand).toList else [])

/-- `header.meta.bits.MASK`. -/
def masked (mask : Bool) (n : Nat) : Bool := mask && decide (0 < n)

/-- The indices `insert(0, str, len)` writes: the copy into a new buffer, the move of the text from its end on, the
NUL, the string and the NUL again. -/
def insertWrites (t : Txt) (len : Nat) : List Nat :=
  (if t.bufsiz ≤ t.endptr + len then List.range (t.endptr + 1) else []) ++
    (List.range t.endptr).map (fun ii => t.endptr + len - 1 - ii) ++ [t.endptr + len] ++
    List.range len ++ [t.endptr + len]

/-- The indices the mask loop writes, for `n` bytes from `start` on. -/
def maskWrites (start n : Nat) : List Nat := (List.range n).map (start + ·)

/-- The indices `WS::BuildPacket` writes in the buffer of the `TXT`. -/
def packetWrites (opcode : Ws.OpCode) (msg : Txt) (mask : Bool) (rand : UInt32) : List Nat :=
  let hdr := packetHead opcode msg.datasize (masked mask msg.datasize) rand
  insertWrites msg hdr.length ++
    if masked mask msg.datasize then maskWrites hdr.length (hdr.length + msg.datasize) else []

/-- The packet is the one in a `std::string`, nothing is written behind its NUL, and the NUL is there. -/
def Same (opcode : Ws.OpCode) (t : Txt) (mask : Bool) (rand : UInt32) : Prop :=
  ∃ size r, Txt.buildPacket opcode t mask rand = .ok (size, r) ∧
    Ws.buildPacket opcode t.text mask rand = .ok (size, r.text) ∧
    (∀ i ∈ packetWrites opcode t mask rand, i ≤ r.datasize) ∧ r.data[r.datasize]? = some 0

/-! ## What the mask loop does at the indices it writes -/

theorem mem_maskWrites {start n k : Nat} : k ∈ maskWrites start n ↔ start ≤ k ∧ k < start + n := by
  rw [maskWrites, List.mem_map]
  constructor
  · rintro ⟨i, hi, rfl⟩
    rw [List.mem_range] at hi
    omega
  · rintro ⟨hle, hlt⟩
    exact ⟨k - start, List.mem_range.2 (by omega), by omega⟩

/-- **Every index of the loop is written, and no other**: the byte there takes one mask byte, and the loop does not
return where one of them is outside. -/
theorem xorLoop_writes (mask : Vector UInt8 4) (start : Nat) : ∀ (n i : Nat) (p : Bytes), start + i + n ≤ 2 ^ 32 →
    ((∃ q, Ws.xorLoop mask start n i p = .ok q) ↔ ∀ k ∈ maskWrites (start + i) n, k < p.length) ∧
    ∀ q, Ws.xorLoop mask start n i p = .ok q → ∀ k, q[k]? =
      if k ∈ maskWrites (start + i) n then p[k]?.map (· ^^^ mask[(k - start) % 4]) else p[k]?
  | 0, i, p, _ => by
    rw [Ws.xorLoop]
    refine ⟨iff_of_true ⟨p, rfl⟩ fun k hk => absurd hk List.not_mem_nil, ?_⟩
    rintro q hq k
    cases hq
    exact (if_neg List.not_mem_nil).symm
  | n + 1, i, p, h => by
    have hk : (start + i) % 2 ^ 32 = start + i := Nat.mod_eq_of_lt (by omega)
    have hmem : ∀ k, k ∈ maskWrites (start + i) (n + 1) ↔ k = start + i ∨ k ∈ maskWrites (start + (i + 1)) n := by
      intro k
      rw [mem_maskWrites, mem_maskWrites]
      omega
    rw [Ws.xorLoop]
    simp only [hk]
    by_cases hlt : start + i < p.length
    · obtain ⟨hok, hget⟩ := xorLoop_writes mask start n (i + 1) (p.set (start + i) (p[start + i] ^^^ mask[i % 4]))
        (by omega)
      rw [dif_pos hlt]
      constructor
      · rw [hok]
        simp only [hmem, List.length_set, forall_eq_or_imp]
        exact ⟨fun hall => ⟨hlt, hall⟩, fun hall => hall.2⟩
      · intro q hq k
        rw [hget q hq k]
        by_cases hki : k = start + i
        · subst hki
          have hno : start + i ∉ maskWrites (start + (i + 1)) n := by
            rw [mem_maskWrites]
            omega
          rw [if_neg hno, if_pos ((hmem _).2 (Or.inl rfl)), List.getElem?_set_self hlt,
            List.getElem?_eq_getElem hlt, Option.map_some]
          simp only [Nat.add_sub_cancel_left]
        · rw [List.getElem?_set_ne (Ne.symm hki)]
          simp only [hmem, hki, false_or]
    · rw [dif_neg hlt]
      constructor
      · refine iff_of_false ?_ fun hall => hlt (hall _ ((hmem _).2 (Or.inl rfl)))
        rintro ⟨q, hq⟩
        cases hq
      · intro q hq
        cases hq

/-! ## With and without a mask -/

theorem buildPacket_eq (opcode : Ws.OpCode) (t : Txt) (mask : Bool) (rand : UInt32) :
    Txt.buildPacket opcode t mask rand = (do
      let hdr := packetHead opcode t.datasize (masked mask t.datasize) rand
      let msg ← insert t 0 hdr
      let b ← if masked mask t.datasize then Ws.xorLoop (Ws.maskBytesOf rand) hdr.length msg.datasize 0 msg.buffer
        else .ok msg.buffer
      .ok (UInt32.ofNat msg.datasize, { msg with buffer := b })) := rfl

/-- Without a mask, the packet in a `std::string`. -/
theorem string_unmasked (opcode : Ws.OpCode) {payload : Bytes} {mask : Bool} (rand : UInt32)
    (hm : masked mask payload.length = false) :
    Ws.buildPacket opcode payload mask rand =
      .ok (UInt32.ofNat (packetHead opcode payload.length false rand ++ payload).length,
        packetHead opcode payload.length false rand ++ payload) := by
  rw [masked] at hm
  unfold Ws.buildPacket packetHead
  simp only [hm, Bool.false_eq_true, if_false]
  rfl

/-- `insert` writes nothing behind the NUL. -/
theorem mem_insertWrites {t : Txt} {len i : Nat} (h : i ∈ insertWrites t len) : i ≤ len + t.endptr := by
  simp only [insertWrites, List.mem_append, List.mem_map, List.mem_range, List.mem_singleton] at h
  rcases h with (((h | ⟨ii, -, rfl⟩) | rfl) | h) | rfl
  · split at h
    · rw [List.mem_range] at h
      omega
    · cases h
  all_goals omega

theorem packetHead_masked (opcode : Ws.OpCode) (n : Nat) (rand : UInt32) :
    6 ≤ (packetHead opcode n true rand).length := by
  rw [packetHead]
  simp only [List.length_append, if_true, Vector.length_toList, List.length_cons, List.length_nil]
  omega

theorem insert_head {t : Txt} (h : t.Owned) (hdr : Bytes) :
    ∃ t', insert t 0 hdr = .ok t' ∧ Holds t' (hdr ++ t.text) ∧ t'.datasize = hdr.length + t.datasize := by
  obtain ⟨t', hi, h'⟩ := insert_holds (a := []) (b := t.text) h.holds.room hdr
  refine ⟨t', hi, h', ?_⟩
  rw [Txt.datasize, h'.endptr, List.nil_append, List.length_append, Txt.length_text h]
  rfl

/-- A mask is applied behind the NUL. -/
theorem not_same_of_masked {opcode : Ws.OpCode} {t : Txt} (h : t.Owned) {rand : UInt32} (hn : 0 < t.datasize) :
    ¬ Same opcode t true rand := by
  rintro ⟨size, r, hr, -, hwrites, -⟩
  have hm : masked true t.datasize = true := decide_eq_true hn
  obtain ⟨t', ht', -, hsize⟩ := insert_head h (packetHead opcode t.datasize true rand)
  have hlen := packetHead_masked opcode t.datasize rand
  rw [buildPacket_eq] at hr
  simp only [hm, if_true, ht', bind, Except.bind] at hr
  cases hx : Ws.xorLoop (Ws.maskBytesOf rand) (packetHead opcode t.datasize true rand).length t'.datasize 0
      t'.buffer with
  | error f =>
    rw [hx] at hr
    cases hr
  | ok b =>
    rw [hx] at hr
    cases hr
    have hmem : (packetHead opcode t.datasize true rand).length + t.datasize + 1 ∈ packetWrites opcode t true rand := by
      rw [packetWrites, hm, if_pos rfl]
      exact List.mem_append_right _ (mem_maskWrites.2 (by omega))
    have hle : (packetHead opcode t.datasize true rand).length + t.datasize + 1 ≤ t'.datasize := hwrites _ hmem
    omega

/-- **When a packet in a `TXT` is the one in a `std::string`**: when nothing is masked. -/
theorem packet_same_iff {t : Txt} (h : t.Owned) (opcode : Ws.OpCode) (mask : Bool) (rand : UInt32) :
    Same opcode t mask rand ↔ ¬ (mask = true ∧ 0 < t.datasize) := by
  constructor
  · rintro hs ⟨rfl, hn⟩
    exact not_same_of_masked h hn hs
  · intro hno
    have hm : masked mask t.datasize = false := by
      rw [masked, Bool.and_eq_false_iff, decide_eq_false_iff_not, ← Bool.not_eq_true]
      exact not_and_or.1 hno
    have hlen : t.text.length = t.datasize := Txt.length_text h
    have hm' : masked mask t.text.length = false := by
      rw [hlen]
      exact hm
    obtain ⟨t', ht', h', hsize⟩ := insert_head h (packetHead opcode t.datasize false rand)
    refine ⟨UInt32.ofNat t'.datasize, t', ?_, ?_, ?_, h'.ended⟩
    · rw [buildPacket_eq]
      simp only [hm, Bool.false_eq_true, if_false, ht', bind, Except.bind]
    · rw [string_unmasked opcode rand hm', h'.text, List.length_append, hlen, hsize]
    · intro i hi
      rw [packetWrites, hm, if_neg Bool.false_ne_true, List.append_nil] at hi
      rw [hsize]
      exact mem_insertWrites hi

/-- `hi` in a buffer of 32 bytes. -/
def hi : Txt := { buffer := [104, 105, 0] ++ Txt.newChar 29, bufsiz := 32, endptr := 2 }

theorem packet_same_hi : Same .text hi false 7 :=
  (packet_same_iff (t := hi) ⟨rfl, by decide, rfl⟩ .text false 7).2 (by decide)

theorem packet_not_same : ¬ ∀ (t : Txt) (opcode : Ws.OpCode) (mask : Bool) (rand : UInt32), t.Owned →
    Same opcode t mask rand :=
  fun h => not_same_of_masked (t := hi) ⟨rfl, by decide, rfl⟩ (by decide) (h hi .text true 7 ⟨rfl, by decide, rfl⟩)

end Packet
end Pico
