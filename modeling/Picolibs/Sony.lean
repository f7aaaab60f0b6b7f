import Mathlib.Data.Nat.Bitwise
import Picolibs.IrReceiver
/-!
# Sony — a code of any size (`sony_transmitter.cpp` and `sony_receiver.cpp`)

A mark of four base pulses, then the function and the address from the lowest bit on: a space of one base pulse, and a
mark of one or two.  The sizes belong to the subclass on one side and to the receiver on the other; they are at most 16
bits each and 20 together, so that nothing wraps and `times` holds a message.
-/
namespace Pico
namespace Ir
namespace Sony

def basePulse : UInt32 := 600

/-- The loops of `setMessageTimes`: the pulses of a word, with `k` bits to go. -/
def wordTimes : Nat → UInt16 → UInt16 → List UInt32
  | 0, _, _ => []
  | k + 1, word, mask =>
    basePulse :: (if word &&& mask = 0 then basePulse else basePulse * 2) :: wordTimes k word (mask <<< 1)

def setMessageTimes (addressSize commandSize : Nat) (addr func : UInt16) : List UInt32 :=
  (basePulse * 4) :: (wordTimes commandSize func 1 ++ wordTimes addressSize addr 1)

/-- `check_sync`. -/
def checkSync (r : Receiver) (ts : UInt64) (falling : Bool) : Bool × Receiver :=
  if r.sync = 0 then
    let r := { r with pulses := [] }
    if falling then
      let delta := r.delta ts
      if comparePulse delta (basePulse * 4) (basePulse / 2) then
        (false, { r with pulses := r.pulses ++ [delta], sync := 1 })
      else (false, r)
    else (false, r)
  else if r.sync = 1 then
    let delta := r.delta ts
    if !falling && comparePulse delta (basePulse * 1) (basePulse / 2) then
      (false, { r with sync := 2, pulses := r.pulses ++ [delta] })
    else (false, r.reset)
  else (decide (r.sync = 2), r)

/-- The loops of `decode`: a word from the pulse `ii` on, with `k` bits to go, and whether every pulse was one of a bit. -/
def readWord (pulses : List UInt32) : Nat → Nat → UInt16 → UInt16 → Bool × UInt16
  | 0, _, _, word => (true, word)
  | k + 1, ii, mask, word =>
    let space := pulses.getD ii 0
    let mark := pulses.getD (ii + 1) 0
    if !comparePulse space basePulse (basePulse / 2) then (false, word)
    else if comparePulse mark (basePulse * 2) (basePulse / 2) then readWord pulses k (ii + 2) (mask <<< 1) (word ||| mask)
    else if !comparePulse mark basePulse (basePulse / 2) then (false, word)
    else readWord pulses k (ii + 2) (mask <<< 1) word

/-- `decode`. -/
def decode (addrSize valueSize : Nat) (pulses : List UInt32) (address : UInt16) : Bool × UInt16 × UInt16 :=
  if pulses.length < 1 then (false, 0, 0)
  else
    let ii := if comparePulse (pulses.getD 0 0) (basePulse * 4) (basePulse / 2) then 1 else 0
    if ii ≠ 1 ∨ pulses.length - ii < (addrSize + valueSize) * 2 + 1 - 1 then (false, 0, 0)
    else
      let func := readWord pulses valueSize ii 1 0
      if !func.1 then (false, 0, func.2)
      else
        let addr := readWord pulses addrSize (ii + 2 * valueSize) 1 0
        if !addr.1 then (false, addr.2, func.2)
        else (addr.2 == address || address == 0xffff, addr.2, func.2)

def protocol (addrSize valueSize : Nat) : Protocol := ⟨checkSync, decode addrSize valueSize⟩

/-- The size of a receiver's buffer. -/
def messageLen (addrSize valueSize : Nat) : Nat := (addrSize + valueSize) * 2 + 1

/-! ## The bands -/

theorem compare_mark {p : UInt32} : comparePulse p (basePulse * 4) (basePulse / 2) = true ↔ Within 300 p 2400 :=
  comparePulse_iff (by decide) (by decide)

theorem compare_one {p : UInt32} : comparePulse p basePulse (basePulse / 2) = true ↔ Within 300 p 600 :=
  comparePulse_iff (by decide) (by decide)

theorem compare_two {p : UInt32} : comparePulse p (basePulse * 2) (basePulse / 2) = true ↔ Within 300 p 1200 :=
  comparePulse_iff (by decide) (by decide)

/-- The bands of the two marks do not meet. -/
theorem not_two {p : UInt32} (h : Within 300 p 600) : comparePulse p (basePulse * 2) (basePulse / 2) = false := by
  rw [Bool.eq_false_iff, ne_eq, compare_two]
  obtain ⟨h1, -⟩ := h
  rintro ⟨-, h2⟩
  have h1 : p.toNat < 600 + 300 := h1
  have h2 : 1200 < p.toNat + 300 := h2
  omega

theorem starts (addrSize valueSize : Nat) :
    Starts (protocol addrSize valueSize) (Within 300 · 2400) (Within 300 · 600) where
  idle r ts hr := by simp [protocol, checkSync, hr]
  mark r ts hr h := by
    have hc := compare_mark.2 h
    show checkSync r ts true = _
    unfold checkSync
    rw [if_pos hr]
    simp only [if_true]
    rw [if_pos (show comparePulse (Receiver.delta { r with pulses := [] } ts) _ _ = true from hc)]
    rfl
  space r ts hr h := by
    have hc := compare_one.2 h
    simp [protocol, checkSync, hr, hc]
  bits r ts falling hr := by simp [protocol, checkSync, hr]

/-! ## What is decoded has the shape of a message -/

/-- The pulses of `k` bits from `ii` on are spaces and marks. -/
def Bits (pulses : List UInt32) (ii k : Nat) : Prop :=
  ∀ j, j < k → Within 300 (pulses.getD (ii + 2 * j) 0) 600 ∧
    (Within 300 (pulses.getD (ii + 2 * j + 1) 0) 600 ∨ Within 300 (pulses.getD (ii + 2 * j + 1) 0) 1200)

theorem Bits.cons {pulses : List UInt32} {ii k : Nat} (hspace : Within 300 (pulses.getD ii 0) 600)
    (hmark : Within 300 (pulses.getD (ii + 1) 0) 600 ∨ Within 300 (pulses.getD (ii + 1) 0) 1200)
    (h : Bits pulses (ii + 2) k) : Bits pulses ii (k + 1)
  | 0, _ => ⟨hspace, hmark⟩
  | j + 1, hj => by
    have := h j (Nat.lt_of_succ_lt_succ hj)
    rw [show ii + 2 * (j + 1) = ii + 2 + 2 * j by omega]
    exact this

theorem bits_of_readWord (pulses : List UInt32) : ∀ (k ii : Nat) (mask word : UInt16),
    (readWord pulses k ii mask word).1 = true → Bits pulses ii k
  | 0, _, _, _, _ => fun j hj => absurd hj (Nat.not_lt_zero j)
  | k + 1, ii, mask, word, h => by
    rw [readWord] at h
    split at h
    · cases h
    · next hspace =>
      rw [Bool.not_eq_true', Bool.not_eq_false, compare_one] at hspace
      split at h
      · next hmark => exact .cons hspace (Or.inr (compare_two.1 hmark)) (bits_of_readWord pulses k _ _ _ h)
      · split at h
        · cases h
        · next hmark =>
          rw [Bool.not_eq_true', Bool.not_eq_false, compare_one] at hmark
          exact .cons hspace (Or.inl hmark) (bits_of_readWord pulses k _ _ _ h)

/-- What `decode` accepts. -/
structure Shaped (addrSize valueSize : Nat) (pulses : List UInt32) (address addr : UInt16) : Prop where
  long : messageLen addrSize valueSize ≤ pulses.length
  sync : Within 300 (pulses.getD 0 0) 2400
  bits : Bits pulses 1 (valueSize + addrSize)
  filter : addr = address ∨ address = 0xffff

theorem Bits.append {pulses : List UInt32} {ii m n : Nat} (h : Bits pulses ii m) (h' : Bits pulses (ii + 2 * m) n) :
    Bits pulses ii (m + n) := by
  intro j hj
  by_cases hjm : j < m
  · exact h j hjm
  · have := h' (j - m) (by omega)
    rw [show ii + 2 * m + 2 * (j - m) = ii + 2 * j by omega] at this
    exact this

theorem decode_of_sync {addrSize valueSize : Nat} {pulses : List UInt32} (address : UInt16)
    (hlen : messageLen addrSize valueSize ≤ pulses.length) (hsync : Within 300 (pulses.getD 0 0) 2400) :
    decode addrSize valueSize pulses address =
      if !(readWord pulses valueSize 1 1 0).1 then (false, 0, (readWord pulses valueSize 1 1 0).2)
      else if !(readWord pulses addrSize (1 + 2 * valueSize) 1 0).1 then
        (false, (readWord pulses addrSize (1 + 2 * valueSize) 1 0).2, (readWord pulses valueSize 1 1 0).2)
      else
        ((readWord pulses addrSize (1 + 2 * valueSize) 1 0).2 == address || address == 0xffff,
          (readWord pulses addrSize (1 + 2 * valueSize) 1 0).2, (readWord pulses valueSize 1 1 0).2) := by
  unfold messageLen at hlen
  unfold decode
  simp only [compare_mark.2 hsync, if_true]
  rw [if_neg (by omega), if_neg (by omega)]

theorem decode_of_not_sync {addrSize valueSize : Nat} {pulses : List UInt32} (address : UInt16)
    (h : ¬ (messageLen addrSize valueSize ≤ pulses.length ∧ Within 300 (pulses.getD 0 0) 2400)) :
    decode addrSize valueSize pulses address = (false, 0, 0) := by
  unfold messageLen at h
  unfold decode
  split
  · rfl
  · simp only
    by_cases hsync : Within 300 (pulses.getD 0 0) 2400
    · rw [if_pos (compare_mark.2 hsync), if_pos]
      have hshort : ¬ (addrSize + valueSize) * 2 + 1 ≤ pulses.length := fun hl => h ⟨hl, hsync⟩
      exact Or.inr (by omega)
    · rw [if_neg (fun hc => hsync (compare_mark.1 hc)), if_pos (Or.inl (by decide))]

/-- **A message is decoded from a mark, spaces and marks of its own lengths, and for the filter's address.** -/
theorem shaped_of_decode {addrSize valueSize : Nat} {pulses : List UInt32} {address : UInt16}
    (h : (decode addrSize valueSize pulses address).1 = true) :
    Shaped addrSize valueSize pulses address (decode addrSize valueSize pulses address).2.1 := by
  by_cases hs : messageLen addrSize valueSize ≤ pulses.length ∧ Within 300 (pulses.getD 0 0) 2400
  · obtain ⟨hlen, hsync⟩ := hs
    rw [decode_of_sync address hlen hsync] at h ⊢
    split at h
    · cases h
    · next hfunc =>
      rw [if_neg hfunc]
      split at h
      · cases h
      · next haddr =>
        rw [if_neg haddr]
        rw [Bool.not_eq_true', Bool.not_eq_false] at hfunc haddr
        refine ⟨hlen, hsync, (bits_of_readWord _ _ _ _ _ hfunc).append (bits_of_readWord _ _ _ _ _ haddr), ?_⟩
        simpa using h
  · rw [decode_of_not_sync address hs] at h
    cases h

/-! ## Reading what was sent -/

/-- A word put together from its bits. -/
def assembleWord : Nat → UInt16 → UInt16 → UInt16 → UInt16
  | 0, _, _, word => word
  | k + 1, sent, mask, word => assembleWord k sent (mask <<< 1) (if sent &&& mask = 0 then word else word ||| mask)

theorem length_wordTimes : ∀ (k : Nat) (word mask : UInt16), (wordTimes k word mask).length = 2 * k
  | 0, _, _ => rfl
  | k + 1, word, mask => by
    rw [wordTimes, List.length_cons, List.length_cons, length_wordTimes k]
    omega

theorem readWord_within (pulses : List UInt32) : ∀ (k : Nat) (sent : UInt16) (ii : Nat) (mask word : UInt16)
    (rest : List UInt32), List.Forall₂ (Within 300) (pulses.drop ii) (wordTimes k sent mask ++ rest) →
    readWord pulses k ii mask word = (true, assembleWord k sent mask word)
  | 0, _, _, _, _, _, _ => rfl
  | k + 1, sent, ii, mask, word, rest, h => by
    rw [wordTimes, List.cons_append, List.cons_append] at h
    obtain ⟨p, tl, hp, htl, hdrop⟩ := List.forall₂_cons_right_iff.1 h
    obtain ⟨q, tl', hq, htl', rfl⟩ := List.forall₂_cons_right_iff.1 htl
    have hget0 : pulses.getD ii 0 = p := by
      rw [List.getD_eq_getElem?_getD, ← Nat.add_zero ii, ← List.getElem?_drop, hdrop]
      rfl
    have hget1 : pulses.getD (ii + 1) 0 = q := by
      rw [List.getD_eq_getElem?_getD, ← List.getElem?_drop, hdrop]
      rfl
    have hdrop2 : pulses.drop (ii + 2) = tl' := by
      rw [← List.drop_drop, hdrop]
      rfl
    have ih (word : UInt16) := readWord_within pulses k sent (ii + 2) (mask <<< 1) word rest
      (by rw [hdrop2]; exact htl')
    rw [readWord, hget0, hget1, compare_one.2 hp, assembleWord]
    by_cases hb : sent &&& mask = 0
    · rw [if_pos hb] at hq ⊢
      simp [not_two hq, compare_one.2 hq, ih]
    · rw [if_neg hb] at hq ⊢
      simp [compare_two.2 hq, ih]

theorem bit_eq_zero_iff {sent mask : UInt16} {j : Nat} (hm : mask.toNat = 2 ^ j) :
    sent &&& mask = 0 ↔ sent.toNat.testBit j = false := by
  rw [← UInt16.toNat_inj, UInt16.toNat_and, hm, Nat.and_two_pow]
  have hpos : 0 < 2 ^ j := Nat.two_pow_pos j
  cases sent.toNat.testBit j with
  | false => simp
  | true => simp

theorem toNat_or_mask {word mask : UInt16} {j : Nat} (hm : mask.toNat = 2 ^ j) (hw : word.toNat < 2 ^ j) :
    (word ||| mask).toNat = word.toNat + 2 ^ j := by
  have h := Nat.two_pow_add_eq_or_of_lt hw 1
  rw [Nat.mul_one] at h
  rw [UInt16.toNat_or, hm, Nat.or_comm, ← h, Nat.add_comm]

theorem assembleWord_eq : ∀ (k j : Nat) (sent mask word : UInt16), j + k ≤ 16 → (k = 0 ∨ mask.toNat = 2 ^ j) →
    word.toNat = sent.toNat % 2 ^ j → (assembleWord k sent mask word).toNat = sent.toNat % 2 ^ (j + k)
  | 0, j, sent, mask, word, _, _, hw => hw
  | k + 1, j, sent, mask, word, hj, hm, hw => by
    have hm : mask.toNat = 2 ^ j := hm.resolve_left (Nat.succ_ne_zero k)
    rw [assembleWord, show j + (k + 1) = j + 1 + k by omega]
    refine assembleWord_eq k (j + 1) sent (mask <<< 1) _ (by omega) ?_ ?_
    · rcases Nat.eq_zero_or_pos k with hk | hk
      · exact Or.inl hk
      · right
        have hlt : 2 ^ (j + 1) < 2 ^ 16 := Nat.pow_lt_pow_right (by decide) (by omega)
        rw [UInt16.toNat_shiftLeft, hm]
        show 2 ^ j <<< 1 % 2 ^ 16 = 2 ^ (j + 1)
        rw [Nat.shiftLeft_eq, ← Nat.pow_add, Nat.mod_eq_of_lt hlt]
    · rw [Nat.mod_pow_succ, ← Nat.toNat_testBit, ← hw]
      by_cases hb : sent &&& mask = 0
      · rw [if_pos hb, (bit_eq_zero_iff hm).1 hb]
        simp
      · have hset : sent.toNat.testBit j = true := by
          rw [bit_eq_zero_iff hm, Bool.not_eq_false] at hb
          exact hb
        rw [if_neg hb, hset, toNat_or_mask hm (by rw [hw]; exact Nat.mod_lt _ (Nat.two_pow_pos j))]
        simp

/-- **The word that was sent is the word that is read**, when its bits are sent. -/
theorem assembleWord_self {k : Nat} (hk : k ≤ 16) {word : UInt16} (hw : word.toNat < 2 ^ k) :
    assembleWord k word 1 0 = word := by
  apply UInt16.toNat_inj.1
  have h := assembleWord_eq k 0 word 1 0 (by omega) (Or.inr rfl) (by rw [Nat.pow_zero, Nat.mod_one]; rfl)
  rw [Nat.zero_add, Nat.mod_eq_of_lt hw] at h
  exact h

variable {addressSize valueSize : Nat} {addr func : UInt16}

/-- What a receiver makes of a message that was sent. -/
theorem decode_sent (ha : addressSize ≤ 16) (hv : valueSize ≤ 16) (haddr : addr.toNat < 2 ^ addressSize)
    (hfunc : func.toNat < 2 ^ valueSize) {pulses : List UInt32}
    (h : List.Forall₂ (Within 300) pulses (setMessageTimes addressSize valueSize addr func)) (address : UInt16) :
    decode addressSize valueSize pulses address = (addr == address || address == 0xffff, addr, func) := by
  have hlen := h.length_eq
  rw [setMessageTimes, List.length_cons, List.length_append, length_wordTimes, length_wordTimes] at hlen
  obtain ⟨p, tl, hp, htl, hpulses⟩ := List.forall₂_cons_right_iff.1 h
  have hsync : Within 300 (pulses.getD 0 0) 2400 := by
    rw [hpulses]
    exact hp
  have hdrop : pulses.drop 1 = tl := by rw [hpulses]; rfl
  have hread : readWord pulses valueSize 1 1 0 = (true, func) := by
    rw [readWord_within pulses valueSize func 1 1 0 _ (by rw [hdrop]; exact htl), assembleWord_self hv hfunc]
  have hread' : readWord pulses addressSize (1 + 2 * valueSize) 1 0 = (true, addr) := by
    have hrest := List.forall₂_drop_append _ _ _ htl
    rw [length_wordTimes, ← hdrop, List.drop_drop] at hrest
    rw [readWord_within pulses addressSize addr _ 1 0 [] (by rw [List.append_nil]; exact hrest),
      assembleWord_self ha haddr]
  rw [decode_of_sync address (by rw [messageLen]; omega) hsync, hread, hread']
  rfl

/-! ## A message over the air -/

/-- The sizes that a variant may have. -/
structure Sizes (addressSize valueSize : Nat) : Prop where
  address : 1 ≤ addressSize ∧ addressSize ≤ 16
  value : 1 ≤ valueSize ∧ valueSize ≤ 16
  both : addressSize + valueSize ≤ 20

/-- What a receiver is to call for a message: the filter takes all addresses or this one. -/
def answer (filter : UInt32) (ts : UInt64) (addr func : UInt16) : Act :=
  if filter = 0xffff ∨ filter = addr.toUInt32 then .received ts addr func else .error

/-- It is called, and nothing else, at the last edge. -/
structure Delivered (P : Protocol) (r : Receiver) (ts : UInt64) (is : List UInt32) (addr func : UInt16) : Prop where
  before : (r.feed P (edges ts is).dropLast).acts = r.acts
  called : (r.feed P (edges ts is)).acts = r.acts ++ [answer r.address (lastTs ts is) addr func]

/-- A filter of more than 16 bits is cut where `decode` is given it. -/
theorem filter_iff (filter : UInt32) (addr : UInt16) :
    ((addr == filter.toUInt16 || filter.toUInt16 == 0xffff) = true ↔ (filter = 0xffff ∨ filter = addr.toUInt32)) ↔
      ¬ (0xffff < filter ∧ (filter.toUInt16 = addr ∨ filter.toUInt16 = 0xffff)) := by
  rw [Bool.or_eq_true, beq_iff_eq, beq_iff_eq]
  by_cases hlt : 0xffff < filter
  · have h1 : filter ≠ 0xffff := fun e => by rw [e] at hlt; exact absurd hlt (by decide)
    have h2 : filter ≠ addr.toUInt32 := fun e => by
      rw [e, UInt32.lt_iff_toNat_lt, UInt16.toNat_toUInt32] at hlt
      have : 0xffff < addr.toNat := hlt
      have := addr.toNat_lt
      omega
    simp [h1, h2, hlt, eq_comm]
  · have hle : filter.toNat < 2 ^ 16 := by
      rw [UInt32.lt_iff_toNat_lt] at hlt
      have : ¬ 0xffff < filter.toNat := hlt
      omega
    have hself : filter.toUInt16.toUInt32 = filter := by
      apply UInt32.toNat_inj.1
      rw [UInt16.toNat_toUInt32, UInt32.toNat_toUInt16, Nat.mod_eq_of_lt hle]
    refine iff_of_true ⟨?_, ?_⟩ (fun h => hlt h.1)
    · rintro (h | h)
      · right
        rw [h, hself]
      · left
        rw [← hself, h]
        rfl
    · rintro (h | h)
      · right
        rw [h]
        rfl
      · left
        rw [h, UInt16.toUInt16_toUInt32]

theorem outcome_eq_iff {r : Receiver} (hcb : r.rcb = true) (herr : r.err = true) (ts : UInt64) (addr func : UInt16) :
    r.outcome ts (addr == r.address.toUInt16 || r.address.toUInt16 == 0xffff, addr, func) =
      [answer r.address ts addr func] ↔
    ¬ (0xffff < r.address ∧ (r.address.toUInt16 = addr ∨ r.address.toUInt16 = 0xffff)) := by
  rw [← filter_iff]
  unfold Receiver.outcome answer
  rw [if_pos hcb, if_pos herr]
  cases addr == r.address.toUInt16 || r.address.toUInt16 == 0xffff with
  | true =>
    by_cases hf : r.address = 0xffff ∨ r.address = addr.toUInt32
    · simp [hf]
    · simp [hf]
  | false =>
    by_cases hf : r.address = 0xffff ∨ r.address = addr.toUInt32
    · simp [hf]
    · simp [hf]

theorem within_split (hv : 1 ≤ valueSize) {pulses : List UInt32}
    (h : List.Forall₂ (Within 300) pulses (setMessageTimes addressSize valueSize addr func)) :
    ∃ p q is k, pulses = p :: q :: is ++ [k] ∧ Within 300 p 2400 ∧ Within 300 q 600 ∧
      is.length + 3 = messageLen addressSize valueSize := by
  have hlen := h.length_eq
  rw [setMessageTimes, List.length_cons, List.length_append, length_wordTimes, length_wordTimes] at hlen
  obtain ⟨v, rfl⟩ : ∃ v, valueSize = v + 1 := ⟨valueSize - 1, by omega⟩
  obtain ⟨p, tl, hp, htl, rfl⟩ := List.forall₂_cons_right_iff.1 h
  obtain ⟨q, rest, hq, -, rfl⟩ := List.forall₂_cons_right_iff.1 htl
  rcases List.eq_nil_or_concat rest with rfl | ⟨is, k, rfl⟩
  · simp only [List.length_cons, List.length_nil] at hlen
    omega
  · refine ⟨p, q, is, k, by rw [List.concat_eq_append]; rfl, hp, hq, ?_⟩
    simp only [List.length_cons, List.concat_eq_append, List.length_append, List.length_nil] at hlen
    rw [messageLen]
    omega

/-- **A message is received as it was sent** by a receiver whose filter is for all addresses or for its own, and is an
error for any other, exactly where `decode` is given the whole of the filter. -/
theorem sent_received_iff (hs : Sizes addressSize valueSize) (haddr : addr.toNat < 2 ^ addressSize)
    (hfunc : func.toNat < 2 ^ valueSize) {r : Receiver} (hr : r.Idle)
    (hmx : r.mxPulse = messageLen addressSize valueSize) (hcb : r.rcb = true) (herr : r.err = true) (ts : UInt64)
    {is : List UInt32} (h : List.Forall₂ (Within 300) is (setMessageTimes addressSize valueSize addr func)) :
    (Delivered (protocol addressSize valueSize) r ts is addr func ∧
      ∀ pulses address, (decode addressSize valueSize pulses address).1 = true →
        Shaped addressSize valueSize pulses address (decode addressSize valueSize pulses address).2.1) ↔
    ¬ (0xffff < r.address ∧ (r.address.toUInt16 = addr ∨ r.address.toUInt16 = 0xffff)) := by
  have hd := decode_sent hs.address.2 hs.value.2 haddr hfunc h r.address.toUInt16
  obtain ⟨p, q, is, k, rfl, hp, hq, hlen⟩ := within_split hs.value.1 h
  obtain ⟨hbefore, hacts, -⟩ := reported_once (starts addressSize valueSize) hr hp hq is k (hlen.trans hmx.symm) ts hd
  rw [← outcome_eq_iff hcb herr (lastTs ts (p :: q :: is ++ [k])) addr func]
  constructor
  · rintro ⟨hdelivered, -⟩
    exact List.append_cancel_left (hacts.symm.trans hdelivered.called)
  · intro ho
    rw [ho] at hacts
    exact ⟨⟨hbefore, hacts⟩, fun _ _ => shaped_of_decode⟩

/-- A receiver of twelve bits for one address, as the application sets it up. -/
def listener (address : UInt32) : Receiver :=
  { mxPulse := messageLen 5 7, address := address, rcb := true, err := true }

/-- Every interval of a message is too long. -/
theorem sent_received_iff_late :
    Delivered (protocol 5 7) (listener 3) 7 ((setMessageTimes 5 7 3 21).map (· + 299)) 3 21 := by
  have hall : (setMessageTimes 5 7 3 21).all (fun i => decide (Within 300 (i + 299) i)) = true := by decide
  have hlate : List.Forall₂ (Within 300) ((setMessageTimes 5 7 3 21).map (· + 299)) (setMessageTimes 5 7 3 21) := by
    rw [List.forall₂_map_left_iff, List.forall₂_same]
    exact fun i hi => of_decide_eq_true (List.all_eq_true.1 hall i hi)
  exact ((sent_received_iff ⟨by decide, by decide, by decide⟩ (by decide) (by decide) (r := listener 3)
    ⟨rfl, rfl, rfl, rfl, rfl⟩ rfl rfl rfl 7 hlate).2 (by decide)).1

/-- A filter that no address equals takes the address of its low half. -/
theorem filter_cut : ¬ ∀ (r : Receiver) (ts : UInt64) (addr func : UInt16), r.Idle → r.mxPulse = messageLen 5 7 →
    r.rcb = true → r.err = true → addr.toNat < 2 ^ 5 → func.toNat < 2 ^ 7 →
    Delivered (protocol 5 7) r ts (setMessageTimes 5 7 addr func) addr func := by
  intro hall
  have h := (hall (listener 0x10003) 0 3 21 ⟨rfl, rfl, rfl, rfl, rfl⟩ rfl rfl rfl (by decide) (by decide)).called
  revert h
  decide +kernel

end Sony
end Ir
end Pico
