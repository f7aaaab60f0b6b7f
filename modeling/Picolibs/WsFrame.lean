import Picolibs.Ws
/-!
# WsFrame — a frame on the wire, and what `ParsePacket` makes of it

A frame is a first byte, an optional mask, a payload and one of the three length forms that can hold its length (a
field of the structure).  `ParsePacket` on a frame and further bytes succeeds on exactly that frame
(`parsePacket_frame`); on a proper prefix it fails and changes no byte (`parsePacket_prefix`), so a frame is never
unmasked twice or partly.  `buildPacket_eq` says which frame `BuildPacket` writes, and the round trip follows.
-/
namespace Pico
namespace Ws

/-- The three ways of writing a length: in PAYLOADLEN, in two bytes, in eight. -/
inductive LenForm where
  | byte
  | word
  | quad
  deriving DecidableEq, Repr

def LenForm.holds : LenForm → Nat → Prop
  | .byte, n => n < 126
  | .word, n => n < 2 ^ 16
  | .quad, n => n < 2 ^ 32 - 14

def LenForm.code : LenForm → Nat → UInt8
  | .byte, n => UInt8.ofNat n
  | .word, _ => 126
  | .quad, _ => 127

def LenForm.bytes : LenForm → Nat → Bytes
  | .byte, _ => []
  | .word, n => [UInt8.ofNat (n >>> 8), UInt8.ofNat n]
  | .quad, n => [0, 0, 0, 0, UInt8.ofNat (n >>> 24), UInt8.ofNat (n >>> 16), UInt8.ofNat (n >>> 8), UInt8.ofNat n]

structure Frame where
  byte0 : UInt8
  key : Option (Vector UInt8 4)
  form : LenForm
  payload : Bytes
  fits : form.holds payload.length

namespace Frame

def opcode (f : Frame) : UInt8 := f.byte0 &&& 15

def byte1 (f : Frame) : UInt8 := f.form.code f.payload.length ||| (if f.key.isSome then 128 else 0)

def keyBytes (f : Frame) : Bytes := (f.key.map Vector.toList).getD []

def head (f : Frame) : Bytes := [f.byte0, f.byte1] ++ f.form.bytes f.payload.length ++ f.keyBytes

def body (f : Frame) : Bytes :=
  match f.key with
  | none => f.payload
  | some m => xorFrom m 0 f.payload

def bytes (f : Frame) : Bytes := f.head ++ f.body

/-- Where the length ends and the mask, if any, begins. -/
def lenEnd (f : Frame) : Nat := 2 + (f.form.bytes f.payload.length).length

@[simp] theorem length_body (f : Frame) : f.body.length = f.payload.length := by
  unfold body
  cases f.key with
  | none => rfl
  | some m => exact length_xorFrom m 0 f.payload

theorem length_head (f : Frame) : f.head.length = f.lenEnd + f.keyBytes.length := by
  unfold head lenEnd
  simp only [List.length_append, List.length_cons, List.length_nil]

theorem length_bytes (f : Frame) : f.bytes.length = f.head.length + f.payload.length := by
  rw [bytes, List.length_append, length_body]

theorem length_lt (f : Frame) : f.payload.length < 2 ^ 32 - 14 := by
  have h := f.fits
  cases hf : f.form with
  | byte => rw [hf] at h; simp only [LenForm.holds] at h; omega
  | word => rw [hf] at h; simp only [LenForm.holds] at h; omega
  | quad => rw [hf] at h; exact h

theorem length_keyBytes (f : Frame) : f.keyBytes.length = if f.key.isSome then 4 else 0 := by
  unfold keyBytes
  cases f.key <;> simp

theorem lenEnd_le (f : Frame) : f.lenEnd ≤ 10 := by
  unfold lenEnd
  cases f.form <;> simp [LenForm.bytes]

theorem two_le_lenEnd (f : Frame) : 2 ≤ f.lenEnd := Nat.le_add_right 2 _

end Frame

/-! ## Bytes and bits -/

theorem or_mask_and (n : Nat) (h : n < 128) : (UInt8.ofNat n ||| 128) &&& 127 = UInt8.ofNat n := by
  have : ∀ m < 128, (UInt8.ofNat m ||| 128) &&& 127 = UInt8.ofNat m := by decide
  exact this n h

theorem or_zero_and (n : Nat) (h : n < 128) : (UInt8.ofNat n ||| 0) &&& 127 = UInt8.ofNat n := by
  have : ∀ m < 128, (UInt8.ofNat m ||| 0) &&& 127 = UInt8.ofNat m := by decide
  exact this n h

theorem le_or_mask (n : Nat) (h : n < 128) : 128 ≤ (UInt8.ofNat n ||| 128) := by
  have : ∀ m < 128, 128 ≤ (UInt8.ofNat m ||| 128) := by decide
  exact this n h

theorem not_le_or_zero (n : Nat) (h : n < 128) : ¬ 128 ≤ (UInt8.ofNat n ||| 0) := by
  have : ∀ m < 128, ¬ 128 ≤ (UInt8.ofNat m ||| 0) := by decide
  exact this n h

/-- The code of a length is a seven-bit number. -/
theorem LenForm.code_eq (form : LenForm) (n : Nat) (h : form.holds n) :
    ∃ c < 128, form.code n = UInt8.ofNat c ∧
      (form = .byte → c = n) ∧ (form = .word → c = 126) ∧ (form = .quad → c = 127) := by
  cases form with
  | byte => exact ⟨n, by simp only [holds] at h; omega, rfl, fun _ => rfl, nofun, nofun⟩
  | word => exact ⟨126, by decide, rfl, nofun, fun _ => rfl, nofun⟩
  | quad => exact ⟨127, by decide, rfl, nofun, nofun, fun _ => rfl⟩

theorem Frame.byte1_and (f : Frame) : f.byte1 &&& 127 = f.form.code f.payload.length := by
  obtain ⟨c, hc, he, -⟩ := f.form.code_eq _ f.fits
  rw [Frame.byte1, he]
  cases f.key with
  | none => exact or_zero_and c hc
  | some m => exact or_mask_and c hc

theorem Frame.le_byte1 (f : Frame) : (128 ≤ f.byte1) ↔ f.key.isSome = true := by
  obtain ⟨c, hc, he, -⟩ := f.form.code_eq _ f.fits
  rw [Frame.byte1, he]
  cases f.key with
  | none => simpa using not_le_or_zero c hc
  | some m => simpa using le_or_mask c hc

theorem toNat_word (n : Nat) (h : n < 2 ^ 16) :
    (UInt8.ofNat (n >>> 8)).toUInt32 <<< 8 ||| (UInt8.ofNat n).toUInt32 = UInt32.ofNat n := by
  apply UInt32.toNat_inj.1
  have e : n >>> 8 = n / 256 := Nat.shiftRight_eq_div_pow n 8
  have hor := Nat.two_pow_add_eq_or_of_lt (i := 8) (b := n % 256) (Nat.mod_lt _ (by decide)) (n / 256)
  simp only [UInt32.toNat_or, UInt32.toNat_shiftLeft, UInt8.toNat_toUInt32, UInt8.toNat_ofNat', UInt32.toNat_ofNat', e]
  have h1 : n / 256 % 2 ^ 8 = n / 256 := Nat.mod_eq_of_lt (by omega)
  have h2 : (n / 256) <<< (UInt32.toNat 8 % 32) % 2 ^ 32 = 2 ^ 8 * (n / 256) := by
    rw [Nat.shiftLeft_eq]
    show n / 256 * 2 ^ 8 % 2 ^ 32 = _
    rw [Nat.mod_eq_of_lt (by omega), Nat.mul_comm]
  rw [h1, h2, show n % 2 ^ 8 = n % 256 from rfl, ← hor]
  omega

theorem toNat_shl (c k : Nat) (hc : c < 256) (hk : k ≤ 24) :
    ((UInt8.ofNat c).toUInt32 <<< UInt32.ofNat k).toNat = 2 ^ k * c := by
  have h32 : k % 2 ^ 32 % 32 = k := by omega
  rw [UInt32.toNat_shiftLeft, UInt8.toNat_toUInt32, UInt8.toNat_ofNat', UInt32.toNat_ofNat', h32, Nat.shiftLeft_eq,
    Nat.mod_eq_of_lt hc, Nat.mul_comm]
  have h1 : 2 ^ k * c ≤ 2 ^ 24 * 255 := Nat.mul_le_mul (Nat.pow_le_pow_right (by decide) hk) (by omega)
  exact Nat.mod_eq_of_lt (by omega)

theorem toNat_quad (n : Nat) (h : n < 2 ^ 32) :
    (UInt8.ofNat (n >>> 24)).toUInt32 <<< 24 ||| (UInt8.ofNat (n >>> 16)).toUInt32 <<< 16 |||
      (UInt8.ofNat (n >>> 8)).toUInt32 <<< 8 ||| (UInt8.ofNat n).toUInt32 = UInt32.ofNat n := by
  have hmod (m : Nat) : UInt8.ofNat m = UInt8.ofNat (m % 256) := by
    apply UInt8.toNat_inj.1
    simp [UInt8.toNat_ofNat']
  rw [hmod (n >>> 24), hmod (n >>> 16), hmod (n >>> 8), hmod n]
  have e1 : n >>> 8 = n / 2 ^ 8 := Nat.shiftRight_eq_div_pow n 8
  have e2 : n >>> 16 = n / 2 ^ 16 := Nat.shiftRight_eq_div_pow n 16
  have e3 : n >>> 24 = n / 2 ^ 24 := Nat.shiftRight_eq_div_pow n 24
  generalize hA : n >>> 24 % 256 = A
  generalize hB : n >>> 16 % 256 = B
  generalize hC : n >>> 8 % 256 = C
  generalize hD : n % 256 = D
  have s24 := toNat_shl A 24 (by omega) (by decide)
  have s16 := toNat_shl B 16 (by omega) (by decide)
  have s8 := toNat_shl C 8 (by omega) (by decide)
  apply UInt32.toNat_inj.1
  have o1 := Nat.two_pow_add_eq_or_of_lt (i := 24) (b := 2 ^ 16 * B) (by omega) A
  have o2 := Nat.two_pow_add_eq_or_of_lt (i := 16) (b := 2 ^ 8 * C) (by omega) (2 ^ 8 * A + B)
  have o3 := Nat.two_pow_add_eq_or_of_lt (i := 8) (b := D) (by omega) (2 ^ 16 * A + 2 ^ 8 * B + C)
  have hD' : (UInt8.ofNat D).toUInt32.toNat = D := by
    rw [UInt8.toNat_toUInt32, UInt8.toNat_ofNat']
    omega
  rw [UInt32.toNat_or, UInt32.toNat_or, UInt32.toNat_or, hD']
  rw [show (24 : UInt32) = UInt32.ofNat 24 from rfl, show (16 : UInt32) = UInt32.ofNat 16 from rfl,
    show (8 : UInt32) = UInt32.ofNat 8 from rfl, s24, s16, s8, ← o1,
    show 2 ^ 24 * A + 2 ^ 16 * B = 2 ^ 16 * (2 ^ 8 * A + B) by omega, ← o2,
    show 2 ^ 16 * (2 ^ 8 * A + B) + 2 ^ 8 * C = 2 ^ 8 * (2 ^ 16 * A + 2 ^ 8 * B + C) by omega, ← o3,
    UInt32.toNat_ofNat']
  omega

/-! ## What `ParsePacket` reads

A packet `agrees` with a frame when the bytes it has of the frame's head are the frame's. -/

def Frame.agrees (f : Frame) (packet : Bytes) : Prop :=
  ∀ i, i < packet.length → i < f.head.length → packet[i]? = f.head[i]?

theorem Frame.agrees_append (f : Frame) (t : Bytes) : f.agrees (f.bytes ++ t) := by
  intro i _ hi
  rw [Frame.bytes, List.append_assoc, List.getElem?_append_left hi]

theorem Frame.agrees_of_prefix (f : Frame) {p : Bytes} (h : p <+: f.bytes) : f.agrees p := by
  intro i hp hi
  obtain ⟨t, ht⟩ := h
  have hin : (p ++ t)[i]? = p[i]? := List.getElem?_append_left hp
  rw [← hin, ht, Frame.bytes, List.getElem?_append_left hi]

theorem charAt_of_lt {p : Bytes} {i : Nat} (h : i < p.length) : charAt p i = .ok p[i] := by
  rw [charAt, List.getElem?_eq_getElem h]

theorem charAt_agrees {f : Frame} {p : Bytes} (hag : f.agrees p) {i : Nat} {c : UInt8} (hi : i < p.length)
    (hc : f.head[i]? = some c) : charAt p i = .ok c := by
  have hlt : i < f.head.length := (List.getElem?_eq_some_iff.1 hc).1
  rw [charAt, hag i hi hlt, hc]

theorem readLength_agrees {f : Frame} {p : Bytes} (hag : f.agrees p) (h : Header)
    (hcode : h.payloadLen = f.form.code f.payload.length) :
    readLength h p =
      .ok (if f.lenEnd ≤ p.length ∨ f.form = .byte then some (UInt32.ofNat f.payload.length, f.lenEnd) else none) := by
  have hfits := f.fits
  unfold readLength
  rw [hcode]
  cases hform : f.form with
  | byte =>
    rw [hform] at hfits
    simp only [LenForm.holds] at hfits
    have hne (k : Nat) (hk : 126 ≤ k) (hk' : k < 256) : LenForm.byte.code f.payload.length ≠ UInt8.ofNat k := by
      intro e
      have := congrArg UInt8.toNat e
      simp only [LenForm.code, UInt8.toNat_ofNat'] at this
      omega
    have h126 : LenForm.byte.code f.payload.length ≠ 126 := hne 126 (by decide) (by decide)
    have h127 : LenForm.byte.code f.payload.length ≠ 127 := hne 127 (by decide) (by decide)
    have hlen : (UInt8.ofNat f.payload.length).toUInt32 = UInt32.ofNat f.payload.length := by
      apply UInt32.toNat_inj.1
      simp only [UInt8.toNat_toUInt32, UInt8.toNat_ofNat', UInt32.toNat_ofNat']
      omega
    rw [if_neg h126, if_neg h127, if_pos (Or.inr rfl), LenForm.code, hlen, Frame.lenEnd, hform]
    rfl
  | word =>
    rw [hform] at hfits
    have hend : f.lenEnd = 4 := by rw [Frame.lenEnd, hform]; rfl
    have hhead : f.head = f.byte0 :: f.byte1 :: UInt8.ofNat (f.payload.length >>> 8) ::
        UInt8.ofNat f.payload.length :: f.keyBytes := by rw [Frame.head, hform]; rfl
    have hc : LenForm.word.code f.payload.length = 126 := rfl
    rw [if_pos hc, hend]
    simp only [reduceCtorEq, or_false]
    by_cases hp : p.length < 4
    · rw [if_pos hp, if_neg (by omega)]
    · have c2 := charAt_agrees hag (i := 2) (by omega) (by rw [hhead]; rfl)
      have c3 := charAt_agrees hag (i := 3) (by omega) (by rw [hhead]; rfl)
      rw [if_neg hp, if_pos (by omega), c2, c3, ← toNat_word _ hfits]
      rfl
  | quad =>
    have hlt := f.length_lt
    have hend : f.lenEnd = 10 := by rw [Frame.lenEnd, hform]; rfl
    have hhead : f.head = f.byte0 :: f.byte1 :: 0 :: 0 :: 0 :: 0 :: UInt8.ofNat (f.payload.length >>> 24) ::
        UInt8.ofNat (f.payload.length >>> 16) :: UInt8.ofNat (f.payload.length >>> 8) ::
        UInt8.ofNat f.payload.length :: f.keyBytes := by rw [Frame.head, hform]; rfl
    have hne : LenForm.quad.code f.payload.length ≠ 126 := (by decide : (127 : UInt8) ≠ 126)
    have hc : LenForm.quad.code f.payload.length = 127 := rfl
    rw [if_neg hne, if_pos hc, hend]
    simp only [reduceCtorEq, or_false]
    by_cases hp : p.length < 10
    · rw [if_pos hp, if_neg (by omega)]
    · have c6 := charAt_agrees hag (i := 6) (by omega) (by rw [hhead]; rfl)
      have c7 := charAt_agrees hag (i := 7) (by omega) (by rw [hhead]; rfl)
      have c8 := charAt_agrees hag (i := 8) (by omega) (by rw [hhead]; rfl)
      have c9 := charAt_agrees hag (i := 9) (by omega) (by rw [hhead]; rfl)
      rw [if_neg hp, if_pos (by omega), c6, c7, c8, c9, ← toNat_quad _ (by omega)]
      rfl

theorem toNat_index_add {idx n : Nat} (hidx : idx ≤ 14) (hn : n < 2 ^ 32 - 14) :
    (UInt32.ofNat idx + UInt32.ofNat n).toNat = idx + n := by
  rw [UInt32.toNat_add, UInt32.toNat_ofNat', UInt32.toNat_ofNat']
  omega

/-- Until the whole payload is there nothing is decrypted. -/
theorem readPayload_short {h : Header} {p : Bytes} {idx n : Nat} (hidx : idx ≤ 10) (hn : n < 2 ^ 32 - 14)
    (hl : h.length = UInt32.ofNat n) (hshort : p.length < idx + (if h.mask then 4 else 0) + n) :
    ∃ h', readPayload h p idx = .ok (wsFail, h', p) := by
  unfold readPayload
  cases hm : h.mask with
  | false =>
    rw [hm] at hshort
    refine ⟨h, ?_⟩
    rw [if_neg Bool.false_ne_true, checkPayload, hl, toNat_index_add (by omega) hn, if_pos (by simpa using hshort)]
  | true =>
    rw [hm] at hshort
    rw [if_pos rfl]
    by_cases hp : p.length < idx + 4
    · exact ⟨h, by rw [if_pos hp]⟩
    · rw [if_neg hp, charAt_of_lt (by omega), charAt_of_lt (by omega), charAt_of_lt (by omega),
        charAt_of_lt (by omega)]
      simp only [bind, Except.bind]
      rw [hl, toNat_index_add (by omega) hn, if_pos (by simpa using hshort)]
      exact ⟨_, rfl⟩

theorem checkPayload_enough {h : Header} {p : Bytes} {idx n : Nat} (hidx : idx ≤ 14) (hn : n < 2 ^ 32 - 14)
    (hl : h.length = UInt32.ofNat n) (hlen : idx + n ≤ p.length) :
    checkPayload h p idx = (wsSuccess, { h with start := UInt8.ofNat idx }, p) := by
  rw [checkPayload, hl, toNat_index_add hidx hn, if_neg (by omega)]

/-- The payload of a frame is unmasked where it stands. -/
theorem readPayload_frame {f : Frame} {h : Header} (t : Bytes) (hl : h.length = UInt32.ofNat f.payload.length)
    (hm : h.mask = f.key.isSome) :
    ∃ h', readPayload h (f.bytes ++ t) f.lenEnd = .ok (wsSuccess, h', f.head ++ f.payload ++ t) ∧
      h'.byte0 = h.byte0 ∧ h'.start = UInt8.ofNat f.head.length ∧ h'.length = h.length := by
  have hend := f.lenEnd_le
  have hn := f.length_lt
  have hhead := f.length_head
  unfold readPayload
  cases hk : f.key with
  | none =>
    have hkb : f.keyBytes = [] := by rw [Frame.keyBytes, hk]; rfl
    have hbytes : f.bytes = f.head ++ f.payload := by rw [Frame.bytes, Frame.body, hk]
    rw [hkb, List.length_nil, Nat.add_zero] at hhead
    rw [hm, hk, if_neg (by simp), checkPayload_enough (by omega) hn hl (by rw [hbytes]; simp; omega), hbytes]
    exact ⟨_, rfl, rfl, by rw [hhead], rfl⟩
  | some m =>
    have hkb : f.keyBytes = m.toList := by rw [Frame.keyBytes, hk]; rfl
    have hlen4 : m.toList.length = 4 := by simp
    have hbytes : f.bytes = f.head ++ xorFrom m 0 f.payload := by rw [Frame.bytes, Frame.body, hk]
    rw [hkb, hlen4] at hhead
    have hpl : (f.bytes ++ t).length = f.lenEnd + 4 + f.payload.length + t.length := by
      rw [hbytes]
      simp
      omega
    have hpre : f.head = [f.byte0, f.byte1] ++ f.form.bytes f.payload.length ++ m.toList := by rw [Frame.head, hkb]
    have hkey (j : Nat) (hj : j < 4) : charAt (f.bytes ++ t) (f.lenEnd + j) = .ok m[j] := by
      apply charAt_agrees (f.agrees_append t) (by omega)
      rw [hpre, List.getElem?_append_right (by simp [Frame.lenEnd]; omega)]
      have e : f.lenEnd + j - ([f.byte0, f.byte1] ++ f.form.bytes f.payload.length).length = j := by
        simp only [Frame.lenEnd, List.length_append, List.length_cons, List.length_nil]
        omega
      rw [e, List.getElem?_eq_getElem (by omega)]
      simp
    have hmask : #v[m[0], m[1], m[2], m[3]] = m := by
      apply Vector.ext
      intro i hi
      match i, hi with
      | 0, _ => rfl
      | 1, _ => rfl
      | 2, _ => rfl
      | 3, _ => rfl
    have hsome : (some m).isSome = true := rfl
    rw [hm, hk, if_pos hsome, if_neg (by omega), hkey 0 (by decide), hkey 1 (by decide), hkey 2 (by decide),
      hkey 3 (by decide)]
    simp only [bind, Except.bind]
    rw [hl, toNat_index_add (by omega) hn, if_neg (by omega), hmask]
    have hto : (UInt32.ofNat f.payload.length).toNat = (xorFrom m 0 f.payload).length := by
      rw [length_xorFrom, UInt32.toNat_ofNat']
      omega
    rw [hto, hbytes, xorLoop_eq m _ _ _ _ 0 (by omega) (by rw [length_xorFrom]; omega), xorFrom_xorFrom]
    simp only
    rw [checkPayload_enough (by omega) hn rfl (by simp; omega)]
    exact ⟨_, rfl, rfl, by rw [hhead], rfl⟩

/-! ## One packet -/

theorem Frame.byte0_agrees {f : Frame} {p : Bytes} (hag : f.agrees p) (hp : 2 ≤ p.length) :
    charAt p 0 = .ok f.byte0 ∧ charAt p 1 = .ok f.byte1 :=
  ⟨charAt_agrees hag (by omega) rfl, charAt_agrees hag (by omega) rfl⟩

/-- **A whole frame, with anything behind it, is one packet**: its payload unmasked in place, the bytes behind it
untouched. -/
theorem parsePacket_frame (f : Frame) (h : Header) (t : Bytes) :
    ∃ h', parsePacket h (f.bytes ++ t) = .ok (wsSuccess, h', f.head ++ f.payload ++ t) ∧
      h'.opcode = f.opcode ∧ h'.start.toNat = f.head.length ∧ h'.length.toNat = f.payload.length := by
  have hag := f.agrees_append t
  have hlen : f.lenEnd ≤ (f.bytes ++ t).length := by
    rw [List.length_append, f.length_bytes, f.length_head]
    omega
  have h2 := f.two_le_lenEnd
  obtain ⟨c0, c1⟩ := Frame.byte0_agrees hag (by omega)
  unfold parsePacket
  rw [if_neg (by omega), c0, c1]
  simp only [bind, Except.bind]
  rw [readLength_agrees hag { h with byte0 := f.byte0, byte1 := f.byte1, length := (f.byte1 &&& 127).toUInt32 }
    f.byte1_and, if_pos (Or.inl hlen)]
  simp only
  have hm : decide (128 ≤ f.byte1) = f.key.isSome := by
    rw [Bool.eq_iff_iff, decide_eq_true_eq]
    exact f.le_byte1
  obtain ⟨h', he, hb, hs, hl⟩ := readPayload_frame (h := { h with
    byte0 := f.byte0, byte1 := f.byte1, length := UInt32.ofNat f.payload.length }) t rfl hm
  have hend := f.lenEnd_le
  have hk := f.length_keyBytes
  have hh := f.length_head
  have hn := f.length_lt
  refine ⟨h', he, ?_, ?_, ?_⟩
  · rw [Header.opcode, hb, Frame.opcode]
  · rw [hs, UInt8.toNat_ofNat']
    split at hk <;> omega
  · rw [hl, UInt32.toNat_ofNat']
    omega

/-- **Part of a frame is no packet**, and is left as it was. -/
theorem parsePacket_prefix (f : Frame) (h : Header) {p : Bytes} (hp : p <+: f.bytes) (hlt : p.length < f.bytes.length) :
    ∃ h', parsePacket h p = .ok (wsFail, h', p) := by
  have hag := f.agrees_of_prefix hp
  unfold parsePacket
  by_cases h2 : p.length < 2
  · exact ⟨h, by rw [if_pos h2]⟩
  · obtain ⟨c0, c1⟩ := Frame.byte0_agrees hag (by omega)
    rw [if_neg h2, c0, c1]
    simp only [bind, Except.bind]
    rw [readLength_agrees hag { h with byte0 := f.byte0, byte1 := f.byte1, length := (f.byte1 &&& 127).toUInt32 }
      f.byte1_and]
    by_cases hc : f.lenEnd ≤ p.length ∨ f.form = .byte
    · rw [if_pos hc]
      simp only
      have hm : decide (128 ≤ f.byte1) = f.key.isSome := by
        rw [Bool.eq_iff_iff, decide_eq_true_eq]
        exact f.le_byte1
      apply readPayload_short f.lenEnd_le f.length_lt rfl
      rw [f.length_bytes, f.length_head, f.length_keyBytes] at hlt
      simpa only [Header.mask, hm] using hlt
    · rw [if_neg hc]
      exact ⟨_, rfl⟩

/-! ## What `BuildPacket` writes -/

def formOf (n : Nat) : LenForm := if n < 126 then .byte else if n < 2 ^ 16 then .word else .quad

theorem formOf_holds {n : Nat} (h : n < 2 ^ 32 - 14) : (formOf n).holds n := by
  unfold formOf
  split
  · assumption
  · split
    · assumption
    · exact h

def builtKey (payload : Bytes) (mask : Bool) (rand : UInt32) : Option (Vector UInt8 4) :=
  if mask && decide (0 < payload.length) then some (maskBytesOf rand) else none

def builtFrame (opcode : OpCode) (payload : Bytes) (mask : Bool) (rand : UInt32) (h : payload.length < 2 ^ 32 - 14) :
    Frame :=
  { byte0 := 0x80 ||| opcode.code, key := builtKey payload mask rand, form := formOf payload.length,
    payload := payload, fits := formOf_holds h }

theorem builtFrame_opcode (opcode : OpCode) (payload : Bytes) (mask : Bool) (rand : UInt32)
    (h : payload.length < 2 ^ 32 - 14) : (builtFrame opcode payload mask rand h).opcode = opcode.code := by
  show (0x80 ||| opcode.code) &&& 15 = opcode.code
  cases opcode <;> decide

/-- The length field and its bytes, as `BuildPacket` chooses them. -/
theorem built_length (n : Nat) :
    (if n < 126 then UInt8.ofNat n else if n < 0x10000 then 126 else 127) = (formOf n).code n ∧
    (if (formOf n).code n = 126 then [UInt8.ofNat (n >>> 8), UInt8.ofNat n]
      else if (formOf n).code n = 127 then
        [0, 0, 0, 0, UInt8.ofNat (n >>> 24), UInt8.ofNat (n >>> 16), UInt8.ofNat (n >>> 8), UInt8.ofNat n]
      else []) = (formOf n).bytes n := by
  unfold formOf
  by_cases h1 : n < 126
  · have hne (k : Nat) (hk : 126 ≤ k) (hk' : k < 256) : UInt8.ofNat n ≠ UInt8.ofNat k := by
      intro e
      have := congrArg UInt8.toNat e
      simp only [UInt8.toNat_ofNat'] at this
      omega
    have h126 : LenForm.byte.code n ≠ 126 := hne 126 (by decide) (by decide)
    have h127 : LenForm.byte.code n ≠ 127 := hne 127 (by decide) (by decide)
    simp only [if_pos h1, if_neg h126, if_neg h127]
    exact ⟨rfl, rfl⟩
  · rw [if_neg h1, if_neg h1]
    by_cases h2 : n < 0x10000
    · rw [if_pos h2, if_pos (show n < 2 ^ 16 from h2)]
      exact ⟨rfl, rfl⟩
    · rw [if_neg h2, if_neg (show ¬ n < 2 ^ 16 from h2)]
      exact ⟨rfl, rfl⟩

/-- **`BuildPacket` writes one frame**, in the shortest form that holds the length. -/
theorem buildPacket_eq (opcode : OpCode) (payload : Bytes) (mask : Bool) (rand : UInt32)
    (h : payload.length < 2 ^ 32 - 14) :
    buildPacket opcode payload mask rand =
      .ok (UInt32.ofNat (builtFrame opcode payload mask rand h).bytes.length,
        (builtFrame opcode payload mask rand h).bytes) := by
  obtain ⟨hcode, hbytes⟩ := built_length payload.length
  unfold buildPacket
  simp only [hcode, hbytes]
  cases hm : (mask && decide (0 < payload.length)) with
  | false =>
    have hkey : builtKey payload mask rand = none := by rw [builtKey, hm]; rfl
    have hb : (builtFrame opcode payload mask rand h).bytes = [0x80 ||| opcode.code,
        (formOf payload.length).code payload.length ||| 0] ++ (formOf payload.length).bytes payload.length ++ [] ++
        payload := by
      simp only [Frame.bytes, Frame.head, Frame.body, Frame.keyBytes, Frame.byte1, builtFrame, hkey]
      rfl
    rw [hb]
    rfl
  | true =>
    have hkey : builtKey payload mask rand = some (maskBytesOf rand) := by rw [builtKey, hm]; rfl
    have hb : (builtFrame opcode payload mask rand h).bytes = [0x80 ||| opcode.code,
        (formOf payload.length).code payload.length ||| 128] ++ (formOf payload.length).bytes payload.length ++
        (maskBytesOf rand).toList ++ xorFrom (maskBytesOf rand) 0 payload := by
      simp only [Frame.bytes, Frame.head, Frame.body, Frame.keyBytes, Frame.byte1, builtFrame, hkey]
      rfl
    have hend := (builtFrame opcode payload mask rand h).lenEnd_le
    simp only [Frame.lenEnd, builtFrame] at hend
    have hx := xorLoop_eq (maskBytesOf rand) (2 + ((formOf payload.length).bytes payload.length).length + 4) payload
      ([0x80 ||| opcode.code, (formOf payload.length).code payload.length ||| 128] ++
        (formOf payload.length).bytes payload.length ++ (maskBytesOf rand).toList) [] 0 (by simp; omega) (by omega)
    rw [List.append_nil, List.append_nil] at hx
    simp only [if_true, hx, hb]
    rfl

/-- **`ParsePacket` undoes `BuildPacket`**, whatever follows the packet, and takes nothing less than the packet. -/
theorem parsePacket_buildPacket (opcode : OpCode) (payload : Bytes) (mask : Bool) (rand : UInt32) (header : Header)
    (hlen : payload.length < 2 ^ 32 - 14) :
    ∃ size msg, buildPacket opcode payload mask rand = .ok (size, msg) ∧
      (∀ further, ∃ h' left, parsePacket header (msg ++ further) = .ok (wsSuccess, h', left) ∧
        h'.opcode = opcode.code ∧ h'.length.toNat = payload.length ∧
        (left.drop h'.start.toNat).take h'.length.toNat = payload ∧
        left.drop (h'.start.toNat + h'.length.toNat) = further) ∧
      ∀ p, p <+: msg → p ≠ msg → ∃ h', parsePacket header p = .ok (wsFail, h', p) := by
  refine ⟨_, _, buildPacket_eq opcode payload mask rand hlen, fun further => ?_, fun p hp hne => ?_⟩
  · obtain ⟨h', he, ho, hs, hl⟩ := parsePacket_frame (builtFrame opcode payload mask rand hlen) header further
    have hpay : (builtFrame opcode payload mask rand hlen).payload = payload := rfl
    rw [hpay] at he hl
    refine ⟨h', _, he, by rw [ho, builtFrame_opcode], hl, ?_, ?_⟩
    · rw [hs, hl, List.append_assoc, List.drop_left, List.take_left]
    · rw [hs, hl, ← List.length_append, List.drop_left]
  · refine parsePacket_prefix _ header hp ?_
    obtain ⟨t, ht⟩ := hp
    have ht0 : t ≠ [] := fun e => hne (by rw [← ht, e, List.append_nil])
    have := List.length_pos_of_ne_nil ht0
    rw [← ht, List.length_append]
    omega

theorem parsePacket_buildPacket_hi : ([72, 105] : Bytes).length < 2 ^ 32 - 14 ∧
    ∃ size msg, buildPacket .text [72, 105] true 0x04030201 = .ok (size, msg) ∧
      (∀ further, ∃ h' left, parsePacket {} (msg ++ further) = .ok (wsSuccess, h', left) ∧
        h'.opcode = OpCode.text.code ∧ h'.length.toNat = ([72, 105] : Bytes).length ∧
        (left.drop h'.start.toNat).take h'.length.toNat = [72, 105] ∧
        left.drop (h'.start.toNat + h'.length.toNat) = further) ∧
      ∀ p, p <+: msg → p ≠ msg → ∃ h', parsePacket {} p = .ok (wsFail, h', p) :=
  ⟨by decide, parsePacket_buildPacket .text [72, 105] true 0x04030201 {} (by decide)⟩

end Ws
end Pico
