import Picolibs.HttpPost
/-!
# Escapes — encoded text, and what `uri_decode` makes of it

`Coded` relates a text to the ways it may be sent: byte by byte, with a choice at every byte, and at every hex digit of
its case.  `uri_decode` gives the text back, whatever it has in `ii` before (`uriDecode_coded`).
-/
namespace Pico
namespace Http

open Text

/-! ## Encoding -/

/-- One byte as it may be sent: itself unless it is reserved, a space as `+`, any byte as `%` and two hex digits. -/
inductive Code (reserved : Bytes) : UInt8 → Bytes → Prop where
  | plain (c : UInt8) : c ∉ reserved → Code reserved c [c]
  | space : Code reserved 32 [43]
  | escape (c hi lo : UInt8) (h l : Nat) : hexVal hi = some h → hexVal lo = some l → c.toNat = h * 16 + l →
      Code reserved c [37, hi, lo]

/-- A text as it may be sent. -/
inductive Coded (reserved : Bytes) : Bytes → Bytes → Prop where
  | nil : Coded reserved [] []
  | cons {c : UInt8} {code s t : Bytes} : Code reserved c code → Coded reserved s t →
      Coded reserved (c :: s) (code ++ t)

/-- A byte that has to be escaped is not in the encoded text. -/
theorem Coded.not_mem {reserved s t : Bytes} {x : UInt8} (h : Coded reserved s t) (hx : x ∈ reserved) (h37 : x ≠ 37)
    (h43 : x ≠ 43) (hhex : hexVal x = none) : x ∉ t := by
  induction h with
  | nil => exact List.not_mem_nil
  | cons hc _ ih =>
    rw [List.mem_append, not_or]
    refine ⟨?_, ih⟩
    cases hc with
    | plain c hr =>
      rw [List.mem_singleton]
      rintro rfl
      exact hr hx
    | space => rwa [List.mem_singleton]
    | escape c hi lo h l hh hl _ =>
      simp only [List.mem_cons, List.not_mem_nil, or_false, not_or]
      refine ⟨h37, ?_, ?_⟩
      · rintro rfl
        rw [hhex] at hh
        cases hh
      · rintro rfl
        rw [hhex] at hl
        cases hl

/-! ## Hex digits -/

theorem hexVal_ne {c x : UInt8} {h : Nat} (hc : hexVal c = some h) (hx : hexVal x = none) : c ≠ x := by
  rintro rfl
  rw [hx] at hc
  cases hc

theorem isSpace_hex {c : UInt8} {h : Nat} (hc : hexVal c = some h) : isSpace c = false := by
  have h32 : c ≠ 32 := hexVal_ne hc rfl
  have hle : ¬ c ≤ 13 := by
    intro hle
    have hlt : c < 48 := Nat.lt_of_le_of_lt (UInt8.le_iff_toNat_le.1 hle) (by decide)
    have h48 : ¬ 48 ≤ c := UInt8.not_le.2 hlt
    have h97 : ¬ 97 ≤ c := fun h => h48 (UInt8.le_trans (by decide) h)
    have h65 : ¬ 65 ≤ c := fun h => h48 (UInt8.le_trans (by decide) h)
    simp [hexVal, h48, h97, h65] at hc
  simp [isSpace, h32, hle]

/-- **Two hex digits are read.** -/
theorem scanHex_pair {hi lo : UInt8} {h l : Nat} (hh : hexVal hi = some h) (hl : hexVal lo = some l) :
    scanHex [hi, lo] = some (UInt8.ofNat (h * 16 + l)) := by
  have hcstr : cstr [hi, lo] = [hi, lo] := by
    rw [cstr_eq_self_iff]
    have h0 := hexVal_ne hh (show hexVal 0 = none from rfl)
    have l0 := hexVal_ne hl (show hexVal 0 = none from rfl)
    simp [Ne.symm h0, Ne.symm l0]
  have h45 : hi ≠ 45 := hexVal_ne hh rfl
  have h43 : hi ≠ 43 := hexVal_ne hh rfl
  unfold scanHex
  simp [hcstr, isSpace_hex hh, h45, h43, hh, hl]

/-! ## Decoding -/

theorem uriDecodeFrom_nil : ∀ (n : Nat) (ii : UInt8), uriDecodeFrom n ii [] = []
  | 0, _ => rfl
  | _ + 1, _ => rfl

theorem uriDecodeFrom_enough : ∀ (n m : Nat) (ii : UInt8) (s : Bytes), s.length ≤ n → s.length ≤ m →
    uriDecodeFrom n ii s = uriDecodeFrom m ii s
  | n, m, ii, [], _, _ => by rw [uriDecodeFrom_nil, uriDecodeFrom_nil]
  | 0, _, _, _ :: _, h, _ => absurd h (Nat.not_succ_le_zero _)
  | _, 0, _, _ :: _, _, h => absurd h (Nat.not_succ_le_zero _)
  | n + 1, m + 1, ii, c :: s, hn, hm => by
    have hn' := Nat.le_of_succ_le_succ hn
    have hm' := Nat.le_of_succ_le_succ hm
    rw [uriDecodeFrom, uriDecodeFrom]
    split
    · have hdrop : (s.drop 2).length ≤ s.length := by
        rw [List.length_drop]
        exact Nat.sub_le _ _
      simp only [uriDecodeFrom_enough n m _ (s.drop 2) (Nat.le_trans hdrop hn') (Nat.le_trans hdrop hm')]
    · rw [uriDecodeFrom_enough n m ii s hn' hm']

/-- What decoding does at the next character. -/
theorem uriDecode_cons (ii c : UInt8) (s : Bytes) :
    uriDecode ii (c :: s) =
      if c = 37 then (scanHex (s.take 2)).getD ii :: uriDecode ((scanHex (s.take 2)).getD ii) (s.drop 2)
      else if c = 43 then 32 :: uriDecode ii s
      else c :: uriDecode ii s := by
  have hdrop : (s.drop 2).length ≤ s.length := by
    rw [List.length_drop]
    exact Nat.sub_le _ _
  rw [uriDecode, List.length_cons, uriDecodeFrom]
  simp only [uriDecode, uriDecodeFrom_enough s.length (s.drop 2).length _ (s.drop 2) hdrop (Nat.le_refl _)]

theorem uriDecode_nil (ii : UInt8) : uriDecode ii [] = [] := rfl

theorem uriDecode_plain {c : UInt8} (h37 : c ≠ 37) (h43 : c ≠ 43) (ii : UInt8) (s : Bytes) :
    uriDecode ii (c :: s) = c :: uriDecode ii s := by
  rw [uriDecode_cons, if_neg h37, if_neg h43]

theorem uriDecode_code {reserved code : Bytes} {c : UInt8} (h37 : 37 ∈ reserved) (h43 : 43 ∈ reserved)
    (h : Code reserved c code) (ii : UInt8) (rest : Bytes) :
    ∃ ii', uriDecode ii (code ++ rest) = c :: uriDecode ii' rest := by
  cases h with
  | plain _ hr =>
    have hc37 : c ≠ 37 := by
      rintro rfl
      exact hr h37
    have hc43 : c ≠ 43 := by
      rintro rfl
      exact hr h43
    exact ⟨ii, uriDecode_plain hc37 hc43 ii rest⟩
  | space => exact ⟨ii, by rw [List.singleton_append, uriDecode_cons, if_neg (by decide), if_pos rfl]⟩
  | escape _ hi lo h l hh hl hc =>
    have hscan : scanHex ((hi :: lo :: rest).take 2) = some c := by
      rw [List.take_succ_cons, List.take_succ_cons, List.take_zero, scanHex_pair hh hl, ← hc, UInt8.ofNat_toNat]
    refine ⟨c, ?_⟩
    rw [List.cons_append, List.cons_append, List.cons_append, List.nil_append, uriDecode_cons, if_pos rfl, hscan]
    rfl

/-- **An encoded text is decoded**, whatever follows it. -/
theorem uriDecode_coded {reserved s t : Bytes} (h37 : 37 ∈ reserved) (h43 : 43 ∈ reserved) (h : Coded reserved s t)
    (rest : Bytes) : ∀ ii, ∃ ii', uriDecode ii (t ++ rest) = s ++ uriDecode ii' rest := by
  induction h with
  | nil => exact fun ii => ⟨ii, rfl⟩
  | cons hc _ ih =>
    intro ii
    obtain ⟨ii1, h1⟩ := uriDecode_code h37 h43 hc ii (_ ++ rest)
    obtain ⟨ii2, h2⟩ := ih ii1
    exact ⟨ii2, by rw [List.append_assoc, h1, h2, List.cons_append]⟩

theorem uriDecode_whole {reserved s t : Bytes} (h37 : 37 ∈ reserved) (h43 : 43 ∈ reserved) (h : Coded reserved s t)
    (ii : UInt8) : uriDecode ii t = s := by
  obtain ⟨ii', he⟩ := uriDecode_coded h37 h43 h [] ii
  rw [List.append_nil, uriDecode_nil, List.append_nil] at he
  exact he

end Http
end Pico
