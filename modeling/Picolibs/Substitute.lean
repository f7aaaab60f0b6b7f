import Picolibs.TxtLoops
/-!
# Substitute — a placeholder in a `TXT` and in a `std::string` (`txt.h`, `txt.cpp`)

The static `substitute` finds the placeholder with `std::string::find` and replaces it; the member function looks for it
with `strstr` and moves what is behind it.  Without NULs they do the same (`substitute_agrees`).
-/
namespace Pico
namespace Substitute

open Text (cstr find find_split find_ne_none find_prefix cstr_eq_self_iff)
open Txt (Owned Holds replaced)

/-- The static `substitute`: its value, and the string it leaves. -/
def substitute (target placeholder replacement : Bytes) : Bool × Bytes :=
  match find placeholder target with
  | none => (false, target)
  | some ii => (true, replaced target ii placeholder.length replacement)

/-- `x` with the first `placeholder` replaced. -/
def First (x placeholder r : Bytes) (res : Bool × Bytes) : Prop :=
  (¬ placeholder <:+: x ∧ res = (false, x)) ∨
    ∃ a b, x = a ++ placeholder ++ b ∧ (∀ a' b', x = a' ++ placeholder ++ b' → a.length ≤ a'.length) ∧
      res = (true, a ++ r ++ b)

/-- What is found is the first. -/
theorem find_first {pat x : Bytes} {k : Nat} (h : find pat x = some k) (a b : Bytes) (hx : x = a ++ pat ++ b) :
    k ≤ a.length := by
  have hpre : a ++ pat <+: x := ⟨b, hx.symm⟩
  have hne := find_ne_none pat [] a
  rw [List.append_nil, find_prefix hpre, h] at hne
  by_contra hlt
  refine hne ?_
  rw [Option.filter_some, if_neg]
  rw [decide_eq_true_eq, List.length_append]
  omega

/-- **`std::string` has exactly the first occurrence replaced.** -/
theorem substitute_first (x placeholder r : Bytes) : First x placeholder r (substitute x placeholder r) := by
  rw [substitute]
  cases hf : find placeholder x with
  | none =>
    refine Or.inl ⟨?_, rfl⟩
    rintro ⟨a, b, rfl⟩
    exact find_ne_none placeholder b a hf
  | some i =>
    obtain ⟨a, b, rfl, rfl⟩ := find_split hf
    refine Or.inr ⟨a, b, rfl, find_first hf, ?_⟩
    simp only [List.append_assoc, Txt.replaced_eq]

theorem found_eq {x placeholder : Bytes} (hx : 0 ∉ x) : Txt.found x placeholder = find placeholder x := by
  rw [Txt.found, cstr_eq_self_iff.2 hx]
  cases hf : find placeholder x with
  | none => rfl
  | some k =>
    have := Text.find_le hf
    rw [Option.filter_some, if_pos (decide_eq_true this)]

/-- **A `TXT` and a `std::string` with the same text agree**, in the value and in the text that is left; the loops
over the bytes do what the blocks do. -/
theorem substitute_agrees {t : Txt} (h : t.Owned) {placeholder r : Bytes} (hx : 0 ∉ t.text) (hp : 0 ∉ placeholder)
    (hr : 0 ∉ r) :
    (∃ t', t.substitute placeholder r = .ok ((substitute t.text placeholder r).1, t') ∧ t'.Owned ∧
      t'.text = (substitute t.text placeholder r).2) ∧
    First t.text placeholder r (substitute t.text placeholder r) ∧
    (t.endptr < 2 ^ 32 → (substitute t.text placeholder r).2.length < 2 ^ 32 - 2048 →
      TxtLoops.substitute t placeholder r = t.substitute placeholder r) := by
  have hholds := h.holds
  have hpc := cstr_eq_self_iff.2 hp
  have hrc := cstr_eq_self_iff.2 hr
  have hafter : Txt.after t.text (cstr placeholder) (cstr r) = (substitute t.text placeholder r).2 := by
    rw [hpc, hrc, Txt.after, found_eq hx, substitute]
    cases find placeholder t.text with
    | none => rfl
    | some i => rfl
  refine ⟨?_, substitute_first t.text placeholder r, fun hend hlen => ?_⟩
  · unfold Txt.substitute substitute
    rw [Txt.strstr_holds hholds, hpc, found_eq hx, TxtLoops.ok_bind]
    cases hf : find placeholder t.text with
    | none => exact ⟨t, rfl, h, rfl⟩
    | some i =>
      obtain ⟨a, b, htext, rfl⟩ := find_split hf
      rw [List.append_assoc] at htext
      rw [htext] at hholds
      obtain ⟨t', hrep, h'⟩ := Txt.replace_holds hholds r
      refine ⟨t', by simp only [hrep, TxtLoops.ok_bind], h'.owned, ?_⟩
      rw [h'.text, hrc, htext]
      exact (Txt.replaced_eq a placeholder b r).symm
  · refine TxtLoops.substitute_eq hholds ?_ ?_
    · rw [Txt.length_text h]
      exact hend
    · rw [hafter]
      exact hlen

theorem substitute_agrees_page :
    ∃ t, Txt.ofData (ascii "<b>%n%</b>") 10 0 = .ok t ∧
      ∃ t', t.substitute (ascii "%n%") (ascii "name") = .ok (true, t') ∧ t'.text = ascii "<b>name</b>" := by
  obtain ⟨t, ht, hholds⟩ := Txt.ofData_holds (ascii "<b>%n%</b>") 10 0
  have htext : t.text = ascii "<b>%n%</b>" := hholds.text.trans (by decide)
  obtain ⟨t', hs, -, htext'⟩ := (@substitute_agrees t hholds.owned (ascii "%n%") (ascii "name")
    (by rw [htext]; decide) (by decide) (by decide)).1
  rw [htext] at hs htext'
  exact ⟨t, ht, t', hs, htext'⟩

end Substitute
end Pico
