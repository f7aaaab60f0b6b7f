import Mathlib.Data.List.Basic
/-!
# Countdown — a timer that a change of reading winds up

A theory that names nothing of the repository.  A timer sees one reading at a time.  A reading other than the one
before it winds the timer up to `n`; every reading, also that one, counts one down from what is there, and the timer
expires where the count becomes zero.  A timer that stands at zero stays there until the next change.

`expiries_pos_iff` says which readings make it expire: as many as were left and none of them new, or a new one that
`n - 1` like it follow.
-/
namespace Pico
namespace Countdown

variable {α : Type}

/-- What is left, once the reading `a` is seen and before it is counted. -/
def armed [DecidableEq α] (n : Nat) (seen : α) (left : Nat) (a : α) : Nat := if a = seen then left else n

/-- How often the timer expires. -/
def expiries [DecidableEq α] (n : Nat) : α → Nat → List α → Nat
  | _, _, [] => 0
  | seen, left, a :: as =>
    (if armed n seen left a = 1 then 1 else 0) + expiries n a (armed n seen left a - 1) as

/-- The readings are the old one until what was left has been counted. -/
def RunsOut (seen : α) (left : Nat) (as : List α) : Prop :=
  0 < left ∧ left ≤ as.length ∧ ∀ x ∈ as.take left, x = seen

/-- One of the readings differs from the one before it, and it and the ones after it that are like it are `n`. -/
def ChangesAndStays (n : Nat) (seen : α) (as : List α) : Prop :=
  ∃ pre a post, as = pre ++ a :: post ∧ pre.getLastD seen ≠ a ∧ n ≤ post.length + 1 ∧ ∀ x ∈ post.take (n - 1), x = a

theorem armed_same [DecidableEq α] (n : Nat) (seen : α) (left : Nat) : armed n seen left seen = left := if_pos rfl

theorem armed_new [DecidableEq α] (n : Nat) {seen a : α} (left : Nat) (h : a ≠ seen) : armed n seen left a = n :=
  if_neg h

/-! ## One reading -/

theorem runsOut_cons_same (seen : α) (left : Nat) (as : List α) :
    RunsOut seen left (seen :: as) ↔ left = 1 ∨ RunsOut seen (left - 1) as := by
  unfold RunsOut
  cases left with
  | zero => simp
  | succ k =>
    rw [List.take_succ_cons, List.length_cons, Nat.add_sub_cancel]
    constructor
    · rintro ⟨-, hl, hall⟩
      rcases Nat.eq_zero_or_pos k with rfl | hk
      · exact Or.inl rfl
      · exact Or.inr ⟨hk, by omega, fun x hx => hall x (List.mem_cons_of_mem _ hx)⟩
    · rintro (hk | ⟨-, hl, hall⟩)
      · obtain rfl : k = 0 := by omega
        simp
      · refine ⟨by omega, by omega, fun x hx => ?_⟩
        rcases List.mem_cons.1 hx with rfl | hx
        · rfl
        · exact hall x hx

theorem runsOut_cons_new {seen a : α} (h : a ≠ seen) (left : Nat) (as : List α) :
    ¬ RunsOut seen left (a :: as) := by
  rintro ⟨hpos, -, hall⟩
  obtain ⟨k, rfl⟩ : ∃ k, left = k + 1 := ⟨left - 1, by omega⟩
  exact h (hall a (by rw [List.take_succ_cons]; exact List.mem_cons_self))

/-- A change in a longer list: at its head, or further on, where the head is what was seen before. -/
theorem changes_cons (n : Nat) (seen a : α) (as : List α) :
    ChangesAndStays n seen (a :: as) ↔
      (seen ≠ a ∧ n ≤ as.length + 1 ∧ ∀ x ∈ as.take (n - 1), x = a) ∨ ChangesAndStays n a as := by
  constructor
  · rintro ⟨pre, b, post, heq, hne, hlen, hall⟩
    cases pre with
    | nil =>
      obtain ⟨rfl, rfl⟩ := List.cons.inj heq
      exact Or.inl ⟨hne, hlen, hall⟩
    | cons c pre =>
      obtain ⟨rfl, rfl⟩ := List.cons.inj heq
      rw [List.getLastD_cons] at hne
      exact Or.inr ⟨pre, b, post, rfl, hne, hlen, hall⟩
  · rintro (⟨hne, hlen, hall⟩ | ⟨pre, b, post, rfl, hne, hlen, hall⟩)
    · exact ⟨[], a, as, rfl, hne, hlen, hall⟩
    · exact ⟨a :: pre, b, post, rfl, by rwa [List.getLastD_cons], hlen, hall⟩

/-! ## All of them -/

/-- **When the timer expires**: the count that was left runs out on the old reading, or a change is followed by enough
readings like it. -/
theorem expiries_pos_iff [DecidableEq α] {n : Nat} (hn : 0 < n) : ∀ (as : List α) (seen : α) (left : Nat),
    0 < expiries n seen left as ↔ RunsOut seen left as ∨ ChangesAndStays n seen as
  | [], seen, left => by
    have h1 : ¬ RunsOut seen left [] := fun h => absurd h.2.1 (Nat.not_le.2 h.1)
    have h2 : ¬ ChangesAndStays n seen [] := by
      rintro ⟨pre, a, post, heq, -⟩
      cases pre <;> cases heq
    simp [expiries, h1, h2]
  | a :: as, seen, left => by
    have ih := expiries_pos_iff hn as a (armed n seen left a - 1)
    have hsplit : 0 < expiries n seen left (a :: as) ↔
        armed n seen left a = 1 ∨ 0 < expiries n a (armed n seen left a - 1) as := by
      rw [expiries]
      split <;> omega
    rw [hsplit, ih, changes_cons]
    by_cases h : a = seen
    · subst h
      rw [armed_same, runsOut_cons_same]
      simp [or_assoc]
    · have hrun : ¬ RunsOut seen left (a :: as) := runsOut_cons_new h left as
      have hhead : armed n seen left a = 1 ∨ RunsOut a (armed n seen left a - 1) as ↔
          seen ≠ a ∧ n ≤ as.length + 1 ∧ ∀ x ∈ as.take (n - 1), x = a := by
        rw [armed_new n left h]
        unfold RunsOut
        constructor
        · rintro (rfl | ⟨hpos, hl, hall⟩)
          · exact ⟨Ne.symm h, by omega, by simp⟩
          · exact ⟨Ne.symm h, by omega, hall⟩
        · rintro ⟨-, hl, hall⟩
          rcases Nat.lt_or_ge 1 n with h1 | h1
          · exact Or.inr ⟨by omega, by omega, hall⟩
          · exact Or.inl (by omega)
      rw [← or_assoc, hhead]
      simp [hrun]

/-- On one reading all along the timer expires once, where what was left is counted. -/
theorem expiries_replicate [DecidableEq α] (n : Nat) (a : α) : ∀ (k left : Nat),
    expiries n a left (List.replicate k a) = if 0 < left ∧ left ≤ k then 1 else 0
  | 0, left => by
    rw [if_neg (by omega)]
    rfl
  | k + 1, left => by
    rw [List.replicate_succ, expiries, armed_same, expiries_replicate n a k]
    split <;> split <;> split <;> omega

/-- One reading all along that is new at first: the timer is wound up, and expires once. -/
theorem expiries_replicate_new [DecidableEq α] {n k : Nat} (hn : 0 < n) (hnk : n ≤ k) {seen a : α} (h : a ≠ seen)
    (left : Nat) : expiries n seen left (List.replicate k a) = 1 := by
  obtain ⟨k, rfl⟩ : ∃ m, k = m + 1 := ⟨k - 1, by omega⟩
  rw [List.replicate_succ, expiries, armed_new n left h, expiries_replicate]
  split <;> split <;> omega

end Countdown
end Pico
