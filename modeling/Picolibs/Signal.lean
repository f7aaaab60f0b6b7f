import Mathlib.Data.List.Forall2
import Mathlib.Algebra.Group.Int.Defs
import Mathlib.Algebra.GroupWithZero.Nat
/-!
# Signal — the changes of a two-level signal over time

A signal is its level at every tick.  `changes` are the ticks at which it is not what it was before, each with the new
level.  `Follows` is a signal that alternates for given durations; `bounds` are the ticks at which the durations begin
and the last one ends.  `Bursts` is a stretch of a signal that is low but for such trains.

`Late` is a change that is seen with a delay between two bounds.
-/
namespace Pico
namespace Signal

def changes (f : Nat → Bool) : Bool → Nat → Nat → List (Nat × Bool)
  | _, _, 0 => []
  | before, a, n + 1 => if f a = before then changes f (f a) (a + 1) n else (a, f a) :: changes f (f a) (a + 1) n

/-- The level behind `n` ticks. -/
def levelBehind (f : Nat → Bool) (before : Bool) (a : Nat) : Nat → Bool
  | 0 => before
  | n + 1 => f (a + n)

theorem changes_congr {f g : Nat → Bool} : ∀ {n a : Nat} (before : Bool), (∀ t, a ≤ t → t < a + n → f t = g t) →
    changes f before a n = changes g before a n
  | 0, _, _, _ => rfl
  | n + 1, a, before, h => by
    have h0 : f a = g a := h a (Nat.le_refl a) (by omega)
    rw [changes, changes, h0, changes_congr (g a) (fun t ht hlt => h t (by omega) (by omega))]

theorem levelBehind_succ (f : Nat → Bool) (before : Bool) (a : Nat) : ∀ n,
    levelBehind f before a (n + 1) = levelBehind f (f a) (a + 1) n
  | 0 => rfl
  | n + 1 => by rw [levelBehind, levelBehind, Nat.add_right_comm, Nat.add_assoc]

theorem changes_add (f : Nat → Bool) (n : Nat) : ∀ (m a : Nat) (before : Bool),
    changes f before a (m + n) = changes f before a m ++ changes f (levelBehind f before a m) (a + m) n
  | 0, a, before => by rw [Nat.zero_add]; rfl
  | m + 1, a, before => by
    rw [Nat.succ_add, changes, changes, changes_add f n m (a + 1) (f a), levelBehind_succ, Nat.add_right_comm a 1 m,
      ← Nat.add_assoc a m 1]
    split
    · rfl
    · exact (List.cons_append).symm

/-- A level that is kept. -/
theorem changes_steady {f : Nat → Bool} {v : Bool} : ∀ {n a : Nat}, (∀ t, a ≤ t → t < a + n → f t = v) →
    changes f v a n = []
  | 0, _, _ => rfl
  | n + 1, a, h => by
    have h0 : f a = v := h a (Nat.le_refl a) (by omega)
    rw [changes, if_pos h0, h0]
    exact changes_steady (fun t ht hlt => h t (by omega) (by omega))

/-! ## Trains -/

/-- The signal is `v` for the first duration, and alternates. -/
def Follows (f : Nat → Bool) : Nat → Bool → List Nat → Prop
  | _, _, [] => True
  | a, v, d :: ds => (∀ t, a ≤ t → t < a + d → f t = v) ∧ Follows f (a + d) (!v) ds

/-- Where the durations begin, and where the last one ends. -/
def bounds : Nat → Bool → List Nat → List (Nat × Bool)
  | a, v, [] => [(a, v)]
  | a, v, d :: ds => (a, v) :: bounds (a + d) (!v) ds

theorem follows_of {f : Nat → Bool} : ∀ {ds : List Nat} {a : Nat} {v : Bool}, (∀ j < ds.length, ∀ t,
    a + (ds.take j).sum ≤ t → t < a + (ds.take (j + 1)).sum → f t = if j % 2 = 0 then v else !v) → Follows f a v ds
  | [], _, _, _ => trivial
  | d :: ds, a, v, h => by
    refine ⟨fun t ht hlt => ?_, follows_of fun j hj t ht hlt => ?_⟩
    · have h0 := h 0 (Nat.succ_pos _) t (by simpa using ht) (by simpa using hlt)
      exact h0
    · have hs := h (j + 1) (Nat.succ_lt_succ hj) t
        (by rw [List.take_succ_cons, List.sum_cons]; omega) (by rw [List.take_succ_cons, List.sum_cons]; omega)
      rw [hs]
      by_cases hev : j % 2 = 0
      · rw [if_neg (by omega), if_pos hev]
      · rw [if_pos (by omega), if_neg hev, Bool.not_not]

/-- What begins behind a duration. -/
theorem changes_duration {f : Nat → Bool} {v : Bool} {a d : Nat} (hd : 0 < d)
    (h : ∀ t, a ≤ t → t < a + d → f t = v) (n : Nat) :
    changes f (!v) a (d + n) = (a, v) :: changes f v (a + d) n := by
  obtain ⟨d, rfl⟩ : ∃ k, d = k + 1 := ⟨d - 1, by omega⟩
  have h0 : f a = v := h a (Nat.le_refl a) (by omega)
  have hl : levelBehind f (!v) a (d + 1) = v := h (a + d) (by omega) (by omega)
  rw [changes_add, hl, changes, if_neg (by rw [h0]; cases v <;> decide), h0,
    changes_steady (fun t ht hlt => h t (by omega) (by omega))]
  rfl

/-- **The changes of a train** and of the pause behind it. -/
theorem changes_follows {f : Nat → Bool} {gap : Nat} (hgap : 0 < gap) : ∀ {ds : List Nat} {a : Nat} {v : Bool},
    (∀ d ∈ ds, 0 < d) → Follows f a v (ds ++ [gap]) → changes f (!v) a (ds.sum + gap) = bounds a v ds
  | [], a, v, _, h => by
    rw [List.sum_nil, Nat.zero_add, ← Nat.add_zero gap, changes_duration hgap h.1]
    rfl
  | d :: ds, a, v, hpos, h => by
    have ih := changes_follows hgap (fun x hx => hpos x (List.mem_cons_of_mem _ hx)) h.2
    rw [Bool.not_not] at ih
    rw [List.sum_cons, Nat.add_assoc, changes_duration (hpos d List.mem_cons_self) h.1, ih]
    rfl

/-! ## Bursts -/

/-- The signal is low but for these trains, each with where it begins. -/
structure Bursts (f : Nat → Bool) (a n : Nat) (bs : List (Nat × List Nat)) : Prop where
  changes : changes f false a n = bs.flatMap (fun b => bounds b.1 true b.2)
  low : levelBehind f false a n = false

variable {f : Nat → Bool} {a : Nat}

theorem bursts_idle {n : Nat} (h : ∀ t, a ≤ t → t < a + n → f t = false) : Bursts f a n [] := by
  refine ⟨changes_steady h, ?_⟩
  cases n with
  | zero => rfl
  | succ n => exact h (a + n) (by omega) (by omega)

theorem Bursts.append {m n : Nat} {bs bs' : List (Nat × List Nat)} (h : Bursts f a m bs)
    (h' : Bursts f (a + m) n bs') : Bursts f a (m + n) (bs ++ bs') := by
  refine ⟨?_, ?_⟩
  · rw [changes_add, h.low, h.changes, h'.changes, List.flatMap_append]
  · cases n with
    | zero => exact h.low
    | succ n =>
      rw [← h'.low, levelBehind, Nat.add_assoc]
      rfl

theorem Bursts.trans {b c : Nat} {bs bs' : List (Nat × List Nat)} (hab : a ≤ b) (hbc : b ≤ c)
    (h : Bursts f a (b - a) bs) (h' : Bursts f b (c - b) bs') : Bursts f a (c - a) (bs ++ bs') := by
  obtain ⟨m, rfl⟩ := Nat.exists_eq_add_of_le hab
  obtain ⟨n, rfl⟩ := Nat.exists_eq_add_of_le hbc
  rw [Nat.add_sub_cancel_left] at h h'
  rw [Nat.add_assoc, Nat.add_sub_cancel_left]
  exact h.append h'

theorem Bursts.congr {g : Nat → Bool} {n : Nat} {bs : List (Nat × List Nat)} (h : Bursts f a n bs)
    (hfg : ∀ t, a ≤ t → t < a + n → g t = f t) : Bursts g a n bs := by
  refine ⟨(changes_congr false hfg).trans h.changes, ?_⟩
  cases n with
  | zero => rfl
  | succ n => exact (hfg (a + n) (by omega) (by omega)).trans h.low

theorem follows_last {gap : Nat} (hgap : 0 < gap) : ∀ {ds : List Nat} {a : Nat} {v : Bool},
    Follows f a v (ds ++ [gap]) → f (a + (ds.sum + gap) - 1) = if ds.length % 2 = 0 then v else !v
  | [], a, v, h => h.1 _ (by simp only [List.sum_nil]; omega) (by simp only [List.sum_nil]; omega)
  | d :: ds, a, v, h => by
    have ih := follows_last hgap h.2
    rw [List.sum_cons, List.length_cons, Nat.add_assoc d, ← Nat.add_assoc a, ih]
    by_cases hev : ds.length % 2 = 0
    · rw [if_pos hev, if_neg (by omega)]
    · rw [if_neg hev, if_pos (by omega), Bool.not_not]

/-- **A train of an odd number of durations and a pause** is one burst. -/
theorem bursts_train {ds : List Nat} {gap : Nat} (hpos : ∀ d ∈ ds, 0 < d) (hodd : ds.length % 2 = 1) (hgap : 0 < gap)
    (h : Follows f a true (ds ++ [gap])) : Bursts f a (ds.sum + gap) [(a, ds)] := by
  refine ⟨?_, ?_⟩
  · have hc := changes_follows hgap hpos h
    rw [List.flatMap_cons, List.flatMap_nil, List.append_nil]
    exact hc
  · have hl := follows_last hgap h
    rw [if_neg (by omega)] at hl
    obtain ⟨n, hn⟩ : ∃ n, ds.sum + gap = n + 1 := ⟨ds.sum + gap - 1, by omega⟩
    rw [hn] at hl ⊢
    exact hl

/-! ## Delays -/

/-- A change that is seen later, by `delay` and at most `slack` more. -/
def Late (delay slack : Nat) (e e' : Nat × Bool) : Prop :=
  e'.2 = e.2 ∧ e.1 + delay ≤ e'.1 ∧ e'.1 ≤ e.1 + delay + slack

instance (delay slack : Nat) (e e' : Nat × Bool) : Decidable (Late delay slack e e') :=
  inferInstanceAs (Decidable (e'.2 = e.2 ∧ e.1 + delay ≤ e'.1 ∧ e'.1 ≤ e.1 + delay + slack))

/-- The changes of the first burst that are seen, and those behind it. -/
theorem late_split {delay slack : Nat} {l l' seen : List (Nat × Bool)}
    (h : List.Forall₂ (Late delay slack) (l ++ l') seen) : ∃ s s', seen = s ++ s' ∧
      List.Forall₂ (Late delay slack) l s ∧ List.Forall₂ (Late delay slack) l' s' := by
  refine ⟨seen.take l.length, seen.drop l.length, (List.take_append_drop _ _).symm, ?_, ?_⟩
  · have := List.forall₂_take l.length h
    rwa [List.take_left] at this
  · have := List.forall₂_drop l.length h
    rwa [List.drop_left] at this

end Signal
end Pico
