import Mathlib.Data.List.MinMax
import Mathlib.Data.List.Nodup
import Mathlib.Logic.Function.Basic
/-!
# Alarms — the pending alarms of a program that keeps their identifiers

A theory that names nothing of the repository.  An alarm has an identifier, a deadline and a callback.  A program keeps
the identifier of each callback's alarm in a slot, −1 for none, and cancels it by that identifier.  `Owned` says that
every pending alarm is in its slot and that every slot is of a pending alarm.

`dueOf` is what is left when the identifiers are forgotten: a deadline for each callback, or none.  Cancelling through
the slot (`dueOf_cancel`), the alarm that fires, and adding to an empty slot (`dueOf_add`) are updates of it.
-/
namespace Pico
namespace Alarms

structure Alarm (κ : Type) where
  id : Int
  due : Nat
  cb : κ
  deriving DecidableEq

/-- What gives out the identifiers: the next one, from how many were given and those that are pending. -/
structure Pool where
  newId : Nat → List Int → Int
  positive : ∀ n ids, 0 < newId n ids
  fresh : ∀ n ids, newId n ids ∉ ids

theorem foldr_max_nonneg : ∀ ids : List Int, 0 ≤ ids.foldr max 0
  | [] => Int.le_refl 0
  | _ :: ids => Int.le_trans (foldr_max_nonneg ids) (Int.le_max_right _ _)

/-- One more than the greatest that is pending. -/
def Pool.greatest : Pool where
  newId _ ids := ids.foldr max 0 + 1
  positive _ ids := Int.lt_add_one_of_le (foldr_max_nonneg ids)
  fresh _ _ h := absurd (List.le_max_of_le' 0 h (Int.le_refl _)) (Int.not_le.2 (Int.lt_succ _))

structure Owned {κ : Type} (slot : κ → Int) (alarms : List (Alarm κ)) : Prop where
  inSlot : ∀ a ∈ alarms, slot a.cb = a.id
  positive : ∀ a ∈ alarms, 0 < a.id
  pending : ∀ k, slot k ≠ -1 → ∃ a ∈ alarms, a.cb = k
  distinct : (alarms.map (·.id)).Nodup

/-- When the callback's alarm is due. -/
def dueOf {κ : Type} [DecidableEq κ] (alarms : List (Alarm κ)) (k : κ) : Option Nat :=
  (alarms.find? (·.cb = k)).map (·.due)

section Owned

variable {κ : Type} {slot : κ → Int} {alarms : List (Alarm κ)} {a b : Alarm κ} {k : κ}

theorem owned_nil : Owned (fun _ : κ => -1) [] :=
  ⟨fun _ h => absurd h List.not_mem_nil, fun _ h => absurd h List.not_mem_nil, fun _ h => absurd rfl h, List.nodup_nil⟩

theorem Owned.eq_of_id (h : Owned slot alarms) (ha : a ∈ alarms) (hb : b ∈ alarms) (hid : a.id = b.id) : a = b :=
  List.inj_on_of_nodup_map h.distinct ha hb hid

theorem Owned.eq_of_cb (h : Owned slot alarms) (ha : a ∈ alarms) (hb : b ∈ alarms) (hcb : a.cb = b.cb) : a = b := by
  refine h.eq_of_id ha hb ?_
  rw [← h.inSlot a ha, ← h.inSlot b hb, hcb]

variable [DecidableEq κ]

theorem mem_of_dueOf {t : Nat} (hd : dueOf alarms k = some t) : ∃ a ∈ alarms, a.cb = k ∧ a.due = t := by
  obtain ⟨a, hf, ht⟩ := Option.map_eq_some_iff.1 hd
  have hcb := List.find?_some hf
  exact ⟨a, List.mem_of_find?_eq_some hf, of_decide_eq_true hcb, ht⟩

theorem dueOf_eq_none : dueOf alarms k = none ↔ ∀ a ∈ alarms, a.cb ≠ k := by
  rw [dueOf, Option.map_eq_none_iff, List.find?_eq_none]
  simp only [decide_eq_true_eq, ne_eq]

theorem Owned.dueOf_mem (h : Owned slot alarms) (ha : a ∈ alarms) : dueOf alarms a.cb = some a.due := by
  cases hd : dueOf alarms a.cb with
  | none => exact absurd rfl (dueOf_eq_none.1 hd a ha)
  | some t =>
    obtain ⟨b, hb, hcb, hdue⟩ := mem_of_dueOf hd
    rw [← h.eq_of_cb hb ha hcb, hdue]

/-- **A slot is −1 exactly when no alarm is pending.** -/
theorem Owned.slot_eq_iff (h : Owned slot alarms) (k : κ) : slot k = -1 ↔ dueOf alarms k = none := by
  rw [dueOf_eq_none]
  constructor
  · rintro hs a ha rfl
    have hpos := h.positive a ha
    rw [← h.inSlot a ha, hs] at hpos
    exact absurd hpos (by decide)
  · intro hn
    by_contra hs
    obtain ⟨a, ha, hcb⟩ := h.pending k hs
    exact hn a ha hcb

/-- Cancelling by the identifier in the slot leaves the other callbacks' alarms. -/
theorem Owned.cancel_eq (h : Owned slot alarms) (k : κ) :
    alarms.filter (·.id ≠ slot k) = alarms.filter (·.cb ≠ k) := by
  refine List.filter_congr fun a ha => ?_
  refine decide_eq_decide.2 (not_congr ⟨fun hid => ?_, fun hcb => ?_⟩)
  · have hne : slot k ≠ -1 := by
      have hpos := h.positive a ha
      omega
    obtain ⟨b, hb, hcb⟩ := h.pending k hne
    have hid' : a.id = b.id := by rw [hid, ← h.inSlot b hb, hcb]
    rw [h.eq_of_id ha hb hid', hcb]
  · rw [← h.inSlot a ha, hcb]

theorem Owned.cancel (h : Owned slot alarms) (k : κ) :
    Owned (Function.update slot k (-1)) (alarms.filter (·.cb ≠ k)) := by
  have hmem : ∀ a ∈ alarms.filter (·.cb ≠ k), a ∈ alarms ∧ a.cb ≠ k := fun a ha => by
    obtain ⟨hin, hne⟩ := List.mem_filter.1 ha
    exact ⟨hin, of_decide_eq_true hne⟩
  refine ⟨fun a ha => ?_, fun a ha => h.positive a (hmem a ha).1, fun j hj => ?_,
    h.distinct.sublist (List.filter_sublist.map _)⟩
  · rw [Function.update_of_ne (hmem a ha).2]
    exact h.inSlot a (hmem a ha).1
  · have hne : j ≠ k := by
      rintro rfl
      exact hj (Function.update_self ..)
    rw [Function.update_of_ne hne] at hj
    obtain ⟨a, ha, hcb⟩ := h.pending j hj
    exact ⟨a, List.mem_filter.2 ⟨ha, decide_eq_true (by rw [hcb]; exact hne)⟩, hcb⟩

theorem dueOf_cancel (alarms : List (Alarm κ)) (k : κ) :
    dueOf (alarms.filter (·.cb ≠ k)) = Function.update (dueOf alarms) k none := by
  funext j
  by_cases hj : j = k
  · rw [hj, Function.update_self, dueOf_eq_none]
    intro a ha
    exact of_decide_eq_true (List.mem_filter.1 ha).2
  · rw [Function.update_of_ne hj, dueOf, dueOf, List.find?_filter]
    congr 2
    funext a
    by_cases ha : a.cb = j
    · simp [ha, hj]
    · simp [ha]

/-- **An alarm is added**, for a callback that has none. -/
theorem Owned.add (h : Owned slot alarms) (P : Pool) (n due : Nat) (hk : slot k = -1) :
    Owned (Function.update slot k (P.newId n (alarms.map (·.id))))
      (alarms ++ [⟨P.newId n (alarms.map (·.id)), due, k⟩]) := by
  have hnone := dueOf_eq_none.1 ((h.slot_eq_iff k).1 hk)
  have hfresh := P.fresh n (alarms.map (·.id))
  have hpos := P.positive n (alarms.map (·.id))
  generalize P.newId n (alarms.map (·.id)) = new at hfresh hpos
  refine ⟨fun a ha => ?_, fun a ha => ?_, fun j hj => ?_, ?_⟩
  · rcases List.mem_append.1 ha with ha | ha
    · rw [Function.update_of_ne (hnone a ha)]
      exact h.inSlot a ha
    · rw [List.mem_singleton.1 ha]
      exact Function.update_self ..
  · rcases List.mem_append.1 ha with ha | ha
    · exact h.positive a ha
    · rw [List.mem_singleton.1 ha]
      exact hpos
  · by_cases hjk : j = k
    · exact ⟨_, List.mem_append_right _ (List.mem_singleton.2 rfl), hjk.symm⟩
    · rw [Function.update_of_ne hjk] at hj
      obtain ⟨a, ha, hcb⟩ := h.pending j hj
      exact ⟨a, List.mem_append_left _ ha, hcb⟩
  · rw [List.map_append, List.map_singleton]
    exact h.distinct.append (List.nodup_singleton new) (List.disjoint_singleton.2 hfresh)

theorem dueOf_add (hk : dueOf alarms k = none) (id : Int) (due : Nat) :
    dueOf (alarms ++ [⟨id, due, k⟩]) = Function.update (dueOf alarms) k (some due) := by
  funext j
  rw [dueOf, List.find?_append]
  by_cases hj : j = k
  · rw [hj, Function.update_self, Option.map_eq_none_iff.1 hk, Option.none_or, List.find?_singleton,
      if_pos (decide_eq_true rfl)]
    rfl
  · rw [Function.update_of_ne hj, List.find?_singleton, if_neg, Option.or_none]
    · rfl
    · exact fun h => hj (of_decide_eq_true h).symm

end Owned

end Alarms
end Pico
