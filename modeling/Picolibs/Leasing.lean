import Mathlib.Data.List.Basic
import Mathlib.Logic.Function.Basic
/-!
# Leasing — addresses that are granted for a term

A small theory that names nothing of the repository.

A lender notes for each address who holds it and when it was last granted, and may forget that when the term is over.
`Covered` is what it keeps: two clients that are granted one address are a term apart, because a grant is still noted or
its term is over.  Some clients are not noted; they are granted only what nobody holds.
-/
namespace Pico
namespace Leasing

structure Grant (α κ : Type) where
  address : α
  client : κ
  time : Nat

variable {α κ : Type}

/-- The second grant is not of the same address to another client before the term of the first is over. -/
def Apart (noted : κ → Prop) (term : Nat) (g g' : Grant α κ) : Prop :=
  noted g.client → g.address = g'.address → g.client ≠ g'.client → g.time + term < g'.time

/-- What holds of the notes and the grants at a time. -/
structure Covered (noted : κ → Prop) (term : Nat) (holder : α → Option (κ × Nat)) (now : Nat)
    (grants : List (Grant α κ)) : Prop where
  apart : grants.Pairwise (Apart noted term)
  past : ∀ g ∈ grants, g.time ≤ now
  held : ∀ g ∈ grants, noted g.client →
    (∃ t, holder g.address = some (g.client, t) ∧ g.time ≤ t) ∨ g.time + term < now

variable {noted : κ → Prop} {term now : Nat} {holder : α → Option (κ × Nat)} {grants : List (Grant α κ)}

theorem covered_nil : Covered noted term holder now [] :=
  ⟨.nil, fun _ h => absurd h List.not_mem_nil, fun _ h => absurd h List.not_mem_nil⟩

theorem Covered.later (h : Covered noted term holder now grants) {now' : Nat} (hn : now ≤ now') :
    Covered noted term holder now' grants :=
  ⟨h.apart, fun g hg => Nat.le_trans (h.past g hg) hn, fun g hg hnoted =>
    (h.held g hg hnoted).imp_right (fun hlt => Nat.lt_of_lt_of_le hlt hn)⟩

/-- A grant that is no longer noted is over. -/
theorem Covered.over (h : Covered noted term holder now grants) {g : Grant α κ} (hg : g ∈ grants)
    (hnoted : noted g.client) (hholder : ∀ t, holder g.address ≠ some (g.client, t)) : g.time + term < now := by
  rcases h.held g hg hnoted with ⟨t, ht, -⟩ | hlt
  · exact absurd ht (hholder t)
  · exact hlt

/-- The next grant is a term apart from those before it where nobody else holds the address. -/
theorem Covered.apart_snoc (h : Covered noted term holder now grants) {g : Grant α κ} (hnow : now ≤ g.time)
    (hfree : ∀ c t, holder g.address = some (c, t) → c = g.client) :
    (grants ++ [g]).Pairwise (Apart noted term) := by
  refine List.pairwise_append.2 ⟨h.apart, List.pairwise_singleton _ _, fun g0 hg0 g1 hg1 => ?_⟩
  rw [List.mem_singleton.1 hg1]
  intro hnoted hadr hne
  refine Nat.lt_of_lt_of_le (h.over hg0 hnoted (fun t ht => ?_)) hnow
  exact hne (hfree _ t (by rw [← hadr]; exact ht))

theorem Covered.past_snoc (h : Covered noted term holder now grants) {g : Grant α κ} (hnow : now ≤ g.time) :
    ∀ g0 ∈ grants ++ [g], g0.time ≤ g.time := by
  intro g0 hg0
  rcases List.mem_append.1 hg0 with hg0 | hg0
  · exact Nat.le_trans (h.past g0 hg0) hnow
  · exact Nat.le_of_eq (congrArg Grant.time (List.mem_singleton.1 hg0))

/-- A grant to a client that is not noted, of an address that nobody holds. -/
theorem Covered.lend (h : Covered noted term holder now grants) {g : Grant α κ} (hnow : now ≤ g.time)
    (hfree : holder g.address = none) (hout : ¬ noted g.client) : Covered noted term holder g.time (grants ++ [g]) := by
  refine ⟨h.apart_snoc hnow (fun c t ht => (by rw [hfree] at ht; cases ht)), h.past_snoc hnow, fun g0 hg0 hnoted => ?_⟩
  rcases List.mem_append.1 hg0 with hg0 | hg0
  · exact (h.later hnow).held g0 hg0 hnoted
  · rw [List.mem_singleton.1 hg0] at hnoted
    exact absurd hnoted hout

/-- **An address may be forgotten** when the term of its holder is over. -/
theorem Covered.lapse (h : Covered noted term holder now grants) {holder' : α → Option (κ × Nat)}
    (hover : ∀ a, holder' a = holder a ∨ ∀ c t, holder a = some (c, t) → t + term < now) :
    Covered noted term holder' now grants := by
  refine ⟨h.apart, h.past, fun g hg hnoted => ?_⟩
  rcases h.held g hg hnoted with ⟨t, ht, hle⟩ | hlt
  · rcases hover g.address with heq | hlt
    · exact .inl ⟨t, heq.trans ht, hle⟩
    · exact .inr (Nat.lt_of_le_of_lt (Nat.add_le_add_right hle term) (hlt _ t ht))
  · exact .inr hlt

variable [DecidableEq α]

/-- **An address is granted** where nobody else holds it, and noted. -/
theorem Covered.grant (h : Covered noted term holder now grants) {g : Grant α κ} (hnow : now ≤ g.time)
    (hfree : ∀ c t, holder g.address = some (c, t) → c = g.client) :
    Covered noted term (Function.update holder g.address (some (g.client, g.time))) g.time (grants ++ [g]) := by
  refine ⟨h.apart_snoc hnow hfree, h.past_snoc hnow, fun g0 hg0 hnoted => ?_⟩
  by_cases ha : g0.address = g.address
  · rw [ha, Function.update_self]
    by_cases hc : g0.client = g.client
    · exact .inl ⟨g.time, by rw [hc], h.past_snoc hnow g0 hg0⟩
    · have hold : g0 ∈ grants := by
        rcases List.mem_append.1 hg0 with hg0 | hg0
        · exact hg0
        · exact absurd (by rw [List.mem_singleton.1 hg0]) hc
      refine .inr (Nat.lt_of_lt_of_le (h.over hold hnoted (fun t ht => ?_)) hnow)
      exact hc (hfree _ t (by rw [← ha]; exact ht))
  · rw [Function.update_of_ne ha]
    have hold : g0 ∈ grants := by
      rcases List.mem_append.1 hg0 with hg0 | hg0
      · exact hg0
      · exact absurd (by rw [List.mem_singleton.1 hg0]) ha
    exact (h.later hnow).held g0 hold hnoted

end Leasing
end Pico
