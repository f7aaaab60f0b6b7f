import Mathlib.Logic.Relation
/-!
# Loop — while loops, and what a trace was justified by

Two small theories that name nothing of the repository.

A C++ `while` is a function of one pass: it goes round again with a new state, or leaves with a result.  `run` gives it
a budget of passes; a loop `Hangs` when no budget is enough.  `hangs_of_rank` decides that with one run: when every
pass lowers a rank or changes nothing, a loop that has not left within `rank + 1` passes never leaves.

A trace is `Justified` when each entry satisfies a condition on the entries before it; `justified_append` adds a
segment, and `inv_of_reach` is the one induction behind every invariant of a run.
-/
namespace Pico
namespace Loop

variable {σ ρ : Type}

/-- One pass of a loop: round again from a new state, or out with a result. -/
inductive Pass (σ ρ : Type) where
  | again (s : σ)
  | leave (r : ρ)

def run (step : σ → Pass σ ρ) : Nat → σ → Option ρ
  | 0, _ => none
  | n + 1, s =>
    match step s with
    | .again s' => run step n s'
    | .leave r => some r

/-- A pass as it looks through a view of the states and of the results. -/
def Pass.map {σ' ρ' : Type} (f : σ → σ') (g : ρ → ρ') : Pass σ ρ → Pass σ' ρ'
  | .again s => .again (f s)
  | .leave r => .leave (g r)

/-- No number of passes is enough. -/
def Hangs (step : σ → Pass σ ρ) (s : σ) : Prop := ∀ n, run step n s = none

theorem run_again {step : σ → Pass σ ρ} {s s' : σ} (h : step s = .again s') (n : Nat) :
    run step (n + 1) s = run step n s' := by
  rw [run, h]

theorem run_leave {step : σ → Pass σ ρ} {s : σ} {r : ρ} (h : step s = .leave r) (n : Nat) :
    run step (n + 1) s = some r := by
  rw [run, h]

theorem run_mono {step : σ → Pass σ ρ} {r : ρ} : ∀ {n m : Nat} {s : σ}, n ≤ m → run step n s = some r →
    run step m s = some r
  | 0, _, _, _, h => by cases h
  | n + 1, 0, _, hnm, _ => absurd hnm (Nat.not_succ_le_zero n)
  | n + 1, m + 1, s, hnm, h => by
    cases hs : step s with
    | again s' =>
      rw [run_again hs] at h ⊢
      exact run_mono (Nat.le_of_succ_le_succ hnm) h
    | leave r' =>
      rw [run_leave hs] at h ⊢
      exact h

/-- **A loop through a view**: where each pass is the view of the other loop's, so is the whole loop. -/
theorem run_map {σ' ρ' : Type} {step : σ → Pass σ ρ} {step' : σ' → Pass σ' ρ'} {f : σ → σ'} {g : ρ → ρ'} {I : σ → Prop}
    (hI : ∀ s s', I s → step s = .again s' → I s') (h : ∀ s, I s → step' (f s) = (step s).map f g) :
    ∀ (n : Nat) (s : σ), I s → run step' n (f s) = (run step n s).map g
  | 0, _, _ => rfl
  | n + 1, s, hs => by
    rw [run, run, h s hs]
    cases hp : step s with
    | again s' => exact run_map hI h n s' (hI s s' hs hp)
    | leave r => rfl

/-- A loop leaves with one result. -/
theorem run_unique {step : σ → Pass σ ρ} {n m : Nat} {s : σ} {r r' : ρ} (h : run step n s = some r)
    (h' : run step m s = some r') : r = r' :=
  Option.some.inj ((run_mono (Nat.le_max_left n m) h).symm.trans (run_mono (Nat.le_max_right n m) h'))

/-- A pass that changes nothing is the last thing the loop ever does. -/
theorem hangs_of_stuck {step : σ → Pass σ ρ} {s : σ} (h : step s = .again s) : Hangs step s := by
  intro n
  induction n with
  | zero => rfl
  | succ n ih => rw [run_again h, ih]

theorem hangs_again {step : σ → Pass σ ρ} {s s' : σ} (h : step s = .again s') : Hangs step s ↔ Hangs step s' := by
  constructor
  · intro hs n
    rw [← run_again h]
    exact hs (n + 1)
  · intro hs' n
    cases n with
    | zero => rfl
    | succ n => rw [run_again h]; exact hs' n

/-- A loop goes on for ever when every pass from a state of an invariant goes round again to one. -/
theorem hangs_of_inv {step : σ → Pass σ ρ} {I : σ → Prop} (h : ∀ s, I s → ∃ s', step s = .again s' ∧ I s') :
    ∀ {s : σ}, I s → Hangs step s := by
  intro s hs n
  induction n generalizing s with
  | zero => rfl
  | succ n ih =>
    obtain ⟨s', he, hs'⟩ := h s hs
    rw [run_again he]
    exact ih hs'

/-- **The rank rule**: when every pass lowers the rank or changes nothing, `rank + 1` passes decide the loop. -/
theorem hangs_of_rank {step : σ → Pass σ ρ} (rank : σ → Nat)
    (hstep : ∀ s s', step s = .again s' → rank s' < rank s ∨ s' = s) :
    ∀ (k : Nat) (s : σ), rank s < k → run step k s = none → Hangs step s
  | 0, _, hk, _ => absurd hk (Nat.not_lt_zero _)
  | k + 1, s, hk, h => by
    cases hs : step s with
    | leave r => rw [run_leave hs] at h; cases h
    | again s' =>
      rcases hstep s s' hs with hlt | rfl
      · rw [run_again hs] at h
        exact (hangs_again hs).2 (hangs_of_rank rank hstep k s' (by omega) h)
      · exact hangs_of_stuck hs

/-- **The invariant rule**: what every pass keeps holds of the state the loop leaves from. -/
theorem run_inv {step : σ → Pass σ ρ} {I : σ → Prop} {Q : ρ → Prop}
    (hagain : ∀ s s', I s → step s = .again s' → I s') (hleave : ∀ s r, I s → step s = .leave r → Q r) :
    ∀ (n : Nat) (s : σ) (r : ρ), I s → run step n s = some r → Q r
  | 0, _, _, _, h => by cases h
  | n + 1, s, r, hI, h => by
    cases hs : step s with
    | again s' =>
      rw [run_again hs] at h
      exact run_inv hagain hleave n s' r (hagain s s' hI hs) h
    | leave r' =>
      rw [run_leave hs] at h
      cases h
      exact hleave s _ hI hs

/-- The states from which a pass of the loop starts. -/
inductive Reaches (step : σ → Pass σ ρ) (s : σ) : σ → Prop where
  | start : Reaches step s s
  | again {s' s'' : σ} : Reaches step s s' → step s' = .again s'' → Reaches step s s''

theorem Reaches.inv {step : σ → Pass σ ρ} {J : σ → Prop} (hJ : ∀ s s', J s → step s = .again s' → J s') {s s' : σ}
    (hs : J s) (hr : Reaches step s s') : J s' := by
  induction hr with
  | start => exact hs
  | again _ he ih => exact hJ _ _ ih he

/-- The states a loop reaches behind its first pass. -/
theorem reaches_again {step : σ → Pass σ ρ} {s s' t : σ} (h : step s = .again s') :
    Reaches step s t ↔ t = s ∨ Reaches step s' t := by
  constructor
  · intro hr
    induction hr with
    | start => exact Or.inl rfl
    | again _ he ih =>
      rcases ih with rfl | hr'
      · rw [h] at he
        cases he
        exact Or.inr .start
      · exact Or.inr (hr'.again he)
  · rintro (rfl | hr)
    · exact .start
    · induction hr with
      | start => exact Reaches.start.again h
      | again _ he ih => exact ih.again he

theorem reaches_leave {step : σ → Pass σ ρ} {s t : σ} {r : ρ} (h : step s = .leave r) : Reaches step s t ↔ t = s := by
  constructor
  · intro hr
    induction hr with
    | start => rfl
    | again _ he ih =>
      rw [ih, h] at he
      cases he
  · rintro rfl
    exact .start

/-- The loop leaves from a state it reaches. -/
theorem reaches_of_run {step : σ → Pass σ ρ} {r : ρ} : ∀ {n : Nat} {s : σ}, run step n s = some r →
    ∃ s', Reaches step s s' ∧ step s' = .leave r := by
  intro n s h
  refine run_inv (I := Reaches step s) (Q := fun r => ∃ s', Reaches step s s' ∧ step s' = .leave r) ?_ ?_ n s r .start h
  · exact fun _ _ hr he => hr.again he
  · exact fun s' _ hr he => ⟨s', hr, he⟩

/-- **A state is reached within the budget** when the rank falls on the way to it; `I` holds on that way. -/
theorem run_of_reaches {step : σ → Pass σ ρ} {J I : σ → Prop} (rank : σ → Nat)
    (hJ : ∀ s s', J s → step s = .again s' → J s')
    (hI : ∀ s s', J s → step s = .again s' → I s' → I s ∧ rank s' < rank s) {s s' : σ} (hs : J s)
    (hr : Reaches step s s') (hi : I s') : ∃ n, n + rank s' ≤ rank s ∧ ∀ m, run step (n + m) s = run step m s' := by
  induction hr with
  | start => exact ⟨0, by omega, fun m => by rw [Nat.zero_add]⟩
  | @again s1 s2 hr he ih =>
    obtain ⟨hi1, hlt⟩ := hI s1 s2 (hr.inv hJ hs) he hi
    obtain ⟨n, hn, hrun⟩ := ih hi1
    refine ⟨n + 1, by omega, fun m => ?_⟩
    rw [Nat.add_assoc, Nat.add_comm 1 m, hrun, run_again he]

end Loop

namespace History

variable {α σ ε : Type}

/-! ## Runs -/

/-- The states of the runs of a system whose every step is an event that `ok` allows there. -/
inductive Reach (init : σ) (step : σ → ε → σ) (ok : σ → ε → Prop) : σ → Prop where
  | init : Reach init step ok init
  | step {s : σ} {e : ε} : Reach init step ok s → ok s e → Reach init step ok (step s e)

/-- **The induction on a run**: what holds at the start and is kept by every allowed step holds in every state. -/
theorem inv_of_reach {init : σ} {step : σ → ε → σ} {ok : σ → ε → Prop} {I : σ → Prop} (h0 : I init)
    (hstep : ∀ s e, I s → ok s e → I (step s e)) : ∀ {s : σ}, Reach init step ok s → I s
  | _, .init => h0
  | _, .step hr hok => hstep _ _ (inv_of_reach h0 hstep hr) hok

/-- The events of a list are allowed one after another. -/
def Along (step : σ → ε → σ) (ok : σ → ε → Prop) : σ → List ε → Prop
  | _, [] => True
  | s, e :: es => ok s e ∧ Along step ok (step s e) es

instance decidableAlong (step : σ → ε → σ) (ok : σ → ε → Prop) [∀ s e, Decidable (ok s e)] :
    ∀ (es : List ε) (s : σ), Decidable (Along step ok s es)
  | [], _ => isTrue trivial
  | e :: es, s =>
    have := decidableAlong step ok es (step s e)
    inferInstanceAs (Decidable (ok s e ∧ Along step ok (step s e) es))

theorem reach_along {init : σ} {step : σ → ε → σ} {ok : σ → ε → Prop} : ∀ (es : List ε) (s : σ),
    Reach init step ok s → Along step ok s es → Reach init step ok (es.foldl step s)
  | [], _, hr, _ => hr
  | _ :: es, _, hr, h => reach_along es _ (.step hr h.1) h.2

/-! ## Traces -/

/-- Every entry of the trace satisfies `P` of the entries before it. -/
def Justified (P : List α → α → Prop) (l : List α) : Prop := ∀ pre a post, l = pre ++ a :: post → P pre a

theorem justified_nil (P : List α → α → Prop) : Justified P [] := by
  intro pre a post h
  cases pre <;> cases h

theorem Justified.of_append {P : List α → α → Prop} {l m : List α} (h : Justified P (l ++ m)) : Justified P l := by
  intro pre a post hl
  exact h pre a (post ++ m) (by rw [hl, List.append_assoc, List.cons_append])

theorem justified_snoc {P : List α → α → Prop} {l : List α} {a : α} (hl : Justified P l) (ha : P l a) :
    Justified P (l ++ [a]) := by
  intro pre b post h
  rcases List.append_eq_append_iff.1 h with ⟨m, hpre, hm⟩ | ⟨m, hl', hm⟩
  · cases m with
    | nil =>
      simp only [List.nil_append, List.cons.injEq] at hm
      obtain ⟨rfl, -⟩ := hm
      rw [hpre, List.append_nil]
      exact ha
    | cons x m =>
      simp only [List.cons_append, List.cons.injEq, List.nil_eq, List.append_eq_nil_iff] at hm
      cases hm.2.2
  · cases m with
    | nil =>
      simp only [List.nil_append, List.cons.injEq] at hm
      obtain ⟨rfl, -⟩ := hm
      rw [List.append_nil] at hl'
      rw [← hl']
      exact ha
    | cons x m =>
      simp only [List.cons_append, List.cons.injEq] at hm
      obtain ⟨rfl, -⟩ := hm
      exact hl pre b m hl'

/-- **A trace grows by justified entries**: each new one satisfies `P` of what stands before it. -/
theorem justified_append {P : List α → α → Prop} {l : List α} (hl : Justified P l) :
    ∀ {m : List α}, (∀ pre a post, m = pre ++ a :: post → P (l ++ pre) a) → Justified P (l ++ m)
  | [], _ => by rwa [List.append_nil]
  | a :: m, hm => by
    have h0 : Justified P (l ++ [a]) := justified_snoc hl (by simpa using hm [] a m rfl)
    have := justified_append h0 (m := m) (fun pre b post hb => by
      rw [List.append_assoc, List.singleton_append]
      exact hm (a :: pre) b post (by rw [hb, List.cons_append]))
    rwa [List.append_assoc, List.singleton_append] at this

theorem Justified.imp {P Q : List α → α → Prop} {l : List α} (h : Justified P l) (hPQ : ∀ pre a, P pre a → Q pre a) :
    Justified Q l := fun pre a post hl => hPQ pre a (h pre a post hl)

end History
end Pico
