import Picolibs.HttpPost
/-!
# Resync — looking for a request where there is no blank line (`parseRequest`)

The loop erases what stands before a method word.  It looks at the first `G` or `P` of the buffer and goes round again
without a change where a method word stands at the very front, or where too little follows to tell: `firstStop` is
the first place where erasing ends, and what comes of a buffer depends on nothing else (`resync_eq`).
-/
namespace Pico
namespace Http

open Text

/-- A method word with another byte behind it. -/
def Word (s : Bytes) : Prop := (4 < s.length ∧ s.take 4 = getWord) ∨ (5 < s.length ∧ s.take 5 = postWord)

instance (s : Bytes) : Decidable (Word s) := inferInstanceAs (Decidable (_ ∨ _))

/-- A `G` or `P` with too little behind it. -/
def Short (s : Bytes) : Prop := (s.head? = some 71 ∧ s.length ≤ 4) ∨ (s.head? = some 80 ∧ s.length ≤ 5)

instance (s : Bytes) : Decidable (Short s) := inferInstanceAs (Decidable (_ ∨ _))

/-- The first place where a method word stands, or a `G` or `P` with too little behind it. -/
def firstStop : Bytes → Option Nat
  | [] => none
  | c :: s => if Word (c :: s) ∨ Short (c :: s) then some 0 else (firstStop s).map (· + 1)

/-- Nothing stops the erasing, or a method word does that has a byte before it which is no `G` or `P`. -/
def Settles (rqst : Bytes) : Prop :=
  ∀ k, firstStop rqst = some k → Word (rqst.drop k) ∧ 0 < k ∧ rqst[k - 1]? ≠ some 71 ∧ rqst[k - 1]? ≠ some 80

/-! ## One pass -/

theorem gp_eq : ascii "GP" = [71, 80] := by decide

theorem getWord_eq : getWord = [71, 69, 84, 32] := by decide

theorem postWord_eq : postWord = [80, 79, 83, 84, 32] := by decide

theorem head_take {s : Bytes} : ∀ {n : Nat}, 0 < n → (s.take n).head? = s.head?
  | n + 1, _ => by cases s <;> rfl

/-- Erasing stops at a `G` or `P` only. -/
theorem stop_head {s : Bytes} (h : Word s ∨ Short s) : s.head? = some 71 ∨ s.head? = some 80 := by
  rcases h with (⟨-, h⟩ | ⟨-, h⟩) | ⟨h, -⟩ | ⟨h, -⟩
  · left
    rw [← head_take (n := 4) (by decide), h, getWord_eq]
    rfl
  · right
    rw [← head_take (n := 5) (by decide), h, postWord_eq]
    rfl
  · exact Or.inl h
  · exact Or.inr h

theorem not_stop {c : UInt8} (s : Bytes) (h : (ascii "GP").contains c = false) :
    ¬ (Word (c :: s) ∨ Short (c :: s)) := by
  rw [gp_eq] at h
  intro hs
  rcases stop_head hs with hc | hc
  · cases hc
    cases h
  · cases hc
    cases h

theorem firstStop_cons {c : UInt8} {s : Bytes} (h : ¬ (Word (c :: s) ∨ Short (c :: s))) :
    firstStop (c :: s) = (firstStop s).map (· + 1) := by
  rw [firstStop, if_neg h]

/-- The front without a `G` or `P` stops nothing. -/
theorem firstStop_drop : ∀ {s : Bytes} {i : Nat}, s.findIdx? (fun c => (ascii "GP").contains c) = some i →
    firstStop s = (firstStop (s.drop i)).map (· + i)
  | [], _, h => by cases h
  | c :: s, i, h => by
    rw [List.findIdx?_cons] at h
    cases hc : (ascii "GP").contains c with
    | true =>
      rw [if_pos hc] at h
      cases h
      simp
    | false =>
      rw [if_neg (by rw [hc]; decide)] at h
      obtain ⟨j, hj, rfl⟩ := Option.map_eq_some_iff.1 h
      rw [firstStop_cons (not_stop s hc), firstStop_drop hj, Option.map_map]
      rfl

theorem firstStop_none : ∀ {s : Bytes}, s.findIdx? (fun c => (ascii "GP").contains c) = none → firstStop s = none
  | [], _ => rfl
  | c :: s, h => by
    rw [List.findIdx?_cons] at h
    cases hc : (ascii "GP").contains c with
    | true =>
      rw [if_pos hc] at h
      cases h
    | false =>
      rw [if_neg (by rw [hc]; decide)] at h
      rw [firstStop_cons (not_stop s hc), firstStop_none (Option.map_eq_none_iff.1 h)]
      rfl

/-! ## One pass -/

/-- What is left where erasing stops. -/
def leftOver (rqst : Bytes) : Bytes :=
  match firstStop rqst with
  | none => []
  | some k => rqst.drop k

/-- A pass over a buffer from its front on. -/
inductive Passed (s : Bytes) : Prop where
  | clear : firstStop s = none → resyncPass (s, 0) = .again ([], 0) → Passed s
  | word (i : Nat) : firstStop s = some i → Word (s.drop i) → 0 < i → s[i - 1]? ≠ some 71 → s[i - 1]? ≠ some 80 →
      resyncPass (s, 0) = .again (s.drop i, (s.drop i).length) → Passed s
  | stuck : (firstStop s = some 0 ∨ ∃ i, firstStop s = some i ∧ ¬ Word (s.drop i)) →
      resyncPass (s, 0) = .again (s, 0) → Passed s
  | erased (i : Nat) : s[i]? = some 71 ∨ s[i]? = some 80 →
      firstStop s = (firstStop (s.drop (i + 1))).map (· + (i + 1)) →
      resyncPass (s, 0) = .again (s.drop (i + 1), 0) → Passed s

theorem word_drop_iff (s : Bytes) (i : Nat) : Word (s.drop i) ↔
    (i + 4 < s.length ∧ (s.drop i).take 4 = getWord) ∨ (i + 5 < s.length ∧ (s.drop i).take 5 = postWord) := by
  unfold Word
  rw [List.length_drop]
  constructor
  · rintro (⟨h, ht⟩ | ⟨h, ht⟩)
    · exact Or.inl ⟨by omega, ht⟩
    · exact Or.inr ⟨by omega, ht⟩
  · rintro (⟨h, ht⟩ | ⟨h, ht⟩)
    · exact Or.inl ⟨by omega, ht⟩
    · exact Or.inr ⟨by omega, ht⟩

theorem not_gp_before {s : Bytes} {i : Nat} (h : s.findIdx? (fun c => (ascii "GP").contains c) = some i) (hi : 0 < i) :
    s[i - 1]? ≠ some 71 ∧ s[i - 1]? ≠ some 80 := by
  obtain ⟨hlt, -, hbefore⟩ := List.findIdx?_eq_some_iff_getElem.1 h
  have hb := hbefore (i - 1) (by omega)
  rw [gp_eq] at hb
  have hget : s[i - 1]? = some s[i - 1] := List.getElem?_eq_getElem (by omega)
  rw [hget]
  constructor
  · intro he
    rw [Option.some.inj he] at hb
    exact hb rfl
  · intro he
    rw [Option.some.inj he] at hb
    exact hb rfl

theorem gp_found {s : Bytes} {i : Nat} (h : s.findIdx? (fun c => (ascii "GP").contains c) = some i) :
    s[i]? = some 71 ∨ s[i]? = some 80 := by
  obtain ⟨hlt, hgp, -⟩ := List.findIdx?_eq_some_iff_getElem.1 h
  rw [gp_eq] at hgp
  rw [List.getElem?_eq_getElem hlt]
  simpa using hgp

/-- Where the first `G` or `P` stands, erasing stops there or goes on behind it. -/
theorem firstStop_found {s : Bytes} {i : Nat} (h : s.findIdx? (fun c => (ascii "GP").contains c) = some i) :
    firstStop s = if Word (s.drop i) ∨ Short (s.drop i) then some i
      else (firstStop (s.drop (i + 1))).map (· + (i + 1)) := by
  obtain ⟨hlt, -, -⟩ := List.findIdx?_eq_some_iff_getElem.1 h
  have hdrop : s.drop i = s[i] :: s.drop (i + 1) := List.drop_eq_getElem_cons hlt
  rw [firstStop_drop h, hdrop, firstStop]
  split
  · simp
  · rw [Option.map_map]
    congr 1
    funext x
    simp only [Function.comp]
    omega

theorem short_drop_iff {s : Bytes} {i : Nat} (h : s[i]? = some 71 ∨ s[i]? = some 80) : Short (s.drop i) ↔
    ¬ ((s[i]? = some 71 ∧ i + 4 < s.length) ∨ (s[i]? = some 80 ∧ i + 5 < s.length)) := by
  unfold Short
  rw [List.head?_drop, List.length_drop]
  rcases h with h | h
  · rw [h]
    simp
    omega
  · rw [h]
    simp
    omega

/-- **What a pass does**, by what it finds. -/
theorem passed {s : Bytes} (hne : s ≠ []) : Passed s := by
  have hpos := List.length_pos_iff.2 hne
  have hpass := resyncPass.eq_def (s, 0)
  simp only at hpass
  rw [if_pos ⟨hpos, hpos⟩, findFirstOf, List.drop_zero] at hpass
  cases hf : s.findIdx? (fun c => (ascii "GP").contains c) with
  | none =>
    rw [hf] at hpass
    exact .clear (firstStop_none hf) hpass
  | some i =>
    have hstop := firstStop_found hf
    rw [hf] at hpass
    simp only [Option.map_some, Nat.add_zero] at hpass
    by_cases hw : Word (s.drop i)
    · rw [if_pos (Or.inl hw)] at hstop
      rw [if_pos ((word_drop_iff s i).1 hw)] at hpass
      by_cases hi : 0 < i
      · rw [if_pos hi] at hpass
        obtain ⟨h1, h2⟩ := not_gp_before hf hi
        exact .word i hstop hw hi h1 h2 hpass
      · rw [if_neg hi] at hpass
        rw [Nat.eq_zero_of_not_pos hi] at hstop
        exact .stuck (Or.inl hstop) hpass
    · rw [if_neg (fun h => hw ((word_drop_iff s i).2 h))] at hpass
      have hgp := gp_found hf
      by_cases hs : Short (s.drop i)
      · rw [if_pos (Or.inr hs)] at hstop
        rw [if_neg ((short_drop_iff hgp).1 hs)] at hpass
        exact .stuck (Or.inr ⟨i, hstop, hw⟩) hpass
      · rw [if_neg (not_or.2 ⟨hw, hs⟩)] at hstop
        rw [if_pos (Decidable.not_not.1 (fun h => hs ((short_drop_iff hgp).2 h)))] at hpass
        exact .erased i hgp hstop hpass

/-! ## What comes of a buffer -/

theorem settles_erased {s : Bytes} {i : Nat} (hgp : s[i]? = some 71 ∨ s[i]? = some 80)
    (h : firstStop s = (firstStop (s.drop (i + 1))).map (· + (i + 1))) :
    (Settles s ↔ Settles (s.drop (i + 1))) ∧ leftOver s = leftOver (s.drop (i + 1)) := by
  have hget (k : Nat) (hk : 0 < k) : (s.drop (i + 1))[k - 1]? = s[k + (i + 1) - 1]? := by
    rw [List.getElem?_drop]
    congr 1
    omega
  have hdrop (k : Nat) : (s.drop (i + 1)).drop k = s.drop (k + (i + 1)) := by
    rw [List.drop_drop, Nat.add_comm]
  unfold Settles leftOver
  rw [h]
  cases hk : firstStop (s.drop (i + 1)) with
  | none => exact ⟨⟨fun _ => nofun, fun _ => nofun⟩, rfl⟩
  | some k =>
    refine ⟨⟨fun hs k' hk' => ?_, fun hs k' hk' => ?_⟩, (hdrop k).symm⟩
    · cases hk'
      obtain ⟨hw, -, h1, h2⟩ := hs (k + (i + 1)) rfl
      rw [hdrop]
      rcases Nat.eq_zero_or_pos k with rfl | hpos
      · rw [Nat.zero_add, Nat.add_sub_cancel] at h1 h2
        rcases hgp with hgp | hgp
        · exact absurd hgp h1
        · exact absurd hgp h2
      · rw [hget k hpos]
        exact ⟨hw, hpos, h1, h2⟩
    · cases hk'
      obtain ⟨hw, hpos, h1, h2⟩ := hs k rfl
      rw [hdrop] at hw
      rw [hget k hpos] at h1 h2
      exact ⟨hw, Nat.lt_of_lt_of_le hpos (Nat.le_add_right _ _), h1, h2⟩

/-- **The loop leaves exactly the buffers that settle**, with what is left over. -/
theorem resync_run : ∀ (n : Nat) (s : Bytes), s.length < n →
    (Settles s ∧ ∃ m, Loop.run resyncPass m (s, 0) = some (leftOver s)) ∨ (¬ Settles s ∧ Loop.Hangs resyncPass (s, 0))
  | 0, _, hn => absurd hn (Nat.not_lt_zero _)
  | n + 1, s, hn => by
    by_cases hne : s = []
    · subst hne
      exact Or.inl ⟨nofun, 1, rfl⟩
    cases passed hne with
    | clear hstop hpass =>
      refine Or.inl ⟨fun k hk => ?_, 2, ?_⟩
      · rw [hstop] at hk
        cases hk
      · rw [Loop.run_again hpass, leftOver, hstop]
        rfl
    | word i hstop hw hi h1 h2 hpass =>
      refine Or.inl ⟨fun k hk => ?_, 2, ?_⟩
      · rw [hstop] at hk
        cases hk
        exact ⟨hw, hi, h1, h2⟩
      · rw [Loop.run_again hpass, leftOver, hstop]
        refine Loop.run_leave ?_ 0
        rw [resyncPass, if_neg (fun h => Nat.lt_irrefl _ h.2)]
    | stuck hstop hpass =>
      refine Or.inr ⟨fun hs => ?_, Loop.hangs_of_stuck hpass⟩
      rcases hstop with h | ⟨i, h, hnot⟩
      · exact absurd (hs 0 h).2.1 (Nat.lt_irrefl 0)
      · exact hnot (hs i h).1
    | erased i hgp hstop hpass =>
      obtain ⟨hsettles, hleft⟩ := settles_erased hgp hstop
      have hlen : (s.drop (i + 1)).length < n := by
        have := List.length_pos_iff.2 hne
        rw [List.length_drop]
        omega
      rw [hsettles, hleft, Loop.hangs_again hpass]
      rcases resync_run n (s.drop (i + 1)) hlen with ⟨hs, m, hm⟩ | h
      · exact Or.inl ⟨hs, m + 1, by rw [Loop.run_again hpass, hm]⟩
      · exact Or.inr h

theorem resync_of_settles {rqst : Bytes} (h : Settles rqst) : resync rqst = some (leftOver rqst) := by
  rcases resync_run _ rqst (Nat.lt_succ_self _) with ⟨-, m, hm⟩ | ⟨hn, -⟩
  · cases hr : resync rqst with
    | none =>
      rw [(resync_eq_none rqst).1 hr m] at hm
      cases hm
    | some left => rw [Loop.run_unique hr hm]
  · exact absurd h hn

theorem resync_of_not_settles {rqst : Bytes} (h : ¬ Settles rqst) : resync rqst = none := by
  rcases resync_run _ rqst (Nat.lt_succ_self _) with ⟨hs, -⟩ | ⟨-, hh⟩
  · exact absurd hs h
  · exact (resync_eq_none rqst).2 hh

/-! ## What is left -/

/-- What `parseRequest` is to leave of a buffer without a blank line. -/
structure Resynced (rqst left : Bytes) : Prop where
  /-- A prefix is gone, and it ends before the first method word with another byte behind it. -/
  erased : ∃ gone, rqst = gone ++ left ∧
    ∀ k, Word (rqst.drop k) → (∀ j, j < k → ¬ Word (rqst.drop j)) → gone.length ≤ k
  begins : left = [] ∨ ∃ word, (word = getWord ∨ word = postWord) ∧ (left <+: word ∨ word <+: left)

theorem not_stop_drop : ∀ {s : Bytes} {j : Nat}, (∀ k, firstStop s = some k → j < k) →
    ¬ (Word (s.drop j) ∨ Short (s.drop j))
  | [], j, _ => by
    rw [List.drop_nil]
    decide
  | c :: s, j, h => by
    by_cases hs : Word (c :: s) ∨ Short (c :: s)
    · have h0 := h 0 (by rw [firstStop, if_pos hs])
      exact absurd h0 (Nat.not_lt_zero j)
    · cases j with
      | zero => exact hs
      | succ j =>
        rw [List.drop_succ_cons]
        refine not_stop_drop fun k hk => ?_
        have := h (k + 1) (by rw [firstStop_cons hs, hk]; rfl)
        omega

theorem resynced_leftOver {rqst : Bytes} (h : Settles rqst) : Resynced rqst (leftOver rqst) := by
  unfold leftOver
  cases hk : firstStop rqst with
  | none =>
    refine ⟨⟨rqst, (List.append_nil _).symm, fun k hw => ?_⟩, Or.inl rfl⟩
    exact absurd (Or.inl hw) (not_stop_drop fun k' hk' => by rw [hk] at hk'; cases hk')
  | some k =>
    obtain ⟨hw, -⟩ := h k hk
    refine ⟨⟨rqst.take k, (List.take_append_drop k rqst).symm, fun j hj _ => ?_⟩, Or.inr ?_⟩
    · rw [List.length_take]
      refine Nat.le_trans (Nat.min_le_left _ _) (Nat.le_of_not_lt fun hlt => ?_)
      refine not_stop_drop (fun k' hk' => ?_) (Or.inl hj)
      rw [hk] at hk'
      cases hk'
      exact hlt
    · rcases hw with ⟨-, ht⟩ | ⟨-, ht⟩
      · exact ⟨getWord, Or.inl rfl, Or.inr (by rw [← ht]; exact List.take_prefix 4 _)⟩
      · exact ⟨postWord, Or.inr rfl, Or.inr (by rw [← ht]; exact List.take_prefix 5 _)⟩

/-! ## Whether parsing comes back -/

theorem parseRequest_of_blank {rqst : Bytes} (h : (find blankLine rqst).isSome) (ii : Stack) :
    Throws (parseRequest ii rqst false) := by
  unfold parseRequest
  rw [if_pos h]
  refine (HttpRequest.contentLength_throws _).bind fun cl => ?_
  simp only [Bool.false_eq_true, and_false, if_false]
  split
  · exact Throws.ok _
  · exact Throws.ok _

theorem parseRequest_of_not_blank {rqst : Bytes} (h : find blankLine rqst = none) (ii : Stack) (b : Bool) :
    parseRequest ii rqst b = match resync rqst with
      | some left => .ok ({}, left)
      | none => .error .hang := by
  unfold parseRequest
  refine (if_neg (by rw [h]; exact Bool.false_ne_true)).trans ?_
  cases resync rqst <;> rfl

/-- **Parsing a buffer comes back, and looks for a request without losing one, exactly where a blank line is or the
erasing ends by itself**: nothing stops it, or a whole method word that is not at the front of what is left by then. -/
theorem parse_returns_iff (ii : Stack) (rqst : Bytes) :
    (parseRequest ii rqst false ≠ .error .hang ∧
      (find blankLine rqst = none → ∀ q, parseRequest ii rqst false = .ok q → Resynced rqst q.2)) ↔
    ((find blankLine rqst).isSome ∨ Settles rqst) := by
  cases hblank : find blankLine rqst with
  | some k =>
    have hthrows := parseRequest_of_blank (show (find blankLine rqst).isSome by rw [hblank]; rfl) ii
    exact ⟨fun _ => Or.inl rfl, fun _ => ⟨hthrows.ne (by decide), nofun⟩⟩
  | none =>
    rw [parseRequest_of_not_blank hblank]
    constructor
    · rintro ⟨hreturns, -⟩
      refine Or.inr (Classical.byContradiction fun hn => hreturns ?_)
      rw [resync_of_not_settles hn]
    · rintro (h | h)
      · cases h
      · rw [resync_of_settles h]
        refine ⟨nofun, fun _ q hq => ?_⟩
        cases hq
        exact resynced_leftOver h

/-- The first bytes of any request: a method word at the front, and no blank line yet. -/
theorem parse_hangs : ¬ ∀ (ii : Stack) (rqst : Bytes), parseRequest ii rqst false ≠ .error .hang ∧
    (find blankLine rqst = none → ∀ q, parseRequest ii rqst false = .ok q → Resynced rqst q.2) :=
  fun h => (h (fun _ => 0) (ascii "GET /")).1 (by decide)

end Http
end Pico
