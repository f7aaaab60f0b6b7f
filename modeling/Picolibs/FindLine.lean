import Picolibs.TrimFile
/-!
# FindLine — stepping through the log (`file_logger.h`, `file_logger.cpp`)

`find_line` reads as many pieces as it is asked for, and returns where the last of them ended; where it reads none it
returns 0, not the position it started from.  `Pages` is what a pager needs of it, and `pages_iff` says when it has it.
-/
namespace Pico
namespace FileLogger

/-- The loop of `find_line`, with `n` lines to go: `rest` is what is behind the position `pos`. -/
def findLineFrom : Nat → Bytes → Nat → Nat → Nat
  | 0, _, _, ret => ret
  | n + 1, rest, pos, ret =>
    let linebuf := (fgets pieceSize rest).1
    if linebuf.isEmpty then ret
    else findLineFrom n (fgets pieceSize rest).2 (pos + linebuf.length) (pos + linebuf.length)

/-- `find_line`; `line` is compared with an unsigned counter. -/
def Log.findLine (l : Log) (line : Int) (start : Nat) : Nat :=
  findLineFrom (line % 2 ^ 32).toNat (l.file.drop start) start 0

/-- The lines of a text, with one that has no newline at its end. -/
def linesLeft (s : Bytes) : Nat := s.count 10 + if s.getLastD 10 = 10 then 0 else 1

/-- What a pager needs for `a` lines and then `b` lines from `start`. -/
structure Pages (l : Log) (start a b : Nat) : Prop where
  forward : start ≤ l.findLine a start
  toEnd : linesLeft (l.file.drop start) < a → l.findLine a start = l.file.length
  compose : l.findLine (a + b : Nat) start = l.findLine b (l.findLine a start)

theorem findLineFrom_eq : ∀ (n : Nat) (rest : Bytes) (pos ret : Nat),
    findLineFrom n rest pos ret =
      if n = 0 ∨ rest = [] then ret else pos + ((pieces rest).take n).flatten.length
  | 0, _, _, _ => rfl
  | n + 1, [], pos, ret => rfl
  | n + 1, c :: s, pos, ret => by
    have hne : (fgets pieceSize (c :: s)).1.isEmpty = false := List.isEmpty_eq_false_iff.2 (fgets_ne_nil 131 c s)
    rw [findLineFrom, hne]
    simp only [Bool.false_eq_true, if_false]
    rw [findLineFrom_eq n, if_neg (show ¬ (n + 1 = 0 ∨ c :: s = []) by simp), pieces, List.take_succ_cons,
      List.flatten_cons, List.length_append]
    by_cases h : n = 0 ∨ (fgets pieceSize (c :: s)).2 = []
    · rw [if_pos h]
      rcases h with rfl | h
      · simp
      · simp [h, pieces]
    · rw [if_neg h, Nat.add_assoc]

/-- **Where `find_line` ends.** -/
theorem findLine_eq (l : Log) {n : Nat} (hn : n < 2 ^ 32) (start : Nat) :
    l.findLine n start =
      if n = 0 ∨ l.file.drop start = [] then 0 else start + ((pieces (l.file.drop start)).take n).flatten.length := by
  have hmod : ((n : Int) % 2 ^ 32).toNat = n := by omega
  rw [Log.findLine, hmod, findLineFrom_eq]

theorem findLine_zero (l : Log) (start : Nat) : l.findLine (0 : Nat) start = 0 := by
  rw [findLine_eq l (by decide), if_pos (Or.inl rfl)]

theorem findLine_of_end (l : Log) {n start : Nat} (hn : n < 2 ^ 32) (h : l.file.length ≤ start) :
    l.findLine n start = 0 := by
  rw [findLine_eq l hn, if_pos (Or.inr (List.drop_eq_nil_of_le h))]

theorem findLine_of_pos (l : Log) {n start : Nat} (hn : n < 2 ^ 32) (hpos : 0 < n) (hs : start < l.file.length) :
    l.findLine n start = start + ((pieces (l.file.drop start)).take n).flatten.length := by
  rw [findLine_eq l hn, if_neg]
  rw [List.drop_eq_nil_iff, not_or]
  omega

theorem length_flatten_pos (ps : List Bytes) (hne : ps ≠ []) (h : ∀ p ∈ ps, p ≠ []) : 0 < ps.flatten.length := by
  obtain ⟨p, hp⟩ := List.exists_mem_of_ne_nil ps hne
  have hp0 := List.length_pos_iff.2 (h p hp)
  have hle := (List.sublist_flatten_of_mem hp).length_le
  omega

theorem lt_length_of_pieces {l : Log} {start n : Nat} (h : n < (pieces (l.file.drop start)).length) :
    start < l.file.length := by
  by_contra hge
  rw [List.drop_eq_nil_of_le (Nat.not_lt.1 hge), pieces] at h
  cases h

/-- A line that is there is stepped over. -/
theorem lt_findLine (l : Log) {n start : Nat} (hn : n < 2 ^ 32) (hpos : 0 < n) (hs : start < l.file.length) :
    start < l.findLine n start := by
  have hne : (pieces (l.file.drop start)).take n ≠ [] := by
    rw [ne_eq, List.take_eq_nil_iff, not_or]
    refine ⟨by omega, fun hnil => ?_⟩
    have hflat := flatten_pieces (l.file.drop start)
    rw [hnil, List.flatten_nil] at hflat
    have hlen := congrArg List.length hflat
    rw [List.length_drop, List.length_nil] at hlen
    omega
  have hmore := length_flatten_pos _ hne fun p hp => pieces_ne_nil _ p (List.mem_of_mem_take hp)
  rw [findLine_of_pos l hn hpos hs]
  omega

/-- There is something left as long as there are pieces. -/
theorem findLine_lt_iff (l : Log) {n start : Nat} (hn : n < 2 ^ 32) (hpos : 0 < n) (hs : start < l.file.length) :
    l.findLine n start < l.file.length ↔ n < (pieces (l.file.drop start)).length := by
  have hflat := congrArg List.length (flatten_pieces (l.file.drop start))
  rw [findLine_of_pos l hn hpos hs]
  rw [← List.take_append_drop n (pieces (l.file.drop start)), List.flatten_append, List.length_append,
    List.length_drop] at hflat
  by_cases hlt : n < (pieces (l.file.drop start)).length
  · have hmore := length_flatten_pos ((pieces (l.file.drop start)).drop n)
      (by rw [ne_eq, List.drop_eq_nil_iff]; omega)
      (fun p hp => pieces_ne_nil _ p (List.mem_of_mem_drop hp))
    omega
  · rw [List.drop_eq_nil_of_le (Nat.not_lt.1 hlt), List.flatten_nil, List.length_nil] at hflat
    omega

/-- **Lines are counted on** from where the first of them end. -/
theorem findLine_add (l : Log) {start a b : Nat} (hab : a + b < 2 ^ 32) (ha : 0 < a) (hb : 0 < b)
    (hk : a < (pieces (l.file.drop start)).length) :
    l.findLine (a + b : Nat) start = l.findLine b (l.findLine a start) := by
  have hs := lt_length_of_pieces hk
  have hlt := (findLine_lt_iff l (by omega) ha hs).2 hk
  rw [findLine_of_pos l (by omega) hb hlt, findLine_of_pos l hab (by omega) hs, findLine_of_pos l (by omega) ha hs,
    ← List.drop_drop, pieces_drop, List.take_add, List.flatten_append, List.length_append, Nat.add_assoc]

/-- **When a pager can step through the log**: `a` and `b` are not zero, the pieces from `start` on are more than `a`,
and the lines not fewer; or the file is empty, or nothing is stepped over at its start. -/
theorem pages_iff (l : Log) (start a b : Nat) (hs : start ≤ l.file.length) (hab : a + b < 2 ^ 31) :
    Pages l start a b ↔
      l.file = [] ∨ (start = 0 ∧ a = 0) ∨
        (0 < a ∧ 0 < b ∧ a < (pieces (l.file.drop start)).length ∧ a ≤ linesLeft (l.file.drop start)) := by
  constructor
  · rintro ⟨hforward, hend, hcompose⟩
    by_cases hfile : l.file = []
    · exact Or.inl hfile
    have hlen := List.length_pos_iff.2 hfile
    right
    by_cases ha : a = 0
    · subst ha
      rw [findLine_zero] at hforward
      exact Or.inl ⟨Nat.le_zero.1 hforward, rfl⟩
    right
    have hlt : start < l.file.length := by
      by_contra hge
      rw [findLine_of_end l (by omega) (Nat.not_lt.1 hge)] at hforward
      omega
    have hsum := lt_findLine l (n := a + b) (by omega) (by omega) hlt
    have hb : 0 < b := by
      by_contra hb
      obtain rfl : b = 0 := by omega
      rw [findLine_zero] at hcompose
      omega
    have hk : a < (pieces (l.file.drop start)).length := by
      rw [← findLine_lt_iff l (by omega) (by omega) hlt]
      by_contra hge
      rw [findLine_of_end l (by omega) (Nat.not_lt.1 hge)] at hcompose
      omega
    refine ⟨by omega, hb, hk, ?_⟩
    by_contra hlines
    have hmore := (findLine_lt_iff l (by omega) (by omega) hlt).2 hk
    rw [hend (by omega)] at hmore
    exact Nat.lt_irrefl _ hmore
  · rintro (hfile | ⟨rfl, rfl⟩ | ⟨ha, hb, hk, hlines⟩)
    · have hzero : ∀ n s : Nat, n < 2 ^ 32 → l.findLine n s = 0 := fun n s hn =>
        findLine_of_end l hn (by rw [hfile]; exact Nat.zero_le s)
      rw [hfile] at hs
      refine ⟨?_, fun _ => ?_, ?_⟩
      · exact Nat.le_trans hs (Nat.zero_le _)
      · rw [hzero _ _ (by omega), hfile]
        rfl
      · rw [hzero _ _ (by omega), hzero _ _ (by omega)]
    · refine ⟨Nat.zero_le _, fun h => absurd h (Nat.not_lt_zero _), ?_⟩
      rw [findLine_zero, Nat.zero_add]
    · have hlt := lt_findLine l (n := a) (by omega) ha (lt_length_of_pieces hk)
      exact ⟨Nat.le_of_lt hlt, fun h => absurd h (Nat.not_lt.2 hlines), findLine_add l (by omega) ha hb hk⟩

theorem pages_three : Pages (construct threeLines.flatten 1000 500) 4 1 1 := by
  refine (pages_iff _ 4 1 1 (by decide) (by decide)).2 (Or.inr (Or.inr ⟨by decide, by decide, ?_, by decide⟩))
  show 1 < (pieces (threeLines.drop 1).flatten).length
  have hlines : ∀ x ∈ threeLines.drop 1, Line x := by decide
  rw [(length_pieces_lines hlines).2.2 (by decide)]
  decide

/-- Looking for no line goes back to the start of the file. -/
theorem findLine_back : ¬ ∀ (l : Log) (start a b : Nat), start ≤ l.file.length → a + b < 2 ^ 31 →
    Pages l start a b := by
  intro h
  have hforward := (h (construct threeLines.flatten 1000 500) 4 0 1 (by decide) (by decide)).forward
  rw [findLine_zero] at hforward
  exact absurd hforward (by decide)

end FileLogger
end Pico
