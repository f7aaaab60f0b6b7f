import Picolibs.FileLogger
/-!
# TrimFile — trimming the log, and the file operations that fail (`file_logger.cpp`)

`trim_file` copies the end of the log to `tmp.tmp` and puts the copy in the log's place.  Here each operation may fail:
opening `tmp.tmp`, any `fprintf` to it, closing it, and the `rename`; the `remove` before the `rename` succeeds.  With
no failure it is `Log.trimFile` (`trimFile_done`).

A file of lines is read in pieces that end with each line, so the last pieces are the last lines exactly when each of
these is one piece (`trim_lines_iff`).  `trim_fails_iff`: a failure leaves the log alone, unless `tmp.tmp` was not
opened or the `rename` is all that fails; the flag that is tested knows of neither.
-/
namespace Pico
namespace FileLogger

/-! ## The lines of a file -/

/-- A line with its newline, and no NUL. -/
def Line (x : Bytes) : Prop := ∃ t, x = t ++ [10] ∧ 10 ∉ t ∧ 0 ∉ t

instance (x : Bytes) : Decidable (Line x) :=
  decidable_of_iff (x ≠ [] ∧ x = x.dropLast ++ [10] ∧ 10 ∉ x.dropLast ∧ 0 ∉ x.dropLast)
    ⟨fun h => ⟨x.dropLast, h.2⟩, fun ⟨t, hx, ht⟩ => by
      rw [hx, List.dropLast_concat]
      exact ⟨by simp, rfl, ht⟩⟩

/-- A piece of a line, and the rest. -/
theorem fgets_line (s : Bytes) : ∀ (k : Nat) {t : Bytes}, 10 ∉ t →
    fgets k (t ++ 10 :: s) = ((t ++ [10]).take k, (t ++ [10]).drop k ++ s)
  | 0, t, _ => by
    rw [fgets, List.take_zero, List.drop_zero, List.append_assoc]
    rfl
  | k + 1, [], _ => by
    rw [List.nil_append, fgets, if_pos rfl]
    simp
  | k + 1, c :: t, h => by
    rw [List.mem_cons, not_or] at h
    rw [List.cons_append, fgets, if_neg (Ne.symm h.1), fgets_line s k h.2]
    rfl

theorem pieces_of_ne_nil {s : Bytes} (h : s ≠ []) :
    pieces s = (fgets pieceSize s).1 :: pieces (fgets pieceSize s).2 := by
  cases s with
  | nil => exact absurd rfl h
  | cons c s => rw [pieces]

/-- **A piece ends with the line**, so what follows is read as if it stood alone. -/
theorem pieces_line (s : Bytes) : ∀ (n : Nat) {t : Bytes}, t.length ≤ n → 10 ∉ t →
    pieces (t ++ 10 :: s) = pieces (t ++ [10]) ++ pieces s ∧
      0 < (pieces (t ++ [10])).length ∧ ((pieces (t ++ [10])).length = 1 ↔ t.length < pieceSize) := by
  intro n
  induction n with
  | zero =>
    intro t hn _
    obtain rfl : t = [] := List.length_eq_zero_iff.1 (Nat.le_zero.1 hn)
    simp [pieces_of_ne_nil, pieceSize, fgets, pieces]
  | succ n ih =>
    intro t hn ht
    have hnil : t ++ [10] ≠ [] := by simp
    have hself := fgets_line [] pieceSize ht
    rw [List.append_nil] at hself
    rw [pieces_of_ne_nil (s := t ++ 10 :: s) (by simp), pieces_of_ne_nil hnil, fgets_line s pieceSize ht, hself]
    simp only
    by_cases hlt : t.length < pieceSize
    · have hdrop : (t ++ [10]).drop pieceSize = [] := List.drop_eq_nil_of_le (by rw [List.length_append]; exact hlt)
      rw [hdrop, pieces]
      exact ⟨rfl, Nat.succ_pos _, iff_of_true rfl hlt⟩
    · have hdrop : (t ++ [10]).drop pieceSize = t.drop pieceSize ++ [10] :=
        List.drop_append_of_le_length (Nat.not_lt.1 hlt)
      have hlen : (t.drop pieceSize).length ≤ n := by
        rw [List.length_drop, pieceSize]
        omega
      obtain ⟨happ, hpos, -⟩ := ih hlen fun h => ht (List.mem_of_mem_drop h)
      rw [hdrop, List.append_assoc, List.singleton_append, happ]
      refine ⟨rfl, Nat.succ_pos _, iff_of_false ?_ hlt⟩
      rw [List.length_cons]
      omega

theorem Line.pieces_append {x : Bytes} (h : Line x) (s : Bytes) : pieces (x ++ s) = pieces x ++ pieces s := by
  obtain ⟨t, rfl, ht, -⟩ := h
  rw [List.append_assoc]
  exact (pieces_line s t.length (Nat.le_refl _) ht).1

theorem Line.length_pieces_pos {x : Bytes} (h : Line x) : 0 < (pieces x).length := by
  obtain ⟨t, rfl, ht, -⟩ := h
  exact (pieces_line [] t.length (Nat.le_refl _) ht).2.1

theorem Line.length_pieces_iff {x : Bytes} (h : Line x) : (pieces x).length = 1 ↔ x.length ≤ pieceSize := by
  obtain ⟨t, rfl, ht, -⟩ := h
  rw [(pieces_line [] t.length (Nat.le_refl _) ht).2.2, List.length_append]
  rfl

/-- The pieces of a file of lines. -/
theorem pieces_lines : ∀ {lines : List Bytes}, (∀ x ∈ lines, Line x) → pieces lines.flatten = lines.flatMap pieces
  | [], _ => by
    rw [List.flatten_nil, pieces]
    rfl
  | x :: lines, h => by
    rw [List.flatten_cons, (h x List.mem_cons_self).pieces_append, List.flatMap_cons,
      pieces_lines fun y hy => h y (List.mem_cons_of_mem x hy)]

/-- **As many pieces as lines** when each line is one. -/
theorem length_pieces_lines : ∀ {lines : List Bytes}, (∀ x ∈ lines, Line x) →
    lines.length ≤ (pieces lines.flatten).length ∧
      ((pieces lines.flatten).length = lines.length ↔ ∀ x ∈ lines, x.length ≤ pieceSize)
  | [], _ => by
    rw [List.flatten_nil, pieces]
    exact ⟨Nat.le_refl 0, iff_of_true rfl fun x hx => absurd hx List.not_mem_nil⟩
  | x :: lines, h => by
    have hx := h x List.mem_cons_self
    have hpos := hx.length_pieces_pos
    have hone := hx.length_pieces_iff
    obtain ⟨hle, hiff⟩ := length_pieces_lines fun y hy => h y (List.mem_cons_of_mem x hy)
    rw [List.flatten_cons, hx.pieces_append, List.length_append, List.length_cons, List.forall_mem_cons, ← hone, ← hiff]
    omega

/-! ## What is left of a file of lines -/

theorem pieces_ne_nil : ∀ (s : Bytes), ∀ p ∈ pieces s, p ≠ []
  | [], p, hp => by
    rw [pieces] at hp
    cases hp
  | c :: s, p, hp => by
    rw [pieces, List.mem_cons] at hp
    rcases hp with rfl | hp
    · exact fgets_ne_nil 131 c s
    · exact pieces_ne_nil (fgets pieceSize (c :: s)).2 p hp
termination_by s => s.length
decreasing_by exact length_fgets c s

/-- A file with more pieces than are kept has a position to copy from. -/
theorem findTail_pos {l : Log} {n : Nat} : 0 < l.findTail n ↔ n < (pieces l.file).length := by
  rw [findTail_eq]
  constructor
  · intro h
    by_contra hn
    rw [Nat.sub_eq_zero_of_le (Nat.not_lt.1 hn), List.take_zero] at h
    exact absurd h (Nat.lt_irrefl 0)
  · intro h
    obtain ⟨p, ps, hps⟩ := List.exists_cons_of_length_pos (Nat.zero_lt_of_lt h)
    have hp : p ≠ [] := pieces_ne_nil l.file p (by rw [hps]; exact List.mem_cons_self)
    obtain ⟨k, hk⟩ : ∃ k, (pieces l.file).length - n = k + 1 := ⟨(pieces l.file).length - n - 1, by omega⟩
    rw [hk, hps, List.take_succ_cons, List.flatten_cons, List.length_append]
    have := List.length_pos_of_ne_nil hp
    omega

theorem flatMap_cstr {ps : List Bytes} (h : 0 ∉ ps.flatten) : ps.flatMap Text.cstr = ps.flatten := by
  rw [List.flatMap_def]
  congr 1
  refine (List.map_congr_left fun p hp => ?_).trans (List.map_id ps)
  exact Text.cstr_eq_self_iff.2 fun h0 => h (List.mem_flatten.2 ⟨p, hp, h0⟩)

/-- **The last `trimmed_lines_` pieces are what is left**, of a file without NULs that has more. -/
theorem trimFile_eq {l : Log} (hnul : 0 ∉ l.file) (hmore : l.trimmedLines.toNat < (pieces l.file).length) :
    l.trimFile = { l with
      file := ((pieces l.file).drop ((pieces l.file).length - l.trimmedLines.toNat)).flatten
      lineCount := l.trimmedLines } := by
  have hin : 0 ∉ ((pieces l.file).drop ((pieces l.file).length - l.trimmedLines.toNat)).flatten := by
    intro h
    obtain ⟨p, hp, h0⟩ := List.mem_flatten.1 h
    refine hnul ?_
    rw [← flatten_pieces l.file]
    exact List.mem_flatten.2 ⟨p, List.mem_of_mem_drop hp, h0⟩
  have hlen : (pieces l.file).length - ((pieces l.file).length - l.trimmedLines.toNat) = l.trimmedLines.toNat := by
    omega
  unfold Log.trimFile
  simp only
  rw [if_pos (findTail_pos.2 hmore), pieces_tail, flatMap_cstr hin, List.length_drop, hlen, UInt32.ofNat_toNat]

theorem nul_free_lines {lines : List Bytes} (h : ∀ x ∈ lines, Line x) : 0 ∉ lines.flatten := by
  intro h0
  obtain ⟨x, hx, h0⟩ := List.mem_flatten.1 h0
  obtain ⟨t, rfl, -, hnul⟩ := h x hx
  rcases List.mem_append.1 h0 with h0 | h0
  · exact hnul h0
  · exact absurd (List.mem_singleton.1 h0) (by decide)

/-- The last lines. -/
def lastLines (n : Nat) (lines : List Bytes) : List Bytes := lines.drop (lines.length - n)

/-- **What `trim_file` leaves of a file of lines**: the last `trimmed_lines_` of them exactly when each of these fits
into the buffer. -/
theorem trim_lines_iff {l : Log} {lines : List Bytes} (hlines : ∀ x ∈ lines, Line x) (hfile : l.file = lines.flatten)
    (hmore : l.trimmedLines.toNat < lines.length) :
    l.trimFile.file = (lastLines l.trimmedLines.toNat lines).flatten ∧ l.trimFile.lineCount = l.trimmedLines ↔
      ∀ x ∈ lastLines l.trimmedLines.toNat lines, x.length ≤ pieceSize := by
  have hle := (length_pieces_lines hlines).1
  rw [← hfile] at hle
  have hnul : 0 ∉ l.file := by
    rw [hfile]
    exact nul_free_lines hlines
  rw [trimFile_eq hnul (Nat.lt_of_lt_of_le hmore hle)]
  simp only [and_true]
  generalize hn : l.trimmedLines.toNat = n at hmore
  -- the last lines, and the lines before them
  have hlast : ∀ x ∈ lastLines n lines, Line x := fun x hx => hlines x (List.mem_of_mem_drop hx)
  have hlen : (lastLines n lines).length = n := by
    rw [lastLines, List.length_drop]
    omega
  have hsplit : lines = lines.take (lines.length - n) ++ lastLines n lines := (List.take_append_drop _ _).symm
  have hpieces : pieces l.file = pieces (lines.take (lines.length - n)).flatten ++
      pieces (lastLines n lines).flatten := by
    rw [hfile, pieces_lines hlines, pieces_lines hlast, pieces_lines fun x hx => hlines x (List.mem_of_mem_take hx),
      ← List.flatMap_append, ← hsplit]
  obtain ⟨-, hiff⟩ := length_pieces_lines hlast
  rw [← hiff, hlen]
  constructor
  · intro heq
    have hdrop : pieces ((pieces l.file).drop ((pieces l.file).length - n)).flatten =
        (pieces l.file).drop ((pieces l.file).length - n) := by
      have htail := pieces_drop ((pieces l.file).length - n) l.file
      have hflat : l.file.drop ((pieces l.file).take ((pieces l.file).length - n)).flatten.length =
          ((pieces l.file).drop ((pieces l.file).length - n)).flatten := by
        have hfl := congrArg List.flatten htail
        rwa [flatten_pieces] at hfl
      rwa [hflat] at htail
    rw [← heq, hdrop, List.length_drop]
    omega
  · intro hcount
    have hcut : (pieces l.file).length - n = (pieces (lines.take (lines.length - n)).flatten).length := by
      rw [hpieces, List.length_append, hcount]
      omega
    rw [hcut, hpieces, List.drop_left, flatten_pieces]

/-- Three lines, of which the last is kept. -/
def threeLines : List Bytes := [ascii "one" ++ [10], ascii "two" ++ [10], ascii "three" ++ [10]]

theorem trim_lines_three :
    (Log.trimFile ⟨threeLines.flatten, 500, 1, 3, 0, 0⟩).file = ascii "three" ++ [10] ∧
    (Log.trimFile ⟨threeLines.flatten, 500, 1, 3, 0, 0⟩).lineCount = 1 :=
  (@trim_lines_iff ⟨threeLines.flatten, 500, 1, 3, 0, 0⟩ threeLines (by decide) rfl (by decide)).2 (by decide)

/-- **A line of 141 bytes is cut**: the last 9 of them are left. -/
theorem trim_lines_cut : ¬ ∀ (l : Log) (lines : List Bytes), (∀ x ∈ lines, Line x) → l.file = lines.flatten →
    l.trimmedLines.toNat < lines.length →
    l.trimFile.file = (lastLines l.trimmedLines.toNat lines).flatten ∧ l.trimFile.lineCount = l.trimmedLines := by
  intro h
  obtain ⟨hfile, -⟩ := h ⟨[97, 10] ++ (List.replicate 140 98 ++ [10]), 500, 1, 2, 0, 0⟩
    [[97, 10], List.replicate 140 98 ++ [10]] (by decide +kernel) (by decide +kernel) (by decide)
  exact absurd (congrArg List.length hfile) (by decide +kernel)

/-! ## The operations that fail -/

/-- What becomes of the operations on `tmp.tmp`. -/
structure Outcomes where
  opens : Bool := true
  -- of the `fprintf`s in their order; one that fails has written so many characters
  fprintf : Nat → Option Nat := fun _ => none
  -- a close that fails leaves so many characters in the file
  fclose : Option Nat := none
  rename : Bool := true

/-- What `trim_file` returns and leaves. -/
structure Trimmed where
  ret : Bool
  -- the files, where they exist
  log : Option Bytes
  tmp : Option Bytes
  lineCount : UInt32
  deriving DecidableEq

/-- The loop that copies, from its `i`th pass on: whether all was written, and what was. -/
def copyFrom (o : Outcomes) : Nat → List Bytes → Bool × Bytes
  | _, [] => (true, [])
  | i, linebuf :: ps =>
    let rest := copyFrom o (i + 1) ps
    match o.fprintf i with
    | none => (rest.1, Text.cstr linebuf ++ rest.2)
    | some k => (false, (Text.cstr linebuf).take k ++ rest.2)

namespace Log

/-- The copy, and how many pieces it has; with `tmp.tmp` as it was if it is not opened. -/
def copyTail (l : Log) (o : Outcomes) (tmp : Option Bytes) (pos : Nat) : Bool × Option Bytes × Nat :=
  if o.opens then
    let copied := pieces (l.file.drop pos)
    let (ret, content) := copyFrom o 0 copied
    match o.fclose with
    | none => (ret, some content, copied.length)
    | some k => (false, some (content.take k), copied.length)
  else (true, tmp, 0)

/-- `trim_file`, with a `tmp.tmp` of earlier or none. -/
def trimFileOn (l : Log) (o : Outcomes) (tmp : Option Bytes) : Trimmed :=
  let pos := l.findTail l.trimmedLines.toNat
  if 0 < pos then
    let (ret, tmp, nl) := l.copyTail o tmp pos
    if ret then
      -- the log is removed
      match tmp with
      | some content =>
        if o.rename then ⟨ret, some content, none, UInt32.ofNat nl⟩ else ⟨ret, none, some content, UInt32.ofNat nl⟩
      | none => ⟨ret, none, none, UInt32.ofNat nl⟩
    else ⟨ret, some l.file, tmp, l.lineCount⟩
  else ⟨true, some l.file, tmp, l.lineCount⟩

/-- The pieces to copy. -/
def toCopy (l : Log) : List Bytes := pieces (l.file.drop (l.findTail l.trimmedLines.toNat))

end Log

/-- The copy is written and closed. -/
def Written (l : Log) (o : Outcomes) : Prop := (∀ i < l.toCopy.length, o.fprintf i = none) ∧ o.fclose = none

/-- There is nothing to trim, or each operation that is needed succeeds. -/
def Produces (l : Log) (o : Outcomes) : Prop :=
  l.findTail l.trimmedLines.toNat = 0 ∨ o.opens = true ∧ Written l o ∧ o.rename = true

theorem copyFrom_ok (o : Outcomes) : ∀ (i : Nat) (ps : List Bytes),
    ((copyFrom o i ps).1 = true ↔ ∀ j < ps.length, o.fprintf (i + j) = none) ∧
      ((copyFrom o i ps).1 = true → (copyFrom o i ps).2 = ps.flatMap Text.cstr)
  | _, [] => ⟨iff_of_true rfl fun j hj => absurd hj (Nat.not_lt_zero j), fun _ => rfl⟩
  | i, linebuf :: ps => by
    obtain ⟨hiff, hcopy⟩ := copyFrom_ok o (i + 1) ps
    rw [copyFrom]
    cases ho : o.fprintf i with
    | some k =>
      refine ⟨iff_of_false Bool.false_ne_true fun h => ?_, fun h => absurd h Bool.false_ne_true⟩
      have h0 := h 0 (Nat.succ_pos _)
      rw [Nat.add_zero, ho] at h0
      cases h0
    | none =>
      refine ⟨hiff.trans ⟨fun h j hj => ?_, fun h j hj => ?_⟩, fun h => ?_⟩
      · cases j with
        | zero => exact ho
        | succ j =>
          have hj' := h j (Nat.lt_of_succ_lt_succ hj)
          rwa [Nat.succ_add_eq_add_succ] at hj'
      · rw [Nat.succ_add_eq_add_succ]
        exact h (j + 1) (Nat.succ_lt_succ hj)
      · rw [List.flatMap_cons, ← hcopy h]

/-- The flag says whether `tmp.tmp` was written and closed, if it was opened. -/
theorem copyTail_ok (l : Log) (o : Outcomes) (tmp : Option Bytes) :
    (l.copyTail o tmp (l.findTail l.trimmedLines.toNat)).1 = true ↔ (o.opens = true → Written l o) := by
  obtain ⟨hiff, -⟩ := copyFrom_ok o 0 l.toCopy
  unfold Log.copyTail
  by_cases ho : o.opens = true
  · rw [if_pos ho]
    have hfalse : ∀ k, o.fclose = some k → ¬ (o.opens = true → Written l o) := fun k hk h => by
      have hc := (h ho).2
      rw [hk] at hc
      cases hc
    show (match o.fclose with | none => _ | some k => _ : Bool × Option Bytes × Nat).1 = true ↔ _
    cases hc : o.fclose with
    | none =>
      show (copyFrom o 0 l.toCopy).1 = true ↔ _
      rw [hiff]
      simp only [Nat.zero_add]
      exact ⟨fun h _ => ⟨h, hc⟩, fun h => (h ho).1⟩
    | some k => exact iff_of_false Bool.false_ne_true (hfalse k hc)
  · rw [if_neg ho]
    exact iff_of_true rfl fun h => absurd h ho

/-- **No failure**: what `Log.trimFile` says. -/
theorem trimFile_done {l : Log} {o : Outcomes} (tmp : Option Bytes) (h : Produces l o) :
    (l.trimFileOn o tmp).ret = true ∧ (l.trimFileOn o tmp).log = some l.trimFile.file ∧
      (l.trimFileOn o tmp).lineCount = l.trimFile.lineCount := by
  unfold Log.trimFileOn Log.trimFile
  simp only
  by_cases hpos : 0 < l.findTail l.trimmedLines.toNat
  · obtain h0 | ⟨hopen, hwritten, hrename⟩ := h
    · omega
    · obtain ⟨hiff, hcopy⟩ := copyFrom_ok o 0 l.toCopy
      have hok : (copyFrom o 0 l.toCopy).1 = true := hiff.2 fun j hj => by
        rw [Nat.zero_add]
        exact hwritten.1 j hj
      have htail : l.copyTail o tmp (l.findTail l.trimmedLines.toNat) =
          (true, some (l.toCopy.flatMap Text.cstr), l.toCopy.length) := by
        rw [← hcopy hok, ← hok]
        unfold Log.copyTail
        rw [if_pos hopen, hwritten.2]
        rfl
      rw [if_pos hpos, if_pos hpos, htail]
      simp only [if_true, if_pos hrename]
      exact ⟨trivial, rfl, rfl⟩
  · rw [if_neg hpos, if_neg hpos]
    exact ⟨rfl, rfl, rfl⟩

/-- **What a failure leaves**: the log as it was and the flag false exactly when `tmp.tmp` was opened and something
other than the `rename` failed. -/
theorem trim_fails_iff (l : Log) (o : Outcomes) (tmp : Option Bytes) :
    (¬ Produces l o → (l.trimFileOn o tmp).ret = false ∧ (l.trimFileOn o tmp).log = some l.file ∧
      (l.trimFileOn o tmp).lineCount = l.lineCount) ↔
    l.findTail l.trimmedLines.toNat = 0 ∨ o.opens = true ∧ (Written l o → o.rename = true) := by
  by_cases hpos : 0 < l.findTail l.trimmedLines.toNat
  · have hne : l.findTail l.trimmedLines.toNat ≠ 0 := Nat.ne_of_gt hpos
    have hok := copyTail_ok l o tmp
    have hret : (l.trimFileOn o tmp).ret = (l.copyTail o tmp (l.findTail l.trimmedLines.toNat)).1 := by
      unfold Log.trimFileOn
      simp only [if_pos hpos]
      split
      · split
        · split <;> rfl
        · rfl
      · rfl
    constructor
    · intro h
      refine Or.inr ?_
      by_cases ho : o.opens = true
      · refine ⟨ho, fun hw => ?_⟩
        by_contra hr
        have hprod : ¬ Produces l o := fun hp => hr (hp.resolve_left hne).2.2
        have hfalse := (h hprod).1
        rw [hret, hok.2 fun _ => hw] at hfalse
        cases hfalse
      · have hprod : ¬ Produces l o := fun hp => ho (hp.resolve_left hne).1
        have hfalse := (h hprod).1
        rw [hret, hok.2 fun h => absurd h ho] at hfalse
        cases hfalse
    · intro h hprod
      obtain ⟨ho, hw⟩ := h.resolve_left hne
      have hnot : ¬ Written l o := fun hw' => hprod (Or.inr ⟨ho, hw', hw hw'⟩)
      have hfalse : (l.copyTail o tmp (l.findTail l.trimmedLines.toNat)).1 = false := by
        rw [← Bool.not_eq_true, hok]
        exact fun h => hnot (h ho)
      refine ⟨hret.trans hfalse, ?_⟩
      unfold Log.trimFileOn
      simp only [if_pos hpos, hfalse]
      exact ⟨rfl, rfl⟩
  · have h0 : l.findTail l.trimmedLines.toNat = 0 := Nat.eq_zero_of_not_pos hpos
    exact iff_of_true (fun h => absurd (Or.inl h0) h) (Or.inl h0)

/-- `tmp.tmp` is not opened, and there is none of earlier: the log is gone. -/
theorem trim_fails_lost : ¬ ∀ (l : Log) (o : Outcomes) (tmp : Option Bytes), ¬ Produces l o →
    (l.trimFileOn o tmp).ret = false ∧ (l.trimFileOn o tmp).log = some l.file ∧
      (l.trimFileOn o tmp).lineCount = l.lineCount := by
  intro h
  have hprod : ¬ Produces ⟨threeLines.flatten, 500, 1, 3, 0, 0⟩ { opens := false } := by
    rintro (h0 | ⟨h, -⟩)
    · exact absurd h0 (by decide +kernel)
    · cases h
  obtain ⟨-, hlog, -⟩ := h _ _ none hprod
  exact absurd hlog (by decide +kernel)

end FileLogger
end Pico
