import Mathlib.Data.List.Induction
import Picolibs.Loop
import Picolibs.Text
/-!
# FileLogger — a log file of limited length (`file_logger.cpp`)

`print` appends to the file and counts the newlines of what it wrote; the constructor, `find_tail` and `trim_file` read
the file in pieces of up to 132 characters, and count those.  A piece ends at its newline, so it has one at most:
`line_count_` is a bound of the newlines in either unit, and it is what `print` holds against the maximum.

All file operations succeed, and the file is the logger's own.  `Clock` is what `strftime` makes of a time.
-/
namespace Pico
namespace FileLogger

open History (Reach)

/-- A time as `timestamp` prints it, on one line. -/
structure Clock where
  timestamp : Int → Bytes
  line : ∀ t, 10 ∉ timestamp t

structure Log where
  file : Bytes
  maxLines : UInt32
  trimmedLines : UInt32
  lineCount : UInt32 := 0
  lastTimestamp : Int := 0
  debugLevel : Int := 0
  deriving DecidableEq

/-! ## The pieces of a file -/

/-- `fgets`, with room for `k` characters: what is read, and what is left. -/
def fgets : Nat → Bytes → Bytes × Bytes
  | 0, s => ([], s)
  | _ + 1, [] => ([], [])
  | k + 1, c :: s => if c = 10 then ([c], s) else (c :: (fgets k s).1, (fgets k s).2)

theorem fgets_append : ∀ (k : Nat) (s : Bytes), (fgets k s).1 ++ (fgets k s).2 = s
  | 0, _ => rfl
  | _ + 1, [] => rfl
  | k + 1, c :: s => by
    rw [fgets]
    split
    · rfl
    · rw [List.cons_append, fgets_append k s]

theorem drop_fgets (k : Nat) (s : Bytes) : s.drop (fgets k s).1.length = (fgets k s).2 := by
  have h : ((fgets k s).1 ++ (fgets k s).2).drop (fgets k s).1.length = (fgets k s).2 := List.drop_left
  rwa [fgets_append] at h

theorem fgets_ne_nil (k : Nat) (c : UInt8) (s : Bytes) : (fgets (k + 1) (c :: s)).1 ≠ [] := by
  rw [fgets]
  split
  · exact List.cons_ne_nil _ _
  · exact List.cons_ne_nil _ _

theorem count_fgets : ∀ (k : Nat) (s : Bytes), (fgets k s).1.count 10 ≤ 1
  | 0, _ => Nat.zero_le 1
  | _ + 1, [] => Nat.zero_le 1
  | k + 1, c :: s => by
    rw [fgets]
    split
    · next hc =>
      rw [hc]
      exact Nat.le_refl 1
    · next hc =>
      rw [List.count_cons_of_ne hc]
      exact count_fgets k s

/-- The size of `linebuf`, less the NUL. -/
def pieceSize : Nat := 132

theorem length_fgets (c : UInt8) (s : Bytes) : (fgets pieceSize (c :: s)).2.length < (c :: s).length := by
  have h := congrArg List.length (fgets_append pieceSize (c :: s))
  have hpos : 0 < (fgets pieceSize (c :: s)).1.length := List.length_pos_of_ne_nil (fgets_ne_nil 131 c s)
  rw [List.length_append] at h
  omega

/-- What a loop of `fgets` reads to the end of the file. -/
def pieces : Bytes → List Bytes
  | [] => []
  | c :: s => (fgets pieceSize (c :: s)).1 :: pieces (fgets pieceSize (c :: s)).2
termination_by s => s.length
decreasing_by exact length_fgets c s

/-! ## The logger -/

/-- The newlines that `vprint` counts. -/
def countLines (lineCount : UInt32) (written : Bytes) : UInt32 :=
  written.foldl (fun n c => if c = 10 then n + 1 else n) lineCount

namespace Log

/-- `isDebug`. -/
def isDebug (l : Log) (level : Int) : Bool := level ≤ l.debugLevel

/-- `find_tail`: the positions where the last pieces start and the last one ends; the first of them is returned. -/
def findTail (l : Log) (lines : Nat) : Nat :=
  ((pieces l.file).foldl (fun (s : List Nat × Nat) linebuf =>
    ((if s.1.length = lines + 1 then s.1.tail else s.1) ++ [s.2 + linebuf.length], s.2 + linebuf.length))
    ([0], 0)).1.headD 0

/-- `trim_file`; `"%s"` prints a piece up to a NUL. -/
def trimFile (l : Log) : Log :=
  let pos := l.findTail l.trimmedLines.toNat
  if 0 < pos then
    let copied := pieces (l.file.drop pos)
    { l with file := copied.flatMap Text.cstr, lineCount := UInt32.ofNat copied.length }
  else l

/-- A timestamp is due. -/
def due (l : Log) (now : Int) : Bool := l.lastTimestamp ≠ 0 && now - l.lastTimestamp > 15 * 60

variable (C : Clock)

/-- A line with the time. -/
def stamp (l : Log) (now : Int) : Log :=
  { l with file := l.file ++ C.timestamp now ++ [10], lineCount := l.lineCount + 1, lastTimestamp := now }

/-- `vprint` at the time `now`, of what the format makes of its arguments. -/
def vprint (l : Log) (now : Int) (text : Bytes) : Log :=
  let l := if l.due now then l.stamp C now else l
  let l := { l with file := l.file ++ text }
  { l with lineCount := countLines l.lineCount (l.file.drop (l.file.length - text.length)) }

def print (l : Log) (now : Int) (text : Bytes) : Log :=
  let l := l.vprint C now text
  if l.lineCount > l.maxLines then l.trimFile else l

def printDebug (l : Log) (level : Int) (now : Int) (text : Bytes) : Log :=
  if l.isDebug level then
    let l := l.vprint C now text
    if l.lineCount > l.maxLines then l.trimFile else l
  else l

def printError (l : Log) (now : Int) (text : Bytes) : Log := l.vprint C now text

def printTimestamp (l : Log) (now : Int) : Log := if l.lastTimestamp ≠ 0 then l.stamp C now else l

/-- `initialize_timestamps` sets the time and prints it; the buffer of `timestamp` is static, and has the time of the
timestamp if `vprint` prints one. -/
def initializeTimestamps (l : Log) (time now : Int) : Log :=
  let l := { l with lastTimestamp := time }
  l.print C now (ascii "Time initialized at " ++ C.timestamp (if l.due now then now else time) ++ [10])

end Log

/-- The constructor, on the file as it is. -/
def construct (file : Bytes) (maxLines trimmedLines : UInt32) : Log :=
  let maxLines := if maxLines < 500 then 500 else maxLines
  let trimmedLines := if trimmedLines > maxLines - 200 then maxLines - 200 else trimmedLines
  { file := file, maxLines := maxLines, trimmedLines := trimmedLines, lineCount := UInt32.ofNat (pieces file).length }

inductive Event where
  | print (now : Int) (text : Bytes)
  | printDebug (level : Int) (now : Int) (text : Bytes)
  | printError (now : Int) (text : Bytes)
  | printTimestamp (now : Int)
  | initializeTimestamps (time now : Int)
  | trimFile
  | setDebug (level : Int)

variable (C : Clock)

def step (l : Log) : Event → Log
  | .print now text => l.print C now text
  | .printDebug level now text => l.printDebug C level now text
  | .printError now text => l.printError C now text
  | .printTimestamp now => l.printTimestamp C now
  | .initializeTimestamps time now => l.initializeTimestamps C time now
  | .trimFile => l.trimFile
  | .setDebug level => { l with debugLevel := level }

/-- The log when all is written, and before the file is trimmed. -/
def written (l : Log) : Event → Log
  | .print now text => l.vprint C now text
  | .printDebug level now text => if l.isDebug level then l.vprint C now text else l
  | .printError now text => l.vprint C now text
  | .printTimestamp now => l.printTimestamp C now
  | .initializeTimestamps time now =>
    let l := { l with lastTimestamp := time }
    l.vprint C now (ascii "Time initialized at " ++ C.timestamp (if l.due now then now else time) ++ [10])
  | .trimFile => l
  | .setDebug level => { l with debugLevel := level }

/-- A call that trims the file when it is too long. -/
def Trims (l : Log) : Event → Prop
  | .print _ _ => True
  | .printDebug level _ _ => l.isDebug level = true
  | .initializeTimestamps _ _ => True
  | _ => False

/-- The file stays below 2^31 bytes. -/
def Fits (l : Log) (e : Event) : Prop := (written C l e).file.length < 2 ^ 31

instance (l : Log) : (e : Event) → Decidable (Trims l e)
  | .print _ _ => inferInstanceAs (Decidable True)
  | .printDebug _ _ _ => inferInstanceAs (Decidable (_ = _))
  | .initializeTimestamps _ _ => inferInstanceAs (Decidable True)
  | .printError _ _ => inferInstanceAs (Decidable False)
  | .printTimestamp _ => inferInstanceAs (Decidable False)
  | .trimFile => inferInstanceAs (Decidable False)
  | .setDebug _ => inferInstanceAs (Decidable False)

instance (l : Log) (e : Event) : Decidable (Fits C l e) := inferInstanceAs (Decidable (_ < _))

/-- The newlines of the file. -/
def newlines (l : Log) : Nat := l.file.count 10

/-! ## What the pieces are -/

theorem flatten_pieces : ∀ s : Bytes, (pieces s).flatten = s
  | [] => by rw [pieces, List.flatten_nil]
  | c :: s => by
    rw [pieces, List.flatten_cons, flatten_pieces (fgets pieceSize (c :: s)).2, fgets_append]
termination_by s => s.length
decreasing_by exact length_fgets c s

theorem length_pieces : ∀ s : Bytes, (pieces s).length ≤ s.length
  | [] => by
    rw [pieces]
    exact Nat.le_refl 0
  | c :: s => by
    have ih := length_pieces (fgets pieceSize (c :: s)).2
    have hlt := length_fgets c s
    rw [pieces, List.length_cons]
    omega
termination_by s => s.length
decreasing_by exact length_fgets c s

theorem count_pieces : ∀ (s : Bytes), ∀ p ∈ pieces s, p.count 10 ≤ 1
  | [], p, hp => by
    rw [pieces] at hp
    cases hp
  | c :: s, p, hp => by
    rw [pieces, List.mem_cons] at hp
    rcases hp with rfl | hp
    · exact count_fgets pieceSize (c :: s)
    · exact count_pieces (fgets pieceSize (c :: s)).2 p hp
termination_by s => s.length
decreasing_by exact length_fgets c s

/-- The pieces from the start of a piece on. -/
theorem pieces_drop : ∀ (k : Nat) (s : Bytes),
    pieces (s.drop ((pieces s).take k).flatten.length) = (pieces s).drop k
  | 0, s => by simp
  | k + 1, [] => by simp [pieces]
  | k + 1, c :: s => by
    rw [pieces, List.take_succ_cons, List.flatten_cons, List.length_append, List.drop_succ_cons,
      ← pieces_drop k (fgets pieceSize (c :: s)).2, ← List.drop_drop, drop_fgets]

theorem count_flatMap_le {f : Bytes → Bytes} : ∀ {ps : List Bytes}, (∀ p ∈ ps, (f p).count 10 ≤ 1) →
    (ps.flatMap f).count 10 ≤ ps.length
  | [], _ => Nat.le_refl 0
  | p :: ps, h => by
    have h0 := h p List.mem_cons_self
    have ih : (ps.flatMap f).count 10 ≤ ps.length := count_flatMap_le fun q hq => h q (List.mem_cons_of_mem p hq)
    rw [List.flatMap_cons, List.count_append, List.length_cons]
    omega

/-- **A file has no more newlines than pieces.** -/
theorem count_le_pieces (s : Bytes) : s.count 10 ≤ (pieces s).length := by
  have h : ((pieces s).flatMap id).count 10 ≤ (pieces s).length := count_flatMap_le (count_pieces s)
  rw [List.flatMap_id, flatten_pieces] at h
  exact h

/-- What is printed of a piece. -/
theorem count_cstr_le (p : Bytes) : (Text.cstr p).count 10 ≤ p.count 10 :=
  (List.takeWhile_sublist _).count_le 10

/-! ## What `find_tail` finds -/

/-- The positions between the pieces. -/
def positions (ps : List Bytes) : List Nat := (List.range (ps.length + 1)).map fun i => (ps.take i).flatten.length

theorem length_positions (ps : List Bytes) : (positions ps).length = ps.length + 1 := by
  rw [positions, List.length_map, List.length_range]

theorem positions_concat (ps : List Bytes) (p : Bytes) :
    positions (ps ++ [p]) = positions ps ++ [ps.flatten.length + p.length] := by
  have hlast : ((ps ++ [p]).take (ps.length + 1)).flatten.length = ps.flatten.length + p.length := by
    rw [List.take_of_length_le (by simp), List.flatten_append, List.length_append]
    simp
  have hinit : (List.range (ps.length + 1)).map (fun i => ((ps ++ [p]).take i).flatten.length) = positions ps := by
    refine List.map_congr_left fun i hi => ?_
    rw [List.take_append_of_le_length (Nat.le_of_lt_succ (List.mem_range.1 hi))]
  rw [positions, List.length_append, List.length_singleton, List.range_succ, List.map_append, hinit, List.map_singleton,
    hlast]

/-- The list of `find_tail` keeps the last positions. -/
theorem tail_fold (lines : Nat) (ps : List Bytes) :
    ps.foldl (fun (s : List Nat × Nat) linebuf =>
      ((if s.1.length = lines + 1 then s.1.tail else s.1) ++ [s.2 + linebuf.length], s.2 + linebuf.length)) ([0], 0) =
      ((positions ps).drop (ps.length - lines), ps.flatten.length) := by
  induction ps using List.reverseRecOn with
  | nil => simp [positions]
  | append_singleton ps p ih =>
    have hlen := length_positions ps
    rw [List.foldl_concat, ih, positions_concat, List.length_append, List.length_singleton, List.flatten_append,
      List.length_append]
    simp only [List.length_drop, hlen]
    have hp : [p].flatten.length = p.length := by simp
    rw [hp, List.drop_append_of_le_length (by rw [hlen]; omega)]
    by_cases hn : lines ≤ ps.length
    · rw [if_pos (by omega), List.tail_drop, show ps.length - lines + 1 = ps.length + 1 - lines by omega]
    · rw [if_neg (by omega), show ps.length - lines = 0 by omega, show ps.length + 1 - lines = 0 by omega]

/-- Where the last `lines` pieces start. -/
theorem findTail_eq (l : Log) (lines : Nat) :
    l.findTail lines = ((pieces l.file).take ((pieces l.file).length - lines)).flatten.length := by
  rw [Log.findTail, tail_fold, List.headD_eq_head?_getD, List.head?_drop, positions, List.getElem?_map,
    List.getElem?_range (by omega)]
  rfl

/-- **The tail is the last `lines` pieces**, or the whole file. -/
theorem pieces_tail (l : Log) (lines : Nat) :
    pieces (l.file.drop (l.findTail lines)) = (pieces l.file).drop ((pieces l.file).length - lines) := by
  rw [findTail_eq, pieces_drop]

theorem length_tail (l : Log) (lines : Nat) : (pieces (l.file.drop (l.findTail lines))).length ≤ lines := by
  rw [pieces_tail, List.length_drop]
  omega

/-! ## Every run -/

/-- The count is a bound of the newlines, and does not wrap. -/
structure Good (l : Log) : Prop where
  counted : newlines l ≤ l.lineCount.toNat
  bounded : l.lineCount.toNat ≤ l.trimmedLines.toNat + l.file.length
  limits : l.trimmedLines.toNat ≤ l.maxLines.toNat
  small : l.maxLines.toNat < 2 ^ 31

theorem toNat_countLines : ∀ (written : Bytes) (n : UInt32), n.toNat + written.count 10 < 2 ^ 32 →
    (countLines n written).toNat = n.toNat + written.count 10
  | [], _, _ => rfl
  | c :: s, n, h => by
    show (countLines (if c = 10 then n + 1 else n) s).toNat = _
    by_cases hc : c = 10
    · rw [hc, List.count_cons_self] at h
      have hn : (n + 1).toNat = n.toNat + 1 := by
        rw [UInt32.toNat_add]
        exact Nat.mod_eq_of_lt (by show n.toNat + 1 < 2 ^ 32; omega)
      rw [if_pos hc, toNat_countLines s (n + 1) (by omega), hn, hc, List.count_cons_self]
      omega
    · rw [List.count_cons_of_ne hc] at h
      rw [if_neg hc, toNat_countLines s n h, List.count_cons_of_ne hc]

theorem Good.append {l : Log} (g : Good l) {text : Bytes} (h : (l.file ++ text).length < 2 ^ 31) :
    Good { l with file := l.file ++ text, lineCount := countLines l.lineCount text } := by
  have hle : text.count 10 ≤ text.length := List.count_le_length
  have hb := g.bounded
  have hl := g.limits
  have hs := g.small
  rw [List.length_append] at h
  have hn := toNat_countLines text l.lineCount (by omega)
  refine ⟨?_, ?_, g.limits, g.small⟩
  · have hc := g.counted
    simp only [newlines, List.count_append, hn] at hc ⊢
    omega
  · simp only [List.length_append, hn]
    omega

/-- A timestamp is a line. -/
theorem stamp_eq (C : Clock) (l : Log) (now : Int) :
    l.stamp C now =
      { l with
        file := l.file ++ (C.timestamp now ++ [10]), lineCount := countLines l.lineCount (C.timestamp now ++ [10]),
        lastTimestamp := now } := by
  have hline : ∀ (s : Bytes) (n : UInt32), 10 ∉ s → countLines n (s ++ [10]) = n + 1 := by
    intro s n hs
    induction s with
    | nil => rfl
    | cons c s ih =>
      rw [List.mem_cons, not_or] at hs
      rw [← ih hs.2]
      show countLines (if c = 10 then n + 1 else n) (s ++ [10]) = _
      rw [if_neg (Ne.symm hs.1)]
  rw [Log.stamp, hline _ _ (C.line now), List.append_assoc]

theorem Good.stamp {l : Log} (g : Good l) {C : Clock} {now : Int} (h : (l.stamp C now).file.length < 2 ^ 31) :
    Good (l.stamp C now) := by
  rw [stamp_eq] at h ⊢
  have ga := g.append h
  exact ⟨ga.counted, ga.bounded, ga.limits, ga.small⟩

theorem vprint_eq (C : Clock) (l : Log) (now : Int) (text : Bytes) :
    l.vprint C now text =
      { (if l.due now then l.stamp C now else l) with
        file := (if l.due now then l.stamp C now else l).file ++ text,
        lineCount := countLines (if l.due now then l.stamp C now else l).lineCount text } := by
  unfold Log.vprint
  simp only [List.length_append, Nat.add_sub_cancel, List.drop_left]

theorem Good.vprint {l : Log} (g : Good l) {C : Clock} {now : Int} {text : Bytes}
    (h : (l.vprint C now text).file.length < 2 ^ 31) : Good (l.vprint C now text) := by
  rw [vprint_eq] at h ⊢
  refine Good.append ?_ h
  split
  · next hd =>
    rw [if_pos hd, List.length_append] at h
    exact g.stamp (by omega)
  · exact g

/-- **A trimmed file is within the limit**, and its pieces are what is counted. -/
theorem Good.trim {l : Log} (g : Good l) : Good l.trimFile ∧ newlines l.trimFile ≤ l.maxLines.toNat := by
  have htail := length_tail l l.trimmedLines.toNat
  have hl := g.limits
  have hs := g.small
  unfold Log.trimFile
  simp only
  split
  · have hcount : ((pieces (l.file.drop (l.findTail l.trimmedLines.toNat))).flatMap Text.cstr).count 10 ≤
        (pieces (l.file.drop (l.findTail l.trimmedLines.toNat))).length := count_flatMap_le
      fun p hp => Nat.le_trans (count_cstr_le p) (count_pieces _ p hp)
    have hn : (UInt32.ofNat (pieces (l.file.drop (l.findTail l.trimmedLines.toNat))).length).toNat =
        (pieces (l.file.drop (l.findTail l.trimmedLines.toNat))).length :=
      UInt32.toNat_ofNat_of_lt' (by show _ < 2 ^ 32; omega)
    refine ⟨⟨?_, ?_, g.limits, g.small⟩, Nat.le_trans hcount (Nat.le_trans htail hl)⟩
    · rw [newlines, hn]
      exact hcount
    · rw [hn]
      exact Nat.le_add_right_of_le htail
  · next hpos =>
    rw [Nat.eq_zero_of_not_pos hpos, List.drop_zero] at htail
    exact ⟨g, Nat.le_trans (count_le_pieces l.file) (Nat.le_trans htail hl)⟩

theorem Good.written {l : Log} (g : Good l) {C : Clock} {e : Event} (h : Fits C l e) : Good (written C l e) := by
  cases e with
  | print now text => exact g.vprint h
  | printDebug level now text =>
    have h : (if l.isDebug level then l.vprint C now text else l).file.length < 2 ^ 31 := h
    show Good (if l.isDebug level then l.vprint C now text else l)
    split
    · next hd =>
      rw [if_pos hd] at h
      exact g.vprint h
    · exact g
  | printError now text => exact g.vprint h
  | printTimestamp now =>
    have h : (if l.lastTimestamp ≠ 0 then l.stamp C now else l).file.length < 2 ^ 31 := h
    show Good (if l.lastTimestamp ≠ 0 then l.stamp C now else l)
    split
    · next hl =>
      rw [if_pos hl] at h
      exact g.stamp h
    · exact g
  | initializeTimestamps time now =>
    have g' : Good { l with lastTimestamp := time } := ⟨g.counted, g.bounded, g.limits, g.small⟩
    exact g'.vprint h
  | trimFile => exact g
  | setDebug level => exact ⟨g.counted, g.bounded, g.limits, g.small⟩

/-- A call that trims leaves the file within the limit, trimmed or not. -/
theorem Good.trims {l : Log} (g : Good l) :
    Good (if l.lineCount > l.maxLines then l.trimFile else l) ∧
      newlines (if l.lineCount > l.maxLines then l.trimFile else l) ≤ l.maxLines.toNat := by
  split
  · exact g.trim
  · next h =>
    rw [gt_iff_lt, UInt32.lt_iff_toNat_lt, Nat.not_lt] at h
    exact ⟨g, Nat.le_trans g.counted h⟩

theorem Good.step {l : Log} (g : Good l) {C : Clock} {e : Event} (h : Fits C l e) : Good (step C l e) := by
  have gw := g.written h
  cases e with
  | print now text => exact gw.trims.1
  | printDebug level now text =>
    show Good (if l.isDebug level then _ else l)
    split
    · next hd =>
      have gv : Good (if l.isDebug level then l.vprint C now text else l) := gw
      rw [if_pos hd] at gv
      exact gv.trims.1
    · exact g
  | printError now text => exact gw
  | printTimestamp now => exact gw
  | initializeTimestamps time now => exact gw.trims.1
  | trimFile => exact gw.trim.1
  | setDebug level => exact gw

theorem maxLines_vprint (C : Clock) (l : Log) (now : Int) (text : Bytes) :
    (l.vprint C now text).maxLines = l.maxLines := by
  rw [vprint_eq]
  split
  · rfl
  · rfl

theorem good_construct {file : Bytes} (hfile : file.length < 2 ^ 31) {maxLines : UInt32}
    (hmax : maxLines.toNat < 2 ^ 31) (trimmedLines : UInt32) : Good (construct file maxLines trimmedLines) := by
  have hm : 500 ≤ (if maxLines < 500 then 500 else maxLines).toNat ∧
      (if maxLines < 500 then 500 else maxLines).toNat < 2 ^ 31 := by
    split
    · exact ⟨by decide, by decide⟩
    · next h =>
      rw [UInt32.lt_iff_toNat_lt, Nat.not_lt] at h
      exact ⟨h, hmax⟩
  have hlen := length_pieces file
  have hn : (UInt32.ofNat (pieces file).length).toNat = (pieces file).length :=
    UInt32.toNat_ofNat_of_lt' (by show _ < 2 ^ 32; omega)
  unfold construct
  generalize (if maxLines < 500 then 500 else maxLines) = m at hm ⊢
  have hsub : (m - 200).toNat = m.toNat - 200 :=
    UInt32.toNat_sub_of_le _ _ (by rw [UInt32.le_iff_toNat_le]; exact Nat.le_trans (by decide) hm.1)
  refine ⟨?_, ?_, ?_, hm.2⟩
  · show file.count 10 ≤ _
    rw [hn]
    exact count_le_pieces file
  · show (UInt32.ofNat (pieces file).length).toNat ≤ _ + file.length
    rw [hn]
    omega
  · show (if trimmedLines > m - 200 then m - 200 else trimmedLines).toNat ≤ m.toNat
    split
    · rw [hsub]
      omega
    · next h =>
      rw [gt_iff_lt, UInt32.lt_iff_toNat_lt, Nat.not_lt, hsub] at h
      omega

/-- **The count bounds the newlines in every run, and a call that trims leaves at most `max_lines_`.** -/
theorem lines_bounded (C : Clock) {file : Bytes} (hfile : file.length < 2 ^ 31) {maxLines trimmedLines : UInt32}
    (hmax : maxLines.toNat < 2 ^ 31) {l : Log}
    (hr : Reach (construct file maxLines trimmedLines) (step C) (Fits C) l) :
    newlines l ≤ l.lineCount.toNat ∧
      ∀ e, Fits C l e → Trims l e → newlines (step C l e) ≤ l.maxLines.toNat := by
  have g : Good l := History.inv_of_reach (good_construct hfile hmax trimmedLines) (fun _ _ g h => g.step h) hr
  refine ⟨g.counted, fun e h ht => ?_⟩
  have gw := g.written h
  cases e with
  | print now text =>
    rw [← maxLines_vprint C l now text]
    exact gw.trims.2
  | printDebug level now text =>
    have hd : l.isDebug level = true := ht
    have gv : Good (if l.isDebug level then l.vprint C now text else l) := gw
    rw [if_pos hd] at gv
    show newlines (if l.isDebug level then _ else l) ≤ _
    rw [if_pos hd, ← maxLines_vprint C l now text]
    exact gv.trims.2
  | initializeTimestamps time now =>
    have hm : (written C l (.initializeTimestamps time now)).maxLines = l.maxLines := maxLines_vprint C _ now _
    rw [← hm]
    exact gw.trims.2
  | printError now text => exact ht.elim
  | printTimestamp now => exact ht.elim
  | trimFile => exact ht.elim
  | setDebug level => exact ht.elim

/-- A clock that is always wrong. -/
def stopped : Clock := ⟨fun _ => ascii "12:00", fun _ => by decide⟩

/-- A log with one line, and the calls of a start. -/
def started : Log :=
  ([.setDebug 1, .initializeTimestamps 1000 1001, .printError 2000 [65, 10]] : List Event).foldl (step stopped)
    (construct [72, 105, 10] 0 1000)

theorem lines_bounded_started :
    newlines started ≤ started.lineCount.toNat ∧
      newlines (step stopped started (.printDebug 1 3000 [66, 0, 10])) ≤ started.maxLines.toNat :=
  have hr : Reach (construct [72, 105, 10] 0 1000) (step stopped) (Fits stopped) started :=
    History.reach_along _ _ .init (by decide +kernel)
  have h := lines_bounded stopped (by decide) (by decide) hr
  ⟨h.1, h.2 (.printDebug 1 3000 [66, 0, 10]) (by decide +kernel) (by decide +kernel)⟩

end FileLogger
end Pico
