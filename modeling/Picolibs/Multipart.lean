import Picolibs.FormData
import Picolibs.Request
/-!
# Multipart — what a multipart form's sender wrote is what `postArray` gives (`get_post_multipart`)

A `Part` is a name, a file name perhaps, further header lines and a content without the boundary.  The loop over a
part's header lines is a walk from line to line (`partHeaders_plain`, `partHeaders_disposition`), and the scan of its
value stops at every byte that is no newline, so at the first dash of the boundary too (`partValue_content`).
-/
namespace Pico
namespace Http

open Text

/-! ## Strings -/

/-- `strncmp` over all of a C string asks for a prefix. -/
theorem sameUpTo_iff : ∀ (a b : Bytes), 0 ∉ b → (sameUpTo b.length a b = true ↔ b <+: a)
  | _, [], _ => iff_of_true rfl List.nil_prefix
  | [], y :: b, h => by
    have hy : 0 ≠ y := fun e => h (by simp [e])
    refine iff_of_false ?_ (by simp)
    rw [List.length_cons, sameUpTo, List.headD_cons, List.headD_nil, if_pos hy]
    exact Bool.false_ne_true
  | x :: a, y :: b, h => by
    rw [List.mem_cons, not_or] at h
    rw [List.length_cons, sameUpTo, List.headD_cons, List.headD_cons, List.cons_prefix_cons]
    by_cases hxy : x = y
    · have hx : x ≠ 0 := fun e => h.1 (by rw [← hxy, e])
      rw [if_neg (fun hne => hne hxy), if_neg hx, List.tail_cons, List.tail_cons, sameUpTo_iff a b h.2]
      exact (and_iff_right hxy.symm).symm
    · rw [if_pos hxy]
      exact iff_of_false Bool.false_ne_true fun hp => hxy hp.1.symm

theorem prefix_of_not_mem {x : UInt8} : ∀ {p a b : Bytes}, p <+: a ++ x :: b → x ∉ p → p <+: a
  | [], _, _, _, _ => List.nil_prefix
  | y :: p, [], b, h, hx => by
    rw [List.nil_append, List.cons_prefix_cons] at h
    exact absurd (by rw [h.1]; exact List.mem_cons_self) hx
  | y :: p, z :: a, b, h, hx => by
    rw [List.cons_append, List.cons_prefix_cons] at h
    rw [List.cons_prefix_cons]
    exact ⟨h.1, prefix_of_not_mem h.2 fun hm => hx (List.mem_cons_of_mem y hm)⟩

theorem find_isSome_of_drop {pat s : Bytes} {j : Nat} (h : pat <+: s.drop j) : find pat s ≠ none := by
  obtain ⟨t, ht⟩ := h
  rw [← List.take_append_drop j s, ← ht, ← List.append_assoc]
  exact find_ne_none pat t _

/-! A mark that ends in a quote, in a line cut at its quotes. -/

theorem mark_begins_iff {w seg : Bytes} (rest : Bytes) (hw : 34 ∉ w) (hs : 34 ∉ seg) :
    w ++ [34] <+: seg ++ 34 :: rest ↔ w = seg := by
  constructor
  · rintro ⟨t, ht⟩
    rw [List.append_assoc, List.singleton_append] at ht
    exact (append_cons_inj ht hw hs).1
  · rintro rfl
    exact ⟨rest, by rw [List.append_assoc, List.singleton_append]⟩

theorem find_mark_skip {w : Bytes} (rest : Bytes) (hw : 34 ∉ w) : ∀ {seg : Bytes}, 34 ∉ seg → ¬ w <:+ seg →
    find (w ++ [34]) (seg ++ 34 :: rest) = (find (w ++ [34]) rest).map (· + (seg.length + 1))
  | [], _, h => by
    have hno : ¬ (w ++ [34]).isPrefixOf (34 :: rest) = true := by
      rw [List.isPrefixOf_iff_prefix]
      intro hp
      have hnil : w = [] := (mark_begins_iff rest hw List.not_mem_nil).1 hp
      rw [hnil] at h
      exact h (List.suffix_refl [])
    rw [List.nil_append, find, if_neg hno]
    rfl
  | c :: seg, hs, h => by
    have hno : ¬ (w ++ [34]).isPrefixOf (c :: seg ++ 34 :: rest) = true := by
      rw [List.isPrefixOf_iff_prefix]
      intro hp
      rw [(mark_begins_iff rest hw hs).1 hp] at h
      exact h (List.suffix_refl _)
    have hs' : 34 ∉ seg := fun hm => hs (List.mem_cons_of_mem c hm)
    have hseg : ¬ w <:+ seg := fun hsuf => h (hsuf.trans (List.suffix_cons c seg))
    rw [List.cons_append] at hno ⊢
    rw [find, if_neg hno, find_mark_skip rest hw hs' hseg, Option.map_map]
    rfl

theorem find_mark {w : Bytes} (rest : Bytes) (hw : 34 ∉ w) : ∀ {a : Bytes}, 34 ∉ a →
    find (w ++ [34]) (a ++ w ++ 34 :: rest) = some a.length
  | [], _ => find_of_prefix ((mark_begins_iff rest hw (by simpa using hw)).2 rfl)
  | c :: a, ha => by
    have ha' : 34 ∉ a := fun hm => ha (List.mem_cons_of_mem c hm)
    have hcaw : 34 ∉ c :: (a ++ w) := by
      rw [← List.cons_append, List.mem_append, not_or]
      exact ⟨ha, hw⟩
    have hno : ¬ (w ++ [34]).isPrefixOf (c :: (a ++ w ++ 34 :: rest)) = true := by
      rw [List.isPrefixOf_iff_prefix, ← List.cons_append, mark_begins_iff rest hw hcaw]
      intro he
      have := congrArg List.length he
      rw [List.length_cons, List.length_append] at this
      omega
    rw [List.cons_append, List.cons_append, find, if_neg hno, find_mark rest hw ha']
    rfl

/-- The value between the quotes behind a mark. -/
theorem quoted_found {w a v rest : Bytes} (hv : 34 ∉ v)
    (hf : find (w ++ [34]) (a ++ w ++ 34 :: (v ++ 34 :: rest)) = some a.length) :
    quoted (w ++ [34]) (a ++ w ++ 34 :: (v ++ 34 :: rest)) =
      some (a.length + w.length + 1, a.length + w.length + 1 + v.length) := by
  have hdrop : (a ++ w ++ 34 :: (v ++ 34 :: rest)).drop (a.length + w.length + 1) = v ++ 34 :: rest := by
    rw [← List.length_append, ← List.drop_drop, List.drop_left]
    rfl
  have hlen : a.length + w.length + 1 ≤ (a ++ w ++ 34 :: (v ++ 34 :: rest)).length := by
    simp only [List.length_append, List.length_cons]
    omega
  have hquote : find (ascii "\"") (v ++ 34 :: rest) = some v.length := find_byte rest hv
  unfold quoted
  rw [hf]
  simp only [List.length_append, List.length_singleton, ← Nat.add_assoc]
  rw [findFrom, if_pos hlen, hdrop, hquote, Option.map_some, Option.map_some, Nat.add_comm v.length]

/-! ## Forms of parts -/

structure Boundary where
  text : Bytes
  nonempty : text ≠ []
  token : Free [0, 10, 13, 32, 59] text

/-- What stands between the parts. -/
def Boundary.mark (B : Boundary) : Bytes := ascii "--" ++ B.text

/-- A part: what `Content-Disposition` says, the header lines before and behind it, and the content. -/
structure Part (B : Boundary) where
  name : Bytes
  filename : Option Bytes
  ahead : List Bytes
  further : List Bytes
  content : Bytes
  named : Free [0, 10, 13, 34] name
  unmarked : find (ascii "filename=") name = none
  filed : ∀ f ∈ filename, Free [0, 10, 13, 34] f
  full : ∀ l ∈ ahead ++ further, l ≠ []
  plain : ∀ l ∈ ahead ++ further, Free [0, 10, 13] l
  ended : 0 ∉ content
  bounded : find B.mark content = none

namespace Part

variable {B : Boundary}

def fileParameter (P : Part B) : Bytes :=
  match P.filename with
  | none => []
  | some f => ascii "; filename=\"" ++ f ++ ascii "\""

def disposition (P : Part B) : Bytes :=
  ascii "Content-Disposition: form-data; name=\"" ++ P.name ++ ascii "\"" ++ P.fileParameter

def head (P : Part B) : Bytes := (P.ahead ++ P.disposition :: P.further).flatMap (· ++ crlf) ++ crlf

/-- What is to be found of a part. -/
def entries (P : Part B) : List (Bytes × Bytes) :=
  match P.filename with
  | none => [(P.name, P.content)]
  | some f => [(P.name ++ ascii ".filename", f), (P.name, P.content)]

end Part

/-- The parts, each behind a boundary, and the boundary that ends them. -/
def partsBody {B : Boundary} (epilogue : Bytes) : List (Part B) → Bytes
  | [] => B.mark ++ ascii "--" ++ epilogue
  | P :: parts => B.mark ++ crlf ++ (P.head ++ (P.content ++ crlf ++ partsBody epilogue parts))

/-! ## What is stored

From one state to another the memory changes between two places only, and what is added is found again in every memory
that is the same up to the second.
-/

structure Stored (p q : Nat) (pairs : List (Bytes × Bytes)) (s s' : PartState) : Prop where
  length : s'.mem.length = s.mem.length
  before : s'.mem.take p = s.mem.take p
  behind : s'.mem.drop q = s.mem.drop q
  added : ∃ es, s'.postData = s.postData ++ es ∧ ∀ mem, mem.take q = s'.mem.take q → readData mem es = pairs

namespace Stored

variable {p q : Nat} {pairs : List (Bytes × Bytes)} {s t u : PartState}

theorem same (p q : Nat) (hmem : t.mem = s.mem) (hdata : t.postData = s.postData) : Stored p q [] s t :=
  ⟨by rw [hmem], by rw [hmem], by rw [hmem], [], by rw [hdata, List.append_nil], fun _ _ => rfl⟩

theorem trans {r : Nat} {more : List (Bytes × Bytes)} (h : Stored p q pairs s t) (h' : Stored q r more t u)
    (hpq : p ≤ q) (hqr : q ≤ r) : Stored p r (pairs ++ more) s u := by
  obtain ⟨es, hes, hread⟩ := h.added
  obtain ⟨es', hes', hread'⟩ := h'.added
  refine ⟨h'.length.trans h.length, ?_, ?_, es ++ es', ?_, fun mem hmem => ?_⟩
  · have hbefore := congrArg (List.take p) h'.before
    rw [List.take_take, List.take_take, Nat.min_eq_left hpq] at hbefore
    exact hbefore.trans h.before
  · have hbehind := congrArg (List.drop (r - q)) h.behind
    rw [List.drop_drop, List.drop_drop, Nat.add_sub_cancel' hqr] at hbehind
    exact h'.behind.trans hbehind
  · rw [hes', hes, List.append_assoc]
  · have hq := congrArg (List.take q) hmem
    rw [List.take_take, List.take_take, Nat.min_eq_left hqr] at hq
    have hfirst := hread mem (hq.trans h'.before)
    have hsecond := hread' mem hmem
    rw [readData] at hfirst hsecond ⊢
    rw [List.map_append, hfirst, hsecond]

/-- What stands behind is read as before. -/
theorem slice (h : Stored p q pairs s t) {x : Nat} (hx : q ≤ x) (stop : Nat) :
    slice t.mem x stop = slice s.mem x stop := by
  have hbehind := congrArg (List.drop (x - q)) h.behind
  rw [List.drop_drop, List.drop_drop, Nat.add_sub_cancel' hx] at hbehind
  rw [Http.slice, Http.slice, hbehind]

/-- A NUL over the byte behind a text. -/
theorem nul {a : Nat} {key v rest : Bytes} {x : UInt8} (hp : p ≤ a) (hq : a + v.length < q)
    (htext : s.mem.drop a = v ++ x :: rest) (hv : 0 ∉ v) (hmem : t.mem = poke s.mem (a + v.length) [0])
    (hdata : t.postData = s.postData ++ [(key, a)]) : Stored p q [(key, v)] s t := by
  have hset : t.mem = s.mem.set (a + v.length) 0 := hmem
  have hhere : cstr (t.mem.drop a) = v := by
    rw [hset, List.drop_set, if_neg (by omega), htext, Nat.add_sub_cancel_left,
      List.set_append_right _ _ (Nat.le_refl _),
      Nat.sub_self, List.set_cons_zero, cstr_append_nul, cstr_eq_self_iff]
    exact hv
  refine ⟨by rw [hset, List.length_set], by rw [hset, List.take_set_of_le (by omega)], ?_, [(key, a)], hdata, ?_⟩
  · rw [hset, List.drop_set, if_pos hq]
  · intro mem hmem'
    rw [readData, List.map_singleton, cstr_drop hmem' (by rw [hhere]; exact hq), hhere]

end Stored

/-! ## Lines -/

section Lines

variable {mem l t : Bytes} {p stop : Nat}

theorem drop_of_slice (hp : p ≤ stop) (h : slice mem p stop = t) : mem.drop p = t ++ mem.drop stop := by
  have hdrop := List.take_append_drop (stop - p) (mem.drop p)
  rw [List.drop_drop, Nat.add_sub_cancel' hp] at hdrop
  rw [← hdrop, ← h, slice]

theorem readLine_fst (hlen : stop ≤ mem.length) (hp : p ≤ stop) :
    (readLine mem stop p).1 = (slice mem p stop).takeWhile (· ≠ 13) := by
  have hscan := scan_eq mem 13 (stop - p) p (by omega)
  rw [← slice] at hscan
  show slice mem p (scan (fun q => fetch mem q == 13) (stop - p) p) = _
  rw [hscan]
  exact slice_head (t := (slice mem p stop).dropWhile (· ≠ 13)) List.takeWhile_append_dropWhile.symm

/-- **A line ends at its CRLF**, and the pointer goes behind it. -/
theorem readLine_crlf (hlen : stop ≤ mem.length) (hp : p ≤ stop) (h : slice mem p stop = l ++ crlf ++ t)
    (hl : 13 ∉ l) : readLine mem stop p = (l, p + l.length + 2) := by
  have hsize := length_slice_eq (p := p) hlen
  rw [h] at hsize
  have hcrlf : crlf.length = 2 := rfl
  simp only [List.length_append, hcrlf] at hsize
  have h' : slice mem p stop = l ++ 13 :: (10 :: t) := by rw [h, List.append_assoc]; rfl
  unfold readLine
  rw [scan_found hlen hp h' hl]
  simp only [slice_head h', if_pos (show p + l.length + 1 < stop by omega)]

theorem slice_behind (h : slice mem p stop = l ++ t) : slice mem (p + l.length) stop = t := by
  rw [← drop_slice, h, List.drop_left]

end Lines

/-! ## The header lines of a part -/

/-- The state with the line at `p` read. -/
def PartState.lineAt (stop : Nat) (s : PartState) (p : Nat) : PartState :=
  { s with line := (readLine s.mem stop p).1, lp := p, ptr := (readLine s.mem stop p).2 }

/-- A header line that the search passes over. -/
structure Other (l : Bytes) : Prop where
  full : l ≠ []
  plain : Free [0, 10, 13] l
  other : ¬ dispositionMark.map toLower <+: l.map toLower

theorem isDisposition_iff (l : Bytes) : sameUpTo 20 (l.map toLower) (dispositionMark.map toLower) = true ↔
    dispositionMark.map toLower <+: l.map toLower :=
  sameUpTo_iff (l.map toLower) (dispositionMark.map toLower) (by decide)

theorem partHeader_other {s : PartState} (h : ¬ dispositionMark.map toLower <+: s.line.map toLower) :
    partHeader s = s := by
  unfold partHeader
  exact if_neg fun hd => h ((isDisposition_iff _).1 hd)

theorem partHeaders_step {stop n : Nat} {s : PartState} (hp : s.ptr < stop) (hl : s.line ≠ []) :
    partHeaders stop (n + 1) s = partHeaders stop n ((partHeader s).lineAt stop (partHeader s).ptr) := by
  rw [partHeaders, if_pos ⟨hp, by rw [List.isEmpty_iff]; exact hl⟩]
  rfl

theorem partHeaders_done {stop : Nat} {s : PartState} (hl : s.line = []) : ∀ n, partHeaders stop n s = s
  | 0 => rfl
  | n + 1 => by
    rw [partHeaders, if_neg]
    rintro ⟨-, hne⟩
    rw [hl] at hne
    exact hne rfl

theorem partHeaders_plain {stop n : Nat} {s : PartState} {t : Bytes} (hlen : stop ≤ s.mem.length) (ht : t ≠ []) :
    ∀ (ls : List Bytes) (p : Nat), p ≤ stop → slice s.mem p stop = ls.flatMap (· ++ crlf) ++ t → (∀ l ∈ ls, Other l) →
      partHeaders stop (ls.length + n) (s.lineAt stop p) =
        partHeaders stop n (s.lineAt stop (p + (ls.flatMap (· ++ crlf)).length))
  | [], p, _, _, _ => by rw [List.length_nil, Nat.zero_add]; rfl
  | l :: ls, p, hp, h, hls => by
    have hl := hls l List.mem_cons_self
    rw [List.flatMap_cons, List.append_assoc, List.append_assoc] at h
    have h' : slice s.mem p stop = l ++ crlf ++ (ls.flatMap (· ++ crlf) ++ t) := by rw [h, List.append_assoc]
    have hline := readLine_crlf hlen hp h' (hl.plain 13 (by decide))
    have hnext : slice s.mem (p + l.length + 2) stop = ls.flatMap (· ++ crlf) ++ t := by
      have := slice_behind h'
      rwa [List.length_append, ← Nat.add_assoc] at this
    have hsize := length_slice_eq (p := p + l.length + 2) hlen
    have hpos := List.length_pos_iff.2 ht
    rw [hnext, List.length_append] at hsize
    have hat : s.lineAt stop p = { s with line := l, lp := p, ptr := p + l.length + 2 } := by
      rw [PartState.lineAt, hline]
    have hother : partHeader (s.lineAt stop p) = s.lineAt stop p :=
      partHeader_other (by rw [hat]; exact hl.other)
    have hlength : (l :: ls).length + n = ls.length + n + 1 := by rw [List.length_cons]; omega
    have hgo : (s.lineAt stop p).lineAt stop (p + l.length + 2) = s.lineAt stop (p + l.length + 2) := rfl
    rw [hlength, partHeaders_step (by rw [hat]; show p + l.length + 2 < stop; omega) (by rw [hat]; exact hl.full),
      hother, hat]
    show partHeaders stop (ls.length + n) ((s.lineAt stop p).lineAt stop (p + l.length + 2)) = _
    rw [hgo, partHeaders_plain hlen ht ls (p + l.length + 2) (by omega) hnext
      fun m hm => hls m (List.mem_cons_of_mem _ hm)]
    congr 2
    rw [List.flatMap_cons, List.length_append, List.length_append, show crlf.length = 2 from rfl]
    omega

/-! ## `Content-Disposition` -/

section Disposition

variable {B : Boundary} (P : Part B)

theorem nameMark_eq : ascii "name=\"" = ascii "name=" ++ [34] := rfl

theorem filenameMark_eq : ascii "filename=\"" = ascii "filename=" ++ [34] := rfl

/-- What stands before the mark of the name. -/
def formData : Bytes := ascii "Content-Disposition: form-data; "

theorem disposition_eq : P.disposition = formData ++ ascii "name=" ++ 34 :: (P.name ++ (34 :: P.fileParameter)) := by
  have hbegin : ascii "Content-Disposition: form-data; name=\"" = formData ++ ascii "name=" ++ [34] := rfl
  have hquote : ascii "\"" = [34] := rfl
  rw [Part.disposition, hbegin, hquote]
  simp only [List.append_assoc, List.cons_append, List.nil_append]

theorem fileParameter_some {f : Bytes} (h : P.filename = some f) :
    P.fileParameter = ascii "; " ++ ascii "filename=" ++ 34 :: (f ++ [34]) := by
  have hfile : ascii "; filename=\"" = ascii "; " ++ ascii "filename=" ++ [34] := rfl
  have hquote : ascii "\"" = [34] := rfl
  rw [Part.fileParameter, h, hfile, hquote]
  simp only [List.append_assoc, List.cons_append, List.nil_append]

theorem disposition_begins : dispositionMark.map toLower <+: P.disposition.map toLower := by
  have h : dispositionMark <+: P.disposition := by
    rw [disposition_eq, List.append_assoc]
    exact (show dispositionMark <+: formData from ⟨ascii " form-data; ", rfl⟩).trans (List.prefix_append _ _)
  exact h.map toLower

theorem not_suffix_name : ¬ ascii "filename=" <:+ P.name := by
  rintro ⟨a, ha⟩
  have := find_ne_none (ascii "filename=") [] a
  rw [List.append_nil, ha] at this
  exact this P.unmarked

theorem quoted_name : ∃ j, quoted (ascii "name=\"") P.disposition = some (38, j) ∧
    slice P.disposition 38 j = P.name := by
  have hf := find_mark (a := formData) (w := ascii "name=") (P.name ++ (34 :: P.fileParameter)) (by decide) (by decide)
  have hq := quoted_found (P.named 34 (by decide)) hf
  rw [← disposition_eq, ← nameMark_eq] at hq
  refine ⟨_, hq, ?_⟩
  have hdrop : P.disposition.drop 38 = P.name ++ (34 :: P.fileParameter) := by
    rw [disposition_eq]
    rfl
  have hj : formData.length + (ascii "name=").length + 1 + P.name.length - 38 = P.name.length := by
    rw [show formData.length + (ascii "name=").length + 1 = 38 from rfl, Nat.add_sub_cancel_left]
  rw [slice, hdrop, hj, List.take_left]

theorem find_filename :
    find (ascii "filename=" ++ [34]) P.disposition =
      (find (ascii "filename=" ++ [34]) P.fileParameter).map (· + (P.name.length + 39)) := by
  have hbegin : 34 ∉ formData ++ ascii "name=" := by decide
  rw [disposition_eq, find_mark_skip _ (by decide) hbegin (by decide),
    find_mark_skip _ (by decide) (P.named 34 (by decide)) (not_suffix_name P), Option.map_map]
  refine congrArg (fun g => Option.map g _) (funext fun x => ?_)
  show x + (P.name.length + 1) + (37 + 1) = x + (P.name.length + 39)
  omega

theorem quoted_filename_none (h : P.filename = none) : quoted (ascii "filename=\"") P.disposition = none := by
  have hnil : P.fileParameter = [] := by rw [Part.fileParameter, h]
  have hfind : find (ascii "filename=" ++ [34]) P.disposition = none :=
    (find_filename P).trans (Option.map_eq_none_iff.2 (congrArg (find _) hnil))
  unfold quoted
  simp only [filenameMark_eq, hfind]

theorem quoted_filename_some {f : Bytes} (h : P.filename = some f) :
    quoted (ascii "filename=\"") P.disposition = some (P.name.length + 51, P.name.length + 51 + f.length) ∧
      P.disposition.drop (P.name.length + 51) = f ++ [34] := by
  generalize ha : formData ++ ascii "name=" ++ 34 :: (P.name ++ (34 :: ascii "; ")) = a
  have hlen : a.length = P.name.length + 41 := by
    rw [← ha]
    simp only [List.length_append, List.length_cons, show formData.length = 32 from rfl,
      show (ascii "name=").length = 5 from rfl, show (ascii "; ").length = 2 from rfl]
    omega
  -- the line, as what stands before the mark, the mark, and the file name between quotes
  have hcut : P.disposition = a ++ ascii "filename=" ++ 34 :: (f ++ [34]) := by
    rw [disposition_eq, fileParameter_some P h, ← ha]
    simp only [List.append_assoc, List.cons_append]
  have hfind : find (ascii "filename=" ++ [34]) P.disposition = some a.length := by
    have hmark := find_mark (a := ascii "; ") (w := ascii "filename=") (f ++ [34]) (by decide) (by decide)
    rw [find_filename, fileParameter_some P h, hmark, Option.map_some, hlen, show (ascii "; ").length = 2 from rfl]
    congr 1
    omega
  constructor
  · rw [hcut] at hfind ⊢
    have hquoted : quoted (ascii "filename=" ++ [34]) (a ++ ascii "filename=" ++ 34 :: (f ++ [34])) =
        some (a.length + (ascii "filename=").length + 1, a.length + (ascii "filename=").length + 1 + f.length) :=
      quoted_found (P.filed f h 34 (by decide)) hfind
    rw [filenameMark_eq, hquoted, hlen]
    rfl
  · have hall : (a ++ ascii "filename=" ++ [34]).length = P.name.length + 51 := by
      rw [List.length_append, List.length_append, hlen]
      rfl
    have hcut' : P.disposition = (a ++ ascii "filename=" ++ [34]) ++ (f ++ [34]) := by
      rw [hcut, List.append_assoc _ [34], List.singleton_append]
    rw [hcut', ← hall, List.drop_left]

end Disposition

/-! ## A part -/

section Part

variable {B : Boundary} {stop : Nat}

theorem Part.disposition_plain (P : Part B) : 13 ∉ P.disposition := by
  have hname := P.named 13 (by decide)
  have hfile : 13 ∉ P.fileParameter := by
    rw [fileParameter]
    cases hf : P.filename with
    | none => exact List.not_mem_nil
    | some f =>
      have := P.filed f hf 13 (by decide)
      simp only [List.mem_append, not_or]
      exact ⟨⟨by decide, this⟩, by decide⟩
  rw [disposition]
  simp only [List.mem_append, not_or]
  exact ⟨⟨⟨by decide, hname⟩, by decide⟩, hfile⟩

theorem Part.disposition_full (P : Part B) : P.disposition ≠ [] := by
  rw [disposition_eq]
  exact List.cons_ne_nil _ _

/-- What `Content-Disposition` stores. -/
def Part.fileEntry (P : Part B) : List (Bytes × Bytes) :=
  match P.filename with
  | none => []
  | some f => [(P.name ++ ascii ".filename", f)]

theorem partHeader_disposition (P : Part B) {s : PartState} {p q : Nat} {t : Bytes} (hp : p ≤ s.lp)
    (hq : s.lp + P.disposition.length < q) (hline : s.line = P.disposition)
    (htext : s.mem.drop s.lp = P.disposition ++ t) :
    Stored p q P.fileEntry s (partHeader s) ∧ (partHeader s).key = P.name ∧ (partHeader s).ptr = s.ptr := by
  obtain ⟨j, hname, hslice⟩ := quoted_name P
  have hpass : sameUpTo 20 (s.line.map toLower) (dispositionMark.map toLower) = true := by
    rw [hline, isDisposition_iff]
    exact disposition_begins P
  have hcase := partHeader.eq_def s
  rw [if_pos hpass, hline, hname] at hcase
  simp only [hslice] at hcase
  unfold Part.fileEntry
  cases hf : P.filename with
  | none =>
    rw [quoted_filename_none P hf] at hcase
    rw [hcase]
    exact ⟨.same p q rfl rfl, rfl, rfl⟩
  | some f =>
    obtain ⟨hquoted, hdrop⟩ := quoted_filename_some P hf
    rw [hquoted] at hcase
    rw [hcase]
    have hlen := congrArg List.length hdrop
    rw [List.length_drop, List.length_append, List.length_singleton] at hlen
    have htext' : s.mem.drop (s.lp + (P.name.length + 51)) = f ++ 34 :: t := by
      rw [← List.drop_drop, htext, List.drop_append_of_le_length (by omega), hdrop, List.append_assoc]
      rfl
    refine ⟨.nul (by omega) (by omega) htext' (P.filed f hf 0 (by decide)) ?_ rfl, rfl, rfl⟩
    exact congrArg (fun a => poke s.mem a [0]) (Nat.add_assoc s.lp (P.name.length + 51) f.length).symm

/-- **The header lines of a part**: the name is its key, its file name is stored, and the value begins behind them. -/
theorem partHeaders_part (P : Part B)
    (hother : ∀ l ∈ P.ahead ++ P.further, ¬ dispositionMark.map toLower <+: l.map toLower)
    {s : PartState} {p : Nat} {t : Bytes} (hlen : stop ≤ s.mem.length) (hp : p ≤ stop)
    (htext : slice s.mem p stop = P.head ++ t) (ht : t ≠ []) :
    ∃ s', partHeaders stop (stop + 1) (s.lineAt stop p) = s' ∧ Stored p (p + P.head.length) P.fileEntry s s' ∧
      s'.key = P.name ∧ s'.ptr = p + P.head.length := by
  have hlines : ∀ l ∈ P.ahead ++ P.further, Other l := fun l hl => ⟨P.full l hl, P.plain l hl, hother l hl⟩
  have hahead : ∀ l ∈ P.ahead, Other l := fun l hl => hlines l (List.mem_append_left _ hl)
  have hfurther : ∀ l ∈ P.further, Other l := fun l hl => hlines l (List.mem_append_right _ hl)
  have hcrlf : crlf.length = 2 := rfl
  generalize hx : P.ahead.flatMap (· ++ crlf) = x
  generalize hy : P.further.flatMap (· ++ crlf) = y
  have hhead : P.head = x ++ (P.disposition ++ crlf ++ (y ++ crlf)) := by
    rw [Part.head, List.flatMap_append, List.flatMap_cons, hx, hy]
    simp only [List.append_assoc]
  have hheadlen : P.head.length = x.length + P.disposition.length + y.length + 4 := by
    rw [hhead]
    simp only [List.length_append, hcrlf]
    omega
  have hsize := length_slice_eq (p := p) hlen
  rw [htext, List.length_append] at hsize
  have htpos := List.length_pos_iff.2 ht
  have hxs := length_le_lines P.ahead
  have hys := length_le_lines P.further
  rw [hx] at hxs
  rw [hy] at hys
  -- the lines before
  have h0 : slice s.mem p stop = P.ahead.flatMap (· ++ crlf) ++ (P.disposition ++ crlf ++ (y ++ crlf ++ t)) := by
    rw [htext, hhead, hx]
    simp only [List.append_assoc]
  have hwalk0 := partHeaders_plain (n := stop + 1 - P.ahead.length) hlen (by simp [crlf]) P.ahead p hp h0 hahead
  rw [Nat.add_sub_cancel' (by omega), hx] at hwalk0
  -- `Content-Disposition`
  have h1 : slice s.mem (p + x.length) stop = P.disposition ++ crlf ++ (y ++ crlf ++ t) := by
    rw [hx] at h0
    exact slice_behind h0
  have hline1 := readLine_crlf hlen (by omega) h1 P.disposition_plain
  have hat1 : s.lineAt stop (p + x.length) =
      { s with line := P.disposition, lp := p + x.length, ptr := p + x.length + P.disposition.length + 2 } := by
    rw [PartState.lineAt, hline1]
  have hdrop1 := drop_of_slice (by omega) h1
  rw [List.append_assoc, List.append_assoc] at hdrop1
  obtain ⟨hstored, hkey, hptr⟩ := partHeader_disposition P (s := s.lineAt stop (p + x.length)) (p := p)
    (q := p + x.length + P.disposition.length + 1) (by rw [hat1]; exact Nat.le_add_right _ _)
    (by rw [hat1]; exact Nat.lt_succ_self _) (by rw [hat1]) hdrop1
  have hstep := @partHeaders_step stop (stop - P.ahead.length) (s.lineAt stop (p + x.length))
    (by rw [hat1]; show p + x.length + P.disposition.length + 2 < stop; omega)
    (by rw [hat1]; exact P.disposition_full)
  rw [← Nat.sub_add_comm (by omega)] at hstep
  generalize hs2 : partHeader (s.lineAt stop (p + x.length)) = s2 at hstored hkey hptr hstep
  have hptr2 : s2.ptr = p + x.length + P.disposition.length + 2 := by rw [hptr, hat1]
  -- the lines behind
  have hmem2 : s2.mem.length = s.mem.length := hstored.length
  have h2 : slice s2.mem s2.ptr stop = P.further.flatMap (· ++ crlf) ++ (crlf ++ t) := by
    rw [hptr2, hstored.slice (by omega)]
    have := slice_behind h1
    rw [List.length_append, hcrlf, ← Nat.add_assoc] at this
    show slice s.mem _ stop = _
    rw [this, hy, List.append_assoc]
  have hwalk2 := partHeaders_plain (n := stop - P.ahead.length - P.further.length) (by rw [hmem2]; exact hlen)
    (by simp [crlf]) P.further s2.ptr (by omega) h2 hfurther
  rw [Nat.add_sub_cancel' (by omega), hy] at hwalk2
  -- the empty line
  have h3 : slice s2.mem (s2.ptr + y.length) stop = [] ++ crlf ++ t := by
    rw [hy] at h2
    exact slice_behind h2
  have hline3 := readLine_crlf (by rw [hmem2]; exact hlen) (by omega) h3 List.not_mem_nil
  have hat3 : s2.lineAt stop (s2.ptr + y.length) =
      { s2 with line := [], lp := s2.ptr + y.length, ptr := s2.ptr + y.length + 2 } := by
    rw [PartState.lineAt, hline3]
    rfl
  refine ⟨s2.lineAt stop (s2.ptr + y.length), ?_, ?_, ?_, ?_⟩
  · rw [hwalk0, hstep, hwalk2]
    exact partHeaders_done (by rw [hat3]) _
  · have hsame := Stored.same (p + x.length + P.disposition.length + 1) (p + P.head.length) (s := s2)
      (t := s2.lineAt stop (s2.ptr + y.length)) rfl rfl
    have hall := hstored.trans hsame (by omega) (by omega)
    rw [List.append_nil] at hall
    exact ⟨hall.length, hall.before, hall.behind, hall.added⟩
  · rw [hat3]
    exact hkey
  · rw [hat3]
    show s2.ptr + y.length + 2 = _
    omega

/-! The value of a part: every position behind its start is tried, unless a newline stands there. -/

theorem scan_le_of_stop {f : Nat → Bool} {x : Nat} (hx : f x = true) : ∀ (n p : Nat), p ≤ x → scan f n p ≤ x
  | 0, _, hp => hp
  | n + 1, p, hp => by
    rw [scan]
    split
    · exact hp
    · next hf =>
      refine scan_le_of_stop hx n (p + 1) (Nat.lt_of_le_of_ne hp ?_)
      rintro rfl
      exact hf hx

theorem Boundary.mark_free (B : Boundary) : 0 ∉ B.mark ∧ 13 ∉ B.mark := by
  have h0 := B.token 0 (by decide)
  have h13 := B.token 13 (by decide)
  rw [mark, List.mem_append, List.mem_append, not_or, not_or]
  exact ⟨⟨by decide, h0⟩, by decide, h13⟩

/-- The boundary does not begin before the end of the value. -/
theorem not_mark (P : Part B) {u : Bytes} {j : Nat} (hj : j < P.content.length + 2) :
    ¬ B.mark <+: (P.content ++ crlf ++ u).drop j := by
  intro h
  have hstr : P.content ++ crlf ++ u = P.content ++ 13 :: (10 :: u) := by
    rw [List.append_assoc]
    rfl
  rw [hstr] at h
  by_cases hle : j ≤ P.content.length
  · rw [List.drop_append_of_le_length hle] at h
    exact find_isSome_of_drop (prefix_of_not_mem h B.mark_free.2) P.bounded
  · have hj' : j = P.content.length + 1 := by omega
    rw [hj', List.drop_length_add_append] at h
    have h10 : (45 : UInt8) = 10 := (List.cons_prefix_cons.1 h).1
    exact absurd h10 (by decide)

theorem partValue_content (P : Part B) {value : Nat} {t : Bytes} : ∀ (n p : Nat) (s : PartState), s.ptr = p →
    value ≤ p → p < value + P.content.length + 2 → value + P.content.length + 2 - p < n → stop ≤ s.mem.length →
    value ≤ stop → slice s.mem value stop = P.content ++ crlf ++ (B.mark ++ t) →
    partValue B.mark stop value n s =
      { s with
        mem := poke s.mem (value + P.content.length) [0], postData := s.postData ++ [(s.key, value)]
        line := (readLine (poke s.mem (value + P.content.length) [0]) stop (value + P.content.length + 2)).1
        ptr := (readLine (poke s.mem (value + P.content.length) [0]) stop (value + P.content.length + 2)).2 }
  | 0, _, _, _, _, _, hn, _, _, _ => absurd hn (Nat.not_lt_zero _)
  | n + 1, p, s, hp, hv, hq, hn, hlen, hvs, htext => by
    have hsize := length_slice_eq (p := value) hlen
    have hmark : 2 ≤ B.mark.length := by
      rw [Boundary.mark, List.length_append]
      exact Nat.le_add_right _ _
    rw [htext] at hsize
    simp only [List.length_append, show crlf.length = 2 from rfl] at hsize
    have hdrop := drop_of_slice hvs htext
    have hat : s.mem.drop (value + P.content.length + 2) = B.mark ++ (t ++ s.mem.drop stop) := by
      have hlen' : (P.content ++ crlf).length = P.content.length + 2 := by rw [List.length_append]; rfl
      rw [Nat.add_assoc, ← List.drop_drop, hdrop, List.append_assoc _ (B.mark ++ t), ← hlen', List.drop_left,
        List.append_assoc]
    -- the scan stops before the boundary at the latest, since no newline begins it
    have hfetch : fetch s.mem (value + P.content.length + 2) = 45 := by
      have hget := congrArg List.head? hat
      rw [List.head?_drop] at hget
      rw [fetch, List.getD_eq_getElem?_getD, hget]
      rfl
    have hstop : (fun q => !(fetch s.mem q != 13 && fetch s.mem (q + 1) == 10)) (value + P.content.length + 1) =
        true := by
      show (!(_ && fetch s.mem (value + P.content.length + 2) == 10)) = true
      rw [hfetch]
      simp
    have hge := scan_ge (fun q => !(fetch s.mem q != 13 && fetch s.mem (q + 1) == 10)) (stop - p) p
    have hle : scan (fun q => !(fetch s.mem q != 13 && fetch s.mem (q + 1) == 10)) (stop - p) p ≤
        value + P.content.length + 1 := scan_le_of_stop hstop (stop - p) p (by omega)
    rw [partValue, if_pos (by rw [hp]; omega), hp]
    generalize scan (fun q => !(fetch s.mem q != 13 && fetch s.mem (q + 1) == 10)) (stop - p) p = cp at hge hle
    simp only [if_pos (show cp < stop by omega)]
    by_cases hend : cp + 1 = value + P.content.length + 2
    · have hsame : sameUpTo B.mark.length (s.mem.drop (value + P.content.length + 2)) B.mark = true := by
        rw [sameUpTo_iff _ _ B.mark_free.1, hat]
        exact List.prefix_append _ _
      rw [hend, if_pos hsame]
      rfl
    · have hno : ¬ sameUpTo B.mark.length (s.mem.drop (cp + 1)) B.mark = true := by
        rw [sameUpTo_iff _ _ B.mark_free.1]
        have hcp : value + (cp + 1 - value) = cp + 1 := by omega
        rw [← hcp, ← List.drop_drop, hdrop, List.append_assoc _ (B.mark ++ t)]
        exact not_mark P (by omega)
      rw [if_neg hno]
      exact partValue_content P n (cp + 1) { s with ptr := cp + 1 } rfl (by omega) (by omega) (by omega) hlen hvs htext

end Part

/-! ## The parts -/

theorem partsBody_begins {B : Boundary} (epilogue : Bytes) (parts : List (Part B)) :
    ∃ t, partsBody epilogue parts = B.mark ++ t := by
  cases parts with
  | nil => exact ⟨ascii "--" ++ epilogue, by rw [partsBody, List.append_assoc]⟩
  | cons P parts => exact ⟨_, by rw [partsBody, List.append_assoc]⟩

theorem entries_eq {B : Boundary} (P : Part B) : P.entries = P.fileEntry ++ [(P.name, P.content)] := by
  rw [Part.entries, Part.fileEntry]
  cases P.filename <;> rfl

theorem partsLoop_parts {B : Boundary} {stop : Nat} (epilogue : Bytes) : ∀ (parts : List (Part B)) (n p : Nat)
    (s : PartState), parts.length < n →
    (∀ P ∈ parts, ∀ l ∈ P.ahead ++ P.further, ¬ dispositionMark.map toLower <+: l.map toLower) →
    stop ≤ s.mem.length → p ≤ stop → slice s.mem p stop = partsBody epilogue parts →
    s.line = (readLine s.mem stop p).1 → s.ptr = (readLine s.mem stop p).2 →
    Stored p stop (parts.flatMap Part.entries) s (partsLoop B.mark stop n s)
  | _, 0, _, _, hn, _, _, _, _, _, _ => absurd hn (Nat.not_lt_zero _)
  | [], n + 1, p, s, _, _, hlen, hp, htext, hline, _ => by
    have hne : s.line ≠ B.mark := by
      rw [hline, readLine_fst hlen hp, htext, partsBody, List.append_assoc]
      intro he
      have hmark : (B.mark ++ (ascii "--" ++ epilogue)).takeWhile (· ≠ 13) =
          B.mark ++ (ascii "--" ++ epilogue).takeWhile (· ≠ 13) :=
        List.takeWhile_append_of_pos fun x hx => by
          have : x ≠ 13 := fun e => B.mark_free.2 (e ▸ hx)
          simpa using this
      rw [hmark] at he
      have hnil := List.append_right_eq_self.1 he
      cases hnil
    rw [partsLoop, if_neg fun h => hne h.2]
    exact .same p stop rfl rfl
  | P :: parts, n + 1, p, s, hn, hother, hlen, hp, htext, hline, hptr => by
    obtain ⟨u, hu⟩ := partsBody_begins epilogue parts
    have hcrlf : crlf.length = 2 := rfl
    rw [partsBody] at htext
    have hread := readLine_crlf hlen hp htext B.mark_free.2
    rw [hread] at hline hptr
    have hsize := length_slice_eq (p := p) hlen
    rw [htext] at hsize
    simp only [List.length_append, hcrlf] at hsize
    have hhead : slice s.mem s.ptr stop = P.head ++ (P.content ++ crlf ++ partsBody epilogue parts) := by
      have := slice_behind htext
      rw [List.length_append, hcrlf, ← Nat.add_assoc] at this
      rw [hptr]
      exact this
    have hne : P.content ++ crlf ++ partsBody epilogue parts ≠ [] := by simp [crlf]
    obtain ⟨s1, hs1, hstored, hkey, hptr1⟩ := partHeaders_part P (hother P List.mem_cons_self)
      (s := { s with key := [] })
      hlen (show s.ptr ≤ stop by omega) hhead hne
    have hlen1 : s1.mem.length = s.mem.length := hstored.length
    have hvalue : slice s1.mem s1.ptr stop = P.content ++ crlf ++ partsBody epilogue parts := by
      rw [hptr1, hstored.slice (Nat.le_refl _)]
      exact slice_behind hhead
    have hvalue' : slice s1.mem s1.ptr stop = P.content ++ crlf ++ (B.mark ++ u) := by rw [hvalue, hu]
    have hstep := partValue_content P (stop + 1) s1.ptr s1 rfl (Nat.le_refl _) (by omega) (by omega)
      (by rw [hlen1]; exact hlen) (by omega) hvalue'
    generalize hs2 : partValue B.mark stop s1.ptr (stop + 1) s1 = s2 at hstep
    -- the value is stored
    have hdrop := drop_of_slice (by omega) hvalue
    have hcut : s1.mem.drop s1.ptr = P.content ++ 13 :: (10 :: (partsBody epilogue parts ++ s1.mem.drop stop)) := by
      rw [hdrop, List.append_assoc, List.append_assoc]
      rfl
    have hvstored : Stored (s.ptr + P.head.length) (s1.ptr + P.content.length + 2) [(P.name, P.content)] s1 s2 := by
      refine .nul (a := s1.ptr) (by omega) (by omega) hcut P.ended ?_ ?_
      · rw [hstep]
      · rw [hstep, hkey]
    have hnext : slice s2.mem (s1.ptr + P.content.length + 2) stop = partsBody epilogue parts := by
      rw [hvstored.slice (Nat.le_refl _)]
      have := slice_behind hvalue
      rwa [List.length_append, hcrlf, ← Nat.add_assoc] at this
    have hmem2 : s2.mem = poke s1.mem (s1.ptr + P.content.length) [0] := by rw [hstep]
    have hrest := partsLoop_parts epilogue parts n (s1.ptr + P.content.length + 2) s2 (Nat.lt_of_succ_lt_succ hn)
      (fun Q hQ => hother Q (List.mem_cons_of_mem _ hQ)) (by rw [hvstored.length, hlen1]; exact hlen) (by omega) hnext
      (by rw [hmem2, hstep]) (by rw [hmem2, hstep])
    have hpart := (hstored.trans hvstored (Nat.le_add_right _ _) (by omega)).trans hrest (by omega) (by omega)
    have hloop : partsLoop B.mark stop (n + 1) s = partsLoop B.mark stop n s2 := by
      have hs1' : partHeaders stop (stop + 1) { s with
          key := [], line := (readLine s.mem stop s.ptr).1, lp := s.ptr, ptr := (readLine s.mem stop s.ptr).2 } =
        s1 := hs1
      rw [partsLoop, if_pos ⟨by omega, hline⟩]
      simp only [hs1', hs2]
    rw [hloop, List.flatMap_cons, entries_eq]
    refine ⟨hpart.length, ?_, hpart.behind, hpart.added⟩
    have hbefore := congrArg (List.take p) hpart.before
    rw [List.take_take, List.take_take, Nat.min_eq_left (by omega)] at hbefore
    exact hbefore

/-! ## The whole form -/

/-- What the search of a form is to come to: its entries, and nothing else; under each key its values in order. -/
structure Delivered {B : Boundary} (parts : List (Part B)) (q : Bool × HttpRequest × Bytes) : Prop where
  returns : q.1 = true
  entries : readData q.2.2 q.2.1.postData = parts.flatMap Part.entries
  values : ∀ key, (q.2.1.postArray key).map (fun p => cstr (q.2.2.drop p)) =
    ((parts.flatMap Part.entries).filter (fun e => e.1 == key)).map Prod.snd

def multipartType (B : Boundary) : Bytes := ascii "multipart/form-data; boundary=" ++ B.text

theorem boundary_found (B : Boundary) :
    find (ascii "boundary=") (multipartType B) = some 21 ∧ (multipartType B).drop 30 = B.text ∧
      findFirstOf (ascii "; \r\n") B.text 0 = none := by
  refine ⟨find_append_of_some (by decide), rfl, ?_⟩
  rw [findFirstOf, List.drop_zero, Option.map_eq_none_iff, List.findIdx?_eq_none_iff]
  intro x hx
  have h (y : UInt8) (hy : y ∈ ([0, 10, 13, 32, 59] : Bytes)) : x ≠ y := fun e => B.token y hy (e ▸ hx)
  have h10 := h 10 (by decide)
  have h13 := h 13 (by decide)
  have h32 := h 32 (by decide)
  have h59 := h 59 (by decide)
  simp [ascii, h10, h13, h32, h59]

theorem length_partsBody {B : Boundary} (epilogue : Bytes) : ∀ parts : List (Part B),
    parts.length < (partsBody epilogue parts).length
  | [] => by
    rw [partsBody, Boundary.mark, List.append_assoc, List.append_assoc]
    exact Nat.succ_pos _
  | P :: parts => by
    have ih := length_partsBody epilogue parts
    rw [partsBody, Boundary.mark]
    simp only [List.length_append, List.length_cons, show (ascii "--").length = 2 from rfl]
    omega

/-- **A form of parts gives what its sender wrote**, when no further header line begins with `Content-Disposition:` in
any case. -/
theorem multipart_decoded {B : Boundary} (parts : List (Part B)) (epilogue before after : Bytes) (r : HttpRequest)
    (hsize : r.bodySize = (partsBody epilogue parts).length) (hnew : r.postData = [])
    (hother : ∀ P ∈ parts, ∀ l ∈ P.ahead ++ P.further, ¬ dispositionMark.map toLower <+: l.map toLower) :
    Delivered parts
      (getPostMultipart r before.length (multipartType B) (before ++ partsBody epilogue parts ++ after)) := by
  obtain ⟨hfind, hdrop, hend⟩ := boundary_found B
  generalize hmem : before ++ partsBody epilogue parts ++ after = mem
  have hlen : before.length + r.bodySize ≤ mem.length := by
    rw [← hmem, hsize, List.length_append, List.length_append]
    exact Nat.le_add_right _ _
  have htext : slice mem before.length (before.length + r.bodySize) = partsBody epilogue parts := by
    rw [slice, ← hmem, hsize, Nat.add_sub_cancel_left, List.append_assoc, List.drop_left, List.take_left]
  have hmany := length_partsBody epilogue parts
  have hcase := getPostMultipart.eq_def r before.length (multipartType B) mem
  have hne : ¬ B.text.isEmpty = true := fun h => B.nonempty (List.isEmpty_iff.1 h)
  have hmark : ascii "--" ++ B.text = B.mark := rfl
  simp only [hfind, hdrop, hend, Option.getD_none, List.take_length, if_neg hne, hmark] at hcase
  have hstored := partsLoop_parts epilogue parts (before.length + r.bodySize + 1) before.length
    { ptr := (readLine mem (before.length + r.bodySize) before.length).2, mem := mem, postData := r.postData, key := []
      line := (readLine mem (before.length + r.bodySize) before.length).1, lp := before.length }
    (by omega) hother hlen (Nat.le_add_right _ _) htext rfl rfl
  obtain ⟨es, hes, hread⟩ := hstored.added
  generalize partsLoop B.mark (before.length + r.bodySize) _ _ = s' at hcase hes hread
  have hread' := hread s'.mem rfl
  rw [show es = s'.postData by rw [hes, hnew, List.nil_append]] at hread'
  rw [hcase]
  refine ⟨rfl, hread', fun key => ?_⟩
  rw [HttpRequest.postArray, map_filter_fst, hread']

/-- A part with one further header line. -/
def fieldPart (B : Boundary) (line : Bytes) (hfull : line ≠ []) (hplain : Free [0, 10, 13] line)
    (hbounded : find B.mark [49] = none) : Part B where
  name := ascii "a"
  filename := some (ascii "f")
  ahead := []
  further := [line]
  content := [49]
  named := by decide
  unmarked := by decide
  filed := fun f hf => by
    cases hf
    decide
  full := fun l hl => by
    rw [List.mem_singleton.1 hl]
    exact hfull
  plain := fun l hl => by
    rw [List.mem_singleton.1 hl]
    exact hplain
  ended := by decide
  bounded := hbounded

def boundaryX : Boundary := ⟨ascii "X", by decide, by decide⟩

def plainPart : Part boundaryX := fieldPart boundaryX (ascii "Content-Type: a/b") (by decide) (by decide) (by decide)

def renamedPart : Part boundaryX :=
  fieldPart boundaryX (ascii "content-disposition: name=\"z\"") (by decide) (by decide) (by decide)

theorem multipart_decoded_plain : Delivered [plainPart]
    (getPostMultipart { bodySize := (partsBody crlf [plainPart]).length } ([] : Bytes).length (multipartType boundaryX)
      ([] ++ partsBody crlf [plainPart] ++ [])) :=
  multipart_decoded [plainPart] crlf [] [] { bodySize := (partsBody crlf [plainPart]).length } rfl rfl (by
    intro P hP l hl
    rw [List.mem_singleton.1 hP] at hl
    rw [List.mem_singleton.1 hl]
    decide)

/-- A further line in lower case takes the part's name away. -/
theorem multipart_renamed : ¬ ∀ (B : Boundary) (parts : List (Part B)) (epilogue before after : Bytes) (r : HttpRequest),
    r.bodySize = (partsBody epilogue parts).length → r.postData = [] →
    (∀ P ∈ parts, ∀ l ∈ P.ahead ++ P.further, ¬ dispositionMark <+: l) →
    Delivered parts
      (getPostMultipart r before.length (multipartType B) (before ++ partsBody epilogue parts ++ after)) := by
  intro h
  have hd := h boundaryX [renamedPart] crlf [] [] { bodySize := (partsBody crlf [renamedPart]).length } rfl rfl (by
    intro P hP l hl
    rw [List.mem_singleton.1 hP] at hl
    rw [List.mem_singleton.1 hl]
    decide)
  exact absurd hd.entries (by decide +kernel)

end Http
end Pico
