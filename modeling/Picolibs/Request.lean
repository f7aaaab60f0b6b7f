import Mathlib.Data.List.TakeWhile
import Picolibs.HttpPost
/-!
# Request — well-formed requests, and what the parser makes of them

A `Request` is a request line, header lines `Name: value`, a blank line and a body of the declared length.  `bytes` is
how it is sent.  `parseRequest` finds exactly its lines and its body when all of it is in the buffer, whatever follows;
with part of the body it waits and leaves the buffer alone; with part of the head there is no blank line
(`parseRequest_bytes`, `parseRequest_part`, `find_blank_part`).
-/
namespace Pico
namespace Http

open Text

/-- None of these bytes is in the string. -/
def Free (set s : Bytes) : Prop := ∀ x ∈ set, x ∉ s

instance decidableFree (set s : Bytes) : Decidable (Free set s) := List.decidableBAll (fun x => x ∉ s) set

structure Field where
  name : Bytes
  value : Bytes
  token : Free [0, 10, 13, 32, 58] name
  plain : Free [10, 13] value
  valued : ∃ x t, value = x :: t ∧ x ≠ 32

/-- `Name: value`. -/
def Field.line (f : Field) : Bytes := f.name ++ [58, 32] ++ f.value

/-- The value of the first field of a name. -/
def valueOf (fields : List Field) (name : Bytes) : Option Bytes :=
  (fields.find? (fun f => sameNoCase f.name name)).map Field.value

/-- A request whose body has the declared length, which a 32-bit `size_t` holds. -/
structure Request where
  method : Bytes
  target : Bytes
  version : Bytes
  fields : List Field
  body : Bytes
  token : Free [0, 10, 13, 32, 58] method
  nonempty : method ≠ []
  word : Free [10, 13, 32] target
  number : Free [10, 13, 32] version
  declared : match valueOf fields (ascii "Content-Length") with
    | some value => value.all isDigit = true ∧ decimal value = body.length
    | none => body = []
  fits : body.length < 2 ^ 32

namespace Request

def requestLine (R : Request) : Bytes := R.method ++ [32] ++ R.target ++ [32] ++ R.version

def lines (R : Request) : List Bytes := R.requestLine :: R.fields.map Field.line

/-- Everything up to the body. -/
def head (R : Request) : Bytes := R.lines.flatMap (· ++ crlf) ++ crlf

def bytes (R : Request) : Bytes := R.head ++ R.body

/-- The object of the request, its POST data aside. -/
def parsed (R : Request) : HttpRequest :=
  { headers := R.lines, bodyOffset := R.head.length, bodySize := R.body.length, body := some R.head.length }

end Request

/-! ## Lines -/

/-- A line that can stand in the head of a request. -/
structure Line (l : Bytes) : Prop where
  nonempty : l ≠ []
  inside : 13 ∉ l

theorem Field.isLine (f : Field) : Line f.line := by
  refine ⟨by simp [line], ?_⟩
  have hn := f.token 13 (by decide)
  have hv := f.plain 13 (by decide)
  simp [line, hn, hv]

theorem Request.isLine (R : Request) : ∀ l ∈ R.lines, Line l := by
  intro l hl
  rcases List.mem_cons.1 hl with rfl | hl
  · have hm := R.token 13 (by decide)
    have ht := R.word 13 (by decide)
    have hv := R.number 13 (by decide)
    exact ⟨by simp [requestLine], by simp [requestLine, hm, ht, hv]⟩
  · obtain ⟨f, -, rfl⟩ := List.mem_map.1 hl
    exact f.isLine

/-- A line that is not empty, and that no CRLF cuts. -/
structure Uncut (l : Bytes) : Prop where
  nonempty : l ≠ []
  plain : find crlf l = none

theorem Line.uncut {l : Bytes} (hl : Line l) : Uncut l := ⟨hl.nonempty, find_none_of_not_mem hl.inside⟩

theorem not_crlf {l : Bytes} (hl : Uncut l) (t : Bytes) : crlf.isPrefixOf (l ++ crlf ++ t) = false := by
  obtain ⟨hne, hcut⟩ := hl
  cases l with
  | nil => exact absurd rfl hne
  | cons x l => exact crlf_not_begins t (find_tail_none hcut).2

/-- The lines of a head, and the offset of its empty line. -/
theorem headerLines_lines (t : Bytes) : ∀ (ls : List Bytes) (n i : Nat), (∀ l ∈ ls, Uncut l) → ls.length < n →
    headerLines n (ls.flatMap (· ++ crlf) ++ crlf ++ t) i = (ls, some (i + (ls.flatMap (· ++ crlf)).length))
  | _, 0, _, _, hn => absurd hn (Nat.not_lt_zero _)
  | [], n + 1, i, _, _ => by
    have h0 : find crlf (crlf ++ t) = some 0 := find_of_prefix ⟨t, rfl⟩
    rw [List.flatMap_nil, List.nil_append, headerLines, h0]
    rfl
  | l :: ls, n + 1, i, hls, hn => by
    have hl := hls l List.mem_cons_self
    have ih := headerLines_lines t ls n (i + l.length + 2) (fun m hm => hls m (List.mem_cons_of_mem _ hm))
      (Nat.lt_of_succ_lt_succ hn)
    have hstr : (l :: ls).flatMap (· ++ crlf) ++ crlf ++ t =
        l ++ crlf ++ (ls.flatMap (· ++ crlf) ++ crlf ++ t) := by
      rw [List.flatMap_cons]
      simp only [List.append_assoc]
    have hfind := find_crlf (ls.flatMap (· ++ crlf) ++ crlf ++ t) hl.plain
    obtain ⟨k, hk⟩ : ∃ k, l.length = k + 1 :=
      Nat.exists_eq_succ_of_ne_zero fun h => hl.nonempty (List.length_eq_zero_iff.1 h)
    have hdrop : (l ++ crlf ++ (ls.flatMap (· ++ crlf) ++ crlf ++ t)).drop (k + 1 + 2) =
        ls.flatMap (· ++ crlf) ++ crlf ++ t := by
      rw [← hk]
      exact List.drop_left' (by simp [crlf])
    have htake : (l ++ crlf ++ (ls.flatMap (· ++ crlf) ++ crlf ++ t)).take (k + 1) = l := by
      rw [← hk, List.append_assoc]
      exact List.take_left' rfl
    rw [hk] at hfind
    have hlen : i + ((l :: ls).flatMap (· ++ crlf)).length = i + l.length + 2 + (ls.flatMap (· ++ crlf)).length := by
      rw [List.flatMap_cons, List.length_append, List.length_append, crlf, List.length_cons, List.length_singleton]
      omega
    rw [hlen, hstr, headerLines, hfind]
    simp only [hdrop, htake]
    rw [← hk, ih]

/-- The blank line of a head is at its end. -/
theorem find_blank_lines (t : Bytes) : ∀ (l : Bytes) (ls : List Bytes), (∀ m ∈ l :: ls, Uncut m) →
    find blankLine ((l :: ls).flatMap (· ++ crlf) ++ crlf ++ t) =
      some (((l :: ls).flatMap (· ++ crlf)).length - 2)
  | l, [], hls => by
    have hl := hls l List.mem_cons_self
    have hstr : [l].flatMap (· ++ crlf) ++ crlf ++ t = l ++ crlf ++ (crlf ++ t) := by simp
    rw [hstr, find_blank _ hl.plain, if_pos (List.isPrefixOf_iff_prefix.2 ⟨t, rfl⟩)]
    simp [crlf]
  | l, m :: ls, hls => by
    have hl := hls l List.mem_cons_self
    have hm := hls m (List.mem_cons_of_mem _ List.mem_cons_self)
    have ih := find_blank_lines t m ls fun k hk => hls k (List.mem_cons_of_mem _ hk)
    have hstr : (l :: m :: ls).flatMap (· ++ crlf) ++ crlf ++ t =
        l ++ crlf ++ ((m :: ls).flatMap (· ++ crlf) ++ crlf ++ t) := by
      rw [List.flatMap_cons]
      simp only [List.append_assoc]
    have hnot : ¬ crlf.isPrefixOf ((m :: ls).flatMap (· ++ crlf) ++ crlf ++ t) = true := by
      have hm' : (m :: ls).flatMap (· ++ crlf) ++ crlf ++ t = m ++ crlf ++ (ls.flatMap (· ++ crlf) ++ crlf ++ t) := by
        rw [List.flatMap_cons]
        simp only [List.append_assoc]
      rw [hm', not_crlf hm]
      exact Bool.false_ne_true
    rw [hstr, find_blank _ hl.plain, if_neg hnot, ih, Option.map_some, List.flatMap_cons (x := l)]
    simp only [List.length_append, List.flatMap_cons, crlf, List.length_cons, List.length_nil]
    congr 1
    omega

/-! ## Headers -/

theorem find_colon {name : Bytes} (value : Bytes) (h : 58 ∉ name) :
    find (ascii ":") (name ++ [58, 32] ++ value) = some name.length := by
  rw [List.append_assoc]
  exact find_byte (32 :: value) h

theorem headerNamed_line {name : Bytes} (value wanted : Bytes) (h : 58 ∉ name) :
    headerNamed wanted (name ++ [58, 32] ++ value) = sameNoCase name wanted := by
  unfold headerNamed
  rw [find_colon value h]
  simp only [List.append_assoc, List.take_left']

/-- A value that a blank does not begin and that ends with its line is read back. -/
theorem headerPair_line {name value : Bytes} (h : 58 ∉ name) (hv : ∃ x t, value = x :: t ∧ x ≠ 32)
    (hplain : Free [10, 13] value) : headerPair (name ++ [58, 32] ++ value) = .ok (name, value) := by
  obtain ⟨x, t, hv, hx⟩ := hv
  have hdrop1 : (name ++ [58, 32] ++ value).drop (name.length + 1) = 32 :: value := by
    rw [List.append_assoc, ← List.drop_drop, List.drop_left]
    rfl
  have hdrop2 : (name ++ [58, 32] ++ value).drop (name.length + 2) = value := by
    rw [List.append_assoc, ← List.drop_drop, List.drop_left]
    rfl
  have h2 : findFirstNotOf (ascii " ") (name ++ [58, 32] ++ value) (name.length + 1) = some (name.length + 2) := by
    have hset : (ascii " ").contains x = false := by simp [ascii, hx]
    rw [findFirstNotOf, hdrop1, hv]
    simp only [List.findIdx?_cons, hset]
    have h32 : (ascii " ").contains 32 = true := by decide
    rw [h32]
    simp
    omega
  have h3 : findFirstOf crlf (name ++ [58, 32] ++ value) (name.length + 2) = none := by
    rw [findFirstOf, hdrop2, List.findIdx?_eq_none_iff.2]
    · rfl
    · intro y hy
      have h10 : y ≠ 10 := fun e => hplain 10 (by decide) (e ▸ hy)
      have h13 : y ≠ 13 := fun e => hplain 13 (by decide) (e ▸ hy)
      simp [crlf, h10, h13]
  have hlen : (name ++ [58, 32] ++ value).length = name.length + 2 + value.length := by
    simp only [List.length_append]
    rfl
  unfold headerPair
  rw [find_colon value h]
  simp only [h2, Option.bind_some, h3, substr]
  rw [if_pos (Nat.zero_le _), if_pos (by omega), hdrop2, Option.getD_none, hlen, Nat.add_sub_cancel_left,
    List.take_length]
  simp [bind, Except.bind]

theorem Field.headerNamed (f : Field) (name : Bytes) : headerNamed name f.line = sameNoCase f.name name :=
  headerNamed_line f.value name (f.token 58 (by decide))

theorem Field.headerPair (f : Field) : headerPair f.line = .ok (f.name, f.value) :=
  headerPair_line (f.token 58 (by decide)) f.valued f.plain

/-- What is not a small letter is no capital letter's small one. -/
theorem toLower_eq_low {x y : UInt8} (hy : y.toNat < 97) (h : toLower x = y) : x = y := by
  unfold toLower at h
  split at h
  · next hx =>
    rw [Bool.and_eq_true, decide_eq_true_eq, decide_eq_true_eq, UInt8.le_iff_toNat_le, UInt8.le_iff_toNat_le] at hx
    have hsum := congrArg UInt8.toNat h
    rw [UInt8.toNat_add] at hsum
    have h65 : (65 : UInt8).toNat = 65 := rfl
    have h90 : (90 : UInt8).toNat = 90 := rfl
    have h32 : (32 : UInt8).toNat = 32 := rfl
    omega
  · exact h

theorem toLower_eq_space {x : UInt8} (h : toLower x = 32) : x = 32 := toLower_eq_low (by decide) h

/-- The request line is no header. -/
theorem Request.headerNamed (R : Request) {name : Bytes} (hname : 32 ∉ name) :
    headerNamed name R.requestLine = false := by
  have h58 : (58 : UInt8) ∉ R.method ++ [32] := by
    have := R.token 58 (by decide)
    simp [this]
  have hstr : R.requestLine = (R.method ++ [32]) ++ (R.target ++ [32] ++ R.version) := by
    simp [requestLine]
  have hfind : find [58] (R.method ++ [32] ++ (R.target ++ [32] ++ R.version)) = _ := find_append_of_not_mem _ h58
  have hcolon : ascii ":" = [58] := by decide
  rw [Http.headerNamed, hstr, hcolon, hfind]
  cases find [58] (R.target ++ [32] ++ R.version) with
  | none => rfl
  | some j =>
    -- what stands before the colon holds the space after the method, which the name does not
    simp only [Option.map_some]
    rw [Nat.add_comm, List.take_length_add_append]
    have hcstr : cstr (R.method ++ [32] ++ (R.target ++ [32] ++ R.version).take j) =
        (R.method ++ [32]) ++ cstr ((R.target ++ [32] ++ R.version).take j) := by
      refine List.takeWhile_append_of_pos fun x hx => ?_
      have : x ≠ 0 := by
        rintro rfl
        have := R.token 0 (by decide)
        simp [this] at hx
      simp [this]
    rw [sameNoCase, hcstr, beq_eq_false_iff_ne]
    intro heq
    have hmem : (32 : UInt8) ∈ (cstr name).map toLower := by
      rw [← heq]
      simp [toLower]
    obtain ⟨x, hx, hx32⟩ := List.mem_map.1 hmem
    rw [toLower_eq_space hx32] at hx
    exact hname (List.takeWhile_subset _ hx)

section Headers

variable {R : Request} {r : HttpRequest} {name : Bytes}

theorem Request.headerIndex (hr : r.headers = R.lines) (hname : 32 ∉ name) :
    r.headerIndex name 0 = (R.fields.findIdx? (fun f : Field => sameNoCase f.name name)).map (· + 1) := by
  unfold HttpRequest.headerIndex
  rw [hr, List.drop_zero, lines, List.findIdx?_cons, R.headerNamed hname, List.findIdx?_map]
  simp [Function.comp_def, Field.headerNamed]

/-- What is found under a name, by its index and by its field. -/
theorem Request.headerAt (hr : r.headers = R.lines) (hname : 32 ∉ name) :
    (r.headerIndex name 0 = none ∧ valueOf R.fields name = none) ∨
      ∃ i f, r.headerIndex name 0 = some (i + 1) ∧ valueOf R.fields name = some (Field.value f) ∧
        r.headerAt (some (i + 1)) = .ok (f.name, f.value) := by
  rw [headerIndex hr hname, valueOf, List.find?_eq_bind_findIdx?_getElem?]
  cases hi : R.fields.findIdx? (fun f : Field => sameNoCase f.name name) with
  | none => exact Or.inl ⟨rfl, rfl⟩
  | some i =>
    right
    obtain ⟨hlt, -, -⟩ := List.findIdx?_eq_some_iff_getElem.1 hi
    have hget : R.fields[i]? = some R.fields[i] := List.getElem?_eq_getElem hlt
    refine ⟨i, R.fields[i], rfl, ?_, ?_⟩
    · show Option.map _ (R.fields[i]?) = _
      rw [hget]
      rfl
    · have hline : r.headers[i + 1]? = some R.fields[i].line := by
        rw [hr, lines, List.getElem?_cons_succ, List.getElem?_map, hget]
        rfl
      unfold HttpRequest.headerAt
      simp only [hline]
      exact Field.headerPair _

/-- **A header is the value of the first field of its name.** -/
theorem Request.header (hr : r.headers = R.lines) (hname : 32 ∉ name) :
    r.header name = .ok ((valueOf R.fields name).getD []) := by
  unfold HttpRequest.header
  rcases headerAt hr hname with ⟨hi, hv⟩ | ⟨i, f, hi, hv, ha⟩
  · rw [hi, hv]
    rfl
  · rw [hi, hv, ha]
    rfl

theorem stoul_digits {ds : Bytes} (hne : ds ≠ []) (hd : ds.all isDigit = true) (hlt : decimal ds < 2 ^ 32) :
    stoul ds = some (decimal ds) := by
  have hall : ∀ x ∈ ds, isDigit x = true := List.all_eq_true.1 hd
  obtain ⟨x, t, rfl⟩ : ∃ x t, ds = x :: t := List.exists_cons_of_ne_nil hne
  have hx := hall x List.mem_cons_self
  have hspace : isSpace x = false := by
    simp only [isDigit, Bool.and_eq_true, decide_eq_true_eq, UInt8.le_iff_toNat_le] at hx
    have h48 : (48 : UInt8).toNat = 48 := rfl
    have h13 : (13 : UInt8).toNat = 13 := rfl
    have hle : ¬ x ≤ 13 := by rw [UInt8.le_iff_toNat_le]; omega
    have h32 : x ≠ 32 := by rintro rfl; exact absurd hx.1 (by decide)
    simp [isSpace, hle, h32]
  have h45 : x ≠ 45 := by rintro rfl; exact absurd hx (by decide)
  have h43 : x ≠ 43 := by rintro rfl; exact absurd hx (by decide)
  have htake : (x :: t).takeWhile isDigit = x :: t := List.takeWhile_eq_self_iff.2 hall
  unfold stoul
  simp only [List.dropWhile_cons, hspace, Bool.false_eq_true, if_false, List.head?_cons, Option.some_beq_some,
    beq_eq_false_iff_ne.2 h45, beq_eq_false_iff_ne.2 h43, Bool.or_self, htake, List.isEmpty_cons, if_pos hlt]

/-- **The declared length is the length of the body.** -/
theorem Request.contentLength (hr : r.headers = R.lines) : r.contentLength = .ok R.body.length := by
  have hd := R.declared
  unfold HttpRequest.contentLength
  have hspace : 32 ∉ ascii "Content-Length" := by decide
  rcases headerAt hr hspace with ⟨hi, hv⟩ | ⟨i, f, hi, hv, ha⟩
  · rw [hv] at hd
    simp only at hd
    rw [hi, hd]
    rfl
  · rw [hv] at hd
    simp only at hd
    obtain ⟨hdigits, hlen⟩ := hd
    obtain ⟨x, t, hfv, -⟩ := f.valued
    have hst := stoul_digits (by rw [hfv]; exact List.cons_ne_nil _ _) hdigits (by rw [hlen]; exact R.fits)
    rw [hi]
    simp only [ha, bind, Except.bind, hst, Option.getD_some, hlen]

theorem findFirstOf_byte {x : UInt8} {l : Bytes} (h : x ∉ l) :
    findFirstOf [x] l 0 = none ∧ ∀ t, findFirstOf [x] (l ++ x :: t) 0 = some l.length := by
  have hnone : l.findIdx? (fun c => [x].contains c) = none := by
    rw [List.findIdx?_eq_none_iff]
    intro y hy
    have : y ≠ x := fun e => h (e ▸ hy)
    simp [this]
  refine ⟨?_, fun t => ?_⟩
  · rw [findFirstOf, List.drop_zero, hnone]
    rfl
  · have hx : [x].contains x = true := by simp
    rw [findFirstOf, List.drop_zero, List.findIdx?_append, hnone, List.findIdx?_cons, hx]
    simp

theorem findFirstOf_space {l : Bytes} (h : 32 ∉ l) :
    findFirstOf (ascii " ") l 0 = none ∧ ∀ t, findFirstOf (ascii " ") (l ++ 32 :: t) 0 = some l.length :=
  findFirstOf_byte h

theorem Request.split_requestLine (R : Request) :
    split R.requestLine (ascii " ") = [R.method, R.target, R.version] := by
  have hm := findFirstOf_space (R.token 32 (by decide))
  have ht := findFirstOf_space (R.word 32 (by decide))
  have hv := findFirstOf_space (R.number 32 (by decide))
  have hline : R.requestLine = R.method ++ 32 :: (R.target ++ 32 :: R.version) := by simp [requestLine]
  have hdrop (l t : Bytes) : (l ++ 32 :: t).drop (l.length + 1) = t := by
    rw [← List.drop_drop, List.drop_left]
    rfl
  rw [hline, Http.split, hm.2]
  simp only [List.take_left', hdrop]
  rw [splitFrom, if_neg (by simp), ht.2]
  simp only [List.take_left', hdrop]
  obtain ⟨n, hn⟩ : ∃ n, (R.method ++ 32 :: (R.target ++ 32 :: R.version)).length = n + 1 :=
    ⟨R.method.length + (R.target ++ 32 :: R.version).length, by rw [List.length_append, List.length_cons]; omega⟩
  rw [hn, splitFrom]
  split
  · next hempty => rw [List.isEmpty_iff.1 hempty]
  · rw [hv.1]

/-- **The type of a request is its method.** -/
theorem Request.type (hr : r.headers = R.lines) : r.type = R.method := by
  unfold HttpRequest.type HttpRequest.requestToken
  rw [hr, lines]
  simp only [R.split_requestLine]
  rfl

end Headers

/-! ## Parsing -/

section Head

variable {l : Bytes} {ls : List Bytes}

theorem length_le_lines : ∀ ls : List Bytes, ls.length ≤ (ls.flatMap (· ++ crlf)).length
  | [] => Nat.le_refl _
  | l :: ls => by
    have ih := length_le_lines ls
    have : crlf.length = 2 := rfl
    rw [List.flatMap_cons, List.length_cons, List.length_append, List.length_append]
    omega

theorem length_lines_lt (ls : List Bytes) : ls.length < (ls.flatMap (· ++ crlf) ++ crlf).length := by
  rw [List.length_append]
  exact Nat.lt_of_le_of_lt (length_le_lines ls) (Nat.lt_add_of_pos_right (by decide))

theorem find_blank_head (hls : ∀ m ∈ l :: ls, Uncut m) (t : Bytes) :
    find blankLine ((l :: ls).flatMap (· ++ crlf) ++ crlf ++ t) =
      some (((l :: ls).flatMap (· ++ crlf) ++ crlf).length - 4) := by
  rw [find_blank_lines t _ _ hls, List.length_append]
  rfl

theorem four_le_head (hls : ∀ m ∈ l :: ls, Uncut m) : 4 ≤ ((l :: ls).flatMap (· ++ crlf) ++ crlf).length := by
  have h := find_le (find_blank_head hls [])
  rw [List.append_nil] at h
  exact Nat.le_trans (Nat.le_add_left 4 _) h

/-- **A head is found**, and the body when the declared length of it is there. -/
theorem parseRequest_head (ii : Stack) (hls : ∀ m ∈ l :: ls, Uncut m) {cl : Nat}
    (hcl : HttpRequest.contentLength { headers := l :: ls } = .ok cl) {head : Bytes}
    (hhead : head = (l :: ls).flatMap (· ++ crlf) ++ crlf) (t : Bytes) (b : Bool) :
    parseRequest ii (head ++ t) b =
      let r : HttpRequest := { headers := l :: ls, bodyOffset := head.length, bodySize := cl, body := some head.length }
      if cl ≤ t.length then
        if r.type = ascii "POST" ∧ b then do
          let p ← getPost ii r (head ++ t)
          .ok p.2
        else .ok (r, head ++ t)
      else .ok ({ headers := l :: ls, bodyOffset := head.length, bodySize := t.length }, head ++ t) := by
  have hlt := length_lines_lt (l :: ls)
  have h4 := four_le_head hls
  have hblank := find_blank_head hls t
  have hlines := headerLines_lines t (l :: ls) ((head ++ t).length + 1) 0 hls (by
    rw [List.length_append, hhead]
    omega)
  rw [← hhead] at hlt h4 hblank hlines
  have hoffset : 0 + ((l :: ls).flatMap (· ++ crlf)).length + 2 = head.length := by
    rw [hhead, List.length_append, Nat.zero_add]
    rfl
  have hsize : (head ++ t).length - head.length = t.length := by
    rw [List.length_append, Nat.add_sub_cancel_left]
  unfold parseRequest
  rw [if_pos (by rw [hblank]; rfl)]
  simp only [hlines, hcl, bind, Except.bind, Option.map_some, Option.getD_some, hoffset, hsize]

end Head

namespace Request

variable (R : Request)

theorem uncut : ∀ l ∈ R.lines, Uncut l := fun l hl => (R.isLine l hl).uncut

theorem find_blank_head (t : Bytes) : find blankLine (R.head ++ t) = some (R.head.length - 4) :=
  Http.find_blank_head R.uncut t

theorem four_le_head : 4 ≤ R.head.length := Http.four_le_head R.uncut

/-- **Part of a head holds no blank line.** -/
theorem find_blank_part {part : Bytes} (hp : part <+: R.head) (hlt : part.length < R.head.length) :
    find blankLine part = none := by
  have hf := R.find_blank_head []
  rw [List.append_nil] at hf
  refine find_none_of_prefix hf hp ?_
  have := R.four_le_head
  show part.length < R.head.length - 4 + 4
  omega

/-- The POST data that `get_post` finds with `following` behind the request. -/
def post (ii : Stack) (following : Bytes) : Except Fault (HttpRequest × Bytes) := do
  let q ← getPost ii R.parsed (R.bytes ++ following)
  .ok q.2

/-- What the callback is given: the object, and the string it points into. -/
def given (ii : Stack) (following : Bytes) : Except Fault (HttpRequest × Bytes) :=
  if R.method = ascii "POST" then R.post ii following else .ok (R.parsed, R.bytes ++ following)

/-- **A whole request is found**, whatever follows it. -/
theorem parseRequest_bytes (ii : Stack) (following : Bytes) (parsePostData : Bool) :
    parseRequest ii (R.bytes ++ following) parsePostData =
      if R.method = ascii "POST" ∧ parsePostData then R.post ii following
      else .ok (R.parsed, R.bytes ++ following) := by
  have hstr : R.bytes ++ following = R.head ++ (R.body ++ following) := by rw [bytes, List.append_assoc]
  have htype : R.parsed.type = R.method := Request.type rfl
  have hfits : R.body.length ≤ (R.body ++ following).length := by
    rw [List.length_append]
    exact Nat.le_add_right _ _
  unfold post
  rw [hstr, parseRequest_head ii R.uncut (Request.contentLength rfl) (show R.head = _ from rfl), if_pos hfits]
  by_cases hpost : R.method = ascii "POST" ∧ parsePostData = true
  · rw [if_pos hpost]
    exact if_pos ⟨htype.trans hpost.1, hpost.2⟩
  · rw [if_neg hpost]
    exact if_neg fun h => hpost ⟨htype.symm.trans h.1, h.2⟩

/-- **Part of the body is waited on.** -/
theorem parseRequest_part (ii : Stack) {part : Bytes} (hlt : part.length < R.body.length) :
    ∃ r, parseRequest ii (R.head ++ part) false = .ok (r, R.head ++ part) ∧ r.isComplete = false := by
  rw [parseRequest_head ii R.uncut (Request.contentLength rfl) (show R.head = _ from rfl), if_neg (Nat.not_le.2 hlt)]
  exact ⟨_, rfl, rfl⟩

/-! ## What follows a request -/

/-- What parsing leaves of a whole request and of what is behind it. -/
structure Given (following : Bytes) (q : HttpRequest × Bytes) : Prop where
  headers : q.1.headers = R.lines
  size : q.1.size = R.bytes.length
  complete : q.1.isComplete = true
  writes : Writes R.bytes.length (R.bytes ++ following) q.2

variable {R} {ii : Stack} {following : Bytes} {q : HttpRequest × Bytes}

theorem given_ok (h : R.given ii following = .ok q) : R.Given following q := by
  have hsize : R.parsed.size = R.bytes.length := by
    rw [bytes, List.length_append]
    rfl
  unfold given at h
  split at h
  · unfold post at h
    obtain ⟨p, hp, hr⟩ := bind_eq_ok.1 h
    cases hr
    obtain ⟨hs, hw⟩ := getPost_same hp
    refine ⟨hs.headers, ?_, ?_, ?_⟩
    · rw [HttpRequest.size, hs.bodyOffset, hs.bodySize]
      exact hsize
    · rw [HttpRequest.isComplete, hs.body]
      rfl
    · have hstop : R.parsed.body.getD 0 + R.parsed.bodySize = R.bytes.length := hsize
      rw [hstop] at hw
      exact hw
  · cases h
    exact ⟨rfl, hsize, rfl, .rfl' _ _⟩

theorem Given.length (g : R.Given following q) : q.2.length = R.bytes.length + following.length := by
  rw [g.writes.length, List.length_append]

theorem Given.behind (g : R.Given following q) :
    q.2.drop R.bytes.length = following ∨ q.2.drop R.bytes.length = following.set 0 0 := by
  have h := g.writes.behind
  rw [List.drop_left] at h
  exact h

/-- The request as the callback is given it when nothing is behind it. -/
def seen (ii : Stack) (R : Request) : Option (HttpRequest × Bytes) :=
  match R.given ii [] with
  | .ok q => some q
  | .error _ => none

/-- What is behind the request makes no difference to it, and is left alone. -/
def Clean (ii : Stack) (R : Request) (following : Bytes) : Prop :=
  ∃ q, R.given ii [] = .ok q ∧ R.given ii following = .ok (q.1, q.2 ++ following)

/-- **Only POST data can go wrong.** -/
theorem clean_of_not_post (hm : R.method ≠ ascii "POST") (following : Bytes) : R.Clean ii following := by
  refine ⟨(R.parsed, R.bytes), ?_, ?_⟩
  · rw [given, if_neg hm, List.append_nil]
  · rw [given, if_neg hm]

theorem seen_size (h : R.seen ii = some q) : q.1.size = R.bytes.length ∧ q.1.headers = R.lines := by
  unfold seen at h
  split at h
  · next q' hq =>
    cases h
    exact ⟨(given_ok hq).size, (given_ok hq).headers⟩
  · cases h

/-- A clean request is given as it is given alone. -/
theorem Clean.given (hc : R.Clean ii following) : ∃ r text, R.given ii following = .ok (r, text) ∧
    R.seen ii = some (r, text.take r.size) ∧ text.drop R.bytes.length = following := by
  obtain ⟨⟨r, text⟩, hq, hf⟩ := hc
  have hsize := (given_ok hq).size
  have hlen : text.length = R.bytes.length := (given_ok hq).length
  refine ⟨r, text ++ following, hf, ?_, List.drop_left' hlen⟩
  rw [hsize, List.take_left' hlen, seen, hq]

/-- **A request that is not clean** is given as another one, or what is behind it is overwritten. -/
theorem given_of_not_clean (hc : ¬ R.Clean ii following) (h : R.given ii following = .ok q) :
    R.seen ii ≠ some (q.1, q.2.take q.1.size) ∨
      ∃ x t, following = x :: t ∧ q.2.drop R.bytes.length = 0 :: t := by
  have g := given_ok h
  by_cases hseen : R.seen ii = some (q.1, q.2.take q.1.size)
  · right
    have hq : R.given ii [] = .ok (q.1, q.2.take R.bytes.length) := by
      unfold seen at hseen
      split at hseen
      · next q' hq' =>
        rw [hq', Option.some.inj hseen, g.size]
      · cases hseen
    have hne : q.2.drop R.bytes.length ≠ following := by
      intro e
      refine hc ⟨_, hq, ?_⟩
      show _ = Except.ok (q.1, q.2.take R.bytes.length ++ following)
      rw [h, ← e, List.take_append_drop]
    rcases g.behind with hb | hb
    · exact absurd hb hne
    · cases following with
      | nil => exact absurd hb hne
      | cons x t => exact ⟨x, t, rfl, hb⟩
  · exact Or.inl hseen

end Request

end Http
end Pico
