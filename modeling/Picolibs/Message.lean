import Picolibs.Request
/-!
# Message — any well-formed request, whole or in part (`parseRequest` without its POST data)

A `Message` asks less of its lines than a `Request` does: a request line is any line without a colon, and a header line
is a name without a colon, a colon and a blank, and a value; no CRLF cuts them.  However the body and what is behind it
look, the head ends at the first blank line and the body where the first `Content-Length` says.
-/
namespace Pico
namespace Http

open Text

/-- A header line, `Name: value`. -/
structure Entry where
  name : Bytes
  value : Bytes
  unnamed : 58 ∉ name
  valued : value ≠ []
  plain : find crlf (name ++ [58, 32] ++ value) = none

namespace Entry

def line (e : Entry) : Bytes := e.name ++ [58, 32] ++ e.value

theorem uncut (e : Entry) : Uncut e.line := ⟨by simp [line], e.plain⟩

end Entry

/-- The first header line of a name. -/
def entryOf (entries : List Entry) (name : Bytes) : Option Entry :=
  entries.find? (fun e => sameNoCase e.name name)

/-- A request whose body has the declared length, which a 32-bit `size_t` holds. -/
structure Message where
  requestLine : Bytes
  entries : List Entry
  body : Bytes
  nonempty : requestLine ≠ []
  unnamed : 58 ∉ requestLine
  plain : find crlf requestLine = none
  declared : match entryOf entries (ascii "Content-Length") with
    | some e => e.value.all isDigit = true ∧ decimal e.value = body.length
    | none => body = []
  fits : body.length < 2 ^ 32

namespace Message

def lines (M : Message) : List Bytes := M.requestLine :: M.entries.map Entry.line

/-- Everything up to the body. -/
def head (M : Message) : Bytes := M.lines.flatMap (· ++ crlf) ++ crlf

def bytes (M : Message) : Bytes := M.head ++ M.body

variable (M : Message)

theorem uncut : ∀ l ∈ M.lines, Uncut l := by
  intro l hl
  rcases List.mem_cons.1 hl with rfl | hl
  · exact ⟨M.nonempty, M.plain⟩
  · obtain ⟨e, -, rfl⟩ := List.mem_map.1 hl
    exact e.uncut

/-! ## The declared length -/

theorem headerNamed_requestLine (name : Bytes) : headerNamed name M.requestLine = false := by
  have hfind : find (ascii ":") M.requestLine = none := find_none_of_not_mem M.unnamed
  rw [headerNamed, hfind]

theorem headerIndex_lines (name : Bytes) :
    HttpRequest.headerIndex { headers := M.lines } name 0 =
      (M.entries.findIdx? (fun e => sameNoCase e.name name)).map (· + 1) := by
  have hline : (fun e : Entry => headerNamed name e.line) = fun e => sameNoCase e.name name :=
    funext fun e => headerNamed_line e.value name e.unnamed
  unfold HttpRequest.headerIndex
  rw [List.drop_zero, lines, List.findIdx?_cons, M.headerNamed_requestLine, List.findIdx?_map]
  simp only [Function.comp_def, hline, Bool.false_eq_true, if_false, Nat.add_zero, Option.map_id']

theorem digits_plain {ds : Bytes} (hd : ds.all isDigit = true) : Free [10, 13] ds ∧ 32 ∉ ds := by
  have hno (x : UInt8) (hx : isDigit x = false) : x ∉ ds := by
    intro hm
    rw [List.all_eq_true.1 hd x hm] at hx
    cases hx
  refine ⟨fun x hx => hno x ?_, hno 32 (by decide)⟩
  rcases List.mem_cons.1 hx with rfl | hx
  · decide
  · rw [List.mem_singleton.1 hx]
    decide

/-- **The declared length is the length of the body.** -/
theorem contentLength : HttpRequest.contentLength { headers := M.lines } = .ok M.body.length := by
  have hd := M.declared
  have hentry : entryOf M.entries (ascii "Content-Length") = _ := List.find?_eq_bind_findIdx?_getElem?
  unfold HttpRequest.contentLength
  rw [M.headerIndex_lines]
  cases hi : M.entries.findIdx? (fun e => sameNoCase e.name (ascii "Content-Length")) with
  | none =>
    rw [hi] at hentry
    rw [hentry] at hd
    simp only [Option.bind_none] at hd
    rw [hd]
    rfl
  | some i =>
    obtain ⟨hlt, -, -⟩ := List.findIdx?_eq_some_iff_getElem.1 hi
    have hget : M.entries[i]? = some M.entries[i] := List.getElem?_eq_getElem hlt
    rw [hi, Option.bind_some, hget] at hentry
    rw [hentry] at hd
    simp only at hd
    obtain ⟨hdigits, hlen⟩ := hd
    generalize M.entries[i] = e at hget hdigits hlen
    obtain ⟨hplain, hspace⟩ := digits_plain hdigits
    have hfirst : ∃ x t, e.value = x :: t ∧ x ≠ 32 := by
      obtain ⟨x, t, hx⟩ := List.exists_cons_of_ne_nil e.valued
      refine ⟨x, t, hx, fun h => hspace ?_⟩
      rw [hx, h]
      exact List.mem_cons_self
    have hline : M.lines[i + 1]? = some e.line := by
      rw [lines, List.getElem?_cons_succ, List.getElem?_map, hget]
      rfl
    have hpair : headerPair e.line = .ok (e.name, e.value) := headerPair_line e.unnamed hfirst hplain
    have hst := stoul_digits e.valued hdigits (by rw [hlen]; exact M.fits)
    simp only [Option.map_some, HttpRequest.headerAt, hline, hpair, bind, Except.bind, hst, Option.getD_some, hlen]

/-! ## Whole and in part -/

/-- What parsing is to find in a buffer that the message begins. -/
structure Found (rqst : Bytes) (r : HttpRequest) : Prop where
  complete : r.isComplete = true
  headers : r.headers = M.lines
  offset : ∃ k, find blankLine rqst = some k ∧ r.bodyOffset = k + 4
  body : r.body = some r.bodyOffset
  delimited : slice rqst r.bodyOffset (r.bodyOffset + r.bodySize) = M.body
  size : r.size = M.bytes.length

theorem head_eq : M.head = M.lines.flatMap (· ++ crlf) ++ crlf := rfl

theorem find_blank_bytes (t : Bytes) : find blankLine (M.head ++ t) = some (M.head.length - 4) :=
  find_blank_head M.uncut t

theorem parse (ii : Stack) (t : Bytes) :
    parseRequest ii (M.head ++ t) false =
      if M.body.length ≤ t.length then
        .ok ({ headers := M.lines, bodyOffset := M.head.length, bodySize := M.body.length, body := some M.head.length },
          M.head ++ t)
      else .ok ({ headers := M.lines, bodyOffset := M.head.length, bodySize := t.length }, M.head ++ t) := by
  rw [parseRequest_head ii M.uncut M.contentLength M.head_eq]
  simp only [Bool.false_eq_true, and_false, if_false]
  rfl

/-- **A message is found exactly**, whatever is behind it; a part of it that has the blank line but not all of the body
is waited on, and left as it is. -/
theorem parsed_exactly (ii : Stack) (further : Bytes) :
    (∃ r, parseRequest ii (M.bytes ++ further) false = .ok (r, M.bytes ++ further) ∧ M.Found (M.bytes ++ further) r) ∧
      ∀ part, part <+: M.bytes → (find blankLine part).isSome = true → part ≠ M.bytes →
        ∃ r, parseRequest ii part false = .ok (r, part) ∧ r.isComplete = false := by
  have h4 : 4 ≤ M.head.length := four_le_head M.uncut
  constructor
  · have hstr : M.bytes ++ further = M.head ++ (M.body ++ further) := by rw [bytes, List.append_assoc]
    have hfits : M.body.length ≤ (M.body ++ further).length := by
      rw [List.length_append]
      exact Nat.le_add_right _ _
    rw [hstr, M.parse, if_pos hfits]
    refine ⟨_, rfl, ⟨rfl, rfl, ⟨M.head.length - 4, M.find_blank_bytes _, ?_⟩, rfl, ?_, ?_⟩⟩
    · show M.head.length = M.head.length - 4 + 4
      omega
    · show slice (M.head ++ (M.body ++ further)) M.head.length (M.head.length + M.body.length) = M.body
      rw [slice, List.drop_left, Nat.add_sub_cancel_left, List.take_left]
    · rw [bytes, List.length_append]
      rfl
  · intro part hpart hblank hne
    -- a part with a blank line has the whole head, since no shorter one has it
    have hlen : M.head.length ≤ part.length := by
      refine Nat.not_lt.1 fun hlt => ?_
      have hfind := M.find_blank_bytes M.body
      have hnone : find blankLine part = none := find_none_of_prefix hfind hpart (by
        show part.length < M.head.length - 4 + 4
        omega)
      rw [hnone] at hblank
      cases hblank
    obtain ⟨t, rfl⟩ := List.prefix_of_prefix_length_le (List.prefix_append M.head M.body) hpart hlen
    have ht : t <+: M.body := (List.prefix_append_right_inj M.head).1 hpart
    have hshort : t.length < M.body.length := Nat.lt_of_le_of_ne ht.length_le fun h => hne (by
      rw [ht.eq_of_length h, bytes])
    rw [M.parse, if_neg (Nat.not_le.2 hshort)]
    exact ⟨_, rfl, rfl⟩

/-- A request with a body of four bytes that is a blank line. -/
def blankBody : Message where
  requestLine := ascii "POST / HTTP/1.1"
  entries := [⟨ascii "content-length", ascii "4", by decide, by decide, by decide⟩]
  body := blankLine
  nonempty := by decide
  unnamed := by decide
  plain := by decide
  declared := ⟨by decide, by decide⟩
  fits := by decide

theorem blankBody_waits : ∃ r,
    parseRequest (fun _ => 0) (blankBody.head ++ crlf) false = .ok (r, blankBody.head ++ crlf) ∧ r.isComplete = false :=
  (blankBody.parsed_exactly (fun _ => 0) []).2 _ ((List.prefix_append_right_inj blankBody.head).2 ⟨crlf, rfl⟩) (by decide)
    (by decide)

end Message

end Http
end Pico
