import Picolibs.Message
import Picolibs.Substitute
/-!
# LengthHeader — a response header with the length of the content (`httprequest.h`, `httprequest.cpp`)

`setHTMLLengthHeader` puts a header with `Content-Length` in the place of what stands before the blank line, once in a
`std::string` and once in a `TXT`; an `int` has the length, and the second prints it into a buffer of 128 characters.
The header has at most 117 of them, and both give the same message, which `parseRequest` reads (`length_header`).
-/
namespace Pico
namespace Http

open Text
open Txt (Owned Holds replaced strstr)

/-- A `size_t` as an `int`. -/
def toInt (n : Nat) : Int := (n : Int).bmod (2 ^ 32)

def lengthFront : Bytes := ascii "HTTP/1.1 200 OK\r\nContent-Type: text/html\r\nContent-Length: "

def lengthBack : Bytes := ascii "\r\nConnection: keep-alive\r\nCache-Control: no-store"

/-- `newHeader`. -/
def lengthHeader (cl : Int) : Bytes := lengthFront ++ ascii (toString cl) ++ lengthBack

/-! ## In a `std::string` -/

def replaceHeader (rqst newHeader : Bytes) : Bytes :=
  match find blankLine rqst with
  | none => rqst
  | some i1 => replaced rqst 0 i1 (newHeader.take ((find blankLine newHeader).getD newHeader.length))

def setHTMLLengthHeader (rqst : Bytes) : Bytes :=
  match find blankLine rqst with
  | none => rqst
  | some i1 => replaceHeader rqst (lengthHeader (toInt (rqst.length - i1 - 4)))

/-! ## In a `TXT` -/

def replaceHeaderTxt (rqst : Txt) (newHeader : Bytes) : Except Fault Txt := do
  match ← strstr rqst.buffer blankLine with
  | none => .ok rqst
  | some i1 => rqst.replace 0 i1 newHeader

/-- `snprintf` leaves room for the NUL. -/
def setHTMLLengthHeaderTxt (rqst : Txt) : Except Fault Txt := do
  match ← strstr rqst.buffer blankLine with
  | none => .ok rqst
  | some i1 => replaceHeaderTxt rqst ((lengthHeader (toInt (rqst.datasize - i1 - 4))).take 127)

/-! ## The digits of a length -/

theorem toInt_eq {n : Nat} (h : n < 2 ^ 31) : toInt n = n := Int.bmod_eq_of_le (by omega) (by omega)

/-- What `to_string` and `%d` make of a length. -/
def digits (n : Nat) : Bytes := ascii (toString (n : Int))

theorem digits_eq (n : Nat) : digits n = (Nat.toDigits 10 n).map fun c => c.toNat.toUInt8 :=
  congrArg (List.map _) Nat.toList_repr

theorem toNat_digit {c : Char} (h : c.isDigit = true) :
    c.toNat.toUInt8.toNat = c.toNat ∧ 48 ≤ c.toNat ∧ c.toNat ≤ 57 := by
  rw [Char.isDigit, Bool.and_eq_true, decide_eq_true_eq, decide_eq_true_eq] at h
  have h1 : 48 ≤ c.toNat := h.1
  have h2 : c.toNat ≤ 57 := h.2
  refine ⟨?_, h1, h2⟩
  rw [Nat.toUInt8, UInt8.toNat_ofNat']
  omega

theorem digits_isDigit (n : Nat) : (digits n).all isDigit = true := by
  rw [digits_eq, List.all_map, List.all_eq_true]
  intro c hc
  obtain ⟨hto, h1, h2⟩ := toNat_digit (Nat.isDigit_of_mem_toDigits (by decide) (by decide) hc)
  simp only [Function.comp_apply, isDigit, Bool.and_eq_true, decide_eq_true_eq, UInt8.le_iff_toNat_le, hto]
  exact ⟨h1, h2⟩

theorem decimal_map : ∀ (cs : List Char) (init : Nat), (∀ c ∈ cs, c.isDigit = true) →
    (cs.map fun c => c.toNat.toUInt8).foldl (fun n c => n * 10 + (c.toNat - 48)) init = Nat.ofDigitChars 10 cs init
  | [], _, _ => rfl
  | c :: cs, init, h => by
    rw [List.map_cons, List.foldl_cons, (toNat_digit (h c List.mem_cons_self)).1, Nat.ofDigitChars_cons, Nat.mul_comm]
    exact decimal_map cs _ fun d hd => h d (List.mem_cons_of_mem c hd)

/-- **A length is read back from its digits.** -/
theorem decimal_digits (n : Nat) : decimal (digits n) = n := by
  rw [digits_eq, decimal, decimal_map _ 0 fun c hc => Nat.isDigit_of_mem_toDigits (by decide) (by decide) hc,
    Nat.ofDigitChars_ten_toDigits]

theorem digits_ne_nil (n : Nat) : digits n ≠ [] := by
  rw [digits_eq, ne_eq, List.map_eq_nil_iff]
  exact Nat.toDigits_ne_nil

theorem length_digits {n : Nat} (h : n < 2 ^ 31) : (digits n).length ≤ 10 := by
  rw [digits_eq, List.length_map, Nat.length_toDigits_le_iff (by decide) (by decide)]
  omega

/-! ## The message -/

theorem length_plain (n : Nat) : find crlf (ascii "Content-Length" ++ [58, 32] ++ digits n) = none := by
  refine find_none_of_not_mem ?_
  have hd := (Message.digits_plain (digits_isDigit n)).1 13 (by decide)
  simp only [List.mem_append, not_or]
  exact ⟨⟨by decide, by decide⟩, hd⟩

/-- The response with its new header. -/
def lengthMessage (body : Bytes) (h : body.length < 2 ^ 31) : Message where
  requestLine := ascii "HTTP/1.1 200 OK"
  entries := [⟨ascii "Content-Type", ascii "text/html", by decide, by decide, by decide⟩,
    ⟨ascii "Content-Length", digits body.length, by decide, digits_ne_nil _, length_plain _⟩,
    ⟨ascii "Connection", ascii "keep-alive", by decide, by decide, by decide⟩,
    ⟨ascii "Cache-Control", ascii "no-store", by decide, by decide, by decide⟩]
  body := body
  nonempty := by decide
  unnamed := by decide
  plain := by decide
  declared := ⟨digits_isDigit _, decimal_digits _⟩
  fits := by omega

/-- The header and the blank line are the head of that response. -/
theorem lengthHeader_head (body : Bytes) (h : body.length < 2 ^ 31) :
    lengthHeader body.length ++ blankLine = (lengthMessage body h).head := by
  have hfront : lengthFront = ascii "HTTP/1.1 200 OK" ++ crlf ++
      (ascii "Content-Type" ++ [58, 32] ++ ascii "text/html") ++ crlf ++ (ascii "Content-Length" ++ [58, 32]) := by
    decide
  have hback : lengthBack ++ blankLine = crlf ++ (ascii "Connection" ++ [58, 32] ++ ascii "keep-alive") ++ crlf ++
      (ascii "Cache-Control" ++ [58, 32] ++ ascii "no-store") ++ crlf ++ crlf := by decide
  rw [lengthHeader, List.append_assoc, hback, hfront, Message.head_eq]
  simp only [Message.lines, lengthMessage, List.map_cons, List.map_nil, List.flatMap_cons, List.flatMap_nil, Entry.line,
    List.append_assoc, List.nil_append, digits]

theorem length_lengthHeader {n : Nat} (h : n < 2 ^ 31) : (lengthHeader n).length ≤ 127 := by
  have hd := length_digits h
  rw [digits] at hd
  have hfront : lengthFront.length = 58 := by decide
  have hback : lengthBack.length = 49 := by decide
  rw [lengthHeader, List.length_append, List.length_append, hfront, hback]
  omega

theorem nul_not_mem_lengthHeader (cl : Int) : 0 ∉ lengthHeader cl := by
  rw [lengthHeader, List.mem_append, List.mem_append, not_or, not_or]
  exact ⟨⟨by decide, Txt.nul_not_mem_ascii cl⟩, by decide⟩

theorem find_lengthHeader {body : Bytes} (h : body.length < 2 ^ 31) :
    find blankLine (lengthHeader body.length) = none := by
  have hhead := lengthHeader_head body h
  have hlen := congrArg List.length hhead
  rw [List.length_append] at hlen
  have h4 : blankLine.length = 4 := rfl
  have hfind := (lengthMessage body h).find_blank_bytes []
  rw [List.append_nil] at hfind
  refine find_none_of_prefix hfind ⟨blankLine, hhead⟩ ?_
  omega

/-! ## Both versions -/

/-- What there is before and behind a blank line. -/
theorem setHTMLLengthHeader_eq {head body : Bytes}
    (hfind : find blankLine (head ++ (blankLine ++ body)) = some head.length)
    (h : body.length < 2 ^ 31) :
    setHTMLLengthHeader (head ++ (blankLine ++ body)) = lengthHeader body.length ++ (blankLine ++ body) := by
  have hcl : (head ++ (blankLine ++ body)).length - head.length - 4 = body.length := by
    have h4 : blankLine.length = 4 := rfl
    rw [List.length_append, List.length_append]
    omega
  have hrep := Txt.replaced_eq [] head (blankLine ++ body) (lengthHeader body.length)
  rw [setHTMLLengthHeader, hfind]
  simp only [hcl, toInt_eq h]
  rw [replaceHeader, hfind]
  simp only [find_lengthHeader h, Option.getD_none, List.take_length]
  exact hrep

theorem strstr_blank {t : Txt} {head body : Bytes} (ht : Holds t (head ++ (blankLine ++ body)))
    (hfind : find blankLine (head ++ (blankLine ++ body)) = some head.length) (hnul : 0 ∉ head) :
    strstr t.buffer blankLine = .ok (some head.length) := by
  have hcstr : cstr (head ++ (blankLine ++ body)) = head ++ (blankLine ++ cstr body) := by
    rw [cstr, List.takeWhile_append_of_pos, List.takeWhile_append_of_pos]
    · rfl
    · exact List.all_eq_true.1 rfl
    · exact fun c hc => decide_eq_true fun h0 => hnul (h0 ▸ hc)
  rw [Txt.strstr_holds ht, show cstr blankLine = blankLine by decide, Txt.found, hfind, Option.filter_some, if_pos]
  rw [hcstr, decide_eq_true_eq, List.length_append, List.length_append]
  omega

theorem setHTMLLengthHeaderTxt_holds {t : Txt} {head body : Bytes} (ht : Holds t (head ++ (blankLine ++ body)))
    (hfind : find blankLine (head ++ (blankLine ++ body)) = some head.length) (hnul : 0 ∉ head)
    (h : body.length < 2 ^ 31) :
    ∃ t', setHTMLLengthHeaderTxt t = .ok t' ∧ Holds t' (lengthHeader body.length ++ (blankLine ++ body)) := by
  have hcl : t.datasize - head.length - 4 = body.length := by
    have h4 : blankLine.length = 4 := rfl
    rw [Txt.datasize, ht.endptr, List.length_append, List.length_append]
    omega
  have hstr := strstr_blank ht hfind hnul
  obtain ⟨t', hr, h'⟩ := Txt.replace_holds (a := []) (m := head) ht (lengthHeader body.length)
  rw [cstr_eq_self_iff.2 (nul_not_mem_lengthHeader _)] at h'
  refine ⟨t', ?_, h'⟩
  rw [setHTMLLengthHeaderTxt, hstr, TxtLoops.ok_bind]
  simp only [hcl, toInt_eq h, List.take_of_length_le (length_lengthHeader h)]
  rw [replaceHeaderTxt, hstr, TxtLoops.ok_bind]
  exact hr

/-- What a reader makes of the new header: where it ends, the length it says, and the parsed request. -/
theorem lengthMessage_read (body : Bytes) (h : body.length < 2 ^ 31) :
    (∃ j, find blankLine ((lengthMessage body h).head ++ body) = some j ∧
      ((lengthMessage body h).head ++ body).drop (j + 4) = body) ∧
    HttpRequest.contentLength { headers := linesOf ((lengthMessage body h).head ++ body) } = .ok body.length ∧
    ∀ ii, ∃ r, parseRequest ii ((lengthMessage body h).head ++ body) false =
        .ok (r, (lengthMessage body h).head ++ body) ∧ r.isComplete = true ∧
      slice ((lengthMessage body h).head ++ body) r.bodyOffset (r.bodyOffset + r.bodySize) = body := by
  refine ⟨?_, ?_, ?_⟩
  · have h4 : 4 ≤ (lengthMessage body h).head.length := four_le_head (lengthMessage body h).uncut
    exact ⟨_, (lengthMessage body h).find_blank_bytes body, List.drop_left' (by omega)⟩
  · have hlt := length_lines_lt (lengthMessage body h).lines
    rw [← Message.head_eq] at hlt
    rw [linesOf, Message.head_eq, headerLines_lines body _ _ 0 (lengthMessage body h).uncut
      (by rw [← Message.head_eq, List.length_append]; omega)]
    exact (lengthMessage body h).contentLength
  · intro ii
    obtain ⟨⟨r, hr, hf⟩, -⟩ := (lengthMessage body h).parsed_exactly ii []
    rw [List.append_nil] at hr hf
    exact ⟨r, hr, hf.complete, hf.delimited⟩

/-- **A message gets a header with the length of its content**, the same in a `TXT` and in a `std::string`: what is
behind the blank line stays, the header says how long it is, and parsing finds it; nothing changes where there is no
blank line. -/
theorem length_header {t : Txt} (h : t.Owned) (hlen : t.text.length < 2 ^ 31) :
    (find blankLine t.text = none → setHTMLLengthHeader t.text = t.text ∧ setHTMLLengthHeaderTxt t = .ok t) ∧
    ∀ k, find blankLine t.text = some k → 0 ∉ t.text.take k →
      (∃ t', setHTMLLengthHeaderTxt t = .ok t' ∧ t'.Owned ∧ t'.text = setHTMLLengthHeader t.text) ∧
      (∃ j, find blankLine (setHTMLLengthHeader t.text) = some j ∧
        (setHTMLLengthHeader t.text).drop (j + 4) = t.text.drop (k + 4)) ∧
      HttpRequest.contentLength { headers := linesOf (setHTMLLengthHeader t.text) } = .ok (t.text.drop (k + 4)).length ∧
      ∀ ii, ∃ r, parseRequest ii (setHTMLLengthHeader t.text) false = .ok (r, setHTMLLengthHeader t.text) ∧
        r.isComplete = true ∧
        slice (setHTMLLengthHeader t.text) r.bodyOffset (r.bodyOffset + r.bodySize) = t.text.drop (k + 4) := by
  have hholds := h.holds
  constructor
  · intro hnone
    constructor
    · rw [setHTMLLengthHeader, hnone]
    · have hfound : Txt.found t.text (cstr blankLine) = none := by
        rw [show cstr blankLine = blankLine by decide, Txt.found, hnone]
        rfl
      rw [setHTMLLengthHeaderTxt, Txt.strstr_holds hholds, hfound, TxtLoops.ok_bind]
  · intro k hfind hnul
    obtain ⟨head, body, htext, rfl⟩ := find_split hfind
    rw [List.append_assoc] at htext
    have hbody : t.text.drop (head.length + 4) = body := by
      rw [htext, ← List.append_assoc]
      exact List.drop_left' (by rw [List.length_append]; rfl)
    rw [htext] at hholds hfind hlen
    have hb : body.length < 2 ^ 31 := by
      rw [List.length_append, List.length_append] at hlen
      omega
    rw [htext, List.take_left] at hnul
    have hset := setHTMLLengthHeader_eq hfind hb
    rw [← htext, ← List.append_assoc, lengthHeader_head body hb] at hset
    rw [hbody]
    obtain ⟨t', ht', h'⟩ := setHTMLLengthHeaderTxt_holds hholds hfind hnul hb
    rw [← List.append_assoc, lengthHeader_head body hb] at h'
    rw [hset]
    exact ⟨⟨t', ht', h'.owned, h'.text⟩, lengthMessage_read body hb⟩

/-- A message with a header of one line and `hello`. -/
def helloPage : Txt := { buffer := ascii "A: b\r\n\r\nhello" ++ [0], bufsiz := 14, endptr := 13 }

theorem length_header_hello :
    HttpRequest.contentLength { headers := linesOf (setHTMLLengthHeader helloPage.text) } = .ok 5 :=
  ((length_header (t := helloPage) ⟨rfl, by decide, by decide⟩ (by decide)).2 4 (by decide) (by decide)).2.2.1

end Http
end Pico
