import Picolibs.LengthHeader
import Picolibs.Lookup
import Picolibs.Segments
import Picolibs.SendBuf
import Picolibs.WebFiles
/-!
# WebsocketJs — the script with another path (`send_websocket_js` in `web_files_websocket.cpp`)

The compiled `websocket.js` is copied into a `TXT`.  One loop makes every `/ws/` the marker `<ws>`, another one makes
every `<ws>` the path, and the length of the new body is written into the header.  The path stands in quotes in the
script, so that nothing that is put there becomes part of another `/ws/` or `<ws>`; but the second loop never leaves
when the path itself has a `<ws>`.  `sendWebsocketJs_meets` says exactly when the call returns and sends the script it
should.
-/
namespace Pico

/-- `path`; without a `?` it is the whole URL. -/
def Http.HttpRequest.path (r : Http.HttpRequest) : Bytes :=
  r.url.take ((Text.find (ascii "?") r.url).getD r.url.length)

namespace WebsocketJs

open Text
open Http (HttpRequest toInt digits Uncut)
open Txt (Holds strstr)
open TxtLoops (add32 sub32 add32_eq sub32_eq)
open Segments
open WebFiles (header Printable)

def scriptName : Bytes := ascii "websocket.js"

def slot : Bytes := ascii "/ws/"

def marker : Bytes := ascii "<ws>"

/-- `files_`. -/
abbrev Files := List (Bytes × Bytes)

/-- `get_file`: the data, and the length, which is a `uint16_t`. -/
def getFile (files : Files) (name : Bytes) : Option (Bytes × Nat) :=
  (files.lookup name).map fun data => (data, data.length % 65536)

/-- One pass of `while (js.substitute(placeholder, replacement))`. -/
def pass (placeholder replacement : Bytes) (js : Txt) : Loop.Pass Txt (Except Fault Txt) :=
  match js.substitute placeholder replacement with
  | .ok (true, js) => .again js
  | .ok (false, js) => .leave (.ok js)
  | .error e => .leave (.error e)

/-- The loop, with a budget of passes. -/
def substituteAll (n : Nat) (placeholder replacement : Bytes) (js : Txt) : Except Fault Txt :=
  (Loop.run (pass placeholder replacement) n js).getD (.error .hang)

def npos : Nat := 2 ^ 32 - 1

/-- The length of what is behind the blank line, in place of what follows `Content-Length:`. -/
def setLength (js : Txt) : Except Fault Txt := do
  let ii := add32 ((← TxtLoops.find js (ascii "Content-Length:")).getD npos) 16
  match ← strstr (js.data.drop ii) crlf with
  | none => .error .outOfBounds
  | some ll =>
    let jj := add32 ((← TxtLoops.find js blankLine).getD npos) 4
    js.replace ii ll ((ascii (toString (toInt (sub32 js.datasize jj)))).take 15)

/-- The `TXT` that is sent. -/
def modified (n : Nat) (data : Bytes) (datalen : Nat) (wspath : Bytes) : Except Fault Txt := do
  let js ← Txt.ofData data datalen (datalen + 2 * wspath.length)
  let js ← substituteAll n slot marker js
  let js ← substituteAll n marker wspath js
  setLength js

/-- What `send_data` is given. -/
structure Sent where
  data : Bytes
  allocate : Allocation
  deriving DecidableEq, Repr

structure Result where
  ret : Bool
  close : Bool
  sent : Option Sent
  deriving DecidableEq, Repr

/-- `ret` and `close` after `send_data`. -/
def queued (sendData : Sent → Bool) (m : Sent) : Result :=
  { ret := sendData m, close := !sendData m, sent := some m }

/-- `send_websocket_js`; `sendData` is the answer of `web->send_data`, whose length is a `u16_t`. -/
def sendWebsocketJs (n : Nat) (files : Files) (sendData : Sent → Bool) (rqst : HttpRequest) (close : Bool)
    (wspath : Bytes) : Except Fault Result := do
  let url := rqst.path
  let name ← substr url (some 1) none
  if name = scriptName then
    match if 0 < url.length then getFile files name else none with
    | none => .ok { ret := false, close := close, sent := none }
    | some (data, datalen) =>
      if wspath.isEmpty || wspath == slot then
        .ok (queued sendData { data := data.take datalen, allocate := .stat })
      else
        let js ← modified n data datalen wspath
        .ok (queued sendData { data := js.data.take (js.datasize % 65536), allocate := .preall })
  else .ok { ret := false, close := close, sent := none }

/-! ## The compiled script -/

/-- A response with a `websocket.js`: what its header says, and the script, where the path stands in quotes before
every part but the first. -/
structure Script where
  mime : Bytes
  timestamp : Bytes
  first : Bytes
  parts : List Bytes
  mimeLine : Printable mime ∧ 119 ∉ mime ∧ 76 ∉ mime
  timeLine : Printable timestamp ∧ 119 ∉ timestamp
  placed : parts ≠ []
  free : ∀ p ∈ first :: parts, 0 ∉ p ∧ find slot p = none ∧ find marker p = none
  fits : (header mime timestamp (first ++ quoted 39 slot parts).length ++
    (first ++ quoted 39 slot parts)).length < 65536

namespace Script

variable (S : Script)

/-- The script with something in place of the path. -/
def filled (m : Bytes) : Bytes := S.first ++ quoted 39 m S.parts

/-- A body behind its header. -/
def response (body : Bytes) : Bytes := header S.mime S.timestamp body.length ++ body

/-- What is compiled into the program. -/
def compiled : Bytes := S.response (S.filled slot)

/-- The response with every `/ws/` of the body replaced. -/
def expected (wspath : Bytes) : Bytes := S.response (replaceEvery slot wspath 0 (S.filled slot))

end Script

/-- The call returns, and a modified script that it sends is the one it should be. -/
def Meets (S : Script) (files : Files) (sendData : Sent → Bool) (rqst : HttpRequest) (close : Bool)
    (wspath : Bytes) : Prop :=
  ∃ n res, sendWebsocketJs n files sendData rqst close wspath = .ok res ∧
    ∀ m, res.sent = some m → m.allocate = .preall → m.data = S.expected wspath

/-- The paths for which the script is right. -/
def Script.Serves (S : Script) (wspath : Bytes) : Prop :=
  wspath = [] ∨ wspath = slot ∨ (0 ∉ wspath ∧ ¬ marker <:+: wspath ∧ (S.expected wspath).length < 65536)

/-! ## The loops -/

variable {t : Txt} {pat : Bytes}

theorem strstr_nulFree {x : Bytes} (ht : Holds t x) (hx : 0 ∉ x) (hpat : 0 ∉ pat) :
    strstr t.buffer pat = .ok (find pat x) := by
  rw [Txt.strstr_holds ht, cstr_eq_self_iff.2 hpat, Substitute.found_eq hx]

theorem pass_leave {x : Bytes} (ht : Holds t x) (hx : 0 ∉ x) (hpat : 0 ∉ pat) (hfind : find pat x = none)
    (r : Bytes) : pass pat r t = .leave (.ok t) := by
  rw [pass, Txt.substitute, strstr_nulFree ht hx hpat, hfind]
  rfl

theorem pass_again {a b : Bytes} (ht : Holds t (a ++ (pat ++ b))) (hx : 0 ∉ a ++ (pat ++ b))
    (hfind : find pat (a ++ (pat ++ b)) = some a.length) (r : Bytes) :
    ∃ t', pass pat r t = .again t' ∧ Holds t' (a ++ (cstr r ++ b)) := by
  have hpat : 0 ∉ pat := fun h => hx (List.mem_append_right a (List.mem_append_left b h))
  obtain ⟨t', hr, h'⟩ := Txt.replace_holds ht r
  refine ⟨t', ?_, h'⟩
  rw [pass, Txt.substitute, strstr_nulFree ht hx hpat, hfind, TxtLoops.ok_bind]
  simp only [cstr_eq_self_iff.2 hpat, hr, TxtLoops.ok_bind]

/-- **The loop fills every place**, when what is put there has no occurrence of its own. -/
theorem run_quoted {q : UInt8} {r : Bytes} (hq0 : q ≠ 0) (hq : q ∉ pat) (hpat : 0 ∉ pat)
    (hr : find pat (cstr r) = none) : ∀ {parts : List Bytes} {pre : Bytes} {t : Txt},
    Holds t (pre ++ quoted q pat parts) → 0 ∉ pre → find pat pre = none → (∀ p ∈ parts, 0 ∉ p ∧ find pat p = none) →
    ∃ t', Loop.run (pass pat r) (parts.length + 1) t = some (.ok t') ∧ Holds t' (pre ++ quoted q (cstr r) parts)
  | [], pre, t, ht, h0, hpre, _ => by
    simp only [quoted, List.flatMap_nil, List.append_nil] at ht ⊢
    exact ⟨t, Loop.run_leave (pass_leave ht h0 hpat hpre r) 0, ht⟩
  | p :: parts, pre, t, ht, h0, hpre, hparts => by
    obtain ⟨hp0, hp⟩ := hparts p List.mem_cons_self
    have hrest : ∀ p' ∈ parts, 0 ∉ p' ∧ find pat p' = none := fun p' hp' => hparts p' (List.mem_cons_of_mem p hp')
    have hnul : 0 ∉ pre ++ quoted q pat (p :: parts) := by
      rw [List.mem_append, not_or]
      exact ⟨h0, not_mem_quoted hq0.symm hpat fun p' hp' => (hparts p' hp').1⟩
    have hfind := find_quoted hq hpre p parts
    have hsplit : ∀ m, pre ++ quoted q m (p :: parts) = pre ++ [q] ++ (m ++ q :: (p ++ quoted q m parts)) := fun m => by
      rw [quoted_cons, List.append_assoc]
      rfl
    rw [hsplit] at ht hnul hfind
    obtain ⟨t1, hpass, h1⟩ := pass_again ht hnul (by rw [hfind, List.length_append]; rfl) r
    have hdone : pre ++ [q] ++ (cstr r ++ q :: (p ++ quoted q pat parts)) =
        pre ++ q :: (cstr r ++ q :: p) ++ quoted q pat parts := by simp
    have hdone0 : 0 ∉ pre ++ q :: (cstr r ++ q :: p) := by
      simp only [List.mem_append, List.mem_cons, not_or]
      exact ⟨h0, hq0.symm, nul_not_mem_cstr r, hq0.symm, hp0⟩
    rw [hdone] at h1
    obtain ⟨t', hrun, h'⟩ := run_quoted hq0 hq hpat hr h1 hdone0 (free_sep hq hpre (free_sep hq hr hp)) hrest
    refine ⟨t', ?_, ?_⟩
    · rw [List.length_cons, Loop.run_again hpass]
      exact hrun
    · rw [hsplit]
      simpa using h'

/-- **The loop never leaves** when what is put in has another occurrence. -/
theorem run_hangs {r x : Bytes} (hr : pat <:+: cstr r) (ht : Holds t x) (hx : 0 ∉ x) (hmem : pat <:+: x) :
    Loop.Hangs (pass pat r) t := by
  refine Loop.hangs_of_inv (I := fun t => ∃ x, Holds t x ∧ 0 ∉ x ∧ pat <:+: x) ?_ ⟨x, ht, hx, hmem⟩
  rintro s ⟨y, hs, hy, hin⟩
  cases hf : find pat y with
  | none => exact absurd hin (find_eq_none_iff.1 hf)
  | some k =>
    obtain ⟨a, b, rfl, rfl⟩ := find_split hf
    rw [List.append_assoc] at hs hy hf
    obtain ⟨s', hpass, h'⟩ := pass_again hs hy hf r
    refine ⟨s', hpass, _, h', ?_, ?_⟩
    · simp only [List.mem_append, not_or] at hy ⊢
      exact ⟨hy.1, nul_not_mem_cstr r, hy.2.2⟩
    · obtain ⟨u, v, huv⟩ := hr
      exact ⟨a ++ u, v ++ b, by rw [← huv]; simp⟩

theorem substituteAll_mono {n m : Nat} {r : Bytes} {t' : Txt} (hnm : n ≤ m) (h : substituteAll n pat r t = .ok t') :
    substituteAll m pat r t = .ok t' := by
  unfold substituteAll at h ⊢
  cases hrun : Loop.run (pass pat r) n t with
  | none =>
    rw [hrun] at h
    cases h
  | some res =>
    rw [hrun] at h
    rw [Loop.run_mono hnm hrun]
    exact h

/-! ## The header -/

namespace Script

variable (S : Script)

/-- The lines of the header before the one of the length, and those behind it. -/
def linesBefore : List Bytes := [ascii "HTTP/1.1 200 OK", ascii "Content-Type: " ++ S.mime]

def linesBehind : List Bytes :=
  [ascii "Connection: keep-alive", ascii "Cache-Control: max-age=86400", ascii "Last-Modified: " ++ S.timestamp]

/-- The header up to the name of the length. -/
def front : Bytes := S.linesBefore.flatMap (· ++ crlf)

/-- The header behind the length. -/
def back : Bytes := crlf ++ (S.linesBehind.flatMap (· ++ crlf) ++ crlf)

theorem header_eq (n : Nat) :
    header S.mime S.timestamp n = S.front ++ (ascii "Content-Length: " ++ (digits n ++ S.back)) := by
  have h1 : ascii "HTTP/1.1 200 OK\r\nContent-Type: " =
      ascii "HTTP/1.1 200 OK" ++ (crlf ++ ascii "Content-Type: ") := by decide +kernel
  have h2 : ascii "\r\nContent-Length: " = crlf ++ ascii "Content-Length: " := by decide +kernel
  have h3 : ascii "\r\nConnection: keep-alive\r\n" = crlf ++ (ascii "Connection: keep-alive" ++ crlf) := by
    decide +kernel
  have h4 : ascii "Cache-Control: max-age=86400\r\nLast-Modified: " =
      ascii "Cache-Control: max-age=86400" ++ (crlf ++ ascii "Last-Modified: ") := by decide +kernel
  have h5 : ascii "\r\n\r\n" = crlf ++ crlf := by decide +kernel
  rw [header, front, back, linesBefore, linesBehind, h1, h2, h3, h4, h5]
  simp only [List.flatMap_cons, List.flatMap_nil, List.append_assoc, List.nil_append]

/-- The lines after the first. -/
def furtherLines (n : Nat) : List Bytes :=
  (ascii "Content-Type: " ++ S.mime) :: (ascii "Content-Length: " ++ digits n) :: S.linesBehind

theorem header_lines (n : Nat) :
    header S.mime S.timestamp n = (ascii "HTTP/1.1 200 OK" :: S.furtherLines n).flatMap (· ++ crlf) ++ crlf := by
  rw [header_eq, front, back, linesBefore, furtherLines]
  simp only [List.flatMap_cons, List.flatMap_nil, List.append_assoc, List.nil_append]

theorem uncut_printable {s : Bytes} (hne : s ≠ []) (h : Printable s) : Uncut s :=
  ⟨hne, find_none_of_not_mem fun h13 => absurd (h 13 h13).1 (by decide)⟩

theorem printable_append {a b : Bytes} (ha : Printable a) (hb : Printable b) : Printable (a ++ b) := fun c hc =>
  (List.mem_append.1 hc).elim (ha c) (hb c)

theorem uncut_lines (n : Nat) : ∀ l ∈ ascii "HTTP/1.1 200 OK" :: S.furtherLines n, Uncut l := by
  have hm := S.mimeLine.1
  have ht := S.timeLine.1
  simp only [furtherLines, linesBehind, List.forall_mem_cons, List.not_mem_nil, false_imp_iff, implies_true, and_true]
  refine ⟨uncut_printable (by decide) (by decide), uncut_printable ?_ (printable_append (by decide) hm),
    uncut_printable ?_ (printable_append (by decide) (WebFiles.printable_digits n)),
    uncut_printable (by decide) (by decide), uncut_printable (by decide) (by decide),
    uncut_printable ?_ (printable_append (by decide) ht)⟩
  · exact List.append_ne_nil_of_left_ne_nil (by decide) _
  · exact List.append_ne_nil_of_left_ne_nil (by decide) _
  · exact List.append_ne_nil_of_left_ne_nil (by decide) _

theorem find_blank_response (b : Bytes) (n : Nat) :
    find blankLine (header S.mime S.timestamp n ++ b) = some ((header S.mime S.timestamp n).length - 4) := by
  rw [header_lines]
  exact Http.find_blank_head (S.uncut_lines n) b

theorem four_le_header (n : Nat) : 4 ≤ (header S.mime S.timestamp n).length := by
  rw [header_lines]
  exact Http.four_le_head (S.uncut_lines n)

/-- The first `Content-Length:` is the name of the header line. -/
theorem find_contentLength (n : Nat) (b : Bytes) :
    find (ascii "Content-Length:") (header S.mime S.timestamp n ++ b) = some S.front.length := by
  have hL : (76 : UInt8) ∈ ascii "Content-Length:" := by decide
  have hlines : ∀ l ∈ S.linesBefore, find (ascii "Content-Length:") (l ++ [13]) = none := by
    intro l hl
    refine find_none_of_lacks hL ?_
    have hmime := S.mimeLine.2.2
    simp only [linesBefore, List.mem_cons, List.not_mem_nil, or_false] at hl
    rcases hl with rfl | rfl
    · decide
    · simp only [List.mem_append, not_or]
      exact ⟨⟨by decide, hmime⟩, by decide⟩
  have hname : ascii "Content-Length: " = ascii "Content-Length:" ++ [32] := by decide
  have hhere : find (ascii "Content-Length:") (ascii "Content-Length: " ++ (digits n ++ S.back) ++ b) = some 0 := by
    rw [hname, List.append_assoc, List.append_assoc]
    exact find_of_prefix (List.prefix_append _ _)
  rw [header_eq, List.append_assoc, front, find_lines (by decide) _ hlines, hhere, Option.map_some, Nat.zero_add]

theorem nul_not_mem_header (n : Nat) : 0 ∉ header S.mime S.timestamp n := by
  have hplain := WebFiles.header_plain S.mimeLine.1 S.timeLine.1 n
  intro h0
  have h := List.all_eq_true.1 hplain 0 h0
  cases h

/-- Neither `/ws/` nor `<ws>` is in the header, or goes on from it. -/
theorem header_free (n : Nat) {pat : Bytes} (hw : 119 ∈ pat) (hq : 10 ∉ pat) {x : Bytes} (hx : find pat x = none) :
    find pat (header S.mime S.timestamp n ++ x) = none := by
  have hlacks : 119 ∉ header S.mime S.timestamp n := by
    have hd : 119 ∉ digits n := fun h =>
      absurd (List.all_eq_true.1 (Http.digits_isDigit n) 119 h) (by decide)
    simp only [header, List.mem_append, not_or]
    exact ⟨⟨⟨⟨⟨⟨⟨by decide, S.mimeLine.2.1⟩, by decide⟩, hd⟩, by decide⟩, by decide⟩, S.timeLine.2⟩, by decide⟩
  have hsplit : header S.mime S.timestamp n =
      (ascii "HTTP/1.1 200 OK" :: S.furtherLines n).flatMap (· ++ crlf) ++ [13] ++ [10] := by
    rw [header_lines, List.append_assoc]
    rfl
  rw [hsplit] at hlacks ⊢
  rw [List.append_assoc]
  exact free_sep hq (find_none_of_lacks hw fun h119 => hlacks (List.mem_append_left _ h119)) hx

end Script

theorem setLength_eq {i ll j : Nat} (hi : strstr t.buffer (ascii "Content-Length:") = .ok (some i))
    (hll : strstr (t.data.drop (add32 i 16)) crlf = .ok (some ll)) (hj : strstr t.buffer blankLine = .ok (some j)) :
    setLength t = t.replace (add32 i 16) ll ((ascii (toString (toInt (sub32 t.datasize (add32 j 4))))).take 15) := by
  unfold setLength TxtLoops.find
  rw [hi]
  simp only [TxtLoops.ok_bind, Option.getD_some]
  rw [hll, TxtLoops.ok_bind]
  dsimp only
  rw [hj, TxtLoops.ok_bind, Option.getD_some]

/-- **The header gets the length of the body.** -/
theorem setLength_holds (S : Script) {n : Nat} {b : Bytes} (ht : Holds t (header S.mime S.timestamp n ++ b))
    (hb : 0 ∉ b) (hlen : (header S.mime S.timestamp n ++ b).length < 2 ^ 31) :
    ∃ t', setLength t = .ok t' ∧ Holds t' (S.response b) := by
  have hnul : 0 ∉ header S.mime S.timestamp n ++ b := by
    rw [List.mem_append, not_or]
    exact ⟨S.nul_not_mem_header n, hb⟩
  have h4 := S.four_le_header n
  have hend := ht.endptr
  rw [List.length_append] at hlen hend
  have h16 : (ascii "Content-Length: ").length = 16 := by decide
  have hheader := S.header_eq n
  have hshort := congrArg List.length hheader
  simp only [List.length_append] at hshort
  have hii : add32 S.front.length 16 = (S.front ++ ascii "Content-Length: ").length := by
    rw [add32_eq (by omega), List.length_append, h16]
  have hjj : add32 ((header S.mime S.timestamp n).length - 4) 4 = (header S.mime S.timestamp n).length := by
    rw [add32_eq (by omega)]
    omega
  have hsplit : header S.mime S.timestamp n ++ b =
      S.front ++ ascii "Content-Length: " ++ (digits n ++ (S.back ++ b)) := by
    rw [hheader]
    simp only [List.append_assoc]
  -- the digits end at the CRLF behind them
  have hll : strstr (t.data.drop (S.front ++ ascii "Content-Length: ").length) crlf = .ok (some (digits n).length) := by
    obtain ⟨rest, hbuf⟩ := ht.layout
    have hcr : 13 ∉ digits n := fun h => absurd (List.all_eq_true.1 (Http.digits_isDigit n) 13 h) (by decide)
    obtain ⟨back', hback⟩ : ∃ back', S.back ++ b = crlf ++ back' := ⟨_, by rw [Script.back, List.append_assoc]⟩
    have htail : 0 ∉ digits n ++ (S.back ++ b) := fun h => by
      rw [hsplit] at hnul
      exact hnul (List.mem_append_right _ h)
    rw [Txt.data, hbuf, hsplit, List.append_assoc, List.drop_left, strstr, if_pos (by simp), cstr_append_nul,
      cstr_eq_self_iff.2 htail, hback, ← List.append_assoc]
    exact congrArg Except.ok (find_crlf back' (find_none_of_not_mem hcr))
  have hfind : strstr t.buffer (ascii "Content-Length:") = .ok (some S.front.length) := by
    rw [strstr_nulFree ht hnul (by decide), S.find_contentLength]
  have hblank : strstr t.buffer blankLine = .ok (some ((header S.mime S.timestamp n).length - 4)) := by
    rw [strstr_nulFree ht hnul (by decide), S.find_blank_response]
  have hsize : sub32 t.datasize (header S.mime S.timestamp n).length = b.length := by
    rw [Txt.datasize, hend, sub32_eq (by omega) (by omega)]
    omega
  have hnum : (ascii (toString (toInt b.length))).take 15 = digits b.length := by
    rw [Http.toInt_eq (by omega)]
    exact List.take_of_length_le (Nat.le_trans (Http.length_digits (by omega)) (by decide))
  rw [hsplit] at ht
  obtain ⟨t', hr, h'⟩ := Txt.replace_holds ht (digits b.length)
  refine ⟨t', ?_, ?_⟩
  · rw [setLength_eq hfind (by rw [hii]; exact hll) hblank, hii, hjj, hsize, hnum]
    exact hr
  · rw [cstr_eq_self_iff.2 (show 0 ∉ digits b.length from Txt.nul_not_mem_ascii _)] at h'
    rw [Script.response, S.header_eq]
    simpa only [List.append_assoc] using h'

/-! ## The modified script -/

theorem strncpyBytes_nulFree {data : Bytes} (h : 0 ∉ data) : Txt.strncpyBytes data data.length = data := by
  have hself := cstr_eq_self_iff.2 h
  rw [cstr] at hself
  simp only [Txt.strncpyBytes, List.take_length, hself, Nat.sub_self, List.replicate_zero, List.append_nil]

namespace Script

variable (S : Script)

theorem nul_not_mem_filled {m : Bytes} (hm : 0 ∉ m) : 0 ∉ S.filled m := by
  rw [filled, List.mem_append, not_or]
  refine ⟨(S.free _ List.mem_cons_self).1, not_mem_quoted (by decide) hm fun p hp => ?_⟩
  exact (S.free p (List.mem_cons_of_mem _ hp)).1

/-- The body that is expected has the path in the quotes. -/
theorem expected_eq (wspath : Bytes) : S.expected wspath = S.response (S.filled wspath) := by
  rw [expected, filled, filled, replaceEvery_quoted (by decide) wspath (S.free _ List.mem_cons_self).2.1 fun p hp =>
    (S.free p (List.mem_cons_of_mem _ hp)).2.1]

theorem infix_filled (m : Bytes) : m <:+: S.filled m :=
  (mem_quoted S.placed).trans (List.suffix_append S.first _).isInfix

end Script

theorem modified_mono {n m datalen : Nat} {data wspath : Bytes} {js : Txt} (hnm : n ≤ m)
    (h : modified n data datalen wspath = .ok js) : modified m data datalen wspath = .ok js := by
  unfold modified at h ⊢
  obtain ⟨t, ht, h⟩ := bind_eq_ok.1 h
  obtain ⟨t1, h1, h⟩ := bind_eq_ok.1 h
  obtain ⟨t2, h2, h⟩ := bind_eq_ok.1 h
  rw [ht, TxtLoops.ok_bind, substituteAll_mono hnm h1, TxtLoops.ok_bind, substituteAll_mono hnm h2, TxtLoops.ok_bind]
  exact h

/-- One loop over the script: what is in the quotes is replaced. -/
theorem substituteAll_filled (S : Script) {r : Bytes} {k : Nat} (hpat : pat = slot ∨ pat = marker)
    (hr : find pat (cstr r) = none) (ht : Holds t (header S.mime S.timestamp k ++ S.filled pat)) :
    ∃ t', substituteAll (S.parts.length + 1) pat r t = .ok t' ∧
      Holds t' (header S.mime S.timestamp k ++ S.filled (cstr r)) := by
  obtain ⟨hq, hnl, h0, hw⟩ : 39 ∉ pat ∧ 10 ∉ pat ∧ 0 ∉ pat ∧ 119 ∈ pat := by
    rcases hpat with rfl | rfl
    · decide
    · decide
  have hfree : ∀ p ∈ S.first :: S.parts, 0 ∉ p ∧ find pat p = none := fun p hp => by
    obtain ⟨hp0, hslot, hmarker⟩ := S.free p hp
    rcases hpat with rfl | rfl
    · exact ⟨hp0, hslot⟩
    · exact ⟨hp0, hmarker⟩
  obtain ⟨hfirst0, hfirst⟩ := hfree _ List.mem_cons_self
  have hpre : 0 ∉ header S.mime S.timestamp k ++ S.first := by
    rw [List.mem_append, not_or]
    exact ⟨S.nul_not_mem_header k, hfirst0⟩
  rw [Script.filled, ← List.append_assoc] at ht
  obtain ⟨t', hrun, h'⟩ := run_quoted (by decide) hq h0 hr ht hpre (S.header_free k hw hnl hfirst)
    fun p hp => hfree p (List.mem_cons_of_mem _ hp)
  refine ⟨t', ?_, ?_⟩
  · rw [substituteAll, hrun]
    rfl
  · rw [Script.filled, ← List.append_assoc]
    exact h'

/-- After the first loop every place has the marker. -/
theorem marked (S : Script) (wspath : Bytes) :
    ∃ t t1, Txt.ofData S.compiled S.compiled.length (S.compiled.length + 2 * wspath.length) = .ok t ∧
      substituteAll (S.parts.length + 1) slot marker t = .ok t1 ∧
      Holds t1 (header S.mime S.timestamp (S.filled slot).length ++ S.filled marker) := by
  have hnul : 0 ∉ S.compiled := by
    rw [Script.compiled, Script.response, List.mem_append, not_or]
    exact ⟨S.nul_not_mem_header _, S.nul_not_mem_filled (by decide)⟩
  obtain ⟨t, ht, hholds⟩ := Txt.ofData_holds S.compiled S.compiled.length (S.compiled.length + 2 * wspath.length)
  rw [strncpyBytes_nulFree hnul] at hholds
  have hcstr : cstr marker = marker := by decide
  obtain ⟨t1, hs, h1⟩ := substituteAll_filled S (r := marker) (.inl rfl) (by decide) hholds
  rw [hcstr] at h1
  exact ⟨t, t1, ht, hs, h1⟩

/-- **A path without the marker**: the path, as a C string, is in every place, and the header has the new length. -/
theorem modified_holds (S : Script) {wspath : Bytes} (hw : ¬ marker <:+: cstr wspath)
    (hlen : (S.filled (cstr wspath)).length < 65536) :
    ∃ js, modified (S.parts.length + 1) S.compiled S.compiled.length wspath = .ok js ∧
      Holds js (S.response (S.filled (cstr wspath))) := by
  obtain ⟨t, t1, ht, hs1, h1⟩ := marked S wspath
  obtain ⟨t2, hs2, h2⟩ := substituteAll_filled S (.inr rfl) (find_eq_none_iff.2 hw) h1
  have hold := S.fits
  have hshort : (header S.mime S.timestamp (S.filled slot).length ++ S.filled (cstr wspath)).length < 2 ^ 31 := by
    rw [List.length_append] at hold ⊢
    have hfilled : S.first ++ quoted 39 slot S.parts = S.filled slot := rfl
    rw [hfilled] at hold
    omega
  obtain ⟨js, hset, h3⟩ := setLength_holds S h2 (S.nul_not_mem_filled (nul_not_mem_cstr wspath)) hshort
  refine ⟨js, ?_, h3⟩
  rw [modified, ht, TxtLoops.ok_bind, hs1, TxtLoops.ok_bind, hs2, TxtLoops.ok_bind]
  exact hset

/-- **A path with the marker**: no number of passes is enough. -/
theorem modified_hangs (S : Script) {wspath : Bytes} (hw : marker <:+: cstr wspath) (n : Nat) (js : Txt) :
    modified n S.compiled S.compiled.length wspath ≠ .ok js := by
  intro h
  obtain ⟨t, t1, ht, hs1, h1⟩ := marked S wspath
  have hm := modified_mono (Nat.le_max_left n (S.parts.length + 1)) h
  have hs1' := substituteAll_mono (Nat.le_max_right n (S.parts.length + 1)) hs1
  have hnul : 0 ∉ header S.mime S.timestamp (S.filled slot).length ++ S.filled marker := by
    rw [List.mem_append, not_or]
    exact ⟨S.nul_not_mem_header _, S.nul_not_mem_filled (by decide)⟩
  have hmem : marker <:+: header S.mime S.timestamp (S.filled slot).length ++ S.filled marker :=
    (S.infix_filled marker).trans (List.suffix_append _ _).isInfix
  have hhang := run_hangs hw h1 hnul hmem (max n (S.parts.length + 1))
  rw [modified, ht, TxtLoops.ok_bind, hs1', TxtLoops.ok_bind, substituteAll, hhang] at hm
  cases hm

/-- What is sent of a modified script. -/
def Script.Modifies (S : Script) (wspath : Bytes) : Prop :=
  ∃ n js, modified n S.compiled S.compiled.length wspath = .ok js ∧
    js.data.take (js.datasize % 65536) = S.expected wspath

theorem modifies_iff (S : Script) (wspath : Bytes) :
    S.Modifies wspath ↔ 0 ∉ wspath ∧ ¬ marker <:+: wspath ∧ (S.expected wspath).length < 65536 := by
  constructor
  · rintro ⟨n, js, hjs, hdata⟩
    have hlen : (S.expected wspath).length < 65536 := by
      rw [← hdata, List.length_take]
      omega
    have hw : ¬ marker <:+: cstr wspath := fun h => modified_hangs S h n js hjs
    have hshort : (S.filled (cstr wspath)).length < 65536 := by
      have hle := length_quoted_le (q := 39) (cstr_begins wspath).length_le S.parts
      rw [S.expected_eq, Script.response, List.length_append, Script.filled, List.length_append] at hlen
      rw [Script.filled, List.length_append]
      omega
    obtain ⟨js', hjs', hholds⟩ := modified_holds S hw hshort
    have hsame : js = js' := by
      have h1 := modified_mono (Nat.le_max_left n (S.parts.length + 1)) hjs
      have h2 := modified_mono (Nat.le_max_right n (S.parts.length + 1)) hjs'
      exact Except.ok.inj (h1.symm.trans h2)
    have h0 : 0 ∉ wspath := fun hmem => by
      have hexp : 0 ∈ S.expected wspath := by
        rw [S.expected_eq, Script.response]
        exact List.mem_append_right _ ((S.infix_filled wspath).subset hmem)
      have hpre : js.data.take (js.datasize % 65536) <+: js.text :=
        List.take_prefix_take_left (Nat.mod_le _ _)
      rw [← hdata] at hexp
      have htext := hpre.subset hexp
      rw [hsame, hholds.text, Script.response, List.mem_append] at htext
      exact htext.elim (S.nul_not_mem_header _) (S.nul_not_mem_filled (nul_not_mem_cstr wspath))
    rw [cstr_eq_self_iff.2 h0] at hw
    exact ⟨h0, hw, hlen⟩
  · rintro ⟨h0, hw, hlen⟩
    have hself := cstr_eq_self_iff.2 h0
    rw [S.expected_eq] at hlen
    have hshort : (S.filled (cstr wspath)).length < 65536 := by
      rw [Script.response, List.length_append] at hlen
      rw [hself]
      omega
    obtain ⟨js, hjs, hholds⟩ := modified_holds S (by rwa [hself]) hshort
    rw [hself] at hholds
    refine ⟨_, js, hjs, ?_⟩
    rw [Txt.datasize, Nat.mod_eq_of_lt (hholds.endptr ▸ hlen), S.expected_eq]
    exact hholds.text

/-! ## The call -/

theorem substr_tail {s : Bytes} (h : s ≠ []) : substr s (some 1) none = .ok (s.drop 1) := by
  have h1 : 1 ≤ s.length := List.length_pos_iff.2 h
  rw [Http.substr_within h1, Option.getD_none, ← List.length_drop, List.take_length]

variable {files : Files} {sendData : Sent → Bool} {rqst : HttpRequest} {close : Bool} {wspath : Bytes}

/-- No other file is sent. -/
theorem call_other (n : Nat) (hp : rqst.path ≠ [])
    (h : rqst.path.drop 1 = scriptName → files.lookup scriptName = none) :
    sendWebsocketJs n files sendData rqst close wspath = .ok { ret := false, close := close, sent := none } := by
  rw [sendWebsocketJs]
  simp only [substr_tail hp, TxtLoops.ok_bind]
  split
  · next hname =>
    rw [if_pos (List.length_pos_iff.2 hp), hname, getFile, h hname]
    rfl
  · rfl

theorem call_script {S : Script} (n : Nat) (hname : rqst.path.drop 1 = scriptName)
    (hfile : files.lookup scriptName = some S.compiled) :
    sendWebsocketJs n files sendData rqst close wspath =
      if wspath.isEmpty || wspath == slot then .ok (queued sendData { data := S.compiled, allocate := .stat })
      else modified n S.compiled S.compiled.length wspath >>= fun js =>
        .ok (queued sendData { data := js.data.take (js.datasize % 65536), allocate := .preall }) := by
  have hp : rqst.path ≠ [] := by
    intro h
    rw [h] at hname
    exact absurd hname (by decide)
  have hlen : S.compiled.length % 65536 = S.compiled.length := Nat.mod_eq_of_lt S.fits
  rw [sendWebsocketJs]
  simp only [substr_tail hp, TxtLoops.ok_bind, hname, if_true, if_pos (List.length_pos_iff.2 hp), getFile, hfile,
    Option.map_some, hlen, List.take_length]

/-- **When the call returns and sends the right script.**  The path of the request is not empty, as it is when its
first line has not three tokens; and if it asks for the script, then a path that is put into it has no NUL and no
`<ws>`, and the response has less than 65536 bytes. -/
theorem sendWebsocketJs_meets (S : Script) (files : Files)
    (hfiles : ∀ data, files.lookup scriptName = some data → data = S.compiled) (sendData : Sent → Bool)
    (rqst : HttpRequest) (close : Bool) (wspath : Bytes) :
    Meets S files sendData rqst close wspath ↔
      rqst.path ≠ [] ∧ (rqst.path.drop 1 = scriptName → files.lookup scriptName ≠ none → S.Serves wspath) := by
  by_cases hp : rqst.path = []
  · refine iff_of_false ?_ fun h => h.1 hp
    rintro ⟨n, res, h, -⟩
    rw [sendWebsocketJs, hp] at h
    cases h
  by_cases hother : rqst.path.drop 1 = scriptName → files.lookup scriptName = none
  · refine iff_of_true ⟨0, _, call_other 0 hp hother, fun m hm => by cases hm⟩ ⟨hp, fun hname hne => ?_⟩
    exact absurd (hother hname) hne
  rw [Classical.not_imp] at hother
  obtain ⟨hname, hne⟩ := hother
  obtain ⟨data, hdata⟩ := Option.ne_none_iff_exists'.1 hne
  have hfile : files.lookup scriptName = some S.compiled := by rw [hdata, hfiles data hdata]
  have hserves : (rqst.path ≠ [] ∧ (rqst.path.drop 1 = scriptName → files.lookup scriptName ≠ none → S.Serves wspath)) ↔
      S.Serves wspath := ⟨fun h => h.2 hname hne, fun h => ⟨hp, fun _ _ => h⟩⟩
  rw [hserves, Meets]
  simp only [call_script _ hname hfile]
  by_cases hplain : wspath = [] ∨ wspath = slot
  · have hbool : (wspath.isEmpty || wspath == slot) = true := by
      rcases hplain with rfl | rfl <;> rfl
    refine iff_of_true ⟨0, _, if_pos hbool, fun m hm hpre => ?_⟩ (hplain.elim .inl fun h => .inr (.inl h))
    cases hm
    cases hpre
  · rw [not_or] at hplain
    have hbool : ¬ (wspath.isEmpty || wspath == slot) = true := by simp [hplain]
    have hmod : S.Serves wspath ↔ S.Modifies wspath := by
      rw [modifies_iff, Script.Serves]
      simp [hplain]
    rw [hmod]
    constructor
    · rintro ⟨n, res, h, hsent⟩
      rw [if_neg hbool] at h
      obtain ⟨js, hjs, hres⟩ := bind_eq_ok.1 h
      cases hres
      exact ⟨n, js, hjs, hsent _ rfl rfl⟩
    · rintro ⟨n, js, hjs, hdata'⟩
      refine ⟨n, _, by rw [if_neg hbool, hjs]; rfl, fun m hm _ => ?_⟩
      cases hm
      exact hdata'

/-- The lines of the script that have the path. -/
def excerpt : Script where
  mime := ascii "text/javascript"
  timestamp := ascii "Wed, 01 Jan 2025 00:00:00 GMT"
  first := ascii "        let url = 'ws://' + location.host + "
  parts :=
    [ascii ";\n        if (location.protocol == 'https:')\n        \x7b\n" ++
      ascii "            url = 'wss://' + location.host + ",
    ascii ";\n        \x7d\n"]
  mimeLine := by decide
  timeLine := by decide
  placed := by decide
  free := by decide +kernel
  fits := by decide +kernel

def excerptFiles : Files := [(scriptName, excerpt.compiled)]

def getScript : HttpRequest := { headers := [ascii "GET /websocket.js HTTP/1.1"] }

theorem excerptFiles_lookup : excerptFiles.lookup scriptName = some excerpt.compiled := rfl

theorem getScript_path : getScript.path.drop 1 = scriptName := by decide

theorem sendWebsocketJs_meets_chat :
    Meets excerpt excerptFiles (fun _ => true) getScript true (ascii "/chat/") :=
  (sendWebsocketJs_meets excerpt excerptFiles (fun _ h => Option.some.inj (h.symm.trans excerptFiles_lookup)) _ _ _ _).2
    ⟨by decide, fun _ _ => .inr (.inr ⟨by decide, find_eq_none_iff.1 (by decide), by decide +kernel⟩)⟩

/-- A request line that is not whole has an empty path, and `substr` throws; the marker in the path is replaced for
ever. -/
theorem short_line_throws :
    ¬ Meets excerpt excerptFiles (fun _ => true) { headers := [ascii "GET"] } true [] ∧
      ¬ Meets excerpt excerptFiles (fun _ => true) getScript true marker := by
  constructor
  · rintro ⟨n, res, h, -⟩
    have hpath : HttpRequest.path { headers := [ascii "GET"] } = [] := by decide
    rw [sendWebsocketJs, hpath] at h
    cases h
  · rintro ⟨n, res, h, -⟩
    rw [call_script n getScript_path excerptFiles_lookup, if_neg (by decide)] at h
    obtain ⟨js, hjs, -⟩ := bind_eq_ok.1 h
    have hself : cstr marker = marker := by decide
    have hmarker : marker <:+: cstr marker := ⟨[], [], by simp [hself]⟩
    exact modified_hangs excerpt hmarker n js hjs

end WebsocketJs
end Pico
