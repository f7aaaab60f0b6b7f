import Picolibs.Tokens
/-!
# Url — another URL for a request (`setURL` in `httprequest.cpp`)

`setURL` puts a text in the place of the second word of the request line, where any number of blanks is between two
words; `url` and `type` want exactly three tokens, and between two blanks there is one.  So what is set is read back
unless it has a blank, and unless there was no URL before: an empty one is never replaced (`url_set_iff`).
-/
namespace Pico
namespace Http

open Text
open Tokens (split_eq)

/-- `setURL`. -/
def HttpRequest.setURL (r : HttpRequest) (newurl : Bytes) : HttpRequest :=
  match r.headers with
  | [] => r
  | hdr :: headers =>
    match (find (ascii " ") hdr).bind (findFirstNotOf (ascii " ") hdr) with
    | none => r
    | some i1 =>
      match findFrom (ascii " ") hdr i1 with
      | none => r
      | some i2 => { r with headers := (hdr.take i1 ++ newurl ++ hdr.drop i2) :: headers }

/-! ## Words -/

def blanks (k : Nat) : Bytes := List.replicate k 32

theorem blanks_cases : ∀ s : Bytes, (∃ k, s = blanks k) ∨ ∃ k c t, c ≠ 32 ∧ s = blanks k ++ c :: t
  | [] => .inl ⟨0, rfl⟩
  | c :: s => by
    by_cases hc : c = 32
    · rcases blanks_cases s with ⟨k, rfl⟩ | ⟨k, d, t, hd, rfl⟩
      · exact .inl ⟨k + 1, by rw [hc]; rfl⟩
      · exact .inr ⟨k + 1, d, t, hd, by rw [hc]; rfl⟩
    · exact .inr ⟨0, c, s, hc, rfl⟩

/-- A line has one word, or a second one at its end, which may be missing, or a second one with a blank behind it. -/
theorem line_cases (line : Bytes) :
    32 ∉ line ∨ ∃ m k, 32 ∉ m ∧ ((∃ w, 32 ∉ w ∧ line = m ++ 32 :: (blanks k ++ w)) ∨
      ∃ w b, w ≠ [] ∧ 32 ∉ w ∧ line = m ++ 32 :: (blanks k ++ (w ++ 32 :: b))) := by
  by_cases hline : 32 ∈ line
  · obtain ⟨m, s, rfl, hm⟩ := List.eq_append_cons_of_mem hline
    rcases blanks_cases s with ⟨k, rfl⟩ | ⟨k, c, t, hc, rfl⟩
    · exact .inr ⟨m, k, hm, .inl ⟨[], List.not_mem_nil, by rw [List.append_nil]⟩⟩
    · by_cases ht : 32 ∈ c :: t
      · obtain ⟨w, b, hw, hfree⟩ := List.eq_append_cons_of_mem ht
        refine .inr ⟨m, k, hm, .inr ⟨w, b, ?_, hfree, by rw [hw]⟩⟩
        rintro rfl
        exact hc (List.cons.inj hw).1
      · exact .inr ⟨m, k, hm, .inl ⟨c :: t, ht, rfl⟩⟩
  · exact .inl hline

theorem findIdx?_blanks (p : UInt8 → Bool) (hp : p 32 = false) (s : Bytes) : ∀ k : Nat,
    (blanks k ++ s).findIdx? p = (s.findIdx? p).map (· + k)
  | 0 => by simp [blanks]
  | k + 1 => by
    have ih := findIdx?_blanks p hp s k
    rw [blanks] at ih
    rw [blanks, List.replicate_succ, List.cons_append, List.findIdx?_cons, hp, if_neg Bool.false_ne_true, ih,
      Option.map_map]
    congr 1

/-- Where the second word begins. -/
theorem findWord {m : Bytes} (hm : 32 ∉ m) (k : Nat) (s : Bytes) :
    (find (ascii " ") (m ++ 32 :: (blanks k ++ s))).bind (findFirstNotOf (ascii " ") (m ++ 32 :: (blanks k ++ s))) =
      (s.findIdx? fun c => !(ascii " ").contains c).map (· + (m.length + (k + 1))) := by
  have hfind : find (ascii " ") (m ++ 32 :: (blanks k ++ s)) = some m.length := find_byte _ hm
  have hblanks : 32 :: (blanks k ++ s) = blanks (k + 1) ++ s := rfl
  rw [hfind, Option.bind_some, findFirstNotOf, List.drop_left, hblanks, findIdx?_blanks _ (by decide), Option.map_map]
  congr 1
  funext i
  exact (Nat.add_assoc i (k + 1) m.length).trans (congrArg (i + ·) (Nat.add_comm (k + 1) m.length))

theorem findWord_word {m w : Bytes} (hm : 32 ∉ m) (hne : w ≠ []) (hw : 32 ∉ w) (k : Nat) (s : Bytes) :
    (find (ascii " ") (m ++ 32 :: (blanks k ++ (w ++ s)))).bind
      (findFirstNotOf (ascii " ") (m ++ 32 :: (blanks k ++ (w ++ s)))) = some (m ++ blanks (k + 1)).length := by
  obtain ⟨c, t, rfl⟩ := List.exists_cons_of_ne_nil hne
  have hc : (!(ascii " ").contains c) = true := by
    have hne32 : c ≠ 32 := fun h => hw (by rw [h]; exact List.mem_cons_self)
    simp [ascii, hne32]
  rw [findWord hm, List.cons_append, List.findIdx?_cons, if_pos hc, Option.map_some, Nat.zero_add, List.length_append,
    blanks, List.length_replicate]

/-- The line in front of its second word, and from there on. -/
theorem in_front (m : Bytes) (k : Nat) (s : Bytes) : m ++ 32 :: (blanks k ++ s) = (m ++ blanks (k + 1)) ++ s :=
  (List.append_assoc m (blanks (k + 1)) s).symm

theorem findFrom_append (pat a s : Bytes) : findFrom pat (a ++ s) a.length = (find pat s).map (· + a.length) := by
  rw [findFrom, if_pos (List.sublist_append_left a s).length_le, List.drop_left]

section
variable {r : HttpRequest} {rest : List Bytes} {m w b : Bytes} {k : Nat}

/-- **The second word is replaced.** -/
theorem setURL_word (u : Bytes) (hm : 32 ∉ m) (hne : w ≠ []) (hw : 32 ∉ w)
    (hr : r.headers = (m ++ 32 :: (blanks k ++ (w ++ 32 :: b))) :: rest) :
    r.setURL u = { r with headers := (m ++ 32 :: (blanks k ++ (u ++ 32 :: b))) :: rest } := by
  have hend : findFrom (ascii " ") (m ++ 32 :: (blanks k ++ (w ++ 32 :: b))) (m ++ blanks (k + 1)).length =
      some (w.length + (m ++ blanks (k + 1)).length) := by
    have hfind : find (ascii " ") (w ++ 32 :: b) = some w.length := find_byte _ hw
    rw [in_front, findFrom_append, hfind, Option.map_some]
  unfold HttpRequest.setURL
  rw [hr]
  simp only [findWord_word hm hne hw, hend]
  rw [Nat.add_comm w.length, ← List.drop_drop, in_front, List.take_left, List.drop_left, List.drop_left]
  simp only [List.append_assoc]
  rfl

/-- Nothing is replaced where there is no second word, or no blank behind it. -/
theorem setURL_last (u : Bytes) (hm : 32 ∉ m) (hw : 32 ∉ w) (hr : r.headers = (m ++ 32 :: (blanks k ++ w)) :: rest) :
    r.setURL u = r := by
  unfold HttpRequest.setURL
  rw [hr]
  by_cases hne : w = []
  · simp only [findWord hm, hne, List.findIdx?_nil, Option.map_none]
  · have hbegin := findWord_word hm hne hw k []
    rw [List.append_nil] at hbegin
    have hend : findFrom (ascii " ") (m ++ 32 :: (blanks k ++ w)) (m ++ blanks (k + 1)).length = none := by
      have hfind : find (ascii " ") w = none := find_none_of_not_mem hw
      rw [in_front, findFrom_append, hfind, Option.map_none]
    simp only [hbegin, hend]

theorem setURL_first (u : Bytes) {line : Bytes} (hline : 32 ∉ line) (hr : r.headers = line :: rest) :
    r.setURL u = r := by
  have hfind : find (ascii " ") line = none := find_none_of_not_mem hline
  unfold HttpRequest.setURL
  rw [hr]
  simp only [hfind, Option.bind_none]

/-! ## Tokens -/

theorem tokens_three (hr : r.headers = (m ++ 32 :: (w ++ 32 :: b)) :: rest) (hm : 32 ∉ m) (hw : 32 ∉ w) (hb : 32 ∉ b) :
    r.type = m ∧ r.url = w := by
  have hsplit : split (m ++ 32 :: (w ++ 32 :: b)) (ascii " ") = [m, w, b] := by
    rw [show ascii " " = [32] from rfl, split_eq, List.splitOn_append_cons_self_of_not_mem hm,
      List.splitOn_append_cons_self_of_not_mem hw, List.splitOn_eq_singleton hb]
  unfold HttpRequest.type HttpRequest.url HttpRequest.requestToken
  rw [hr]
  simp [hsplit]

theorem tokens_other {line : Bytes} (hr : r.headers = line :: rest) (hc : line.count 32 ≠ 2) :
    r.type = [] ∧ r.url = [] := by
  have hlen : (split line (ascii " ")).length ≠ 3 := by
    rw [show ascii " " = [32] from rfl, split_eq, Tokens.length_splitOn]
    omega
  unfold HttpRequest.type HttpRequest.url HttpRequest.requestToken
  rw [hr]
  simp [hlen]

theorem count_blanks (k : Nat) : (blanks k).count 32 = k := List.count_replicate_self

/-- Without a word to replace there is no URL. -/
theorem url_last (hr : r.headers = (m ++ 32 :: (blanks k ++ w)) :: rest) (hm : 32 ∉ m) (hw : 32 ∉ w) : r.url = [] := by
  by_cases hk : k = 1
  · rw [hk] at hr
    exact (tokens_three (w := []) hr hm List.not_mem_nil hw).2
  · refine (tokens_other hr ?_).2
    rw [List.count_append, List.count_cons_self, List.count_append, count_blanks, List.count_eq_zero.2 hm,
      List.count_eq_zero.2 hw]
    omega

end

/-- A request has no URL and no second word to replace, or it has a word with a blank behind it. -/
theorem setURL_or (r : HttpRequest) (u : Bytes) :
    r.setURL u = r ∧ r.url = [] ∨ ∃ m k w b rest, 32 ∉ m ∧ w ≠ [] ∧ 32 ∉ w ∧
      r.headers = (m ++ 32 :: (blanks k ++ (w ++ 32 :: b))) :: rest := by
  cases hr : r.headers with
  | nil =>
    left
    constructor
    · unfold HttpRequest.setURL
      rw [hr]
    · unfold HttpRequest.url HttpRequest.requestToken
      rw [hr]
  | cons line rest =>
    rcases line_cases line with hline | ⟨m, k, hm, ⟨w, hw, rfl⟩ | ⟨w, b, hne, hw, rfl⟩⟩
    · exact .inl ⟨setURL_first u hline hr, (tokens_other hr (by rw [List.count_eq_zero.2 hline]; decide)).2⟩
    · exact .inl ⟨setURL_last u hm hw hr, url_last hr hm hw⟩
    · exact .inr ⟨m, k, w, b, rest, hm, hne, hw, rfl⟩

/-- **What `setURL` comes to**: the URL is replaced, where there is one; else there is none afterwards either.  The other
header lines stay. -/
theorem setURL_cases (r : HttpRequest) (u : Bytes) :
    (∃ headers, r.setURL u = { r with headers := headers } ∧ headers.tail = r.headers.tail) ∧
    (r.url = [] ∧ (r.setURL u).url = [] ∧ (r.setURL u).type = r.type ∨
      ∃ m w b rest, 32 ∉ m ∧ w ≠ [] ∧ 32 ∉ w ∧ 32 ∉ b ∧ r.headers = (m ++ 32 :: (w ++ 32 :: b)) :: rest ∧
        r.setURL u = { r with headers := (m ++ 32 :: (u ++ 32 :: b)) :: rest }) := by
  rcases setURL_or r u with ⟨heq, hurl⟩ | ⟨m, k, w, b, rest, hm, hne, hw, hr⟩
  · rw [heq]
    exact ⟨⟨r.headers, rfl, rfl⟩, .inl ⟨hurl, hurl, rfl⟩⟩
  · have hset := setURL_word u hm hne hw hr
    refine ⟨⟨_, hset, by rw [hr]; rfl⟩, ?_⟩
    by_cases hthree : k = 0 ∧ 32 ∉ b
    · obtain ⟨rfl, hb⟩ := hthree
      exact .inr ⟨m, w, b, rest, hm, hne, hw, hb, hr, hset⟩
    · have hmany : ∀ x : Bytes, (m ++ 32 :: (blanks k ++ (x ++ 32 :: b))).count 32 ≠ 2 := by
        intro x
        rw [List.count_append, List.count_cons_self, List.count_append, List.count_append, List.count_cons_self,
          count_blanks]
        by_cases hb : 32 ∈ b
        · have := List.count_pos_iff.2 hb
          omega
        · have hk : k ≠ 0 := fun hk => hthree ⟨hk, hb⟩
          omega
      have hbefore := tokens_other hr (hmany w)
      have hbehind := tokens_other (r := r.setURL u) (by rw [hset]) (hmany u)
      exact .inl ⟨hbefore.2, hbehind.2, hbehind.1.trans hbefore.1.symm⟩

/-- **Which URLs are read back**: those without a blank, where there was a URL before; else the empty one only. -/
theorem url_set_iff (r : HttpRequest) (u : Bytes) :
    (r.setURL u).url = u ↔ if r.url = [] then u = [] else 32 ∉ u := by
  obtain ⟨-, ⟨hnone, hstill, -⟩ | ⟨m, w, b, rest, hm, hne, hw, hb, hr, hset⟩⟩ := setURL_cases r u
  · rw [if_pos hnone, hstill]
    exact eq_comm
  · have hurl : r.url = w := (tokens_three hr hm hw hb).2
    rw [if_neg (by rw [hurl]; exact hne)]
    constructor
    · intro hu hblank
      have hmany : (m ++ 32 :: (u ++ 32 :: b)).count 32 ≠ 2 := by
        rw [List.count_append, List.count_cons_self, List.count_append, List.count_cons_self]
        have := List.count_pos_iff.2 hblank
        omega
      rw [(tokens_other (r := r.setURL u) (by rw [hset]) hmany).2] at hu
      rw [← hu] at hblank
      exact absurd hblank List.not_mem_nil
    · intro hu
      exact (tokens_three (r := r.setURL u) (by rw [hset]) hm hu hb).2

/-! ## One URL after another -/

/-- **Setting URLs without blanks**: the last one is the URL, but none behind an empty one; the type and the other
header lines stay. -/
theorem urls_set : ∀ (us : List Bytes) (r : HttpRequest), (∀ u ∈ us, 32 ∉ u) →
    (us.foldl HttpRequest.setURL r).url = us.foldl (fun url u => if url = [] then [] else u) r.url ∧
    (us.foldl HttpRequest.setURL r).type = r.type ∧
    ∃ headers, us.foldl HttpRequest.setURL r = { r with headers := headers } ∧ headers.tail = r.headers.tail
  | [], r, _ => ⟨rfl, rfl, r.headers, rfl, rfl⟩
  | u :: us, r, h => by
    obtain ⟨⟨headers, hframe, htail⟩, hcases⟩ := setURL_cases r u
    obtain ⟨hurls, htypes, headers', hframes, htails⟩ := urls_set us (r.setURL u) fun v hv =>
      h v (List.mem_cons_of_mem _ hv)
    have hstep : (r.setURL u).url = (if r.url = [] then [] else u) ∧ (r.setURL u).type = r.type := by
      rcases hcases with ⟨hnone, hstill, htype⟩ | ⟨m, w, b, rest, hm, hne, hw, hb, hr, hset⟩
      · rw [if_pos hnone]
        exact ⟨hstill, htype⟩
      · have hbefore := tokens_three hr hm hw hb
        have hbehind := tokens_three (r := r.setURL u) (by rw [hset]) hm (h u List.mem_cons_self) hb
        rw [hbefore.2, if_neg hne]
        exact ⟨hbehind.2, hbehind.1.trans hbefore.1.symm⟩
    rw [List.foldl_cons, List.foldl_cons, hurls, hstep.1]
    refine ⟨rfl, htypes.trans hstep.2, headers', ?_, ?_⟩
    · rw [hframes, hframe]
    · rw [htails, hframe]
      exact htail

/-- A request for a page. -/
def homeRequest : HttpRequest := { headers := [ascii "GET / HTTP/1.1", ascii "Host: pico"] }

theorem urls_set_page :
    ([ascii "/a", [], ascii "/b"].foldl HttpRequest.setURL homeRequest).url = [] ∧
    ([ascii "/a", [], ascii "/b"].foldl HttpRequest.setURL homeRequest).type = ascii "GET" ∧
    ∃ headers, [ascii "/a", [], ascii "/b"].foldl HttpRequest.setURL homeRequest = { headers := headers } ∧
      headers.tail = [ascii "Host: pico"] :=
  urls_set [ascii "/a", [], ascii "/b"] homeRequest (by decide)

end Http
end Pico
