import Picolibs.Loop
import Picolibs.Text
/-!
# Http — an HTTP request in its buffer (`httprequest.h`, `httprequest.cpp`, `TXT::split`)

`HttpRequest` is the object: its header lines, and offsets into the request string for the body and for each value of
the POST data (the source keeps pointers into that string).  `parseRequest` runs on the string and gives back the
object and the string it leaves.  `std::string::substr` throws past the end of a line, and nothing catches that but
`Content-Length`'s own conversion; a loop that never leaves is the fault `hang`.

The POST data are kept in the order of insertion; of the multimap only `equal_range` is read, which is the same.
-/
namespace Pico
namespace Http

open Text

structure HttpRequest where
  headers : List Bytes := []
  bodyOffset : Nat := 0
  bodySize : Nat := 0
  body : Option Nat := none
  postData : List (Bytes × Nat) := []
  deriving DecidableEq, Repr

def HttpRequest.isComplete (r : HttpRequest) : Bool := r.body.isSome

def HttpRequest.size (r : HttpRequest) : Nat := r.bodyOffset + r.bodySize

/-! ## Tokens and headers -/

/-- The tokens after the first separator; the budget is the length of the text. -/
def splitFrom (separators : Bytes) : Nat → Bytes → List Bytes
  | 0, _ => []
  | n + 1, rest =>
    if rest.isEmpty then [[]]
    else
      match findFirstOf separators rest 0 with
      | none => [rest]
      | some k => rest.take k :: splitFrom separators n (rest.drop (k + 1))

/-- `TXT::split`. -/
def split (src separators : Bytes) : List Bytes :=
  match findFirstOf separators src 0 with
  | none => [src]
  | some i2 => src.take i2 :: splitFrom separators (src.length + 1) (src.drop (i2 + 1))

/-- Token `i` of the request line, when it has three. -/
def HttpRequest.requestToken (r : HttpRequest) (i : Nat) : Bytes :=
  match r.headers with
  | [] => []
  | line :: _ =>
    let tokens := split line (ascii " ")
    if tokens.length = 3 then tokens.getD i [] else []

def HttpRequest.type (r : HttpRequest) : Bytes := r.requestToken 0

def HttpRequest.url (r : HttpRequest) : Bytes := r.requestToken 1

def headerNamed (name line : Bytes) : Bool :=
  match find (ascii ":") line with
  | some i1 => sameNoCase (line.take i1) name
  | none => false

/-- `headerIndex`; `none` is -1. -/
def HttpRequest.headerIndex (r : HttpRequest) (name : Bytes) (start : Nat) : Option Nat :=
  ((r.headers.drop start).findIdx? (headerNamed name)).map (· + start)

/-- Name and value of one header line. -/
def headerPair (line : Bytes) : Except Fault (Bytes × Bytes) :=
  match find (ascii ":") line with
  | none => .ok ([], [])
  | some i1 => do
    let i2 := findFirstNotOf (ascii " ") line (i1 + 1)
    let i3 := i2.bind (findFirstOf crlf line)
    let name ← substr line (some 0) (some i1)
    let value ← substr line i2 i3
    .ok (name, value)

/-- `header(int)`. -/
def HttpRequest.headerAt (r : HttpRequest) : Option Nat → Except Fault (Bytes × Bytes)
  | some (i + 1) =>
    match r.headers[i + 1]? with
    | some line => headerPair line
    | none => .ok ([], [])
  | _ => .ok ([], [])

/-- `header(const std::string &)`. -/
def HttpRequest.header (r : HttpRequest) (name : Bytes) : Except Fault Bytes := do
  let p ← r.headerAt (r.headerIndex name 0)
  .ok p.2

/-! ## The header lines of a request string -/

/-- The lines up to the first empty one, and the offset of its CRLF (`i2`; `none` where a CRLF is missing).  `rest` is
the string from `i1` on; the budget is its length. -/
def headerLines : Nat → Bytes → Nat → List Bytes × Option Nat
  | 0, _, _ => ([], none)
  | n + 1, rest, i1 =>
    match find crlf rest with
    | none => ([], none)
    | some 0 => ([], some i1)
    | some (k + 1) =>
      let more := headerLines n (rest.drop (k + 1 + 2)) (i1 + (k + 1) + 2)
      (rest.take (k + 1) :: more.1, more.2)

/-- The header lines of a request string. -/
def linesOf (rqst : Bytes) : List Bytes := (headerLines (rqst.length + 1) rqst 0).1

/-- The empty line ends inside the string. -/
theorem headerLines_le : ∀ (n : Nat) (rest : Bytes) (i1 i2 : Nat), (headerLines n rest i1).2 = some i2 →
    i2 + 2 ≤ i1 + rest.length
  | 0, _, _, _, h => by cases h
  | n + 1, rest, i1, i2, h => by
    rw [headerLines] at h
    split at h
    · cases h
    · next hf =>
      cases h
      have := find_le hf
      rw [crlf, List.length_cons, List.length_singleton] at this
      omega
    · next k hf =>
      have hk := find_le hf
      have := headerLines_le n _ _ _ h
      rw [List.length_drop] at this
      rw [crlf, List.length_cons, List.length_singleton] at hk
      omega

/-- The declared length of the body: 0 without a `Content-Length` header after the request line, and 0 where its
conversion throws. -/
def HttpRequest.contentLength (r : HttpRequest) : Except Fault Nat :=
  match r.headerIndex (ascii "Content-Length") 0 with
  | some (i + 1) => do
    let p ← r.headerAt (some (i + 1))
    .ok ((stoul p.2).getD 0)
  | _ => .ok 0

theorem headerPair_throws (line : Bytes) : Throws (headerPair line) := by
  unfold headerPair
  split
  · exact Throws.ok _
  · exact (substr_throws _ _ _).bind fun _ => (substr_throws _ _ _).bind fun _ => Throws.ok _

theorem HttpRequest.headerAt_throws (r : HttpRequest) (i : Option Nat) : Throws (r.headerAt i) := by
  unfold headerAt
  split
  · split
    · exact headerPair_throws _
    · exact Throws.ok _
  · exact Throws.ok _

theorem HttpRequest.header_throws (r : HttpRequest) (name : Bytes) : Throws (r.header name) :=
  (r.headerAt_throws _).bind fun _ => Throws.ok _

theorem HttpRequest.header_apart (r : HttpRequest) (name : Bytes) : Apart (r.header name) := (r.header_throws name).apart

theorem HttpRequest.contentLength_throws (r : HttpRequest) : Throws r.contentLength := by
  unfold contentLength
  split
  · exact (r.headerAt_throws _).bind fun _ => Throws.ok _
  · exact Throws.ok _

/-! ## Looking for the start of a request -/

def getWord : Bytes := ascii "GET "

def postWord : Bytes := ascii "POST "

/-- One pass of the loop that runs while the string holds no blank line; the state is the string and `i1`. -/
def resyncPass : Bytes × Nat → Loop.Pass (Bytes × Nat) Bytes
  | (rqst, i1) =>
    if 0 < rqst.length ∧ i1 < rqst.length then
      match findFirstOf (ascii "GP") rqst i1 with
      | some i2 =>
        if (i2 + 4 < rqst.length ∧ (rqst.drop i2).take 4 = getWord) ∨
            (i2 + 5 < rqst.length ∧ (rqst.drop i2).take 5 = postWord) then
          if 0 < i2 then .again (rqst.drop i2, (rqst.drop i2).length)
          else .again (rqst, i1)
        else if (rqst[i2]? = some 71 ∧ i2 + 4 < rqst.length) ∨ (rqst[i2]? = some 80 ∧ i2 + 5 < rqst.length) then
          .again (rqst.drop (i2 + 1), i1)
        else .again (rqst, i1)
      | none => .again ([], i1)
    else .leave rqst

def resyncRank : Bytes × Nat → Nat
  | (rqst, i1) => rqst.length + (rqst.length - i1)

/-- What the loop leaves; `none` when it never does (`resync_eq_none`). -/
def resync (rqst : Bytes) : Option Bytes := Loop.run resyncPass (2 * rqst.length + 1) (rqst, 0)

/-- A pass leaves with the string, changes nothing, or erases some of the string's front. -/
theorem resyncPass_cases (rqst : Bytes) (i1 : Nat) :
    (rqst.length ≤ i1 ∧ resyncPass (rqst, i1) = .leave rqst) ∨
      (i1 < rqst.length ∧ (resyncPass (rqst, i1) = .again (rqst, i1) ∨
        ∃ k i, 0 < k ∧ (i = i1 ∨ i = rqst.length - k) ∧ resyncPass (rqst, i1) = .again (rqst.drop k, i))) := by
  rw [resyncPass]
  by_cases hi : 0 < rqst.length ∧ i1 < rqst.length
  · right
    refine ⟨hi.2, ?_⟩
    rw [if_pos hi]
    split
    · split
      · split
        · next h => exact Or.inr ⟨_, _, h, Or.inr (List.length_drop), rfl⟩
        · exact Or.inl rfl
      · split
        · exact Or.inr ⟨_, _, Nat.succ_pos _, Or.inl rfl, rfl⟩
        · exact Or.inl rfl
    · exact Or.inr ⟨rqst.length, i1, hi.1, Or.inl rfl, by rw [List.drop_length]⟩
  · left
    rw [if_neg hi]
    exact ⟨by omega, rfl⟩

/-- **A search that uses up its budget never ends.** -/
theorem resync_eq_none (rqst : Bytes) : resync rqst = none ↔ Loop.Hangs resyncPass (rqst, 0) := by
  refine ⟨fun h => Loop.hangs_of_rank resyncRank ?_ _ _ ?_ h, fun h => h _⟩
  · rintro ⟨s, i1⟩ s' he
    rcases resyncPass_cases s i1 with ⟨-, hl⟩ | ⟨hi, ha | ⟨k, i, hk, hik, ha⟩⟩
    · rw [hl] at he
      cases he
    · rw [ha] at he
      cases he
      exact Or.inr rfl
    · rw [ha] at he
      cases he
      left
      simp only [resyncRank, List.length_drop]
      omega
  · show rqst.length + (rqst.length - 0) < 2 * rqst.length + 1
    omega

/-- **Looking for a request loses bytes**: what is left of a string is shorter. -/
theorem resync_lt {rqst left : Bytes} (hne : rqst ≠ []) (h : resync rqst = some left) : left.length < rqst.length := by
  refine Loop.run_inv
    (I := fun s => s.1.length < rqst.length ∨ (s.1.length = rqst.length ∧ s.2 < s.1.length))
    (Q := fun r => r.length < rqst.length) ?_ ?_ _ _ left (Or.inr ⟨rfl, List.length_pos_iff.2 hne⟩) h
  · rintro ⟨s, i1⟩ s' hs he
    rcases resyncPass_cases s i1 with ⟨-, hl⟩ | ⟨hi, ha | ⟨k, i, hk, -, ha⟩⟩
    · rw [hl] at he
      cases he
    · rw [ha] at he
      cases he
      exact hs
    · rw [ha] at he
      cases he
      left
      have hle : s.length ≤ rqst.length := by
        rcases hs with h | ⟨h, -⟩
        · exact Nat.le_of_lt h
        · exact Nat.le_of_eq h
      show (s.drop k).length < rqst.length
      rw [List.length_drop]
      omega
  · rintro ⟨s, i1⟩ r hs he
    rcases resyncPass_cases s i1 with ⟨hi, hl⟩ | ⟨-, ha | ⟨k, i, -, -, ha⟩⟩
    · rw [hl] at he
      cases he
      rcases hs with h | ⟨-, h⟩
      · exact h
      · exact absurd h (Nat.not_lt.2 hi)
    · rw [ha] at he
      cases he
    · rw [ha] at he
      cases he

theorem length_resync {rqst left : Bytes} (h : resync rqst = some left) : left.length ≤ rqst.length := by
  by_cases hne : rqst = []
  · subst hne
    cases h
    exact Nat.le_refl _
  · exact Nat.le_of_lt (resync_lt hne h)

end Http
end Pico
