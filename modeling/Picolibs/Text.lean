import Mathlib.Algebra.Group.Int.Defs
import Mathlib.Algebra.GroupWithZero.Nat
import Mathlib.Data.List.Basic
import Mathlib.Data.List.TakeWhile
/-!
# Text — byte strings, as `std::string` and the C string functions read them

`char` is unsigned on the target, so a string is a list of bytes.  The operations are the ones the repository calls,
with their documented results: a search gives an offset or `none` for `npos`, `substr` throws past the end, and the
`c_str` readers stop at the first NUL.  `find_crlf` and `find_blank` say where a text made of lines is cut.
-/
namespace Pico

abbrev Bytes := List UInt8

/-- The bytes of a string literal. -/
def ascii (s : String) : Bytes := s.toList.map (fun c => c.toNat.toUInt8)

/-- The ways a call does not return: a loop that never leaves, an exception nothing catches, an access outside a
buffer, a `CLIENT` used after it was deleted. -/
inductive Fault where
  | hang
  | outOfRange
  | outOfBounds
  | dangling
  deriving DecidableEq, Repr

namespace Text

def crlf : Bytes := [13, 10]

def blankLine : Bytes := [13, 10, 13, 10]

/-! `std::string::find`, `find_first_of`, `find_first_not_of` (from an offset) and `substr` (up to an end that may be
`npos`; it throws when it starts past the end). -/

def find (pat : Bytes) : Bytes → Option Nat
  | [] => if pat.isEmpty then some 0 else none
  | c :: s => if pat.isPrefixOf (c :: s) then some 0 else (find pat s).map (· + 1)

def findFrom (pat s : Bytes) (i : Nat) : Option Nat :=
  if i ≤ s.length then (find pat (s.drop i)).map (· + i) else none

def findFirstOf (set s : Bytes) (i : Nat) : Option Nat :=
  ((s.drop i).findIdx? (fun c => set.contains c)).map (· + i)

def findFirstNotOf (set s : Bytes) (i : Nat) : Option Nat :=
  ((s.drop i).findIdx? (fun c => !set.contains c)).map (· + i)

def substr (s : Bytes) (pos : Option Nat) (stop : Option Nat) : Except Fault Bytes :=
  match pos with
  | none => .error .outOfRange
  | some i =>
    if i ≤ s.length then .ok ((s.drop i).take (stop.getD s.length - i))
    else .error .outOfRange

/-! `strcasecmp(a, b) == 0` and `std::stoul` with a 32-bit `unsigned long`, where `none` is one of the two exceptions
it throws.  `cstr` is what a C string function reads of a `c_str`. -/

def cstr (s : Bytes) : Bytes := s.takeWhile (· ≠ 0)

def toLower (c : UInt8) : UInt8 := if 65 ≤ c && c ≤ 90 then c + 32 else c

def sameNoCase (a b : Bytes) : Bool := (cstr a).map toLower == (cstr b).map toLower

def isSpace (c : UInt8) : Bool := c == 32 || (9 ≤ c && c ≤ 13)

def isDigit (c : UInt8) : Bool := 48 ≤ c && c ≤ 57

def decimal (ds : Bytes) : Nat := ds.foldl (fun n c => n * 10 + (c.toNat - 48)) 0

def stoul (s : Bytes) : Option Nat :=
  let t := s.dropWhile isSpace
  let neg := t.head? == some 45
  let u := if t.head? == some 45 || t.head? == some 43 then t.tail else t
  let ds := u.takeWhile isDigit
  if ds.isEmpty then none
  else if decimal ds < 2 ^ 32 then some (if neg then (2 ^ 32 - decimal ds) % 2 ^ 32 else decimal ds)
  else none

/-! ## Faults -/

theorem bind_eq_ok {α β : Type} {x : Except Fault α} {f : α → Except Fault β} {b : β} :
    (x >>= f) = .ok b ↔ ∃ a, x = .ok a ∧ f a = .ok b := by
  cases x with
  | error e => exact iff_of_false (by rintro ⟨⟩) (by rintro ⟨a, ⟨⟩, -⟩)
  | ok a => exact ⟨fun h => ⟨a, rfl, h⟩, by rintro ⟨a', ⟨⟩, h⟩; exact h⟩

/-! Parsing knows nothing of clients: whatever it throws, it is not `dangling`. -/

def Apart {α : Type} (x : Except Fault α) : Prop := x ≠ .error .dangling

theorem Apart.ok {α : Type} (a : α) : Apart (.ok a) := nofun

theorem Apart.bind {α β : Type} {x : Except Fault α} {f : α → Except Fault β} (hx : Apart x)
    (hf : ∀ a, Apart (f a)) : Apart (x >>= f) := by
  cases x with
  | error e => exact fun h => hx (by cases h; rfl)
  | ok a => exact hf a

/-- Nothing but the exception of `substr` comes out. -/
def Throws {α : Type} (x : Except Fault α) : Prop := ∀ e, x = .error e → e = .outOfRange

theorem Throws.ok {α : Type} (a : α) : Throws (.ok a) := nofun

theorem Throws.bind {α β : Type} {x : Except Fault α} {f : α → Except Fault β} (hx : Throws x)
    (hf : ∀ a, Throws (f a)) : Throws (x >>= f) := by
  cases x with
  | error e => exact fun e' h => hx e' (by cases h; rfl)
  | ok a => exact hf a

theorem Throws.ne {α : Type} {x : Except Fault α} (h : Throws x) {e : Fault} (he : e ≠ .outOfRange) : x ≠ .error e :=
  fun hx => he (h e hx)

theorem Throws.apart {α : Type} {x : Except Fault α} (h : Throws x) : Apart x := h.ne (by decide)

theorem substr_throws (s : Bytes) (pos stop : Option Nat) : Throws (substr s pos stop) := by
  unfold substr
  split
  · intro e h
    cases h
    rfl
  · split
    · exact Throws.ok _
    · intro e h
      cases h
      rfl

theorem substr_apart (s : Bytes) (pos stop : Option Nat) : Apart (substr s pos stop) := (substr_throws s pos stop).apart

/-! ## Where a stream is cut

What is buffered of a stream is part of the next message, or that message whole and more. -/

theorem part_or_whole {buffer text message rest : Bytes} (h : buffer ++ text = message ++ rest) :
    (buffer <+: message ∧ buffer.length < message.length) ∨
      ∃ buffer', buffer = message ++ buffer' ∧ buffer' ++ text = rest := by
  rcases List.append_eq_append_iff.1 h with ⟨m, hm, ht⟩ | ⟨m, hb, hr⟩
  · cases m with
    | nil =>
      right
      rw [List.append_nil] at hm
      exact ⟨[], by rw [hm, List.append_nil], by simpa using ht⟩
    | cons b m =>
      left
      refine ⟨⟨b :: m, hm.symm⟩, ?_⟩
      rw [hm, List.length_append, List.length_cons]
      omega
  · exact Or.inr ⟨m, hb, hr.symm⟩

/-! ## Where a search stops -/

theorem find_cons_of_ne {pat : Bytes} {p c : UInt8} {s : Bytes} (h : c ≠ p) :
    find (p :: pat) (c :: s) = (find (p :: pat) s).map (· + 1) := by
  have : (p :: pat).isPrefixOf (c :: s) = false := by simp [List.isPrefixOf, Ne.symm h]
  rw [find, this]
  rfl

theorem find_append_of_not_mem {pat : Bytes} {p : UInt8} : ∀ {l : Bytes} (t : Bytes), p ∉ l →
    find (p :: pat) (l ++ t) = (find (p :: pat) t).map (· + l.length)
  | [], t, _ => by simp
  | c :: l, t, h => by
    have hc : c ≠ p := fun e => h (by simp [e])
    have hl : p ∉ l := fun hm => h (List.mem_cons_of_mem c hm)
    rw [List.cons_append, find_cons_of_ne hc, find_append_of_not_mem t hl, Option.map_map]
    congr 1

theorem find_of_prefix {pat s : Bytes} (h : pat <+: s) : find pat s = some 0 := by
  cases s with
  | nil => rw [List.prefix_nil.1 h]; rfl
  | cons c s => rw [find, if_pos (List.isPrefixOf_iff_prefix.2 h)]

/-- A single byte is found where it first stands. -/
theorem find_byte {x : UInt8} {a : Bytes} (b : Bytes) (h : x ∉ a) : find [x] (a ++ x :: b) = some a.length := by
  have hhead : find [x] (x :: b) = some 0 := find_of_prefix ⟨b, rfl⟩
  rw [find_append_of_not_mem _ h, hhead, Option.map_some, Nat.zero_add]

theorem find_le {pat : Bytes} : ∀ {s : Bytes} {k : Nat}, find pat s = some k → k + pat.length ≤ s.length
  | [], k, h => by
    rw [find] at h
    split at h
    · next he =>
      cases h
      rw [List.isEmpty_iff.1 he]
      exact Nat.le_refl _
    · cases h
  | c :: s, k, h => by
    rw [find] at h
    split at h
    · next hp =>
      cases h
      rw [Nat.zero_add]
      exact (List.isPrefixOf_iff_prefix.1 hp).length_le
    · obtain ⟨j, hj, rfl⟩ := Option.map_eq_some_iff.1 h
      have := find_le hj
      rw [List.length_cons]
      omega

theorem find_none_of_short {pat : Bytes} : ∀ {s : Bytes}, s.length < pat.length → find pat s = none := by
  intro s h
  cases hf : find pat s with
  | none => rfl
  | some k =>
    have := find_le hf
    omega

/-- **What is found at the end of a string is not found before the end.** -/
theorem find_none_of_prefix {pat : Bytes} : ∀ {s r : Bytes} {k : Nat}, find pat s = some k → r <+: s →
    r.length < k + pat.length → find pat r = none
  | [], r, k, h, hr, hlt => by
    rw [find] at h
    split at h
    · next he =>
      cases h
      rw [List.isEmpty_iff.1 he] at hlt
      exact absurd hlt (Nat.not_lt_zero _)
    · cases h
  | c :: s, [], k, h, _, hlt => by
    rw [find]
    split
    · next he =>
      rw [List.isEmpty_iff.1 he] at h hlt
      rw [find, if_pos (by rfl)] at h
      cases h
      exact absurd hlt (Nat.not_lt_zero _)
    · rfl
  | c :: s, d :: r, k, h, hr, hlt => by
    obtain ⟨rfl, hr'⟩ := List.cons_prefix_cons.1 hr
    rw [find] at h
    by_cases hp : pat.isPrefixOf (d :: s) = true
    · rw [if_pos hp] at h
      cases h
      rw [Nat.zero_add] at hlt
      exact find_none_of_short hlt
    · rw [if_neg hp] at h
      obtain ⟨j, hj, rfl⟩ := Option.map_eq_some_iff.1 h
      rw [List.length_cons] at hlt
      have hnot : ¬ pat.isPrefixOf (d :: r) = true := fun hpr => hp
        (List.isPrefixOf_iff_prefix.2 ((List.isPrefixOf_iff_prefix.1 hpr).trans hr))
      rw [find, if_neg hnot, find_none_of_prefix hj hr' (by omega)]
      rfl

/-! ## Looking for a string up to a NUL -/

theorem find_append_of_some {pat c : Bytes} : ∀ {r : Bytes} {k : Nat}, find pat r = some k → find pat (r ++ c) = some k
  | [], k, h => by
    rw [find] at h
    split at h
    · next he =>
      cases h
      exact find_of_prefix (by rw [List.isEmpty_iff.1 he]; exact List.nil_prefix)
    · cases h
  | b :: r, k, h => by
    rw [find] at h
    rw [List.cons_append, find]
    split at h
    · next hp =>
      exact (if_pos (List.isPrefixOf_iff_prefix.2 ((List.isPrefixOf_iff_prefix.1 hp).trans ⟨c, rfl⟩))).trans h
    · next hp =>
      obtain ⟨j, hj, rfl⟩ := Option.map_eq_some_iff.1 h
      have hle := find_le hj
      rw [if_neg, find_append_of_some hj]
      · rfl
      · intro hc
        refine hp (List.isPrefixOf_iff_prefix.2 (List.prefix_of_prefix_length_le (List.isPrefixOf_iff_prefix.1 hc)
          ⟨c, rfl⟩ ?_))
        rw [List.length_cons]
        omega

theorem find_split {pat : Bytes} : ∀ {s : Bytes} {k : Nat}, find pat s = some k →
    ∃ a b, s = a ++ pat ++ b ∧ a.length = k
  | [], k, h => by
    rw [find] at h
    split at h
    · next he =>
      cases h
      exact ⟨[], [], by rw [List.isEmpty_iff.1 he]; rfl, rfl⟩
    · cases h
  | c :: s, k, h => by
    rw [find] at h
    split at h
    · next hp =>
      cases h
      obtain ⟨b, hb⟩ := List.isPrefixOf_iff_prefix.1 hp
      exact ⟨[], b, hb.symm, rfl⟩
    · obtain ⟨j, hj, rfl⟩ := Option.map_eq_some_iff.1 h
      obtain ⟨a, b, rfl, rfl⟩ := find_split hj
      exact ⟨c :: a, b, rfl, rfl⟩

theorem find_ne_none (pat b : Bytes) : ∀ a : Bytes, find pat (a ++ pat ++ b) ≠ none
  | [] => by
    rw [List.nil_append, find_of_prefix ⟨b, rfl⟩]
    exact Option.some_ne_none 0
  | c :: a => by
    rw [List.cons_append, List.cons_append, find]
    split
    · exact Option.some_ne_none 0
    · rw [ne_eq, Option.map_eq_none_iff]
      exact find_ne_none pat b a

/-- The first place of a word in a text. -/
structure First (word s a b : Bytes) : Prop where
  place : s = a ++ word ++ b
  least : ∀ a' b', s = a' ++ word ++ b' → a.length ≤ a'.length

theorem find_least {word : Bytes} : ∀ {s : Bytes} {k : Nat}, find word s = some k →
    ∀ a b, s = a ++ word ++ b → k ≤ a.length
  | s, k, h, [], b, hs => by
    rw [hs, List.nil_append, find_of_prefix ⟨b, rfl⟩] at h
    cases h
    exact Nat.le_refl _
  | [], _, _, _ :: _, _, hs => by cases hs
  | c :: s, k, h, d :: a, b, hs => by
    rw [find] at h
    split at h
    · cases h
      exact Nat.zero_le _
    · obtain ⟨j, hj, rfl⟩ := Option.map_eq_some_iff.1 h
      exact Nat.succ_le_succ (find_least hj a b (List.cons.inj hs).2)

/-- **`find` finds the first place.** -/
theorem find_iff {word s : Bytes} {k : Nat} : find word s = some k ↔ ∃ a b, First word s a b ∧ a.length = k := by
  constructor
  · intro h
    obtain ⟨a, b, hs, rfl⟩ := find_split h
    exact ⟨a, b, ⟨hs, find_least h⟩, rfl⟩
  · rintro ⟨a, b, h, rfl⟩
    cases hf : find word s with
    | none =>
      rw [h.place] at hf
      exact absurd hf (find_ne_none word b a)
    | some j =>
      obtain ⟨a', b', hs, rfl⟩ := find_split hf
      exact congrArg some (Nat.le_antisymm (find_least hf a b h.place) (h.least a' b' hs))

theorem find_none_iff {word s : Bytes} : find word s = none ↔ ∀ a b, s ≠ a ++ word ++ b := by
  constructor
  · rintro h a b rfl
    exact find_ne_none word b a h
  · intro h
    rw [Option.eq_none_iff_forall_ne_some]
    intro k hk
    obtain ⟨a, b, hs, -⟩ := find_split hk
    exact h a b hs

/-- **A prefix has the same first occurrence**, if it has all of it. -/
theorem find_prefix {pat r s : Bytes} (hr : r <+: s) :
    find pat r = (find pat s).filter fun k => decide (k + pat.length ≤ r.length) := by
  obtain ⟨c, rfl⟩ := hr
  cases hf : find pat r with
  | some k =>
    have hle := find_le hf
    rw [find_append_of_some hf]
    simp [Option.filter, hle]
  | none =>
    cases hs : find pat (r ++ c) with
    | none => rfl
    | some k =>
      by_cases hle : k + pat.length ≤ r.length
      · obtain ⟨a, b, hab, rfl⟩ := find_split hs
        rw [← List.length_append] at hle
        obtain ⟨b', hb'⟩ := List.prefix_of_prefix_length_le (show a ++ pat <+: _ from ⟨b, hab.symm⟩) ⟨c, rfl⟩ hle
        rw [← hb'] at hf
        exact absurd hf (find_ne_none pat b' a)
      · simp [Option.filter, hle]

theorem cstr_begins (x : Bytes) : cstr x <+: x := List.takeWhile_prefix _

theorem cstr_idem (x : Bytes) : cstr (cstr x) = cstr x := List.takeWhile_idem

theorem cstr_eq_self_iff {x : Bytes} : cstr x = x ↔ 0 ∉ x := by
  rw [cstr, List.takeWhile_eq_self_iff]
  simp only [decide_eq_true_eq]
  exact ⟨fun h h0 => h 0 h0 rfl, fun h b hb hb0 => h (hb0 ▸ hb)⟩

theorem nul_not_mem_cstr (x : Bytes) : 0 ∉ cstr x := cstr_eq_self_iff.1 (cstr_idem x)

theorem cstr_append_nul {x : Bytes} (y : Bytes) : cstr (x ++ 0 :: y) = cstr x := by
  induction x with
  | nil => rfl
  | cons c x ih =>
    rw [List.cons_append, cstr, cstr, List.takeWhile_cons, List.takeWhile_cons]
    split
    · exact congrArg (c :: ·) ih
    · rfl

/-! ## Lines -/

theorem find_tail_none {pat : Bytes} {c : UInt8} {l : Bytes} (h : find pat (c :: l) = none) :
    find pat l = none ∧ pat.isPrefixOf (c :: l) = false := by
  rw [find] at h
  split at h
  · cases h
  · next hp => exact ⟨Option.map_eq_none_iff.1 h, Bool.eq_false_iff.2 hp⟩

theorem find_none_of_not_mem {pat : Bytes} {p : UInt8} {l : Bytes} (h : p ∉ l) : find (p :: pat) l = none := by
  have hfind : find (p :: pat) (l ++ []) = (find (p :: pat) []).map (· + l.length) := find_append_of_not_mem [] h
  rw [List.append_nil] at hfind
  rw [hfind]
  rfl

/-- What begins a line without a CRLF begins no CRLF of the text either. -/
theorem crlf_not_begins {c : UInt8} {l : Bytes} (t : Bytes) (h : crlf.isPrefixOf (c :: l) = false) :
    crlf.isPrefixOf (c :: (l ++ crlf ++ t)) = false := by
  rw [Bool.eq_false_iff] at h ⊢
  intro hp
  cases l with
  | nil => simp [crlf, List.isPrefixOf] at hp
  | cons d l =>
    simp only [crlf, List.isPrefixOf, List.cons_append, Bool.and_eq_true, beq_iff_eq] at hp
    exact h (by simp [crlf, List.isPrefixOf, ← hp.1, ← hp.2.1])

/-- **A line ends at its CRLF.** -/
theorem find_crlf : ∀ {l : Bytes} (t : Bytes), find crlf l = none → find crlf (l ++ crlf ++ t) = some l.length
  | [], t, _ => find_of_prefix ⟨t, rfl⟩
  | c :: l, t, h => by
    obtain ⟨hl, hc⟩ := find_tail_none h
    rw [List.cons_append, List.cons_append, find, crlf_not_begins t hc, if_neg Bool.false_ne_true, find_crlf t hl]
    rfl

/-- **The blank line after a line**: it is that line's own CRLF when a CRLF follows, else it is further on. -/
theorem find_blank : ∀ {l : Bytes} (t : Bytes), find crlf l = none →
    find blankLine (l ++ crlf ++ t) =
      if crlf.isPrefixOf t then some l.length else (find blankLine t).map (· + (l.length + 2))
  | [], t, _ => by
    have hpre : blankLine.isPrefixOf (13 :: 10 :: t) = crlf.isPrefixOf t := rfl
    show find blankLine (13 :: 10 :: t) = _
    rw [find, hpre]
    by_cases hp : crlf.isPrefixOf t = true
    · rw [if_pos hp, if_pos hp]
      rfl
    · rw [if_neg hp, if_neg hp, blankLine, find_cons_of_ne (by decide), Option.map_map]
      rfl
  | c :: l, t, h => by
    obtain ⟨hl, hc⟩ := find_tail_none h
    have hno : blankLine.isPrefixOf (c :: (l ++ crlf ++ t)) = false := by
      rw [Bool.eq_false_iff]
      intro hp
      have hcrlf : crlf <+: c :: (l ++ crlf ++ t) :=
        (show crlf <+: blankLine from ⟨crlf, rfl⟩).trans (List.isPrefixOf_iff_prefix.1 hp)
      rw [← List.isPrefixOf_iff_prefix, crlf_not_begins t hc] at hcrlf
      cases hcrlf
    rw [List.cons_append, List.cons_append, find, hno, if_neg Bool.false_ne_true, find_blank t hl]
    split
    · rfl
    · rw [Option.map_map]
      congr 1

end Text
end Pico
