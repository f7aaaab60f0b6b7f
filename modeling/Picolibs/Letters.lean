import Picolibs.Locality
/-!
# Letters — what a text spells (`httprequest.cpp`)

A letter of a text is an escape with its `%`, or a single character.  `Spells` says which bytes letters stand for; a
letter and its byte stand at the same place, so a word is found in the decoded text exactly where letters of the sent
one spell it (`find_spelled`).
-/
namespace Pico
namespace Http

open Text

inductive Letter where
  | char (c : UInt8)
  /-- What stands behind a `%`: two characters, or what is left. -/
  | escape (e : Bytes)
  deriving DecidableEq

/-- The letters of a text; the budget is its length. -/
def lettersFrom : Nat → Bytes → List Letter
  | 0, _ => []
  | _ + 1, [] => []
  | n + 1, c :: s => if c = 37 then .escape (s.take 2) :: lettersFrom n (s.drop 2) else .char c :: lettersFrom n s

def letters (s : Bytes) : List Letter := lettersFrom s.length s

/-- The last escape that was read. -/
def Letter.last (ii : UInt8) : Letter → UInt8
  | char _ => ii
  | escape e => (scanHex e).getD ii

def lastRead (ii : UInt8) (ls : List Letter) : UInt8 := ls.foldl Letter.last ii

/-- The byte a letter stands for: an escape that is not read stands for the last one that was. -/
inductive Letter.Means (ii : UInt8) : Letter → UInt8 → Prop where
  | plain (c : UInt8) : c ≠ 43 → Means ii (char c) c
  | space : Means ii (char 43) 32
  | read (e : Bytes) (x : UInt8) : scanHex e = some x → Means ii (escape e) x
  | unread (e : Bytes) : scanHex e = none → Means ii (escape e) ii

inductive Spells : UInt8 → List Letter → Bytes → Prop where
  | nil (ii : UInt8) : Spells ii [] []
  | cons {ii c : UInt8} {l : Letter} {ls : List Letter} {t : Bytes} : l.Means ii c → Spells (l.last ii) ls t →
      Spells ii (l :: ls) (c :: t)

/-- Letters that spell a word, among others. -/
structure Spelled (ii : UInt8) (ls : List Letter) (word : Bytes) (a w b : List Letter) : Prop where
  place : ls = a ++ w ++ b
  spells : Spells (lastRead ii a) w word

/-- The first such. -/
structure SpelledFirst (ii : UInt8) (ls : List Letter) (word : Bytes) (a w b : List Letter) : Prop
    extends Spelled ii ls word a w b where
  least : ∀ a' w' b', Spelled ii ls word a' w' b' → a.length ≤ a'.length

/-! ## Every text spells one other -/

theorem lettersFrom_enough : ∀ (n m : Nat) (s : Bytes), s.length ≤ n → s.length ≤ m →
    lettersFrom n s = lettersFrom m s
  | 0, 0, _, _, _ => rfl
  | 0, _ + 1, [], _, _ => rfl
  | _ + 1, 0, [], _, _ => rfl
  | _ + 1, _ + 1, [], _, _ => rfl
  | 0, _, _ :: _, h, _ => absurd h (Nat.not_succ_le_zero _)
  | _, 0, _ :: _, _, h => absurd h (Nat.not_succ_le_zero _)
  | n + 1, m + 1, c :: s, hn, hm => by
    have hn' := Nat.le_of_succ_le_succ hn
    have hm' := Nat.le_of_succ_le_succ hm
    have hdrop : (s.drop 2).length ≤ s.length := by
      rw [List.length_drop]
      exact Nat.sub_le _ _
    rw [lettersFrom, lettersFrom, lettersFrom_enough n m s hn' hm',
      lettersFrom_enough n m (s.drop 2) (Nat.le_trans hdrop hn') (Nat.le_trans hdrop hm')]

theorem letters_escape (s : Bytes) : letters (37 :: s) = .escape (s.take 2) :: letters (s.drop 2) := by
  have hdrop : (s.drop 2).length ≤ s.length := by
    rw [List.length_drop]
    exact Nat.sub_le _ _
  rw [letters, List.length_cons, lettersFrom, if_pos rfl, letters,
    lettersFrom_enough s.length _ _ hdrop (Nat.le_refl _)]

theorem letters_plain {c : UInt8} (h : c ≠ 37) (s : Bytes) : letters (c :: s) = .char c :: letters s := by
  rw [letters, List.length_cons, lettersFrom, if_neg h, letters]

theorem Letter.Means.unique {ii c d : UInt8} {l : Letter} (hc : l.Means ii c) (hd : l.Means ii d) : c = d := by
  cases hc with
  | plain c h43 =>
    cases hd with
    | plain => rfl
    | space => exact absurd rfl h43
  | space =>
    cases hd with
    | plain _ h43 => exact absurd rfl h43
    | space => rfl
  | read e x hx =>
    cases hd with
    | read _ y hy => exact Option.some.inj (hx.symm.trans hy)
    | unread _ hnone => exact absurd (hx.symm.trans hnone) (Option.some_ne_none _)
  | unread e hnone =>
    cases hd with
    | read _ y hy => exact absurd (hy.symm.trans hnone) (Option.some_ne_none _)
    | unread => rfl

theorem Spells.unique {ii : UInt8} {ls : List Letter} {s t : Bytes} (hs : Spells ii ls s) (ht : Spells ii ls t) :
    s = t := by
  induction hs generalizing t with
  | nil => cases ht; rfl
  | cons hm _ ih =>
    cases ht with
    | cons hm' ht => rw [hm.unique hm', ih ht]

/-- A byte for each letter. -/
theorem Spells.length {ii : UInt8} {ls : List Letter} {t : Bytes} (h : Spells ii ls t) : ls.length = t.length := by
  induction h with
  | nil => rfl
  | cons _ _ ih => rw [List.length_cons, List.length_cons, ih]

theorem Spells.append {a b : List Letter} {u v : Bytes} : ∀ {ii : UInt8}, Spells ii a u →
    Spells (lastRead ii a) b v → Spells ii (a ++ b) (u ++ v)
  | _, .nil _, hb => hb
  | _, .cons hm ha, hb => .cons hm (ha.append hb)

theorem Spells.split {b : List Letter} : ∀ {a : List Letter} {ii : UInt8} {t : Bytes}, Spells ii (a ++ b) t →
    ∃ u v, t = u ++ v ∧ Spells ii a u ∧ Spells (lastRead ii a) b v
  | [], ii, t, h => ⟨[], t, rfl, .nil ii, h⟩
  | l :: a, ii, _, .cons hm h => by
    obtain ⟨u, v, rfl, hu, hv⟩ := Spells.split h
    exact ⟨_ :: u, v, rfl, .cons hm hu, hv⟩

/-- **What `uri_decode` makes of a text is what its letters spell.** -/
theorem spells_decoded (s : Bytes) : ∀ ii, Spells ii (letters s) (uriDecode ii s) := by
  induction s using escape_induction with
  | nil => exact fun ii => .nil ii
  | plain c s hc ih =>
    intro ii
    rw [letters_plain hc, uriDecode_cons, if_neg hc]
    split
    · next h43 =>
      rw [h43]
      exact .cons .space (ih ii)
    · next h43 => exact .cons (.plain c h43) (ih ii)
  | escape s ih =>
    intro ii
    rw [letters_escape, uriDecode_escape]
    refine .cons ?_ (ih _)
    cases hscan : scanHex (s.take 2) with
    | some x => exact .read _ x hscan
    | none => exact .unread _ hscan

/-! ## Words -/

/-- A word is spelled where it stands in the decoded text. -/
theorem Spelled.decoded {ii : UInt8} {ls a w b : List Letter} {t word : Bytes} (ht : Spells ii ls t)
    (h : Spelled ii ls word a w b) :
    ∃ u v, t = u ++ word ++ v ∧ Spells ii a u ∧ Spells (lastRead ii (a ++ w)) b v := by
  rw [h.place] at ht
  obtain ⟨s, v, rfl, hs, hv⟩ := ht.split
  obtain ⟨u, word', rfl, hu, hw⟩ := hs.split
  exact ⟨u, v, by rw [hw.unique h.spells], hu, hv⟩

/-- Letters cut where their text is cut. -/
theorem Spells.cut {u v : Bytes} {ls : List Letter} {ii : UInt8} (h : Spells ii ls (u ++ v)) :
    ∃ a b, ls = a ++ b ∧ Spells ii a u ∧ Spells (lastRead ii a) b v := by
  have hlen := h.length
  rw [List.length_append] at hlen
  obtain ⟨a, b, rfl, ha⟩ : ∃ a b, ls = a ++ b ∧ a.length = u.length :=
    ⟨_, _, (List.take_append_drop u.length ls).symm, by rw [List.length_take]; omega⟩
  obtain ⟨u', v', he, hu, hv⟩ := h.split
  obtain ⟨rfl, rfl⟩ := List.append_inj he (by rw [← ha, hu.length])
  exact ⟨a, b, rfl, hu, hv⟩

/-- And stands in it where it is spelled. -/
theorem spelled_of_decoded {ii : UInt8} {ls : List Letter} {u word v : Bytes} (ht : Spells ii ls (u ++ word ++ v)) :
    ∃ a w b, Spelled ii ls word a w b ∧ Spells ii a u ∧ Spells (lastRead ii (a ++ w)) b v := by
  obtain ⟨r, b, rfl, hr, hb⟩ := ht.cut
  obtain ⟨a, w, rfl, ha, hw⟩ := hr.cut
  exact ⟨a, w, b, ⟨rfl, hw⟩, ha, hb⟩

/-- **The first place of a word in the decoded text is the first where it is spelled.** -/
theorem first_spelled {ii : UInt8} {ls : List Letter} {t word : Bytes} (ht : Spells ii ls t) (v : Bytes) :
    (∃ u, First word t u v) ↔
      ∃ a w b, SpelledFirst ii ls word a w b ∧ Spells (lastRead ii (a ++ w)) b v := by
  constructor
  · rintro ⟨u, h⟩
    have hplace := h.place
    rw [hplace] at ht
    obtain ⟨a, w, b, hs, hu, hv⟩ := spelled_of_decoded ht
    refine ⟨a, w, b, ⟨hs, fun a' w' b' hs' => ?_⟩, hv⟩
    obtain ⟨u', v', he, hu', -⟩ := hs'.decoded ht
    rw [hu.length, hu'.length]
    exact h.least u' v' (hplace.trans he)
  · rintro ⟨a, w, b, h, hv⟩
    obtain ⟨u, v', he, hu, hv'⟩ := h.toSpelled.decoded ht
    rw [hv'.unique hv] at he
    refine ⟨u, he, fun u' v' he' => ?_⟩
    rw [he'] at ht
    obtain ⟨a', w', b', hs', hu', -⟩ := spelled_of_decoded ht
    rw [← hu.length, ← hu'.length]
    exact h.least a' w' b' hs'

/-- **Letters spell a word exactly when the decoded text has it.** -/
theorem exists_spelled {ii : UInt8} {ls : List Letter} {t word : Bytes} (ht : Spells ii ls t) :
    (∃ u v, t = u ++ word ++ v) ↔ ∃ a w b, Spelled ii ls word a w b := by
  constructor
  · rintro ⟨u, v, rfl⟩
    obtain ⟨a, w, b, h, -⟩ := spelled_of_decoded ht
    exact ⟨a, w, b, h⟩
  · rintro ⟨a, w, b, h⟩
    obtain ⟨u, v, he, -⟩ := h.decoded ht
    exact ⟨u, v, he⟩

end Http
end Pico
