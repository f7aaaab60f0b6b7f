import Picolibs.Text
/-!
# Segments — occurrences of a pattern between separators

A byte that a pattern does not have separates what is searched: the pattern is found on one side of it or on the other
(`find_sep`).  `replaceEvery` replaces the occurrences of a pattern from left to right.  In a text that has the pattern
in quotes only, these are the quoted ones, whatever they are replaced by (`replaceEvery_quoted`).
-/
namespace Pico
namespace Segments

open Text

/-- Every occurrence of `pat` replaced; the number is how much is left of the occurrence that is being passed. -/
def replaceEvery (pat r : Bytes) : Nat → Bytes → Bytes
  | _, [] => []
  | k + 1, _ :: s => replaceEvery pat r k s
  | 0, c :: s =>
    if pat.isPrefixOf (c :: s) then r ++ replaceEvery pat r (pat.length - 1) s else c :: replaceEvery pat r 0 s

/-- The same text in quotes before every part. -/
def quoted (q : UInt8) (m : Bytes) (parts : List Bytes) : Bytes := parts.flatMap fun p => q :: (m ++ q :: p)

variable {pat : Bytes} {q : UInt8}

/-! ## A pattern in a text -/

theorem find_eq_none_iff {x : Bytes} : find pat x = none ↔ ¬ pat <:+: x := by
  constructor
  · rintro h ⟨a, b, rfl⟩
    exact find_ne_none pat b a h
  · intro h
    cases hf : find pat x with
    | none => rfl
    | some k =>
      obtain ⟨a, b, rfl, -⟩ := find_split hf
      exact absurd ⟨a, b, rfl⟩ h

theorem find_none_of_lacks {c : UInt8} {x : Bytes} (hc : c ∈ pat) (hx : c ∉ x) : find pat x = none := by
  rw [find_eq_none_iff]
  exact fun h => hx (h.subset hc)

/-! ## Separators -/

theorem isPrefixOf_sep (hq : q ∉ pat) (a b : Bytes) : pat.isPrefixOf (a ++ q :: b) = pat.isPrefixOf a := by
  rw [Bool.eq_iff_iff, List.isPrefixOf_iff_prefix, List.isPrefixOf_iff_prefix]
  constructor
  · rintro ⟨c, hc⟩
    rcases List.append_eq_append_iff.1 hc with ⟨m, rfl, -⟩ | ⟨m, rfl, hm⟩
    · exact List.prefix_append pat m
    · cases m with
      | nil => exact ⟨[], by simp⟩
      | cons d m =>
        rw [List.cons_append, List.cons.injEq] at hm
        exact absurd (List.mem_append_right a (hm.1 ▸ List.mem_cons_self)) hq
  · exact fun h => h.trans (List.prefix_append a _)

/-- **A pattern is not found across a separator.** -/
theorem find_sep (hq : q ∉ pat) : ∀ {a : Bytes} (b : Bytes), find pat a = none →
    find pat (a ++ q :: b) = (find pat b).map (· + (a.length + 1))
  | [], b, h => by
    have hp := isPrefixOf_sep hq [] b
    rw [List.nil_append] at hp
    rw [List.nil_append, find, hp]
    cases pat with
    | nil => cases h
    | cons p pat => rfl
  | c :: a, b, h => by
    obtain ⟨ha, hc⟩ := find_tail_none h
    have hp := isPrefixOf_sep hq (c :: a) b
    rw [List.cons_append] at hp
    rw [List.cons_append, find, hp, hc, if_neg Bool.false_ne_true, find_sep hq b ha, Option.map_map]
    rfl

theorem free_sep (hq : q ∉ pat) {a b : Bytes} (ha : find pat a = none) (hb : find pat b = none) :
    find pat (a ++ q :: b) = none := by
  rw [find_sep hq b ha, hb]
  rfl

/-- Lines that the pattern is not in are passed. -/
theorem find_lines (hq : 10 ∉ pat) : ∀ {ls : List Bytes} (x : Bytes), (∀ l ∈ ls, find pat (l ++ [13]) = none) →
    find pat (ls.flatMap (· ++ crlf) ++ x) = (find pat x).map (· + (ls.flatMap (· ++ crlf)).length)
  | [], x, _ => by simp
  | l :: ls, x, h => by
    have ih := find_lines hq x fun l' hl' => h l' (List.mem_cons_of_mem l hl')
    have hsplit : (l :: ls).flatMap (· ++ crlf) ++ x = l ++ [13] ++ 10 :: (ls.flatMap (· ++ crlf) ++ x) := by
      simp [crlf]
    rw [hsplit, find_sep hq _ (h l List.mem_cons_self), ih, Option.map_map]
    congr 1
    funext k
    simp [crlf]
    omega

/-! ## A pattern in quotes -/

theorem quoted_cons (m p : Bytes) (parts : List Bytes) :
    quoted q m (p :: parts) = q :: (m ++ q :: (p ++ quoted q m parts)) := by
  rw [quoted, List.flatMap_cons, List.cons_append, List.append_assoc]
  rfl

theorem find_quoted (hq : q ∉ pat) {pre : Bytes} (hpre : find pat pre = none) (p : Bytes) (parts : List Bytes) :
    find pat (pre ++ quoted q pat (p :: parts)) = some (pre.length + 1) := by
  rw [quoted_cons, find_sep hq _ hpre, find_of_prefix (List.prefix_append _ _), Option.map_some, Nat.zero_add]

theorem mem_quoted {m : Bytes} : ∀ {parts : List Bytes}, parts ≠ [] → m <:+: quoted q m parts
  | p :: parts, _ => ⟨[q], q :: (p ++ quoted q m parts), by rw [quoted_cons]; simp⟩

theorem not_mem_quoted {c : UInt8} {m : Bytes} {parts : List Bytes} (hc : c ≠ q) (hm : c ∉ m)
    (hparts : ∀ p ∈ parts, c ∉ p) : c ∉ quoted q m parts := by
  rw [quoted, List.mem_flatMap]
  rintro ⟨p, hp, hmem⟩
  simp only [List.mem_cons, List.mem_append] at hmem
  rcases hmem with rfl | h | rfl | h
  · exact hc rfl
  · exact hm h
  · exact hc rfl
  · exact hparts p hp h

theorem length_quoted_le {m m' : Bytes} (h : m.length ≤ m'.length) : ∀ parts : List Bytes,
    (quoted q m parts).length ≤ (quoted q m' parts).length
  | [] => Nat.le_refl 0
  | p :: parts => by
    have ih := length_quoted_le h parts
    rw [quoted_cons, quoted_cons]
    simp only [List.length_cons, List.length_append]
    omega

/-! ## Every occurrence -/

theorem replaceEvery_sep (hq : q ∉ pat) (r : Bytes) : ∀ {a : Bytes} (b : Bytes), find pat a = none →
    replaceEvery pat r 0 (a ++ q :: b) = a ++ q :: replaceEvery pat r 0 b
  | [], b, h => by
    have hp := isPrefixOf_sep hq [] b
    rw [List.nil_append] at hp
    rw [List.nil_append, replaceEvery, hp]
    cases pat with
    | nil => cases h
    | cons p pat => rfl
  | c :: a, b, h => by
    obtain ⟨ha, hc⟩ := find_tail_none h
    have hp := isPrefixOf_sep hq (c :: a) b
    rw [List.cons_append] at hp
    rw [List.cons_append, replaceEvery, hp, hc, if_neg Bool.false_ne_true, replaceEvery_sep hq r b ha]
    rfl

theorem replaceEvery_free (r : Bytes) : ∀ {a : Bytes}, find pat a = none → replaceEvery pat r 0 a = a
  | [], _ => rfl
  | c :: a, h => by
    obtain ⟨ha, hc⟩ := find_tail_none h
    rw [replaceEvery, hc, if_neg Bool.false_ne_true, replaceEvery_free r ha]

theorem replaceEvery_skip (r b : Bytes) : ∀ a : Bytes, replaceEvery pat r a.length (a ++ b) = replaceEvery pat r 0 b
  | [] => rfl
  | _ :: a => replaceEvery_skip r b a

theorem replaceEvery_here (hp : pat ≠ []) (r b : Bytes) :
    replaceEvery pat r 0 (pat ++ b) = r ++ replaceEvery pat r 0 b := by
  cases pat with
  | nil => exact absurd rfl hp
  | cons p pat =>
    have hpre : (p :: pat).isPrefixOf (p :: (pat ++ b)) = true :=
      List.isPrefixOf_iff_prefix.2 (List.prefix_append (p :: pat) b)
    have hskip : replaceEvery (p :: pat) r pat.length (pat ++ b) = replaceEvery (p :: pat) r 0 b :=
      replaceEvery_skip r b pat
    rw [List.cons_append, replaceEvery, if_pos hpre, List.length_cons, Nat.add_sub_cancel, hskip]

/-- **The quoted occurrences are replaced.** -/
theorem replaceEvery_quoted (hq : q ∉ pat) (r : Bytes) : ∀ {parts : List Bytes} {pre : Bytes}, find pat pre = none →
    (∀ p ∈ parts, find pat p = none) → replaceEvery pat r 0 (pre ++ quoted q pat parts) = pre ++ quoted q r parts
  | [], pre, hpre, _ => by
    simp only [quoted, List.flatMap_nil, List.append_nil]
    exact replaceEvery_free r hpre
  | p :: parts, pre, hpre, hparts => by
    have hne : pat ≠ [] := by
      rintro rfl
      exact find_eq_none_iff.1 hpre (List.nil_infix)
    have ih := replaceEvery_quoted hq r (hparts p List.mem_cons_self) fun p' hp' =>
      hparts p' (List.mem_cons_of_mem p hp')
    have hnil : find pat ([] : Bytes) = none := find_eq_none_iff.2 fun h => hne (List.infix_nil.1 h)
    have hclose : ∀ b, replaceEvery pat r 0 (q :: b) = q :: replaceEvery pat r 0 b := fun b =>
      replaceEvery_sep hq r b hnil
    rw [quoted_cons, quoted_cons, replaceEvery_sep hq r _ hpre, replaceEvery_here hne, hclose, ih]

end Segments
end Pico
