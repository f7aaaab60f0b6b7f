import Picolibs.Http
/-!
# Tokens — a string taken apart and put together again (`txt.h`, `txt.cpp`)

`Http.split` is `TXT::split`; at a single separator it is `List.splitOn`.  `join` puts the separator before a token
when the text built so far is not empty, so that it drops the separators behind empty tokens at the front.
-/
namespace Pico
namespace Tokens

open Text (findFirstOf)
open Http (split splitFrom)

/-- The loop of `join`: the text built so far, and the tokens to come. -/
def joinFrom (separator : Bytes) : Bytes → List Bytes → Bytes
  | ret, [] => ret
  | ret, token :: tokens => joinFrom separator ((if ret.isEmpty then ret else ret ++ separator) ++ token) tokens

/-- `TXT::join`. -/
def join (tokens : List Bytes) (separator : Bytes) : Bytes := joinFrom separator [] tokens

/-! ## `split` -/

theorem findFirstOf_cases (c : UInt8) (s : Bytes) :
    (findFirstOf [c] s 0 = none ∧ c ∉ s) ∨
      ∃ a b, s = a ++ c :: b ∧ c ∉ a ∧ findFirstOf [c] s 0 = some a.length := by
  have hset : ∀ x : UInt8, [c].contains x = (x == c) := fun x => by
    rw [List.contains_cons, List.contains_nil, Bool.or_false]
  by_cases hc : c ∈ s
  · obtain ⟨a, b, rfl, ha⟩ := List.eq_append_cons_of_mem hc
    refine Or.inr ⟨a, b, rfl, ha, ?_⟩
    have hnone : a.findIdx? (fun x => [c].contains x) = none :=
      List.findIdx?_eq_none_iff.2 fun x hx => by
        rw [hset, beq_eq_false_iff_ne]
        exact fun he => ha (he ▸ hx)
    rw [findFirstOf, List.drop_zero, List.findIdx?_append, hnone, List.findIdx?_cons, hset, beq_self_eq_true]
    simp
  · refine Or.inl ⟨?_, hc⟩
    rw [findFirstOf, Option.map_eq_none_iff, List.drop_zero, List.findIdx?_eq_none_iff]
    intro x hx
    rw [hset, beq_eq_false_iff_ne]
    exact fun he => hc (he ▸ hx)

theorem splitFrom_eq (c : UInt8) : ∀ (n : Nat) (rest : Bytes), rest.length < n →
    splitFrom [c] n rest = rest.splitOn c
  | 0, _, h => absurd h (Nat.not_lt_zero _)
  | n + 1, [], _ => rfl
  | n + 1, x :: rest, h => by
    rw [splitFrom, List.isEmpty_cons, if_neg Bool.false_ne_true]
    rcases findFirstOf_cases c (x :: rest) with ⟨hf, hc⟩ | ⟨a, b, he, ha, hf⟩
    · rw [hf, List.splitOn_eq_singleton hc]
    · have hlen := congrArg List.length he
      rw [List.length_cons] at h hlen
      rw [List.length_append, List.length_cons] at hlen
      rw [hf, he, List.splitOn_append_cons_self_of_not_mem ha]
      simp only [List.take_left, List.drop_length_add_append, List.drop_succ_cons, List.drop_zero]
      rw [splitFrom_eq c n b (by omega)]

/-- **At one separator, `split` is `List.splitOn`.** -/
theorem split_eq (s : Bytes) (c : UInt8) : split s [c] = s.splitOn c := by
  rw [split]
  rcases findFirstOf_cases c s with ⟨hf, hc⟩ | ⟨a, b, rfl, ha, hf⟩
  · rw [hf, List.splitOn_eq_singleton hc]
  · rw [hf, List.splitOn_append_cons_self_of_not_mem ha]
    simp only [List.take_left, List.drop_length_add_append, List.drop_succ_cons, List.drop_zero]
    rw [splitFrom_eq c _ b (by rw [List.length_append, List.length_cons]; omega)]

theorem not_mem_splitOn (c : UInt8) : ∀ (s t : Bytes), t ∈ s.splitOn c → c ∉ t
  | [], t, h => by
    rw [List.splitOn_nil, List.mem_singleton] at h
    rw [h]
    exact List.not_mem_nil
  | x :: s, t, h => by
    have ih := not_mem_splitOn c s
    rw [List.splitOn_cons_eq_if_modifyHead] at h
    split at h
    · rcases List.mem_cons.1 h with rfl | h
      · exact List.not_mem_nil
      · exact ih t h
    · next hx =>
      cases hs : s.splitOn c with
      | nil => exact absurd hs (List.splitOn_ne_nil _ _)
      | cons u us =>
        rw [hs, List.modifyHead_cons] at h
        rw [hs] at ih
        rcases List.mem_cons.1 h with rfl | h
        · rw [List.mem_cons, not_or]
          exact ⟨fun he => hx (beq_iff_eq.2 he.symm), ih u (List.mem_cons_self ..)⟩
        · exact ih t (List.mem_cons_of_mem _ h)

theorem length_splitOn (c : UInt8) : ∀ s : Bytes, (s.splitOn c).length = s.count c + 1
  | [] => rfl
  | x :: s => by
    rw [List.splitOn_cons_eq_if_modifyHead, List.count_cons]
    by_cases hx : (x == c) = true
    · rw [if_pos hx, if_pos hx, List.length_cons, length_splitOn c s]
    · rw [if_neg hx, if_neg hx, List.length_modifyHead, length_splitOn c s]

/-! ## `join` -/

theorem joinFrom_eq (separator : Bytes) : ∀ (tokens : List Bytes) (ret : Bytes), ret ≠ [] →
    joinFrom separator ret tokens = separator.intercalate (ret :: tokens)
  | [], ret, _ => List.intercalate_singleton.symm
  | token :: tokens, ret, h => by
    rw [joinFrom, List.isEmpty_eq_false_iff.2 h, if_neg Bool.false_ne_true,
      joinFrom_eq separator tokens _ (fun hnil => h (by simp_all)), List.intercalate_cons_cons]
    cases tokens with
    | nil => rw [List.intercalate_singleton, List.intercalate_singleton, List.append_assoc]
    | cons u us =>
      rw [List.intercalate_cons_cons, List.intercalate_cons_cons]
      simp only [List.append_assoc]

/-- **`join` leaves out the empty tokens at the front.** -/
theorem join_eq (separator : Bytes) : ∀ tokens : List Bytes,
    join tokens separator = separator.intercalate (tokens.dropWhile List.isEmpty)
  | [] => rfl
  | [] :: tokens => join_eq separator tokens
  | (x :: token) :: tokens => by
    rw [join, joinFrom, List.dropWhile_cons_of_neg (by simp)]
    exact joinFrom_eq separator tokens _ (List.cons_ne_nil _ _)

/-! ## Back and forth -/

theorem length_intercalate_dropWhile (separator : Bytes) : ∀ tokens : List Bytes,
    (separator.intercalate (tokens.dropWhile List.isEmpty)).length ≤ (separator.intercalate tokens).length
  | [] => Nat.le_refl _
  | (x :: token) :: tokens => by
    rw [List.dropWhile_cons_of_neg (by simp)]
  | [] :: tokens => by
    rw [List.dropWhile_cons_of_pos List.isEmpty_nil]
    refine Nat.le_trans (length_intercalate_dropWhile separator tokens) ?_
    by_cases ht : tokens = []
    · rw [ht, List.intercalate_nil]
      exact Nat.zero_le _
    · rw [List.intercalate_cons_of_ne_nil ht, List.length_append]
      exact Nat.le_add_left _ _

/-- A string is put together again unless it begins with the separator. -/
theorem join_splitOn (c : UInt8) (s : Bytes) : join (s.splitOn c) [c] = s ↔ s.head? ≠ some c := by
  have hs : [c].intercalate (s.splitOn c) = s := List.intercalate_splitOn c
  rw [join_eq]
  cases ht : s.splitOn c with
  | nil => exact absurd ht (List.splitOn_ne_nil _ _)
  | cons token tokens =>
    rw [ht] at hs
    cases token with
    | cons x token =>
      rw [List.dropWhile_cons_of_neg (by simp)]
      refine iff_of_true hs fun hc => ?_
      have hmem : c ∉ x :: token := not_mem_splitOn c s _ (by rw [ht]; exact List.mem_cons_self ..)
      have hx : s.head? = some x := by
        rw [← hs]
        cases tokens with
        | nil => rfl
        | cons u us => rw [List.intercalate_cons_cons]; rfl
      rw [hx] at hc
      exact hmem (by rw [← Option.some.inj hc]; exact List.mem_cons_self ..)
    | nil =>
      rw [List.dropWhile_cons_of_pos List.isEmpty_nil]
      by_cases htok : tokens = []
      · subst htok
        rw [List.intercalate_singleton] at hs
        rw [← hs]
        exact iff_of_true rfl (by simp)
      · rw [List.intercalate_cons_of_ne_nil htok] at hs
        refine iff_of_false (fun hj => ?_) (fun hne => hne (by rw [← hs]; rfl))
        have hle := length_intercalate_dropWhile [c] tokens
        have hlen := congrArg List.length hs
        rw [hj] at hle
        simp only [List.length_append, List.length_nil, List.length_singleton] at hlen
        omega

/-- Tokens are found again unless there are several and the first is empty. -/
theorem splitOn_join (c : UInt8) {l : List Bytes} (hne : l ≠ []) (h : ∀ t ∈ l, c ∉ t) :
    (join l [c]).splitOn c = l ↔ l.head? ≠ some [] ∨ l.length = 1 := by
  rw [join_eq]
  cases l with
  | nil => exact absurd rfl hne
  | cons token tokens =>
    cases token with
    | cons x token =>
      rw [List.dropWhile_cons_of_neg (by simp)]
      exact iff_of_true (List.splitOn_intercalate c h hne) (Or.inl (by simp))
    | nil =>
      rw [List.dropWhile_cons_of_pos List.isEmpty_nil]
      have hsub : tokens.dropWhile List.isEmpty <:+ tokens := List.dropWhile_suffix _
      by_cases hd : tokens.dropWhile List.isEmpty = []
      · rw [hd, List.intercalate_nil, List.splitOn_nil]
        cases tokens with
        | nil => exact iff_of_true rfl (Or.inr rfl)
        | cons u us => simp
      · rw [List.splitOn_intercalate c (fun t ht => h t (List.mem_cons_of_mem _ (hsub.subset ht))) hd]
        have hle := hsub.length_le
        have hpos := List.length_pos_iff.2 hd
        refine iff_of_false (fun he => ?_) ?_
        · have := congrArg List.length he
          rw [List.length_cons] at this
          omega
        · rw [List.length_cons, List.head?_cons]
          simp only [ne_eq, not_true, false_or]
          omega

/-- **`split` and `join` at one separator**: the tokens do not have it and are one more than it occurs; a string comes
back unless it begins with the separator, and tokens come back unless there are several and the first is empty. -/
theorem split_join (c : UInt8) :
    (∀ s : Bytes, (∀ t ∈ split s [c], c ∉ t) ∧ (split s [c]).length = s.count c + 1 ∧
      (join (split s [c]) [c] = s ↔ s.head? ≠ some c)) ∧
    ∀ l : List Bytes, l ≠ [] → (∀ t ∈ l, c ∉ t) →
      (split (join l [c]) [c] = l ↔ l.head? ≠ some [] ∨ l.length = 1) := by
  constructor
  · intro s
    rw [split_eq]
    exact ⟨not_mem_splitOn c s, length_splitOn c s, join_splitOn c s⟩
  · intro l hne h
    rw [split_eq]
    exact splitOn_join c hne h

theorem split_join_comma :
    split (join [ascii "a", [], ascii "b"] (ascii ",")) (ascii ",") = [ascii "a", [], ascii "b"] :=
  ((split_join 44).2 [ascii "a", [], ascii "b"] (by decide) (by decide)).2 (Or.inl (by decide))

/-- An empty first token is lost, and with it its separator. -/
theorem join_drops : ¬ ∀ c : UInt8,
    (∀ s : Bytes, (∀ t ∈ split s [c], c ∉ t) ∧ (split s [c]).length = s.count c + 1 ∧ join (split s [c]) [c] = s) ∧
    ∀ l : List Bytes, l ≠ [] → (∀ t ∈ l, c ∉ t) → split (join l [c]) [c] = l := by
  intro h
  exact absurd ((h 44).1 (ascii ",a")).2.2 (by decide)

end Tokens
end Pico
