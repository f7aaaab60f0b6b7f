import Picolibs.Escapes
/-!
# Locality — what an escape decodes to by itself (`httprequest.cpp`)

`uri_decode` keeps the last escape it read in `ii`, and takes it again for one that `sscanf` cannot read; before the
first one `ii` is whatever the memory holds.  `escapes` has what stands behind each `%`, two characters or what is left.
Texts that are not cut inside an escape are decoded one after the other exactly when the first escape of each is read
(`decode_append_iff`).
-/
namespace Pico
namespace Http

open Text

/-- The escapes of a text, without their `%`; the budget is its length. -/
def escapesFrom : Nat → Bytes → List Bytes
  | 0, _ => []
  | _ + 1, [] => []
  | n + 1, c :: s => if c = 37 then s.take 2 :: escapesFrom n (s.drop 2) else escapesFrom n s

def escapes (s : Bytes) : List Bytes := escapesFrom s.length s

/-- The text does not end inside an escape. -/
def Whole (s : Bytes) : Prop := ∀ e ∈ escapes s, e.length = 2

/-- `sscanf` reads the escape. -/
def Read (e : Bytes) : Prop := (scanHex e).isSome = true

/-- The first escape is read, if there is one. -/
def FirstRead (s : Bytes) : Prop := ∀ e ∈ (escapes s).head?, Read e

instance (s : Bytes) : Decidable (Whole s) := inferInstanceAs (Decidable (∀ e ∈ escapes s, e.length = 2))

instance (s : Bytes) : Decidable (FirstRead s) :=
  inferInstanceAs (Decidable (∀ e ∈ (escapes s).head?, (scanHex e).isSome = true))

/-- `ii` behind a text. -/
def carry (ii : UInt8) (s : Bytes) : UInt8 := (escapes s).foldl (fun ii e => (scanHex e).getD ii) ii

/-! ## The escapes one after the other -/

theorem escapesFrom_enough : ∀ (n m : Nat) (s : Bytes), s.length ≤ n → s.length ≤ m →
    escapesFrom n s = escapesFrom m s
  | 0, 0, _, _, _ => rfl
  | 0, _ + 1, [], _, _ => rfl
  | _ + 1, 0, [], _, _ => rfl
  | _ + 1, _ + 1, [], _, _ => rfl
  | 0, _, _ :: _, h, _ => absurd h (Nat.not_succ_le_zero _)
  | _, 0, _ :: _, _, h => absurd h (Nat.not_succ_le_zero _)
  | n + 1, m + 1, c :: s, hn, hm => by
    have hn' := Nat.le_of_succ_le_succ hn
    have hm' := Nat.le_of_succ_le_succ hm
    have hdrop : (s.drop 2).length ≤ s.length := by
      rw [List.length_drop]
      exact Nat.sub_le _ _
    rw [escapesFrom, escapesFrom, escapesFrom_enough n m s hn' hm',
      escapesFrom_enough n m (s.drop 2) (Nat.le_trans hdrop hn') (Nat.le_trans hdrop hm')]

theorem escapes_escape (s : Bytes) : escapes (37 :: s) = s.take 2 :: escapes (s.drop 2) := by
  have hdrop : (s.drop 2).length ≤ s.length := by
    rw [List.length_drop]
    exact Nat.sub_le _ _
  rw [escapes, List.length_cons, escapesFrom, if_pos rfl, escapes,
    escapesFrom_enough s.length _ _ hdrop (Nat.le_refl _)]

theorem escapes_plain {c : UInt8} (h : c ≠ 37) (s : Bytes) : escapes (c :: s) = escapes s := by
  rw [escapes, List.length_cons, escapesFrom, if_neg h, escapes]

/-- The induction from one escape to the next. -/
theorem escape_induction {P : Bytes → Prop} (nil : P []) (plain : ∀ c s, c ≠ 37 → P s → P (c :: s))
    (escape : ∀ s, P (s.drop 2) → P (37 :: s)) (s : Bytes) : P s := by
  induction hn : s.length using Nat.strongRecOn generalizing s with
  | _ n ih =>
    cases s with
    | nil => exact nil
    | cons c s =>
      rw [List.length_cons] at hn
      by_cases hc : c = 37
      · rw [hc]
        exact escape s (ih _ (by rw [List.length_drop]; omega) (s.drop 2) rfl)
      · exact plain c s hc (ih _ (by omega) s rfl)

theorem uriDecode_escape (ii : UInt8) (s : Bytes) :
    uriDecode ii (37 :: s) = (scanHex (s.take 2)).getD ii :: uriDecode ((scanHex (s.take 2)).getD ii) (s.drop 2) := by
  rw [uriDecode_cons, if_pos rfl]

theorem uriDecode_other {c : UInt8} (h : c ≠ 37) :
    ∃ d, ∀ (ii : UInt8) (s : Bytes), uriDecode ii (c :: s) = d :: uriDecode ii s := by
  by_cases h43 : c = 43
  · exact ⟨32, fun ii s => by rw [uriDecode_cons, if_neg h, if_pos h43]⟩
  · exact ⟨c, fun ii s => uriDecode_plain h h43 ii s⟩

/-- An escape that is all there has two characters, whatever follows. -/
theorem take_whole {s : Bytes} (h : (s.take 2).length = 2) (b : Bytes) :
    (s ++ b).take 2 = s.take 2 ∧ (s ++ b).drop 2 = s.drop 2 ++ b := by
  rw [List.length_take] at h
  exact ⟨List.take_append_of_le_length (by omega), List.drop_append_of_le_length (by omega)⟩

/-- **A whole text is decoded first, and its last escape is in `ii` for what follows.** -/
theorem uriDecode_first (b : Bytes) (a : Bytes) : Whole a →
    escapes (a ++ b) = escapes a ++ escapes b ∧
      ∀ ii, uriDecode ii (a ++ b) = uriDecode ii a ++ uriDecode (carry ii a) b := by
  induction a using escape_induction with
  | nil => exact fun _ => ⟨rfl, fun _ => rfl⟩
  | plain c s hc ih =>
    intro h
    rw [Whole, escapes_plain hc] at h
    obtain ⟨hesc, hdec⟩ := ih h
    obtain ⟨d, hd⟩ := uriDecode_other hc
    refine ⟨by rw [List.cons_append, escapes_plain hc, escapes_plain hc, hesc], fun ii => ?_⟩
    rw [List.cons_append, hd, hd, hdec, carry, carry, escapes_plain hc, List.cons_append]
  | escape s ih =>
    intro h
    rw [Whole, escapes_escape] at h
    obtain ⟨hesc, hdec⟩ := ih fun e he => h e (List.mem_cons_of_mem _ he)
    obtain ⟨htake, hdrop⟩ := take_whole (h _ List.mem_cons_self) b
    refine ⟨?_, fun ii => ?_⟩
    · rw [List.cons_append, escapes_escape, escapes_escape, htake, hdrop, hesc, List.cons_append]
    · rw [List.cons_append, uriDecode_escape, uriDecode_escape, htake, hdrop, hdec, carry, carry, escapes_escape,
        List.foldl_cons, List.cons_append]

/-- **The memory is seen unless the first escape is read.** -/
theorem uriDecode_garbage (s : Bytes) : (∀ g g', uriDecode g s = uriDecode g' s) ↔ FirstRead s := by
  induction s using escape_induction with
  | nil => exact iff_of_true (fun _ _ => rfl) (by simp [FirstRead, escapes, escapesFrom])
  | plain c s hc ih =>
    obtain ⟨d, hd⟩ := uriDecode_other hc
    rw [FirstRead, escapes_plain hc, ← FirstRead, ← ih]
    simp only [hd, List.cons.injEq, true_and]
  | escape s _ =>
    rw [FirstRead, escapes_escape]
    simp only [List.head?_cons, Option.mem_some_iff, forall_eq', Read, uriDecode_escape]
    cases hscan : scanHex (s.take 2) with
    | some x => exact iff_of_true (fun _ _ => rfl) rfl
    | none =>
      refine iff_of_false (fun h => ?_) Bool.false_ne_true
      have h01 := (List.cons.inj (h 0 1)).1
      exact absurd h01 (by decide)

/-! ## Texts decoded one after the other -/

/-- Decoded together or one after the other, whatever `ii` holds at the start of each call. -/
def Appends (a b : Bytes) : Prop := ∀ g g1 g2, uriDecode g (a ++ b) = uriDecode g1 a ++ uriDecode g2 b

/-- What is behind any place of the text is decoded as if nothing stood before it. -/
def Local (s : Bytes) : Prop := ∀ a b, s = a ++ b → Whole a → Appends a b

theorem appends_iff {a : Bytes} (b : Bytes) (h : Whole a) : Appends a b ↔ FirstRead a ∧ FirstRead b := by
  rw [← uriDecode_garbage a, ← uriDecode_garbage b]
  constructor
  · intro happ
    constructor
    · intro g g'
      exact List.append_cancel_right ((happ 0 g 0).symm.trans (happ 0 g' 0))
    · intro g g'
      exact List.append_cancel_left ((happ 0 0 g).symm.trans (happ 0 0 g'))
  · rintro ⟨ha, hb⟩ g g1 g2
    rw [(uriDecode_first b a h).2, ha g g1, hb (carry g a) g2]

/-- Each escape stands behind a whole text. -/
theorem mem_escapes (s : Bytes) : ∀ e ∈ escapes s, ∃ a w, s = a ++ 37 :: w ∧ Whole a ∧ e = w.take 2 := by
  induction s using escape_induction with
  | nil => exact fun e he => absurd he List.not_mem_nil
  | plain c s hc ih =>
    intro e he
    rw [escapes_plain hc] at he
    obtain ⟨a, w, rfl, ha, rfl⟩ := ih e he
    refine ⟨c :: a, w, rfl, ?_, rfl⟩
    rw [Whole, escapes_plain hc]
    exact ha
  | escape s ih =>
    intro e he
    rw [escapes_escape] at he
    rcases List.mem_cons.1 he with rfl | he
    · exact ⟨[], s, rfl, fun e he => absurd he List.not_mem_nil, rfl⟩
    · obtain ⟨a, w, hs, ha, rfl⟩ := ih e he
      have hlen : (s.take 2).length = 2 := by
        have := congrArg List.length hs
        rw [List.length_drop, List.length_append, List.length_cons] at this
        rw [List.length_take]
        omega
      refine ⟨37 :: (s.take 2 ++ a), w, ?_, ?_, rfl⟩
      · rw [List.cons_append, List.append_assoc, ← hs, List.take_append_drop]
      · have hfront := take_whole (s := s.take 2) (by rw [List.take_take]; exact hlen) a
        rw [List.take_take, Nat.min_self, List.drop_eq_nil_of_le (Nat.le_of_eq hlen), List.nil_append] at hfront
        rw [Whole, escapes_escape, hfront.1, hfront.2]
        intro e he
        rcases List.mem_cons.1 he with rfl | he
        · exact hlen
        · exact ha e he

/-- **When the parts of a text are decoded one after the other, and when every escape by itself**: a part that does not
end inside an escape and what is behind it, if `sscanf` reads the first escape of each; every escape, if `sscanf` reads
them all. -/
theorem decode_append_iff (s : Bytes) :
    (∀ a b : Bytes, s = a ++ b → Whole a → (Appends a b ↔ FirstRead a ∧ FirstRead b)) ∧
      (Local s ↔ ∀ e ∈ escapes s, Read e) := by
  refine ⟨fun a b _ h => appends_iff b h, fun h e he => ?_, fun h => ?_⟩
  · obtain ⟨a, w, hs, ha, rfl⟩ := mem_escapes s e he
    have hfirst := ((appends_iff (37 :: w) ha).1 (h a (37 :: w) hs ha)).2
    rw [FirstRead, escapes_escape] at hfirst
    exact hfirst _ rfl
  · rintro a b rfl ha
    have hesc := (uriDecode_first b a ha).1
    rw [hesc] at h
    exact (appends_iff b ha).2 ⟨fun e he => h e (List.mem_append_left _ (List.mem_of_mem_head? he)),
      fun e he => h e (List.mem_append_right _ (List.mem_of_mem_head? he))⟩

theorem decode_append_two : uriDecode 1 (ascii "a%41" ++ ascii "%7e%zz") = uriDecode 2 (ascii "a%41") ++
    uriDecode 3 (ascii "%7e%zz") :=
  ((decode_append_iff (ascii "a%41" ++ ascii "%7e%zz")).1 _ _ rfl (by decide)).2 ⟨by decide, by decide⟩ 1 2 3

/-- An escape that is not read decodes to the one before it. -/
theorem decode_carried : ¬ ∀ a b : Bytes, Whole a → Appends a b :=
  fun h => absurd (h (ascii "%41") (ascii "%zz") (by decide) 0 0 0) (by decide)

end Http
end Pico
