import Mathlib.Data.List.TakeWhile
import Picolibs.Client
import Picolibs.Escapes
/-!
# Forms — what decoding a form in place comes to (`get_post_urlencoded`, `get_post_multipart`)

The loop over an urlencoded body depends on what is left of the body alone, although it writes into it: a pass ends
behind the byte it writes last (`formStep`).  `Ends` says of a body's items, between the `&`s, that the loop leaves,
and `Spills` that the NUL behind the last value falls on the byte behind the body (`form_run`).
-/
namespace Pico
namespace Http

open Text

/-! ## Reading and writing through a pointer -/

theorem poke_append : ∀ (bs cs mem : Bytes) (p : Nat), poke mem p (bs ++ cs) = poke (poke mem p bs) (p + bs.length) cs
  | [], _, _, _ => rfl
  | b :: bs, cs, mem, p => by
    rw [List.cons_append, poke, poke, poke_append bs cs, List.length_cons, Nat.add_assoc, Nat.add_comm 1]

theorem length_poke : ∀ (bs mem : Bytes) (p : Nat), (poke mem p bs).length = mem.length
  | [], _, _ => rfl
  | b :: bs, mem, p => by rw [poke, length_poke bs, List.length_set]

theorem drop_poke : ∀ (bs mem : Bytes) (p q : Nat), p + bs.length ≤ q → (poke mem p bs).drop q = mem.drop q
  | [], _, _, _, _ => rfl
  | b :: bs, mem, p, q, h => by
    rw [List.length_cons] at h
    rw [poke, drop_poke bs _ _ q (by omega), List.drop_set, if_pos (by omega)]

theorem take_poke : ∀ (bs mem : Bytes) (p q : Nat), q ≤ p → (poke mem p bs).take q = mem.take q
  | [], _, _, _, _ => rfl
  | b :: bs, mem, p, q, h => by
    rw [poke, take_poke bs _ _ q (by omega), List.take_set_of_le h]

theorem slice_poke {bs mem : Bytes} {p q : Nat} (stop : Nat) (h : p + bs.length ≤ q) :
    slice (poke mem p bs) q stop = slice mem q stop := by
  rw [slice, drop_poke bs mem p q h, slice]

theorem drop_slice (mem : Bytes) (p stop k : Nat) : (slice mem p stop).drop k = slice mem (p + k) stop := by
  rw [slice, slice, List.drop_take, List.drop_drop, Nat.sub_sub]

/-- A search stops where the text of the memory has the byte. -/
theorem scan_eq (mem : Bytes) (x : UInt8) : ∀ (n p : Nat), p + n ≤ mem.length →
    scan (fun q => fetch mem q == x) n p = p + (((mem.drop p).take n).takeWhile (· ≠ x)).length
  | 0, p, _ => rfl
  | n + 1, p, h => by
    have hlt : p < mem.length := by omega
    have hget : fetch mem p = mem[p] := by
      rw [fetch, List.getD_eq_getElem?_getD, List.getElem?_eq_getElem hlt]
      rfl
    rw [scan, hget, List.drop_eq_getElem_cons hlt, List.take_succ_cons, List.takeWhile_cons]
    by_cases hx : mem[p] = x
    · simp [hx]
    · have hbeq : (mem[p] == x) = false := by simpa using hx
      rw [hbeq, if_neg Bool.false_ne_true, if_pos (by simpa using hx), scan_eq mem x n (p + 1) (by omega),
        List.length_cons]
      omega

theorem takeWhile_found {k after : Bytes} {x : UInt8} (h : x ∉ k) : (k ++ x :: after).takeWhile (· ≠ x) = k := by
  rw [List.takeWhile_append_of_pos]
  · simp
  · intro a ha
    have hne : a ≠ x := fun e => h (e ▸ ha)
    simpa using hne

theorem dropWhile_found {k after : Bytes} {x : UInt8} (h : x ∉ k) : (k ++ x :: after).dropWhile (· ≠ x) = x :: after := by
  have hsplit := List.takeWhile_append_dropWhile (p := (· ≠ x)) (l := k ++ x :: after)
  rw [takeWhile_found h, List.append_cancel_left_eq] at hsplit
  exact hsplit

theorem takeWhile_missing {s : Bytes} {x : UInt8} (h : x ∉ s) : s.takeWhile (· ≠ x) = s := by
  rw [List.takeWhile_eq_self_iff]
  intro a ha
  have hne : a ≠ x := fun e => h (e ▸ ha)
  simpa using hne

variable {ii : Stack} {stop : Nat}

theorem scan_found {mem k after : Bytes} {p : Nat} {x : UInt8} (hlen : stop ≤ mem.length) (hp : p ≤ stop)
    (h : slice mem p stop = k ++ x :: after) (hk : x ∉ k) :
    scan (fun q => fetch mem q == x) (stop - p) p = p + k.length := by
  rw [scan_eq mem x _ _ (by omega), ← slice, h, takeWhile_found hk]

theorem length_slice_eq {mem : Bytes} {p : Nat} (hlen : stop ≤ mem.length) : (slice mem p stop).length = stop - p := by
  rw [slice, List.length_take, List.length_drop]
  omega

theorem scan_missing {mem : Bytes} {p : Nat} {x : UInt8} (hlen : stop ≤ mem.length) (hp : p ≤ stop)
    (h : x ∉ slice mem p stop) : scan (fun q => fetch mem q == x) (stop - p) p = stop := by
  have hs := length_slice_eq (p := p) hlen
  rw [scan_eq mem x _ _ (by omega), ← slice, takeWhile_missing h, hs]
  omega

theorem slice_head {mem k t : Bytes} {p : Nat} (h : slice mem p stop = k ++ t) : slice mem p (p + k.length) = k := by
  have hle : k.length ≤ stop - p := by
    have := length_slice mem p stop
    rw [h, List.length_append] at this
    omega
  have htake := congrArg (List.take k.length) h
  rw [List.take_left, slice, List.take_take, Nat.min_eq_left hle] at htake
  rw [slice, Nat.add_sub_cancel_left, htake]

/-! ## One pass -/

/-- What is left of the body. -/
def FormState.rest (stop : Nat) (s : FormState) : Bytes := slice s.mem s.ptr stop

/-- What a pass does, by what is left: nothing, no key, a key at the very end, or a key and a value. -/
inductive FormStep (stop : Nat) (s : FormState) : Prop where
  | done : s.rest stop = [] → (∀ ii, formPass ii stop s = .leave s) → FormStep stop s
  | stuck : s.rest stop ≠ [] → 61 ∉ s.rest stop → (∀ ii, formPass ii stop s = .again { s with ret := false }) →
      FormStep stop s
  | bare (k : Bytes) : s.rest stop = k ++ [61] → 61 ∉ k →
      (∀ ii, formPass ii stop s = .again { s with
        ptr := s.ptr + k.length + 1, mem := poke s.mem (s.ptr + k.length) [0]
        postData := s.postData ++ [(uriDecode (ii s.ptr) k, s.ptr + k.length)] }) → FormStep stop s
  | pair (k v more : Bytes) : s.rest stop = k ++ 61 :: (v ++ more) → 61 ∉ k → v ++ more ≠ [] → 38 ∉ v →
      (more = [] ∨ ∃ more', more = 38 :: more') →
      (∀ ii, formPass ii stop s = .again { s with
        ptr := s.ptr + k.length + 1 + v.length + 1
        mem := poke s.mem (s.ptr + k.length + 1) (uriDecode (ii (s.ptr + k.length + 1)) v ++ [0])
        postData := s.postData ++ [(uriDecode (ii s.ptr) k, s.ptr + k.length + 1)] }) → FormStep stop s

theorem split_at (x : UInt8) (s : Bytes) :
    ∃ v more, s = v ++ more ∧ x ∉ v ∧ (more = [] ∨ ∃ more', more = x :: more') := by
  by_cases h : x ∈ s
  · obtain ⟨v, more, rfl, hv⟩ := List.eq_append_cons_of_mem h
    exact ⟨v, x :: more, rfl, hv, Or.inr ⟨more, rfl⟩⟩
  · exact ⟨s, [], (List.append_nil s).symm, h, Or.inl rfl⟩

/-- **What a pass does.** -/
theorem formStep {s : FormState} (hlen : stop ≤ s.mem.length) : FormStep stop s := by
  have hsize : (s.rest stop).length = stop - s.ptr := length_slice_eq hlen
  by_cases hp : s.ptr < stop
  · have hpass (ii : Stack) := formPass.eq_def ii stop s
    simp only [if_pos hp] at hpass
    by_cases hmem : 61 ∈ s.rest stop
    · obtain ⟨k, after, hrest, hk⟩ := List.eq_append_cons_of_mem hmem
      have hafter : slice s.mem (s.ptr + k.length + 1) stop = after := by
        rw [Nat.add_assoc, ← drop_slice, ← FormState.rest, hrest]
        simp
      rw [hrest, List.length_append, List.length_cons] at hsize
      have hkey : s.ptr + k.length < stop := by omega
      simp only [scan_found hlen (Nat.le_of_lt hp) hrest hk, if_pos hkey, slice_head hrest] at hpass
      obtain ⟨v, more, hv, hv38, hmore⟩ := split_at 38 after
      by_cases hlt : s.ptr + k.length + 1 < stop
      · have hcp : scan (fun p => fetch s.mem p == 38) (stop - (s.ptr + k.length + 1)) (s.ptr + k.length + 1) =
            s.ptr + k.length + 1 + v.length := by
          rcases hmore with rfl | ⟨more', rfl⟩
          · rw [List.append_nil] at hv
            rw [scan_missing hlen (Nat.le_of_lt hlt) (by rw [hafter, hv]; exact hv38)]
            rw [hv] at hsize
            omega
          · exact scan_found hlen (Nat.le_of_lt hlt) (hafter.trans hv) hv38
        simp only [if_pos hlt, hcp, slice_head (hafter.trans hv)] at hpass
        refine .pair k v more (by rw [hrest, hv]) hk (fun he => ?_) hv38 hmore hpass
        rw [hv, he] at hsize
        simp only [List.length_nil] at hsize
        omega
      · simp only [if_neg hlt] at hpass
        have hnil : after = [] := List.eq_nil_of_length_eq_zero (by omega)
        exact .bare k (by rw [hrest, hnil]) hk hpass
    · simp only [scan_missing hlen (Nat.le_of_lt hp) hmem, if_neg (Nat.lt_irrefl stop)] at hpass
      refine .stuck (fun he => ?_) hmem hpass
      rw [he, List.length_nil] at hsize
      omega
  · refine .done (List.eq_nil_of_length_eq_zero (by omega)) ?_
    intro ii
    rw [formPass, if_neg hp]

/-! ## The items of a body -/

/-- An item with a `=` is the last one, or the last but one before an empty one; or there is no body. -/
def Ends (body : Bytes) : Prop :=
  body = [] ∨ ∃ item, 61 ∈ item ∧ ([item] <:+ body.splitOn 38 ∨ [item, []] <:+ body.splitOn 38)

/-- The last item has a value, and no escape in it but for a `%` at its end. -/
def Spills (body : Bytes) : Prop :=
  ∃ k v, [k ++ 61 :: v] <:+ body.splitOn 38 ∧ 61 ∉ k ∧ v ≠ [] ∧ 37 ∉ v.dropLast

theorem length_uriDecodeFrom_eq_iff : ∀ (n : Nat) (ii : UInt8) (s : Bytes), s.length ≤ n →
    ((uriDecodeFrom n ii s).length = s.length ↔ 37 ∉ s.dropLast)
  | n, ii, [], _ => by simp [uriDecodeFrom_nil]
  | 0, _, c :: s, h => absurd h (Nat.not_succ_le_zero _)
  | n + 1, ii, [c], _ => by
    rw [uriDecodeFrom]
    simp only [List.drop_nil, uriDecodeFrom_nil]
    split
    · simp
    · split
      · simp
      · simp
  | n + 1, ii, c :: d :: s, h => by
    rw [uriDecodeFrom, List.dropLast_cons_of_ne_nil (List.cons_ne_nil d s)]
    split
    · next hc =>
      have hle := length_uriDecodeFrom n ((scanHex ((d :: s).take 2)).getD ii) ((d :: s).drop 2)
      rw [List.length_drop] at hle
      simp only [List.length_cons, hc, List.mem_cons, true_or, not_true, iff_false] at hle ⊢
      omega
    · next hc =>
      have ih := length_uriDecodeFrom_eq_iff n ii (d :: s) (Nat.le_of_succ_le_succ h)
      rw [List.mem_cons, not_or, ← ih]
      split
      · rw [List.length_cons, List.length_cons, Nat.add_right_cancel_iff]
        exact (and_iff_right (Ne.symm hc)).symm
      · rw [List.length_cons, List.length_cons, Nat.add_right_cancel_iff]
        exact (and_iff_right (Ne.symm hc)).symm

theorem length_uriDecode_eq_iff (ii : UInt8) (s : Bytes) : (uriDecode ii s).length = s.length ↔ 37 ∉ s.dropLast :=
  length_uriDecodeFrom_eq_iff _ ii s (Nat.le_refl _)

/-- The last item of a key and a value. -/
theorem last_item {v : Bytes} (hv : 38 ∉ v) : ∀ {k : Bytes}, 61 ∉ k →
    ∃ items key, (k ++ 61 :: v).splitOn 38 = items ++ [key ++ 61 :: v] ∧ 61 ∉ key
  | [], _ => by
    refine ⟨[], [], ?_, List.not_mem_nil⟩
    exact List.splitOn_eq_singleton (by simpa using hv)
  | c :: k, hk => by
    rw [List.mem_cons, not_or] at hk
    obtain ⟨items, key, hs, hkey⟩ := last_item hv hk.2
    rw [List.cons_append, List.splitOn_cons_eq_if_modifyHead, hs]
    split
    · exact ⟨[] :: items, key, rfl, hkey⟩
    · cases items with
      | nil => exact ⟨[], c :: key, rfl, by rw [List.mem_cons, not_or]; exact ⟨hk.1, hkey⟩⟩
      | cons i items => exact ⟨(c :: i) :: items, key, rfl, hkey⟩

theorem splitOn_pair (k v more : Bytes) :
    (k ++ 61 :: (v ++ 38 :: more)).splitOn 38 = (k ++ 61 :: v).splitOn 38 ++ more.splitOn 38 := by
  rw [← List.splitOn_append_cons_self, List.append_assoc, List.cons_append]

theorem splitOn_eq_empty {s : Bytes} (h : s.splitOn 38 = [[]]) : s = [] := by
  have hs : [38].intercalate (s.splitOn 38) = s := List.intercalate_splitOn 38
  rw [← hs, h]
  rfl

theorem mem_of_mem_item : ∀ {s item : Bytes} {x : UInt8}, item ∈ s.splitOn 38 → x ∈ item → x ∈ s
  | [], item, x, h, hx => by
    rw [List.splitOn_nil, List.mem_singleton] at h
    rw [h] at hx
    exact hx
  | c :: s, item, x, h, hx => by
    rw [List.splitOn_cons_eq_if_modifyHead] at h
    split at h
    · rcases List.mem_cons.1 h with rfl | h
      · cases hx
      · exact List.mem_cons_of_mem c (mem_of_mem_item h hx)
    · cases hs : s.splitOn 38 with
      | nil => exact absurd hs (List.splitOn_ne_nil _ _)
      | cons i items =>
        rw [hs, List.modifyHead_cons] at h
        rcases List.mem_cons.1 h with rfl | h
        · rcases List.mem_cons.1 hx with rfl | hx
          · exact List.mem_cons_self
          · exact List.mem_cons_of_mem c (mem_of_mem_item (by rw [hs]; exact List.mem_cons_self) hx)
        · exact List.mem_cons_of_mem c (mem_of_mem_item (by rw [hs]; exact List.mem_cons_of_mem i h) hx)

theorem ends_last {k v : Bytes} (hk : 61 ∉ k) (hv : 38 ∉ v) : Ends (k ++ 61 :: v) := by
  obtain ⟨items, key, hs, -⟩ := last_item hv hk
  refine Or.inr ⟨key ++ 61 :: v, by simp, Or.inl ?_⟩
  rw [hs]
  exact List.suffix_append _ _

theorem ends_more {k v : Bytes} (hk : 61 ∉ k) (hv : 38 ∉ v) (more : Bytes) :
    Ends (k ++ 61 :: (v ++ 38 :: more)) ↔ Ends more := by
  obtain ⟨items, key, hs, -⟩ := last_item hv hk
  have hne : more.splitOn 38 ≠ [] := List.splitOn_ne_nil _ _
  unfold Ends
  rw [splitOn_pair]
  constructor
  · rintro (h | ⟨item, hitem, h⟩)
    · simp at h
    · by_cases hmore : more = []
      · exact Or.inl hmore
      · right
        have hlong : ∀ l : List Bytes, l <:+ (k ++ 61 :: v).splitOn 38 ++ more.splitOn 38 →
            l.length ≤ (more.splitOn 38).length → l <:+ more.splitOn 38 :=
          fun l hl hle => List.suffix_of_suffix_length_le hl (List.suffix_append _ _) hle
        rcases h with h | h
        · exact ⟨item, hitem, Or.inl (hlong _ h (List.length_pos_iff.2 hne))⟩
        · refine ⟨item, hitem, Or.inr (hlong _ h (Nat.succ_le_of_lt (Nat.lt_of_le_of_ne ?_ fun hone => ?_)))⟩
          · exact List.length_pos_iff.2 hne
          · obtain ⟨last, hlast⟩ := List.length_eq_one_iff.1 hone.symm
            have hempty := hlong [[]] ((List.suffix_cons item [[]]).trans h) (Nat.le_of_eq hone)
            rw [hlast] at hempty
            exact hmore (splitOn_eq_empty (hlast.trans (List.IsSuffix.eq_of_length hempty rfl).symm))
  · rintro (rfl | ⟨item, hitem, h⟩)
    · refine Or.inr ⟨key ++ 61 :: v, by simp, Or.inr ?_⟩
      rw [hs, List.splitOn_nil, List.append_assoc]
      exact List.suffix_append _ _
    · exact Or.inr ⟨item, hitem, h.imp (fun h => h.trans (List.suffix_append _ _))
        (fun h => h.trans (List.suffix_append _ _))⟩

theorem spills_last {k v : Bytes} (hk : 61 ∉ k) (hv : 38 ∉ v) : Spills (k ++ 61 :: v) ↔ v ≠ [] ∧ 37 ∉ v.dropLast := by
  obtain ⟨items, key, hs, hkey⟩ := last_item hv hk
  unfold Spills
  rw [hs]
  constructor
  · rintro ⟨k', v', hsuffix, hk', hv', hplain⟩
    have hone := List.suffix_of_suffix_length_le hsuffix (List.suffix_append items [key ++ 61 :: v]) (Nat.le_refl 1)
    have he : k' ++ 61 :: v' = key ++ 61 :: v := List.singleton_inj.1 (List.IsSuffix.eq_of_length hone rfl)
    have hkk := congrArg (List.takeWhile (· ≠ 61)) he
    rw [takeWhile_found hk', takeWhile_found hkey] at hkk
    rw [hkk, List.append_cancel_left_eq, List.cons.injEq] at he
    rw [← he.2]
    exact ⟨hv', hplain⟩
  · rintro ⟨hne, hplain⟩
    exact ⟨key, v, List.suffix_append _ _, hkey, hne, hplain⟩

theorem spills_more (k v more : Bytes) : Spills (k ++ 61 :: (v ++ 38 :: more)) ↔ Spills more := by
  have hne : more.splitOn 38 ≠ [] := List.splitOn_ne_nil _ _
  unfold Spills
  rw [splitOn_pair]
  refine exists_congr fun k' => exists_congr fun v' => and_congr_left fun _ => ⟨fun h => ?_, fun h => ?_⟩
  · exact List.suffix_of_suffix_length_le h (List.suffix_append _ _) (List.length_pos_iff.2 hne)
  · exact h.trans (List.suffix_append _ _)

/-! ## The loop -/

theorem drop_poke_nul {bs mem : Bytes} {p : Nat} (h : p + bs.length ≤ stop) :
    (poke mem p (bs ++ [0])).drop stop = if p + bs.length = stop then (mem.drop stop).set 0 0 else mem.drop stop := by
  rw [poke_append]
  show ((poke mem p bs).set (p + bs.length) 0).drop stop = _
  rw [List.drop_set, drop_poke bs mem p stop h]
  by_cases he : p + bs.length = stop
  · rw [if_neg (by omega), if_pos he, he, Nat.sub_self]
  · rw [if_pos (by omega), if_neg he]

/-- What the loop makes of the memory: the body changes, and the byte behind it where the last value spills. -/
structure Decoded (start stop : Nat) (body mem mem' : Bytes) : Prop where
  before : mem'.take start = mem.take start
  spills : Spills body → mem'.drop stop = (mem.drop stop).set 0 0
  keeps : ¬ Spills body → mem'.drop stop = mem.drop stop

theorem not_spills_nil : ¬ Spills [] := by
  rintro ⟨k, v, h, -⟩
  rw [List.splitOn_nil] at h
  have := List.singleton_inj.1 (List.IsSuffix.eq_of_length h rfl)
  simp at this

theorem not_ends {body : Bytes} (hne : body ≠ []) (h : 61 ∉ body) : ¬ Ends body := by
  rintro (he | ⟨item, hitem, hs⟩)
  · exact hne he
  · have hmem : item ∈ body.splitOn 38 := by
      rcases hs with hs | hs
      · exact hs.subset List.mem_cons_self
      · exact hs.subset List.mem_cons_self
    exact h (mem_of_mem_item hmem hitem)

theorem not_ends_of_last {body last : Bytes} {items : List Bytes} (hs : body.splitOn 38 = items ++ [last])
    (hne : last ≠ []) (hlast : 61 ∉ last) : ¬ Ends body := by
  have hlastOf {a : Bytes} (h : [a] <:+ body.splitOn 38) : a = last := by
    rw [hs] at h
    have hone := List.suffix_of_suffix_length_le h (List.suffix_append items [last]) (Nat.le_refl 1)
    exact List.singleton_inj.1 (List.IsSuffix.eq_of_length hone rfl)
  rintro (rfl | ⟨item, hitem, h | h⟩)
  · rw [List.splitOn_nil] at hlastOf
    exact hne (hlastOf (List.suffix_refl _)).symm
  · rw [hlastOf h] at hitem
    exact hlast hitem
  · exact hne (hlastOf ((List.suffix_cons item [[]]).trans h)).symm

/-- How the loop ends from a state on. -/
def FormRuns (ii : Stack) (stop : Nat) (s : FormState) : Prop :=
  (Ends (s.rest stop) ∧ ∃ m s', Loop.run (formPass ii stop) m s = some s' ∧ s'.ret = true ∧
    Decoded s.ptr stop (s.rest stop) s.mem s'.mem) ∨
  (¬ Ends (s.rest stop) ∧ Loop.Hangs (formPass ii stop) s)

/-- A pass that writes some bytes and a NUL before the pointer it leaves, and the rest of the loop. -/
theorem FormRuns.again {s t : FormState} {p : Nat} {bs : Bytes} (hpass : formPass ii stop s = .again t)
    (hmem : t.mem = poke s.mem p (bs ++ [0])) (hp : s.ptr ≤ p) (hq : p + bs.length < t.ptr) (hin : p + bs.length ≤ stop)
    (h : FormRuns ii stop t) (hends : Ends (s.rest stop) ↔ Ends (t.rest stop))
    (hspills : if p + bs.length = stop then Spills (s.rest stop) ∧ ¬ Spills (t.rest stop)
      else (Spills (s.rest stop) ↔ Spills (t.rest stop))) : FormRuns ii stop s := by
  have hdrop : (poke s.mem p (bs ++ [0])).drop stop = _ := drop_poke_nul hin
  rw [← hmem] at hdrop
  have htake : t.mem.take s.ptr = s.mem.take s.ptr := by rw [hmem, take_poke _ _ _ _ hp]
  rcases h with ⟨he, m, s', hm, hret, hd⟩ | ⟨he, hh⟩
  · refine Or.inl ⟨hends.2 he, m + 1, s', by rw [Loop.run_again hpass, hm], hret, ?_, fun h => ?_, fun h => ?_⟩
    · have hbefore := congrArg (List.take s.ptr) hd.before
      rw [List.take_take, List.take_take, Nat.min_eq_left (by omega)] at hbefore
      exact hbefore.trans htake
    · split at hspills
      · next hstop =>
        rw [hd.keeps hspills.2, hdrop, if_pos hstop]
      · next hstop =>
        rw [hd.spills (hspills.1 h), hdrop, if_neg hstop]
    · split at hspills
      · exact absurd hspills.1 h
      · next hstop =>
        rw [hd.keeps (fun hn => h (hspills.2 hn)), hdrop, if_neg hstop]
  · exact Or.inr ⟨fun hn => he (hends.1 hn), (Loop.hangs_again hpass).2 hh⟩

/-- What such a pass leaves of the body. -/
theorem rest_write {s t : FormState} {p k : Nat} {bs : Bytes} (hmem : t.mem = poke s.mem p (bs ++ [0]))
    (hq : p + bs.length < t.ptr) (hk : t.ptr = s.ptr + k) : t.rest stop = (s.rest stop).drop k := by
  have hle : p + (bs ++ [0]).length ≤ t.ptr := by
    rw [List.length_append, List.length_singleton]
    omega
  rw [FormState.rest, hmem, slice_poke stop hle, hk, ← drop_slice, FormState.rest]

theorem form_stuck {s : FormState} (hlen : stop ≤ s.mem.length) (hrest : s.rest stop ≠ []) (hnone : 61 ∉ s.rest stop)
    (hpass : formPass ii stop s = .again { s with ret := false }) : FormRuns ii stop s := by
  refine Or.inr ⟨not_ends hrest hnone, (Loop.hangs_again hpass).2 (Loop.hangs_of_stuck ?_)⟩
  have hnone' : 61 ∉ FormState.rest stop { s with ret := false } := hnone
  cases formStep (s := { s with ret := false }) hlen with
  | done h _ => exact absurd h hrest
  | stuck _ _ h => exact h ii
  | bare k h _ _ => exact absurd (by rw [h]; simp) hnone'
  | pair k v more h _ _ _ _ _ => exact absurd (by rw [h]; simp) hnone'

/-- **The loop leaves exactly the bodies that end**, with no failure, and decodes them in place. -/
theorem form_run (ii : Stack) : ∀ (n : Nat) (s : FormState), s.ret = true → stop ≤ s.mem.length →
    (s.rest stop).length < n → FormRuns ii stop s
  | 0, _, _, _, hn => absurd hn (Nat.not_lt_zero _)
  | n + 1, s, hret, hlen, hn => by
    have hsize : (s.rest stop).length = stop - s.ptr := length_slice_eq hlen
    cases formStep hlen with
    | done hrest hpass =>
      refine Or.inl ⟨Or.inl hrest, 1, s, Loop.run_leave (hpass ii) 0, hret, rfl, fun h => ?_, fun _ => rfl⟩
      rw [hrest] at h
      exact absurd h not_spills_nil
    | stuck hrest hnone hpass => exact form_stuck hlen hrest hnone (hpass ii)
    | bare k hrest hk hpasses =>
      have hpass := hpasses ii
      rw [hrest, List.length_append, List.length_singleton] at hsize hn
      generalize ht : ({ s with
        ptr := s.ptr + k.length + 1, mem := poke s.mem (s.ptr + k.length) [0]
        postData := s.postData ++ [(uriDecode (ii s.ptr) k, s.ptr + k.length)] } : FormState) = t at hpass
      have hmem : t.mem = poke s.mem (s.ptr + k.length) ([] ++ [0]) := by rw [← ht]; rfl
      have hptr : t.ptr = s.ptr + (k.length + 1) := by rw [← ht]; rfl
      have hnext : t.rest stop = [] := by
        rw [rest_write hmem (by rw [hptr]; exact Nat.lt_succ_self _) hptr, hrest]
        simp
      have hruns := form_run ii n t (by rw [← ht]; exact hret) (by rw [hmem, length_poke]; exact hlen)
        (by rw [hnext]; exact Nat.lt_of_le_of_lt (Nat.zero_le k.length) (Nat.lt_of_succ_lt_succ hn))
      refine hruns.again hpass hmem (Nat.le_add_right _ _) (by rw [hptr]; exact Nat.lt_succ_self _)
        (by rw [List.length_nil]; omega) ?_ ?_
      · rw [hrest, hnext]
        exact iff_of_true (ends_last hk List.not_mem_nil) (Or.inl rfl)
      · rw [List.length_nil, if_neg (by omega), hrest, hnext, spills_last hk List.not_mem_nil]
        exact iff_of_false (fun h => h.1 rfl) not_spills_nil
    | pair k v more hrest hk hne hv hmore hpasses =>
      have hpass := hpasses ii
      have hdecode : (uriDecode (ii (s.ptr + k.length + 1)) v).length ≤ v.length := length_uriDecodeFrom _ _ _
      rw [hrest] at hsize hn
      simp only [List.length_append, List.length_cons] at hsize hn
      generalize ht : ({ s with
        ptr := s.ptr + k.length + 1 + v.length + 1
        mem := poke s.mem (s.ptr + k.length + 1) (uriDecode (ii (s.ptr + k.length + 1)) v ++ [0])
        postData := s.postData ++ [(uriDecode (ii s.ptr) k, s.ptr + k.length + 1)] } : FormState) = t at hpass
      have hmem : t.mem = poke s.mem (s.ptr + k.length + 1) (uriDecode (ii (s.ptr + k.length + 1)) v ++ [0]) := by rw [← ht]
      have hptr : t.ptr = s.ptr + ((k ++ 61 :: v).length + 1) := by
        rw [← ht, List.length_append, List.length_cons]
        show s.ptr + k.length + 1 + v.length + 1 = _
        omega
      have hlt : s.ptr + k.length + 1 + (uriDecode (ii (s.ptr + k.length + 1)) v).length < t.ptr := by
        rw [hptr, List.length_append, List.length_cons]
        omega
      have hnext : t.rest stop = more.drop 1 := by
        rw [rest_write hmem hlt hptr, hrest, ← List.cons_append, ← List.append_assoc, List.drop_length_add_append]
      have hruns := form_run ii n t (by rw [← ht]; exact hret) (by rw [hmem, length_poke]; exact hlen)
        (by rw [hnext, List.length_drop]; omega)
      refine hruns.again hpass hmem (by omega) hlt (by omega) ?_ ?_
      · rcases hmore with rfl | ⟨more', rfl⟩
        · rw [hrest, hnext, List.append_nil]
          exact iff_of_true (ends_last hk hv) (Or.inl rfl)
        · rw [hrest, hnext]
          exact ends_more hk hv more'
      · rcases hmore with rfl | ⟨more', rfl⟩
        · rw [List.append_nil] at hrest hne
          rw [List.length_nil] at hsize
          rw [hrest, hnext, spills_last hk hv, ← length_uriDecode_eq_iff (ii (s.ptr + k.length + 1))]
          split
          · exact ⟨⟨hne, by omega⟩, not_spills_nil⟩
          · exact iff_of_false (fun h => by omega) not_spills_nil
        · rw [List.length_cons] at hsize
          rw [if_neg (by omega), hrest, hnext]
          exact spills_more k v more'

/-! ## `get_post_urlencoded` -/

theorem formPass_rank (ii : Stack) (stop : Nat) (s t : FormState) (h : formPass ii stop s = .again t) :
    formRank stop t < formRank stop s ∨ t = s := by
  unfold formPass at h
  simp only at h
  split at h
  · next hp =>
    have hge := scan_ge (fun p => fetch s.mem p == 61) (stop - s.ptr) s.ptr
    generalize scan (fun p => fetch s.mem p == 61) (stop - s.ptr) s.ptr = cp at h hge
    split at h
    · left
      split at h
      · have hge' := scan_ge (fun p => fetch s.mem p == 38) (stop - (cp + 1)) (cp + 1)
        cases h
        simp only [formRank]
        omega
      · cases h
        simp only [formRank]
        omega
    · cases h
      cases hr : s.ret with
      | true =>
        left
        simp [formRank, hr]
      | false =>
        right
        rw [← hr]
  · cases h

/-- **The loop's budget is enough**: the loop that has not left within it never leaves. -/
theorem formRun_eq_none (ii : Stack) (stop : Nat) (s : FormState) :
    Loop.run (formPass ii stop) (formRank stop s + 1) s = none ↔ Loop.Hangs (formPass ii stop) s :=
  ⟨Loop.hangs_of_rank (formRank stop) (formPass_rank ii stop) _ _ (Nat.lt_succ_self _), fun h => h _⟩

/-- **What the search of an urlencoded body comes to.** -/
theorem getPostUrlencoded_cases (ii : Stack) (r : HttpRequest) {off : Nat} {mem : Bytes}
    (hlen : off + r.bodySize ≤ mem.length) :
    (Ends (slice mem off (off + r.bodySize)) ∧ ∃ postData mem',
      getPostUrlencoded ii r off mem = .ok (true, { r with postData := postData }, mem') ∧
      Decoded off (off + r.bodySize) (slice mem off (off + r.bodySize)) mem mem') ∨
    (¬ Ends (slice mem off (off + r.bodySize)) ∧ getPostUrlencoded ii r off mem = .error .hang) := by
  unfold getPostUrlencoded
  simp only
  generalize hs : ({ ptr := off, mem := mem, postData := r.postData, ret := true } : FormState) = s
  have hmem : s.mem = mem := by rw [← hs]
  have hptr : s.ptr = off := by rw [← hs]
  have hrest : s.rest (off + r.bodySize) = slice mem off (off + r.bodySize) := by rw [← hs]; rfl
  have hruns : FormRuns ii (off + r.bodySize) s :=
    form_run ii _ s (by rw [← hs]) (by rw [hmem]; exact hlen) (Nat.lt_succ_self _)
  rcases hruns with ⟨he, m, s', hm, hret, hd⟩ | ⟨he, hh⟩
  · rw [hrest] at he hd
    rw [hptr, hmem] at hd
    left
    refine ⟨he, s'.postData, s'.mem, ?_, hd⟩
    cases hrun : Loop.run (formPass ii (off + r.bodySize)) (formRank (off + r.bodySize) s + 1) s with
    | none =>
      rw [(formRun_eq_none ii _ s).1 hrun m] at hm
      cases hm
    | some s1 =>
      rw [Loop.run_unique hrun hm]
      show Except.ok (s'.ret, _, s'.mem) = _
      rw [hret]
  · rw [hrest] at he
    exact Or.inr ⟨he, by rw [(formRun_eq_none ii _ s).2 hh]⟩

/-! ## Urlencoded forms -/

def urlencoded : Bytes := ascii "application/x-www-form-urlencoded"

/-- The item is recorded: its key, and its value where the entry points. -/
def Recorded (ii : Stack) (q : Bool × HttpRequest × Bytes) (item : Bytes) : Prop :=
  ∃ e ∈ q.2.1.postData, ∃ p, e.1 = uriDecode (ii p) (item.takeWhile (· ≠ 61)) ∧
    cstr (q.2.2.drop e.2) = cstr (uriDecode (ii e.2) ((item.dropWhile (· ≠ 61)).drop 1))

/-- What `get_post` is to answer to the items of a body. -/
structure Answers (ii : Stack) (r : HttpRequest) (mem body : Bytes) : Prop where
  returns : getPost ii r mem ≠ .error .hang
  whole : ∀ q, getPost ii r mem = .ok q → (∀ item ∈ body.splitOn 38, 61 ∈ item) → q.1 = true
  broken : ∀ q, getPost ii r mem = .ok q → ∀ items last, body.splitOn 38 = items ++ [last] → last ≠ [] → 61 ∉ last →
    q.1 = false ∧ ∀ item ∈ items, 61 ∈ item → Recorded ii q item

theorem getPost_urlencoded {ii : Stack} {r : HttpRequest} {mem : Bytes} {off : Nat}
    (htype : r.header (ascii "Content-Type") = .ok urlencoded) (hbody : r.body = some off) :
    getPost ii r mem = getPostUrlencoded ii { r with postData := [] } off mem := by
  have htype' : HttpRequest.header { r with postData := [] } (ascii "Content-Type") = .ok urlencoded := htype
  unfold getPost
  simp only [bind, Except.bind]
  rw [htype', hbody]
  exact if_pos rfl

/-- **`get_post` answers exactly the urlencoded bodies that end**: with an item that has a `=`, and an empty one at
most behind it. -/
theorem form_answers_iff (ii : Stack) {r : HttpRequest} {mem : Bytes} {off : Nat}
    (htype : r.header (ascii "Content-Type") = .ok urlencoded) (hbody : r.body = some off)
    (hlen : off + r.bodySize ≤ mem.length) :
    Answers ii r mem (slice mem off (off + r.bodySize)) ↔ Ends (slice mem off (off + r.bodySize)) := by
  have hpost : getPost ii r mem = _ := getPost_urlencoded htype hbody
  rcases getPostUrlencoded_cases ii { r with postData := [] } hlen with ⟨he, postData, mem', hp, -⟩ | ⟨he, hp⟩
  · refine iff_of_true ⟨?_, ?_, ?_⟩ he
    · rw [hpost, hp]
      nofun
    · intro q hq _
      rw [hpost, hp] at hq
      cases hq
      rfl
    · intro q _ items last hs hne hlast
      exact absurd he (not_ends_of_last hs hne hlast)
  · refine iff_of_false (fun h => h.returns ?_) he
    rw [hpost, hp]

/-- A request whose body is `size` bytes from the front of the memory on. -/
def formRequest (size : Nat) : HttpRequest :=
  { headers := [ascii "POST / HTTP/1.1", ascii "Content-Type: application/x-www-form-urlencoded"], bodySize := size
    body := some 0 }

theorem form_answers_pair : Answers (fun _ => 0) (formRequest 4) (ascii "a=1&") (slice (ascii "a=1&") 0 (0 + 4)) :=
  (form_answers_iff (fun _ => 0) (r := formRequest 4) (by decide) rfl (by decide)).2
    (Or.inr ⟨ascii "a=1", by decide, Or.inr (by decide)⟩)

/-- A body without a `=`. -/
theorem form_unanswered : ¬ ∀ (ii : Stack) (r : HttpRequest) (mem : Bytes) (off : Nat),
    r.header (ascii "Content-Type") = .ok urlencoded → r.body = some off → off + r.bodySize ≤ mem.length →
    Answers ii r mem (slice mem off (off + r.bodySize)) :=
  fun h => (h (fun _ => 0) (formRequest 1) (ascii "a") 0 (by decide) rfl (by decide)).returns (by decide)

/-! ## What stands behind a form -/

theorem ends_of_spills {body : Bytes} (h : Spills body) : Ends body := by
  obtain ⟨k, v, hs, -⟩ := h
  exact Or.inr ⟨k ++ 61 :: v, by simp, Or.inl hs⟩

/-- A complete POST request is found where parsing without its data finds it, and the data are read then. -/
theorem parseRequest_post {ii : Stack} {rqst : Bytes} {r : HttpRequest}
    (h : parseRequest ii rqst false = .ok (r, rqst)) (hc : r.isComplete = true) (ht : r.type = ascii "POST") :
    r.body = some r.bodyOffset ∧ r.size ≤ rqst.length ∧
      parseRequest ii rqst true = (getPost ii r rqst).map Prod.snd := by
  have hfits : r.size ≤ rqst.length := by
    rcases parseRequest_cases h with ⟨-, he, -⟩ | ⟨hp, -⟩
    · have he : r = {} := he
      rw [he] at hc
      cases hc
    · exact hp.fits
  suffices h' : r.body = some r.bodyOffset ∧ parseRequest ii rqst true = (getPost ii r rqst).map Prod.snd from
    ⟨h'.1, hfits, h'.2⟩
  unfold parseRequest at h ⊢
  split at h
  · next hblank =>
    rw [if_pos hblank]
    simp only [bind, Except.bind, Bool.false_eq_true, and_false, if_false] at h ⊢
    split at h
    · cases h
    · split at h
      · next hle =>
        cases h
        rw [if_pos hle, if_pos ⟨ht, trivial⟩]
        exact ⟨rfl, rfl⟩
      · cases h
        cases hc
  · split at h
    · cases h
      cases hc
    · cases h

/-- What parsing a form is to leave: the head, what stands behind the body, and so the buffer after `resetRqst`. -/
structure Untouched (c : Client) (r : HttpRequest) (rqst : Bytes) (q : HttpRequest × Bytes) : Prop where
  before : q.2.take r.bodyOffset = rqst.take r.bodyOffset
  behind : q.2.drop r.size = rqst.drop r.size
  kept : (Client.resetRqst { c with http := q.1, rqst := q.2 }).rqst = rqst.drop r.size

theorem set_head_iff : ∀ s : Bytes, s.set 0 0 = s ↔ s.headD 0 = 0
  | [] => by simp
  | c :: s => by
    rw [List.set_cons_zero, List.headD_cons, List.cons.injEq]
    exact ⟨fun h => h.1.symm, fun h => ⟨h.symm, rfl⟩⟩

/-- The last value of an urlencoded body goes to its end, and the NUL behind it past the end. -/
def Overruns (r : HttpRequest) (rqst : Bytes) : Prop :=
  r.header (ascii "Content-Type") = .ok urlencoded ∧ Spills (slice rqst r.bodyOffset r.size)

/-- What `get_post` makes of the buffer around the body. -/
structure Around (r : HttpRequest) (rqst mem : Bytes) : Prop where
  before : mem.take r.bodyOffset = rqst.take r.bodyOffset
  spills : Overruns r rqst → mem.drop r.size = (rqst.drop r.size).set 0 0
  keeps : ¬ Overruns r rqst → mem.drop r.size = rqst.drop r.size

theorem getPost_around {ii : Stack} {r : HttpRequest} {rqst : Bytes} {p : Bool × HttpRequest × Bytes}
    (hbody : r.body = some r.bodyOffset) (hsize : r.size ≤ rqst.length) (hp : getPost ii r rqst = .ok p) :
    Around r rqst p.2.2 := by
  by_cases htype : r.header (ascii "Content-Type") = .ok urlencoded
  · rw [getPost_urlencoded htype hbody] at hp
    rcases getPostUrlencoded_cases ii { r with postData := [] } hsize with ⟨-, postData, mem', he, hd⟩ | ⟨-, he⟩
    · rw [he] at hp
      cases hp
      exact ⟨hd.before, fun h => hd.spills h.2, fun h => hd.keeps fun hs => h ⟨htype, hs⟩⟩
    · rw [he] at hp
      cases hp
  · have hnot : ¬ Overruns r rqst := fun h => htype h.1
    suffices hin : Inside r.bodyOffset r.size rqst p.2.2 from
      ⟨hin.before, fun h => absurd h hnot, fun _ => hin.behind⟩
    unfold getPost at hp
    simp only [bind, Except.bind, hbody, Option.getD_some] at hp
    split at hp
    · cases hp
    · next contentType hc =>
      split at hp
      · next he => exact absurd (hc.trans (congrArg Except.ok he)) htype
      · split at hp
        · cases hp
          exact (getPostMultipart_same { r with postData := [], body := some r.bodyOffset } r.bodyOffset _ rqst).2
        · cases hp
          exact .rfl' _ _ _

/-- A body that overruns is decoded. -/
theorem getPost_of_overruns (ii : Stack) {r : HttpRequest} {rqst : Bytes} (hbody : r.body = some r.bodyOffset)
    (hsize : r.size ≤ rqst.length) (h : Overruns r rqst) : ∃ p, getPost ii r rqst = .ok p := by
  rw [getPost_urlencoded h.1 hbody]
  rcases getPostUrlencoded_cases ii { r with postData := [] } hsize with ⟨-, _, _, he, -⟩ | ⟨he, -⟩
  · exact ⟨_, he⟩
  · exact absurd (ends_of_spills h.2) he

/-- **What stands behind a form is left as it was** unless its last value spills over it: the body is urlencoded, its
last item has a value without an escape, and the byte behind it is no NUL. -/
theorem further_kept_iff (ii : Stack) {rqst : Bytes} {r : HttpRequest} {c : Client}
    (h : parseRequest ii rqst false = .ok (r, rqst)) (hc : r.isComplete = true) (ht : r.type = ascii "POST")
    (hws : c.websocket = false) :
    (∀ q, parseRequest ii rqst true = .ok q → Untouched c r rqst q) ↔
      ¬ (r.header (ascii "Content-Type") = .ok urlencoded ∧ Spills (slice rqst r.bodyOffset r.size) ∧
        (rqst.drop r.size).headD 0 ≠ 0) := by
  obtain ⟨hbody, hsize, hparse⟩ := parseRequest_post h hc ht
  rw [hparse]
  constructor
  · rintro huntouched ⟨htype, hspills, hhead⟩
    obtain ⟨p, hp⟩ := getPost_of_overruns ii hbody hsize ⟨htype, hspills⟩
    have hbehind := (huntouched p.2 (by rw [hp]; rfl)).behind
    rw [(getPost_around hbody hsize hp).spills ⟨htype, hspills⟩, set_head_iff] at hbehind
    exact hhead hbehind
  · intro hnot q hq
    obtain ⟨p, hp, hq⟩ := bind_eq_ok.1 hq
    cases hq
    have ha := getPost_around hbody hsize hp
    obtain ⟨hsame, -⟩ := getPost_same hp
    have hbehind : p.2.2.drop r.size = rqst.drop r.size := by
      by_cases ho : Overruns r rqst
      · rw [ha.spills ho, set_head_iff]
        exact Classical.byContradiction fun hhead => hnot ⟨ho.1, ho.2, hhead⟩
      · exact ha.keeps ho
    refine ⟨ha.before, hbehind, ?_⟩
    have hcomplete : p.2.1.isComplete = true := by rw [HttpRequest.isComplete, hsame.body, hbody]; rfl
    have hsize' : p.2.1.size = r.size := by rw [HttpRequest.size, hsame.bodyOffset, hsame.bodySize]; rfl
    unfold Client.resetRqst
    rw [hws, Bool.not_false, if_pos rfl]
    simp only
    rw [if_pos hcomplete, hsize', hbehind]

/-- A form with a body of four bytes, and a request behind it. -/
def postForm (body : String) : Bytes :=
  ascii "POST / HTTP/1.1\r\nContent-Type: application/x-www-form-urlencoded\r\nContent-Length: 4\r\n\r\n" ++
    ascii body ++ ascii "GET / HTTP/1.1\r\n\r\n"

def postFormRequest : HttpRequest :=
  { headers := [ascii "POST / HTTP/1.1", ascii "Content-Type: application/x-www-form-urlencoded",
      ascii "Content-Length: 4"], bodyOffset := 87, bodySize := 4, body := some 87 }

theorem further_kept_pair : ∃ q, parseRequest (fun _ => 0) (postForm "a=1&") true = .ok q ∧
    Untouched { pcb := 1, handle := 1000 } postFormRequest (postForm "a=1&") q := by
  have hparse : parseRequest (fun _ => 0) (postForm "a=1&") false = .ok (postFormRequest, postForm "a=1&") := by decide +kernel
  have hreturns : (parseRequest (fun _ => 0) (postForm "a=1&") true).isOk = true := by decide +kernel
  have hbody : slice (postForm "a=1&") postFormRequest.bodyOffset postFormRequest.size =
      [97] ++ 61 :: ([49] ++ [38]) := by decide +kernel
  have hkept := (further_kept_iff (fun _ => 0) (c := { pcb := 1, handle := 1000 }) hparse rfl (by decide +kernel) rfl).2 (by
    rintro ⟨-, hspills, -⟩
    rw [hbody, spills_more] at hspills
    exact not_spills_nil hspills)
  cases hq : parseRequest (fun _ => 0) (postForm "a=1&") true with
  | ok q => exact ⟨q, rfl, hkept q hq⟩
  | error e =>
    rw [hq] at hreturns
    cases hreturns

/-- The method word behind the form loses its first byte. -/
theorem further_spoiled : ¬ ∀ (ii : Stack) (rqst : Bytes) (r : HttpRequest) (c : Client),
    parseRequest ii rqst false = .ok (r, rqst) → r.isComplete = true → r.type = ascii "POST" → c.websocket = false →
    ∀ q, parseRequest ii rqst true = .ok q → Untouched c r rqst q := by
  intro h
  have hspoiled : ((parseRequest (fun _ => 0) (postForm "a=12") true).toOption.any fun q =>
      q.2.drop postFormRequest.size != (postForm "a=12").drop postFormRequest.size) = true := by decide +kernel
  cases hq : parseRequest (fun _ => 0) (postForm "a=12") true with
  | error e =>
    rw [hq] at hspoiled
    cases hspoiled
  | ok q =>
    have hbehind := (h (fun _ => 0) _ postFormRequest { pcb := 1, handle := 1000 } (by decide +kernel) rfl (by decide +kernel) rfl
      q hq).behind
    rw [hq, Except.toOption, Option.any_some, hbehind, bne_self_eq_false] at hspoiled
    cases hspoiled

end Http
end Pico
