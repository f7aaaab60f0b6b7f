import Picolibs.Forms
/-!
# FormData — what a form's sender wrote is what `postArray` gives (`get_post_urlencoded`)

An `Item` is a key and a value with one of the ways they may be sent.  The loop decodes each value over its own
encoding and ends it with a NUL, behind which it goes on; so what is written later never reaches an earlier value
(`Filled`).
-/
namespace Pico
namespace Http

open Text

/-- `postArray`: where the values of a key are. -/
def HttpRequest.postArray (r : HttpRequest) (key : Bytes) : List Nat :=
  (r.postData.filter (fun e => e.1 == key)).map Prod.snd

/-- The POST data as their readers see them: the values are C strings. -/
def readData (mem : Bytes) (postData : List (Bytes × Nat)) : List (Bytes × Bytes) :=
  postData.map fun e => (e.1, cstr (mem.drop e.2))

/-- What has to be escaped in a form: `%`, `&`, `+`, `=` and the space. -/
def formReserved : Bytes := [37, 38, 43, 61, 32]

/-- A key and a value, and how they are sent. -/
structure Item where
  key : Bytes
  value : Bytes
  sentKey : Bytes
  sentValue : Bytes
  keyCoded : Coded formReserved key sentKey
  valueCoded : Coded formReserved value sentValue
  ended : 0 ∉ value

namespace Item

def text (i : Item) : Bytes := i.sentKey ++ 61 :: i.sentValue

def pair (i : Item) : Bytes × Bytes := (i.key, i.value)

theorem key_free (i : Item) : 61 ∉ i.sentKey := i.keyCoded.not_mem (by decide) (by decide) (by decide) rfl

theorem value_free (i : Item) : 38 ∉ i.sentValue := i.valueCoded.not_mem (by decide) (by decide) (by decide) rfl

theorem decode_key (i : Item) (ii : UInt8) : uriDecode ii i.sentKey = i.key :=
  uriDecode_whole (by decide) (by decide) i.keyCoded ii

theorem decode_value (i : Item) (ii : UInt8) : uriDecode ii i.sentValue = i.value :=
  uriDecode_whole (by decide) (by decide) i.valueCoded ii

end Item

/-- The items, joined by `&`. -/
def formBody : List Item → Bytes
  | [] => []
  | [i] => i.text
  | i :: j :: items => i.text ++ 38 :: formBody (j :: items)

/-- The first item, and what the separator leaves. -/
theorem formBody_cons (i : Item) (items : List Item) :
    ∃ more, formBody (i :: items) = i.sentKey ++ 61 :: (i.sentValue ++ more) ∧ more.drop 1 = formBody items ∧
      (more = [] ∨ ∃ more', more = 38 :: more') := by
  cases items with
  | nil => exact ⟨[], by rw [List.append_nil]; rfl, rfl, Or.inl rfl⟩
  | cons j items =>
    refine ⟨38 :: formBody (j :: items), ?_, rfl, Or.inr ⟨_, rfl⟩⟩
    rw [formBody, Item.text, List.append_assoc, List.cons_append]

/-! ## Values in place -/

theorem takeWhile_of_take {p : UInt8 → Bool} : ∀ {a b : Bytes} {m : Nat}, a.take m = b.take m →
    (a.takeWhile p).length < m → b.takeWhile p = a.takeWhile p
  | a, b, 0, _, h => absurd h (Nat.not_lt_zero _)
  | [], [], _ + 1, _, _ => rfl
  | [], _ :: _, _ + 1, h, _ => by cases h
  | _ :: _, [], _ + 1, h, _ => by cases h
  | x :: a, y :: b, m + 1, h, hlt => by
    rw [List.take_succ_cons, List.take_succ_cons, List.cons.injEq] at h
    obtain ⟨rfl, h⟩ := h
    rw [List.takeWhile_cons] at hlt ⊢
    rw [List.takeWhile_cons]
    split
    · next hp =>
      rw [if_pos hp, List.length_cons] at hlt
      rw [takeWhile_of_take h (Nat.lt_of_succ_lt_succ hlt)]
    · rfl

/-- A C string that ends before `q` depends on the bytes before `q` alone. -/
theorem cstr_drop {mem mem' : Bytes} {p q : Nat} (h : mem'.take q = mem.take q)
    (hq : p + (cstr (mem.drop p)).length < q) : cstr (mem'.drop p) = cstr (mem.drop p) := by
  refine takeWhile_of_take (m := q - p) ?_ (by rw [← cstr]; omega)
  rw [← List.drop_take, ← List.drop_take, h]

theorem drop_poke_self : ∀ (bs mem : Bytes) (p : Nat), p + bs.length ≤ mem.length →
    (poke mem p bs).drop p = bs ++ mem.drop (p + bs.length)
  | [], _, _, _ => rfl
  | b :: bs, mem, p, h => by
    rw [List.length_cons] at h
    have ih := drop_poke_self bs (mem.set p b) (p + 1) (by rw [List.length_set]; omega)
    have hhead : (poke (mem.set p b) (p + 1) bs)[p]? = some b := by
      have htake := take_poke bs (mem.set p b) (p + 1) (p + 1) (Nat.le_refl _)
      have hget := congrArg (fun l : Bytes => l[p]?) htake
      simp only [List.getElem?_take, Nat.lt_succ_self, if_true] at hget
      rw [hget, List.getElem?_set_self (by omega)]
    have hlt : p < (poke (mem.set p b) (p + 1) bs).length := by
      rw [length_poke, List.length_set]
      omega
    rw [List.getElem?_eq_getElem hlt] at hhead
    rw [poke, List.drop_eq_getElem_cons hlt, Option.some.inj hhead, ih, List.drop_set, if_pos (by omega),
      List.cons_append, List.length_cons]
    congr 3
    omega

/-- **A value is read where it was written**, up to the NUL behind it, which may be past the end of the text. -/
theorem cstr_poke {mem v : Bytes} {p : Nat} (h : p + v.length ≤ mem.length) (hv : 0 ∉ v) :
    cstr ((poke mem p (v ++ [0])).drop p) = v := by
  rcases Nat.lt_or_eq_of_le h with hlt | he
  · rw [drop_poke_self _ _ _ (by rw [List.length_append, List.length_singleton]; omega), List.append_assoc,
      List.singleton_append, cstr_append_nul, cstr_eq_self_iff]
    exact hv
  · have hset : poke mem p (v ++ [0]) = poke mem p v := by
      rw [poke_append]
      show (poke mem p v).set (p + v.length) 0 = _
      rw [List.set_eq_of_length_le (by rw [length_poke]; omega)]
    rw [hset, drop_poke_self _ _ _ h, he, List.drop_length, List.append_nil, cstr_eq_self_iff]
    exact hv

/-! ## The loop -/

/-- What the loop adds from a state on, as it is read at the end. -/
structure Filled (pairs : List (Bytes × Bytes)) (s s' : FormState) : Prop where
  ret : s'.ret = s.ret
  before : s'.mem.take s.ptr = s.mem.take s.ptr
  added : ∃ es, s'.postData = s.postData ++ es ∧ readData s'.mem es = pairs

theorem Filled.rfl' (s : FormState) : Filled [] s s := ⟨rfl, rfl, [], (List.append_nil _).symm, rfl⟩

/-- A pass that writes a value behind the pointer and goes on behind its NUL. -/
theorem Filled.again {pairs : List (Bytes × Bytes)} {s t s' : FormState} {p : Nat} {key value : Bytes}
    (hret : t.ret = s.ret) (hmem : t.mem = poke s.mem p (value ++ [0])) (hdata : t.postData = s.postData ++ [(key, p)])
    (hp : s.ptr ≤ p) (hq : p + value.length < t.ptr) (hin : p + value.length ≤ s.mem.length) (hv : 0 ∉ value)
    (h : Filled pairs t s') : Filled ((key, value) :: pairs) s s' := by
  obtain ⟨es, hes, hread⟩ := h.added
  have hhere : cstr (t.mem.drop p) = value := by rw [hmem, cstr_poke hin hv]
  have hthere : cstr (s'.mem.drop p) = value := by rw [cstr_drop h.before (by rw [hhere]; exact hq), hhere]
  refine ⟨h.ret.trans hret, ?_, (key, p) :: es, ?_, ?_⟩
  · have hbefore := congrArg (List.take s.ptr) h.before
    rw [List.take_take, List.take_take, Nat.min_eq_left (by omega), hmem, take_poke _ _ _ _ hp] at hbefore
    exact hbefore
  · rw [hes, hdata, List.append_assoc, List.singleton_append]
  · rw [readData, List.map_cons, hthere]
    exact congrArg _ hread

theorem append_cons_inj {x : UInt8} {a b c d : Bytes} (h : a ++ x :: b = c ++ x :: d) (ha : x ∉ a) (hc : x ∉ c) :
    a = c ∧ b = d := by
  have hac := congrArg (List.takeWhile (· ≠ x)) h
  rw [takeWhile_found ha, takeWhile_found hc] at hac
  rw [hac, List.append_cancel_left_eq, List.cons.injEq] at h
  exact ⟨hac, h.2⟩

/-- A value ends at the separator, in one way. -/
theorem item_inj {x : UInt8} {a b c d : Bytes} (h : a ++ b = c ++ d) (ha : x ∉ a) (hc : x ∉ c)
    (hb : b = [] ∨ ∃ b', b = x :: b') (hd : d = [] ∨ ∃ d', d = x :: d') : a = c ∧ b = d := by
  rcases hb with rfl | ⟨b', rfl⟩ <;> rcases hd with rfl | ⟨d', rfl⟩
  · exact ⟨by simpa using h, rfl⟩
  · exact absurd (by rw [List.append_nil] at h; rw [h]; simp) ha
  · exact absurd (by rw [List.append_nil] at h; rw [← h]; simp) hc
  · obtain ⟨hac, hbd⟩ := append_cons_inj h ha hc
    exact ⟨hac, by rw [hbd]⟩

theorem form_items (ii : Stack) {stop : Nat} : ∀ (items : List Item) (s : FormState), stop ≤ s.mem.length →
    s.rest stop = formBody items →
    ∃ m s', Loop.run (formPass ii stop) m s = some s' ∧ Filled (items.map Item.pair) s s'
  | [], s, hlen, hrest => by
    have hrest : s.rest stop = [] := hrest
    cases formStep hlen with
    | done _ hpass => exact ⟨1, s, Loop.run_leave (hpass ii) 0, .rfl' s⟩
    | stuck hne _ _ => exact absurd hrest hne
    | bare k h _ _ => exact absurd (h.symm.trans hrest) (by simp)
    | pair k v more h _ _ _ _ _ => exact absurd (h.symm.trans hrest) (by simp)
  | i :: items, s, hlen, hrest => by
    have hsize : (s.rest stop).length = stop - s.ptr := length_slice_eq hlen
    obtain ⟨more, hbody, hmore, hsep⟩ := formBody_cons i items
    rw [hbody] at hrest
    rw [hrest] at hsize
    simp only [List.length_append, List.length_cons] at hsize
    cases formStep hlen with
    | done h _ => exact absurd (hrest.symm.trans h) (by simp)
    | stuck _ h _ => exact absurd (by rw [hrest]; simp) h
    | bare k h hk hpasses =>
      have hpass := hpasses ii
      obtain ⟨rfl, hnil⟩ := append_cons_inj (hrest.symm.trans h) i.key_free hk
      obtain ⟨hvalue, hend⟩ := List.append_eq_nil_iff.1 hnil
      have hempty : i.value = [] := by rw [← i.decode_value (ii (s.ptr + i.sentKey.length + 1)), hvalue, uriDecode_nil]
      rw [hend] at hmore
      rw [hvalue, hend, List.length_nil] at hsize
      generalize ht : ({ s with
        ptr := s.ptr + i.sentKey.length + 1, mem := poke s.mem (s.ptr + i.sentKey.length) [0]
        postData := s.postData ++ [(uriDecode (ii s.ptr) i.sentKey, s.ptr + i.sentKey.length)] } : FormState) = t at hpass
      have hmem : t.mem = poke s.mem (s.ptr + i.sentKey.length) (i.value ++ [0]) := by rw [← ht, hempty]; rfl
      have hptr : t.ptr = s.ptr + (i.sentKey.length + 1) := by rw [← ht]; rfl
      have hlt : s.ptr + i.sentKey.length + i.value.length < t.ptr := by
        rw [hempty, hptr, List.length_nil]
        omega
      have hnext : t.rest stop = formBody items := by
        rw [rest_write hmem hlt hptr, h, ← hmore]
        simp
      obtain ⟨m, s', hm, hfilled⟩ := form_items ii items t (by rw [hmem, length_poke]; exact hlen) hnext
      refine ⟨m + 1, s', by rw [Loop.run_again hpass, hm], ?_⟩
      have hkey : t.postData = s.postData ++ [(i.key, s.ptr + i.sentKey.length)] := by rw [← ht, i.decode_key]
      exact hfilled.again (by rw [← ht]) hmem hkey (Nat.le_add_right _ _) hlt
        (by rw [hempty, List.length_nil]; omega) i.ended
    | pair k v more' h hk hne hv hsep' hpasses =>
      have hpass := hpasses ii
      obtain ⟨rfl, htail⟩ := append_cons_inj (hrest.symm.trans h) i.key_free hk
      obtain ⟨rfl, rfl⟩ := item_inj htail i.value_free hv hsep hsep'
      generalize ht : ({ s with
        ptr := s.ptr + i.sentKey.length + 1 + i.sentValue.length + 1
        mem := poke s.mem (s.ptr + i.sentKey.length + 1) (uriDecode (ii (s.ptr + i.sentKey.length + 1)) i.sentValue ++ [0])
        postData := s.postData ++ [(uriDecode (ii s.ptr) i.sentKey, s.ptr + i.sentKey.length + 1)] } : FormState) = t at hpass
      have hdecode : i.value.length ≤ i.sentValue.length := by
        rw [← i.decode_value (ii (s.ptr + i.sentKey.length + 1))]
        exact length_uriDecodeFrom _ _ _
      have hmem : t.mem = poke s.mem (s.ptr + i.sentKey.length + 1) (i.value ++ [0]) := by rw [← ht, i.decode_value]
      have hptr : t.ptr = s.ptr + ((i.sentKey ++ 61 :: i.sentValue).length + 1) := by
        rw [← ht, List.length_append, List.length_cons]
        show s.ptr + i.sentKey.length + 1 + i.sentValue.length + 1 = _
        omega
      have hlt : s.ptr + i.sentKey.length + 1 + i.value.length < t.ptr := by
        rw [hptr, List.length_append, List.length_cons]
        omega
      have hnext : t.rest stop = formBody items := by
        rw [rest_write hmem hlt hptr, h, ← List.cons_append, ← List.append_assoc, List.drop_length_add_append, hmore]
      obtain ⟨m, s', hm, hfilled⟩ := form_items ii items t (by rw [hmem, length_poke]; exact hlen) hnext
      refine ⟨m + 1, s', by rw [Loop.run_again hpass, hm], ?_⟩
      have hkey : t.postData = s.postData ++ [(i.key, s.ptr + i.sentKey.length + 1)] := by rw [← ht, i.decode_key]
      exact hfilled.again (by rw [← ht]) hmem hkey (by omega) hlt (by omega) i.ended

/-! ## The whole form -/

theorem map_filter_fst (key : Bytes) : ∀ l : List (Bytes × Nat), ∀ mem : Bytes,
    ((l.filter (fun e => e.1 == key)).map Prod.snd).map (fun p => cstr (mem.drop p)) =
      ((readData mem l).filter (fun e => e.1 == key)).map Prod.snd := by
  intro l mem
  rw [readData, List.filter_map, List.map_map, List.map_map]
  rfl

/-- **A form gives what its sender wrote**: every value under its key, in order, and nothing else. -/
theorem form_decoded (ii : Stack) (items : List Item) (before after : Bytes) (r : HttpRequest)
    (hsize : r.bodySize = (formBody items).length) (hnew : r.postData = []) :
    ∃ r' mem', getPostUrlencoded ii r before.length (before ++ formBody items ++ after) = .ok (true, r', mem') ∧
      readData mem' r'.postData = items.map Item.pair ∧
      ∀ key, (r'.postArray key).map (fun p => cstr (mem'.drop p)) =
        (items.filter (fun i => i.key == key)).map Item.value := by
  generalize hmem : before ++ formBody items ++ after = mem
  generalize hs : ({ ptr := before.length, mem := mem, postData := r.postData, ret := true } : FormState) = s
  have hlen : before.length + r.bodySize ≤ mem.length := by
    rw [← hmem, hsize, List.length_append, List.length_append]
    exact Nat.le_add_right _ _
  have hrest : s.rest (before.length + r.bodySize) = formBody items := by
    rw [← hs, FormState.rest, slice, ← hmem, hsize, Nat.add_sub_cancel_left, List.append_assoc, List.drop_left,
      List.take_left]
  obtain ⟨m, s', hm, hfilled⟩ := form_items ii items s (by rw [← hs]; exact hlen) hrest
  obtain ⟨es, hes, hread⟩ := hfilled.added
  have hdata : s'.postData = es := by rw [hes, ← hs, hnew, List.nil_append]
  have hret : s'.ret = true := by rw [hfilled.ret, ← hs]
  refine ⟨{ r with postData := s'.postData }, s'.mem, ?_, by rw [hdata, hread], fun key => ?_⟩
  · unfold getPostUrlencoded
    simp only [hs]
    cases hrun : Loop.run (formPass ii (before.length + r.bodySize))
      (formRank (before.length + r.bodySize) s + 1) s with
    | none =>
      rw [(formRun_eq_none ii _ s).1 hrun m] at hm
      cases hm
    | some s1 =>
      rw [Loop.run_unique hrun hm]
      show Except.ok (s'.ret, _, s'.mem) = _
      rw [hret]
  · rw [HttpRequest.postArray, map_filter_fst, hdata, hread, List.filter_map, List.map_map]
    rfl

/-- `q=a+b&q=`. -/
def searchItems : List Item :=
  [{ key := [113], value := [97, 32, 98], sentKey := [113], sentValue := [97, 43, 98]
     keyCoded := .cons (.plain 113 (by decide)) .nil
     valueCoded := .cons (.plain 97 (by decide)) (.cons .space (.cons (.plain 98 (by decide)) .nil))
     ended := by decide },
   { key := [113], value := [], sentKey := [113], sentValue := []
     keyCoded := .cons (.plain 113 (by decide)) .nil
     valueCoded := .nil
     ended := by decide }]

theorem form_decoded_search : ∃ r' mem',
    getPostUrlencoded (fun _ => 0) { bodySize := 8 } 0 ([] ++ formBody searchItems ++ []) = .ok (true, r', mem') ∧
      readData mem' r'.postData = searchItems.map Item.pair := by
  obtain ⟨r', mem', h, hread, -⟩ := form_decoded (fun _ => 0) searchItems [] [] { bodySize := 8 } (by decide) rfl
  exact ⟨r', mem', h, hread⟩

end Http
end Pico
