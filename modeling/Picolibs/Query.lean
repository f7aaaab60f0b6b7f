import Picolibs.Forms
import Picolibs.Letters
import Picolibs.Request
/-!
# Query — a value of the URL's query (`HTTPRequest::query`)

The whole URL is decoded before the query is cut off and split, so an escaped `&`, `=` or `?` separates like one that
was sent as such; and `npos + 1` is 0, so without a `?` the whole URL is searched.  `query_iff` says which queries are
answered all the same: by the pairs, behind a path that spells no `?`, and by the letters of the URL, whatever it is.
-/
namespace Pico
namespace Http

open Text

/-- The loop over the tokens, up to the first of the key. -/
def itemValue (key : Bytes) : List Bytes → Option Bytes
  | [] => none
  | tok :: toks =>
    match find (ascii "=") tok with
    | some i1 => if tok.take i1 = key then some (tok.drop (i1 + 1)) else itemValue key toks
    | none => itemValue key toks

/-- What is left of the decoded URL: `i1 + 1` is 0 where there is no `?`, and so never past the end. -/
def queryPart (qry : Bytes) : Bytes :=
  let next := ((find (ascii "?") qry).map (· + 1)).getD 0
  qry.drop (if qry.length < next then qry.length + 1 else next)

/-- `query`. -/
def HttpRequest.query (ii : UInt8) (r : HttpRequest) (key : Bytes) : Bytes :=
  (itemValue key (split (queryPart (uriDecode ii r.url)) (ascii "&"))).getD []

/-! ## Queries as they are sent -/

/-- What has to be escaped in a query: `&`, `=`, `?`, `%`, `+`, `#` and the space. -/
def queryReserved : Bytes := [38, 61, 63, 37, 43, 35, 32]

structure Param where
  key : Bytes
  value : Bytes
  sentKey : Bytes
  sentValue : Bytes
  keyCoded : Coded queryReserved key sentKey
  valueCoded : Coded queryReserved value sentValue

namespace Param

def sent (p : Param) : Bytes := p.sentKey ++ 61 :: p.sentValue

/-- The pair after decoding. -/
def raw (p : Param) : Bytes := p.key ++ 61 :: p.value

end Param

/-- Texts joined by `&`. -/
def joined : List Bytes → Bytes
  | [] => []
  | [t] => t
  | t :: u :: ts => t ++ 38 :: joined (u :: ts)

/-- The value of the first pair of a key, empty when there is none. -/
def valueIn (params : List Param) (key : Bytes) : Bytes :=
  ((params.find? (fun p => p.key == key)).map Param.value).getD []

/-! ## Splitting -/

theorem splitFrom_eq : ∀ (n : Nat) (s : Bytes), s.length < n → splitFrom (ascii "&") n s = s.splitOn 38
  | 0, _, h => absurd h (Nat.not_lt_zero _)
  | n + 1, s, h => by
    rw [splitFrom]
    by_cases hs : s.isEmpty = true
    · rw [if_pos hs, List.isEmpty_iff.1 hs, List.splitOn_nil]
    · rw [if_neg hs]
      by_cases hmem : 38 ∈ s
      · obtain ⟨v, more, rfl, hv⟩ := List.eq_append_cons_of_mem hmem
        have hfind : findFirstOf (ascii "&") (v ++ 38 :: more) 0 = some v.length := (findFirstOf_byte hv).2 more
        have hdrop : (v ++ 38 :: more).drop (v.length + 1) = more := by
          rw [← List.drop_drop, List.drop_left]
          rfl
        rw [List.length_append, List.length_cons] at h
        rw [hfind]
        simp only
        rw [List.take_left, hdrop, splitFrom_eq n more (by omega), List.splitOn_append_cons_self,
          List.splitOn_eq_singleton hv, List.singleton_append]
      · have hfind : findFirstOf (ascii "&") s 0 = none := (findFirstOf_byte hmem).1
        rw [hfind, List.splitOn_eq_singleton hmem]

/-- **`TXT::split` at `&`.** -/
theorem split_eq (s : Bytes) : split s (ascii "&") = s.splitOn 38 := by
  rw [← splitFrom_eq (s.length + 2) s (by omega), split, splitFrom]
  by_cases hs : s.isEmpty = true
  · rw [if_pos hs, List.isEmpty_iff.1 hs]
    rfl
  · exact (if_neg hs).symm

theorem itemValue_append (key : Bytes) : ∀ a b : List Bytes,
    itemValue key (a ++ b) = (itemValue key a).or (itemValue key b)
  | [], b => rfl
  | tok :: a, b => by
    have ih := itemValue_append key a b
    rw [List.cons_append, itemValue, itemValue]
    split
    · split
      · rfl
      · exact ih
    · exact ih

theorem find_equals {key : Bytes} (value : Bytes) (h : 61 ∉ key) :
    find (ascii "=") (key ++ 61 :: value) = some key.length := find_byte value h

/-- The first token of a pair whose key separates nothing. -/
theorem itemValue_raw {key : Bytes} (hkey : Free [38, 61] key) (value : Bytes) :
    itemValue key ((key ++ 61 :: value).splitOn 38) = some (value.takeWhile (· ≠ 38)) := by
  have h38 := hkey 38 (by decide)
  have h61 := hkey 61 (by decide)
  have hone (v : Bytes) (toks : List Bytes) : itemValue key ((key ++ 61 :: v) :: toks) = some v := by
    have hdrop : (key ++ 61 :: v).drop (key.length + 1) = v := by
      rw [← List.drop_drop, List.drop_left]
      rfl
    rw [itemValue, find_equals v h61]
    simp only
    rw [List.take_left, if_pos rfl, hdrop]
  obtain ⟨v, more, rfl, hv, hmore⟩ := split_at 38 value
  have hfree : 38 ∉ key ++ 61 :: v := by
    rw [List.mem_append, List.mem_cons, not_or, not_or]
    exact ⟨h38, by decide, hv⟩
  rcases hmore with rfl | ⟨more, rfl⟩
  · rw [List.append_nil, takeWhile_missing hv, List.splitOn_eq_singleton hfree, hone]
  · rw [takeWhile_found hv, ← List.cons_append, ← List.append_assoc, List.splitOn_append_cons_self,
      List.splitOn_eq_singleton hfree, List.singleton_append, hone]

/-- A key with a separator is in no token. -/
theorem itemValue_none {key : Bytes} (hkey : ¬ Free [38, 61] key) : ∀ toks : List Bytes, (∀ t ∈ toks, 38 ∉ t) →
    itemValue key toks = none
  | [], _ => rfl
  | tok :: toks, h => by
    have ih := itemValue_none hkey toks fun t ht => h t (List.mem_cons_of_mem _ ht)
    rw [itemValue]
    split
    · next i1 hi =>
      rw [if_neg, ih]
      rintro rfl
      refine hkey fun x hx hm => ?_
      rcases List.mem_cons.1 hx with rfl | hx
      · exact h tok List.mem_cons_self (List.take_subset _ _ hm)
      · rw [List.mem_singleton.1 hx] at hm
        obtain ⟨k, rest, rfl, hk⟩ := List.eq_append_cons_of_mem (List.take_subset _ _ hm)
        rw [find_equals rest hk] at hi
        cases hi
        rw [List.take_left] at hm
        exact hk hm
    · exact ih

theorem splitOn_plain (s : Bytes) : ∀ t ∈ s.splitOn 38, 38 ∉ t := by
  induction s with
  | nil =>
    intro t ht
    rw [List.splitOn_nil, List.mem_singleton] at ht
    rw [ht]
    exact List.not_mem_nil
  | cons c s ih =>
    intro t ht
    rw [List.splitOn_cons_eq_if_modifyHead] at ht
    split at ht
    · rcases List.mem_cons.1 ht with rfl | ht
      · exact List.not_mem_nil
      · exact ih t ht
    · next hc =>
      cases hs : s.splitOn 38 with
      | nil => exact absurd hs (List.splitOn_ne_nil _ _)
      | cons u us =>
        rw [hs] at ih ht
        rw [List.modifyHead_cons] at ht
        rcases List.mem_cons.1 ht with rfl | ht
        · rw [List.mem_cons, not_or]
          exact ⟨fun e => hc (by simp [← e]), ih u List.mem_cons_self⟩
        · exact ih t (List.mem_cons_of_mem _ ht)

theorem itemValue_joined (key : Bytes) : ∀ ts : List Bytes,
    itemValue key ((joined ts).splitOn 38) = itemValue key (ts.flatMap fun t => t.splitOn 38)
  | [] => rfl
  | [t] => by rw [List.flatMap_singleton]; rfl
  | t :: u :: ts => by
    rw [joined, List.splitOn_append_cons_self, itemValue_append, itemValue_joined key (u :: ts), ← itemValue_append]
    rfl

/-! ## The value in a text -/

/-- What stands in front of a value of the key, behind what was sent before. -/
def mark (key : Bytes) : Bytes := 38 :: key ++ [61]

theorem itemValue_skip {key tok : Bytes} (h : ¬ key ++ [61] <+: tok) (toks : List Bytes) :
    itemValue key (tok :: toks) = itemValue key toks := by
  rw [itemValue]
  split
  · next i1 hi =>
    rw [if_neg]
    rintro rfl
    obtain ⟨a, b, rfl, rfl⟩ := find_split hi
    rw [List.append_assoc, List.take_left] at h
    exact h (by rw [← List.append_assoc]; exact List.prefix_append _ b)
  · rfl

/-- **The value is what stands behind the first mark of the key, up to the next `&`.** -/
theorem itemValue_text {key : Bytes} (hkey : Free [38, 61] key) (s : Bytes) :
    itemValue key (s.splitOn 38) =
      (find (mark key) (38 :: s)).map fun k => ((38 :: s).drop (k + (mark key).length)).takeWhile (· ≠ 38) := by
  induction hn : s.length using Nat.strongRecOn generalizing s with
  | _ n ih =>
    by_cases hs : key ++ [61] <+: s
    · obtain ⟨value, rfl⟩ := hs
      have hmark : 38 :: (key ++ [61] ++ value) = mark key ++ value := rfl
      rw [hmark, find_of_prefix (List.prefix_append _ _), Option.map_some, Nat.zero_add, List.drop_left,
        List.append_assoc, List.singleton_append, itemValue_raw hkey]
    · -- no mark begins here, nor before the next `&`
      obtain ⟨v, more, rfl, hv, hmore⟩ := split_at 38 s
      have hv' : ¬ key ++ [61] <+: v := fun h => hs (h.trans (List.prefix_append _ _))
      have hhead : (mark key).isPrefixOf (38 :: (v ++ more)) = false := by
        rw [Bool.eq_false_iff, ne_eq, List.isPrefixOf_iff_prefix, mark, List.cons_append, List.cons_prefix_cons]
        exact fun h => hs h.2
      have hfind : find (mark key) (38 :: (v ++ more)) = (find (mark key) more).map (· + (v.length + 1)) := by
        rw [find, hhead, if_neg Bool.false_ne_true, mark, List.cons_append, find_append_of_not_mem more hv,
          Option.map_map]
        rfl
      rcases hmore with rfl | ⟨more, rfl⟩
      · rw [hfind, List.append_nil, List.splitOn_eq_singleton hv, itemValue_skip hv']
        rfl
      · have hlt : more.length < n := by
          rw [List.length_append, List.length_cons] at hn
          omega
        rw [hfind, List.splitOn_append_cons_self, List.splitOn_eq_singleton hv, List.singleton_append,
          itemValue_skip hv', ih more.length hlt more rfl, Option.map_map]
        congr 1
        funext k
        have hshift : k + (v.length + 1) + (mark key).length = (38 :: v).length + (k + (mark key).length) := by
          rw [List.length_cons]
          omega
        have hdrop : (38 :: v ++ 38 :: more).drop ((38 :: v).length + (k + (mark key).length)) =
            (38 :: more).drop (k + (mark key).length) := by
          rw [← List.drop_drop, List.drop_left]
        rw [Function.comp_apply, hshift, ← List.cons_append, hdrop]

theorem itemValue_some {key : Bytes} (hkey : Free [38, 61] key) (s value : Bytes) :
    itemValue key (s.splitOn 38) = some value ↔
      ∃ a b, First (mark key) (38 :: s) a b ∧ b.takeWhile (· ≠ 38) = value := by
  have hdrop {a b : Bytes} (h : First (mark key) (38 :: s) a b) :
      (38 :: s).drop (a.length + (mark key).length) = b := by
    rw [h.place, ← List.length_append, List.drop_left]
  rw [itemValue_text hkey, Option.map_eq_some_iff]
  constructor
  · rintro ⟨k, hk, rfl⟩
    obtain ⟨a, b, h, rfl⟩ := find_iff.1 hk
    exact ⟨a, b, h, by rw [hdrop h]⟩
  · rintro ⟨a, b, h, rfl⟩
    exact ⟨a.length, find_iff.2 ⟨a, b, h, rfl⟩, by rw [hdrop h]⟩

theorem itemValue_eq_none {key : Bytes} (hkey : Free [38, 61] key) (s : Bytes) :
    itemValue key (s.splitOn 38) = none ↔ ∀ a b, 38 :: s ≠ a ++ mark key ++ b := by
  rw [itemValue_text hkey, Option.map_eq_none_iff, find_none_iff]

/-! ## The query of a URL -/

theorem decode_params : ∀ (params : List Param) (ii : UInt8),
    uriDecode ii (joined (params.map Param.sent)) = joined (params.map Param.raw)
  | [], _ => rfl
  | p :: params, ii => by
    -- what follows a pair begins with a byte that is no escape
    have hpair (rest : Bytes) : ∃ ii', uriDecode ii (p.sent ++ rest) = p.raw ++ uriDecode ii' rest := by
      obtain ⟨ii1, h1⟩ := uriDecode_coded (by decide) (by decide) p.keyCoded (61 :: (p.sentValue ++ rest)) ii
      obtain ⟨ii2, h2⟩ := uriDecode_coded (by decide) (by decide) p.valueCoded rest ii1
      refine ⟨ii2, ?_⟩
      rw [Param.sent, List.append_assoc, List.cons_append, h1, uriDecode_plain (by decide) (by decide), h2, Param.raw,
        List.append_assoc, List.cons_append]
    cases params with
    | nil =>
      obtain ⟨ii', h⟩ := hpair []
      rw [List.append_nil, uriDecode_nil, List.append_nil] at h
      exact h
    | cons q params =>
      obtain ⟨ii', h⟩ := hpair (38 :: joined ((q :: params).map Param.sent))
      have ih := decode_params (q :: params) ii'
      rw [uriDecode_plain (by decide) (by decide), ih] at h
      exact h

theorem queryPart_first {s a b : Bytes} (h : First [63] s a b) : queryPart s = b := by
  have hfind : find (ascii "?") s = some a.length := find_iff.2 ⟨a, b, h, rfl⟩
  have hle : ¬ s.length < a.length + 1 := by
    rw [h.place, List.length_append, List.length_append, List.length_singleton]
    omega
  rw [queryPart, hfind]
  simp only [Option.map_some, Option.getD_some]
  rw [if_neg hle, h.place, ← List.length_singleton (a := (63 : UInt8)), ← List.length_append, List.drop_left]

theorem queryPart_none {s : Bytes} (h : ∀ a b, s ≠ a ++ [63] ++ b) : queryPart s = s := by
  have hfind : find (ascii "?") s = none := find_none_iff.2 h
  rw [queryPart, hfind]
  rfl

/-- The query is cut off at the `?` behind a path that spells none. -/
theorem queryPart_params {ii : UInt8} {path : Bytes} (hwhole : Whole path)
    (hpath : ∀ a w b, ¬ Spelled ii (letters path) [63] a w b) (params : List Param) :
    queryPart (uriDecode ii (path ++ 63 :: joined (params.map Param.sent))) = joined (params.map Param.raw) := by
  rw [(uriDecode_first _ path hwhole).2, uriDecode_plain (by decide) (by decide), decode_params]
  have hno (a b : Bytes) : uriDecode ii path ≠ a ++ [63] ++ b := fun h => by
    obtain ⟨a', w, b', hs⟩ := (exists_spelled (spells_decoded path ii)).1 ⟨a, b, h⟩
    exact hpath a' w b' hs
  generalize uriDecode ii path = p at hno
  refine queryPart_first (a := p) ⟨by rw [List.append_assoc]; rfl, fun a' b' h => ?_⟩
  rcases Nat.lt_or_ge a'.length p.length with hlt | hge
  · have hpre : a' ++ [63] <+: p := by
      refine List.prefix_of_prefix_length_le ⟨b', h.symm⟩ ⟨_, rfl⟩ ?_
      rw [List.length_append, List.length_singleton]
      exact hlt
    obtain ⟨c, hc⟩ := hpre
    exact absurd hc.symm (hno a' c)
  · exact hge

/-! ## What is answered to pairs -/

/-- The pairs as they are meant, each behind a `&`. -/
def pairsText (params : List Param) : Bytes := params.flatMap fun p => 38 :: p.raw

/-- The first pair of a key is read for what it is: no mark of the key stands in the pairs before it, or the same value
behind the first such; and no `&` cuts its own value.  Without such a pair, at most an empty value is read.  A key with a
separator finds nothing. -/
structure Unmistaken (key : Bytes) (params : List Param) : Prop where
  barred : ¬ Free [38, 61] key → valueIn params key = []
  absent : Free [38, 61] key → (∀ p ∈ params, p.key ≠ key) →
    ∀ a b, First (mark key) (pairsText params) a b → b.takeWhile (· ≠ 38) = []
  before : Free [38, 61] key → ∀ pre p post, params = pre ++ p :: post → p.key = key → (∀ q ∈ pre, q.key ≠ key) →
    ∀ a b, First (mark key) (pairsText pre) a b → b.takeWhile (· ≠ 38) = p.value
  whole : Free [38, 61] key → ∀ pre p post, params = pre ++ p :: post → p.key = key → (∀ q ∈ pre, q.key ≠ key) →
    (∀ a b, pairsText pre ≠ a ++ mark key ++ b) → 38 ∉ p.value

/-- The pairs before they are joined, cut at their `&`s. -/
def pieces (params : List Param) : List Bytes := params.flatMap fun p => p.raw.splitOn 38

theorem pieces_joined (key : Bytes) (params : List Param) :
    itemValue key ((joined (params.map Param.raw)).splitOn 38) = itemValue key (pieces params) := by
  rw [itemValue_joined, List.flatMap_map]
  rfl

theorem pairsText_joined (p : Param) (params : List Param) :
    pairsText (p :: params) = 38 :: joined ((p :: params).map Param.raw) := by
  induction params generalizing p with
  | nil => exact List.flatMap_singleton _ _
  | cons q params ih =>
    rw [pairsText, List.flatMap_cons, ← pairsText, ih q]
    rfl

theorem not_marked_nil (key a b : Bytes) : ([] : Bytes) ≠ a ++ mark key ++ b := by
  simp [mark]

theorem pieces_some {key : Bytes} (hkey : Free [38, 61] key) (params : List Param) (value : Bytes) :
    itemValue key (pieces params) = some value ↔
      ∃ a b, First (mark key) (pairsText params) a b ∧ b.takeWhile (· ≠ 38) = value := by
  cases params with
  | nil =>
    refine iff_of_false nofun ?_
    rintro ⟨a, b, h, -⟩
    exact not_marked_nil key a b h.place
  | cons p params => rw [← pieces_joined, itemValue_some hkey, pairsText_joined]

theorem pieces_none {key : Bytes} (hkey : Free [38, 61] key) (params : List Param) :
    itemValue key (pieces params) = none ↔ ∀ a b, pairsText params ≠ a ++ mark key ++ b := by
  cases params with
  | nil => exact iff_of_true rfl (not_marked_nil key)
  | cons p params => rw [← pieces_joined, itemValue_eq_none hkey, pairsText_joined]

theorem valueIn_first {key : Bytes} {params pre post : List Param} {p : Param} (h : params = pre ++ p :: post)
    (hp : p.key = key) (hpre : ∀ q ∈ pre, q.key ≠ key) : valueIn params key = p.value := by
  have hno : pre.find? (fun p => p.key == key) = none := by
    rw [List.find?_eq_none]
    intro q hq
    simpa using hpre q hq
  rw [valueIn, h, List.find?_append, hno, List.find?_cons_of_pos (by simpa using hp)]
  rfl

theorem valueIn_none {key : Bytes} {params : List Param} (h : ∀ p ∈ params, p.key ≠ key) :
    valueIn params key = [] := by
  have hno : params.find? (fun p => p.key == key) = none := by
    rw [List.find?_eq_none]
    intro q hq
    simpa using h q hq
  rw [valueIn, hno]
  rfl

theorem valueIn_cases (key : Bytes) (params : List Param) :
    (∀ p ∈ params, p.key ≠ key) ∨
      ∃ pre p post, params = pre ++ p :: post ∧ p.key = key ∧ ∀ q ∈ pre, q.key ≠ key := by
  cases hf : params.find? (fun p => p.key == key) with
  | none => exact Or.inl fun p hp => by simpa using List.find?_eq_none.1 hf p hp
  | some p =>
    obtain ⟨hp, pre, post, hs, hpre⟩ := List.find?_eq_some_iff_append.1 hf
    exact Or.inr ⟨pre, p, post, hs, by simpa using hp, fun q hq => by simpa using hpre q hq⟩

/-- What is answered where a pair of the key is. -/
theorem itemValue_pair {key : Bytes} (hkey : Free [38, 61] key) {pre post : List Param} {p : Param} (hp : p.key = key) :
    (itemValue key (pieces (pre ++ p :: post))).getD [] = p.value ↔
      (∀ w, itemValue key (pieces pre) = some w → w = p.value) ∧
        (itemValue key (pieces pre) = none → 38 ∉ p.value) := by
  have hpieces : pieces (pre ++ p :: post) = pieces pre ++ (p.raw.splitOn 38 ++ pieces post) := by
    rw [pieces, List.flatMap_append, List.flatMap_cons]
    rfl
  have hraw : itemValue key (p.raw.splitOn 38) = some (p.value.takeWhile (· ≠ 38)) := by
    rw [Param.raw, hp]
    exact itemValue_raw hkey p.value
  rw [hpieces, itemValue_append, itemValue_append, hraw]
  cases itemValue key (pieces pre) with
  | some w => exact ⟨fun h => ⟨fun v hv => Option.some.inj hv ▸ h, nofun⟩, fun h => h.1 w rfl⟩
  | none =>
    suffices h : p.value.takeWhile (· ≠ 38) = p.value ↔ 38 ∉ p.value from
      ⟨fun h' => ⟨nofun, fun _ => h.1 h'⟩, fun h' => h.2 (h'.2 rfl)⟩
    refine ⟨fun h hm => ?_, takeWhile_missing⟩
    have := List.takeWhile_eq_self_iff.1 h 38 hm
    simp at this

theorem pieces_plain (params : List Param) : ∀ t ∈ pieces params, 38 ∉ t := by
  intro t ht
  obtain ⟨p, -, hp⟩ := List.mem_flatMap.1 ht
  exact splitOn_plain _ t hp

/-- **The pairs are answered exactly when they are not mistaken.** -/
theorem pieces_iff (key : Bytes) (params : List Param) :
    (itemValue key (pieces params)).getD [] = valueIn params key ↔ Unmistaken key params := by
  by_cases hkey : Free [38, 61] key
  · have hempty : (itemValue key (pieces params)).getD [] = [] ↔
        ∀ w, itemValue key (pieces params) = some w → w = [] := by
      cases itemValue key (pieces params) <;> simp
    constructor
    · intro h
      refine ⟨fun hno => absurd hkey hno, fun _ habsent a b hab => ?_, fun _ pre p post hs hp hpre a b hab => ?_,
        fun _ pre p post hs hp hpre hno => ?_⟩
      · rw [valueIn_none habsent, hempty] at h
        exact h _ ((pieces_some hkey params _).2 ⟨a, b, hab, rfl⟩)
      · rw [valueIn_first hs hp hpre, hs, itemValue_pair hkey hp] at h
        exact h.1 _ ((pieces_some hkey pre _).2 ⟨a, b, hab, rfl⟩)
      · rw [valueIn_first hs hp hpre, hs, itemValue_pair hkey hp] at h
        exact h.2 ((pieces_none hkey pre).2 hno)
    · intro h
      rcases valueIn_cases key params with habsent | ⟨pre, p, post, hs, hp, hpre⟩
      · rw [valueIn_none habsent, hempty]
        intro w hw
        obtain ⟨a, b, hab, rfl⟩ := (pieces_some hkey params w).1 hw
        exact h.absent hkey habsent a b hab
      · rw [valueIn_first hs hp hpre, hs, itemValue_pair hkey hp]
        refine ⟨fun w hw => ?_, fun hno => h.whole hkey pre p post hs hp hpre ((pieces_none hkey pre).1 hno)⟩
        obtain ⟨a, b, hab, rfl⟩ := (pieces_some hkey pre w).1 hw
        exact h.before hkey pre p post hs hp hpre a b hab
  · rw [itemValue_none hkey _ (pieces_plain params)]
    exact ⟨fun h => ⟨fun _ => h.symm, fun hf => absurd hf hkey, fun hf => absurd hf hkey, fun hf => absurd hf hkey⟩,
      fun h => (h.barred hkey).symm⟩

/-! ## What is answered to letters -/

/-- Where a URL is searched: behind the first letter that spells a `?`, or all of it. -/
inductive Searched (ii : UInt8) (ls : List Letter) : UInt8 → List Letter → Prop where
  | behind (a w b : List Letter) : SpelledFirst ii ls [63] a w b → Searched ii ls (lastRead ii (a ++ w)) b
  | all : (∀ a w b, ¬ Spelled ii ls [63] a w b) → Searched ii ls ii ls

/-- The letters end here, or with one that spells a `&`. -/
def ValueEnds (ii : UInt8) (ls : List Letter) : Prop := ∀ l ∈ ls.head?, l.Means ii 38

/-- What is answered for a key: what the letters spell from behind the first mark of the key to the next `&`, and
nothing where none spells the mark. -/
inductive Answered (ii : UInt8) (key : Bytes) (ls : List Letter) : Bytes → Prop where
  | found (a w v b : List Letter) (value : Bytes) : Free [38, 61] key → SpelledFirst ii ls (mark key) a w (v ++ b) →
      Spells (lastRead ii (a ++ w)) v value → 38 ∉ value → ValueEnds (lastRead (lastRead ii (a ++ w)) v) b →
      Answered ii key ls value
  | missing : (Free [38, 61] key → ∀ a w b, ¬ Spelled ii ls (mark key) a w b) → Answered ii key ls []

theorem searched_exists (ii : UInt8) (s : Bytes) : ∃ jj rest, Searched ii (letters s) jj rest := by
  by_cases h : ∃ k, find [63] (uriDecode ii s) = some k
  · obtain ⟨k, hk⟩ := h
    obtain ⟨a, b, hab, -⟩ := find_iff.1 hk
    obtain ⟨a, w, b, hs, -⟩ := (first_spelled (spells_decoded s ii) b).1 ⟨a, hab⟩
    exact ⟨_, b, .behind a w b hs⟩
  · have hnone : find [63] (uriDecode ii s) = none := Option.eq_none_iff_forall_ne_some.2 fun k hk => h ⟨k, hk⟩
    refine ⟨ii, letters s, .all fun a w b hs => ?_⟩
    obtain ⟨u, v, he⟩ := (exists_spelled (spells_decoded s ii)).2 ⟨a, w, b, hs⟩
    exact find_none_iff.1 hnone u v he

/-- The letters that are searched spell what `query` splits. -/
theorem Searched.spells {ii jj : UInt8} {s : Bytes} {rest : List Letter} (h : Searched ii (letters s) jj rest) :
    Spells jj rest (queryPart (uriDecode ii s)) := by
  have hs := spells_decoded s ii
  cases h with
  | behind a w _ hq =>
    obtain ⟨u, v, -, -, hv⟩ := hq.toSpelled.decoded hs
    obtain ⟨u, hu⟩ := (first_spelled hs v).2 ⟨a, w, rest, hq, hv⟩
    rw [queryPart_first hu]
    exact hv
  | all hno =>
    rw [queryPart_none fun u v he => ?_]
    · exact hs
    · obtain ⟨a, w, b, hq⟩ := (exists_spelled hs).1 ⟨u, v, he⟩
      exact hno a w b hq

theorem valueEnds_iff {ii : UInt8} {ls : List Letter} {t : Bytes} (h : Spells ii ls t) :
    ValueEnds ii ls ↔ ∀ x ∈ t.head?, x = 38 := by
  cases h with
  | nil => exact iff_of_true nofun nofun
  | cons hm _ =>
    simp only [ValueEnds, List.head?_cons, Option.mem_some_iff, forall_eq']
    exact ⟨fun h => hm.unique h, fun h => h ▸ hm⟩

theorem takeWhile_iff (t value : Bytes) : t.takeWhile (· ≠ 38) = value ↔
    ∃ more, t = value ++ more ∧ 38 ∉ value ∧ ∀ x ∈ more.head?, x = 38 := by
  constructor
  · rintro rfl
    obtain ⟨v, more, rfl, hv, rfl | ⟨more, rfl⟩⟩ := split_at 38 t
    · rw [List.append_nil, takeWhile_missing hv]
      exact ⟨[], (List.append_nil v).symm, hv, nofun⟩
    · rw [takeWhile_found hv]
      exact ⟨38 :: more, rfl, hv, fun x hx => (Option.some.inj hx).symm⟩
  · rintro ⟨more, rfl, hv, hmore⟩
    cases more with
    | nil => rw [List.append_nil, takeWhile_missing hv]
    | cons x more =>
      rw [hmore x rfl, takeWhile_found hv]

/-- **The letters are answered as the text they spell.** -/
theorem answered_iff {ii : UInt8} {ls : List Letter} {s : Bytes} (hs : Spells ii ls (38 :: s)) (key value : Bytes) :
    (itemValue key (s.splitOn 38)).getD [] = value ↔ Answered ii key ls value := by
  by_cases hkey : Free [38, 61] key
  · constructor
    · rintro rfl
      cases hv : itemValue key (s.splitOn 38) with
      | none =>
        refine .missing fun _ a w b hm => ?_
        obtain ⟨u, v, he⟩ := (exists_spelled hs).2 ⟨a, w, b, hm⟩
        exact (itemValue_eq_none hkey s).1 hv u v he
      | some value =>
        obtain ⟨u, t, hu, ht⟩ := (itemValue_some hkey s value).1 hv
        obtain ⟨more, rfl, hfree, hmore⟩ := (takeWhile_iff t value).1 ht
        obtain ⟨a, w, b, hm, hb⟩ := (first_spelled hs _).1 ⟨u, hu⟩
        obtain ⟨v, b, rfl, hv, hb⟩ := hb.cut
        exact .found a w v b value hkey hm hv hfree ((valueEnds_iff hb).2 hmore)
    · intro h
      cases h with
      | found a w v b value _ hm hv hfree hends =>
        obtain ⟨u, t, -, -, ht⟩ := hm.toSpelled.decoded hs
        obtain ⟨u, hu⟩ := (first_spelled hs t).2 ⟨a, w, v ++ b, hm, ht⟩
        obtain ⟨value', more, rfl, hv', hb⟩ := ht.split
        rw [hv'.unique hv] at hu
        have hread := (itemValue_some hkey s value).2
          ⟨u, _, hu, (takeWhile_iff _ value).2 ⟨more, rfl, hfree, (valueEnds_iff hb).1 hends⟩⟩
        rw [hread]
        rfl
      | missing hno =>
        have hread := (itemValue_eq_none hkey s).2 fun u v he => by
          obtain ⟨a, w, b, hm⟩ := (exists_spelled hs).1 ⟨u, v, he⟩
          exact hno hkey a w b hm
        rw [hread]
        rfl
  · rw [itemValue_none hkey _ (splitOn_plain s)]
    constructor
    · rintro rfl
      exact .missing fun hf => absurd hf hkey
    · intro h
      cases h with
      | found _ _ _ _ _ hf => exact absurd hf hkey
      | missing _ => rfl

/-- **Which queries are answered.**  Behind a path that does not end inside an escape and spells no `?`, the pairs that
are not mistaken.  On any URL, what its letters spell behind the first mark of the key, from the first letter that spells
a `?` on or, without one, from its start. -/
theorem query_iff (ii : UInt8) (r : HttpRequest) (key : Bytes) :
    (∀ (path : Bytes) (params : List Param), r.url = path ++ 63 :: joined (params.map Param.sent) →
      Whole path → (∀ a w b, ¬ Spelled ii (letters path) [63] a w b) →
      (r.query ii key = valueIn params key ↔ Unmistaken key params)) ∧
    ∀ value, r.query ii key = value ↔
      ∃ jj rest, Searched ii (letters r.url) jj rest ∧ Answered jj key (.char 38 :: rest) value := by
  constructor
  · intro path params hurl hwhole hpath
    rw [HttpRequest.query, hurl, queryPart_params hwhole hpath, split_eq, pieces_joined]
    exact pieces_iff key params
  · intro value
    rw [HttpRequest.query, split_eq]
    have hsearch {jj : UInt8} {rest : List Letter} (h : Searched ii (letters r.url) jj rest) :=
      answered_iff (Spells.cons (.plain 38 (by decide)) h.spells) key value
    constructor
    · intro h
      obtain ⟨jj, rest, hs⟩ := searched_exists ii r.url
      exact ⟨jj, rest, hs, (hsearch hs).1 h⟩
    · rintro ⟨jj, rest, hs, h⟩
      exact (hsearch hs).2 h

/-- A request for a URL. -/
def getUrl (url : String) : HttpRequest := { headers := [ascii "GET " ++ ascii url ++ ascii " HTTP/1.1"] }

/-- `a=1&2`, with the separator of the value escaped. -/
def escapedParam : Param where
  key := [97]
  value := [49, 38, 50]
  sentKey := [97]
  sentValue := [49, 37, 50, 54, 50]
  keyCoded := .cons (.plain 97 (by decide)) .nil
  valueCoded := .cons (.plain 49 (by decide))
    (.cons (.escape 38 50 54 2 6 rfl rfl rfl) (.cons (.plain 50 (by decide)) .nil))

def plainParam : Param where
  key := [98]
  value := [49]
  sentKey := [98]
  sentValue := [49]
  keyCoded := .cons (.plain 98 (by decide)) .nil
  valueCoded := .cons (.plain 49 (by decide)) .nil

theorem query_iff_plain : (getUrl "/?b=1").query 0 [98] = valueIn [plainParam] [98] := by
  have hone (pre post : List Param) (p : Param) (h : [plainParam] = pre ++ p :: post) : pre = [] ∧ p = plainParam := by
    cases pre with
    | nil => exact ⟨rfl, (List.cons.inj h).1.symm⟩
    | cons q pre =>
      have := congrArg List.length h
      simp at this
  refine ((query_iff 0 (getUrl "/?b=1") [98]).1 [47] [plainParam] (by decide) (by decide) fun a w b h => ?_).2
    ⟨fun hno => absurd (by decide) hno, fun _ h => absurd rfl (h plainParam List.mem_cons_self),
      fun _ pre p post hs _ _ a b hab => ?_, fun _ pre p post hs _ _ _ => ?_⟩
  · obtain ⟨u, v, he⟩ := (exists_spelled (spells_decoded [47] 0)).2 ⟨a, w, b, h⟩
    have hmem : 63 ∈ uriDecode 0 [47] := by simp [he]
    exact absurd hmem (by decide)
  · have hplace := hab.place
    rw [(hone pre post p hs).1] at hplace
    exact absurd hplace (not_marked_nil [98] a b)
  · rw [(hone pre post p hs).2]
    decide

/-- An escaped `&` cuts the value, and a path is searched for a query. -/
theorem query_mistaken :
    (¬ ∀ (ii : UInt8) (r : HttpRequest) (key path : Bytes) (params : List Param), 63 ∉ path →
      r.url = path ++ 63 :: joined (params.map Param.sent) → r.query ii key = valueIn params key) ∧
    ¬ ∀ (ii : UInt8) (r : HttpRequest) (key : Bytes), 63 ∉ r.url → r.query ii key = [] := by
  constructor
  · intro h
    exact absurd (h 0 (getUrl "/?a=1%262") [97] [47] [escapedParam] (by decide) (by decide)) (by decide)
  · intro h
    exact absurd (h 0 (getUrl "/a=1") [47, 97] (by decide)) (by decide)

end Http
end Pico
