import Picolibs.Locality
import Picolibs.Multipart
/-!
# PostBody — which POST bodies are read the same whatever is behind them (`get_post`)

What `get_post` finds depends on the body alone but for three things.  A first escape that `sscanf` cannot read decodes
to what the stack holds (`FormRead`); the last value of an urlencoded body may spill its NUL (`Spills`); and a part that
a multipart body leaves open takes its boundary from what is behind the body, should the two make one (`Crosses`).

The loops are compared with themselves on the memory cut behind the body (`FormState.cut`, `PartState.cut`).
-/
namespace Pico
namespace Http

open Text

/-! ## The memory up to the end of the body -/

section Cut

variable {mem : Bytes} {stop p q : Nat}

theorem fetch_cut (h : p < stop) : fetch (mem.take stop) p = fetch mem p := by
  rw [fetch, fetch, List.getD_eq_getElem?_getD, List.getD_eq_getElem?_getD, List.getElem?_take_of_lt h]

theorem scan_congr {f g : Nat → Bool} : ∀ (n p : Nat), (∀ q, p ≤ q → q < p + n → f q = g q) → scan f n p = scan g n p
  | 0, _, _ => rfl
  | n + 1, p, h => by
    rw [scan, scan, h p (Nat.le_refl p) (by omega), scan_congr n (p + 1) fun q hq hlt => h q (by omega) (by omega)]

theorem scan_cut (x : UInt8) (p : Nat) :
    scan (fun q => fetch (mem.take stop) q == x) (stop - p) p = scan (fun q => fetch mem q == x) (stop - p) p :=
  scan_congr (stop - p) p fun q _ hq => by rw [fetch_cut (by omega)]

theorem slice_cut (h : q ≤ stop ∨ q ≤ p) : slice (mem.take stop) p q = slice mem p q := by
  rw [slice, slice, List.drop_take, List.take_take, Nat.min_eq_left (by omega)]

theorem poke_cut : ∀ (bs mem : Bytes) (p : Nat), poke (mem.take stop) p bs = (poke mem p bs).take stop
  | [], _, _ => rfl
  | b :: bs, mem, p => by rw [poke, poke, ← List.take_set, poke_cut bs]

theorem scan_within (f : Nat → Bool) (p : Nat) : scan f (stop - p) p ≤ stop ∨ scan f (stop - p) p ≤ p := by
  have := scan_le f (stop - p) p
  omega

end Cut

/-! ## Urlencoded bodies -/

/-- The keys and the values of an urlencoded body by turns: a key goes to the next `=`, a value to the next `&`. -/
def formPieces (value : Bool) : Bytes → List Bytes
  | [] => [[]]
  | c :: s =>
    if c = (if value then 38 else 61) then [] :: formPieces (!value) s
    else (formPieces value s).modifyHead (c :: ·)

/-- `sscanf` reads the first escape of every key and of every value. -/
def FormRead (body : Bytes) : Prop := ∀ t ∈ formPieces false body, FirstRead t

theorem formPieces_found (value : Bool) (t : Bytes) : ∀ {k : Bytes}, (if value then 38 else 61) ∉ k →
    formPieces value (k ++ (if value then 38 else 61) :: t) = k :: formPieces (!value) t
  | [], _ => by rw [List.nil_append, formPieces, if_pos rfl]
  | c :: k, h => by
    rw [List.mem_cons, not_or] at h
    rw [List.cons_append, formPieces, if_neg (Ne.symm h.1), formPieces_found value t h.2, List.modifyHead_cons]

theorem formPieces_missing (value : Bool) : ∀ {k : Bytes}, (if value then 38 else 61) ∉ k → formPieces value k = [k]
  | [], _ => rfl
  | c :: k, h => by
    rw [List.mem_cons, not_or] at h
    rw [formPieces, if_neg (Ne.symm h.1), formPieces_missing value h.2, List.modifyHead_cons]

theorem firstRead_nil : FirstRead [] := by simp [FirstRead, escapes, escapesFrom]

theorem formRead_nil : FormRead [] := by
  intro t ht
  rw [List.mem_singleton.1 ht]
  exact firstRead_nil

theorem formRead_bare {k : Bytes} (hk : 61 ∉ k) : FormRead (k ++ [61]) ↔ FirstRead k := by
  have hpieces : formPieces false (k ++ [61]) = [k, []] := formPieces_found false [] hk
  rw [FormRead, hpieces, List.forall_mem_cons]
  refine and_iff_left fun t ht => ?_
  rw [List.mem_singleton.1 ht]
  exact firstRead_nil

/-- A key, a value, and what the separator leaves. -/
theorem formRead_pair {k v more : Bytes} (hk : 61 ∉ k) (hv : 38 ∉ v) (hmore : more = [] ∨ ∃ more', more = 38 :: more') :
    FormRead (k ++ 61 :: (v ++ more)) ↔ FirstRead k ∧ FirstRead v ∧ FormRead (more.drop 1) := by
  have hpieces : formPieces false (k ++ 61 :: (v ++ more)) = k :: formPieces true (v ++ more) :=
    formPieces_found false _ hk
  rw [FormRead, hpieces, List.forall_mem_cons]
  refine and_congr_right fun _ => ?_
  rcases hmore with rfl | ⟨more, rfl⟩
  · have hlast : formPieces true (v ++ []) = [v] := by
      rw [List.append_nil]
      exact formPieces_missing true hv
    rw [hlast, List.forall_mem_singleton]
    exact (and_iff_left formRead_nil).symm
  · have hnext : formPieces true (v ++ 38 :: more) = v :: formPieces false more := formPieces_found true more hv
    rw [hnext, List.forall_mem_cons]
    rfl

/-- What a loop over a body sees of the memory. -/
def FormState.cut (stop : Nat) (s : FormState) : FormState := { s with mem := s.mem.take stop }

theorem formPass_cut (ii : Stack) (stop : Nat) (s : FormState) :
    formPass ii stop (s.cut stop) = (formPass ii stop s).map (FormState.cut stop) (FormState.cut stop) := by
  have hkey := @slice_cut s.mem stop s.ptr _ (scan_within (fun p => fetch s.mem p == 61) s.ptr)
  unfold formPass FormState.cut
  simp only [scan_cut, hkey]
  split
  · split
    · generalize scan (fun p => fetch s.mem p == 61) (stop - s.ptr) s.ptr + 1 = ptr
      have hvalue := @slice_cut s.mem stop ptr _ (scan_within (fun p => fetch s.mem p == 38) ptr)
      simp only [hvalue, poke_cut]
      split <;> rfl
    · rfl
  · rfl

/-- **An urlencoded body is found by itself**, whatever is behind it. -/
theorem getPostUrlencoded_cut (ii : Stack) (r : HttpRequest) (off : Nat) (mem : Bytes) :
    getPostUrlencoded ii r off (mem.take (off + r.bodySize)) =
      (getPostUrlencoded ii r off mem).map fun q => (q.1, q.2.1, q.2.2.take (off + r.bodySize)) := by
  have hrun := Loop.run_map (I := fun _ => True) (fun _ _ _ _ => trivial)
    (fun s _ => formPass_cut ii (off + r.bodySize) s)
  unfold getPostUrlencoded
  generalize hs : ({ ptr := off, mem := mem, postData := r.postData, ret := true } : FormState) = s
  have hcut : ({ ptr := off, mem := mem.take (off + r.bodySize), postData := r.postData, ret := true } : FormState) =
      s.cut (off + r.bodySize) := by rw [← hs]; rfl
  have hrank : formRank (off + r.bodySize) (s.cut (off + r.bodySize)) = formRank (off + r.bodySize) s := rfl
  simp only [hcut, hrank, hrun _ s trivial]
  cases Loop.run (formPass ii (off + r.bodySize)) (formRank (off + r.bodySize) s + 1) s <;> rfl

/-! ### What the stack holds -/

section Garbage

variable {stop : Nat}

theorem rest_bare {s t : FormState} {k : Bytes} (hrest : s.rest stop = k ++ [61])
    (hmem : t.mem = poke s.mem (s.ptr + k.length) [0]) (hptr : t.ptr = s.ptr + k.length + 1) : t.rest stop = [] := by
  rw [@rest_write stop s t _ _ [] hmem (by rw [hptr]; exact Nat.lt_succ_self _) (hptr.trans (Nat.add_assoc _ _ _)), hrest]
  simp

theorem rest_pair {s t : FormState} {k v more bs : Bytes} (hrest : s.rest stop = k ++ 61 :: (v ++ more))
    (hbs : bs.length ≤ v.length) (hmem : t.mem = poke s.mem (s.ptr + k.length + 1) (bs ++ [0]))
    (hptr : t.ptr = s.ptr + k.length + 1 + v.length + 1) : t.rest stop = more.drop 1 := by
  have hk : t.ptr = s.ptr + ((k ++ 61 :: v).length + 1) := by
    rw [hptr, List.length_append, List.length_cons]
    omega
  rw [rest_write hmem (by omega) hk, hrest, ← List.cons_append, ← List.append_assoc, List.drop_length_add_append]

/-- A pass that reads its key and its value is the same on every stack, and so is what is left to read. -/
theorem formPass_read (ii ii' : Stack) {s : FormState} (hlen : stop ≤ s.mem.length) (h : FormRead (s.rest stop)) :
    formPass ii' stop s = formPass ii stop s ∧
      ∀ t, formPass ii stop s = .again t → stop ≤ t.mem.length ∧ FormRead (t.rest stop) := by
  cases formStep hlen with
  | done hrest hpass =>
    refine ⟨(hpass ii').trans (hpass ii).symm, fun t ht => ?_⟩
    rw [hpass] at ht
    cases ht
  | stuck hrest hnone hpass =>
    refine ⟨(hpass ii').trans (hpass ii).symm, fun t ht => ?_⟩
    rw [hpass] at ht
    cases ht
    exact ⟨hlen, h⟩
  | bare k hrest hk hpass =>
    rw [hrest, formRead_bare hk] at h
    have hkey := (uriDecode_garbage k).2 h (ii' s.ptr) (ii s.ptr)
    refine ⟨by rw [hpass, hpass, hkey], fun t ht => ?_⟩
    rw [hpass] at ht
    cases ht
    exact ⟨by rw [length_poke]; exact hlen, by rw [rest_bare hrest rfl rfl]; exact formRead_nil⟩
  | pair k v more hrest hk hne hv hmore hpass =>
    rw [hrest, formRead_pair hk hv hmore] at h
    have hkey := (uriDecode_garbage k).2 h.1 (ii' s.ptr) (ii s.ptr)
    have hvalue := (uriDecode_garbage v).2 h.2.1 (ii' (s.ptr + k.length + 1)) (ii (s.ptr + k.length + 1))
    refine ⟨by rw [hpass, hpass, hkey, hvalue], fun t ht => ?_⟩
    rw [hpass] at ht
    cases ht
    refine ⟨by rw [length_poke]; exact hlen, ?_⟩
    rw [rest_pair hrest (length_uriDecodeFrom _ _ _) rfl rfl]
    exact h.2.2

/-- **A body that is read is found alike on every stack.** -/
theorem formRun_read (ii ii' : Stack) : ∀ (n : Nat) {s : FormState}, stop ≤ s.mem.length → FormRead (s.rest stop) →
    Loop.run (formPass ii' stop) n s = Loop.run (formPass ii stop) n s
  | 0, _, _, _ => rfl
  | n + 1, s, hlen, h => by
    obtain ⟨hsame, hnext⟩ := formPass_read ii ii' hlen h
    rw [Loop.run, Loop.run, hsame]
    cases hp : formPass ii stop s with
    | leave t => rfl
    | again t =>
      obtain ⟨hlen', h'⟩ := hnext t hp
      exact formRun_read ii ii' n hlen' h'

theorem getPostUrlencoded_read (ii ii' : Stack) (r : HttpRequest) {off : Nat} {mem : Bytes}
    (hlen : off + r.bodySize ≤ mem.length) (h : FormRead (slice mem off (off + r.bodySize))) :
    getPostUrlencoded ii' r off mem = getPostUrlencoded ii r off mem := by
  unfold getPostUrlencoded
  generalize hs : ({ ptr := off, mem := mem, postData := r.postData, ret := true } : FormState) = s
  have hrest : s.rest (off + r.bodySize) = slice mem off (off + r.bodySize) := by rw [← hs]; rfl
  simp only [formRun_read ii ii' _ (show off + r.bodySize ≤ s.mem.length by rw [← hs]; exact hlen)
    (by rw [hrest]; exact h)]

/-- What was found stays found, and what was decoded stays decoded. -/
theorem formRun_kept (ii : Stack) {n : Nat} {s s' : FormState} (hret : s.ret = true) (hlen : stop ≤ s.mem.length)
    (h : Loop.run (formPass ii stop) n s = some s') :
    s.postData <+: s'.postData ∧ s'.mem.take s.ptr = s.mem.take s.ptr := by
  constructor
  · refine Loop.run_inv (I := fun t => s.postData <+: t.postData) (Q := fun t => s.postData <+: t.postData) ?_ ?_ n s s'
      (List.prefix_refl _) h
    · intro t t' ht he
      unfold formPass at he
      simp only at he
      split at he
      · split at he
        · split at he
          · cases he
            exact ht.trans (List.prefix_append _ _)
          · cases he
            exact ht.trans (List.prefix_append _ _)
        · cases he
          exact ht
      · cases he
    · intro t t' ht he
      rcases formPass_cases ii stop t with hl | ⟨t1, ha, -⟩
      · rw [hl] at he
        cases he
        exact ht
      · rw [ha] at he
        cases he
  · rcases form_run ii _ s hret hlen (Nat.lt_succ_self _) with ⟨-, m, s1, hm, -, hd⟩ | ⟨-, hh⟩
    · rw [Loop.run_unique h hm]
      exact hd.before
    · rw [hh n] at h
      cases h

/-- The loop comes to the same on every stack. -/
def Steady (stop : Nat) (s : FormState) : Prop :=
  ∀ g g' n n' t t', Loop.run (formPass (fun _ => g) stop) n s = some t →
    Loop.run (formPass (fun _ => g') stop) n' s = some t' → t.postData = t'.postData ∧ t.mem = t'.mem

theorem length_uriDecode_stack (g g' : UInt8) (s : Bytes) : (uriDecode g s).length = (uriDecode g' s).length := by
  induction s using escape_induction generalizing g g' with
  | nil => rfl
  | plain c s hc ih =>
    obtain ⟨d, hd⟩ := uriDecode_other hc
    rw [hd, hd, List.length_cons, List.length_cons, ih g g']
  | escape s ih => rw [uriDecode_escape, uriDecode_escape, List.length_cons, List.length_cons, ih]

/-- What was written is read. -/
theorem read_poke {mem bs : Bytes} {p : Nat} (h : p + bs.length ≤ mem.length) :
    ((poke mem p (bs ++ [0])).drop p).take bs.length = bs := by
  rw [poke_append]
  show (((poke mem p bs).set (p + bs.length) 0).drop p).take bs.length = bs
  rw [List.drop_set, if_neg (by omega), Nat.add_sub_cancel_left, List.take_set_of_le (Nat.le_refl _),
    drop_poke_self bs mem p h, List.take_left]

/-- The pass that has written the same on every stack leaves the rest of the loop to be so. -/
theorem Steady.again {s t : FormState} (h : Steady stop s)
    (hpass : ∀ g, formPass (fun _ => g) stop s = .again t) : Steady stop t := by
  intro g g' n n' u u' hu hu'
  refine h g g' (n + 1) (n' + 1) u u' ?_ ?_
  · rw [Loop.run_again (hpass g), hu]
  · rw [Loop.run_again (hpass g'), hu']

/-- A loop that comes to the same on every stack has found the same first, and decoded it to the same bytes. -/
theorem Steady.first {s : FormState} {t : UInt8 → FormState} (h : Steady stop s) (hret : s.ret = true)
    (hlen : stop ≤ s.mem.length) (hends : Ends (s.rest stop))
    (hpass : ∀ g, formPass (fun _ => g) stop s = .again (t g)) (hret' : ∀ g, (t g).ret = true)
    (hlen' : ∀ g, stop ≤ (t g).mem.length) (g g' : UInt8) (hptr : (t g).ptr = (t g').ptr)
    (hcount : (t g).postData.length = (t g').postData.length) :
    (t g).postData = (t g').postData ∧ (t g).mem.take (t g).ptr = (t g').mem.take (t g).ptr := by
  have hkept (g : UInt8) : ∃ n u, Loop.run (formPass (fun _ => g) stop) n s = some u ∧
      (t g).postData <+: u.postData ∧ u.mem.take (t g).ptr = (t g).mem.take (t g).ptr := by
    rcases form_run (fun _ => g) _ s hret hlen (Nat.lt_succ_self _) with ⟨-, n, u, hn, -⟩ | ⟨hno, -⟩
    · cases n with
      | zero => cases hn
      | succ n =>
        obtain ⟨hdata, hmem⟩ := formRun_kept _ (hret' g) (hlen' g) (by rw [← Loop.run_again (hpass g)]; exact hn)
        exact ⟨n + 1, u, hn, hdata, hmem⟩
    · exact absurd hends hno
  obtain ⟨n, u, hn, hdata, hmem⟩ := hkept g
  obtain ⟨n', u', hn', hdata', hmem'⟩ := hkept g'
  obtain ⟨hsame, hsame'⟩ := h g g' n n' u u' hn hn'
  rw [← hsame] at hdata'
  exact ⟨(List.prefix_of_prefix_length_le hdata hdata' (Nat.le_of_eq hcount)).eq_of_length hcount,
    by rw [← hmem, hsame', hptr, hmem']⟩

/-- **A body that is found alike on every stack is read.** -/
theorem formRead_of_steady : ∀ (n : Nat) {s : FormState}, s.ret = true → stop ≤ s.mem.length →
    (s.rest stop).length < n → Ends (s.rest stop) → Steady stop s → FormRead (s.rest stop)
  | 0, _, _, _, hn, _, _ => absurd hn (Nat.not_lt_zero _)
  | n + 1, s, hret, hlen, hn, hends, hsteady => by
    have hsize : (s.rest stop).length = stop - s.ptr := length_slice_eq hlen
    cases formStep hlen with
    | done hrest hpass =>
      rw [hrest]
      exact formRead_nil
    | stuck hrest hnone hpass => exact absurd hends (not_ends hrest hnone)
    | bare k hrest hk hpass =>
      rw [hrest, formRead_bare hk, ← uriDecode_garbage]
      intro g g'
      have hfirst := (hsteady.first hret hlen hends (fun g => hpass fun _ => g) (fun _ => hret)
        (fun _ => by rw [length_poke]; exact hlen) g g' rfl (by simp)).1
      rw [List.append_cancel_left_eq, List.cons.injEq, Prod.mk.injEq] at hfirst
      exact hfirst.1.1
    | pair k v more hrest hk hne hv hmore hpass =>
      rw [hrest] at hsize hn
      simp only [List.length_append, List.length_cons] at hsize hn
      have hfirst (g g' : UInt8) := hsteady.first hret hlen hends (fun g => hpass fun _ => g) (fun _ => hret)
        (fun _ => by rw [length_poke]; exact hlen) g g' rfl (by simp)
      have hkey (g g' : UInt8) : uriDecode g k = uriDecode g' k := by
        have hdata := (hfirst g g').1
        rw [List.append_cancel_left_eq, List.cons.injEq, Prod.mk.injEq] at hdata
        exact hdata.1.1
      have hvalue (g g' : UInt8) : uriDecode g v = uriDecode g' v := by
        have hcode : (uriDecode g v).length ≤ v.length := length_uriDecodeFrom _ _ _
        have hcode' := length_uriDecode_stack g g' v
        have hmem := congrArg (fun l : Bytes => (l.drop (s.ptr + k.length + 1)).take (uriDecode g v).length)
          (hfirst g g').2
        simp only [List.drop_take, List.take_take] at hmem
        rw [Nat.min_eq_left (by omega), read_poke (by omega), hcode', read_poke (by omega)] at hmem
        exact hmem
      rw [hrest, formRead_pair hk hv hmore]
      refine ⟨(uriDecode_garbage k).1 hkey, (uriDecode_garbage v).1 hvalue, ?_⟩
      generalize ht : ({ s with
        ptr := s.ptr + k.length + 1 + v.length + 1
        mem := poke s.mem (s.ptr + k.length + 1) (uriDecode 0 v ++ [0])
        postData := s.postData ++ [(uriDecode 0 k, s.ptr + k.length + 1)] } : FormState) = t
      have hagain (g : UInt8) : formPass (fun _ => g) stop s = .again t := by
        rw [hpass, ← ht, hkey g 0, hvalue g 0]
      have hnext : t.rest stop = more.drop 1 :=
        rest_pair hrest (length_uriDecodeFrom _ 0 v) (by rw [← ht]; rfl) (by rw [← ht])
      rcases hmore with rfl | ⟨more, rfl⟩
      · exact formRead_nil
      · rw [hrest, ends_more hk hv] at hends
        rw [← hnext]
        refine formRead_of_steady n (by rw [← ht]; exact hret) (by rw [← ht, length_poke]; exact hlen) ?_ ?_
          (hsteady.again hagain)
        · rw [hnext, List.drop_one, List.tail_cons]
          simp only [List.length_cons] at hn
          omega
        · rw [hnext]
          exact hends

end Garbage

/-! ## Multipart bodies -/

def firstLine (t : Bytes) : Bytes := t.takeWhile (· ≠ 13)

/-- What is behind the first line and the two bytes that end it. -/
def afterLine (t : Bytes) : Bytes := t.drop ((firstLine t).length + 2)

theorem length_afterLine {t : Bytes} (h : t ≠ []) : (afterLine t).length < t.length := by
  have := List.length_pos_iff.2 h
  rw [afterLine, List.length_drop]
  omega

/-- What is behind the header lines of a part, the first of which has been read. -/
def headEnd (line t : Bytes) : Bytes :=
  if _h : t ≠ [] ∧ line ≠ [] then headEnd (firstLine t) (afterLine t) else t
termination_by t.length
decreasing_by exact length_afterLine _h.1

/-- The value of the part behind a boundary line, and all that is behind it. -/
def valueText (t : Bytes) : Bytes := headEnd (firstLine t) (afterLine t)

/-- Behind a boundary line, the last part's value has no boundary behind it. -/
inductive LeftOpen (b : Bytes) : Bytes → Bytes → Prop where
  | here {t : Bytes} : find b ((valueText t).drop 1) = none → LeftOpen b t (valueText t)
  | later {t v : Bytes} {k : Nat} : find b ((valueText t).drop 1) = some k →
      firstLine ((valueText t).drop (k + 1)) = b → afterLine ((valueText t).drop (k + 1)) ≠ [] →
      LeftOpen b (afterLine ((valueText t).drop (k + 1))) v → LeftOpen b t v

/-- The boundary begins in the value, and ends in what follows it. -/
def Completes (b v following : Bytes) : Prop := ∃ k, find b ((v ++ following).drop 1) = some k ∧ k < v.length

/-- The part that a body leaves open gets its boundary from what follows the body. -/
def Crosses (b body following : Bytes) : Prop :=
  firstLine body = b ∧ afterLine body ≠ [] ∧ ∃ v, LeftOpen b (afterLine body) v ∧ Completes b v following

theorem find_first {pat s : Bytes} {k : Nat} (h : find pat s = some k) :
    pat <+: s.drop k ∧ ∀ j < k, ¬ pat <+: s.drop j := by
  obtain ⟨a, c, rfl, rfl⟩ := find_split h
  refine ⟨by rw [List.append_assoc, List.drop_left]; exact List.prefix_append _ _, fun j hj hp => ?_⟩
  obtain ⟨d, hd⟩ := hp
  have hstr : a ++ pat ++ c = (a ++ pat ++ c).take j ++ pat ++ d := by
    rw [List.append_assoc _ pat d, hd, List.take_append_drop]
  have hprefix : (a ++ pat ++ c).take j ++ pat <+: a ++ pat ++ c := ⟨d, hstr.symm⟩
  have hnone := find_none_of_prefix h hprefix (by
    rw [List.length_append, List.length_take]
    omega)
  exact find_ne_none pat [] ((a ++ pat ++ c).take j) (by rw [List.append_nil]; exact hnone)

section Parts

variable {stop p : Nat} {mem b : Bytes}

theorem readLine_cut (mem : Bytes) (stop p : Nat) : readLine (mem.take stop) stop p = readLine mem stop p := by
  unfold readLine
  simp only [scan_cut, @slice_cut mem stop p _ (scan_within (fun q => fetch mem q == 13) p)]

/-- A line, and where the next one begins. -/
theorem readLine_text (hlen : stop ≤ mem.length) (hp : p ≤ stop) :
    (readLine mem stop p).1 = firstLine (slice mem p stop) ∧
      slice mem (readLine mem stop p).2 stop = afterLine (slice mem p stop) ∧
      p + (readLine mem stop p).1.length ≤ (readLine mem stop p).2 ∧ (readLine mem stop p).2 ≤ stop := by
  have hfirst := readLine_fst hlen hp
  have hscan := scan_eq mem 13 (stop - p) p (by omega)
  rw [← slice, ← firstLine] at hscan
  rw [← firstLine] at hfirst
  have hnext : (readLine mem stop p).2 = if p + (firstLine (slice mem p stop)).length + 1 < stop then
      p + (firstLine (slice mem p stop)).length + 2 else stop := by
    rw [← hscan]
    rfl
  have hsize := length_slice_eq (p := p) hlen
  have hle : (firstLine (slice mem p stop)).length ≤ (slice mem p stop).length := (List.takeWhile_prefix _).length_le
  refine ⟨hfirst, ?_, ?_, (readLine_le mem hp).2.1⟩
  · rw [hnext, afterLine]
    split
    · rw [Nat.add_assoc, ← drop_slice]
    · rw [slice, Nat.sub_self, List.take_zero, List.drop_eq_nil_of_le (by omega)]
  · rw [hfirst, hnext]
    split <;> omega

def PartState.cut (stop : Nat) (s : PartState) : PartState := { s with mem := s.mem.take stop }

theorem partHeader_cut (stop : Nat) (s : PartState) : partHeader (s.cut stop) = (partHeader s).cut stop := by
  unfold partHeader PartState.cut
  simp only [poke_cut]
  split
  · split <;> rfl
  · rfl

theorem partHeaders_cut (stop : Nat) : ∀ (n : Nat) (s : PartState),
    partHeaders stop n (s.cut stop) = (partHeaders stop n s).cut stop
  | 0, _ => rfl
  | n + 1, s => by
    rw [partHeaders, partHeaders]
    by_cases h : s.ptr < stop ∧ ¬ s.line.isEmpty
    · rw [if_pos h, if_pos (show (s.cut stop).ptr < stop ∧ ¬ (s.cut stop).line.isEmpty from h), partHeader_cut,
        ← partHeaders_cut stop n]
      simp only [PartState.cut, readLine_cut]
    · rw [if_neg h, if_neg (show ¬ ((s.cut stop).ptr < stop ∧ ¬ (s.cut stop).line.isEmpty) from h)]

/-- Where the header lines of a part end. -/
theorem partHeaders_rest : ∀ (n : Nat) (s : PartState), stop ≤ s.mem.length → s.ptr ≤ stop →
    s.lp + s.line.length ≤ s.ptr → (slice s.mem s.ptr stop).length < n →
    slice (partHeaders stop n s).mem (partHeaders stop n s).ptr stop = headEnd s.line (slice s.mem s.ptr stop) ∧
      stop ≤ (partHeaders stop n s).mem.length ∧ (partHeaders stop n s).ptr ≤ stop ∧
      (partHeaders stop n s).mem.drop stop = s.mem.drop stop
  | 0, _, _, _, _, hn => absurd hn (Nat.not_lt_zero _)
  | n + 1, s, hlen, hp, hline, hn => by
    have hsize := length_slice_eq (p := s.ptr) hlen
    rw [partHeaders, headEnd]
    by_cases h : s.ptr < stop ∧ ¬ s.line.isEmpty
    · have hne : slice s.mem s.ptr stop ≠ [] := List.ne_nil_of_length_pos (by omega)
      have hfull : s.line ≠ [] := fun e => h.2 (by rw [e]; rfl)
      rw [if_pos h, dif_pos ⟨hne, hfull⟩]
      obtain ⟨hin, hptr⟩ := @inside_partHeader 0 s.ptr s (Nat.zero_le s.lp) hline
      have hlen' : stop ≤ (partHeader s).mem.length := by rw [hin.length]; exact hlen
      have hsame : slice (partHeader s).mem (partHeader s).ptr stop = slice s.mem s.ptr stop := by
        rw [slice, slice, hptr, hin.behind]
      obtain ⟨hfst, hrest, hle, hnext⟩ := readLine_text hlen' (Nat.le_trans (Nat.le_of_eq hptr) hp)
      rw [hsame] at hfst hrest
      have hshort := length_afterLine hne
      rw [← hrest] at hshort
      obtain ⟨h1, h2, h3, h4⟩ := partHeaders_rest n
        { partHeader s with
          line := (readLine (partHeader s).mem stop (partHeader s).ptr).1, lp := (partHeader s).ptr
          ptr := (readLine (partHeader s).mem stop (partHeader s).ptr).2 } hlen' hnext hle (by
        show (slice (partHeader s).mem (readLine (partHeader s).mem stop (partHeader s).ptr).2 stop).length < n
        omega)
      have hdrop : (partHeader s).mem.drop stop = s.mem.drop stop := by
        have := congrArg (List.drop (stop - s.ptr)) hin.behind
        rwa [List.drop_drop, List.drop_drop, Nat.add_sub_cancel' hp] at this
      refine ⟨h1.trans ?_, h2, h3, h4.trans hdrop⟩
      show headEnd (readLine (partHeader s).mem stop (partHeader s).ptr).1
        (slice (partHeader s).mem (readLine (partHeader s).mem stop (partHeader s).ptr).2 stop) = _
      rw [hfst, hrest]
    · rw [if_neg h, dif_neg]
      · exact ⟨rfl, hlen, hp, rfl⟩
      · rintro ⟨hne, hfull⟩
        refine h ⟨?_, by rw [List.isEmpty_iff]; exact hfull⟩
        have := List.length_pos_iff.2 hne
        omega

/-! ### The value of a part -/

theorem boundary_stop {x : Nat} (hb : ∃ b', b = 45 :: b') (h : b <+: mem.drop x) (hx : 0 < x) :
    (fun q => !(fetch mem q != 13 && fetch mem (q + 1) == 10)) (x - 1) = true := by
  obtain ⟨b', rfl⟩ := hb
  obtain ⟨t, ht⟩ := h
  have hfetch : fetch mem x = 45 := by
    have hget := congrArg List.head? ht
    rw [List.head?_drop] at hget
    rw [fetch, List.getD_eq_getElem?_getD, ← hget]
    rfl
  show (!(_ && fetch mem (x - 1 + 1) == 10)) = true
  rw [Nat.sub_add_cancel hx, hfetch]
  simp

/-- The scan finds the first boundary behind the value's first byte. -/
theorem partValue_at (h0 : 0 ∉ b) (hb : ∃ b', b = 45 :: b') (value : Nat) {x : Nat} : ∀ (n : Nat) (s : PartState),
    s.ptr < x → x ≤ stop → x - s.ptr ≤ n → b <+: s.mem.drop x → (∀ i, s.ptr < i → i < x → ¬ b <+: s.mem.drop i) →
    partValue b stop value n s =
      { s with
        mem := poke s.mem (x - 2) [0], postData := s.postData ++ [(s.key, value)]
        line := (readLine (poke s.mem (x - 2) [0]) stop x).1
        ptr := (readLine (poke s.mem (x - 2) [0]) stop x).2 }
  | 0, _, hlt, _, hn, _, _ => by omega
  | n + 1, s, hlt, hx, hn, hat, hno => by
    have hge := scan_ge (fun q => !(fetch s.mem q != 13 && fetch s.mem (q + 1) == 10)) (stop - s.ptr) s.ptr
    have hle : scan (fun q => !(fetch s.mem q != 13 && fetch s.mem (q + 1) == 10)) (stop - s.ptr) s.ptr ≤ x - 1 :=
      scan_le_of_stop (boundary_stop hb hat (by omega)) (stop - s.ptr) s.ptr (by omega)
    rw [partValue, if_pos (by omega)]
    generalize scan (fun q => !(fetch s.mem q != 13 && fetch s.mem (q + 1) == 10)) (stop - s.ptr) s.ptr = cp at hge hle
    simp only [if_pos (show cp < stop by omega), sameUpTo_iff _ _ h0]
    by_cases hend : cp + 1 = x
    · rw [hend, if_pos hat]
    · rw [if_neg (hno (cp + 1) (by omega) (by omega))]
      exact partValue_at h0 hb value n { s with ptr := cp + 1 } (show cp + 1 < x by omega) hx
        (show x - (cp + 1) ≤ n by omega) hat fun i hi => hno i (show s.ptr < i by have : cp + 1 < i := hi; omega)

theorem partValue_none (h0 : 0 ∉ b) (value : Nat) : ∀ (n : Nat) (s : PartState), s.ptr ≤ stop → stop - s.ptr ≤ n →
    (∀ i, s.ptr < i → i ≤ stop → ¬ b <+: s.mem.drop i) → partValue b stop value n s = { s with ptr := stop }
  | 0, s, hp, hn, _ => by
    have he : s.ptr = stop := by omega
    rw [partValue, ← he]
  | n + 1, s, hp, hn, hno => by
    rw [partValue]
    split
    · next hlt =>
      have hge := scan_ge (fun q => !(fetch s.mem q != 13 && fetch s.mem (q + 1) == 10)) (stop - s.ptr) s.ptr
      generalize scan (fun q => !(fetch s.mem q != 13 && fetch s.mem (q + 1) == 10)) (stop - s.ptr) s.ptr = cp at hge
      have hptr : s.ptr < (if cp < stop then cp + 1 else stop) ∧ (if cp < stop then cp + 1 else stop) ≤ stop := by
        split <;> omega
      simp only [sameUpTo_iff _ _ h0]
      generalize (if cp < stop then cp + 1 else stop) = ptr at hptr ⊢
      rw [if_neg (hno ptr hptr.1 hptr.2)]
      exact partValue_none h0 value n { s with ptr := ptr } hptr.2 (show stop - ptr ≤ n by omega) fun i hi =>
        hno i (Nat.lt_trans hptr.1 hi)
    · next hlt =>
      have he : s.ptr = stop := by omega
      rw [← he]

/-- The state behind the value that ends before the boundary at `x`. -/
def PartState.closed (stop value x : Nat) (s : PartState) : PartState :=
  { s with
    mem := poke s.mem (x - 2) [0], postData := s.postData ++ [(s.key, value)]
    line := (readLine (poke s.mem (x - 2) [0]) stop x).1
    ptr := (readLine (poke s.mem (x - 2) [0]) stop x).2 }

theorem closed_cut (stop value x : Nat) (s : PartState) :
    (s.cut stop).closed stop value x = (s.closed stop value x).cut stop := by
  simp only [PartState.closed, PartState.cut, poke_cut, readLine_cut]

/-- **The value ends at the first boundary behind its first byte** that begins inside the body, or with the body. -/
theorem partValue_text (h0 : 0 ∉ b) (hb : ∃ b', b = 45 :: b') (value : Nat) {s : PartState} {u f : Bytes}
    (hlen : stop ≤ s.mem.length) (hp : s.ptr ≤ stop) (hu : slice s.mem s.ptr stop = u) (hf : s.mem.drop stop = f) :
    (∃ k, find b ((u ++ f).drop 1) = some k ∧ k < u.length ∧
      partValue b stop value (stop + 1) s = s.closed stop value (s.ptr + (k + 1))) ∨
    ((∀ k, find b ((u ++ f).drop 1) = some k → u.length ≤ k) ∧
      partValue b stop value (stop + 1) s = { s with ptr := stop }) := by
  have hsize := length_slice_eq (p := s.ptr) hlen
  have hdrop := drop_of_slice hp hu
  rw [hf] at hdrop
  have hat (i : Nat) (hi : s.ptr < i) : s.mem.drop i = ((u ++ f).drop 1).drop (i - s.ptr - 1) := by
    rw [← hdrop, List.drop_drop, List.drop_drop]
    congr 1
    omega
  rw [hu] at hsize
  by_cases h : ∃ k, find b ((u ++ f).drop 1) = some k ∧ k < u.length
  · obtain ⟨k, hk, hlt⟩ := h
    obtain ⟨hhere, hno⟩ := find_first hk
    refine Or.inl ⟨k, hk, hlt, ?_⟩
    refine partValue_at h0 hb value (stop + 1) s (by omega) (by omega) (by omega) ?_ fun i hi hlt => ?_
    · rw [hat _ (by omega), show s.ptr + (k + 1) - s.ptr - 1 = k by omega]
      exact hhere
    · rw [hat i hi]
      exact hno _ (by omega)
  · have hle (k : Nat) (hk : find b ((u ++ f).drop 1) = some k) : u.length ≤ k :=
      Nat.le_of_not_lt fun hlt => h ⟨k, hk, hlt⟩
    refine Or.inr ⟨hle, partValue_none h0 value (stop + 1) s hp (by omega) fun i hi hstop hhere => ?_⟩
    rw [hat i hi] at hhere
    cases hk : find b ((u ++ f).drop 1) with
    | none => exact find_isSome_of_drop hhere hk
    | some k =>
      have := hle k hk
      exact (find_first hk).2 _ (by omega) hhere

theorem length_headEnd (line t : Bytes) : (headEnd line t).length ≤ t.length := by
  fun_induction headEnd line t with
  | case1 line t h ih => exact Nat.le_trans ih (Nat.le_of_lt (length_afterLine h.1))
  | case2 line t h => exact Nat.le_refl _

theorem length_valueText {t : Bytes} (h : t ≠ []) : (valueText t).length < t.length :=
  Nat.lt_of_le_of_lt (length_headEnd _ _) (length_afterLine h)

theorem find_behind {u f : Bytes} {k : Nat} (h : find b (u.drop 1) = some k) (hb : ∃ b', b = 45 :: b') :
    k + 1 < u.length ∧ find b ((u ++ f).drop 1) = some k := by
  have hle := find_le h
  obtain ⟨b', rfl⟩ := hb
  rw [List.length_drop, List.length_cons] at hle
  refine ⟨by omega, ?_⟩
  rw [List.drop_append_of_le_length (by omega)]
  exact find_append_of_some h

theorem leftOpen_none {t v : Bytes} (h : find b ((valueText t).drop 1) = none) (hv : LeftOpen b t v) :
    v = valueText t := by
  cases hv with
  | here _ => rfl
  | later hk _ _ _ =>
    rw [h] at hk
    cases hk

theorem leftOpen_some {t : Bytes} {k : Nat} (h : find b ((valueText t).drop 1) = some k) (v : Bytes) :
    LeftOpen b t v ↔ firstLine ((valueText t).drop (k + 1)) = b ∧ afterLine ((valueText t).drop (k + 1)) ≠ [] ∧
      LeftOpen b (afterLine ((valueText t).drop (k + 1))) v := by
  constructor
  · intro hv
    cases hv with
    | here hnone =>
      rw [h] at hnone
      cases hnone
    | later hk hline hrest hopen =>
      rw [h] at hk
      cases hk
      exact ⟨hline, hrest, hopen⟩
  · exact fun ⟨hline, hrest, hopen⟩ => .later h hline hrest hopen

theorem partsLoop_leave {n : Nat} {s : PartState} (h : ¬ (s.ptr < stop ∧ s.line = b)) : partsLoop b stop n s = s := by
  cases n with
  | zero => rfl
  | succ n => rw [partsLoop, if_neg h]

/-- What makes the loop over the parts, from a state on, depend on what is behind the body. -/
def CrossesAt (b : Bytes) (stop : Nat) (s : PartState) : Prop :=
  s.line = b ∧ slice s.mem s.ptr stop ≠ [] ∧
    ∃ v, LeftOpen b (slice s.mem s.ptr stop) v ∧ Completes b v (s.mem.drop stop)

/-- How the loop compares with itself on the body alone: one value more, or no difference. -/
structure Compared (b : Bytes) (stop n : Nat) (s : PartState) : Prop where
  more : CrossesAt b stop s →
    (partsLoop b stop n s).postData.length = (partsLoop b stop n (s.cut stop)).postData.length + 1
  same : ¬ CrossesAt b stop s → partsLoop b stop n (s.cut stop) = (partsLoop b stop n s).cut stop

/-- The state behind the header lines of the part. -/
def PartState.headed (stop : Nat) (s : PartState) : PartState :=
  partHeaders stop (stop + 1)
    { s with key := [], line := (readLine s.mem stop s.ptr).1, lp := s.ptr, ptr := (readLine s.mem stop s.ptr).2 }

theorem headed_cut (stop : Nat) (s : PartState) : (s.cut stop).headed stop = (s.headed stop).cut stop := by
  unfold PartState.headed
  rw [← partHeaders_cut]
  simp only [PartState.cut, readLine_cut]

theorem headed_rest {s : PartState} (hlen : stop ≤ s.mem.length) (hp : s.ptr ≤ stop) :
    slice (s.headed stop).mem (s.headed stop).ptr stop = valueText (slice s.mem s.ptr stop) ∧
      stop ≤ (s.headed stop).mem.length ∧ (s.headed stop).ptr ≤ stop ∧
      (s.headed stop).mem.drop stop = s.mem.drop stop := by
  obtain ⟨hfst, hrest, hle, hnext⟩ := readLine_text hlen hp
  have hsize := length_slice_eq (p := (readLine s.mem stop s.ptr).2) hlen
  obtain ⟨h1, h2, h3, h4⟩ := partHeaders_rest (stop + 1)
    { s with key := [], line := (readLine s.mem stop s.ptr).1, lp := s.ptr, ptr := (readLine s.mem stop s.ptr).2 }
    hlen hnext hle (by
      show (slice s.mem (readLine s.mem stop s.ptr).2 stop).length < stop + 1
      omega)
  refine ⟨h1.trans ?_, h2, h3, h4⟩
  show headEnd (readLine s.mem stop s.ptr).1 (slice s.mem (readLine s.mem stop s.ptr).2 stop) = _
  rw [hfst, hrest]
  rfl

theorem partsLoop_part {n : Nat} {s : PartState} (h : s.ptr < stop ∧ s.line = b) :
    partsLoop b stop (n + 1) s =
      partsLoop b stop n (partValue b stop (s.headed stop).ptr (stop + 1) (s.headed stop)) := by
  rw [partsLoop, if_pos h]
  rfl

/-- Where the state behind a value stands. -/
theorem closed_rest {s : PartState} {value x : Nat} (hlen : stop ≤ s.mem.length) (hx : x ≤ stop) (hpos : 0 < x) :
    (s.closed stop value x).line = firstLine (slice s.mem x stop) ∧
      slice (s.closed stop value x).mem (s.closed stop value x).ptr stop = afterLine (slice s.mem x stop) ∧
      stop ≤ (s.closed stop value x).mem.length ∧ (s.closed stop value x).ptr ≤ stop ∧
      (s.closed stop value x).mem.drop stop = s.mem.drop stop := by
  have hwrite : x - 2 + ([0] : Bytes).length ≤ x := by
    rw [List.length_singleton]
    omega
  have hlen' : stop ≤ (poke s.mem (x - 2) [0]).length := by rw [length_poke]; exact hlen
  obtain ⟨hfst, hrest, -, hnext⟩ := readLine_text hlen' hx
  rw [slice_poke stop hwrite] at hfst hrest
  exact ⟨hfst, hrest, hlen', hnext, drop_poke _ _ _ _ (Nat.le_trans hwrite hx)⟩

/-- A value that has its boundary in the body, and the rest of the loop. -/
theorem Compared.part {n k : Nat} {s : PartState} (hb : ∃ b', b = 45 :: b') (hlen : stop ≤ s.mem.length)
    (h : s.ptr < stop ∧ s.line = b)
    (hk : find b ((valueText (slice s.mem s.ptr stop)).drop 1) = some k)
    (hvalue : partValue b stop (s.headed stop).ptr (stop + 1) (s.headed stop) =
      (s.headed stop).closed stop (s.headed stop).ptr ((s.headed stop).ptr + (k + 1)))
    (hcut : partValue b stop (s.headed stop).ptr (stop + 1) ((s.headed stop).cut stop) =
      ((s.headed stop).cut stop).closed stop (s.headed stop).ptr ((s.headed stop).ptr + (k + 1)))
    (hnext : Compared b stop n ((s.headed stop).closed stop (s.headed stop).ptr ((s.headed stop).ptr + (k + 1)))) :
    Compared b stop (n + 1) s := by
  obtain ⟨hu, hlen1, hp1, hf1⟩ := headed_rest hlen (Nat.le_of_lt h.1)
  have hsize1 := length_slice_eq (p := (s.headed stop).ptr) hlen1
  rw [hu] at hsize1
  have hklt := (find_behind (f := []) hk hb).1
  obtain ⟨hline, hrest, -, -, hf2⟩ := @closed_rest stop (s.headed stop) (s.headed stop).ptr
    ((s.headed stop).ptr + (k + 1)) hlen1 (by omega) (by omega)
  rw [← drop_slice, hu] at hline hrest
  have hne : slice s.mem s.ptr stop ≠ [] := by
    have hsize := length_slice_eq (p := s.ptr) hlen
    exact List.ne_nil_of_length_pos (by omega)
  have hcross : CrossesAt b stop s ↔
      CrossesAt b stop ((s.headed stop).closed stop (s.headed stop).ptr ((s.headed stop).ptr + (k + 1))) := by
    unfold CrossesAt
    rw [hline, hrest, hf2, hf1]
    simp only [leftOpen_some hk]
    constructor
    · rintro ⟨-, -, v, ⟨h1, h2, h3⟩, h4⟩
      exact ⟨h1, h2, v, h3, h4⟩
    · rintro ⟨h1, h2, v, h3, h4⟩
      exact ⟨h.2, hne, v, ⟨h1, h2, h3⟩, h4⟩
  have hloop := partsLoop_part (n := n) h
  have hloop' : partsLoop b stop (n + 1) (s.cut stop) = partsLoop b stop n _ :=
    partsLoop_part (n := n) (s := s.cut stop) h
  rw [headed_cut, show ((s.headed stop).cut stop).ptr = (s.headed stop).ptr from rfl, hcut, closed_cut] at hloop'
  rw [hvalue] at hloop
  refine ⟨fun hc => ?_, fun hc => ?_⟩
  · rw [hloop, hloop']
    exact hnext.more (hcross.1 hc)
  · rw [hloop, hloop']
    exact hnext.same fun hc' => hc (hcross.2 hc')

/-- A value that has no boundary in the body: the loop ends with it, and what follows may give it one. -/
theorem Compared.last {n : Nat} {s : PartState} (h0 : 0 ∉ b) (hb : ∃ b', b = 45 :: b') (hlen : stop ≤ s.mem.length)
    (h : s.ptr < stop ∧ s.line = b)
    (hnone : find b ((valueText (slice s.mem s.ptr stop)).drop 1) = none)
    (hcut : partValue b stop (s.headed stop).ptr (stop + 1) ((s.headed stop).cut stop) =
      { (s.headed stop).cut stop with ptr := stop }) : Compared b stop (n + 1) s := by
  obtain ⟨hu, hlen1, hp1, hf1⟩ := headed_rest hlen (Nat.le_of_lt h.1)
  have hsize1 := length_slice_eq (p := (s.headed stop).ptr) hlen1
  rw [hu] at hsize1
  have hne : slice s.mem s.ptr stop ≠ [] := by
    have hsize := length_slice_eq (p := s.ptr) hlen
    exact List.ne_nil_of_length_pos (by omega)
  have hcross : CrossesAt b stop s ↔ Completes b (valueText (slice s.mem s.ptr stop)) (s.mem.drop stop) := by
    constructor
    · rintro ⟨-, -, v, hopen, hcompletes⟩
      rw [← leftOpen_none hnone hopen]
      exact hcompletes
    · exact fun hcompletes => ⟨h.2, hne, _, .here hnone, hcompletes⟩
  have hloop := partsLoop_part (n := n) h
  have hloop' : partsLoop b stop (n + 1) (s.cut stop) = partsLoop b stop n _ :=
    partsLoop_part (n := n) (s := s.cut stop) h
  have hend (t : PartState) : partsLoop b stop n { t with ptr := stop } = { t with ptr := stop } :=
    partsLoop_leave fun hin => Nat.lt_irrefl stop hin.1
  rw [headed_cut, show ((s.headed stop).cut stop).ptr = (s.headed stop).ptr from rfl, hcut, hend] at hloop'
  rcases partValue_text h0 hb (s.headed stop).ptr hlen1 hp1 hu hf1 with ⟨k, hk, hlt, hvalue⟩ | ⟨hle, hvalue⟩
  · -- the line behind the value is shorter than a boundary, so that the loop ends there too
    rw [hvalue] at hloop
    obtain ⟨hline, -⟩ := @closed_rest stop (s.headed stop) (s.headed stop).ptr
      ((s.headed stop).ptr + (k + 1)) hlen1 (by omega) (by omega)
    rw [← drop_slice, hu] at hline
    have hother : ¬ firstLine ((valueText (slice s.mem s.ptr stop)).drop (k + 1)) = b := by
      intro he
      refine find_isSome_of_drop (s := (valueText (slice s.mem s.ptr stop)).drop 1) (j := k) ?_ hnone
      rw [List.drop_drop, Nat.add_comm 1 k, ← he]
      exact List.takeWhile_prefix _
    rw [partsLoop_leave (fun hin => hother (hline.symm.trans hin.2))] at hloop
    refine ⟨fun _ => ?_, fun hc => absurd (hcross.2 ⟨k, hk, hlt⟩) hc⟩
    rw [hloop, hloop']
    exact List.length_append
  · rw [hvalue, hend] at hloop
    refine ⟨fun hc => ?_, fun _ => by rw [hloop, hloop']; rfl⟩
    obtain ⟨k, hk, hlt⟩ := hcross.1 hc
    exact absurd hlt (Nat.not_lt.2 (hle k hk))

/-- **What is behind the body matters to the last value alone.** -/
theorem partsLoop_compared (h0 : 0 ∉ b) (hb : ∃ b', b = 45 :: b') : ∀ (n : Nat) (s : PartState),
    stop ≤ s.mem.length → s.ptr ≤ stop → (slice s.mem s.ptr stop).length < n → Compared b stop n s
  | 0, _, _, _, hn => absurd hn (Nat.not_lt_zero _)
  | n + 1, s, hlen, hp, hn => by
    have hsize := length_slice_eq (p := s.ptr) hlen
    by_cases h : s.ptr < stop ∧ s.line = b
    · obtain ⟨hu, hlen1, hp1, hf1⟩ := headed_rest hlen hp
      have hsize1 := length_slice_eq (p := (s.headed stop).ptr) hlen1
      rw [hu] at hsize1
      have hcutlen : stop ≤ ((s.headed stop).cut stop).mem.length := by
        show stop ≤ ((s.headed stop).mem.take stop).length
        rw [List.length_take]
        omega
      have hcuttext : slice ((s.headed stop).cut stop).mem ((s.headed stop).cut stop).ptr stop =
          valueText (slice s.mem s.ptr stop) := (slice_cut (Or.inl (Nat.le_refl stop))).trans hu
      have hcutend : ((s.headed stop).cut stop).mem.drop stop = [] := by
        show ((s.headed stop).mem.take stop).drop stop = []
        rw [List.drop_take, Nat.sub_self, List.take_zero]
      have halone := partValue_text h0 hb (s.headed stop).ptr hcutlen hp1 hcuttext hcutend
      have hwith := partValue_text h0 hb (s.headed stop).ptr hlen1 hp1 hu hf1
      simp only [List.append_nil] at halone
      cases hk : find b ((valueText (slice s.mem s.ptr stop)).drop 1) with
      | none =>
        rcases halone with ⟨k, hk', -⟩ | ⟨-, hcut⟩
        · rw [hk] at hk'
          cases hk'
        · exact .last h0 hb hlen h hk hcut
      | some k =>
        obtain ⟨hklt, hkf⟩ := find_behind (f := s.mem.drop stop) hk hb
        have hinside : ¬ (valueText (slice s.mem s.ptr stop)).length ≤ k := by omega
        obtain ⟨k1, hk1, -, hcut⟩ := halone.resolve_right fun hno => hinside (hno.1 k hk)
        obtain ⟨k2, hk2, -, hvalue⟩ := hwith.resolve_right fun hno => hinside (hno.1 k hkf)
        clear halone hwith
        rw [hk] at hk1
        rw [hkf] at hk2
        cases hk1
        cases hk2
        obtain ⟨-, hrest, hlen2, hp2, -⟩ := @closed_rest stop (s.headed stop) (s.headed stop).ptr
          ((s.headed stop).ptr + (k + 1)) hlen1 (by omega) (by omega)
        rw [← drop_slice, hu] at hrest
        refine .part hb hlen h hk hvalue hcut (partsLoop_compared h0 hb n _ hlen2 hp2 ?_)
        have hne : slice s.mem s.ptr stop ≠ [] := List.ne_nil_of_length_pos (by omega)
        have hshort := length_valueText hne
        rw [hrest, afterLine, List.length_drop, List.length_drop]
        omega
    · have hleave : partsLoop b stop (n + 1) s = s := partsLoop_leave h
      have hleave' : partsLoop b stop (n + 1) (s.cut stop) = s.cut stop := partsLoop_leave h
      refine ⟨?_, fun _ => by rw [hleave, hleave']⟩
      rintro ⟨hline, hne, -⟩
      have hpos := List.length_pos_iff.2 hne
      have hlt : s.ptr < stop := by omega
      exact absurd ⟨hlt, hline⟩ h

end Parts

/-! ## Requests -/

/-- The boundary that a content type names. -/
def boundaryOf (contentType : Bytes) : Bytes :=
  match find (ascii "boundary=") contentType with
  | none => []
  | some i1 =>
    let tail := contentType.drop (i1 + 9)
    tail.take ((findFirstOf (ascii "; \r\n") tail 0).getD tail.length)

theorem boundaryOf_subset (contentType : Bytes) : boundaryOf contentType ⊆ contentType := by
  unfold boundaryOf
  split
  · exact List.nil_subset _
  · exact fun x hx => List.drop_subset _ _ (List.take_subset _ _ hx)

/-- A multipart body is cut short by nothing but its own end, unless what follows completes a boundary. -/
theorem getPostMultipart_cut (r : HttpRequest) {off : Nat} {contentType mem : Bytes} (h0 : 0 ∉ contentType)
    (hlen : off + r.bodySize ≤ mem.length) :
    ((getPostMultipart r off contentType (mem.take (off + r.bodySize))).2 =
      ((getPostMultipart r off contentType mem).2.1,
        (getPostMultipart r off contentType mem).2.2.take (off + r.bodySize))) ↔
      ¬ (boundaryOf contentType ≠ [] ∧ Crosses (ascii "--" ++ boundaryOf contentType)
        (slice mem off (off + r.bodySize)) (mem.drop (off + r.bodySize))) := by
  have hmark : 0 ∉ ascii "--" ++ boundaryOf contentType := by
    have hdashes : (0 : UInt8) ∉ ascii "--" := by decide
    rw [List.mem_append, not_or]
    exact ⟨hdashes, fun h => h0 (boundaryOf_subset _ h)⟩
  have heq (mem : Bytes) : getPostMultipart r off contentType mem =
      if (boundaryOf contentType).isEmpty then (false, r, mem)
      else
        let s := partsLoop (ascii "--" ++ boundaryOf contentType) (off + r.bodySize) (off + r.bodySize + 1)
          { ptr := (readLine mem (off + r.bodySize) off).2, mem := mem, postData := r.postData, key := []
            line := (readLine mem (off + r.bodySize) off).1, lp := off }
        (true, { r with postData := s.postData }, s.mem) := rfl
  by_cases hnone : boundaryOf contentType = []
  · have hempty : (boundaryOf contentType).isEmpty = true := List.isEmpty_iff.2 hnone
    rw [heq, heq, if_pos hempty, if_pos hempty]
    exact iff_of_true rfl fun h => h.1 hnone
  · have hfull : ¬ (boundaryOf contentType).isEmpty = true := fun h => hnone (List.isEmpty_iff.1 h)
    rw [heq, heq, if_neg hfull, if_neg hfull]
    simp only
    generalize hs : ({
      ptr := (readLine mem (off + r.bodySize) off).2, mem := mem, postData := r.postData, key := []
      line := (readLine mem (off + r.bodySize) off).1, lp := off } : PartState) = s
    have hcut : ({
        ptr := (readLine (mem.take (off + r.bodySize)) (off + r.bodySize) off).2, mem := mem.take (off + r.bodySize)
        postData := r.postData, key := []
        line := (readLine (mem.take (off + r.bodySize)) (off + r.bodySize) off).1, lp := off } : PartState) =
        s.cut (off + r.bodySize) := by rw [readLine_cut, ← hs]; rfl
    obtain ⟨hline, hrest, -, hp⟩ := readLine_text hlen (Nat.le_add_right off r.bodySize)
    have hsize := @length_slice_eq _ mem s.ptr hlen
    have hcompared : Compared (ascii "--" ++ boundaryOf contentType) (off + r.bodySize) (off + r.bodySize + 1) s :=
      partsLoop_compared hmark ⟨45 :: boundaryOf contentType, rfl⟩ _ s (by rw [← hs]; exact hlen)
        (by rw [← hs]; exact hp) (by
          have hmem : s.mem = mem := by rw [← hs]
          rw [hmem]
          omega)
    have hcross : CrossesAt (ascii "--" ++ boundaryOf contentType) (off + r.bodySize) s ↔
        Crosses (ascii "--" ++ boundaryOf contentType) (slice mem off (off + r.bodySize))
          (mem.drop (off + r.bodySize)) := by
      rw [CrossesAt, Crosses, ← hline, ← hrest, ← hs]
    rw [hcut, ← hcross]
    by_cases hc : CrossesAt (ascii "--" ++ boundaryOf contentType) (off + r.bodySize) s
    · refine iff_of_false (fun h => ?_) fun h => h ⟨hnone, hc⟩
      have hmore := hcompared.more hc
      have hsame := congrArg (fun q : HttpRequest × Bytes => q.1.postData.length) h
      simp only at hsame
      omega
    · refine iff_of_true ?_ fun h => hc h.2
      rw [hcompared.same hc]
      rfl

namespace Request

def contentType (R : Request) : Bytes := (valueOf R.fields (ascii "Content-Type")).getD []

/-- The POST data end inside the body, and are found there whatever `following` is, which is left as it is. -/
def Kept (R : Request) (following : Bytes) : Prop :=
  R.method = ascii "POST" →
    (R.contentType = urlencoded → Ends R.body ∧ ¬(Spills R.body ∧ following.headD 0 ≠ 0)) ∧
    ((find (ascii "multipart/form-data") R.contentType).isSome = true → boundaryOf R.contentType ≠ [] →
      ¬ Crosses (ascii "--" ++ boundaryOf R.contentType) R.body following)

/-- `sscanf` reads what the POST data depend on. -/
def Read (R : Request) : Prop := R.method = ascii "POST" → R.contentType = urlencoded → FormRead R.body

section

variable {R : Request} {ii ii' : Stack} {following : Bytes}

theorem body_end (R : Request) : R.head.length + R.parsed.bodySize = R.bytes.length := by
  rw [bytes, List.length_append]
  rfl

theorem slice_body (R : Request) (following : Bytes) :
    slice (R.bytes ++ following) R.head.length (R.head.length + R.parsed.bodySize) = R.body := by
  have hstr : R.bytes ++ following = R.head ++ (R.body ++ following) := by rw [bytes, List.append_assoc]
  rw [slice, hstr, List.drop_left, Nat.add_sub_cancel_left]
  exact List.take_left' rfl

theorem take_bytes (R : Request) (following : Bytes) :
    (R.bytes ++ following).take (R.head.length + R.parsed.bodySize) = R.bytes :=
  List.take_left' R.body_end.symm

theorem drop_bytes (R : Request) (following : Bytes) :
    (R.bytes ++ following).drop (R.head.length + R.parsed.bodySize) = following :=
  List.drop_left' R.body_end.symm

theorem body_within (R : Request) (following : Bytes) :
    R.head.length + R.parsed.bodySize ≤ (R.bytes ++ following).length := by
  rw [R.body_end, List.length_append]
  exact Nat.le_add_right _ _

/-- What a POST is given as, by its content type. -/
theorem given_urlencoded (hpost : R.method = ascii "POST") (htype : R.contentType = urlencoded) (ii : Stack)
    (following : Bytes) : R.given ii following =
      (getPostUrlencoded ii R.parsed R.head.length (R.bytes ++ following)).map Prod.snd := by
  have hheader : R.parsed.header (ascii "Content-Type") = .ok urlencoded := by
    rw [← htype]
    exact Request.header rfl (by decide)
  rw [given, if_pos hpost, post, getPost_urlencoded hheader rfl]
  rfl

theorem given_multipart (hpost : R.method = ascii "POST") (htype : R.contentType ≠ urlencoded)
    (hmulti : (find (ascii "multipart/form-data") R.contentType).isSome = true) (ii : Stack) (following : Bytes) :
    R.given ii following = .ok (getPostMultipart R.parsed R.head.length R.contentType (R.bytes ++ following)).2 := by
  have hheader : HttpRequest.header { R.parsed with postData := [] } (ascii "Content-Type") = .ok R.contentType :=
    Request.header rfl (by decide)
  have htype' : ¬ R.contentType = ascii "application/x-www-form-urlencoded" := htype
  rw [given, if_pos hpost, post]
  unfold getPost
  simp only [bind, Except.bind, hheader, if_neg htype', if_pos hmulti]
  rfl

theorem given_other (hpost : R.method = ascii "POST") (htype : R.contentType ≠ urlencoded)
    (hmulti : ¬ (find (ascii "multipart/form-data") R.contentType).isSome = true) (ii : Stack) (following : Bytes) :
    R.given ii following = .ok (R.parsed, R.bytes ++ following) := by
  have hheader : HttpRequest.header { R.parsed with postData := [] } (ascii "Content-Type") = .ok R.contentType :=
    Request.header rfl (by decide)
  have htype' : ¬ R.contentType = ascii "application/x-www-form-urlencoded" := htype
  rw [given, if_pos hpost, post]
  unfold getPost
  simp only [bind, Except.bind, hheader, if_neg htype', if_neg hmulti]
  rfl

/-- A clean request is the one alone, with what is behind it as it was. -/
theorem clean_iff_cut : R.Clean ii following ↔ ∃ q, R.given ii following = .ok q ∧
    R.given ii [] = .ok (q.1, q.2.take R.bytes.length) ∧ q.2.drop R.bytes.length = following := by
  constructor
  · rintro ⟨q, hq, hf⟩
    have hlen : q.2.length = R.bytes.length := (given_ok hq).length
    exact ⟨_, hf, by rw [List.take_left' hlen]; exact hq, List.drop_left' hlen⟩
  · rintro ⟨q, hf, hq, hd⟩
    refine ⟨_, hq, ?_⟩
    show _ = Except.ok (q.1, q.2.take R.bytes.length ++ following)
    rw [← hd, List.take_append_drop, hd, hf]

theorem clean_urlencoded (hpost : R.method = ascii "POST") (htype : R.contentType = urlencoded) :
    R.Clean ii following ↔ Ends R.body ∧ ¬(Spills R.body ∧ following.headD 0 ≠ 0) := by
  have hwith := given_urlencoded hpost htype ii following
  have halone := given_urlencoded hpost htype ii []
  have hcut := getPostUrlencoded_cut ii R.parsed R.head.length (R.bytes ++ following)
  rw [take_bytes] at hcut
  rw [List.append_nil, hcut] at halone
  rw [clean_iff_cut]
  rcases getPostUrlencoded_cases ii R.parsed (R.body_within following) with ⟨he, postData, mem, hp, hd⟩ | ⟨he, hp⟩
  · rw [slice_body] at he hd
    rw [hp] at hwith halone
    rw [hwith, halone, body_end]
    have hkept : mem.drop R.bytes.length = following ↔ ¬(Spills R.body ∧ following.headD 0 ≠ 0) := by
      rw [← body_end]
      by_cases hs : Spills R.body
      · rw [hd.spills hs, drop_bytes, set_head_iff]
        simp [hs]
      · rw [hd.keeps hs, drop_bytes]
        simp [hs]
    rw [← hkept, and_iff_right he]
    constructor
    · rintro ⟨q, hq, -, hdrop⟩
      cases hq
      exact hdrop
    · exact fun hdrop => ⟨_, rfl, rfl, hdrop⟩
  · rw [slice_body] at he
    refine iff_of_false ?_ fun h => he h.1
    rintro ⟨q, hq, -⟩
    rw [hwith, hp] at hq
    cases hq

theorem clean_multipart (hpost : R.method = ascii "POST") (htype : R.contentType ≠ urlencoded)
    (hmulti : (find (ascii "multipart/form-data") R.contentType).isSome = true) (h0 : 0 ∉ R.contentType) :
    R.Clean ii following ↔ ¬ (boundaryOf R.contentType ≠ [] ∧
      Crosses (ascii "--" ++ boundaryOf R.contentType) R.body following) := by
  have hcut := getPostMultipart_cut R.parsed h0 (R.body_within following)
  have hbehind := (getPostMultipart_same R.parsed R.head.length R.contentType (R.bytes ++ following)).2.behind
  rw [slice_body, drop_bytes, take_bytes] at hcut
  rw [drop_bytes] at hbehind
  rw [← hcut, clean_iff_cut, given_multipart hpost htype hmulti, given_multipart hpost htype hmulti, List.append_nil,
    body_end]
  rw [body_end] at hbehind
  constructor
  · rintro ⟨q, hq, halone, -⟩
    cases hq
    exact Except.ok.inj halone
  · exact fun halone => ⟨_, rfl, congrArg Except.ok halone, hbehind⟩

/-- **Whether what is behind a POST makes a difference** is seen on the texts. -/
theorem clean_iff (h0 : ∀ f ∈ R.fields, 0 ∉ f.value) : R.Clean ii following ↔ R.Kept following := by
  have hvalue : 0 ∉ R.contentType := by
    unfold contentType valueOf
    cases hf : R.fields.find? fun f => sameNoCase f.name (ascii "Content-Type") with
    | none => exact List.not_mem_nil
    | some f => exact h0 f (List.mem_of_find?_eq_some hf)
  by_cases hpost : R.method = ascii "POST"
  · unfold Kept
    rw [imp_iff_right hpost]
    by_cases htype : R.contentType = urlencoded
    · rw [clean_urlencoded hpost htype, imp_iff_right htype]
      refine (and_iff_left fun hmulti => ?_).symm
      rw [htype] at hmulti
      exact absurd hmulti (by decide)
    · rw [and_iff_right fun h => absurd h htype]
      by_cases hmulti : (find (ascii "multipart/form-data") R.contentType).isSome = true
      · rw [clean_multipart hpost htype hmulti hvalue, imp_iff_right hmulti, not_and]
      · refine iff_of_true ?_ fun h => absurd h hmulti
        refine ⟨(R.parsed, R.bytes), ?_, given_other hpost htype hmulti ii following⟩
        rw [given_other hpost htype hmulti, List.append_nil]
  · exact iff_of_true (clean_of_not_post hpost following) fun h => absurd h hpost

/-- A request that is read is given alike on every stack. -/
theorem Read.given (h : R.Read) (ii ii' : Stack) (following : Bytes) : R.given ii' following = R.given ii following := by
  by_cases hpost : R.method = ascii "POST"
  · by_cases htype : R.contentType = urlencoded
    · have hread : FormRead (slice (R.bytes ++ following) R.head.length (R.head.length + R.parsed.bodySize)) := by
        rw [slice_body]
        exact h hpost htype
      rw [given_urlencoded hpost htype, given_urlencoded hpost htype,
        getPostUrlencoded_read ii ii' R.parsed (R.body_within following) hread]
    · by_cases hmulti : (find (ascii "multipart/form-data") R.contentType).isSome = true
      · rw [given_multipart hpost htype hmulti, given_multipart hpost htype hmulti]
      · rw [given_other hpost htype hmulti, given_other hpost htype hmulti]
  · rw [Request.given, Request.given, if_neg hpost, if_neg hpost]

/-- **A request that is seen alike on every stack is read.** -/
theorem read_of_seen {q : HttpRequest × Bytes} (h : ∀ g : UInt8, R.given (fun _ => g) [] = .ok q) : R.Read := by
  intro hpost htype
  have hlen : R.head.length + R.parsed.bodySize ≤ R.bytes.length := Nat.le_of_eq R.body_end
  have hbody := R.slice_body []
  rw [List.append_nil] at hbody
  generalize hs : ({ ptr := R.head.length, mem := R.bytes, postData := [], ret := true } : FormState) = s
  have hrest : s.rest (R.head.length + R.parsed.bodySize) = R.body := by rw [← hs]; exact hbody
  have hrun (g : UInt8) : ∃ n t, Loop.run (formPass (fun _ => g) (R.head.length + R.parsed.bodySize)) n s = some t ∧
      t.postData = q.1.postData ∧ t.mem = q.2 := by
    have hq := h g
    rw [given_urlencoded hpost htype, List.append_nil, getPostUrlencoded] at hq
    have hstart : ({ ptr := R.head.length, mem := R.bytes, postData := R.parsed.postData, ret := true } : FormState) =
        s := hs
    simp only [hstart] at hq
    cases ht : Loop.run (formPass (fun _ => g) (R.head.length + R.parsed.bodySize))
        (formRank (R.head.length + R.parsed.bodySize) s + 1) s with
    | none =>
      rw [ht] at hq
      cases hq
    | some t =>
      rw [ht] at hq
      cases hq
      exact ⟨_, t, ht, rfl, rfl⟩
  have hsteady : Steady (R.head.length + R.parsed.bodySize) s := by
    intro g g' n n' t t' ht ht'
    obtain ⟨m, u, hu, hdata, hmem⟩ := hrun g
    obtain ⟨m', u', hu', hdata', hmem'⟩ := hrun g'
    rw [Loop.run_unique ht hu, Loop.run_unique ht' hu', hdata, hdata', hmem, hmem']
    exact ⟨rfl, rfl⟩
  have hends : Ends R.body := by
    have hq := h 0
    rw [given_urlencoded hpost htype, List.append_nil] at hq
    rcases getPostUrlencoded_cases (fun _ => 0) R.parsed hlen with ⟨he, -⟩ | ⟨-, hp⟩
    · rwa [hbody] at he
    · rw [hp] at hq
      cases hq
  rw [← hrest]
  refine formRead_of_steady _ (by rw [← hs]) (by rw [← hs]; exact hlen) (Nat.lt_succ_self _) ?_ hsteady
  rw [hrest]
  exact hends

end

end Request

end Http
end Pico
