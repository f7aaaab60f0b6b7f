import Picolibs.Http
/-!
# HttpPost — POST data, decoded in place (`get_post` and its two forms)

The body is decoded inside the request string, through pointers.  Here a pointer is an offset into the string, `fetch`
reads through it and `poke` writes; the byte after the text is the NUL that `std::string` keeps there, and NUL is the
only byte ever written over it.
-/
namespace Pico
namespace Http

open Text

/-- `*p`. -/
def fetch (mem : Bytes) (p : Nat) : UInt8 := mem.getD p 0

/-- `memcpy` of some bytes to `p`. -/
def poke : Bytes → Nat → Bytes → Bytes
  | mem, _, [] => mem
  | mem, p, b :: bs => poke (mem.set p b) (p + 1) bs

/-- The bytes from `p` up to `q`. -/
def slice (mem : Bytes) (p q : Nat) : Bytes := (mem.drop p).take (q - p)

/-- `cp = p; while (cp < end && !stop(cp)) cp++`, with the budget `end - p`. -/
def scan (stop : Nat → Bool) : Nat → Nat → Nat
  | 0, p => p
  | n + 1, p => if stop p then p else scan stop n (p + 1)

/-! ## `uri_decode` -/

def hexVal (c : UInt8) : Option Nat :=
  if 48 ≤ c && c ≤ 57 then some (c.toNat - 48)
  else if 97 ≤ c && c ≤ 102 then some (c.toNat - 87)
  else if 65 ≤ c && c ≤ 70 then some (c.toNat - 55)
  else none

/-- `sscanf(s, "%x", &ii)` on at most two characters, as the low byte of `ii`; `none` where `ii` is not assigned.  The C
library of the target reads `0x` without a digit as 0. -/
def scanHex (s : Bytes) : Option UInt8 :=
  let t := (cstr s).dropWhile isSpace
  let u := if t.head? == some 45 || t.head? == some 43 then t.tail else t
  let ds := u.takeWhile (fun c => (hexVal c).isSome)
  if ds.isEmpty then none
  else
    let v := ds.foldl (fun n c => n * 16 + (hexVal c).getD 0) 0
    some (if t.head? == some 45 then UInt8.ofNat (256 - v % 256) else UInt8.ofNat v)

/-- `uri_decode`.  `ii` is the low byte of the variable of that name, which the source does not initialise: an escape
that `sscanf` cannot read decodes to whatever it holds. -/
def uriDecodeFrom : Nat → UInt8 → Bytes → Bytes
  | 0, _, _ => []
  | _ + 1, _, [] => []
  | n + 1, ii, c :: s =>
    if c = 37 then
      let ii' := (scanHex (s.take 2)).getD ii
      ii' :: uriDecodeFrom n ii' (s.drop 2)
    else if c = 43 then 32 :: uriDecodeFrom n ii s
    else c :: uriDecodeFrom n ii s

def uriDecode (ii : UInt8) (uri : Bytes) : Bytes := uriDecodeFrom uri.length ii uri

/-! ## `application/x-www-form-urlencoded` -/

/-- What `ii` holds in each call of `uri_decode`, by the pointer to the text of the call. -/
abbrev Stack := Nat → UInt8

structure FormState where
  ptr : Nat
  mem : Bytes
  postData : List (Bytes × Nat)
  ret : Bool

/-- One pass of the loop, up to `stop` (the source's `end`). -/
def formPass (ii : Stack) (stop : Nat) (s : FormState) : Loop.Pass FormState FormState :=
  if s.ptr < stop then
    let cp := scan (fun p => fetch s.mem p == 61) (stop - s.ptr) s.ptr
    if cp < stop then
      let key := uriDecode (ii s.ptr) (slice s.mem s.ptr cp)
      let ptr := cp + 1
      if ptr < stop then
        let cp := scan (fun p => fetch s.mem p == 38) (stop - ptr) ptr
        let value := uriDecode (ii ptr) (slice s.mem ptr cp)
        .again { s with
          ptr := cp + 1, mem := poke s.mem ptr (value ++ [0]), postData := s.postData ++ [(key, ptr)] }
      else
        .again { s with ptr := ptr, mem := poke s.mem cp [0], postData := s.postData ++ [(key, cp)] }
    else .again { s with ret := false }
  else .leave s

def formRank (stop : Nat) (s : FormState) : Nat := 2 * (stop - s.ptr) + (if s.ret then 1 else 0)

/-- `get_post_urlencoded`; the loop's budget is its rank. -/
def getPostUrlencoded (ii : Stack) (r : HttpRequest) (body : Nat) (mem : Bytes) :
    Except Fault (Bool × HttpRequest × Bytes) :=
  let s : FormState := { ptr := body, mem := mem, postData := r.postData, ret := true }
  let stop := body + r.bodySize
  match Loop.run (formPass ii stop) (formRank stop s + 1) s with
  | none => .error .hang
  | some s' => .ok (s'.ret, { r with postData := s'.postData }, s'.mem)

/-! ## `multipart/form-data` -/

/-- `strncmp(a, b, n) == 0`: the comparison ends at a common NUL. -/
def sameUpTo : Nat → Bytes → Bytes → Bool
  | 0, _, _ => true
  | n + 1, a, b =>
    let x := a.headD 0
    let y := b.headD 0
    if x ≠ y then false else if x = 0 then true else sameUpTo n a.tail b.tail

/-- One line of the body, and the pointer after its CRLF. -/
def readLine (mem : Bytes) (stop ptr : Nat) : Bytes × Nat :=
  let cp := scan (fun p => fetch mem p == 13) (stop - ptr) ptr
  (slice mem ptr cp, if cp + 1 < stop then cp + 2 else stop)

structure PartState where
  ptr : Nat
  mem : Bytes
  postData : List (Bytes × Nat)
  key : Bytes
  line : Bytes
  lp : Nat

/-- The value between a mark and the next quote of a header line. -/
def quoted (mark line : Bytes) : Option (Nat × Nat) :=
  match find mark line with
  | none => none
  | some i1 => (findFrom (ascii "\"") line (i1 + mark.length)).map (fun i2 => (i1 + mark.length, i2))

def dispositionMark : Bytes := ascii "Content-Disposition:"

/-- What one header line of a part sets. -/
def partHeader (s : PartState) : PartState :=
  if sameUpTo 20 (s.line.map toLower) (dispositionMark.map toLower) then
    let key := match quoted (ascii "name=\"") s.line with
      | some (i1, i2) => slice s.line i1 i2
      | none => s.key
    match quoted (ascii "filename=\"") s.line with
    | some (i1, i2) =>
      { s with
        key := key, mem := poke s.mem (s.lp + i2) [0],
        postData := s.postData ++ [(key ++ ascii ".filename", s.lp + i1)] }
    | none => { s with key := key }
  else s

/-- The header lines of a part, up to its empty line. -/
def partHeaders (stop : Nat) : Nat → PartState → PartState
  | 0, s => s
  | n + 1, s =>
    if s.ptr < stop ∧ ¬ s.line.isEmpty then
      let s1 := partHeader s
      let next := readLine s1.mem stop s1.ptr
      partHeaders stop n { s1 with line := next.1, lp := s1.ptr, ptr := next.2 }
    else s

/-- The value of a part: the scan for the next boundary, one character at a time. -/
def partValue (boundary : Bytes) (stop value : Nat) : Nat → PartState → PartState
  | 0, s => s
  | n + 1, s =>
    if s.ptr < stop then
      let cp := scan (fun p => !(fetch s.mem p != 13 && fetch s.mem (p + 1) == 10)) (stop - s.ptr) s.ptr
      let ptr := if cp < stop then cp + 1 else stop
      if sameUpTo boundary.length (s.mem.drop ptr) boundary then
        let mem := poke s.mem (ptr - 2) [0]
        let next := readLine mem stop ptr
        { s with mem := mem, postData := s.postData ++ [(s.key, value)], line := next.1, ptr := next.2 }
      else partValue boundary stop value n { s with ptr := ptr }
    else s

/-- The parts, as long as a line is the boundary. -/
def partsLoop (boundary : Bytes) (stop : Nat) : Nat → PartState → PartState
  | 0, s => s
  | n + 1, s =>
    if s.ptr < stop ∧ s.line = boundary then
      let next := readLine s.mem stop s.ptr
      let s1 := partHeaders stop (stop + 1) { s with key := [], line := next.1, lp := s.ptr, ptr := next.2 }
      partsLoop boundary stop n (partValue boundary stop s1.ptr (stop + 1) s1)
    else s

/-- `get_post_multipart`.  The source's first loop tests a line that is still empty and is never entered.  Every loop
moves the pointer, so a budget of `stop + 1` passes is never used up. -/
def getPostMultipart (r : HttpRequest) (body : Nat) (contentType mem : Bytes) : Bool × HttpRequest × Bytes :=
  let boundary := match find (ascii "boundary=") contentType with
    | none => []
    | some i1 =>
      let tail := contentType.drop (i1 + 9)
      tail.take ((findFirstOf (ascii "; \r\n") tail 0).getD tail.length)
  if boundary.isEmpty then (false, r, mem)
  else
    let boundary := ascii "--" ++ boundary
    let stop := body + r.bodySize
    let first := readLine mem stop body
    let s := partsLoop boundary stop (stop + 1)
      { ptr := first.2, mem := mem, postData := r.postData, key := [], line := first.1, lp := body }
    (true, { r with postData := s.postData }, s.mem)

/-! ## `get_post` and `parseRequest` -/

/-- `get_post`. -/
def getPost (ii : Stack) (r : HttpRequest) (mem : Bytes) : Except Fault (Bool × HttpRequest × Bytes) := do
  let r := { r with postData := [] }
  let contentType ← r.header (ascii "Content-Type")
  if contentType = ascii "application/x-www-form-urlencoded" then
    getPostUrlencoded ii r (r.body.getD 0) mem
  else if (find (ascii "multipart/form-data") contentType).isSome then
    .ok (getPostMultipart r (r.body.getD 0) contentType mem)
  else .ok (false, r, mem)

/-- `parseRequest`: the object it leaves (it returns `isComplete`) and the string. -/
def parseRequest (ii : Stack) (rqst : Bytes) (parsePostData : Bool) : Except Fault (HttpRequest × Bytes) :=
  if (find blankLine rqst).isSome then do
    let lines := headerLines (rqst.length + 1) rqst 0
    let r : HttpRequest := { headers := lines.1 }
    let cl ← r.contentLength
    let bodyOffset := (lines.2.map (· + 2)).getD 1
    let bodySize := rqst.length - bodyOffset
    if cl ≤ bodySize then
      let r := { r with bodyOffset := bodyOffset, bodySize := cl, body := some bodyOffset }
      if r.type = ascii "POST" ∧ parsePostData then do
        let p ← getPost ii r rqst
        .ok p.2
      else .ok (r, rqst)
    else .ok ({ r with bodyOffset := bodyOffset, bodySize := bodySize }, rqst)
  else
    match resync rqst with
    | some left => .ok ({}, left)
    | none => .error .hang

/-! ## What parsing leaves

`get_post` writes inside the body, and one NUL that may fall on the byte behind it.
-/

/-- The string after writing up to `stop`. -/
structure Writes (stop : Nat) (mem mem' : Bytes) : Prop where
  length : mem'.length = mem.length
  behind : mem'.drop stop = mem.drop stop ∨ mem'.drop stop = (mem.drop stop).set 0 0

namespace Writes

variable {stop : Nat} {a b c : Bytes}

theorem rfl' (stop : Nat) (a : Bytes) : Writes stop a a := ⟨rfl, Or.inl rfl⟩

theorem trans (h : Writes stop a b) (h' : Writes stop b c) : Writes stop a c := by
  refine ⟨h'.length.trans h.length, ?_⟩
  rcases h'.behind with hc | hc
  · rw [hc]
    exact h.behind
  · right
    rcases h.behind with hb | hb
    · rw [hc, hb]
    · rw [hc, hb, List.set_set]

theorem set {p : Nat} (hp : p < stop) (mem : Bytes) (x : UInt8) : Writes stop mem (mem.set p x) :=
  ⟨List.length_set, Or.inl (by rw [List.drop_set, if_pos hp])⟩

theorem nul {p : Nat} (hp : p ≤ stop) (mem : Bytes) : Writes stop mem (poke mem p [0]) := by
  show Writes stop mem (mem.set p 0)
  rcases Nat.lt_or_eq_of_le hp with h | h
  · exact set h mem 0
  · refine ⟨List.length_set, Or.inr ?_⟩
    rw [List.drop_set, if_neg (by omega), h, Nat.sub_self]

theorem value : ∀ (bs mem : Bytes) (p : Nat), p + bs.length ≤ stop → Writes stop mem (poke mem p (bs ++ [0]))
  | [], mem, _, hp => nul hp mem
  | b :: bs, mem, p, hp => by
    rw [List.length_cons] at hp
    exact (set (by omega) mem b).trans (value bs _ (p + 1) (by omega))

end Writes

/-- The string after writing from `start` on and before `stop`. -/
structure Inside (start stop : Nat) (mem mem' : Bytes) : Prop where
  length : mem'.length = mem.length
  before : mem'.take start = mem.take start
  behind : mem'.drop stop = mem.drop stop

namespace Inside

variable {start stop : Nat} {a b c : Bytes}

theorem rfl' (start stop : Nat) (a : Bytes) : Inside start stop a a := ⟨rfl, rfl, rfl⟩

theorem trans (h : Inside start stop a b) (h' : Inside start stop b c) : Inside start stop a c :=
  ⟨h'.length.trans h.length, h'.before.trans h.before, h'.behind.trans h.behind⟩

theorem nul {p : Nat} (hs : start ≤ p) (hp : p < stop) (mem : Bytes) : Inside start stop mem (poke mem p [0]) := by
  show Inside start stop mem (mem.set p 0)
  exact ⟨List.length_set, List.take_set_of_le hs, by rw [List.drop_set, if_pos hp]⟩

theorem writes (h : Inside start stop a b) : Writes stop a b := ⟨h.length, Or.inl h.behind⟩

end Inside

theorem scan_ge (stop : Nat → Bool) : ∀ (n p : Nat), p ≤ scan stop n p
  | 0, _ => Nat.le_refl _
  | n + 1, p => by
    rw [scan]
    split
    · exact Nat.le_refl _
    · exact Nat.le_trans (Nat.le_succ p) (scan_ge stop n (p + 1))

theorem scan_le (stop : Nat → Bool) : ∀ (n p : Nat), scan stop n p ≤ p + n
  | 0, _ => Nat.le_refl _
  | n + 1, p => by
    rw [scan]
    split
    · exact Nat.le_add_right _ _
    · have := scan_le stop n (p + 1)
      omega

theorem length_slice (mem : Bytes) (p q : Nat) : (slice mem p q).length ≤ q - p := by
  rw [slice, List.length_take]
  exact Nat.min_le_left _ _

theorem length_uriDecodeFrom : ∀ (n : Nat) (ii : UInt8) (s : Bytes), (uriDecodeFrom n ii s).length ≤ s.length
  | 0, _, _ => Nat.zero_le _
  | n + 1, _, [] => Nat.le_refl _
  | n + 1, ii, c :: s => by
    rw [uriDecodeFrom]
    split
    · have := length_uriDecodeFrom n ((scanHex (s.take 2)).getD ii) (s.drop 2)
      rw [List.length_drop] at this
      simp only [List.length_cons]
      omega
    · split
      · exact Nat.succ_le_succ (length_uriDecodeFrom n ii s)
      · exact Nat.succ_le_succ (length_uriDecodeFrom n ii s)

/-- Two requests that differ at most in their POST data. -/
structure SamePlace (r r' : HttpRequest) : Prop where
  headers : r'.headers = r.headers
  bodyOffset : r'.bodyOffset = r.bodyOffset
  bodySize : r'.bodySize = r.bodySize
  body : r'.body = r.body

theorem formPass_cases (ii : Stack) (stop : Nat) (s : FormState) :
    formPass ii stop s = .leave s ∨ ∃ s', formPass ii stop s = .again s' ∧ Writes stop s.mem s'.mem := by
  unfold formPass
  simp only
  split
  · right
    split
    · next hcp =>
      split
      · next hptr =>
        refine ⟨_, rfl, .value _ _ _ ?_⟩
        generalize scan (fun p => fetch s.mem p == 61) (stop - s.ptr) s.ptr + 1 = ptr at hptr
        have hscan := scan_le (fun p => fetch s.mem p == 38) (stop - ptr) ptr
        generalize scan (fun p => fetch s.mem p == 38) (stop - ptr) ptr = cp at hscan
        have hdecode : (uriDecode (ii ptr) (slice s.mem ptr cp)).length ≤ cp - ptr :=
          Nat.le_trans (length_uriDecodeFrom _ _ _) (length_slice _ _ _)
        omega
      · exact ⟨_, rfl, .nul (Nat.le_of_lt hcp) _⟩
    · exact ⟨_, rfl, .rfl' _ _⟩
  · exact Or.inl rfl

theorem writes_formRun {ii : Stack} {stop n : Nat} {s s' : FormState} (h : Loop.run (formPass ii stop) n s = some s') :
    Writes stop s.mem s'.mem := by
  refine Loop.run_inv (I := fun t => Writes stop s.mem t.mem) (Q := fun t => Writes stop s.mem t.mem) ?_ ?_ n s s'
    (.rfl' _ _) h
  · intro t t' ht he
    rcases formPass_cases ii stop t with hl | ⟨t1, ha, hw⟩
    · rw [hl] at he
      cases he
    · rw [ha] at he
      cases he
      exact ht.trans hw
  · intro t r ht he
    rcases formPass_cases ii stop t with hl | ⟨t1, ha, hw⟩
    · rw [hl] at he
      cases he
      exact ht
    · rw [ha] at he
      cases he

/-- A line is inside the body, and the pointer behind it goes past its CRLF or to the end. -/
theorem readLine_le (mem : Bytes) {stop ptr : Nat} (hp : ptr ≤ stop) :
    ptr + (readLine mem stop ptr).1.length ≤ stop ∧ (readLine mem stop ptr).2 ≤ stop ∧
      ptr ≤ (readLine mem stop ptr).2 ∧ ((readLine mem stop ptr).2 < stop → ptr + 2 ≤ (readLine mem stop ptr).2) := by
  unfold readLine
  have hscan := scan_le (fun p => fetch mem p == 13) (stop - ptr) ptr
  have hge := scan_ge (fun p => fetch mem p == 13) (stop - ptr) ptr
  generalize scan (fun p => fetch mem p == 13) (stop - ptr) ptr = cp at hscan hge
  have hlen := length_slice mem ptr cp
  refine ⟨?_, ?_⟩
  · show ptr + (slice mem ptr cp).length ≤ stop
    omega
  · show (if cp + 1 < stop then cp + 2 else stop) ≤ stop ∧ ptr ≤ (if cp + 1 < stop then cp + 2 else stop) ∧
      ((if cp + 1 < stop then cp + 2 else stop) < stop → ptr + 2 ≤ (if cp + 1 < stop then cp + 2 else stop))
    split <;> omega

theorem quoted_lt {mark line : Bytes} {i1 i2 : Nat} (h : quoted mark line = some (i1, i2)) : i2 < line.length := by
  unfold quoted at h
  split at h
  · cases h
  · next k _ =>
    obtain ⟨j, hj, he⟩ := Option.map_eq_some_iff.1 h
    cases he
    unfold findFrom at hj
    split at hj
    · obtain ⟨l, hl, rfl⟩ := Option.map_eq_some_iff.1 hj
      have := find_le hl
      have hone : (ascii "\"").length = 1 := rfl
      rw [List.length_drop, hone] at this
      omega
    · cases hj

section Parts

variable {start stop : Nat}

theorem inside_partHeader {s : PartState} (hs : start ≤ s.lp) (hl : s.lp + s.line.length ≤ stop) :
    Inside start stop s.mem (partHeader s).mem ∧ (partHeader s).ptr = s.ptr := by
  unfold partHeader
  split
  · simp only
    split
    · next i1 i2 hq =>
      have := quoted_lt hq
      exact ⟨.nul (by omega) (by omega) _, rfl⟩
    · exact ⟨.rfl' _ _ _, rfl⟩
  · exact ⟨.rfl' _ _ _, rfl⟩

theorem inside_partHeaders : ∀ (n : Nat) (s : PartState), s.ptr ≤ stop → start ≤ s.ptr → start ≤ s.lp →
    s.lp + s.line.length ≤ stop → Inside start stop s.mem (partHeaders stop n s).mem ∧
      (partHeaders stop n s).ptr ≤ stop ∧ s.ptr ≤ (partHeaders stop n s).ptr
  | 0, s, hp, _, _, _ => ⟨.rfl' _ _ _, hp, Nat.le_refl _⟩
  | n + 1, s, hp, hsp, hs, hl => by
    rw [partHeaders]
    split
    · obtain ⟨hw, hptr⟩ := inside_partHeader hs hl
      rw [← hptr] at hp hsp
      obtain ⟨hline, hnext, hge, -⟩ := readLine_le (partHeader s).mem hp
      obtain ⟨hw', hp', hge'⟩ := inside_partHeaders n
        { partHeader s with
          line := (readLine (partHeader s).mem stop (partHeader s).ptr).1
          lp := (partHeader s).ptr
          ptr := (readLine (partHeader s).mem stop (partHeader s).ptr).2 } hnext (Nat.le_trans hsp hge) hsp hline
      exact ⟨hw.trans hw', hp', Nat.le_trans (Nat.le_of_eq hptr.symm) (Nat.le_trans hge hge')⟩
    · exact ⟨.rfl' _ _ _, hp, Nat.le_refl _⟩

theorem inside_partValue (boundary : Bytes) (value : Nat) : ∀ (n : Nat) (s : PartState), s.ptr ≤ stop →
    start + 2 ≤ s.ptr → Inside start stop s.mem (partValue boundary stop value n s).mem ∧
      (partValue boundary stop value n s).ptr ≤ stop ∧ s.ptr ≤ (partValue boundary stop value n s).ptr
  | 0, s, hp, _ => ⟨.rfl' _ _ _, hp, Nat.le_refl _⟩
  | n + 1, s, hp, hs => by
    rw [partValue]
    split
    · simp only
      have hge := scan_ge (fun p => !(fetch s.mem p != 13 && fetch s.mem (p + 1) == 10)) (stop - s.ptr) s.ptr
      generalize scan _ (stop - s.ptr) s.ptr = cp at hge
      have hptr : (if cp < stop then cp + 1 else stop) ≤ stop ∧ s.ptr ≤ (if cp < stop then cp + 1 else stop) := by
        split <;> omega
      generalize (if cp < stop then cp + 1 else stop) = ptr at hptr
      split
      · obtain ⟨-, hnext, hge', -⟩ := readLine_le (poke s.mem (ptr - 2) [0]) hptr.1
        exact ⟨.nul (by omega) (by omega) _, hnext, Nat.le_trans hptr.2 hge'⟩
      · obtain ⟨hw, hp', hge'⟩ := inside_partValue boundary value n { s with ptr := ptr } hptr.1 (by
          show start + 2 ≤ ptr
          omega)
        exact ⟨hw, hp', Nat.le_trans hptr.2 hge'⟩
    · exact ⟨.rfl' _ _ _, hp, Nat.le_refl _⟩

theorem inside_partsLoop (boundary : Bytes) : ∀ (n : Nat) (s : PartState), s.ptr ≤ stop →
    (s.ptr < stop → start + 2 ≤ s.ptr) → Inside start stop s.mem (partsLoop boundary stop n s).mem
  | 0, s, _, _ => .rfl' _ _ _
  | n + 1, s, hp, hs => by
    rw [partsLoop]
    split
    · next hin =>
      have hs := hs hin.1
      simp only
      obtain ⟨hline, hnext, hge, -⟩ := readLine_le s.mem hp
      obtain ⟨hw, hp1, hge1⟩ := inside_partHeaders (stop + 1)
        { s with
          key := [], line := (readLine s.mem stop s.ptr).1, lp := s.ptr, ptr := (readLine s.mem stop s.ptr).2 }
        hnext (show start ≤ (readLine s.mem stop s.ptr).2 by omega) (show start ≤ s.ptr by omega) hline
      have hs1 := Nat.le_trans (Nat.le_trans hs hge) hge1
      obtain ⟨hw', hp2, hge2⟩ := inside_partValue boundary _ (stop + 1) _ hp1 hs1
      exact (hw.trans hw').trans (inside_partsLoop boundary n _ hp2 fun _ => Nat.le_trans hs1 hge2)
    · exact .rfl' _ _ _

end Parts

/-- **The parts of a form are decoded inside the body.** -/
theorem getPostMultipart_same (r : HttpRequest) (body : Nat) (contentType mem : Bytes) :
    SamePlace r (getPostMultipart r body contentType mem).2.1 ∧
      Inside body (body + r.bodySize) mem (getPostMultipart r body contentType mem).2.2 := by
  unfold getPostMultipart
  simp only
  generalize (match find (ascii "boundary=") contentType with | none => [] | some i1 => _ : Bytes) = boundary
  split
  · exact ⟨⟨rfl, rfl, rfl, rfl⟩, .rfl' _ _ _⟩
  · obtain ⟨-, hfirst, -, htwo⟩ := readLine_le mem (Nat.le_add_right body r.bodySize)
    exact ⟨⟨rfl, rfl, rfl, rfl⟩, inside_partsLoop (ascii "--" ++ boundary) (body + r.bodySize + 1)
      { ptr := (readLine mem (body + r.bodySize) body).2, mem := mem, postData := r.postData, key := []
        line := (readLine mem (body + r.bodySize) body).1, lp := body } hfirst htwo⟩

/-- **POST data are found without moving the request**: the object keeps its offsets, and nothing behind the body is
written but a NUL over its first byte. -/
theorem getPost_same {ii : Stack} {r : HttpRequest} {mem : Bytes} {q : Bool × HttpRequest × Bytes}
    (h : getPost ii r mem = .ok q) : SamePlace r q.2.1 ∧ Writes (r.body.getD 0 + r.bodySize) mem q.2.2 := by
  unfold getPost at h
  simp only [bind, Except.bind] at h
  split at h
  · cases h
  · next contentType hc =>
    split at h
    · unfold getPostUrlencoded at h
      simp only at h
      split at h
      · cases h
      · next s' hs =>
        cases h
        exact ⟨⟨rfl, rfl, rfl, rfl⟩, writes_formRun hs⟩
    · split at h
      · cases h
        obtain ⟨hs, hw⟩ := getPostMultipart_same { r with postData := [] } (r.body.getD 0) contentType mem
        exact ⟨⟨hs.headers, hs.bodyOffset, hs.bodySize, hs.body⟩, hw.writes⟩
      · cases h
        exact ⟨⟨rfl, rfl, rfl, rfl⟩, .rfl' _ _⟩

theorem getPostUrlencoded_apart (ii : Stack) (r : HttpRequest) (body : Nat) (mem : Bytes) :
    Apart (getPostUrlencoded ii r body mem) := by
  unfold getPostUrlencoded
  simp only
  split <;> nofun

theorem getPost_apart (ii : Stack) (r : HttpRequest) (mem : Bytes) : Apart (getPost ii r mem) := by
  unfold getPost
  refine (HttpRequest.header_apart _ _).bind fun _ => ?_
  split
  · exact getPostUrlencoded_apart _ _ _ _
  · split <;> exact Apart.ok _

theorem parseRequest_apart (ii : Stack) (rqst : Bytes) (b : Bool) : Apart (parseRequest ii rqst b) := by
  unfold parseRequest
  split
  · refine (HttpRequest.contentLength_throws _).apart.bind fun _ => ?_
    simp only
    split
    · split
      · exact (getPost_apart _ _ _).bind fun _ => Apart.ok _
      · exact Apart.ok _
    · exact Apart.ok _
  · split <;> nofun

/-- What parsing makes of a string that holds a blank line. -/
structure Parsed (rqst : Bytes) (q : HttpRequest × Bytes) : Prop where
  blank : (find blankLine rqst).isSome = true
  headers : q.1.headers = linesOf rqst
  length : q.2.length = rqst.length
  pos : 0 < q.1.size
  fits : q.1.size ≤ rqst.length

/-- **A parsed request is in its string**, when there is a blank line; else there is no request, and the string is
searched for the start of one. -/
theorem parseRequest_cases {ii : Stack} {rqst : Bytes} {b : Bool} {q : HttpRequest × Bytes}
    (h : parseRequest ii rqst b = .ok q) :
    (find blankLine rqst = none ∧ q.1 = {} ∧ resync rqst = some q.2) ∨ (Parsed rqst q ∧ (b = false → q.2 = rqst)) := by
  unfold parseRequest at h
  split at h
  · next hblank =>
    right
    have hpos : 0 < ((headerLines (rqst.length + 1) rqst 0).2.map (· + 2)).getD 1 := by
      cases (headerLines (rqst.length + 1) rqst 0).2 with
      | none => exact Nat.one_pos
      | some i => exact Nat.succ_pos _
    have hle : ((headerLines (rqst.length + 1) rqst 0).2.map (· + 2)).getD 1 ≤ rqst.length := by
      cases hl : (headerLines (rqst.length + 1) rqst 0).2 with
      | none =>
        obtain ⟨k, hk⟩ := Option.isSome_iff_exists.1 hblank
        have := find_le hk
        have : blankLine.length = 4 := rfl
        show 1 ≤ rqst.length
        omega
      | some i =>
        have := headerLines_le _ _ _ _ hl
        show i + 2 ≤ rqst.length
        omega
    simp only [bind, Except.bind] at h
    split at h
    · cases h
    · next cl _ =>
      split at h
      · next hcl =>
        have hsize : ((headerLines (rqst.length + 1) rqst 0).2.map (· + 2)).getD 1 + cl ≤ rqst.length := by omega
        split at h
        · next hpost =>
          split at h
          · cases h
          · next p hp =>
            cases h
            obtain ⟨hs, hw⟩ := getPost_same hp
            have hsz : p.2.1.size = ((headerLines (rqst.length + 1) rqst 0).2.map (· + 2)).getD 1 + cl := by
              rw [HttpRequest.size, hs.bodyOffset, hs.bodySize]
            refine ⟨⟨hblank, hs.headers, hw.length, by rw [hsz]; omega, by rw [hsz]; exact hsize⟩, ?_⟩
            intro hb
            rw [hb] at hpost
            cases hpost.2
        · cases h
          exact ⟨⟨hblank, rfl, rfl, Nat.lt_of_lt_of_le hpos (Nat.le_add_right _ _), hsize⟩, fun _ => rfl⟩
      · cases h
        refine ⟨⟨hblank, rfl, rfl, Nat.lt_of_lt_of_le hpos (Nat.le_add_right _ _), ?_⟩, fun _ => rfl⟩
        exact Nat.le_of_eq (Nat.add_sub_of_le hle)
  · next hblank =>
    left
    split at h
    · next left hl =>
      cases h
      exact ⟨Option.not_isSome_iff_eq_none.1 hblank, rfl, hl⟩
    · cases h

end Http
end Pico
