import Picolibs.Loop
import Picolibs.Txt
/-!
# TxtOps — a `TXT` against a `std::string` (`txt.cpp`)

`Op` has the operations of a `TXT`, `Op.apply` what they do to the buffer and `Op.spec` what the same operation does to
a byte string; a C string is what stands before its NUL.  `Holds` is the layout of a buffer with a text in it: the
text, its NUL and what is behind.
-/
namespace Pico
namespace Txt

open History (Reach)
open Text (cstr find find_split find_prefix cstr_begins cstr_idem cstr_eq_self_iff nul_not_mem_cstr cstr_append_nul)

/-! ## The operations -/

/-- `TXT()`. -/
def empty : Txt := { buffer := [], bufsiz := 0, endptr := 0 }

/-- `TXT(size)`. -/
def ofSize (size : Nat) : Txt :=
  { buffer := if 0 < size then 0 :: newChar (size - 1) else [], bufsiz := size, endptr := 0 }

/-- `contract`. -/
def contract (t : Txt) (offset amount : Nat) : Except Fault Txt := do
  let tail ← readBlock t.buffer (offset + amount) (t.endptr - offset - amount)
  let b ← writeBlock t.buffer offset tail
  let b ← writeBlock b (t.endptr - amount) [0]
  .ok { t with buffer := b, endptr := t.endptr - amount }

/-- Both `operator =` make room for `la` characters and copy them with `strncpy`. -/
def assign (t : Txt) (src : Bytes) (la : Nat) : Except Fault Txt :=
  insert { t with endptr := 0 } 0 (strncpyBytes src la)

def assignCStr (t : Txt) (src : Bytes) : Except Fault Txt := assign t src (cstr src).length

def assignString (t : Txt) (src : Bytes) : Except Fault Txt := assign t src src.length

/-- `operator +=` with a C string, by `strncpy`. -/
def appendCStr (t : Txt) (src : Bytes) : Except Fault Txt :=
  insert t t.endptr (strncpyBytes src (cstr src).length)

/-- `operator +=` with a `std::string`, by `memcpy`. -/
def appendString (t : Txt) (src : Bytes) : Except Fault Txt := insert t t.endptr src

/-- `insert(offset, str, len)`; 0 is for the length of the string. -/
def insertLen (t : Txt) (offset : Nat) (str : Bytes) (len : Nat) : Except Fault Txt :=
  insert t offset (str.take (if len = 0 then (cstr str).length else len))

def replace (t : Txt) (offset size : Nat) (replacement : Bytes) : Except Fault Txt := do
  let lr := (cstr replacement).length
  let t ←
    if size < lr then expand t (offset + size) (lr - size)
    else if lr < size then contract t (offset + lr) (size - lr)
    else .ok t
  let b ← writeBlock t.buffer offset (replacement.take lr)
  .ok { t with buffer := b }

/-- `strstr`, which reads the buffer up to a NUL. -/
def strstr (buffer placeholder : Bytes) : Except Fault (Option Nat) :=
  if buffer.contains 0 then .ok (find (cstr placeholder) (cstr buffer)) else .error .outOfBounds

def substitute (t : Txt) (placeholder replacement : Bytes) : Except Fault (Bool × Txt) := do
  match ← strstr t.buffer placeholder with
  | none => .ok (false, t)
  | some offset => .ok (true, ← replace t offset (cstr placeholder).length replacement)

/-- `substitute` with a `std::string` goes by its `c_str`. -/
def substituteString (t : Txt) (placeholder replacement : Bytes) : Except Fault (Bool × Txt) :=
  substitute t placeholder replacement

/-- `substitute` with a number, which always fits into `numbuf`. -/
def substituteInt (t : Txt) (placeholder : Bytes) (value : Int) : Except Fault (Bool × Txt) :=
  substitute t placeholder (ascii (toString value))

inductive Op where
  | assignCStr (src : Bytes)
  | assignString (src : Bytes)
  | appendCStr (src : Bytes)
  | appendString (src : Bytes)
  | insert (offset : Nat) (str : Bytes) (len : Nat)
  | replace (offset size : Nat) (replacement : Bytes)
  | substitute (placeholder replacement : Bytes)
  | substituteString (placeholder replacement : Bytes)
  | substituteInt (placeholder : Bytes) (value : Int)
  deriving DecidableEq

def Op.apply (t : Txt) : Op → Except Fault Txt
  | .assignCStr src => t.assignCStr src
  | .assignString src => t.assignString src
  | .appendCStr src => t.appendCStr src
  | .appendString src => t.appendString src
  | .insert offset str len => t.insertLen offset str len
  | .replace offset size replacement => t.replace offset size replacement
  | .substitute placeholder replacement => return (← t.substitute placeholder replacement).2
  | .substituteString placeholder replacement => return (← t.substituteString placeholder replacement).2
  | .substituteInt placeholder value => return (← t.substituteInt placeholder value).2

/-! ## The same on a byte string -/

/-- `std::string::replace`. -/
def replaced (x : Bytes) (offset size : Nat) (r : Bytes) : Bytes := x.take offset ++ r ++ x.drop (offset + size)

/-- The static `substitute`, on a `std::string`. -/
def substituted (x placeholder r : Bytes) : Bytes :=
  match find placeholder x with
  | none => x
  | some i => replaced x i placeholder.length r

def Op.spec (x : Bytes) : Op → Bytes
  | .assignCStr src => cstr src
  | .assignString src => src
  | .appendCStr src => x ++ cstr src
  | .appendString src => x ++ src
  | .insert offset str len => replaced x offset 0 (str.take (if len = 0 then (cstr str).length else len))
  | .replace offset size replacement => replaced x offset size (cstr replacement)
  | .substitute placeholder replacement => substituted x (cstr placeholder) (cstr replacement)
  | .substituteString placeholder replacement => substituted x (cstr placeholder) replacement
  | .substituteInt placeholder value => substituted x (cstr placeholder) (ascii (toString value))

/-- Offsets, sizes and lengths that the operation may have. -/
def Op.Inside (x : Bytes) (op : Op) : Prop :=
  (match op with
    | .insert offset str len => offset ≤ x.length ∧ len ≤ str.length
    | .replace offset size _ => offset + size ≤ x.length
    | _ => True) ∧ (op.spec x).length < 2 ^ 32 - 2048

instance (x : Bytes) : (op : Op) → Decidable (op.Inside x)
  | .insert _ _ _ => inferInstanceAs (Decidable ((_ ∧ _) ∧ _))
  | .replace _ _ _ => inferInstanceAs (Decidable (_ ∧ _))
  | .assignCStr _ | .assignString _ | .appendCStr _ | .appendString _ | .substitute _ _ | .substituteString _ _
  | .substituteInt _ _ => inferInstanceAs (Decidable (True ∧ _))

/-! ## What the operations do to the text -/

/-- **`contract` takes a part out of the text.** -/
theorem contract_holds {t : Txt} {a m b : Bytes} (h : Holds t (a ++ (m ++ b))) :
    ∃ t', contract t a.length m.length = .ok t' ∧ Holds t' (a ++ b) := by
  obtain ⟨rest, hb⟩ := h.layout
  have hend := h.endptr
  have hsize := h.size
  have hlen := congrArg List.length hb
  rw [List.append_assoc, List.append_assoc] at hb
  simp only [List.length_append, List.length_cons] at hend hlen
  obtain ⟨old, l1, hl, hold⟩ := exists_front (l := m ++ (b ++ 0 :: rest)) (n := b.length)
    (by simp only [List.length_append]; omega)
  have hl1 := congrArg List.length hl
  simp only [List.length_append, List.length_cons] at hl1
  obtain ⟨nul, l2, rfl, hnul⟩ := exists_front (l := l1) (n := 1) (by omega)
  rw [List.length_append] at hl1
  have hread : readBlock t.buffer (a.length + m.length) (t.endptr - a.length - m.length) = .ok b := by
    rw [hb, show t.endptr - a.length - m.length = b.length by omega, ← List.append_assoc, ← List.length_append]
    exact readBlock_mid (a ++ m) b (0 :: rest)
  have hwrite : writeBlock t.buffer a.length b = .ok (a ++ (b ++ (nul ++ l2))) := by
    rw [hb, hl]
    exact writeBlock_mid a (nul ++ l2) hold.symm
  have hend' : t.endptr - m.length = (a ++ b).length := by
    rw [List.length_append]
    omega
  have hwritten : writeBlock (a ++ (b ++ (nul ++ l2))) (t.endptr - m.length) [0] = .ok (a ++ b ++ ([0] ++ l2)) := by
    rw [hend', ← List.append_assoc a b]
    exact writeBlock_mid (a ++ b) l2 hnul.symm
  refine ⟨{ t with buffer := a ++ b ++ ([0] ++ l2), endptr := t.endptr - m.length }, ?_, ⟨⟨l2, rfl⟩, ?_, hend'⟩⟩
  · unfold contract
    simp only [bind, Except.bind, hread, hwrite, hwritten]
  · simp only [List.length_append, List.length_singleton]
    omega

/-- **`replace` puts a string in the place of a part.** -/
theorem replace_holds {t : Txt} {a m b : Bytes} (h : Holds t (a ++ (m ++ b))) (r : Bytes) :
    ∃ t', replace t a.length m.length r = .ok t' ∧ Holds t' (a ++ (cstr r ++ b)) := by
  have htake : r.take (cstr r).length = cstr r := (List.prefix_iff_eq_take.1 (cstr_begins r)).symm
  unfold replace
  simp only [htake]
  by_cases hlong : m.length < (cstr r).length
  · rw [← List.append_assoc] at h
    obtain ⟨t1, gap, he, hgap, h1⟩ := expand_holds h.room ((cstr r).length - m.length)
    rw [List.append_assoc, ← List.append_assoc m] at h1
    obtain ⟨b1, hw, h2⟩ := write_holds h1 (show (cstr r).length = (m ++ gap).length by rw [List.length_append]; omega)
    rw [List.length_append] at he
    refine ⟨_, ?_, h2⟩
    simp only [if_pos hlong, he, bind, Except.bind, hw]
  · by_cases hshort : (cstr r).length < m.length
    · obtain ⟨front, back, rfl, hfront⟩ := exists_front (Nat.le_of_lt hshort)
      rw [List.append_assoc, ← List.append_assoc a] at h
      obtain ⟨t1, he, h1⟩ := contract_holds h
      rw [List.append_assoc] at h1
      obtain ⟨b1, hw, h2⟩ := write_holds h1 (show (cstr r).length = front.length from hfront.symm)
      rw [List.length_append] at he
      refine ⟨_, ?_, h2⟩
      rw [if_neg hlong, if_pos hshort, List.length_append, hfront, Nat.add_sub_cancel_left]
      rw [hfront] at he
      simp only [he, bind, Except.bind, hw]
    · obtain ⟨b1, hw, h2⟩ := write_holds h (show (cstr r).length = m.length by omega)
      refine ⟨_, ?_, h2⟩
      simp only [if_neg hlong, if_neg hshort, bind, Except.bind, hw]

theorem replaced_eq (a m b r : Bytes) : replaced (a ++ (m ++ b)) a.length m.length r = a ++ (r ++ b) := by
  rw [replaced, List.take_left, ← List.append_assoc a m b, ← List.length_append, List.drop_left, List.append_assoc]

/-- What `substitute` finds: the first occurrence, if it is before the first NUL. -/
def found (x placeholder : Bytes) : Option Nat :=
  (find placeholder x).filter fun k => decide (k + placeholder.length ≤ (cstr x).length)

theorem strstr_holds {t : Txt} {x : Bytes} (h : Holds t x) (placeholder : Bytes) :
    strstr t.buffer placeholder = .ok (found x (cstr placeholder)) := by
  obtain ⟨rest, hb⟩ := h.layout
  rw [strstr, hb, if_pos (by simp), cstr_append_nul, find_prefix (cstr_begins x)]
  rfl

/-- The text after `substitute`. -/
def after (x placeholder r : Bytes) : Bytes :=
  match found x placeholder with
  | none => x
  | some i => replaced x i placeholder.length r

theorem substitute_holds {t : Txt} {x : Bytes} (h : Holds t x) (placeholder r : Bytes) :
    ∃ res, substitute t placeholder r = .ok res ∧ Holds res.2 (after x (cstr placeholder) (cstr r)) := by
  unfold substitute after
  simp only [strstr_holds h, bind, Except.bind]
  cases hf : found x (cstr placeholder) with
  | none => exact ⟨_, rfl, h⟩
  | some i =>
    obtain ⟨a, b, rfl, rfl⟩ := find_split (Option.eq_some_of_filter_eq_some hf)
    rw [List.append_assoc] at h ⊢
    obtain ⟨t', hr, h'⟩ := replace_holds h r
    simp only [hr]
    rw [replaced_eq]
    exact ⟨_, rfl, h'⟩

/-- **When `substitute` does what it does to a byte string.** -/
theorem after_eq_iff (x placeholder r : Bytes) :
    after x placeholder (cstr r) = substituted x placeholder r ↔
      ∀ i ∈ find placeholder x, if i + placeholder.length ≤ (cstr x).length then 0 ∉ r else r = placeholder := by
  unfold after substituted found
  cases hf : find placeholder x with
  | none => simp
  | some i =>
    obtain ⟨a, b, rfl, rfl⟩ := find_split hf
    rw [List.append_assoc]
    by_cases hle : a.length + placeholder.length ≤ (cstr (a ++ (placeholder ++ b))).length
    · simp only [Option.filter, hle, decide_true, if_true, replaced_eq, Option.mem_some_iff, forall_eq']
      rw [List.append_cancel_left_eq, List.append_cancel_right_eq, cstr_eq_self_iff]
    · simp only [Option.filter, hle, decide_false, Bool.false_eq_true, if_false, replaced_eq, Option.mem_some_iff,
        forall_eq']
      rw [List.append_cancel_left_eq, List.append_cancel_right_eq]
      exact eq_comm

/-! ## Every operation -/

/-- The text that the buffer has after an operation. -/
def Op.text (x : Bytes) : Op → Bytes
  | .assignString src => strncpied src
  | .substitute placeholder r => after x (cstr placeholder) (cstr r)
  | .substituteString placeholder r => after x (cstr placeholder) (cstr r)
  | .substituteInt placeholder value => after x (cstr placeholder) (cstr (ascii (toString value)))
  | op => op.spec x

/-- The operation does not meet a NUL where it stops at one: none but at the end of an assigned string, and where
something is substituted, none before it and none in the replacement, unless nothing changes. -/
def Op.Fine (x : Bytes) : Op → Prop
  | .assignString src => NulEnds src
  | .substitute placeholder r => ∀ i ∈ find (cstr placeholder) x,
      i + (cstr placeholder).length ≤ (cstr x).length ∨ cstr r = cstr placeholder
  | .substituteString placeholder r => ∀ i ∈ find (cstr placeholder) x,
      if i + (cstr placeholder).length ≤ (cstr x).length then 0 ∉ r else r = cstr placeholder
  | .substituteInt placeholder value => ∀ i ∈ find (cstr placeholder) x,
      i + (cstr placeholder).length ≤ (cstr x).length ∨ ascii (toString value) = cstr placeholder
  | _ => True

instance (x : Bytes) : (op : Op) → Decidable (op.Fine x)
  | .assignString src => inferInstanceAs (Decidable (NulEnds src))
  | .substitute _ _ => inferInstanceAs (Decidable (∀ i ∈ find _ _, _ ∨ _))
  | .substituteString placeholder r => inferInstanceAs (Decidable (∀ i ∈ find (cstr placeholder) x,
      if i + (cstr placeholder).length ≤ (cstr x).length then 0 ∉ r else r = cstr placeholder))
  | .substituteInt _ _ => inferInstanceAs (Decidable (∀ i ∈ find _ _, _ ∨ _))
  | .assignCStr _ | .appendCStr _ | .appendString _ | .insert _ _ _ | .replace _ _ _ => isTrue trivial

theorem fine_ite {i : Nat} {x placeholder r : Bytes} (h : 0 ∉ r) :
    (if i + placeholder.length ≤ (cstr x).length then 0 ∉ r else r = placeholder) ↔
      (i + placeholder.length ≤ (cstr x).length ∨ r = placeholder) := by
  split
  · next hle => exact iff_of_true h (Or.inl hle)
  · next hle => exact ⟨Or.inr, fun hc => hc.resolve_left hle⟩

/-- The digits of a number. -/
theorem digits_ne_nul (n : Nat) : ∀ c ∈ (Nat.repr n).toList, c.toNat.toUInt8 ≠ 0 := by
  intro c hc
  rw [Nat.repr, String.toList_ofList] at hc
  have hd := Nat.isDigit_of_mem_toDigits (by decide) (by decide) hc
  rw [Char.isDigit, Bool.and_eq_true, decide_eq_true_eq, decide_eq_true_eq] at hd
  obtain ⟨h1, h2⟩ := hd
  have h1 : 48 ≤ c.toNat := h1
  have h2 : c.toNat ≤ 57 := h2
  rw [ne_eq, ← UInt8.toNat_inj, Nat.toUInt8, UInt8.toNat_ofNat']
  show ¬ c.toNat % 256 = 0
  omega

theorem nul_not_mem_ascii (value : Int) : 0 ∉ ascii (toString value) := by
  rw [ascii, List.mem_map]
  rintro ⟨c, hc, h0⟩
  cases value with
  | ofNat n => exact digits_ne_nul n c hc h0
  | negSucc n =>
    have hc : c ∈ ("-" ++ Nat.repr (n + 1)).toList := hc
    rw [String.toList_append, List.mem_append] at hc
    rcases hc with hc | hc
    · have hm : c = '-' := by simpa using hc
      rw [hm] at h0
      exact absurd h0 (by decide)
    · exact digits_ne_nul (n + 1) c hc h0

theorem Op.text_eq_iff (x : Bytes) (op : Op) : op.text x = op.spec x ↔ op.Fine x := by
  cases op with
  | assignString src => exact strncpied_eq_self_iff src
  | substitute placeholder r =>
    refine (?_ : _ ↔ _).trans ((after_eq_iff x (cstr placeholder) (cstr r)).trans ?_)
    · rw [cstr_idem]
      exact Iff.rfl
    · exact forall₂_congr fun i _ => fine_ite (nul_not_mem_cstr r)
  | substituteString placeholder r => exact after_eq_iff x (cstr placeholder) r
  | substituteInt placeholder value =>
    refine (after_eq_iff x (cstr placeholder) (ascii (toString value))).trans ?_
    exact forall₂_congr fun i _ => fine_ite (nul_not_mem_ascii value)
  | assignCStr src => exact iff_of_true rfl trivial
  | appendCStr src => exact iff_of_true rfl trivial
  | appendString src => exact iff_of_true rfl trivial
  | insert offset str len => exact iff_of_true rfl trivial
  | replace offset size r => exact iff_of_true rfl trivial

/-- A C string is copied whole. -/
theorem strncpyBytes_cstr (src : Bytes) : strncpyBytes src (cstr src).length = cstr src := by
  have htake : src.take (cstr src).length = cstr src := (List.prefix_iff_eq_take.1 (cstr_begins src)).symm
  have hidem : (cstr src).takeWhile (· ≠ 0) = cstr src := cstr_idem src
  rw [strncpyBytes, htake, hidem, Nat.sub_self]
  exact List.append_nil _

/-- `operator =` begins with room for everything. -/
theorem Holds.cleared {t : Txt} {x : Bytes} (h : Holds t x) : Room { t with endptr := 0 } ([] ++ []) := by
  obtain ⟨rest, hb⟩ := h.layout
  cases x with
  | nil => exact ⟨⟨0, rest, hb⟩, h.size, rfl⟩
  | cons c x => exact ⟨⟨c, x ++ 0 :: rest, hb⟩, h.size, rfl⟩

/-- **An operation on a buffer that has a text.** -/
theorem Op.apply_holds {t : Txt} {x : Bytes} (h : Holds t x) {op : Op} (hin : op.Inside x) :
    ∃ t', op.apply t = .ok t' ∧ Holds t' (op.text x) := by
  have hassign (bs : Bytes) : ∃ t', Txt.insert { t with endptr := 0 } 0 bs = .ok t' ∧ Holds t' bs := by
    obtain ⟨t', hi, h'⟩ := insert_holds h.cleared bs
    rw [List.nil_append, List.append_nil] at h'
    exact ⟨t', hi, h'⟩
  have happend (bs : Bytes) : ∃ t', Txt.insert t t.endptr bs = .ok t' ∧ Holds t' (x ++ bs) := by
    obtain ⟨t', hi, h'⟩ := insert_holds (a := x) (b := []) (by rw [List.append_nil]; exact h.room) bs
    rw [List.append_nil] at h'
    rw [h.endptr]
    exact ⟨t', hi, h'⟩
  have hsubst (placeholder r : Bytes) : ∃ t', (do return (← t.substitute placeholder r).2 : Except Fault Txt) = .ok t' ∧
      Holds t' (after x (cstr placeholder) (cstr r)) := by
    obtain ⟨res, hs, h'⟩ := substitute_holds h placeholder r
    exact ⟨res.2, by rw [hs]; rfl, h'⟩
  cases op with
  | assignCStr src =>
    obtain ⟨t', hi, h'⟩ := hassign (strncpyBytes src (cstr src).length)
    rw [strncpyBytes_cstr] at h'
    exact ⟨t', hi, h'⟩
  | assignString src => exact hassign (strncpied src)
  | appendCStr src =>
    obtain ⟨t', hi, h'⟩ := happend (strncpyBytes src (cstr src).length)
    rw [strncpyBytes_cstr] at h'
    exact ⟨t', hi, h'⟩
  | appendString src => exact happend src
  | insert offset str len =>
    obtain ⟨a, b, rfl, rfl⟩ := exists_front hin.1.1
    have hi := insert_holds h.room (str.take (if len = 0 then (cstr str).length else len))
    rw [← replaced_eq a [] b] at hi
    exact hi
  | replace offset size r =>
    have hle : offset + size ≤ x.length := hin.1
    obtain ⟨a, l, rfl, rfl⟩ := exists_front (Nat.le_of_add_right_le hle)
    rw [List.length_append] at hle
    obtain ⟨m, b, rfl, rfl⟩ := exists_front (l := l) (n := size) (by omega)
    have hr := replace_holds h r
    rw [← replaced_eq a m b] at hr
    exact hr
  | substitute placeholder r => exact hsubst placeholder r
  | substituteString placeholder r => exact hsubst placeholder r
  | substituteInt placeholder value => exact hsubst placeholder (ascii (toString value))

/-! ## An object without a buffer -/

theorem expand_empty (offset amount : Nat) : expand empty offset amount = .error .outOfBounds := by
  have hle : empty.bufsiz ≤ empty.endptr + amount := Nat.zero_le _
  rw [expand_eq, grow, if_pos hle]
  rfl

theorem insert_empty (offset : Nat) (str : Bytes) : Txt.insert empty offset str = .error .outOfBounds := by
  unfold Txt.insert
  rw [expand_empty]
  rfl

/-- Nothing leaves it with a NUL at its end. -/
theorem Op.apply_empty {op : Op} (hin : op.Inside []) :
    ¬ ∃ t', op.apply empty = .ok t' ∧ t'.data[t'.datasize]? = some 0 := by
  have hsubst (placeholder r : Bytes) : ¬ ∃ t', (do return (← empty.substitute placeholder r).2 : Except Fault Txt) =
      .ok t' ∧ t'.data[t'.datasize]? = some 0 := by
    rintro ⟨t', h, -⟩
    cases h
  cases op with
  | assignCStr src =>
    rintro ⟨t', h, -⟩
    cases (insert_empty 0 (strncpyBytes src (cstr src).length)).symm.trans h
  | assignString src =>
    rintro ⟨t', h, -⟩
    cases (insert_empty 0 (strncpyBytes src src.length)).symm.trans h
  | appendCStr src =>
    rintro ⟨t', h, -⟩
    cases (insert_empty 0 (strncpyBytes src (cstr src).length)).symm.trans h
  | appendString src =>
    rintro ⟨t', h, -⟩
    cases (insert_empty 0 src).symm.trans h
  | insert offset str len =>
    rintro ⟨t', h, -⟩
    cases (insert_empty offset (str.take (if len = 0 then (cstr str).length else len))).symm.trans h
  | replace offset size r =>
    have hle : offset + size ≤ 0 := hin.1
    obtain ⟨rfl, rfl⟩ : offset = 0 ∧ size = 0 := by omega
    show ¬ ∃ t', Txt.replace empty 0 0 r = .ok t' ∧ _
    unfold Txt.replace
    by_cases hlong : 0 < (cstr r).length
    · simp only [if_pos hlong, expand_empty]
      rintro ⟨t', h, -⟩
      cases h
    · have hnil : (cstr r).length = 0 := Nat.eq_zero_of_not_pos hlong
      simp only [hnil, Nat.lt_irrefl, if_false]
      rintro ⟨t', h, h0⟩
      cases h
      cases h0
  | substitute placeholder r => exact hsubst placeholder r
  | substituteString placeholder r => exact hsubst placeholder r
  | substituteInt placeholder value => exact hsubst placeholder (ascii (toString value))

/-! ## Every run -/

/-- The three constructors. -/
inductive Start where
  | empty
  | size (n : Nat)
  | text (src : Bytes) (bufsiz : Nat)

def Start.make : Start → Except Fault Txt
  | .empty => .ok Txt.empty
  | .size n => .ok (ofSize n)
  | .text src bufsiz => ofData src src.length bufsiz

def Start.spec : Start → Bytes
  | .empty => []
  | .size _ => []
  | .text src _ => src

def Start.Fine : Start → Prop
  | .text src _ => NulEnds src
  | _ => True

/-- The object, and the byte string beside it. -/
abbrev State := Except Fault Txt × Bytes

def Start.state (c : Start) : State := (c.make, c.spec)

def step (s : State) (op : Op) : State := (s.1.bind fun t => op.apply t, op.spec s.2)

/-- The bytes before `datasize()` are those of the byte string. -/
def Agrees (s : State) : Prop := ∃ t, s.1 = .ok t ∧ t.data.take t.datasize = s.2

/-- And a NUL is behind them. -/
def Right (s : State) : Prop := ∃ t, s.1 = .ok t ∧ t.data.take t.datasize = s.2 ∧ t.data[t.datasize]? = some 0

/-- The object has a buffer, and the operation does not meet a NUL. -/
def Fine (s : State) (op : Op) : Prop := (∃ t, s.1 = .ok t ∧ 0 < t.bufsiz) ∧ op.Fine s.2

instance : (t : Except Fault Txt) → Decidable (∃ t', t = .ok t' ∧ 0 < t'.bufsiz)
  | .ok t => decidable_of_iff (0 < t.bufsiz) (by simp)
  | .error _ => isFalse (by simp)

instance (s : State) (op : Op) : Decidable (Fine s op) := inferInstanceAs (Decidable (_ ∧ _))

/-- The object has the text, or no buffer. -/
def Good (s : State) : Prop := (∃ t, s.1 = .ok t ∧ Holds t s.2) ∨ s = (.ok empty, [])

theorem Good.agrees {s : State} (g : Good s) : Agrees s := by
  rcases g with ⟨t, ht, h⟩ | rfl
  · exact ⟨t, ht, h.text⟩
  · exact ⟨empty, rfl, rfl⟩

/-- **An operation goes as on a byte string exactly where it is fine.** -/
theorem Good.right_iff {s : State} (g : Good s) {op : Op} (hin : op.Inside s.2) : Right (step s op) ↔ Fine s op := by
  rcases g with ⟨t, ht, h⟩ | rfl
  · obtain ⟨t', ha, h'⟩ := op.apply_holds h hin
    have hstep : (step s op).1 = .ok t' := by
      rw [step, ht]
      exact ha
    have htext : t'.data.take t'.datasize = op.text s.2 := h'.text
    have hpos : 0 < t.bufsiz := Nat.lt_of_le_of_lt (Nat.zero_le _) h.owned.inside
    constructor
    · rintro ⟨t2, ht2, htext2, -⟩
      cases hstep.symm.trans ht2
      exact ⟨⟨t, ht, hpos⟩, (op.text_eq_iff s.2).1 (htext.symm.trans htext2)⟩
    · rintro ⟨-, hf⟩
      exact ⟨t', hstep, htext.trans ((op.text_eq_iff s.2).2 hf), h'.ended⟩
  · constructor
    · rintro ⟨t', ht', -, h0⟩
      exact absurd ⟨t', ht', h0⟩ (Op.apply_empty hin)
    · rintro ⟨⟨t, ht, hpos⟩, -⟩
      cases ht
      exact absurd hpos (Nat.lt_irrefl 0)

theorem Good.step {s : State} (g : Good s) {op : Op} (hin : op.Inside s.2) (hf : Fine s op) : Good (step s op) := by
  rcases g with ⟨t, ht, h⟩ | rfl
  · obtain ⟨t', ha, h'⟩ := op.apply_holds h hin
    rw [(op.text_eq_iff s.2).2 hf.2] at h'
    refine Or.inl ⟨t', ?_, h'⟩
    rw [Txt.step, ht]
    exact ha
  · obtain ⟨⟨t, ht, hpos⟩, -⟩ := hf
    cases ht
    exact absurd hpos (Nat.lt_irrefl 0)

theorem ofSize_good (n : Nat) : Good (.ok (ofSize n), []) := by
  cases n with
  | zero => exact Or.inr rfl
  | succ n =>
    refine Or.inl ⟨ofSize (n + 1), rfl, ⟨⟨newChar n, rfl⟩, ?_, rfl⟩⟩
    exact congrArg (· + 1) (List.length_replicate (n := n) (a := 0xCD))

theorem good_start {c : Start} (hc : c.Fine) : Good c.state := by
  cases c with
  | empty => exact Or.inr rfl
  | size n => exact ofSize_good n
  | text src bufsiz =>
    obtain ⟨t, ht, h⟩ := ofData_holds src src.length bufsiz
    have hself : strncpyBytes src src.length = src := (strncpied_eq_self_iff src).2 hc
    rw [hself] at h
    exact Or.inl ⟨t, ht, h⟩

theorem start_agrees_iff (c : Start) : Agrees c.state ↔ c.Fine := by
  refine ⟨fun h => ?_, fun h => (good_start h).agrees⟩
  cases c with
  | empty => exact trivial
  | size n => exact trivial
  | text src bufsiz =>
    obtain ⟨t, ht, htext⟩ := h
    obtain ⟨t', ht', h'⟩ := ofData_holds src src.length bufsiz
    cases ht.symm.trans ht'
    exact (strncpied_eq_self_iff src).1 (h'.text.symm.trans htext)

/-- **A `TXT` is a byte string in every run whose operations are fine**, from every constructor that is; and each of
these conditions is needed where it fails. -/
theorem txt_agrees (c : Start) :
    (Agrees c.state ↔ c.Fine) ∧
    ∀ s, c.Fine → Reach c.state step (fun s op => op.Inside s.2 ∧ Fine s op) s →
      Agrees s ∧ ∀ op, op.Inside s.2 → (Right (step s op) ↔ Fine s op) := by
  refine ⟨start_agrees_iff c, fun s hc hr => ?_⟩
  have g : Good s := History.inv_of_reach (good_start hc) (fun _ _ g h => g.step h.1 h.2) hr
  exact ⟨g.agrees, fun _ hin => g.right_iff hin⟩

/-- `ab`, then `abcd`, `axyzcd`, `-axyzcd` and `-a7cd`. -/
def someOps : List Op :=
  [.appendCStr (ascii "cd"), .substitute (ascii "b") (ascii "xyz"), .insert 0 (ascii "-+") 1,
    .substituteInt (ascii "xyz") 7]

theorem txt_agrees_ops :
    Agrees (someOps.foldl step (Start.text (ascii "ab") 0).state) ∧
      Right (step (someOps.foldl step (Start.text (ascii "ab") 0).state) (.replace 1 2 (ascii "?"))) :=
  have h := (txt_agrees (.text (ascii "ab") 0)).2 (someOps.foldl step (Start.text (ascii "ab") 0).state)
    (show NulEnds _ by decide +kernel) (History.reach_along someOps _ .init (by decide +kernel))
  ⟨h.1, (h.2 (.replace 1 2 (ascii "?")) (by decide +kernel)).2 (by decide +kernel)⟩

/-- A string with a NUL in it is cut by an assignment. -/
theorem assign_cut : ¬ ∀ (c : Start) (op : Op), Agrees c.state → op.Inside c.spec → Right (step c.state op) := by
  intro h
  obtain ⟨t, ht, htext, -⟩ := h (.size 16) (.assignString [97, 0, 98]) ⟨_, rfl, rfl⟩ (by decide)
  have hok : (step (Start.size 16).state (.assignString [97, 0, 98])).1.map (fun t => t.data.take t.datasize) =
      .ok [97, 0, 0] := by decide +kernel
  rw [ht] at hok
  cases htext.symm.trans (Except.ok.inj hok)

end Txt
end Pico
