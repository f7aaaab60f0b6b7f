import Picolibs.Copy
import Picolibs.TxtOps
/-!
# TxtLoops — the loops of a `TXT`, byte by byte and in 32 bits (`txt.h`, `txt.cpp`)

`Txt.expand`, `Txt.contract` and `Txt.replace` move whole blocks, and their lengths do not wrap.  Here the shifting
loops run one byte at a time over the buffer they change, every sum and difference is a `uint32_t`, and every byte read
or written is checked; the C library's `memcpy`, `strncpy` and `strstr` are the blocks they are documented to be.
Below 2^32 - 2048 bytes each function is the one on blocks, so that no access is ever outside (`runs_owned`).
-/
namespace Pico
namespace TxtLoops

open History (Reach)
open Text (cstr cstr_begins find_split)
open Txt (Owned Room Holds newChar readBlock writeBlock strncpyBytes strstr exists_front)

/-- Sums and differences of `uint32_t`. -/
def add32 (a b : Nat) : Nat := (a + b) % 2 ^ 32

def sub32 (a b : Nat) : Nat := (((a : Int) - b) % 2 ^ 32).toNat

theorem add32_eq {a b : Nat} (h : a + b < 2 ^ 32) : add32 a b = a + b := Nat.mod_eq_of_lt h

theorem sub32_eq {a b : Nat} (ha : a < 2 ^ 32) (h : b ≤ a) : sub32 a b = a - b := by
  rw [sub32]
  omega

theorem ok_bind {α β : Type} (a : α) (f : α → Except Fault β) : (Except.ok a >>= f) = f a := rfl

def store (b : Bytes) (i : Nat) (c : UInt8) : Except Fault Bytes := Copy.store .outOfBounds b i c

/-! ## The functions -/

/-- `TXT(data, datalen, size)`. -/
def ofData (data : Bytes) (datalen size : Nat) : Except Fault Txt := do
  let size := if size ≤ datalen then add32 datalen 256 / 256 * 256 else size
  let b ← writeBlock (newChar size) 0 (strncpyBytes data datalen)
  let b ← store b datalen 0
  .ok { buffer := b, bufsiz := size, endptr := datalen }

/-- The first part of `expand`. -/
def grow (t : Txt) (amount : Nat) : Except Fault Txt :=
  if t.bufsiz ≤ add32 t.endptr amount then do
    let newsz := add32 (add32 t.endptr amount) 2048 / 2048 * 2048
    let old ← readBlock t.buffer 0 (add32 t.endptr 1)
    let b ← writeBlock (newChar newsz) 0 old
    .ok { t with buffer := b, bufsiz := newsz }
  else .ok t

/-- The second part, with its loop. -/
def shift (t : Txt) (offset amount : Nat) : Except Fault Txt := do
  let b ← Copy.down .outOfBounds (sub32 t.endptr offset) t.buffer t.endptr (t.endptr + amount)
  let endptr := add32 t.endptr amount
  let b ← store b endptr 0
  .ok { t with buffer := b, endptr := endptr }

def expand (t : Txt) (offset amount : Nat) : Except Fault Txt := do
  let t ← grow t amount
  shift t offset amount

def contract (t : Txt) (offset amount : Nat) : Except Fault Txt := do
  let nn := sub32 (sub32 t.endptr offset) amount
  let b ← Copy.up .outOfBounds nn t.buffer (offset + amount) offset
  let endptr := sub32 t.endptr amount
  let b ← store b endptr 0
  .ok { t with buffer := b, endptr := endptr }

/-- `insert`, and what both `operator =` and both `operator +=` do when there is room. -/
def insert (t : Txt) (offset : Nat) (str : Bytes) : Except Fault Txt := do
  let t ← expand t offset str.length
  let b ← writeBlock t.buffer offset str
  let b ← store b t.endptr 0
  .ok { t with buffer := b }

/-- The loop of `replace`, from its pass `ii` on. -/
def overwrite (offset : Nat) : Nat → Bytes → Bytes → Except Fault Bytes
  | _, [], b => .ok b
  | ii, c :: r, b => do
    let b ← store b (add32 offset ii) c
    overwrite offset (ii + 1) r b

def replace (t : Txt) (offset size : Nat) (replacement : Bytes) : Except Fault Txt := do
  let lr := (cstr replacement).length
  let t ←
    if size < lr then expand t (add32 offset size) (sub32 lr size)
    else if lr < size then contract t (add32 offset lr) (sub32 size lr)
    else .ok t
  let b ← overwrite offset 0 (replacement.take lr) t.buffer
  .ok { t with buffer := b }

/-- `find`; `none` is `npos`. -/
def find (t : Txt) (str : Bytes) : Except Fault (Option Nat) := strstr t.buffer str

def substitute (t : Txt) (placeholder replacement : Bytes) : Except Fault (Bool × Txt) := do
  match ← strstr t.buffer placeholder with
  | none => .ok (false, t)
  | some offset => .ok (true, ← replace t offset (cstr placeholder).length replacement)

/-- The calls of a `TXT`. -/
inductive Call where
  | op (o : Txt.Op)
  | find (str : Bytes)
  deriving DecidableEq

def applyOp (t : Txt) : Txt.Op → Except Fault Txt
  | .assignCStr src => insert { t with endptr := 0 } 0 (strncpyBytes src (cstr src).length)
  | .assignString src => insert { t with endptr := 0 } 0 (strncpyBytes src src.length)
  | .appendCStr src => insert t t.endptr (strncpyBytes src (cstr src).length)
  | .appendString src => insert t t.endptr src
  | .insert offset str len => insert t offset (str.take (if len = 0 then (cstr str).length else len))
  | .replace offset size replacement => replace t offset size replacement
  | .substitute placeholder replacement => return (← substitute t placeholder replacement).2
  | .substituteString placeholder replacement => return (← substitute t placeholder replacement).2
  | .substituteInt placeholder value => return (← substitute t placeholder (ascii (toString value))).2

def Call.apply (t : Txt) : Call → Except Fault Txt
  | Call.op o => applyOp t o
  | .find str => do
    let _ ← TxtLoops.find t str
    .ok t

/-- Offsets and lengths are those of the text, and the text stays short enough. -/
def Call.Fits (x : Bytes) : Call → Prop
  | Call.op o =>
    (match o with
      | .insert offset str len => offset ≤ x.length ∧ len ≤ str.length
      | .replace offset size _ => offset + size ≤ x.length
      | _ => True) ∧ (o.text x).length < 2 ^ 32 - 2048
  | .find _ => True

instance (x : Bytes) : (c : Call) → Decidable (c.Fits x)
  | .op (.insert _ _ _) => inferInstanceAs (Decidable ((_ ∧ _) ∧ _))
  | .op (.replace _ _ _) => inferInstanceAs (Decidable (_ ∧ _))
  | .op (.assignCStr _) | .op (.assignString _) | .op (.appendCStr _) | .op (.appendString _)
  | .op (.substitute _ _) | .op (.substituteString _ _) | .op (.substituteInt _ _) =>
    inferInstanceAs (Decidable (True ∧ _))
  | .find _ => isTrue trivial

/-! ## Each is the function on blocks -/

theorem store_eq {b : Bytes} {i : Nat} (c : UInt8) : store b i c = writeBlock b i [c] := by
  rw [store, Copy.store, writeBlock, List.length_singleton]
  by_cases h : i < b.length
  · rw [if_pos h, if_pos (show i + 1 ≤ b.length from h), List.set_eq_take_append_cons_drop, if_pos h,
      List.append_assoc]
    rfl
  · rw [if_neg h, if_neg (show ¬ i + 1 ≤ b.length from h)]

/-- What is read from one place and written to another is moved. -/
theorem moved_eq (b : Bytes) (src dst n : Nat) (hs : src + n ≤ b.length) (hd : dst + n ≤ b.length) :
    readBlock b src n = .ok ((b.drop src).take n) ∧
      writeBlock b dst ((b.drop src).take n) = .ok (Copy.moved b src dst n) := by
  have hlen : ((b.drop src).take n).length = n := by
    rw [List.length_take, List.length_drop]
    omega
  rw [readBlock, if_pos hs, writeBlock, hlen, if_pos hd, Copy.moved, List.append_assoc]
  exact ⟨rfl, rfl⟩

theorem grow_eq {t : Txt} {amount : Nat} (h : t.endptr + amount < 2 ^ 32 - 2048) :
    grow t amount = Txt.grow t amount := by
  rw [grow, Txt.grow, add32_eq (show t.endptr + amount < 2 ^ 32 by omega), add32_eq (by omega), add32_eq (by omega)]

theorem shift_eq {t : Txt} {offset amount : Nat} (ho : offset ≤ t.endptr) (hr : t.endptr + amount < t.buffer.length)
    (h : t.endptr + amount < 2 ^ 32) : shift t offset amount = Txt.shift t offset amount := by
  obtain ⟨hread, hwrite⟩ := moved_eq t.buffer offset (offset + amount) (t.endptr - offset)
    (by omega) (by omega)
  have hdown := Copy.down_eq Fault.outOfBounds (t.endptr - offset) (l := t.buffer) (Nat.le_add_right offset amount)
    (by omega)
  rw [show offset + (t.endptr - offset) = t.endptr by omega,
    show offset + amount + (t.endptr - offset) = t.endptr + amount by omega] at hdown
  rw [shift, Txt.shift, sub32_eq (by omega) ho, add32_eq h, hdown]
  simp only [ok_bind, hread, hwrite, store_eq]

/-- **`expand` in a text that stays short enough.** -/
theorem expand_eq {t : Txt} {a b : Bytes} (h : Room t (a ++ b)) {amount : Nat}
    (hlen : (a ++ b).length + amount < 2 ^ 32 - 2048) : expand t a.length amount = Txt.expand t a.length amount := by
  have hend := h.endptr
  obtain ⟨t1, hgrow, h1, hroom⟩ := Txt.grow_room h amount
  have hend1 := h1.endptr
  have hsize1 := h1.size
  rw [expand, Txt.expand_eq, grow_eq (by omega), hgrow, ok_bind, Except.bind]
  rw [List.length_append] at hend1 hlen
  exact shift_eq (by omega) (by omega) (by omega)

theorem contract_eq {t : Txt} {a m b : Bytes} (h : Holds t (a ++ (m ++ b))) (hlen : (a ++ (m ++ b)).length < 2 ^ 32) :
    contract t a.length m.length = Txt.contract t a.length m.length := by
  have hend := h.endptr
  have hsize := h.size
  have hin := h.owned.inside
  simp only [List.length_append] at hend hlen
  obtain ⟨hread, hwrite⟩ := moved_eq t.buffer (a.length + m.length) a.length
    (t.endptr - a.length - m.length) (by omega) (by omega)
  have hup := Copy.up_eq Fault.outOfBounds (t.endptr - a.length - m.length) (l := t.buffer)
    (Nat.le_add_right a.length m.length) (by omega)
  have hoff : sub32 t.endptr a.length = t.endptr - a.length := sub32_eq (by omega) (by omega)
  rw [contract, Txt.contract, hoff, sub32_eq (by omega) (by omega), sub32_eq (by omega) (by omega), hup]
  simp only [ok_bind, hread, hwrite, store_eq]

theorem insert_eq {t : Txt} {a b : Bytes} (h : Room t (a ++ b)) {str : Bytes}
    (hlen : (a ++ b).length + str.length < 2 ^ 32 - 2048) : insert t a.length str = Txt.insert t a.length str := by
  rw [insert, Txt.insert, expand_eq h hlen]
  simp only [store_eq]

/-- The loop of `replace` writes the replacement as one block. -/
theorem overwrite_eq (offset : Nat) : ∀ (r b : Bytes) (ii : Nat), offset + ii + r.length ≤ b.length →
    offset + ii + r.length < 2 ^ 32 → overwrite offset ii r b = writeBlock b (offset + ii) r
  | [], b, ii, h, _ => by
    rw [overwrite, writeBlock, if_pos h, List.append_nil]
    exact congrArg Except.ok (List.take_append_drop _ b).symm
  | c :: r, b, ii, h, h32 => by
    rw [List.length_cons] at h h32
    have hlt : offset + ii < b.length := by omega
    rw [overwrite, add32_eq (by omega), store, Copy.store_ok _ hlt, ok_bind,
      overwrite_eq offset r _ (ii + 1) (by rw [List.length_set]; omega) (by omega), writeBlock, writeBlock,
      if_pos (by rw [List.length_set]; omega), if_pos (by rw [List.length_cons]; omega), ← Nat.add_assoc,
      List.take_add_one, List.take_set_of_le (Nat.le_refl _), List.getElem?_set_self hlt,
      List.drop_set_of_lt (by omega), List.length_cons]
    congr 1
    rw [show offset + ii + 1 + r.length = offset + ii + (r.length + 1) by omega]
    simp

theorem replace_eq {t : Txt} {a m b : Bytes} (h : Holds t (a ++ (m ++ b))) {r : Bytes}
    (hx : (a ++ (m ++ b)).length < 2 ^ 32) (hlen : (a ++ (cstr r ++ b)).length < 2 ^ 32 - 2048) :
    replace t a.length m.length r = Txt.replace t a.length m.length r := by
  have htake : r.take (cstr r).length = cstr r := (List.prefix_iff_eq_take.1 (cstr_begins r)).symm
  have hwrite : ∀ {t1 : Txt} {x : Bytes}, Holds t1 x → a.length + (cstr r).length ≤ x.length →
      overwrite a.length 0 (cstr r) t1.buffer = writeBlock t1.buffer a.length (cstr r) := fun h1 hle => by
    have hend := h1.endptr
    have hsize := h1.size
    have hin := h1.owned.inside
    simp only [List.length_append] at hlen
    exact overwrite_eq a.length (cstr r) _ 0 (by omega) (by omega)
  have hsum := hlen
  simp only [List.length_append] at hsum
  unfold replace Txt.replace
  simp only [htake]
  by_cases hlong : m.length < (cstr r).length
  · rw [if_pos hlong, if_pos hlong]
    rw [← List.append_assoc] at h
    rw [← List.append_assoc, List.length_append, List.length_append] at hx
    rw [add32_eq (by omega), sub32_eq (by omega) (by omega), ← List.length_append,
      expand_eq h.room (by simp only [List.length_append]; omega)]
    obtain ⟨t1, gap, he, hgap, h1⟩ := Txt.expand_holds h.room ((cstr r).length - m.length)
    rw [he, ok_bind, ok_bind, hwrite h1 (by simp only [List.length_append]; omega)]
  · rw [if_neg hlong, if_neg hlong]
    by_cases hshort : (cstr r).length < m.length
    · rw [if_pos hshort, if_pos hshort]
      obtain ⟨front, back, rfl, hfront⟩ := exists_front (Nat.le_of_lt hshort)
      rw [List.append_assoc, ← List.append_assoc a] at h hx
      have hx' := hx
      simp only [List.length_append] at hx'
      obtain ⟨t1, he, h1⟩ := Txt.contract_holds h
      rw [@List.length_append _ front, add32_eq (by omega), sub32_eq (by omega) (by omega), ← hfront,
        Nat.add_sub_cancel_left, ← List.length_append, contract_eq h hx, he, ok_bind, ok_bind,
        hwrite h1 (by simp only [List.length_append]; omega)]
    · rw [if_neg hshort, if_neg hshort, ok_bind, ok_bind, hwrite h (by simp only [List.length_append]; omega)]

/-! ## Every call -/

theorem insert_holds {t : Txt} {a b : Bytes} (h : Room t (a ++ b)) (str : Bytes)
    (hlen : (a ++ (str ++ b)).length < 2 ^ 32 - 2048) :
    ∃ t', insert t a.length str = .ok t' ∧ Holds t' (a ++ (str ++ b)) := by
  rw [insert_eq h (by simp only [List.length_append] at hlen ⊢; omega)]
  exact Txt.insert_holds h str

theorem substitute_eq {t : Txt} {x : Bytes} (h : Holds t x) (hx : x.length < 2 ^ 32) {placeholder r : Bytes}
    (hlen : (Txt.after x (cstr placeholder) (cstr r)).length < 2 ^ 32 - 2048) :
    substitute t placeholder r = Txt.substitute t placeholder r := by
  unfold substitute Txt.substitute
  rw [Txt.strstr_holds h, ok_bind, ok_bind]
  rw [Txt.after] at hlen
  cases hf : Txt.found x (cstr placeholder) with
  | none => rfl
  | some i =>
    rw [hf] at hlen
    obtain ⟨a, b, rfl, rfl⟩ := find_split (Option.eq_some_of_filter_eq_some hf)
    simp only [List.append_assoc, Txt.replaced_eq] at h hx hlen
    simp only
    rw [replace_eq h hx hlen]

/-- **A call on a buffer that has a text.** -/
theorem applyOp_holds {t : Txt} {x : Bytes} (h : Holds t x) (hx : x.length < 2 ^ 32) {o : Txt.Op}
    (hfits : (Call.op o).Fits x) : ∃ t', applyOp t o = .ok t' ∧ Holds t' (o.text x) := by
  have hassign (bs : Bytes) (hlen : bs.length < 2 ^ 32 - 2048) :
      ∃ t', insert { t with endptr := 0 } 0 bs = .ok t' ∧ Holds t' bs := by
    obtain ⟨t', hi, h'⟩ := insert_holds h.cleared bs (by rw [List.nil_append, List.append_nil]; exact hlen)
    rw [List.nil_append, List.append_nil] at h'
    exact ⟨t', hi, h'⟩
  have happend (bs : Bytes) (hlen : (x ++ bs).length < 2 ^ 32 - 2048) :
      ∃ t', insert t t.endptr bs = .ok t' ∧ Holds t' (x ++ bs) := by
    obtain ⟨t', hi, h'⟩ := insert_holds (a := x) (b := []) (by rw [List.append_nil]; exact h.room) bs
      (by rw [List.append_nil]; exact hlen)
    rw [List.append_nil] at h'
    rw [h.endptr]
    exact ⟨t', hi, h'⟩
  have hsubst (placeholder r : Bytes)
      (hlen : (Txt.after x (cstr placeholder) (cstr r)).length < 2 ^ 32 - 2048) :
      ∃ t', (do return (← substitute t placeholder r).2 : Except Fault Txt) = .ok t' ∧
        Holds t' (Txt.after x (cstr placeholder) (cstr r)) := by
    obtain ⟨res, hs, h'⟩ := Txt.substitute_holds h placeholder r
    exact ⟨res.2, by rw [substitute_eq h hx hlen, hs]; rfl, h'⟩
  obtain ⟨hin, hlen⟩ := hfits
  cases o with
  | assignCStr src =>
    obtain ⟨t', hi, h'⟩ := hassign (strncpyBytes src (cstr src).length) (by rw [Txt.strncpyBytes_cstr]; exact hlen)
    rw [Txt.strncpyBytes_cstr] at h'
    exact ⟨t', hi, h'⟩
  | assignString src => exact hassign (Txt.strncpied src) hlen
  | appendCStr src =>
    obtain ⟨t', hi, h'⟩ := happend (strncpyBytes src (cstr src).length) (by rw [Txt.strncpyBytes_cstr]; exact hlen)
    rw [Txt.strncpyBytes_cstr] at h'
    exact ⟨t', hi, h'⟩
  | appendString src => exact happend src hlen
  | insert offset str len =>
    obtain ⟨a, b, rfl, rfl⟩ := exists_front hin.1
    have hrep : (Txt.Op.insert a.length str len).text (a ++ b) =
        a ++ (str.take (if len = 0 then (cstr str).length else len) ++ b) := Txt.replaced_eq a [] b _
    rw [hrep] at hlen ⊢
    exact insert_holds h.room _ hlen
  | replace offset size r =>
    have hle : offset + size ≤ x.length := hin
    obtain ⟨a, l, rfl, rfl⟩ := exists_front (Nat.le_of_add_right_le hle)
    rw [List.length_append] at hle
    obtain ⟨m, b, rfl, rfl⟩ := exists_front (l := l) (n := size) (by omega)
    have hrep : (Txt.Op.replace a.length m.length r).text (a ++ (m ++ b)) = a ++ (cstr r ++ b) :=
      Txt.replaced_eq a m b _
    rw [hrep] at hlen ⊢
    obtain ⟨t', hr, h'⟩ := Txt.replace_holds h r
    exact ⟨t', (replace_eq h hx hlen).trans hr, h'⟩
  | substitute placeholder r => exact hsubst placeholder r hlen
  | substituteString placeholder r => exact hsubst placeholder r hlen
  | substituteInt placeholder value => exact hsubst placeholder (ascii (toString value)) hlen

/-- What the class keeps, with an offset that is a `uint32_t`. -/
def Kept (s : Except Fault Txt) : Prop := ∃ t, s = .ok t ∧ t.Owned ∧ t.endptr < 2 ^ 32

/-- A call in a run. -/
def step (s : Except Fault Txt) (c : Call) : Except Fault Txt := s.bind fun t => c.apply t

def Fits (s : Except Fault Txt) (c : Call) : Prop := ∃ t, s = .ok t ∧ c.Fits t.text

instance (s : Except Fault Txt) (c : Call) : Decidable (Fits s c) :=
  match s with
  | .ok t => decidable_of_iff (c.Fits t.text) ⟨fun h => ⟨t, rfl, h⟩, fun ⟨_, ht, h⟩ => by cases ht; exact h⟩
  | .error _ => isFalse fun ⟨_, ht, _⟩ => nomatch ht

theorem Kept.step {s : Except Fault Txt} (k : Kept s) {c : Call} (hfits : Fits s c) : Kept (step s c) := by
  obtain ⟨t, rfl, howned, hend⟩ := k
  obtain ⟨t2, ht, hc⟩ := hfits
  cases ht
  have h := howned.holds
  have hx : t.text.length < 2 ^ 32 := by
    rw [Txt.length_text howned]
    exact hend
  cases c with
  | op o =>
    obtain ⟨t', ho, h'⟩ := applyOp_holds h hx hc
    refine ⟨t', ho, h'.owned, ?_⟩
    rw [h'.endptr]
    exact Nat.lt_of_lt_of_le hc.2 (by decide)
  | find str =>
    refine ⟨t, ?_, howned, hend⟩
    show ((do let _ ← strstr t.buffer str; Except.ok t) : Except Fault Txt) = .ok t
    rw [Txt.strstr_holds h, ok_bind]

/-- The constructor from data, with every byte in the buffer. -/
theorem ofData_owned (data : Bytes) {datalen : Nat} (h : datalen < 2 ^ 32 - 2048) (size : Nat) :
    Kept (ofData data datalen size) := by
  obtain ⟨t, ht, ho⟩ := Txt.ofData_holds data datalen size
  have heq : ofData data datalen size = Txt.ofData data datalen size := by
    rw [ofData, Txt.ofData, add32_eq (by omega)]
    simp only [store_eq]
  refine ⟨t, heq.trans ht, ho.owned, ?_⟩
  rw [ho.endptr, Txt.length_strncpyBytes]
  omega

/-- **A `TXT` with a buffer keeps its NUL inside it, and no byte is ever read or written outside**: in every run of
calls whose text stays below 2^32 - 2048 bytes, from the constructors and from every object that has it so. -/
theorem runs_owned :
    (∀ n, 0 < n → (Txt.ofSize n).Owned) ∧
    (∀ (data : Bytes) (datalen size : Nat), datalen < 2 ^ 32 - 2048 →
      ∃ t, ofData data datalen size = .ok t ∧ t.Owned) ∧
    ∀ t : Txt, t.Owned → t.bufsiz < 2 ^ 32 → ∀ s, Reach (.ok t) step Fits s → ∃ t', s = .ok t' ∧ t'.Owned := by
  refine ⟨fun n hn => ?_, fun data datalen size h => ?_, fun t ht hsize s hr => ?_⟩
  · rcases Txt.ofSize_good n with ⟨t, ht, h⟩ | h
    · cases ht
      exact h.owned
    · have hsize : n = 0 := congrArg Txt.bufsiz (Except.ok.inj (Prod.ext_iff.1 h).1)
      omega
  · obtain ⟨t, ht, howned, -⟩ := ofData_owned data h size
    exact ⟨t, ht, howned⟩
  · have hstart : Kept (.ok t) := ⟨t, rfl, ht, Nat.lt_trans ht.inside hsize⟩
    obtain ⟨t', ht', howned, -⟩ := History.inv_of_reach hstart (fun _ _ k hf => k.step hf) hr
    exact ⟨t', ht', howned⟩

/-- From a buffer of 4 bytes: a text that fills it, a longer one, and parts put in, taken out and replaced. -/
def someCalls : List Call :=
  [.op (.assignCStr (ascii "abc")), .op (.appendString (ascii "d")), .op (.insert 1 (ascii "-+") 0),
    .op (.replace 0 4 (ascii "?")), .find (ascii "c"), .op (.substitute (ascii "c") (ascii "xyz"))]

theorem runs_owned_calls : ∃ t', someCalls.foldl step (.ok (Txt.ofSize 4)) = .ok t' ∧ t'.Owned :=
  runs_owned.2.2 (Txt.ofSize 4) (runs_owned.1 4 (by decide)) (by decide) _
    (History.reach_along someCalls _ .init (by decide +kernel))

end TxtLoops
end Pico
