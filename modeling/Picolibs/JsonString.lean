import Mathlib.Data.List.Pairwise
import Mathlib.Logic.Function.Basic
import Picolibs.Loop
import Picolibs.Txt
/-!
# JsonString — strings that may point into a JSON document (`jsonstring.cpp`)

An object points nowhere, into the data buffer of a parsed document (`buflen_` negative) or to a block of the heap of
its own (`buflen_` positive).  `Mem` is the memory the objects share: the data buffer, the blocks, freed or not, and
the objects.  Reads and writes are checked, so an access outside an array or to a freed block is a fault.

What `tiny-json` makes of a document is its `Doc`: every scalar property has a slot of the buffer with its value, ended
by a NUL, and different slots do not overlap.
-/
namespace Pico
namespace JsonString

open History (Reach)
open Text (cstr)
open Txt (readBlock writeBlock newChar strncpyBytes)

/-- A C string with the value `v` stands at an offset of an array. -/
def TextAt (b : Bytes) (off : Nat) (v : Bytes) : Prop :=
  0 ∉ v ∧ ∃ front rest, b = front ++ (v ++ 0 :: rest) ∧ front.length = off

/-- A parsed document: the offset and the size of the value of each scalar property. -/
structure Doc where
  buffer : Bytes
  slots : List (Nat × Nat)
  text : ∀ s ∈ slots, ∃ v, TextAt buffer s.1 v ∧ v.length + 1 = s.2
  apart : slots.Pairwise fun s s' => s.1 + s.2 ≤ s'.1 ∨ s'.1 + s'.2 ≤ s.1

inductive Ptr where
  | json (off : Nat)
  | heap (block : Nat)
  deriving DecidableEq

structure JSONString where
  string : Option Ptr := none
  buflen : Int := 0
  deriving DecidableEq

structure Mem where
  json : Bytes
  heap : List (Option Bytes) := []
  objs : Nat → JSONString := fun _ => {}
  -- how many objects there are
  count : Nat := 0

namespace Mem

def put (m : Mem) (i : Nat) (o : JSONString) : Mem := { m with objs := Function.update m.objs i o }

/-- The bytes from a pointer on. -/
def read (m : Mem) : Ptr → Except Fault Bytes
  | .json off => if off ≤ m.json.length then .ok (m.json.drop off) else .error .outOfBounds
  | .heap b =>
    match m.heap[b]? with
    | some (some buf) => .ok buf
    | _ => .error .dangling

def write (m : Mem) (p : Ptr) (bs : Bytes) : Except Fault Mem :=
  match p with
  | .json off => do
    let json ← writeBlock m.json off bs
    .ok { m with json := json }
  | .heap b => do
    let buf ← m.read (.heap b)
    let buf ← writeBlock buf 0 bs
    .ok { m with heap := m.heap.set b (some buf) }

/-- `new char[n]`. -/
def new (m : Mem) (n : Nat) : Mem × Ptr := ({ m with heap := m.heap ++ [some (newChar n)] }, .heap m.heap.length)

/-- `delete []`. -/
def delete (m : Mem) : Ptr → Except Fault Mem
  | .json _ => .error .dangling
  | .heap b => do
    let _ ← m.read (.heap b)
    .ok { m with heap := m.heap.set b none }

/-- The C string at a pointer. -/
def cstrAt (m : Mem) (p : Ptr) : Except Fault Bytes := do
  let b ← m.read p
  if b.contains 0 then .ok (cstr b) else .error .outOfBounds

/-- `str()`. -/
def str (m : Mem) (i : Nat) : Except Fault Bytes :=
  match (m.objs i).string with
  | none => .ok []
  | some p => m.cstrAt p

/-- The size of a block for a string. -/
def blockSize (ll : Nat) : Nat := (ll + 32) / 32 * 32

/-- `clear`. -/
def clear (m : Mem) (i : Nat) : Except Fault Mem :=
  match (m.objs i).string with
  | some p =>
    if 0 < (m.objs i).buflen then do
      let m ← m.delete p
      .ok (m.put i {})
    else .ok (m.put i {})
  | none => .ok (m.put i {})

/-- `operator =` with another object, or the same. -/
def assign (m : Mem) (i j : Nat) : Except Fault Mem := do
  let m ← m.clear i
  let other := m.objs j
  if 0 < other.buflen then
    match other.string with
    | none => .error .outOfBounds
    | some p =>
      let (m, q) := m.new other.buflen.toNat
      let src ← m.read p
      let bs ← readBlock src 0 other.buflen.toNat
      let m ← m.write q bs
      .ok (m.put i ⟨some q, other.buflen⟩)
  else .ok (m.put i other)

/-- `JSONString()`. -/
def default (m : Mem) : Mem := { m with count := m.count + 1 }

/-- `JSONString(string)`, of a null pointer or what is readable from a pointer on; as much as the block has is
copied. -/
def construct (m : Mem) (string : Option Bytes) : Except Fault Mem := do
  let src := string.getD [0]
  let buflen := blockSize (cstr src).length
  let (m', q) := m.default.new buflen
  let bs ← readBlock src 0 buflen
  let m' ← m'.write q bs
  .ok (m'.put m.count ⟨some q, buflen⟩)

/-- `JSONString(other)`. -/
def copy (m : Mem) (j : Nat) : Except Fault Mem := m.default.assign m.count j

/-- `operator =` with a property: a scalar one, or null, an array or an object. -/
def assignJson (D : Doc) (m : Mem) (i : Nat) (property : Option Nat) : Except Fault Mem := do
  let m ← m.clear i
  match property.bind (D.slots[·]?) with
  | none => .ok m
  | some slot =>
    let js ← m.cstrAt (.json slot.1)
    .ok (m.put i ⟨some (.json slot.1), -(js.length + 1 : Int)⟩)

/-- `operator =` with a string: what is done while the object has room of its own, in the document or on the heap. -/
def overwrite (m : Mem) (i : Nat) (string : Bytes) (room : Int) : Except Fault Mem :=
  if (string.length : Int) < room then
    match (m.objs i).string with
    | none => .error .outOfBounds
    | some p => m.write p (strncpyBytes string room.toNat)
  else m.clear i

def overwriteJson (m : Mem) (i : Nat) (string : Bytes) : Except Fault Mem :=
  if (m.objs i).buflen < 0 then m.overwrite i string (-(m.objs i).buflen) else .ok m

def overwriteHeap (m : Mem) (i : Nat) (string : Bytes) : Except Fault Mem :=
  if 0 < (m.objs i).buflen then m.overwrite i string (m.objs i).buflen else .ok m

/-- What is done when the object points nowhere, then. -/
def allocate (m : Mem) (i : Nat) (string : Bytes) : Except Fault Mem :=
  if (m.objs i).buflen = 0 ∧ 0 < string.length then do
    let (m, q) := m.new (blockSize string.length)
    let m ← m.write q (strncpyBytes string (blockSize string.length))
    .ok (m.put i ⟨some q, blockSize string.length⟩)
  else .ok m

def assignCStr (m : Mem) (i : Nat) (string : Bytes) : Except Fault Mem := do
  let m ← m.overwriteJson i (cstr string)
  let m ← m.overwriteHeap i (cstr string)
  m.allocate i (cstr string)

end Mem

inductive Op where
  | default
  | construct (string : Option Bytes)
  | copy (j : Nat)
  | assign (i j : Nat)
  | assignJson (i : Nat) (property : Option Nat)
  | assignCStr (i : Nat) (string : Bytes)
  | clear (i : Nat)

def Op.apply (D : Doc) (m : Mem) : Op → Except Fault Mem
  | .default => .ok m.default
  | .construct string => m.construct string
  | .copy j => m.copy j
  | .assign i j => m.assign i j
  | .assignJson i property => m.assignJson D i property
  | .assignCStr i string => m.assignCStr i string
  | .clear i => m.clear i

/-! ## The values -/

/-- The value that `json_getValue` gives at this time. -/
def Doc.value (D : Doc) (m : Mem) (property : Option Nat) : Bytes :=
  match property.bind (D.slots[·]?) with
  | none => []
  | some slot => cstr (m.json.drop slot.1)

/-- The values that the objects were last given. -/
abbrev Values := Nat → Bytes

def Op.give (D : Doc) (m : Mem) (vs : Values) : Op → Values
  | .default => Function.update vs m.count []
  | .construct string => Function.update vs m.count (cstr (string.getD [0]))
  | .copy j => Function.update vs m.count (vs j)
  | .assign i j => Function.update vs i (vs j)
  | .assignJson i property => Function.update vs i (D.value m property)
  | .assignCStr i string => Function.update vs i (cstr string)
  | .clear i => Function.update vs i []

/-- The object that an operation changes. -/
def Op.target (m : Mem) : Op → Nat
  | .default => m.count
  | .construct _ => m.count
  | .copy _ => m.count
  | .assign i _ => i
  | .assignJson i _ => i
  | .assignCStr i _ => i
  | .clear i => i

/-- Objects, properties and C strings are there. -/
def Op.Inside (D : Doc) (m : Mem) : Op → Prop
  | .default => True
  | .construct string => ∀ s ∈ string, 0 ∈ s
  | .copy j => j < m.count
  | .assign i j => i < m.count ∧ j < m.count
  | .assignJson i property => i < m.count ∧ ∀ k ∈ property, k < D.slots.length
  | .assignCStr i _ => i < m.count
  | .clear i => i < m.count

/-- Nothing is read behind a string that is copied; an object with a value is not assigned to itself; and where a
string overwrites a value in the document, the other objects that refer to it have that value already. -/
def Op.Fine (m : Mem) (vs : Values) : Op → Prop
  | .construct string => Mem.blockSize (cstr (string.getD [0])).length ≤ (string.getD [0]).length
  | .assign i j => i = j → vs i = []
  | .assignCStr i string => (m.objs i).buflen < 0 → ((cstr string).length : Int) < -(m.objs i).buflen →
      ∀ k < m.count, k ≠ i → (m.objs k).string = (m.objs i).string → vs k = cstr string
  | _ => True

instance (D : Doc) (m : Mem) : (op : Op) → Decidable (op.Inside D m)
  | .default => inferInstanceAs (Decidable True)
  | .construct string => inferInstanceAs (Decidable (∀ s ∈ string, 0 ∈ s))
  | .copy _ => inferInstanceAs (Decidable (_ < _))
  | .assign _ _ => inferInstanceAs (Decidable (_ ∧ _))
  | .assignJson i property => inferInstanceAs (Decidable (i < m.count ∧ ∀ k ∈ property, k < D.slots.length))
  | .assignCStr _ _ => inferInstanceAs (Decidable (_ < _))
  | .clear _ => inferInstanceAs (Decidable (_ < _))

instance (m : Mem) (vs : Values) : (op : Op) → Decidable (op.Fine m vs)
  | .construct _ => inferInstanceAs (Decidable (_ ≤ _))
  | .assign i j => inferInstanceAs (Decidable (i = j → vs i = []))
  | .assignCStr i string => inferInstanceAs (Decidable ((m.objs i).buflen < 0 →
      ((cstr string).length : Int) < -(m.objs i).buflen →
        ∀ k < m.count, k ≠ i → (m.objs k).string = (m.objs i).string → vs k = cstr string))
  | .default | .copy _ | .assignJson _ _ | .clear _ => isTrue trivial

/-! ## A C string in an array -/

theorem TextAt.cstr_eq {b : Bytes} {off : Nat} {v : Bytes} (h : TextAt b off v) : cstr (b.drop off) = v := by
  obtain ⟨h0, front, rest, rfl, rfl⟩ := h
  rw [List.drop_left, Text.cstr_append_nul, Text.cstr_eq_self_iff.2 h0]

theorem TextAt.contains {b : Bytes} {off : Nat} {v : Bytes} (h : TextAt b off v) : (b.drop off).contains 0 = true := by
  obtain ⟨-, front, rest, rfl, rfl⟩ := h
  rw [List.drop_left]
  simp

theorem TextAt.lt {b : Bytes} {off : Nat} {v : Bytes} (h : TextAt b off v) : off + v.length < b.length := by
  obtain ⟨-, front, rest, rfl, rfl⟩ := h
  simp only [List.length_append, List.length_cons]
  omega

theorem writeBlock_eq {b b' bs : Bytes} {o : Nat} (h : writeBlock b o bs = .ok b') :
    o + bs.length ≤ b.length ∧ b' = b.take o ++ (bs ++ b.drop (o + bs.length)) := by
  unfold Txt.writeBlock at h
  split at h
  · next hle =>
    cases h
    exact ⟨hle, List.append_assoc _ _ _⟩
  · cases h

/-- Another part of the array is written. -/
theorem TextAt.write {b b' bs v : Bytes} {off o : Nat} (h : TextAt b off v) (hw : writeBlock b o bs = .ok b')
    (hd : off + v.length < o ∨ o + bs.length ≤ off) : TextAt b' off v := by
  obtain ⟨hle, rfl⟩ := writeBlock_eq hw
  obtain ⟨h0, front, rest, rfl, rfl⟩ := h
  refine ⟨h0, ?_⟩
  rcases hd with hd | hd
  · simp only [List.length_append, List.length_cons] at hle
    obtain ⟨near, far, rfl, hnear⟩ := Txt.exists_front (l := rest) (n := o - front.length - v.length - 1) (by omega)
    have ho : (front ++ (v ++ 0 :: near)).length = o := by
      simp only [List.length_append, List.length_cons]
      omega
    refine ⟨front, near ++ (bs ++ (front ++ (v ++ 0 :: (near ++ far))).drop (o + bs.length)), ?_, rfl⟩
    rw [show front ++ (v ++ 0 :: (near ++ far)) = front ++ (v ++ 0 :: near) ++ far by simp, List.take_left' ho]
    simp
  · obtain ⟨near, far, rfl, hnear⟩ := Txt.exists_front hd
    refine ⟨(near ++ far ++ (v ++ 0 :: rest)).take o ++ (bs ++ far), rest, ?_, ?_⟩
    · rw [List.append_assoc near, List.drop_left' hnear]
      simp only [List.append_assoc]
    · simp only [List.length_append, List.length_take] at hle hd ⊢
      omega

theorem strncpyBytes_eq {v : Bytes} {n : Nat} (h0 : 0 ∉ v) (hlt : v.length < n) :
    strncpyBytes v n = v ++ 0 :: List.replicate (n - v.length - 1) 0 := by
  have hself : (v.take n).takeWhile (· ≠ 0) = v := by
    rw [List.take_of_length_le (Nat.le_of_lt hlt)]
    exact Text.cstr_eq_self_iff.2 h0
  rw [strncpyBytes, hself, ← List.replicate_succ, show n - v.length - 1 + 1 = n - v.length by omega]

/-- The text itself is overwritten. -/
theorem textAt_strncpy {b b' v : Bytes} {off n : Nat} (h0 : 0 ∉ v) (hlt : v.length < n)
    (hw : writeBlock b off (strncpyBytes v n) = .ok b') : TextAt b' off v := by
  obtain ⟨hle, rfl⟩ := writeBlock_eq hw
  rw [Txt.length_strncpyBytes] at hle
  refine ⟨h0, b.take off, List.replicate (n - v.length - 1) 0 ++ b.drop (off + (strncpyBytes v n).length), ?_, ?_⟩
  · rw [strncpyBytes_eq h0 hlt]
    simp
  · rw [List.length_take]
    omega

/-! ## What an object shows -/

variable {D : Doc} {m m' : Mem} {vs : Values} {o : JSONString} {v : Bytes} {i j : Nat}

/-- The three modes of an object, and the value it shows. -/
inductive Shows (D : Doc) (m : Mem) : JSONString → Bytes → Prop where
  | unset : Shows D m {} []
  | json {slot : Nat × Nat} {n : Nat} {v : Bytes} (hs : slot ∈ D.slots) (hn : n ≤ slot.2) (hv : v.length < n)
      (ht : TextAt m.json slot.1 v) : Shows D m ⟨some (.json slot.1), -(n : Int)⟩ v
  | heap {b : Nat} {buf v : Bytes} (hb : m.heap[b]? = some (some buf)) (ht : TextAt buf 0 v) :
      Shows D m ⟨some (.heap b), buf.length⟩ v

/-- Every object shows its value, no two have the same block, and every slot has a value. -/
structure Good (D : Doc) (m : Mem) (vs : Values) : Prop where
  shows : ∀ i, Shows D m (m.objs i) (vs i)
  own : ∀ i k b, (m.objs i).string = some (.heap b) → (m.objs k).string = some (.heap b) → i = k
  fresh : ∀ i, m.count ≤ i → m.objs i = {}
  slots : ∀ slot ∈ D.slots, ∃ v, TextAt m.json slot.1 v ∧ v.length < slot.2
  size : m.json.length = D.buffer.length

theorem Shows.str (h : Shows D m (m.objs i) v) : m.str i = .ok v := by
  unfold Mem.str
  generalize m.objs i = o at h
  cases h with
  | unset => rfl
  | json hs hn hv ht =>
    have hlt := ht.lt
    simp only [Mem.cstrAt, Mem.read, bind, Except.bind]
    rw [if_pos (by omega)]
    simp only
    rw [if_pos ht.contains, ht.cstr_eq]
  | heap hb ht =>
    have hc := ht.contains
    have he := ht.cstr_eq
    rw [List.drop_zero] at hc he
    simp only [Mem.cstrAt, Mem.read, bind, Except.bind, hb]
    rw [if_pos hc, he]

/-- What an object refers to is as it was. -/
theorem Shows.frame (h : Shows D m o v)
    (hj : ∀ off, o.string = some (.json off) → TextAt m.json off v → TextAt m'.json off v)
    (hh : ∀ b, o.string = some (.heap b) → m'.heap[b]? = m.heap[b]?) : Shows D m' o v := by
  cases h with
  | unset => exact .unset
  | json hs hn hv ht => exact .json hs hn hv (hj _ rfl ht)
  | heap hb ht => exact .heap ((hh _ rfl).trans hb) ht

/-- One object is changed, and the others show what they showed. -/
theorem Shows.put (hs : Shows D m o v) (hrest : ∀ k ≠ i, Shows D m (m.objs k) (vs k)) (k : Nat) :
    Shows D (m.put i o) ((m.put i o).objs k) (Function.update vs i v k) := by
  by_cases hk : k = i
  · subst hk
    simp only [Mem.put, Function.update_self]
    exact hs.frame (fun _ _ h => h) (fun _ _ => rfl)
  · simp only [Mem.put, Function.update_of_ne hk]
    exact (hrest k hk).frame (fun _ _ h => h) (fun _ _ => rfl)

theorem Shows.block_lt {b : Nat} (h : Shows D m o v) (hb : o.string = some (.heap b)) : b < m.heap.length := by
  cases h with
  | unset => cases hb
  | json hs hn hv ht => cases hb
  | heap hb' ht =>
    cases hb
    exact (List.getElem?_eq_some_iff.1 hb').1

/-! ## The parts of an operation -/

theorem Good.default (g : Good D m vs) : Good D m.default vs where
  shows i := (g.shows i).frame (fun _ _ h => h) (fun _ _ => rfl)
  own := g.own
  fresh i hi := g.fresh i (Nat.le_of_succ_le hi)
  slots := g.slots
  size := g.size

/-- An object that points nowhere is made to point to what is there. -/
theorem Good.point (g : Good D m vs) (hi : i < m.count) (hs : Shows D m o v)
    (hno : ∀ b k, o.string = some (.heap b) → (m.objs k).string = some (.heap b) → i = k) :
    Good D (m.put i o) (Function.update vs i v) where
  shows := hs.put fun k _ => g.shows k
  own k l b hk hl := by
    simp only [Mem.put] at hk hl
    by_cases hki : k = i
    · subst hki
      by_cases hli : l = k
      · exact hli.symm
      · rw [Function.update_self] at hk
        rw [Function.update_of_ne hli] at hl
        exact hno b l hk hl
    · rw [Function.update_of_ne hki] at hk
      by_cases hli : l = i
      · subst hli
        rw [Function.update_self] at hl
        exact (hno b k hl hk).symm
      · rw [Function.update_of_ne hli] at hl
        exact g.own k l b hk hl
  fresh k hk := by
    have hne : k ≠ i := fun e => Nat.not_lt.2 hk (e ▸ hi)
    simp only [Mem.put, Function.update_of_ne hne]
    exact g.fresh k hk
  slots := g.slots
  size := g.size

/-- A block that no object but `i` has is replaced or freed. -/
theorem Good.setBlock (g : Good D m vs) (hi : i < m.count) {b : Nat} {c : Option Bytes}
    (hb : (m.objs i).string = some (.heap b)) (hs : Shows D { m with heap := m.heap.set b c } o v)
    (ho : o.string = some (.heap b) ∨ o.string = none) :
    Good D (Mem.put { m with heap := m.heap.set b c } i o) (Function.update vs i v) where
  shows := by
    refine hs.put fun k hk => (g.shows k).frame (fun _ _ h => h) fun b' hb' => ?_
    have hne : b ≠ b' := fun e => hk (g.own k i b' hb' (e ▸ hb))
    exact List.getElem?_set_ne hne
  own k l b' hk hl := by
    simp only [Mem.put] at hk hl
    have hsub {k : Nat} (h : (Function.update m.objs i o k).string = some (.heap b')) :
        (m.objs k).string = some (.heap b') := by
      by_cases hki : k = i
      · subst hki
        rw [Function.update_self] at h
        rcases ho with ho | ho
        · rw [hb, ← ho, h]
        · rw [ho] at h
          cases h
      · rwa [Function.update_of_ne hki] at h
    exact g.own k l b' (hsub hk) (hsub hl)
  fresh k hk := by
    have hne : k ≠ i := fun e => Nat.not_lt.2 hk (e ▸ hi)
    simp only [Mem.put, Function.update_of_ne hne]
    exact g.fresh k hk
  slots := g.slots
  size := g.size

theorem read_heap {b : Nat} {buf : Bytes} (hb : m.heap[b]? = some (some buf)) : m.read (.heap b) = .ok buf := by
  simp only [Mem.read, hb]

/-- **`clear` leaves the others as they are**, and the document. -/
theorem Good.clear (g : Good D m vs) (hi : i < m.count) :
    ∃ m', m.clear i = .ok m' ∧ Good D m' (Function.update vs i []) ∧ m'.objs = Function.update m.objs i {} ∧
      m'.json = m.json ∧ m'.count = m.count := by
  have hs := g.shows i
  unfold Mem.clear
  generalize ho : m.objs i = o, vs i = w at hs
  cases hs with
  | unset =>
    exact ⟨_, rfl, g.point hi .unset (fun _ _ h => by cases h), rfl, rfl, rfl⟩
  | @json slot n v hs hn hv ht =>
    dsimp only
    rw [if_neg (by omega)]
    exact ⟨_, rfl, g.point hi .unset (fun _ _ h => by cases h), rfl, rfl, rfl⟩
  | @heap b buf v hb ht =>
    have hpos := ht.lt
    dsimp only
    rw [if_pos (by omega)]
    simp only [Mem.delete, read_heap hb, bind, Except.bind]
    exact ⟨_, rfl, g.setBlock hi (by rw [ho]) .unset (Or.inr rfl), rfl, rfl, rfl⟩

/-- A new block with a string in it, for an object that points nowhere. -/
theorem Good.alloc (g : Good D m vs) (hi : i < m.count) {bs : Bytes} (ht : TextAt bs 0 v) :
    ∃ m', (m.new bs.length).1.write (m.new bs.length).2 bs = .ok m' ∧ m'.json = m.json ∧ m'.count = m.count ∧
      Good D (m'.put i ⟨some (m.new bs.length).2, bs.length⟩) (Function.update vs i v) := by
  have hnew : (newChar bs.length).length = bs.length := List.length_replicate
  have hread : Mem.read (m.new bs.length).1 (.heap m.heap.length) = .ok (newChar bs.length) := by
    refine read_heap ?_
    show (m.heap ++ [some (newChar bs.length)])[m.heap.length]? = _
    rw [List.getElem?_append_right (Nat.le_refl _), Nat.sub_self]
    rfl
  have hwrite : writeBlock (newChar bs.length) 0 bs = .ok bs := by
    rw [writeBlock, if_pos (by rw [hnew, Nat.zero_add]), List.take_zero, Nat.zero_add,
      List.drop_of_length_le (by rw [hnew]), List.nil_append, List.append_nil]
  have hheap : (m.heap ++ [some (newChar bs.length)]).set m.heap.length (some bs) = m.heap ++ [some bs] := by
    rw [List.set_append_right _ _ (Nat.le_refl _), Nat.sub_self]
    rfl
  -- the memory with the block, before the object has it
  have g1 : Good D { m with heap := m.heap ++ [some bs] } vs :=
    ⟨fun k => (g.shows k).frame (fun _ _ h => h)
      (fun b hb => List.getElem?_append_left ((g.shows k).block_lt hb)), g.own, g.fresh, g.slots, g.size⟩
  have hs : Shows D { m with heap := m.heap ++ [some bs] } ⟨some (.heap m.heap.length), bs.length⟩ v := by
    refine .heap ?_ ht
    rw [List.getElem?_append_right (Nat.le_refl _), Nat.sub_self]
    rfl
  refine ⟨{ m with heap := m.heap ++ [some bs] }, ?_, rfl, rfl, g1.point hi hs fun b k hb hk => ?_⟩
  · show Mem.write (m.new bs.length).1 (.heap m.heap.length) bs = _
    simp only [Mem.write, hread, hwrite, bind, Except.bind]
    rw [← hheap]
    rfl
  · cases hb
    exact absurd ((g.shows k).block_lt hk) (Nat.lt_irrefl _)

theorem update_twice (vs : Values) (i : Nat) (v w : Bytes) :
    Function.update (Function.update vs i v) i w = Function.update vs i w := Function.update_idem ..

/-- **`operator =` of objects**: an object that is assigned to itself is cleared. -/
theorem Good.assign (g : Good D m vs) (hi : i < m.count) (j : Nat) :
    ∃ m', m.assign i j = .ok m' ∧ m'.json = m.json ∧ m'.count = m.count ∧
      Good D m' (Function.update vs i (if i = j then [] else vs j)) := by
  obtain ⟨m1, hc, g1, hobjs, hjson, hcount⟩ := g.clear hi
  unfold Mem.assign
  simp only [hc, bind, Except.bind]
  have hs := g1.shows j
  have hv : Function.update vs i [] j = if i = j then [] else vs j := by
    by_cases hij : i = j
    · rw [if_pos hij, hij, Function.update_self]
    · rw [if_neg hij, Function.update_of_ne (Ne.symm hij)]
  rw [hv] at hs
  generalize hw : (if i = j then [] else vs j) = w at hs ⊢
  rw [← update_twice vs i [] w]
  rw [← hcount] at hi
  generalize hoj : m1.objs j = o at hs
  cases hs with
  | unset => exact ⟨_, rfl, hjson, hcount, g1.point hi .unset (fun _ _ h => by cases h)⟩
  | @json slot n w hs hn hv ht =>
    dsimp only
    rw [if_neg (by omega)]
    exact ⟨_, rfl, hjson, hcount, g1.point hi (.json hs hn hv ht) (fun _ _ h => by cases h)⟩
  | @heap b buf w hb ht =>
    have hpos := ht.lt
    have hread : (m1.new buf.length).1.read (.heap b) = .ok buf := by
      refine read_heap ?_
      rw [← hb]
      exact List.getElem?_append_left ((List.getElem?_eq_some_iff.1 hb).1)
    have hblock : readBlock buf 0 buf.length = .ok buf := by
      rw [readBlock, if_pos (by omega), List.drop_zero, List.take_length]
    obtain ⟨m2, hwrite, hjson2, hcount2, g2⟩ := g1.alloc hi ht
    dsimp only
    rw [if_pos (by omega)]
    simp only [Int.toNat_natCast, hread, hblock, hwrite]
    exact ⟨_, rfl, hjson2.trans hjson, hcount2.trans hcount, g2⟩

/-! ## The operations -/

theorem cstr_split : ∀ {s : Bytes}, 0 ∈ s → ∃ rest, s = cstr s ++ 0 :: rest
  | c :: s, h => by
    by_cases hc : c = 0
    · exact ⟨s, by rw [hc]; rfl⟩
    · obtain ⟨rest, hr⟩ := cstr_split (List.mem_of_ne_of_mem (Ne.symm hc) h)
      have hcons : cstr (c :: s) = c :: cstr s := List.takeWhile_cons_of_pos (by simpa using hc)
      refine ⟨rest, ?_⟩
      rw [hcons, List.cons_append, ← hr]

theorem textAt_zero {s : Bytes} (h : 0 ∈ s) {n : Nat} (hn : (cstr s).length < n) : TextAt (s.take n) 0 (cstr s) := by
  obtain ⟨rest, hr⟩ := cstr_split h
  refine ⟨Text.nul_not_mem_cstr s, [], rest.take (n - (cstr s).length - 1), ?_, rfl⟩
  conv_lhs => rw [hr]
  rw [List.take_append, List.take_of_length_le (Nat.le_of_lt hn), show n - (cstr s).length =
    n - (cstr s).length - 1 + 1 by omega, List.take_succ_cons]
  rfl

theorem lt_blockSize (ll : Nat) : ll < Mem.blockSize ll := by
  unfold Mem.blockSize
  omega

/-- **A string is copied** if there is as much to copy as the block has. -/
theorem Good.construct (g : Good D m vs) {string : Option Bytes} (h0 : ∀ s ∈ string, 0 ∈ s)
    (hf : Mem.blockSize (cstr (string.getD [0])).length ≤ (string.getD [0]).length) :
    ∃ m', m.construct string = .ok m' ∧ m'.json = m.json ∧
      Good D m' (Function.update vs m.count (cstr (string.getD [0]))) := by
  have hmem : 0 ∈ string.getD [0] := by
    cases string with
    | none => exact List.mem_singleton_self 0
    | some s => exact h0 s rfl
  unfold Mem.construct
  simp only
  generalize string.getD [0] = src at hf hmem ⊢
  have hlen : (src.take (Mem.blockSize (cstr src).length)).length = Mem.blockSize (cstr src).length :=
    List.length_take_of_le hf
  have hread : readBlock src 0 (Mem.blockSize (cstr src).length) =
      .ok (src.take (Mem.blockSize (cstr src).length)) := by
    rw [readBlock, if_pos (by omega), List.drop_zero]
  obtain ⟨m2, hwrite, hjson, -, g2⟩ := g.default.alloc (i := m.count) (Nat.lt_succ_self _)
    (textAt_zero hmem (lt_blockSize (cstr src).length))
  rw [hlen] at hwrite g2
  simp only [hread, hwrite, bind, Except.bind]
  exact ⟨_, rfl, hjson, g2⟩

theorem construct_short {string : Option Bytes}
    (hf : ¬ Mem.blockSize (cstr (string.getD [0])).length ≤ (string.getD [0]).length) :
    m.construct string = .error .outOfBounds := by
  unfold Mem.construct
  simp only
  rw [readBlock, if_neg (by rwa [Nat.zero_add])]
  rfl

theorem Good.value_eq (g : Good D m vs) {slot : Nat × Nat} (hs : slot ∈ D.slots) :
    ∃ v, TextAt m.json slot.1 v ∧ v.length < slot.2 ∧ m.cstrAt (.json slot.1) = .ok v ∧
      cstr (m.json.drop slot.1) = v := by
  obtain ⟨v, ht, hv⟩ := g.slots slot hs
  have hlt := ht.lt
  refine ⟨v, ht, hv, ?_, ht.cstr_eq⟩
  simp only [Mem.cstrAt, Mem.read, bind, Except.bind]
  rw [if_pos (by omega)]
  simp only
  rw [if_pos ht.contains, ht.cstr_eq]

/-- **A property is referred to.** -/
theorem Good.assignJson (g : Good D m vs) (hi : i < m.count) (property : Option Nat) :
    ∃ m', m.assignJson D i property = .ok m' ∧ m'.json = m.json ∧
      Good D m' (Function.update vs i (D.value m property)) := by
  obtain ⟨m1, hc, g1, hobjs, hjson, hcount⟩ := g.clear hi
  unfold Mem.assignJson Doc.value
  simp only [hc, bind, Except.bind]
  cases hslot : property.bind (D.slots[·]?) with
  | none => exact ⟨m1, rfl, hjson, g1⟩
  | some slot =>
    obtain ⟨k, -, hk⟩ := Option.bind_eq_some_iff.1 hslot
    have hs : slot ∈ D.slots := List.mem_of_getElem? hk
    obtain ⟨v, ht, hv, hat, hval⟩ := g1.value_eq hs
    simp only [hat]
    rw [← hjson, hval, ← update_twice vs i []]
    refine ⟨_, rfl, rfl, g1.point (hcount ▸ hi) ?_ (fun _ _ h => by cases h)⟩
    have hn := Shows.json hs (Nat.succ_le_of_lt hv) (Nat.lt_succ_self _) ht
    rwa [Nat.succ_eq_add_one, Int.natCast_add, Int.natCast_one] at hn

/-- A string for an object that points nowhere. -/
theorem Good.allocate (g : Good D m vs) (hi : i < m.count) (ho : m.objs i = {}) {w : Bytes} (h0 : 0 ∉ w) :
    ∃ m', m.allocate i w = .ok m' ∧ m'.json = m.json ∧ Good D m' (Function.update vs i w) := by
  unfold Mem.allocate
  cases w with
  | nil =>
    have hv : vs i = [] := by
      have hs := g.shows i
      rw [ho] at hs
      generalize vs i = v at hs
      cases hs
      rfl
    rw [if_neg (fun h => absurd h.2 (Nat.lt_irrefl 0)), ← hv, Function.update_eq_self]
    exact ⟨m, rfl, rfl, g⟩
  | cons c w =>
    have hlt := lt_blockSize (c :: w).length
    have ht : TextAt (strncpyBytes (c :: w) (Mem.blockSize (c :: w).length)) 0 (c :: w) :=
      ⟨h0, [], _, strncpyBytes_eq h0 hlt, rfl⟩
    obtain ⟨m2, hwrite, hjson, -, g2⟩ := g.alloc hi ht
    rw [Txt.length_strncpyBytes] at hwrite g2
    rw [if_pos ⟨by rw [ho], Nat.succ_pos _⟩]
    simp only [hwrite, bind, Except.bind]
    exact ⟨_, rfl, hjson, g2⟩

/-- What does not fit is put into a new block. -/
theorem Good.replaced (g : Good D m vs) (hi : i < m.count) {w : Bytes} (h0 : 0 ∉ w) :
    ∃ m1 m', m.clear i = .ok m1 ∧ m1.objs i = {} ∧ m1.allocate i w = .ok m' ∧ m'.json = m.json ∧
      Good D m' (Function.update vs i w) := by
  obtain ⟨m1, hc, g1, hobjs, hjson, hcount⟩ := g.clear hi
  have ho : m1.objs i = {} := by rw [hobjs, Function.update_self]
  obtain ⟨m2, ha, hjson2, g2⟩ := g1.allocate (hcount ▸ hi) ho h0
  rw [update_twice] at g2
  exact ⟨m1, m2, hc, ho, ha, hjson2.trans hjson, g2⟩

/-- The slots are apart, and inside the buffer. -/
theorem Doc.apart_of_ne (D : Doc) {s s' : Nat × Nat} (hs : s ∈ D.slots) (hs' : s' ∈ D.slots) (hne : s ≠ s') :
    s.1 + s.2 ≤ s'.1 ∨ s'.1 + s'.2 ≤ s.1 := by
  have hsymm : Std.Symm fun s s' : Nat × Nat => s.1 + s.2 ≤ s'.1 ∨ s'.1 + s'.2 ≤ s.1 := ⟨fun _ _ h => h.symm⟩
  exact D.apart.forall hs hs' hne

theorem Doc.slot_pos (D : Doc) {s : Nat × Nat} (hs : s ∈ D.slots) : 0 < s.2 ∧ s.1 + s.2 ≤ D.buffer.length := by
  obtain ⟨v, ht, hv⟩ := D.text s hs
  have := ht.lt
  omega

theorem Doc.slot_inj (D : Doc) {s s' : Nat × Nat} (hs : s ∈ D.slots) (hs' : s' ∈ D.slots) (h : s.1 = s'.1) :
    s = s' := by
  by_contra hne
  have h1 := D.apart_of_ne hs hs' hne
  have h2 := D.slot_pos hs
  have h3 := D.slot_pos hs'
  omega

/-- The bytes of the document that a string that is assigned may overwrite. -/
def InSlot (D : Doc) (m : Mem) (i pos : Nat) : Prop :=
  ∃ slot ∈ D.slots, (m.objs i).string = some (.json slot.1) ∧ slot.1 ≤ pos ∧ pos < slot.1 + slot.2

/-- The string `w` was put into a slot of the document: objects that do not refer to it show what they did. -/
structure InPlace (D : Doc) (m : Mem) (vs : Values) (slot : Nat × Nat) (w : Bytes) (m' : Mem) : Prop where
  objs : m'.objs = m.objs
  count : m'.count = m.count
  text : TextAt m'.json slot.1 w
  shows : ∀ k, (m.objs k).string ≠ some (.json slot.1) → Shows D m' (m.objs k) (vs k)
  slots : ∀ slot' ∈ D.slots, ∃ v, TextAt m'.json slot'.1 v ∧ v.length < slot'.2
  size : m'.json.length = m.json.length
  spared : ∀ pos, ¬ (slot.1 ≤ pos ∧ pos < slot.1 + slot.2) → m'.json[pos]? = m.json[pos]?

/-- A value in the document is overwritten in place. -/
theorem Good.inPlace (g : Good D m vs) {slot : Nat × Nat} {n : Nat} (hs : slot ∈ D.slots) (hn : n ≤ slot.2)
    {w : Bytes} (h0 : 0 ∉ w) (hlt : w.length < n) :
    ∃ m', m.write (.json slot.1) (strncpyBytes w n) = .ok m' ∧ InPlace D m vs slot w m' := by
  have hsize := (D.slot_pos hs).2
  rw [← g.size] at hsize
  have hlen := Txt.length_strncpyBytes w n
  obtain ⟨b', hw⟩ : ∃ b', writeBlock m.json slot.1 (strncpyBytes w n) = .ok b' :=
    ⟨_, if_pos (by rw [hlen]; omega)⟩
  have ht := textAt_strncpy h0 hlt hw
  -- the text of another slot is not touched
  have hother {slot' : Nat × Nat} (hs' : slot' ∈ D.slots) (hne : slot'.1 ≠ slot.1) {v : Bytes}
      (hv : v.length < slot'.2) (ht' : TextAt m.json slot'.1 v) : TextAt b' slot'.1 v := by
    have hap := D.apart_of_ne hs' hs (fun e => hne (congrArg Prod.fst e))
    exact ht'.write hw (by rw [hlen]; omega)
  obtain ⟨hle, hb'⟩ := writeBlock_eq hw
  refine ⟨{ m with json := b' }, ?_, rfl, rfl, ht, fun k hk => ?_, fun slot' hs' => ?_, ?_, fun pos hpos => ?_⟩
  · simp only [Mem.write, hw, bind, Except.bind]
  · have hshow := g.shows k
    generalize m.objs k = o, vs k = v at hshow hk
    cases hshow with
    | unset => exact .unset
    | json hs' hn' hv ht' =>
      exact .json hs' hn' hv (hother hs' (fun e => hk (by rw [← e])) (Nat.lt_of_lt_of_le hv hn') ht')
    | heap hb ht' => exact .heap hb ht'
  · by_cases hne : slot'.1 = slot.1
    · rw [D.slot_inj hs' hs hne]
      exact ⟨w, ht, Nat.lt_of_lt_of_le hlt hn⟩
    · obtain ⟨v, ht', hv⟩ := g.slots slot' hs'
      exact ⟨v, hother hs' hne hv ht', hv⟩
  · show b'.length = m.json.length
    rw [hb']
    simp only [List.length_append, List.length_take, List.length_drop]
    omega
  · show b'[pos]? = m.json[pos]?
    rw [hb']
    by_cases hp : pos < slot.1
    · rw [List.getElem?_append_left (by rw [List.length_take]; omega), List.getElem?_take_of_lt hp]
    · have htake : (m.json.take slot.1).length = slot.1 := List.length_take_of_le (by omega)
      rw [List.getElem?_append_right (by omega), List.getElem?_append_right (by omega), List.getElem?_drop, htake, hlen,
        show slot.1 + n + (pos - slot.1 - n) = pos by omega]

/-- An object that refers to the document, and the others that refer to the same slot have the string already. -/
theorem Good.overwritten (g : Good D m vs) {slot : Nat × Nat} {n : Nat} (hs : slot ∈ D.slots)
    (ho : m.objs i = ⟨some (.json slot.1), -(n : Int)⟩) {w : Bytes} (hlt : w.length < n)
    (hf : ∀ k < m.count, k ≠ i → (m.objs k).string = some (.json slot.1) → vs k = w) (hp : InPlace D m vs slot w m') :
    Good D m' (Function.update vs i w) := by
  have hstring : (m.objs i).string = some (.json slot.1) := by rw [ho]
  refine ⟨fun k => ?_, by rw [hp.objs]; exact g.own, by rw [hp.objs, hp.count]; exact g.fresh, hp.slots,
    hp.size.trans g.size⟩
  rw [hp.objs]
  by_cases hk : (m.objs k).string = some (.json slot.1)
  · -- an object that refers to the same slot
    have hval : Function.update vs i w k = w := by
      by_cases hki : k = i
      · rw [hki, Function.update_self]
      · rw [Function.update_of_ne hki]
        refine hf k (Nat.lt_of_not_le fun hc => ?_) hki hk
        rw [g.fresh k hc] at hk
        cases hk
    rw [hval]
    have hsk := g.shows k
    generalize hok : m.objs k = o, hvk : vs k = v at hsk
    rw [hok] at hk
    cases hsk with
    | unset => cases hk
    | heap hb ht' => cases hk
    | @json slot' n' v hs' hn' hv' ht' =>
      have heq : slot'.1 = slot.1 := Ptr.json.inj (Option.some.inj hk)
      rw [D.slot_inj hs' hs heq] at hn' ⊢
      refine .json hs hn' ?_ hp.text
      by_cases hki : k = i
      · rw [hki, ho] at hok
        have hbuf : -(n : Int) = -(n' : Int) := congrArg JSONString.buflen hok
        omega
      · rw [Function.update_of_ne hki, hvk] at hval
        rw [← hval]
        exact hv'
  · have hki : k ≠ i := fun e => hk (by rw [e, hstring])
    rw [Function.update_of_ne hki]
    exact hp.shows k hk

/-- What `operator =` with a string comes to. -/
structure Assigned (D : Doc) (m m' : Mem) (vs : Values) (i : Nat) (string : Bytes) : Prop where
  fine : Op.Fine m vs (.assignCStr i string) → Good D m' (Function.update vs i (cstr string))
  spoils : ¬ Op.Fine m vs (.assignCStr i string) → ∃ k, m'.str k ≠ .ok (Function.update vs i (cstr string) k)
  spared : ∀ pos, ¬ InSlot D m i pos → m'.json[pos]? = m.json[pos]?

/-- Outside the document nothing is shared. -/
theorem assigned_of_good {string : Bytes} (g' : Good D m' (Function.update vs i (cstr string)))
    (hjson : m'.json = m.json) (hf : Op.Fine m vs (.assignCStr i string)) : Assigned D m m' vs i string :=
  ⟨fun _ => g', fun hn => absurd hf hn, fun _ _ => by rw [hjson]⟩

theorem str_json {slot : Nat × Nat} (hk : (m.objs i).string = some (.json slot.1)) (ht : TextAt m.json slot.1 v) :
    m.str i = .ok v := by
  have hlt := ht.lt
  simp only [Mem.str, hk, Mem.cstrAt, Mem.read, bind, Except.bind]
  rw [if_pos (by omega)]
  simp only
  rw [if_pos ht.contains, ht.cstr_eq]

/-- The object has a block. -/
theorem Good.assignHeap (g : Good D m vs) (hi : i < m.count) (string : Bytes) {b : Nat} {buf : Bytes}
    (ho : m.objs i = ⟨some (.heap b), buf.length⟩) (hb : m.heap[b]? = some (some buf)) (hpos : 0 < buf.length) :
    ∃ m', m.assignCStr i string = .ok m' ∧ Assigned D m m' vs i string := by
  have h0 : 0 ∉ cstr string := Text.nul_not_mem_cstr string
  unfold Mem.assignCStr
  have hfine : Op.Fine m vs (.assignCStr i string) := fun hneg => by
    rw [ho] at hneg
    have hneg : (buf.length : Int) < 0 := hneg
    omega
  have hjson : m.overwriteJson i (cstr string) = .ok m := by
    rw [Mem.overwriteJson, ho, if_neg (by dsimp only; omega)]
  simp only [hjson, bind, Except.bind]
  by_cases hfit : (cstr string).length < buf.length
  · -- it is put into the block
    have hbs := Txt.length_strncpyBytes (cstr string) buf.length
    have hwrite : m.write (.heap b) (strncpyBytes (cstr string) buf.length) =
        .ok { m with heap := m.heap.set b (some (strncpyBytes (cstr string) buf.length)) } := by
      have hblock : writeBlock buf 0 (strncpyBytes (cstr string) buf.length) =
          .ok (strncpyBytes (cstr string) buf.length) := by
        rw [writeBlock, if_pos (by omega), List.take_zero, List.drop_of_length_le (by omega), List.nil_append,
          List.append_nil]
      simp only [Mem.write, read_heap hb, hblock, bind, Except.bind]
    have hover : m.overwriteHeap i (cstr string) =
        .ok { m with heap := m.heap.set b (some (strncpyBytes (cstr string) buf.length)) } := by
      rw [Mem.overwriteHeap, Mem.overwrite, ho, if_pos (by dsimp only; omega), if_pos (by dsimp only; omega)]
      exact hwrite
    have hno : Mem.allocate { m with heap := m.heap.set b (some (strncpyBytes (cstr string) buf.length)) } i
        (cstr string) = .ok { m with heap := m.heap.set b (some (strncpyBytes (cstr string) buf.length)) } := by
      rw [Mem.allocate, if_neg]
      rintro ⟨hz, -⟩
      dsimp only at hz
      rw [ho] at hz
      dsimp only at hz
      omega
    have hshow : Shows D { m with heap := m.heap.set b (some (strncpyBytes (cstr string) buf.length)) }
        ⟨some (.heap b), (strncpyBytes (cstr string) buf.length).length⟩ (cstr string) := by
      refine .heap ?_ ⟨h0, [], _, strncpyBytes_eq h0 hfit, rfl⟩
      exact List.getElem?_set_self (List.getElem?_eq_some_iff.1 hb).1
    rw [hbs, ← ho] at hshow
    have g' := g.setBlock hi (by rw [ho]) hshow (Or.inl (by rw [ho]))
    simp only [hover, hno]
    refine ⟨_, rfl, assigned_of_good ?_ rfl hfine⟩
    rwa [Mem.put, Function.update_eq_self] at g'
  · obtain ⟨m1, m', hc, ho1, ha, hj, g'⟩ := g.replaced hi h0
    have hover : m.overwriteHeap i (cstr string) = .ok m1 := by
      rw [Mem.overwriteHeap, Mem.overwrite, ho, if_pos (by dsimp only; omega), if_neg (by dsimp only; omega)]
      exact hc
    simp only [hover]
    exact ⟨m', ha, assigned_of_good g' hj hfine⟩

/-- The object refers to the document. -/
theorem Good.assignInJson (g : Good D m vs) (hi : i < m.count) (string : Bytes) {slot : Nat × Nat} {n : Nat}
    (ho : m.objs i = ⟨some (.json slot.1), -(n : Int)⟩) (hs : slot ∈ D.slots) (hn : n ≤ slot.2) (hpos : 0 < n) :
    ∃ m', m.assignCStr i string = .ok m' ∧ Assigned D m m' vs i string := by
  have h0 : 0 ∉ cstr string := Text.nul_not_mem_cstr string
  have hstring : (m.objs i).string = some (.json slot.1) := by rw [ho]
  unfold Mem.assignCStr
  by_cases hfit : (cstr string).length < n
  · obtain ⟨m1, hw, hp⟩ := g.inPlace hs hn h0 hfit
    have hover : m.overwriteJson i (cstr string) = .ok m1 := by
      rw [Mem.overwriteJson, Mem.overwrite, ho, if_pos (by dsimp only; omega), if_pos (by dsimp only; omega)]
      dsimp only
      rw [Int.neg_neg, Int.toNat_natCast]
      exact hw
    have hheap : m1.overwriteHeap i (cstr string) = .ok m1 := by
      rw [Mem.overwriteHeap, hp.objs, ho, if_neg (by dsimp only; omega)]
    have hno : m1.allocate i (cstr string) = .ok m1 := by
      rw [Mem.allocate, hp.objs, ho, if_neg (by dsimp only; omega)]
    simp only [hover, hheap, hno, bind, Except.bind]
    have hfine : Op.Fine m vs (.assignCStr i string) ↔
        ∀ k < m.count, k ≠ i → (m.objs k).string = some (.json slot.1) → vs k = cstr string := by
      have hneg : (m.objs i).buflen < 0 := by
        rw [ho]
        dsimp only
        omega
      have hlt : ((cstr string).length : Int) < -(m.objs i).buflen := by
        rw [ho]
        dsimp only
        omega
      rw [← hstring]
      exact ⟨fun h => h hneg hlt, fun h _ _ => h⟩
    refine ⟨m1, rfl, fun hf => g.overwritten hs ho hfit (hfine.1 hf) hp, fun hf => ?_,
      fun pos hpos' => hp.spared pos fun h => hpos' ⟨slot, hs, hstring, h⟩⟩
    rw [hfine] at hf
    simp only [not_forall] at hf
    obtain ⟨k, -, hki, hk, hne⟩ := hf
    refine ⟨k, ?_⟩
    rw [str_json (by rw [hp.objs]; exact hk) hp.text, Function.update_of_ne hki]
    exact fun h => hne (Except.ok.inj h).symm
  · obtain ⟨m1, m', hc, ho1, ha, hj, g'⟩ := g.replaced hi h0
    have hover : m.overwriteJson i (cstr string) = .ok m1 := by
      rw [Mem.overwriteJson, Mem.overwrite, ho, if_pos (by dsimp only; omega), if_neg (by dsimp only; omega)]
      exact hc
    have hheap : m1.overwriteHeap i (cstr string) = .ok m1 := by
      rw [Mem.overwriteHeap, ho1]
      rfl
    simp only [hover, hheap, bind, Except.bind]
    refine ⟨m', ha, assigned_of_good g' hj fun _ hlt => ?_⟩
    rw [ho] at hlt
    dsimp only at hlt
    omega

theorem Good.assignCStr (g : Good D m vs) (hi : i < m.count) (string : Bytes) :
    ∃ m', m.assignCStr i string = .ok m' ∧ Assigned D m m' vs i string := by
  have h0 : 0 ∉ cstr string := Text.nul_not_mem_cstr string
  have hs := g.shows i
  generalize ho : m.objs i = o, hv : vs i = v at hs
  cases hs with
  | unset =>
    have hjson : m.overwriteJson i (cstr string) = .ok m := by
      rw [Mem.overwriteJson, ho]
      rfl
    have hheap : m.overwriteHeap i (cstr string) = .ok m := by
      rw [Mem.overwriteHeap, ho]
      rfl
    obtain ⟨m', ha, hj, g'⟩ := g.allocate hi ho h0
    refine ⟨m', ?_, assigned_of_good g' hj fun hneg => ?_⟩
    · unfold Mem.assignCStr
      simp only [hjson, hheap, bind, Except.bind]
      exact ha
    rw [ho] at hneg
    exact absurd hneg (Int.lt_irrefl 0)
  | @heap b buf v hb ht => exact g.assignHeap hi string ho hb (Nat.lt_of_le_of_lt (Nat.zero_le _) ht.lt)
  | @json slot n v hs hn hv' ht => exact g.assignInJson hi string ho hs hn (Nat.lt_of_le_of_lt (Nat.zero_le _) hv')

/-! ## Every run -/

/-- The memory, and the values that the objects were given. -/
abbrev State := Except Fault Mem × Values

/-- Before the first object. -/
def start (D : Doc) : State := (.ok { json := D.buffer }, fun _ => [])

def step (D : Doc) (s : State) (op : Op) : State :=
  match s.1 with
  | .ok m => (op.apply D m, op.give D m s.2)
  | .error f => (.error f, s.2)

/-- Every object gives its value. -/
def Gives (s : State) : Prop := ∃ m, s.1 = .ok m ∧ ∀ i, m.str i = .ok (s.2 i)

/-- Bytes of the document that no property of the changed object has are as they were. -/
def Spares (D : Doc) (s : State) (op : Op) : Prop :=
  ∀ m m', s.1 = .ok m → (step D s op).1 = .ok m' →
    ∀ pos, ¬ InSlot D m (op.target m) pos → m'.json[pos]? = m.json[pos]?

def Inside (D : Doc) (s : State) (op : Op) : Prop := ∃ m, s.1 = .ok m ∧ op.Inside D m

def Fine (s : State) (op : Op) : Prop := ∃ m, s.1 = .ok m ∧ op.Fine m s.2

instance decidableOk {P : Mem → Prop} [DecidablePred P] : (x : Except Fault Mem) → Decidable (∃ m, x = .ok m ∧ P m)
  | .ok m => decidable_of_iff (P m) ⟨fun h => ⟨m, rfl, h⟩, fun ⟨_, hm, h⟩ => Except.ok.inj hm ▸ h⟩
  | .error _ => isFalse fun ⟨_, hm, _⟩ => nomatch hm

instance (D : Doc) (s : State) (op : Op) : Decidable (Inside D s op ∧ Fine s op) :=
  inferInstanceAs (Decidable ((∃ m, s.1 = .ok m ∧ op.Inside D m) ∧ ∃ m, s.1 = .ok m ∧ op.Fine m s.2))

instance (D : Doc) (s : State) (op : Op) : Decidable (Inside D s op) :=
  inferInstanceAs (Decidable (∃ m, s.1 = .ok m ∧ op.Inside D m))

/-- What an operation comes to. -/
structure Done (D : Doc) (m : Mem) (vs : Values) (op : Op) : Prop where
  fine : op.Fine m vs → ∃ m', op.apply D m = .ok m' ∧ Good D m' (op.give D m vs)
  spoils : ¬ op.Fine m vs → ¬ ∃ m', op.apply D m = .ok m' ∧ ∀ i, m'.str i = .ok (op.give D m vs i)
  spared : ∀ m', op.apply D m = .ok m' → ∀ pos, ¬ InSlot D m (op.target m) pos → m'.json[pos]? = m.json[pos]?

theorem done_of_good {op : Op} (ha : op.apply D m = .ok m') (hj : m'.json = m.json)
    (g' : Good D m' (op.give D m vs)) (hf : op.Fine m vs) : Done D m vs op where
  fine _ := ⟨m', ha, g'⟩
  spoils hn := absurd hf hn
  spared m2 h2 pos _ := by
    cases ha.symm.trans h2
    rw [hj]

theorem Good.done (g : Good D m vs) {op : Op} (hin : op.Inside D m) : Done D m vs op := by
  cases op with
  | default =>
    have hv : Function.update vs m.count [] = vs := by
      have hs := g.shows m.count
      rw [g.fresh m.count (Nat.le_refl _)] at hs
      have h0 : vs m.count = [] := by
        generalize vs m.count = v at hs
        cases hs
        rfl
      rw [← h0, Function.update_eq_self]
    refine done_of_good rfl rfl ?_ trivial
    show Good D m.default (Function.update vs m.count [])
    rw [hv]
    exact g.default
  | construct string =>
    by_cases hf : Mem.blockSize (cstr (string.getD [0])).length ≤ (string.getD [0]).length
    · obtain ⟨m', ha, hj, g'⟩ := g.construct hin hf
      exact done_of_good ha hj g' hf
    · have hshort : Op.apply D m (.construct string) = .error .outOfBounds := construct_short hf
      refine ⟨fun h => absurd h hf, fun _ h => ?_, fun m' h => ?_⟩
      · obtain ⟨m', h, -⟩ := h
        cases hshort.symm.trans h
      · cases hshort.symm.trans h
  | copy j =>
    obtain ⟨m', ha, hj, -, g'⟩ := g.default.assign (i := m.count) (Nat.lt_succ_self _) j
    have hj' : j < m.count := hin
    rw [if_neg (Ne.symm (Nat.ne_of_lt hj'))] at g'
    exact done_of_good ha hj g' trivial
  | assign i j =>
    obtain ⟨m', ha, hj, -, g'⟩ := g.assign hin.1 j
    by_cases hf : Op.Fine m vs (.assign i j)
    · refine done_of_good ha hj ?_ hf
      show Good D m' (Function.update vs i (vs j))
      by_cases hij : i = j
      · rw [if_pos hij] at g'
        rw [← hij, hf hij]
        exact g'
      · rwa [if_neg hij] at g'
    · obtain ⟨hij, hne⟩ := not_forall.1 hf
      rw [if_pos hij] at g'
      refine ⟨fun h => absurd h hf, fun _ h => ?_, fun m2 h2 pos _ => ?_⟩
      · obtain ⟨m2, h2, hstr⟩ := h
        cases ha.symm.trans h2
        have hi := hstr i
        have hempty := (g'.shows i).str
        rw [Function.update_self] at hempty
        have hgive : Op.give D m vs (.assign i j) i = vs i := by
          show Function.update vs i (vs j) i = vs i
          rw [Function.update_self, ← hij]
        rw [hgive, hempty] at hi
        exact hne (Except.ok.inj hi).symm
      · cases ha.symm.trans h2
        rw [hj]
  | assignJson i property =>
    obtain ⟨m', ha, hj, g'⟩ := g.assignJson hin.1 property
    exact done_of_good ha hj g' trivial
  | assignCStr i string =>
    obtain ⟨m', ha, h⟩ := g.assignCStr hin string
    refine ⟨fun hf => ⟨m', ha, h.fine hf⟩, fun hf hall => ?_, fun m2 h2 pos hpos => ?_⟩
    · obtain ⟨m2, h2, hstr⟩ := hall
      cases ha.symm.trans h2
      obtain ⟨k, hk⟩ := h.spoils hf
      exact hk (hstr k)
    · cases ha.symm.trans h2
      exact h.spared pos hpos
  | clear i =>
    obtain ⟨m', ha, g', -, hj, -⟩ := g.clear hin
    exact done_of_good ha hj g' trivial

theorem good_start (D : Doc) : Good D { json := D.buffer } fun _ => [] where
  shows _ := .unset
  own _ _ _ h := by cases h
  fresh _ _ := rfl
  slots slot hs := by
    obtain ⟨v, ht, hv⟩ := D.text slot hs
    exact ⟨v, ht, by omega⟩
  size := rfl

/-- **A `JSONString` is a value in every run whose operations are fine**, and an operation that is not takes the value
of an object; the document is not written outside the slot of the object that is changed, in either case. -/
theorem values_kept (D : Doc) {s : State}
    (hr : Reach (start D) (step D) (fun s op => Inside D s op ∧ Fine s op) s) :
    Gives s ∧ ∀ op, Inside D s op → (Gives (step D s op) ↔ Fine s op) ∧ Spares D s op := by
  have hgood : ∃ m, s.1 = .ok m ∧ Good D m s.2 := by
    refine History.inv_of_reach (I := fun s => ∃ m, s.1 = .ok m ∧ Good D m s.2) ⟨_, rfl, good_start D⟩ ?_ hr
    rintro s op ⟨m, hm, g⟩ ⟨⟨m1, hm1, hin⟩, ⟨m2, hm2, hf⟩⟩
    cases hm.symm.trans hm1
    cases hm.symm.trans hm2
    obtain ⟨m', ha, g'⟩ := (g.done hin).fine hf
    have hstep : step D s op = (op.apply D m, op.give D m s.2) := by rw [step, hm]
    exact ⟨m', by rw [hstep]; exact ha, by rw [hstep]; exact g'⟩
  obtain ⟨m, hm, g⟩ := hgood
  refine ⟨⟨m, hm, fun i => (g.shows i).str⟩, fun op hin => ?_⟩
  obtain ⟨m1, hm1, hin⟩ := hin
  cases hm.symm.trans hm1
  have h := g.done hin
  have hstep : step D s op = (op.apply D m, op.give D m s.2) := by rw [step, hm]
  refine ⟨⟨fun hg => ?_, fun hf => ?_⟩, fun m1 m' hm1 hm' => ?_⟩
  · by_contra hn
    rw [Gives, hstep] at hg
    exact h.spoils (fun hf => hn ⟨m, hm, hf⟩) hg
  · obtain ⟨m1, hm1, hf⟩ := hf
    cases hm.symm.trans hm1
    obtain ⟨m', ha, g'⟩ := h.fine hf
    rw [Gives, hstep]
    exact ⟨m', ha, fun i => (g'.shows i).str⟩
  · cases hm.symm.trans hm1
    rw [hstep] at hm'
    exact h.spared m' hm'

/-- A buffer with two values, `xy` and `z`. -/
def twoValues : Doc where
  buffer := [120, 121, 0, 122, 0]
  slots := [(0, 3), (3, 2)]
  text s hs := by
    rw [List.mem_cons, List.mem_singleton] at hs
    rcases hs with rfl | rfl
    · exact ⟨[120, 121], ⟨by decide, [], [122, 0], rfl, rfl⟩, rfl⟩
    · exact ⟨[122], ⟨by decide, [120, 121, 0], [], rfl, rfl⟩, rfl⟩
  apart := by decide

/-- Both values are referred to, one is overwritten in place, and one is replaced by a longer string and copied. -/
def someOps : List Op :=
  [.default, .default, .assignJson 0 (some 0), .assignJson 1 (some 1), .assignCStr 0 [97], .assignCStr 1 [97, 98, 99],
    .copy 1]

theorem values_kept_ops : Gives (someOps.foldl (step twoValues) (start twoValues)) :=
  (values_kept twoValues (History.reach_along someOps _ .init (by decide +kernel))).1

/-- A copy of an object that refers to the document is a second reference, and a string that is assigned to one of the
two is seen by the other. -/
theorem copy_changed : ¬ ∀ (D : Doc) (s : State), Reach (start D) (step D) (Inside D) s → Gives s := by
  intro h
  obtain ⟨m, hm, hstr⟩ := h twoValues
    ([Op.default, .assignJson 0 (some 0), .copy 0, .assignCStr 1 [97]].foldl (step twoValues) (start twoValues))
    (History.reach_along _ _ .init (by decide +kernel))
  have hseen : ([Op.default, .assignJson 0 (some 0), .copy 0, .assignCStr 1 [97]].foldl (step twoValues)
      (start twoValues)).1.bind (fun m => m.str 0) = .ok [97] := by decide +kernel
  rw [hm] at hseen
  have hgiven : ([Op.default, .assignJson 0 (some 0), .copy 0, .assignCStr 1 [97]].foldl (step twoValues)
      (start twoValues)).2 0 = [120, 121] := by decide +kernel
  have h0 := hstr 0
  rw [hgiven] at h0
  cases hseen.symm.trans h0

end JsonString
end Pico
