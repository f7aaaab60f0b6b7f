import Mathlib.Data.List.Perm.Subperm
import Picolibs.Text
import Picolibs.Loop
/-!
# Enroll — the static tables of receivers and buttons (`ir_receiver.cpp`, `button.cpp`)

`IR_Receiver` and `Button` keep their objects in a static table by the same code: the constructor takes the next slot
where there is one, the destructor compacts the table after it has counted the object out, and the interrupt handler
goes through the table.  `construct`, `destruct` and `gpioCb` are that code, for a table of `mx` slots.

An object is its address.  A `State` has beside the table the objects that live, in the order of their construction,
each with what its constructor found; a new object is never where a live one is (`Allowed`).  The constructors switch
the edge interrupt of the object's pin on and the destructors switch it off, whoever else is on that pin; where it is
off an edge calls nobody (`edge`).
-/
namespace Pico
namespace Enroll

open History (Reach)

abbrev Addr := Nat

/-- `receivers_` and `n_rcvr_`, or `buttons_` and `n_button_`. -/
structure Table where
  slots : Option (List Addr) := none
  n : UInt32 := 0
  deriving DecidableEq, Repr

/-- The entries that count. -/
def Table.entries (t : Table) : List Addr := (t.slots.getD []).take t.n.toNat

/-- What the constructors do to the table, and whether they found room. -/
def construct (mx : UInt32) (t : Table) (this : Addr) : Except Fault (Table × Bool) :=
  let slots := t.slots.getD (List.replicate mx.toNat 0)
  let n := if t.slots.isNone then 0 else t.n
  if n < mx then
    if n.toNat < slots.length then .ok ({ slots := some (slots.set n.toNat this), n := n + 1 }, true)
    else .error .outOfBounds
  else .ok ({ slots := some slots, n := n }, false)

/-- The loop of the destructors, with `n` passes to go. -/
def compact (this : Addr) : Nat → Nat → Nat → List Addr → Except Fault (List Addr)
  | 0, _, _, slots => .ok slots
  | n + 1, ii, jj, slots =>
    match slots[ii]? with
    | none => .error .outOfBounds
    | some entry =>
      let jj := if entry = this then jj + 1 else jj
      if jj ≠ ii then
        match slots[jj]? with
        | none => .error .outOfBounds
        | some moved => compact this n (ii + 1) jj (slots.set ii moved)
      else compact this n (ii + 1) jj slots

/-- What the destructors do to the table. -/
def destruct (t : Table) (this : Addr) : Except Fault Table := do
  let n := t.n - 1
  let slots ← compact this n.toNat 0 0 (t.slots.getD [])
  .ok (if n = 0 then { slots := none, n := n } else { slots := t.slots.map fun _ => slots, n := n })

/-! ## The two classes -/

namespace IrReceiver

def mxRcvr : UInt32 := 4

def construct (t : Table) (this : Addr) : Except Fault (Table × Bool) := Enroll.construct mxRcvr t this

def destruct (t : Table) (this : Addr) : Except Fault Table := Enroll.destruct t this

end IrReceiver

namespace Button

def construct (maxButtons : UInt32) (t : Table) (this : Addr) : Except Fault (Table × Bool) :=
  Enroll.construct maxButtons t this

def destruct (t : Table) (this : Addr) : Except Fault Table := Enroll.destruct t this

end Button

/-- Which class, a button's with the build's `MAX_BUTTONS`. -/
inductive Kind where
  | irReceiver
  | button (maxButtons : UInt32)

def Kind.construct : Kind → Table → Addr → Except Fault (Table × Bool)
  | .irReceiver => IrReceiver.construct
  | .button maxButtons => Button.construct maxButtons

def Kind.destruct : Kind → Table → Addr → Except Fault Table
  | .irReceiver => IrReceiver.destruct
  | .button _ => Button.destruct

def Kind.mx : Kind → UInt32
  | .irReceiver => IrReceiver.mxRcvr
  | .button maxButtons => maxButtons

theorem Kind.construct_eq (k : Kind) : k.construct = Enroll.construct k.mx := by cases k <;> rfl

theorem Kind.destruct_eq (k : Kind) : k.destruct = Enroll.destruct := by cases k <;> rfl

/-! ## Objects that come and go -/

structure Obj where
  addr : Addr
  gpio : UInt32
  room : Bool
  deriving DecidableEq, Repr

/-- `irq` has the pins whose edge interrupt is on; `handler` says that `gpio_cb` is what it calls. -/
structure State where
  table : Table := {}
  live : List Obj := []
  irq : List UInt32 := []
  handler : Bool := false
  fault : Option Fault := none
  deriving DecidableEq

inductive Event where
  | construct (this : Addr) (gpio : UInt32)
  | destruct (this : Addr)

def State.addrs (s : State) : List Addr := s.live.map Obj.addr

/-- The pin of an object. -/
def State.gpioOf (s : State) (this : Addr) : Option UInt32 := (s.live.find? fun o => o.addr == this).map Obj.gpio

/-- A construction: the pin's interrupt is switched on, for `gpio_cb` when the table has one object then. -/
def State.constructed (s : State) (this : Addr) (gpio : UInt32) (r : Table × Bool) : State :=
  { s with
    table := r.1, live := s.live ++ [{ addr := this, gpio := gpio, room := r.2 }], irq := gpio :: s.irq
    handler := s.handler || r.1.n == 1 }

/-- A destruction: the pin's interrupt is switched off. -/
def State.destructed (s : State) (this : Addr) (t : Table) : State :=
  { s with
    table := t, live := s.live.filter fun o => o.addr != this, irq := s.irq.filter fun g => s.gpioOf this != some g }

def step (k : Kind) (s : State) (e : Event) : State :=
  if s.fault.isSome then s
  else
    match e with
    | .construct this gpio =>
      match k.construct s.table this with
      | .ok r => s.constructed this gpio r
      | .error f => { s with fault := some f }
    | .destruct this =>
      match k.destruct s.table this with
      | .ok t => s.destructed this t
      | .error f => { s with fault := some f }

def Allowed (s : State) : Event → Prop
  | .construct this _ => this ∉ s.addrs
  | .destruct this => this ∈ s.addrs

instance decidableAllowed (s : State) : ∀ e, Decidable (Allowed s e)
  | .construct this _ => inferInstanceAs (Decidable (this ∉ s.addrs))
  | .destruct this => inferInstanceAs (Decidable (this ∈ s.addrs))

/-- The loop of `gpio_cb`: the objects it calls, of which each entry's is asked for its pin. -/
def callFrom (live : List Obj) (gpio : UInt32) (slots : List Addr) : Nat → Nat → Except Fault (List Addr)
  | 0, _ => .ok []
  | n + 1, ii =>
    match slots[ii]? with
    | none => .error .outOfBounds
    | some entry =>
      match live.find? fun o => o.addr == entry with
      | none => .error .dangling
      | some o => do
        let called ← callFrom live gpio slots n (ii + 1)
        .ok (if o.gpio = gpio then entry :: called else called)

/-- `gpio_cb`. -/
def gpioCb (s : State) (gpio : UInt32) : Except Fault (List Addr) :=
  callFrom s.live gpio (s.table.slots.getD []) s.table.n.toNat 0

/-- An edge on a pin: the objects it calls. -/
def edge (s : State) (gpio : UInt32) : Except Fault (List Addr) :=
  if s.handler = true ∧ gpio ∈ s.irq then gpioCb s gpio else .ok []

/-- The table has the objects that live and found room, each once and in the order of their construction, and an edge
calls those of them that are on its pin. -/
structure Kept (s : State) : Prop where
  returns : s.fault = none
  count : s.table.entries.length = s.table.n.toNat
  distinct : s.table.entries.Nodup
  live : s.table.entries.Sublist s.addrs
  all : ∀ o ∈ s.live, o.room = true → o.addr ∈ s.table.entries
  called : ∀ gpio, edge s gpio = .ok ((s.live.filter fun o => o.room && o.gpio == gpio).map Obj.addr)

/-! ## The invariant -/

def roster (live : List Obj) : List Addr := (live.filter Obj.room).map Obj.addr

structure Good (mx : UInt32) (s : State) : Prop where
  returns : s.fault = none
  entries : s.table.entries = roster s.live
  distinct : s.addrs.Nodup
  empty : s.table.slots = none → s.table.n = 0
  shape : ∀ l, s.table.slots = some l → l.length = mx.toNat ∧ s.table.n ≤ mx ∧ (s.table.n = 0 → mx = 0)
  heard : ∀ o ∈ s.live, o.room = true → s.handler = true ∧ o.gpio ∈ s.irq

namespace Good

variable {mx : UInt32} {s : State}

theorem length_of_shape {t : Table} (hempty : t.slots = none → t.n = 0)
    (hshape : ∀ l, t.slots = some l → l.length = mx.toNat ∧ t.n ≤ mx ∧ (t.n = 0 → mx = 0)) :
    t.entries.length = t.n.toNat := by
  unfold Table.entries
  cases hs : t.slots with
  | none => rw [hempty hs]; rfl
  | some l =>
    obtain ⟨hl, hn, -⟩ := hshape l hs
    rw [UInt32.le_iff_toNat_le] at hn
    rw [Option.getD_some, List.length_take]
    omega

theorem length_entries (g : Good mx s) : s.table.entries.length = s.table.n.toNat :=
  length_of_shape g.empty g.shape

theorem roster_sublist (live : List Obj) : (roster live).Sublist (live.map Obj.addr) :=
  (List.filter_sublist).map Obj.addr

theorem nodup_roster (g : Good mx s) : (roster s.live).Nodup := (roster_sublist s.live).nodup g.distinct

/-- A live object is found under its address. -/
theorem find_addr : ∀ {live : List Obj} {o : Obj}, (live.map Obj.addr).Nodup → o ∈ live →
    live.find? (fun x => x.addr == o.addr) = some o
  | x :: live, o, hnd, ho => by
    rw [List.map_cons, List.nodup_cons] at hnd
    rw [List.find?_cons]
    rcases List.mem_cons.1 ho with rfl | hin
    · rw [beq_self_eq_true]
    · have hne : x.addr ≠ o.addr := fun e => hnd.1 (e ▸ List.mem_map_of_mem hin)
      rw [beq_eq_false_iff_ne.2 hne]
      exact find_addr hnd.2 hin

/-- The handler's loop, on a part of the table that is the addresses of live objects. -/
theorem callFrom_eq {live : List Obj} (hnd : (live.map Obj.addr).Nodup) (gpio : UInt32) : ∀ (os : List Obj)
    (pre post : List Addr), (∀ o ∈ os, o ∈ live) →
      callFrom live gpio (pre ++ os.map Obj.addr ++ post) os.length pre.length =
        .ok ((os.filter fun o => o.gpio == gpio).map Obj.addr)
  | [], _, _, _ => rfl
  | o :: os, pre, post, hin => by
    have hget : (pre ++ (o :: os).map Obj.addr ++ post)[pre.length]? = some o.addr := by simp
    have ih := callFrom_eq hnd gpio os (pre ++ [o.addr]) post fun x hx => hin x (List.mem_cons_of_mem o hx)
    have hsame : pre ++ [o.addr] ++ os.map Obj.addr ++ post = pre ++ (o :: os).map Obj.addr ++ post := by simp
    rw [hsame, List.length_append, List.length_singleton] at ih
    rw [List.length_cons, callFrom, hget]
    simp only [find_addr hnd (hin o List.mem_cons_self), ih, bind, Except.bind]
    rw [List.filter_cons]
    by_cases hg : o.gpio = gpio
    · rw [if_pos hg, if_pos (beq_iff_eq.2 hg), List.map_cons]
    · rw [if_neg hg, if_neg (fun e => hg (beq_iff_eq.1 e))]

/-- The interrupt handler calls the objects that are on its pin. -/
theorem gpioCb_eq (g : Good mx s) (gpio : UInt32) :
    gpioCb s gpio = .ok ((s.live.filter fun o => o.room && o.gpio == gpio).map Obj.addr) := by
  have hsplit : s.table.slots.getD [] = [] ++ (s.live.filter Obj.room).map Obj.addr ++
      (s.table.slots.getD []).drop s.table.n.toNat := by
    rw [List.nil_append]
    have := g.entries
    unfold Table.entries roster at this
    rw [← this, List.take_append_drop]
  have hlen : s.table.n.toNat = (s.live.filter Obj.room).length := by
    rw [← g.length_entries, g.entries, roster, List.length_map]
  unfold gpioCb
  rw [hsplit, hlen]
  have h := callFrom_eq g.distinct gpio (s.live.filter Obj.room) [] ((s.table.slots.getD []).drop s.table.n.toNat)
    fun o ho => (List.mem_filter.1 ho).1
  rw [hlen, List.length_nil] at h
  rw [h, List.filter_filter]
  congr 2
  apply List.filter_congr
  intro o _
  exact Bool.and_comm _ _

/-- Where the interrupt is off, nobody is on the pin who found room. -/
theorem edge_eq (g : Good mx s) (gpio : UInt32) :
    edge s gpio = .ok ((s.live.filter fun o => o.room && o.gpio == gpio).map Obj.addr) := by
  unfold edge
  split
  · exact g.gpioCb_eq gpio
  · next hoff =>
    have hnone : s.live.filter (fun o => o.room && o.gpio == gpio) = [] := by
      rw [List.filter_eq_nil_iff]
      intro o ho hon
      rw [Bool.and_eq_true, beq_iff_eq] at hon
      obtain ⟨hroom, rfl⟩ := hon
      exact hoff (g.heard o ho hroom)
    rw [hnone]
    rfl

/-- **What the invariant says is what is wanted of the table.** -/
theorem kept (g : Good mx s) : Kept s := by
  refine ⟨g.returns, g.length_entries, by rw [g.entries]; exact g.nodup_roster,
    by rw [g.entries]; exact roster_sublist s.live, ?_, g.edge_eq⟩
  intro o ho hroom
  rw [g.entries]
  exact List.mem_map_of_mem (List.mem_filter.2 ⟨ho, hroom⟩)

end Good

/-! ## Construction -/

theorem roster_append (live : List Obj) (o : Obj) :
    roster (live ++ [o]) = roster live ++ if o.room then [o.addr] else [] := by
  unfold roster
  rw [List.filter_append, List.map_append]
  cases ho : o.room <;> simp [ho]

/-- What the constructors do to a table that is as it should be. -/
theorem construct_eq {mx : UInt32} {s : State} (g : Good mx s) (this : Addr) :
    ∃ t room, construct mx s.table this = .ok (t, room) ∧
      t.entries = s.table.entries ++ (if room then [this] else []) ∧ (t.slots = none → t.n = 0) ∧
      ∀ l, t.slots = some l → l.length = mx.toNat ∧ t.n ≤ mx ∧ (t.n = 0 → mx = 0) := by
  obtain ⟨l, n, hl, hn, hlen, hle, hmx, hentries⟩ : ∃ (l : List Addr) (n : UInt32),
      s.table.slots.getD (List.replicate mx.toNat 0) = l ∧ (if s.table.slots.isNone then 0 else s.table.n) = n ∧
        l.length = mx.toNat ∧ n ≤ mx ∧ (n = 0 → mx = 0 ∨ n < mx) ∧ s.table.entries = l.take n.toNat := by
    unfold Table.entries
    cases hs : s.table.slots with
    | none =>
      have hpos : (0 : UInt32) ≤ mx := UInt32.zero_le
      refine ⟨_, _, rfl, rfl, List.length_replicate, hpos, fun _ => ?_, by simp⟩
      rw [UInt32.lt_iff_toNat_lt, ← UInt32.toNat_inj]
      exact (Nat.eq_zero_or_pos _)
    | some l =>
      obtain ⟨hl, hn, hmx⟩ := g.shape l hs
      exact ⟨_, _, rfl, rfl, hl, hn, fun h0 => Or.inl (hmx h0), rfl⟩
  unfold construct
  rw [hl, hn]
  simp only
  by_cases hroom : n < mx
  · have hlt := UInt32.lt_iff_toNat_lt.1 hroom
    have hsucc : (n + 1).toNat = n.toNat + 1 := by
      have := mx.toNat_lt
      rw [UInt32.toNat_add]
      exact Nat.mod_eq_of_lt (by show n.toNat + 1 < 2 ^ 32; omega)
    rw [if_pos hroom, if_pos (by omega)]
    refine ⟨_, _, rfl, ?_, nofun, ?_⟩
    · rw [hentries, if_pos rfl]
      unfold Table.entries
      simp only [Option.getD_some, hsucc]
      rw [List.take_add_one, List.take_set_of_le (Nat.le_refl _), List.getElem?_set_self (by omega), Option.toList_some]
    · rintro _ ⟨⟩
      refine ⟨by rw [List.length_set, hlen], ?_, ?_⟩
      · rw [UInt32.le_iff_toNat_le, hsucc]
        omega
      · intro h0
        have := congrArg UInt32.toNat h0
        rw [hsucc] at this
        cases this
  · rw [if_neg hroom]
    refine ⟨_, _, rfl, ?_, nofun, ?_⟩
    · rw [hentries, if_neg Bool.false_ne_true, List.append_nil]
      rfl
    · rintro _ ⟨⟩
      exact ⟨hlen, hle, fun h0 => (hmx h0).resolve_right hroom⟩

theorem step_construct {k : Kind} {s : State} (hf : s.fault = none) {this : Addr} {r : Table × Bool}
    (he : construct k.mx s.table this = .ok r) (gpio : UInt32) :
    step k s (.construct this gpio) = s.constructed this gpio r := by
  rw [← k.construct_eq] at he
  simp only [step, hf, Option.isSome_none, Bool.false_eq_true, if_false, he]

theorem Good.constructed {k : Kind} {s : State} (g : Good k.mx s) {this : Addr} {gpio : UInt32}
    (h : this ∉ s.addrs) : Good k.mx (step k s (.construct this gpio)) := by
  obtain ⟨t, room, he, hentries, hempty, hshape⟩ := construct_eq g this
  rw [step_construct g.returns he]
  refine ⟨g.returns, ?_, ?_, hempty, hshape, ?_⟩
  · simp only [State.constructed]
    rw [hentries, g.entries, roster_append]
  · show ((s.live ++ [_]).map Obj.addr).Nodup
    rw [List.map_append, List.nodup_append]
    refine ⟨g.distinct, by simp, ?_⟩
    intro a ha b hb
    simp only [List.map_cons, List.map_nil, List.mem_singleton] at hb
    rw [hb]
    exact fun e => h (e ▸ ha)
  · intro o ho hroom
    rcases List.mem_append.1 ho with hold | hnew
    · obtain ⟨hhandler, hpin⟩ := g.heard o hold hroom
      exact ⟨by rw [State.constructed, hhandler, Bool.true_or], List.mem_cons_of_mem gpio hpin⟩
    · rw [List.mem_singleton.1 hnew] at hroom ⊢
      refine ⟨?_, List.mem_cons_self⟩
      -- the first object sets the handler, and it is the first or there is another that found room
      have hcount := Good.length_of_shape hempty hshape
      rw [hentries, if_pos hroom, List.length_append, List.length_singleton] at hcount
      show (s.handler || t.n == 1) = true
      cases hold : s.table.entries with
      | nil =>
        rw [hold] at hcount
        have hone : t.n = 1 := UInt32.toNat_inj.1 hcount.symm
        rw [hone, beq_self_eq_true, Bool.or_true]
      | cons a l =>
        have hmem : a ∈ roster s.live := by
          rw [← g.entries, hold]
          exact List.mem_cons_self
        obtain ⟨o', ho', -⟩ := List.mem_map.1 hmem
        obtain ⟨hlive, hroom'⟩ := List.mem_filter.1 ho'
        rw [(g.heard o' hlive hroom').1, Bool.true_or]

/-! ## Destruction -/

/-- Nobody else who found room is on the object's pin. -/
def Alone (s : State) (this : Addr) : Prop :=
  ∀ o ∈ s.live, o.room = true → s.gpioOf this = some o.gpio → o.addr = this

instance decidableAlone (s : State) (this : Addr) : Decidable (Alone s this) :=
  List.decidableBAll (fun o : Obj => o.room = true → s.gpioOf this = some o.gpio → o.addr = this) s.live

/-- The object was given a slot, at most one other has one, and that is not on its pin. -/
def Fine (s : State) : Event → Prop
  | .construct _ _ => True
  | .destruct this => this ∈ s.table.entries ∧ s.table.n ≤ 2 ∧ Alone s this

instance decidableFine (s : State) : ∀ e, Decidable (Fine s e)
  | .construct _ _ => isTrue trivial
  | .destruct this => inferInstanceAs (Decidable (this ∈ s.table.entries ∧ s.table.n ≤ 2 ∧ Alone s this))

theorem roster_filter (live : List Obj) (this : Addr) :
    roster (live.filter fun o => o.addr != this) = (roster live).filter (· != this) := by
  unfold roster
  rw [List.filter_filter, List.filter_map, List.filter_filter]
  congr 1
  apply List.filter_congr
  intro o _
  exact Bool.and_comm _ _

theorem toNat_pred {n : UInt32} (h : n ≠ 0) : (n - 1).toNat = n.toNat - 1 := by
  have h0 : n.toNat ≠ 0 := fun e => h (UInt32.toNat_inj.1 e)
  rw [UInt32.toNat_sub_of_le _ _ (UInt32.le_iff_toNat_le.2 (by show 1 ≤ n.toNat; omega))]
  rfl

/-- A table that counts objects has slots. -/
theorem Good.slots {mx : UInt32} {s : State} (g : Good mx s) (hn : s.table.n ≠ 0) : ∃ l, s.table.slots = some l := by
  cases hs : s.table.slots with
  | none => exact absurd (g.empty hs) hn
  | some l => exact ⟨l, rfl⟩

/-- The loop takes one of two out. -/
theorem compact_two {this x y : Addr} (l : List Addr) (hxy : x ≠ y) (hin : this = x ∨ this = y) :
    ∃ r, compact this 1 0 0 (x :: y :: l) = .ok r ∧ r.take 1 = [x, y].filter (· != this) ∧
      r.length = (x :: y :: l).length := by
  by_cases hx : x = this
  · have hy : y ≠ this := fun e => hxy (hx.trans e.symm)
    exact ⟨y :: y :: l, by simp [compact, hx], by simp [hx, hy], rfl⟩
  · have hy : y = this := (hin.resolve_left fun e => hx e.symm).symm
    exact ⟨x :: y :: l, by simp [compact, hx], by simp [hx, hy], rfl⟩

/-- **One of at most two is taken out rightly.** -/
theorem destruct_eq {mx : UInt32} {s : State} (g : Good mx s) {this : Addr} (hin : this ∈ s.table.entries)
    (hn : s.table.n ≤ 2) :
    ∃ t, destruct s.table this = .ok t ∧ t.entries = s.table.entries.filter (· != this) ∧ (t.slots = none → t.n = 0) ∧
      ∀ l, t.slots = some l → l.length = mx.toNat ∧ t.n ≤ mx ∧ (t.n = 0 → mx = 0) := by
  have hcount := g.length_entries
  have hnd : s.table.entries.Nodup := by rw [g.entries]; exact g.nodup_roster
  have hpos := List.length_pos_of_mem hin
  have hn0 : s.table.n ≠ 0 := by
    intro e
    rw [hcount, e] at hpos
    exact absurd hpos (by decide)
  have hle : s.table.n.toNat ≤ 2 := UInt32.le_iff_toNat_le.1 hn
  rw [hcount] at hpos
  have hpred := toNat_pred hn0
  obtain ⟨l, hs⟩ := g.slots hn0
  obtain ⟨hlen, hmx, -⟩ := g.shape l hs
  rw [UInt32.le_iff_toNat_le] at hmx
  have hentries : s.table.entries = l.take s.table.n.toNat := by rw [Table.entries, hs, Option.getD_some]
  rw [hentries] at hin hnd ⊢
  unfold destruct
  simp only [hs, Option.getD_some, hpred]
  rcases (by omega : s.table.n.toNat = 1 ∨ s.table.n.toNat = 2) with h1 | h2
  · -- the only object: the table goes
    have hz : s.table.n - 1 = 0 := UInt32.toNat_inj.1 (by rw [hpred, h1]; rfl)
    rw [h1, compact]
    simp only [bind, Except.bind]
    rw [if_pos hz, hz]
    refine ⟨_, rfl, ?_, fun _ => rfl, nofun⟩
    match l, hin with
    | [], hin => simp at hin
    | x :: l, hin =>
      rw [h1, List.take_succ_cons, List.take_zero, List.mem_singleton] at hin
      simp [Table.entries, hin]
  · have hone : (s.table.n - 1).toNat = 1 := by rw [hpred, h2]
    have hz : s.table.n - 1 ≠ 0 := fun e => by
      rw [e] at hone
      cases hone
    rw [h2] at hin hnd ⊢
    match l, hin, hnd, hlen with
    | [], hin, _, _ => rw [List.take_nil] at hin; cases hin
    | [x], _, _, hlen => simp at hlen; omega
    | x :: y :: l, hin, hnd, hlen =>
      simp only [List.take_succ_cons, List.take_zero, List.nodup_cons, List.mem_cons, List.not_mem_nil, or_false,
        not_false_iff, List.nodup_nil, and_true] at hin hnd
      obtain ⟨r, hr, htake, hrlen⟩ := compact_two l hnd hin
      rw [hr]
      simp only [bind, Except.bind, Option.map_some, if_neg hz]
      refine ⟨_, rfl, ?_, nofun, ?_⟩
      · simp only [Table.entries, Option.getD_some, hone]
        exact htake
      · rintro _ ⟨⟩
        refine ⟨hrlen.trans hlen, ?_, fun e => absurd e hz⟩
        rw [UInt32.le_iff_toNat_le]
        simp only [hone]
        omega

theorem step_destruct {k : Kind} {s : State} (hf : s.fault = none) {this : Addr} {t : Table}
    (he : destruct s.table this = .ok t) :
    step k s (.destruct this) = s.destructed this t := by
  rw [← k.destruct_eq] at he
  simp only [step, hf, Option.isSome_none, Bool.false_eq_true, if_false, he]

theorem Good.destructed {k : Kind} {s : State} (g : Good k.mx s) {this : Addr} (hin : this ∈ s.table.entries)
    (hn : s.table.n ≤ 2) (halone : Alone s this) : Good k.mx (step k s (.destruct this)) := by
  obtain ⟨t, he, hentries, hempty, hshape⟩ := destruct_eq g hin hn
  rw [step_destruct g.returns he]
  refine ⟨g.returns, ?_, ?_, hempty, hshape, ?_⟩
  · simp only [State.destructed]
    rw [hentries, g.entries, roster_filter]
  · exact (List.filter_sublist.map Obj.addr).nodup g.distinct
  · intro o ho hroom
    obtain ⟨hlive, hne⟩ := List.mem_filter.1 ho
    obtain ⟨hhandler, hpin⟩ := g.heard o hlive hroom
    refine ⟨hhandler, List.mem_filter.2 ⟨hpin, ?_⟩⟩
    rw [bne_iff_ne] at hne ⊢
    exact fun hsame => hne (halone o hlive hroom hsame)

theorem Good.next {k : Kind} {s : State} (g : Good k.mx s) {e : Event} (ha : Allowed s e) (hf : Fine s e) :
    Good k.mx (step k s e) := by
  cases e with
  | construct this gpio => exact g.constructed ha
  | destruct this => exact g.destructed hf.1 hf.2.1 hf.2.2

/-! ## What the loop does to more than two -/

/-- One pass: the second index goes past the object, and the entry there is copied down where the two differ. -/
theorem compact_pass {this : Addr} {n ii jj : Nat} {slots r : List Addr}
    (h : compact this (n + 1) ii jj slots = .ok r) :
    ∃ entry jj' slots', slots[ii]? = some entry ∧ jj' = (if entry = this then jj + 1 else jj) ∧
      (jj' = ii ∧ slots' = slots ∨ jj' ≠ ii ∧ ∃ moved, slots[jj']? = some moved ∧ slots' = slots.set ii moved) ∧
      compact this n (ii + 1) jj' slots' = .ok r := by
  rw [compact] at h
  split at h
  · cases h
  · next entry hentry =>
    simp only at h
    generalize hjj : (if entry = this then jj + 1 else jj) = jj' at h
    by_cases hne : jj' ≠ ii
    · rw [if_pos hne] at h
      split at h
      · cases h
      · next moved hmoved =>
        exact ⟨entry, jj', _, hentry, hjj.symm, Or.inr ⟨hne, moved, hmoved, rfl⟩, h⟩
    · rw [if_neg hne] at h
      exact ⟨entry, jj', _, hentry, hjj.symm, Or.inl ⟨not_not.1 hne, rfl⟩, h⟩

/-- A pass writes at its own place only. -/
theorem compact_before {this : Addr} : ∀ {n ii jj : Nat} {slots r : List Addr}, compact this n ii jj slots = .ok r →
    ∀ i < ii, r[i]? = slots[i]?
  | 0, _, _, _, _, h, _, _ => by cases h; rfl
  | n + 1, ii, jj, slots, r, h, i, hi => by
    obtain ⟨entry, jj', slots', -, -, hslots, h'⟩ := compact_pass h
    rw [compact_before h' i (by omega)]
    rcases hslots with ⟨-, rfl⟩ | ⟨-, moved, -, rfl⟩
    · rfl
    · rw [List.getElem?_set_ne (by omega)]

/-- **Of three or more the loop leaves one twice, or the one that goes.** -/
theorem compact_spoils {this x y : Addr} {l r : List Addr} {n : Nat} (hxy : x ≠ y)
    (h : compact this (n + 2) 0 0 (x :: y :: l) = .ok r) :
    (∃ a, r[0]? = some a ∧ r[1]? = some a) ∨ r[1]? = some this := by
  obtain ⟨e0, j0, s0, he0, hj0, hs0, h0⟩ := compact_pass h
  obtain ⟨e1, j1, s1, he1, hj1, hs1, h1⟩ := compact_pass h0
  have hr0 := compact_before h1 0 (by omega)
  have hr1 := compact_before h1 1 (by omega)
  have hex : e0 = x := (Option.some.inj he0).symm
  subst hex
  by_cases hx : e0 = this
  · -- the first goes: the second is copied to its place, and stays where it was
    rw [if_pos hx] at hj0
    subst hj0
    rcases hs0 with ⟨hj, -⟩ | ⟨-, moved, hmoved, rfl⟩
    · cases hj
    · have hmy : moved = y := (Option.some.inj hmoved).symm
      subst hmy
      have hey : e1 = moved := (Option.some.inj he1).symm
      subst hey
      rw [if_neg fun e => hxy (hx.trans e.symm)] at hj1
      subst hj1
      rcases hs1 with ⟨-, rfl⟩ | ⟨hne, -⟩
      · exact Or.inl ⟨e1, hr0, hr1⟩
      · exact absurd rfl hne
  · rw [if_neg hx] at hj0
    subst hj0
    rcases hs0 with ⟨-, rfl⟩ | ⟨hne, -⟩
    · have hey : e1 = y := (Option.some.inj he1).symm
      subst hey
      by_cases hy : e1 = this
      · -- the second goes: nothing is copied over it
        rw [if_pos hy] at hj1
        subst hj1
        rcases hs1 with ⟨-, rfl⟩ | ⟨hne, -⟩
        · exact Or.inr (by rw [hr1, ← hy]; rfl)
        · exact absurd rfl hne
      · -- a later one goes: the first is copied over the second
        rw [if_neg hy] at hj1
        subst hj1
        rcases hs1 with ⟨hj, -⟩ | ⟨-, moved, hmoved, rfl⟩
        · cases hj
        · have hmx : moved = e0 := (Option.some.inj hmoved).symm
          subst hmx
          exact Or.inl ⟨moved, hr0, hr1⟩
    · exact absurd rfl hne

/-- What a destructor that returns has done. -/
theorem destruct_cases {t t' : Table} {this : Addr} (h : destruct t this = .ok t') :
    ∃ r, compact this (t.n - 1).toNat 0 0 (t.slots.getD []) = .ok r ∧ t'.n = t.n - 1 ∧
      (t.n - 1 ≠ 0 → t'.slots = t.slots.map fun _ => r) := by
  unfold destruct at h
  cases hc : compact this (t.n - 1).toNat 0 0 (t.slots.getD []) with
  | error f =>
    simp only [hc, bind, Except.bind] at h
    cases h
  | ok r =>
    simp only [hc, bind, Except.bind] at h
    have ht := (Except.ok.inj h).symm
    refine ⟨r, rfl, by rw [ht]; split <;> rfl, fun hne => ?_⟩
    rw [ht, if_neg hne]

/-- A step that returns has run the destructor. -/
theorem destruct_of_returns {k : Kind} {s : State} (hf : s.fault = none) {this : Addr}
    (h : (step k s (.destruct this)).fault = none) : ∃ t, destruct s.table this = .ok t := by
  cases he : destruct s.table this with
  | ok t => exact ⟨t, rfl⟩
  | error f =>
    rw [← k.destruct_eq] at he
    simp only [step, hf, Option.isSome_none, Bool.false_eq_true, if_false, he] at h
    cases h

namespace Good

variable {k : Kind} {s : State} {this : Addr} {t : Table}

/-- An empty table has nothing for the loop to read. -/
theorem n_ne_zero (g : Good k.mx s) (ht : destruct s.table this = .ok t) : s.table.n ≠ 0 := by
  intro h0
  obtain ⟨r, hr, -⟩ := destruct_cases ht
  have hnil : s.table.slots.getD [] = [] := by
    cases hs : s.table.slots with
    | none => rfl
    | some l =>
      obtain ⟨hlen, -, hmx⟩ := g.shape l hs
      rw [hmx h0] at hlen
      exact List.eq_nil_of_length_eq_zero hlen
  obtain ⟨m, hm⟩ : ∃ m, (s.table.n - 1).toNat = m + 1 := by
    rw [h0]
    exact ⟨4294967294, rfl⟩
  rw [hnil, hm] at hr
  cases hr

/-- An object without a slot is counted out: all that found room still live, and do not fit. -/
theorem mem_of_kept (g : Good k.mx s) (ht : destruct s.table this = .ok t)
    (hk : Kept (s.destructed this t)) : this ∈ s.table.entries := by
  refine Classical.byContradiction fun hnot => ?_
  obtain ⟨-, -, htn, -⟩ := destruct_cases ht
  have hn0 := g.n_ne_zero ht
  have hsub : roster s.live ⊆ t.entries := by
    intro a hain
    have hne : a ≠ this := by
      rintro rfl
      rw [g.entries] at hnot
      exact hnot hain
    obtain ⟨o, ho, rfl⟩ := List.mem_map.1 hain
    obtain ⟨hlive, hroom⟩ := List.mem_filter.1 ho
    exact hk.all o (List.mem_filter.2 ⟨hlive, bne_iff_ne.2 hne⟩) hroom
  have hle := (List.subperm_of_subset g.nodup_roster hsub).length_le
  have hkc : t.entries.length = t.n.toNat := hk.count
  rw [hkc, htn, toNat_pred hn0, ← g.entries, g.length_entries] at hle
  have : s.table.n.toNat ≠ 0 := fun e => hn0 (UInt32.toNat_inj.1 e)
  omega

/-- **Three or more are spoilt**: one entry stands twice, or the object that is gone has one. -/
theorem le_two_of_kept (g : Good k.mx s) (ht : destruct s.table this = .ok t)
    (hk : Kept (s.destructed this t)) : s.table.n.toNat ≤ 2 := by
  refine Nat.le_of_not_lt fun hlt => ?_
  obtain ⟨r, hr, htn, hslots⟩ := destruct_cases ht
  have hn0 := g.n_ne_zero ht
  have hpred := toNat_pred hn0
  obtain ⟨l, hs⟩ := g.slots hn0
  obtain ⟨hlen, hmx, -⟩ := g.shape l hs
  rw [UInt32.le_iff_toNat_le] at hmx
  have hnd : s.table.entries.Nodup := by rw [g.entries]; exact g.nodup_roster
  obtain ⟨m, hm⟩ : ∃ m, (s.table.n - 1).toNat = m + 2 := ⟨s.table.n.toNat - 3, by omega⟩
  have hentries : t.entries = r.take (m + 2) := by
    have hne : s.table.n - 1 ≠ 0 := fun e => by
      rw [e] at hm
      cases hm
    rw [Table.entries, htn, hm, hslots hne, hs]
    rfl
  rw [hs, hm, Option.getD_some] at hr
  match l, hlen with
  | [], hlen => simp at hlen; omega
  | [_], hlen => simp at hlen; omega
  | x :: y :: l, hlen =>
    have hxy : x ≠ y := by
      rw [Table.entries, hs, Option.getD_some, show s.table.n.toNat = s.table.n.toNat - 2 + 2 by omega,
        List.take_succ_cons, List.take_succ_cons, List.nodup_cons] at hnd
      rintro rfl
      exact hnd.1 List.mem_cons_self
    have hget (i : Nat) (hi : i < 2) (a : Addr) (he : r[i]? = some a) : t.entries[i]? = some a := by
      rw [hentries, List.getElem?_take_of_lt (by omega), he]
    rcases compact_spoils hxy hr with ⟨a, h0, h1⟩ | h1
    · have h0' := hget 0 (by decide) a h0
      have hlt := (List.getElem?_eq_some_iff.1 h0').1
      have h01 := (List.getElem?_inj hlt hk.distinct).1 (h0'.trans (hget 1 (by decide) a h1).symm)
      exact absurd h01 (by decide)
    · have hmem := hk.live.subset (List.mem_of_getElem? (hget 1 (by decide) this h1))
      obtain ⟨o, ho, he⟩ := List.mem_map.1 hmem
      have := (List.mem_filter.1 ho).2
      rw [he, bne_self_eq_false] at this
      cases this

/-- **Another one on the pin hears no edge any more.** -/
theorem alone_of_kept (hk : Kept (s.destructed this t)) : Alone s this := by
  intro o ho hroom hpin
  refine Classical.byContradiction fun hne => ?_
  have hoff : o.gpio ∉ (s.destructed this t).irq := by
    intro hmem
    have hkept := (List.mem_filter.1 hmem).2
    rw [hpin, bne_self_eq_false] at hkept
    cases hkept
  have hcalled := hk.called o.gpio
  unfold edge at hcalled
  rw [if_neg fun h => hoff h.2] at hcalled
  have hnil := List.map_eq_nil_iff.1 (Except.ok.inj hcalled).symm
  rw [List.filter_eq_nil_iff] at hnil
  refine hnil o (List.mem_filter.2 ⟨ho, bne_iff_ne.2 hne⟩) ?_
  rw [hroom, beq_self_eq_true, Bool.and_self]

/-- **A table is kept only where one of at most two goes, and the other is not on its pin.** -/
theorem fine (g : Good k.mx s) (hk : Kept (Enroll.step k s (.destruct this))) :
    this ∈ s.table.entries ∧ s.table.n ≤ 2 ∧ Alone s this := by
  obtain ⟨t, ht⟩ := destruct_of_returns g.returns hk.returns
  rw [step_destruct g.returns ht] at hk
  exact ⟨g.mem_of_kept ht hk, UInt32.le_iff_toNat_le.2 (g.le_two_of_kept ht hk), alone_of_kept hk⟩

end Good

/-! ## Runs -/

theorem good_init (mx : UInt32) : Good mx {} := by
  refine ⟨rfl, rfl, List.nodup_nil, fun _ => rfl, ?_, nofun⟩
  rintro l ⟨⟩

/-- **The table has the objects that live and found room**, and an edge calls those on its pin, in every run that takes
out only objects that have a slot, these only from a table of one or two and where the other is on another pin; and
after such a run, that is what the next step needs. -/
theorem kept_iff (k : Kind) :
    (∀ s, Reach ({} : State) (step k) (fun s e => Allowed s e ∧ Fine s e) s → Kept s) ∧
    ∀ s e, Reach ({} : State) (step k) (fun s e => Allowed s e ∧ Fine s e) s → Allowed s e →
      (Kept (step k s e) ↔ Fine s e) := by
  have good {s : State} (hr : Reach ({} : State) (step k) (fun s e => Allowed s e ∧ Fine s e) s) : Good k.mx s :=
    History.inv_of_reach (good_init k.mx) (fun _ _ g h => g.next h.1 h.2) hr
  refine ⟨fun s hr => (good hr).kept, fun s e hr ha => ⟨fun hk => ?_, fun hf => ((good hr).next ha hf).kept⟩⟩
  cases e with
  | construct this gpio => trivial
  | destruct this => exact (good hr).fine hk

/-- Two receivers on one pin and one on another. -/
def threeRun : List Event := [.construct 1 15, .construct 2 15, .construct 3 16]

theorem threeRun_reach :
    Reach ({} : State) (step .irReceiver) (fun s e => Allowed s e ∧ Fine s e) (threeRun.foldl (step .irReceiver) {}) :=
  History.reach_along threeRun _ .init (by decide)

theorem kept_iff_three :
    Kept (threeRun.foldl (step .irReceiver) {}) ∧
    (Kept (step .irReceiver (threeRun.foldl (step .irReceiver) {}) (.destruct 1)) ↔
      Fine (threeRun.foldl (step .irReceiver) {}) (.destruct 1)) :=
  ⟨(kept_iff .irReceiver).1 _ threeRun_reach, (kept_iff .irReceiver).2 _ _ threeRun_reach (by decide)⟩

/-- The first of three goes: the second is in the table twice, the third not at all. -/
theorem three_spoiled : ¬ ∀ (k : Kind) (s : State), Reach ({} : State) (step k) Allowed s → Kept s := by
  intro h
  have hk := h .irReceiver ((threeRun ++ [Event.destruct 1]).foldl (step .irReceiver) {})
    (History.reach_along _ _ .init (by decide))
  exact absurd hk.distinct (by decide)

end Enroll
end Pico
