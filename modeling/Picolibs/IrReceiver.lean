import Mathlib.Data.List.Forall2
import Picolibs.Text
/-!
# IrReceiver — the edges of an infrared message (`ir_receiver.cpp`)

`storeTimestamp` is called at every edge.  The subclass looks for the start of a message and moves `sync_`; from then
on the time since the edge before is a pulse, and a full buffer is a message: it is decoded, and the receive callback
or the error callback called.  A `Protocol` is what a subclass adds.

The stored pulses are a list, `n_pulse_` its length.  A timer is whether its alarm is set.  The trace has the calls of
the callbacks.  `reported_once` is for any protocol that syncs as the ones with a mark and a space in front do.
-/
namespace Pico
namespace Ir

inductive Act where
  | received (ts : UInt64) (addr func : UInt16)
  | repeated (ts : UInt64) (addr func : UInt16)
  | error
  deriving DecidableEq

structure Receiver where
  -- the size of the buffer, and what the subclass answers to
  mxPulse : Nat
  address : UInt32 := 0xffff
  pulses : List UInt32 := []
  prevTs : UInt64 := 0
  sync : Nat := 0
  -- which of the callbacks are set
  rcb : Bool := false
  rpt : Bool := false
  err : Bool := false
  rptAddr : UInt16 := 0
  rptFunc : UInt16 := 0
  msgTimer : Bool := false
  bitTimer : Bool := false
  msgTimeout : Nat := 0
  bitTimeout : Nat := 0
  prevCount : Nat := 0
  sem : Nat := 1
  acts : List Act := []
  deriving DecidableEq

/-- The virtual functions: `check_sync` and `decode_message`, which sets the address and the function in any case. -/
structure Protocol where
  checkSync : Receiver → UInt64 → Bool → Bool × Receiver
  decode : List UInt32 → UInt16 → Bool × UInt16 × UInt16

/-- `compare_pulse`. -/
def comparePulse (pulse nom band : UInt32) : Bool := pulse > nom - band && pulse < nom + band

namespace Receiver

def act (r : Receiver) (a : Act) : Receiver := { r with acts := r.acts ++ [a] }

/-- `reset`; the semaphore has one permit at most. -/
def reset (r : Receiver) : Receiver :=
  { r with sync := 0, pulses := [], bitTimer := false, msgTimer := false, sem := 1 }

/-- `message_error`. -/
def messageError (r : Receiver) : Receiver := (if r.err then r.act .error else r).reset

/-- `start_message_timeout`. -/
def startMessageTimeout (r : Receiver) : Receiver :=
  if 0 < r.msgTimeout && !r.msgTimer then { r with msgTimer := true } else r

/-- `start_timeout`. -/
def startTimeout (r : Receiver) : Receiver :=
  let r := r.startMessageTimeout
  if 0 < r.bitTimeout then { r with prevCount := r.pulses.length, bitTimer := true } else r

/-- The time since the edge before. -/
def delta (r : Receiver) (ts : UInt64) : UInt32 := (ts - r.prevTs).toUInt32

variable (P : Protocol)

/-- `message_complete`. -/
def messageComplete (r : Receiver) (ts : UInt64) : Receiver :=
  let (ok, addr, func) := P.decode r.pulses r.address.toUInt16
  let r := { r with rptAddr := addr, rptFunc := func }
  if ok then (if r.rcb then r.act (.received ts r.rptAddr r.rptFunc) else r).reset else r.messageError

/-- `store_timestamp`. -/
def storeTimestamp (r : Receiver) (ts : UInt64) (falling : Bool) : Receiver :=
  let psy := r.sync
  let (synced, r) := P.checkSync r ts falling
  let r :=
    if synced then
      let r := if r.pulses.length < r.mxPulse then { r with pulses := r.pulses ++ [r.delta ts] } else r
      if r.pulses.length = r.mxPulse then r.messageComplete P ts else r
    else r
  let r := { r with prevTs := ts }
  if psy = 0 ∧ r.sync ≠ 0 then r.startTimeout else r

/-- Edge after edge. -/
def feed (r : Receiver) (es : List (UInt64 × Bool)) : Receiver :=
  es.foldl (fun r e => r.storeTimestamp P e.1 e.2) r

/-- Between messages, with no timeouts: no timer is set, or will be. -/
structure Idle (r : Receiver) : Prop where
  sync : r.sync = 0
  msgTimer : r.msgTimer = false
  bitTimer : r.bitTimer = false
  msgTimeout : r.msgTimeout = 0
  bitTimeout : r.bitTimeout = 0

end Receiver

/-! ## The edges of a train of intervals -/

/-- The edges at the ends of the intervals, the first of them of the kind `falling`. -/
def ends : UInt64 → Bool → List UInt32 → List (UInt64 × Bool)
  | _, _, [] => []
  | ts, falling, i :: is => (ts + i.toUInt64, falling) :: ends (ts + i.toUInt64) (!falling) is

/-- A train that starts at `ts`.  The receiver module pulls its output down in a mark, so that its first edge is not
what `store_timestamp` calls falling. -/
def edges (ts : UInt64) (is : List UInt32) : List (UInt64 × Bool) := (ts, false) :: ends ts true is

/-- The time of the last edge. -/
def lastTs (ts : UInt64) (is : List UInt32) : UInt64 := is.foldl (fun ts i => ts + i.toUInt64) ts

theorem dropLast_ends : ∀ (is : List UInt32) (ts : UInt64) (falling : Bool),
    (ends ts falling is).dropLast = ends ts falling is.dropLast
  | [], _, _ => rfl
  | [_], _, _ => rfl
  | i :: j :: is, ts, falling => by
    rw [ends, List.dropLast_cons_of_ne_nil (by rw [ends]; exact List.cons_ne_nil _ _), dropLast_ends (j :: is),
      List.dropLast_cons_of_ne_nil (List.cons_ne_nil _ _), ends]

theorem dropLast_edges {is : List UInt32} (h : is ≠ []) (ts : UInt64) :
    (edges ts is).dropLast = edges ts is.dropLast := by
  obtain ⟨i, is, rfl⟩ := List.exists_cons_of_ne_nil h
  rw [edges, List.dropLast_cons_of_ne_nil (by rw [ends]; exact List.cons_ne_nil _ _), dropLast_ends, edges]

theorem ends_concat : ∀ (is : List UInt32) (ts : UInt64) (falling : Bool) (i : UInt32),
    ∃ b, ends ts falling (is ++ [i]) = ends ts falling is ++ [(lastTs ts is + i.toUInt64, b)]
  | [], _, falling, _ => ⟨falling, rfl⟩
  | j :: is, ts, falling, i => by
    obtain ⟨b, hb⟩ := ends_concat is (ts + j.toUInt64) (!falling) i
    exact ⟨b, by rw [List.cons_append, ends, hb, ends]; rfl⟩

theorem lastTs_concat (ts : UInt64) (is : List UInt32) (i : UInt32) :
    lastTs ts (is ++ [i]) = lastTs ts is + i.toUInt64 := by
  rw [lastTs, List.foldl_concat]
  rfl

/-! ## One edge -/

/-- Less than half a base pulse apart. -/
def Near (p nom : UInt32) : Prop := p.toNat < nom.toNat + 281 ∧ nom.toNat < p.toNat + 281

instance (p nom : UInt32) : Decidable (Near p nom) :=
  inferInstanceAs (Decidable (p.toNat < nom.toNat + 281 ∧ nom.toNat < p.toNat + 281))

/-- Less than the band apart. -/
def Within (band : Nat) (p nom : UInt32) : Prop := p.toNat < nom.toNat + band ∧ nom.toNat < p.toNat + band

instance (band : Nat) (p nom : UInt32) : Decidable (Within band p nom) :=
  inferInstanceAs (Decidable (p.toNat < nom.toNat + band ∧ nom.toNat < p.toNat + band))

/-- **What `compare_pulse` compares**, where neither end of the band wraps. -/
theorem comparePulse_iff {p nom band : UInt32} (hlo : band.toNat ≤ nom.toNat) (hhi : nom.toNat + band.toNat < 2 ^ 32) :
    comparePulse p nom band = true ↔ Within band.toNat p nom := by
  unfold comparePulse Within
  simp only [gt_iff_lt, Bool.and_eq_true, decide_eq_true_eq, UInt32.lt_iff_toNat_lt]
  rw [UInt32.toNat_sub_of_le _ _ (by rw [UInt32.le_iff_toNat_le]; exact hlo), UInt32.toNat_add, Nat.mod_eq_of_lt hhi]
  omega

/-- What `check_sync` does where a message starts with a mark and a space. -/
structure Syncs (P : Protocol) (mark space : UInt32) : Prop where
  idle : ∀ (r : Receiver) (ts : UInt64), r.sync = 0 → P.checkSync r ts false = (false, { r with pulses := [] })
  mark : ∀ (r : Receiver) (ts : UInt64), r.sync = 0 → Near (r.delta ts) mark →
    P.checkSync r ts true = (false, { r with pulses := [r.delta ts], sync := 1 })
  space : ∀ (r : Receiver) (ts : UInt64), r.sync = 1 → Near (r.delta ts) space →
    P.checkSync r ts false = (false, { r with pulses := r.pulses ++ [r.delta ts], sync := 2 })
  bits : ∀ (r : Receiver) (ts : UInt64) (falling : Bool), r.sync = 2 → P.checkSync r ts falling = (true, r)

/-- What `check_sync` does where a message starts with a mark and a space of some kind. -/
structure Starts (P : Protocol) (IsMark IsSpace : UInt32 → Prop) : Prop where
  idle : ∀ (r : Receiver) (ts : UInt64), r.sync = 0 → P.checkSync r ts false = (false, { r with pulses := [] })
  mark : ∀ (r : Receiver) (ts : UInt64), r.sync = 0 → IsMark (r.delta ts) →
    P.checkSync r ts true = (false, { r with pulses := [r.delta ts], sync := 1 })
  space : ∀ (r : Receiver) (ts : UInt64), r.sync = 1 → IsSpace (r.delta ts) →
    P.checkSync r ts false = (false, { r with pulses := r.pulses ++ [r.delta ts], sync := 2 })
  bits : ∀ (r : Receiver) (ts : UInt64) (falling : Bool), r.sync = 2 → P.checkSync r ts falling = (true, r)

theorem Syncs.starts {P : Protocol} {mark space : UInt32} (h : Syncs P mark space) :
    Starts P (Near · mark) (Near · space) :=
  ⟨h.idle, h.mark, h.space, h.bits⟩

theorem delta_add (r : Receiver) (i : UInt32) : r.delta (r.prevTs + i.toUInt64) = i := by
  rw [Receiver.delta, UInt64.add_comm, UInt64.add_sub_cancel]
  simp

variable {P : Protocol} {IsMark IsSpace : UInt32 → Prop}

theorem startTimeout_of_none {r : Receiver} (hm : r.msgTimeout = 0) (hb : r.bitTimeout = 0) : r.startTimeout = r := by
  simp [Receiver.startTimeout, Receiver.startMessageTimeout, hm, hb]

theorem store_first (h : Starts P IsMark IsSpace) {r : Receiver} (hr : r.Idle) (ts : UInt64) :
    r.storeTimestamp P ts false = { r with pulses := [], prevTs := ts } := by
  unfold Receiver.storeTimestamp
  rw [h.idle r ts hr.sync]
  simp [hr.sync]

theorem store_mark (h : Starts P IsMark IsSpace) {r : Receiver} (hr : r.Idle) {i : UInt32} (hi : IsMark i) :
    r.storeTimestamp P (r.prevTs + i.toUInt64) true =
      { r with pulses := [i], sync := 1, prevTs := r.prevTs + i.toUInt64 } := by
  have hs := h.mark r (r.prevTs + i.toUInt64) hr.sync
  rw [delta_add] at hs
  unfold Receiver.storeTimestamp
  rw [hs hi]
  simp only [Bool.false_eq_true, if_false]
  rw [if_pos ⟨hr.sync, by decide⟩]
  exact startTimeout_of_none hr.msgTimeout hr.bitTimeout

theorem store_space (h : Starts P IsMark IsSpace) {r : Receiver} (hr : r.sync = 1) {i : UInt32} (hi : IsSpace i) :
    r.storeTimestamp P (r.prevTs + i.toUInt64) false =
      { r with pulses := r.pulses ++ [i], sync := 2, prevTs := r.prevTs + i.toUInt64 } := by
  have hs := h.space r (r.prevTs + i.toUInt64) hr
  rw [delta_add] at hs
  unfold Receiver.storeTimestamp
  rw [hs hi]
  simp [hr]

theorem store_bit (h : Starts P IsMark IsSpace) {r : Receiver} (hr : r.sync = 2)
    (hlen : r.pulses.length + 1 < r.mxPulse) (i : UInt32) (falling : Bool) :
    r.storeTimestamp P (r.prevTs + i.toUInt64) falling =
      { r with pulses := r.pulses ++ [i], prevTs := r.prevTs + i.toUInt64 } := by
  have hlt : r.pulses.length < r.mxPulse := by omega
  have hne : ¬ (r.pulses ++ [i]).length = r.mxPulse := by
    rw [List.length_append, List.length_singleton]
    omega
  unfold Receiver.storeTimestamp
  rw [h.bits r _ falling hr]
  simp only [if_true]
  rw [if_pos hlt, delta_add, if_neg hne]
  simp [hr]

/-- The callback that a full buffer calls, by what it decodes to. -/
def Receiver.outcome (r : Receiver) (ts : UInt64) (d : Bool × UInt16 × UInt16) : List Act :=
  if d.1 then (if r.rcb then [.received ts d.2.1 d.2.2] else []) else (if r.err then [.error] else [])

theorem messageComplete_eq (r : Receiver) (ts : UInt64) {d : Bool × UInt16 × UInt16}
    (hd : P.decode r.pulses r.address.toUInt16 = d) :
    r.messageComplete P ts =
      { r with pulses := [], sync := 0, rptAddr := d.2.1, rptFunc := d.2.2, msgTimer := false, bitTimer := false,
               sem := 1, acts := r.acts ++ r.outcome ts d } := by
  obtain ⟨ok, addr, func⟩ := d
  unfold Receiver.messageComplete Receiver.outcome
  rw [hd]
  cases ok with
  | true =>
    simp only [if_true]
    cases hr : r.rcb with
    | true => rfl
    | false =>
      rw [if_neg Bool.false_ne_true, if_neg Bool.false_ne_true, List.append_nil]
      rfl
  | false =>
    simp only [Bool.false_eq_true, if_false, Receiver.messageError]
    cases hr : r.err with
    | true => rfl
    | false =>
      rw [if_neg Bool.false_ne_true, if_neg Bool.false_ne_true, List.append_nil]
      rfl

/-- The last edge of a message. -/
theorem store_last (h : Starts P IsMark IsSpace) {r : Receiver} (hr : r.sync = 2)
    (hlen : r.pulses.length + 1 = r.mxPulse) (i : UInt32) (falling : Bool) {d : Bool × UInt16 × UInt16}
    (hd : P.decode (r.pulses ++ [i]) r.address.toUInt16 = d) :
    r.storeTimestamp P (r.prevTs + i.toUInt64) falling =
      { r with pulses := [], sync := 0, prevTs := r.prevTs + i.toUInt64, rptAddr := d.2.1, rptFunc := d.2.2,
               msgTimer := false, bitTimer := false, sem := 1,
               acts := r.acts ++ r.outcome (r.prevTs + i.toUInt64) d } := by
  have hlt : r.pulses.length < r.mxPulse := by omega
  have hfull : (r.pulses ++ [i]).length = r.mxPulse := by
    rw [List.length_append, List.length_singleton]
    exact hlen
  unfold Receiver.storeTimestamp
  rw [h.bits r _ falling hr]
  simp only [if_true]
  rw [if_pos hlt, delta_add, if_pos hfull, messageComplete_eq _ _ hd]
  simp only
  rw [if_neg (fun hc => absurd hc.1 (by rw [hr]; decide))]
  rfl

/-! ## A message -/

theorem feed_append (r : Receiver) (es es' : List (UInt64 × Bool)) :
    r.feed P (es ++ es') = (r.feed P es).feed P es' := List.foldl_append

/-- The intervals after the start are stored one by one. -/
theorem feed_bits (h : Starts P IsMark IsSpace) : ∀ (is : List UInt32) (r : Receiver) (falling : Bool), r.sync = 2 →
    r.pulses.length + is.length < r.mxPulse →
    r.feed P (ends r.prevTs falling is) = { r with pulses := r.pulses ++ is, prevTs := lastTs r.prevTs is }
  | [], r, _, _, _ => by
    rw [List.append_nil]
    rfl
  | i :: is, r, falling, hr, hlen => by
    rw [List.length_cons] at hlen
    have hs := store_bit h hr (by omega) i falling
    have ih := feed_bits h is { r with pulses := r.pulses ++ [i], prevTs := r.prevTs + i.toUInt64 } (!falling) hr
      (by rw [List.length_append, List.length_singleton]; dsimp only; omega)
    show (r.storeTimestamp P (r.prevTs + i.toUInt64) falling).feed P _ = _
    rw [hs, ih]
    simp [lastTs]

/-- The start of a message and what follows, as long as the buffer is not full. -/
theorem feed_start (h : Starts P IsMark IsSpace) {r : Receiver} (hr : r.Idle) {i j : UInt32} (hi : IsMark i)
    (hj : IsSpace j) (is : List UInt32) (hlen : is.length + 2 < r.mxPulse) (ts : UInt64) :
    r.feed P (edges ts (i :: j :: is)) =
      { r with pulses := i :: j :: is, sync := 2, prevTs := lastTs ts (i :: j :: is) } := by
  have h1 := store_first h hr ts
  have hidle : Receiver.Idle { r with pulses := [], prevTs := ts } :=
    ⟨hr.sync, hr.msgTimer, hr.bitTimer, hr.msgTimeout, hr.bitTimeout⟩
  have h2 := store_mark h hidle hi
  have h3 := store_space h (r := { r with pulses := [i], sync := 1, prevTs := ts + i.toUInt64 }) rfl hj
  have h4 := feed_bits h is
    { r with pulses := [i] ++ [j], sync := 2, prevTs := ts + i.toUInt64 + j.toUInt64 } true rfl
    (by rw [List.length_append, List.length_singleton, List.length_singleton]; dsimp only; omega)
  show (((r.storeTimestamp P ts false).storeTimestamp P (ts + i.toUInt64) true).storeTimestamp P
    (ts + i.toUInt64 + j.toUInt64) false).feed P _ = _
  rw [h1, h2, h3]
  exact h4

/-- **A message is reported once, at its last edge**, to the receive callback or as an error, and the receiver is idle
again. -/
theorem reported_once (h : Starts P IsMark IsSpace) {r : Receiver} (hr : r.Idle) {i j : UInt32} (hi : IsMark i)
    (hj : IsSpace j) (is : List UInt32) (k : UInt32) (hlen : is.length + 3 = r.mxPulse) (ts : UInt64)
    {d : Bool × UInt16 × UInt16} (hd : P.decode (i :: j :: is ++ [k]) r.address.toUInt16 = d) :
    (r.feed P (edges ts (i :: j :: is ++ [k])).dropLast).acts = r.acts ∧
    (r.feed P (edges ts (i :: j :: is ++ [k]))).acts =
      r.acts ++ r.outcome (lastTs ts (i :: j :: is ++ [k])) d ∧
    (r.feed P (edges ts (i :: j :: is ++ [k]))).Idle := by
  have hs := feed_start h hr hi hj is (by omega) ts
  obtain ⟨b, hb⟩ := ends_concat (i :: j :: is) ts true k
  have hl := store_last h (r := { r with pulses := i :: j :: is, sync := 2, prevTs := lastTs ts (i :: j :: is) }) rfl
    (by simp only [List.length_cons]; omega) k b hd
  have hall : r.feed P (edges ts (i :: j :: is ++ [k])) = ((r.feed P (edges ts (i :: j :: is))).storeTimestamp P
      (lastTs ts (i :: j :: is) + k.toUInt64) b) := by
    rw [edges, hb, ← List.cons_append, feed_append, ← edges]
    rfl
  refine ⟨?_, ?_, ?_⟩
  · rw [dropLast_edges (by simp), List.dropLast_concat, hs]
  · rw [hall, hs, hl, lastTs_concat]
    rfl
  · rw [hall, hs, hl]
    exact ⟨rfl, rfl, rfl, hr.msgTimeout, hr.bitTimeout⟩

/-- **A message that decodes is received once, at its last edge.** -/
theorem received_once (h : Starts P IsMark IsSpace) {r : Receiver} (hr : r.Idle) (hcb : r.rcb = true) {i j : UInt32}
    (hi : IsMark i) (hj : IsSpace j) (is : List UInt32) (k : UInt32) (hlen : is.length + 3 = r.mxPulse)
    (ts : UInt64) {addr func : UInt16}
    (hd : P.decode (i :: j :: is ++ [k]) r.address.toUInt16 = (true, addr, func)) :
    (r.feed P (edges ts (i :: j :: is ++ [k])).dropLast).acts = r.acts ∧
    (r.feed P (edges ts (i :: j :: is ++ [k]))).acts =
      r.acts ++ [.received (lastTs ts (i :: j :: is ++ [k])) addr func] ∧
    (r.feed P (edges ts (i :: j :: is ++ [k]))).Idle := by
  have hone := reported_once h hr hi hj is k hlen ts hd
  unfold Receiver.outcome at hone
  rw [if_pos rfl, if_pos hcb] at hone
  exact hone

end Ir
end Pico
