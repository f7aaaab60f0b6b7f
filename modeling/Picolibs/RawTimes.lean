import Picolibs.Remote
import Picolibs.Waiting
/-!
# RawTimes — recording the times of any message (`raw_receiver.cpp`)

The receiver stores every interval from the first mark on, and copies them to the caller's buffer when its own is full
or an expiry of the bit timer finds no new one.  A `Raw` is the receiver with the buffer that `times_` points at.

`recorded`: what is in the buffer then.  `learned`: a message that is recorded and played again is heard as the message.
-/
namespace Pico
namespace Ir

open Alarms (Pool)
open Signal (Late bounds)

structure Raw where
  base : Receiver
  -- the slots at `times_`, `n_times_` of them, and the variable at `countptr_`
  times : List UInt32 := []
  countptr : Option Nat := none
  count : Nat := 0

namespace Raw

/-- `store_pulses`. -/
def storePulses (r : Raw) : Raw :=
  let count := if r.base.pulses.length < r.times.length then r.base.pulses.length else r.times.length
  { r with count := count, times := r.base.pulses.take count ++ r.times.drop count
           countptr := r.countptr.map fun _ => count }

/-- `message_complete`. -/
def messageComplete (r : Raw) (ts : UInt64) : Raw :=
  let r := r.storePulses
  { r with base := r.base.messageComplete protocol ts }

/-- `timeout`; the timeout callback is set or not, and has an answer. -/
def timeout (tmo answer : Bool) (r : Raw) : Bool × Raw :=
  let r := r.storePulses
  ((r.base.timeout tmo answer).1, { r with base := (r.base.timeout tmo answer).2 })

/-- The edge of a message: the interval is stored, and a full buffer is a message. -/
def storeInterval (r : Raw) (ts : UInt64) : Raw :=
  let r : Raw := if r.base.pulses.length < r.base.mxPulse then
    { r with base := { r.base with pulses := r.base.pulses ++ [r.base.delta ts] } } else r
  if r.base.pulses.length = r.base.mxPulse then r.messageComplete ts else r

/-- `store_timestamp`, with the virtual functions of this class. -/
def storeTimestamp (r : Raw) (ts : UInt64) (falling : Bool) : Raw :=
  let psy := r.base.sync
  let c := checkSync r.base ts falling
  let r : Raw := if c.1 then storeInterval { r with base := c.2 } ts else { r with base := c.2 }
  let r : Raw := { r with base := { r.base with prevTs := ts } }
  if psy = 0 ∧ r.base.sync ≠ 0 then { r with base := r.base.startTimeout } else r

/-- `timeout_bit`. -/
def timeoutBit (tmo answer : Bool) (r : Raw) : Raw :=
  if r.base.sync ≠ 0 then
    if r.base.pulses.length = r.base.prevCount then
      let t := r.timeout tmo answer
      if t.1 then { t.2 with base := t.2.base.bitAgain }
      else { t.2 with base := { t.2.base with bitTimer := false } }
    else { r with base := r.base.bitAgain }
  else { r with base := { r.base with bitTimer := false } }

/-- An edge, or an expiry of the bit timer. -/
inductive Event where
  | edge (ts : UInt64) (falling : Bool)
  | bit
  deriving DecidableEq

def Event.edge? : Event → Option (UInt64 × Bool)
  | edge ts falling => some (ts, falling)
  | bit => none

def step (tmo answer : Bool) (r : Raw) : Event → Raw
  | .edge ts falling => r.storeTimestamp ts falling
  | .bit => r.timeoutBit tmo answer

/-- The bit timer expires when it is set; here it finds that pulses have come since it did last. -/
def Goes (r : Raw) : Event → Prop
  | .edge _ _ => True
  | .bit => r.base.bitTimer = true ∧ r.base.pulses.length ≠ r.base.prevCount

/-- `read_raw_times`, up to where it waits. -/
def beginRead (r : Receiver) (times : List UInt32) (edgeTmo : Nat) : Raw :=
  { base := { r with pulses := [], bitTimeout := edgeTmo }, times := times }

/-! ## One event -/

/-- While it records: what is stored, and the time of the last edge. -/
structure Records (r0 : Raw) (is : List UInt32) (ts : UInt64) (r : Raw) : Prop where
  pulses : r.base.pulses = is
  sync : r.base.sync = if is = [] then 0 else 1
  prevTs : r.base.prevTs = ts
  mxPulse : r.base.mxPulse = r0.base.mxPulse
  times : r.times = r0.times
  countptr : r.countptr = r0.countptr

/-- What is in the buffer behind a recording of these intervals. -/
structure Stored (r0 : Raw) (is : List UInt32) (r : Raw) : Prop where
  count : r.count = min is.length r0.times.length
  times : r.times = is.take r0.times.length ++ r0.times.drop is.length
  countptr : r.countptr = r0.countptr.map fun _ => min is.length r0.times.length

theorem Stored.base {r0 r : Raw} {is : List UInt32} (h : Stored r0 is r) (b : Receiver) :
    Stored r0 is { r with base := b } :=
  ⟨h.count, h.times, h.countptr⟩

variable {r0 r : Raw} {pulses : List UInt32} {ts : UInt64}

theorem stored_of_storePulses (hp : r.base.pulses = pulses) (ht : r.times = r0.times) (hc : r.countptr = r0.countptr) :
    Stored r0 pulses r.storePulses := by
  unfold storePulses
  simp only [hp, ht, hc]
  by_cases h : pulses.length < r0.times.length
  · have hmin := Nat.min_eq_left (Nat.le_of_lt h)
    rw [if_pos h]
    refine ⟨hmin.symm, ?_, by rw [hmin]⟩
    rw [List.take_length, List.take_of_length_le (Nat.le_of_lt h)]
  · have hle := Nat.le_of_not_lt h
    have hmin := Nat.min_eq_right hle
    rw [if_neg h]
    refine ⟨hmin.symm, ?_, by rw [hmin]⟩
    rw [List.drop_length, List.drop_of_length_le hle]

/-- The first edge begins the first mark. -/
theorem records_first (hs : r.base.sync = 0) (hp : r.base.pulses = []) (ts : UInt64) :
    Records r [] ts (r.storeTimestamp ts false) := by
  have heq : r.storeTimestamp ts false = { r with base := { r.base with prevTs := ts } } := by
    unfold storeTimestamp checkSync
    simp [hs]
  rw [heq]
  exact ⟨hp, hs, rfl, rfl, rfl, rfl⟩

/-- An edge of a message, but for the timers that it may start. -/
theorem storeTimestamp_synced {b : Receiver} {falling : Bool} (hc : checkSync r.base ts falling = (true, b)) {v : Raw}
    (hv : storeInterval { r with base := b } ts = v) : ∃ m t n, (v.base.sync = 0 → t = v.base.bitTimer) ∧
      r.storeTimestamp ts falling =
        { v with base := { v.base with prevTs := ts, msgTimer := m, bitTimer := t, prevCount := n } } := by
  obtain ⟨m, t, n, he⟩ := startTimeout_eq { v.base with prevTs := ts }
  unfold storeTimestamp
  simp only [hc, if_true, hv]
  by_cases h : r.base.sync = 0 ∧ v.base.sync ≠ 0
  · rw [if_pos h, he]
    exact ⟨m, t, n, fun h0 => absurd h0 h.2, rfl⟩
  · rw [if_neg h]
    exact ⟨v.base.msgTimer, v.base.bitTimer, v.base.prevCount, fun _ => rfl, rfl⟩

theorem checkSync_records (h : Records r0 pulses ts r) {falling : Bool} (hf : pulses = [] → falling = true)
    (t : UInt64) : checkSync r.base t falling = (true, { r.base with sync := 1 }) := by
  unfold checkSync
  rw [if_neg]
  intro hc
  obtain ⟨h0, hnf⟩ : r.base.sync = 0 ∧ (!falling) = true := by simpa using hc
  have hnil : pulses = [] := by
    by_contra hne
    rw [h.sync, if_neg hne] at h0
    cases h0
  rw [hf hnil] at hnf
  cases hnf

theorem storeInterval_eq (r : Raw) (t : UInt64) (h : r.base.pulses.length < r.base.mxPulse) :
    storeInterval r t =
      let v : Raw := { r with base := { r.base with pulses := r.base.pulses ++ [r.base.delta t] } }
      if r.base.pulses.length + 1 = r.base.mxPulse then v.messageComplete t else v := by
  unfold storeInterval
  simp only [if_pos h, List.length_append, List.length_singleton]

/-- The interval behind the last edge. -/
theorem interval_records (h : Records r0 pulses ts r) (i : UInt32) :
    Receiver.delta { r.base with sync := 1 } (ts + i.toUInt64) = i := by
  rw [← h.prevTs]
  exact delta_add r.base i

/-- **An interval is stored.** -/
theorem records_edge (h : Records r0 pulses ts r) {i : UInt32} {falling : Bool} (hf : pulses = [] → falling = true)
    (hlt : pulses.length + 1 < r0.base.mxPulse) :
    Records r0 (pulses ++ [i]) (ts + i.toUInt64) (r.storeTimestamp (ts + i.toUInt64) falling) := by
  have hd := interval_records h i
  have hv : storeInterval { r with base := { r.base with sync := 1 } } (ts + i.toUInt64) =
      { r with base := { r.base with sync := 1, pulses := r.base.pulses ++ [i] } } := by
    rw [storeInterval_eq _ _ (by rw [h.pulses, h.mxPulse]; omega)]
    simp only [hd]
    rw [if_neg (by rw [h.pulses, h.mxPulse]; omega)]
  obtain ⟨m, t, n, -, heq⟩ := storeTimestamp_synced (checkSync_records h hf _) hv
  rw [heq]
  exact ⟨congrArg (· ++ [i]) h.pulses, by simp, rfl, h.mxPulse, h.times, h.countptr⟩

/-- **A full buffer is copied**, and no timer is left. -/
theorem stored_edge (h : Records r0 pulses ts r) {i : UInt32} {falling : Bool} (hf : pulses = [] → falling = true)
    (hfull : pulses.length + 1 = r0.base.mxPulse) :
    Stored r0 (pulses ++ [i]) (r.storeTimestamp (ts + i.toUInt64) falling) ∧
      (r.storeTimestamp (ts + i.toUInt64) falling).base.bitTimer = false := by
  have hd := interval_records h i
  have hv : storeInterval { r with base := { r.base with sync := 1 } } (ts + i.toUInt64) =
      messageComplete { r with base := { r.base with sync := 1, pulses := r.base.pulses ++ [i] } }
        (ts + i.toUInt64) := by
    rw [storeInterval_eq _ _ (by rw [h.pulses, h.mxPulse]; omega)]
    simp only [hd]
    rw [if_pos (by rw [h.pulses, h.mxPulse]; exact hfull)]
  have hs : Stored r0 (pulses ++ [i])
      (storePulses { r with base := { r.base with sync := 1, pulses := r.base.pulses ++ [i] } }) :=
    stored_of_storePulses (congrArg (· ++ [i]) h.pulses) h.times h.countptr
  obtain ⟨m, t, n, ht, heq⟩ := storeTimestamp_synced (checkSync_records h hf _) hv
  rw [messageComplete, messageComplete_eq _ _ rfl] at ht heq
  rw [heq]
  exact ⟨hs.base _, ht rfl⟩

/-- An expiry that finds new pulses. -/
theorem records_bit (h : Records r0 pulses ts r) (tmo answer : Bool) (hn : r.base.pulses.length ≠ r.base.prevCount) :
    Records r0 pulses ts (r.timeoutBit tmo answer) := by
  unfold timeoutBit
  rw [if_neg hn]
  split
  · unfold Receiver.bitAgain
    simp only
    split
    · exact ⟨h.pulses, h.sync, h.prevTs, h.mxPulse, h.times, h.countptr⟩
    · exact ⟨h.pulses, h.sync, h.prevTs, h.mxPulse, h.times, h.countptr⟩
  · exact ⟨h.pulses, h.sync, h.prevTs, h.mxPulse, h.times, h.countptr⟩

/-- **An expiry that finds none** copies what is stored. -/
theorem stored_bit (h : Records r0 pulses ts r) (tmo answer : Bool) (hne : pulses ≠ [])
    (hn : r.base.pulses.length = r.base.prevCount) : Stored r0 pulses (r.timeoutBit tmo answer) := by
  have hs : Stored r0 pulses (r.timeout tmo answer).2 :=
    (stored_of_storePulses h.pulses h.times h.countptr).base _
  unfold timeoutBit
  rw [if_pos (by rw [h.sync, if_neg hne]; exact Nat.one_ne_zero), if_pos hn]
  by_cases ha : (r.timeout tmo answer).1 = true
  · simp only [if_pos ha]
    exact hs.base _
  · simp only [if_neg ha]
    exact hs.base _

/-! ## A message -/

/-- The edges of a message and expiries that find new pulses between them. -/
theorem run_records (tmo answer : Bool) : ∀ (es : List Event) (is : List UInt32) (r : Raw) (pulses : List UInt32)
    (ts : UInt64) (falling : Bool), Records r0 pulses ts r → es.filterMap Event.edge? = ends ts falling is →
    (pulses = [] → falling = true) → pulses.length + is.length ≤ r0.base.mxPulse → pulses.length < r0.base.mxPulse →
    History.Along (step tmo answer) Goes r es →
    (pulses.length + is.length < r0.base.mxPulse →
      Records r0 (pulses ++ is) (lastTs ts is) (es.foldl (step tmo answer) r)) ∧
    (pulses.length + is.length = r0.base.mxPulse → Stored r0 (pulses ++ is) (es.foldl (step tmo answer) r))
  | [], is, r, pulses, ts, falling, h, he, _, _, hlt, _ => by
    cases is with
    | nil =>
      refine ⟨fun _ => ?_, fun hfull => absurd hfull (Nat.ne_of_lt hlt)⟩
      rw [List.append_nil]
      exact h
    | cons i is => cases he
  | .bit :: es, is, r, pulses, ts, falling, h, he, hf, hle, hlt, ha => by
    obtain ⟨⟨-, hn⟩, ha⟩ := ha
    exact run_records tmo answer es is _ pulses ts falling (records_bit h tmo answer hn) he hf hle hlt ha
  | .edge t b :: es, is, r, pulses, ts, falling, h, he, hf, hle, hlt, ha => by
    cases is with
    | nil => cases he
    | cons i is =>
      have he : (t, b) :: es.filterMap Event.edge? = ends ts falling (i :: is) := he
      obtain ⟨hhead, htail⟩ := List.cons.inj he
      cases hhead
      have hlen : (pulses ++ [i]).length = pulses.length + 1 := by
        rw [List.length_append, List.length_singleton]
      rw [List.length_cons] at hle ⊢
      rw [List.append_cons]
      by_cases hmore : pulses.length + 1 < r0.base.mxPulse
      · have ih := run_records tmo answer es is _ (pulses ++ [i]) (ts + i.toUInt64) (!b)
          (records_edge h hf hmore) htail (fun hc => absurd hc (by simp)) (by omega) (by omega) ha.2
        rw [hlen, Nat.add_assoc, Nat.add_comm 1] at ih
        exact ih
      · obtain ⟨hs, ht⟩ := stored_edge (i := i) h hf (by omega)
        obtain rfl : is = [] := List.length_eq_zero_iff.1 (by omega)
        have hes : es = [] := by
          cases es with
          | nil => rfl
          | cons e es =>
            cases e with
            | edge t b => cases htail
            | bit =>
              have hgo := ha.2.1.1
              rw [step, ht] at hgo
              cases hgo
        rw [hes]
        refine ⟨fun hc => absurd hc (by simp only [List.length_nil]; omega), fun _ => ?_⟩
        rw [List.append_nil]
        exact hs

/-- A recording of a train.  The receiver is between messages, and is called for the changes as they are seen; the bit
timer finds new pulses whenever it expires, until the buffer is full or it finds none. -/
structure Recording (delay slack : Nat) (ds : List UInt32) (tmo answer : Bool) (r0 r : Raw) : Prop where
  sync : r0.base.sync = 0
  pulses : r0.base.pulses = []
  bitTimer : r0.base.bitTimer = false
  room : ds.length ≤ r0.base.mxPulse
  run : ∃ (a : Nat) (seen : List (Nat × Bool)) (es : List Event),
    List.Forall₂ (Late delay slack) (bounds a true (ds.map UInt32.toNat)) seen ∧
    es.filterMap Event.edge? = seen.map pin ∧ History.Along (step tmo answer) Goes r0 es ∧
    if ds.length = r0.base.mxPulse then r = es.foldl (step tmo answer) r0
    else (es.foldl (step tmo answer) r0).base.pulses.length = (es.foldl (step tmo answer) r0).base.prevCount ∧
      r = (es.foldl (step tmo answer) r0).timeoutBit tmo answer

theorem stored_of_recording {delay slack : Nat} {ds : List UInt32} {tmo answer : Bool}
    (hd : ∀ d ∈ ds, slack < d.toNat ∧ d.toNat + slack < 2 ^ 32) (hne : ds ≠ [])
    (h : Recording delay slack ds tmo answer r0 r) :
    ∃ is, List.Forall₂ (Within (slack + 1)) is ds ∧ Stored r0 is r := by
  obtain ⟨a, seen, es, hseen, hes, halong, hend⟩ := h.run
  obtain ⟨ts, is, hpin, his⟩ := edges_of_late hseen hd
  have hlen := his.length_eq
  have hroom := h.room
  have hpos := List.length_pos_iff.2 hne
  refine ⟨is, his, ?_⟩
  rw [hpin, edges] at hes
  cases es with
  | nil => cases hes
  | cons e es =>
    cases e with
    | bit =>
      have hgo := halong.1.1
      rw [h.bitTimer] at hgo
      cases hgo
    | edge t b =>
      have hes : (t, b) :: es.filterMap Event.edge? = (ts, false) :: ends ts true is := hes
      obtain ⟨hhead, htail⟩ := List.cons.inj hes
      cases hhead
      obtain ⟨hmore, hfull⟩ := run_records tmo answer es is _ [] ts true (records_first h.sync h.pulses ts) htail
        (fun _ => rfl) (by rw [List.length_nil]; omega) (by rw [List.length_nil]; omega) halong.2
      rw [List.length_nil, Nat.zero_add, List.nil_append, hlen] at hmore hfull
      by_cases heq : ds.length = r0.base.mxPulse
      · rw [if_pos heq] at hend
        rw [hend]
        exact hfull heq
      · rw [if_neg heq] at hend
        rw [hend.2]
        refine stored_bit (hmore (by omega)) tmo answer (fun hnil => ?_) hend.1
        rw [hnil] at hlen
        exact absurd hlen (Nat.ne_of_lt hpos)

end Raw

/-! ## Learning -/

theorem within_trans {s s' : Nat} : ∀ {is' is ds : List UInt32}, List.Forall₂ (Within (s' + 1)) is' is →
    List.Forall₂ (Within (s + 1)) is ds → List.Forall₂ (Within (s + s' + 1)) is' ds
  | _, _, _, .nil, .nil => .nil
  | _, _, _, .cons h t, .cons h' t' => by
    refine .cons ?_ (within_trans t t')
    unfold Within at *
    omega

theorem within_mono {s s' : Nat} (h : s ≤ s') {is ds : List UInt32} (hw : List.Forall₂ (Within (s + 1)) is ds) :
    List.Forall₂ (Within (s' + 1)) is ds :=
  hw.imp fun _ _ hw => ⟨by have := hw.1; omega, by have := hw.2; omega⟩

theorem within_bounds {s lo hi : Nat} : ∀ {is ds : List UInt32}, List.Forall₂ (Within (s + 1)) is ds →
    (∀ d ∈ ds, lo + s < d.toNat ∧ d.toNat ≤ hi) → ∀ i ∈ is, lo < i.toNat ∧ i.toNat ≤ hi + s
  | _, _, .nil, _, _, hi => absurd hi List.not_mem_nil
  | _, _, .cons (b := d) h t, hd, i, hi => by
    rcases List.mem_cons.1 hi with rfl | hi
    · have hb := hd d List.mem_cons_self
      unfold Within at h
      omega
    · exact within_bounds t (fun x hx => hd x (List.mem_cons_of_mem _ hx)) i hi

theorem Remote.slack_le (m : Remote) : m.slack ≤ 299 := by
  cases m with
  | code _ => exact (by decide : 280 ≤ 299)
  | sony _ _ => exact Nat.le_refl 299

/-- Copies of a train that is nearly a message. -/
theorem hears_copies {m : Remote} (hm : m.Fits) {addr func : UInt16} (hc : m.Carries addr func) (delay : Nat)
    {slack' : Nat} {ds : List UInt32} (hd : ∀ d ∈ ds, slack' < d.toNat ∧ d.toNat + slack' < 2 ^ 32)
    (hds : ∀ is, List.Forall₂ (Within (slack' + 1)) is ds →
      List.Forall₂ (Within (m.slack + 1)) is (m.setMessageTimes addr func)) :
    ∀ (as : List Nat) (r : Receiver) (seen : List (Nat × Bool)), m.Listens r →
    List.Forall₂ (Late delay slack') (as.flatMap (fun a => bounds a true (ds.map UInt32.toNat))) seen →
    m.Listens (r.feed m.protocol (seen.map pin)) ∧
    (r.feed m.protocol (seen.map pin)).acts.map Act.untimed = r.acts.map Act.untimed ++
      List.replicate as.length (.received 0 (m.delivers addr func).1 (m.delivers addr func).2)
  | [], r, seen, hr, h => by
    cases h
    exact ⟨hr, (List.append_nil _).symm⟩
  | a :: as, r, seen, hr, h => by
    rw [List.flatMap_cons] at h
    obtain ⟨s, s', rfl, hs, hs'⟩ := Signal.late_split h
    obtain ⟨ts, is, hpin, his⟩ := edges_of_late hs hd
    have hears := hears_sent hm hc hr ts (hds is his)
    obtain ⟨hl, ha⟩ := hears_copies hm hc delay hd hds as _ s' hears.listens hs'
    rw [List.map_append, hpin, feed_append]
    refine ⟨hl, ?_⟩
    rw [ha, hears.acts, List.append_assoc]
    rfl

/-- **A message that is recorded and played again is heard as the message**, as often as the transmitter plays it, when
the delays at the recorder and those at the receiver do not differ by more than its slack together. -/
theorem learned {P : Pool} {m : Remote} (hm : m.Fits) {addr func : UInt16} (hc : m.Carries addr func) {delay slack : Nat}
    {tmo answer : Bool} {r0 v : Raw} (hrec : Raw.Recording delay slack (m.setMessageTimes addr func) tmo answer r0 v)
    (hroom : (m.setMessageTimes addr func).length ≤ r0.times.length) {slack' : Nat} (hslack : slack + slack' ≤ m.slack)
    {w : World} (hw : w.alarms = []) {R n : Nat} (hR : w.led.repeatInterval = R) (hR' : R * 1000 < 2 ^ 31)
    (hn : w.led.minimumRepeats = n) {r : Receiver} (hr : m.Listens r) :
    ∃ w1 w', (w.setOutputTimes ((v.times.take v.count).map UInt32.toNat)).transmit P = .ok (true, w1) ∧
      w1.fires ((n + 1) * ((m.setMessageTimes addr func).length + 2)) = .ok w' ∧ w'.alarms = [] ∧
      ∀ (delay' : Nat) (seen : List (Nat × Bool)),
        List.Forall₂ (Late delay' slack') (Signal.changes w'.wave false w.now (w'.now - w.now)) seen →
        m.Listens (r.feed m.protocol (seen.map pin)) ∧
        (r.feed m.protocol (seen.map pin)).acts.map Act.untimed = r.acts.map Act.untimed ++
          List.replicate (n + 1) (.received 0 (m.delivers addr func).1 (m.delivers addr func).2) := by
  have htrain := train_message hm addr func
  have hne : m.setMessageTimes addr func ≠ [] := fun h => htrain.ne_nil (by rw [h]; rfl)
  have hdur := htrain.durations
  obtain ⟨is, his, hstored⟩ := Raw.stored_of_recording (fun d hd => by
    obtain ⟨h1, h2⟩ := hdur d hd
    exact ⟨by omega, by omega⟩) hne hrec
  have hlen := his.length_eq
  have hbuf : v.times.take v.count = is := by
    rw [hstored.times, hstored.count, Nat.min_eq_left (by omega), List.take_of_length_le (i := r0.times.length) (by omega),
      List.take_left]
  have hall : ∀ i ∈ is, slack' < i.toNat ∧ i.toNat ≤ 8992 + slack :=
    within_bounds his fun d hd => ⟨by have := (hdur d hd).1; omega, (hdur d hd).2⟩
  have hsl := m.slack_le
  have hodd : (is.map UInt32.toNat).length % 2 = 1 := by
    rw [List.length_map, hlen]
    exact htrain.odd
  have hne' : is.map UInt32.toNat ≠ [] := fun h => by
    rw [h] at hodd
    cases hodd
  have hplayable : Playable (is.map UInt32.toNat) R := by
    have hle : ∀ x ∈ is.map UInt32.toNat, x ≤ 8992 + slack := by
      intro x hx
      obtain ⟨i, hi, rfl⟩ := List.mem_map.1 hx
      exact (hall i hi).2
    have hsum := List.sum_le_card_nsmul _ _ hle
    have hl67 := htrain.length
    have hmul := Nat.mul_le_mul (show is.length ≤ 67 by omega) (show 8992 + slack ≤ 8992 + 299 by omega)
    rw [List.length_map, smul_eq_mul] at hsum
    refine ⟨fun x hx => ?_, by omega, hR'⟩
    obtain ⟨i, hi, rfl⟩ := List.mem_map.1 hx
    exact Nat.lt_of_le_of_lt (Nat.zero_le _) (hall i hi).1
  obtain ⟨hnow, hR1, hn1, -⟩ := Remote.setOutputTimes_kept w (is.map UInt32.toNat)
  have hholds : Holds (is.map UInt32.toNat) (w.setOutputTimes (is.map UInt32.toNat)) :=
    setOutputTimes_holds (fun a ha => by rw [hw] at ha; cases ha) _
  obtain ⟨w1, w', hstart, -, hfires, hplayed, -⟩ := stop_plays hne' hplayable hholds (hR1.trans hR) n
  have hbursts := bursts_played hplayable hplayed hodd
  rw [← hn, ← hn1] at hstart
  rw [hbuf]
  refine ⟨w1, w', (transmit_eq hne' hholds).trans hstart, hfires _ (by rw [List.length_map, hlen]), hplayed.alarms,
    fun delay' seen hseen => ?_⟩
  rw [hnow] at hbursts
  rw [hbursts.changes, List.flatMap_map] at hseen
  have hheard := hears_copies hm hc delay' (fun i hi => ⟨(hall i hi).1, by have := (hall i hi).2; omega⟩)
    (fun is' h => within_mono hslack (within_trans h his))
    ((List.range (n + 1)).map fun c => w.now + c * period (is.map UInt32.toNat) R) r seen hr
    (by rw [List.flatMap_map]; exact hseen)
  rw [List.length_map, List.length_range] at hheard
  exact hheard

instance (r : Raw) : (e : Raw.Event) → Decidable (r.Goes e)
  | .edge _ _ => inferInstanceAs (Decidable True)
  | .bit => inferInstanceAs (Decidable (r.base.bitTimer = true ∧ r.base.pulses.length ≠ r.base.prevCount))

/-- A recorder with room for any message. -/
def recorder : Raw := Raw.beginRead { mxPulse := 100 } (List.replicate 50 0) 20

/-- A key is recorded, and the bit timer expires behind it. -/
def keyEvents : List Raw.Event :=
  (bounds 1000 true ((Sony.setMessageTimes 5 7 3 21).map UInt32.toNat)).map
    (fun e => .edge (pin e).1 (pin e).2) ++ [.bit]

theorem recording_key : Raw.Recording 0 0 ((Remote.sony 5 7).setMessageTimes 3 21) false false recorder
    ((keyEvents.foldl (Raw.step false false) recorder).timeoutBit false false) := by
  refine ⟨rfl, rfl, rfl, by decide, 1000, bounds 1000 true ((Sony.setMessageTimes 5 7 3 21).map UInt32.toNat), keyEvents,
    List.forall₂_same.2 fun e _ => ⟨rfl, Nat.le_refl _, Nat.le_refl _⟩, by decide +kernel, by decide +kernel, ?_⟩
  rw [if_neg (by decide)]
  exact ⟨by decide +kernel, rfl⟩

/-- A transmitter of its own plays what was recorded. -/
theorem learned_key :
    ∃ w1 w', (World.setOutputTimes { led := { repeatInterval := 45 } }
        ((((keyEvents.foldl (Raw.step false false) recorder).timeoutBit false false).times.take
          ((keyEvents.foldl (Raw.step false false) recorder).timeoutBit false false).count).map
          UInt32.toNat)).transmit .greatest = .ok (true, w1) ∧
      w1.fires 27 = .ok w' ∧
      (Receiver.feed (Sony.protocol 5 7) { mxPulse := 25, rcb := true, rpt := true }
        ((Signal.changes w'.wave false 0 w'.now).map pin)).acts.map Act.untimed = [.received 0 3 21] := by
  obtain ⟨w1, w', hstart, hfires, -, hheard⟩ := @learned .greatest (.sony 5 7) ⟨by decide, by decide, by decide⟩ 3 21
    ⟨by decide, by decide⟩ 0 0 false false recorder _ recording_key (by decide) 299 (Nat.le_refl _)
    { led := { repeatInterval := 45 } } rfl 45 0 rfl (by decide) rfl { mxPulse := 25, rcb := true, rpt := true }
    ⟨⟨rfl, rfl, rfl, rfl, rfl⟩, rfl, rfl, rfl, rfl⟩
  exact ⟨w1, w', hstart, hfires, (hheard 0 _ (List.forall₂_same.2 fun e _ =>
    ⟨rfl, Nat.le_refl _, Nat.le_add_right _ _⟩)).2⟩

end Ir
end Pico
