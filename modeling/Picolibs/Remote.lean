import Mathlib.Algebra.Group.Action.Defs
import Mathlib.Algebra.Order.BigOperators.Group.List
import Picolibs.IrCodes
import Picolibs.OnAir
import Picolibs.Repeats
import Picolibs.Sony
/-!
# Remote — from a transmitter to its receiver (`nec_transmitter.cpp` and its siblings, `ir_receiver.cpp`)

An application orders messages and repeats from an object of a transmitter, one when the one before has been played.
The receiver is called at the changes of the wave, each with a delay of its own.  `session_heard`: it calls back for
what was ordered, in order and nothing else.
-/
namespace Pico
namespace Ir

open Alarms (Pool)

/-- The times of `NEC_Transmitter::repeat`. -/
def Nec.repeatTimes : List UInt32 := [basePulse * 16, basePulse * 4, basePulse]

/-- A transmitter with the receiver for it. -/
inductive Remote where
  | code (c : Code)
  | sony (addressSize commandSize : Nat)
  deriving DecidableEq

/-- What an application orders: `setMessageTimes` and `transmit`, or `repeat`. -/
inductive Cmd where
  | send (addr func : UInt16)
  | again
  deriving DecidableEq

/-- An order, and the microseconds that pass before it. -/
structure Order where
  wait : Nat
  cmd : Cmd

namespace Remote

def setMessageTimes : Remote → UInt16 → UInt16 → List UInt32
  | code c => c.setMessageTimes
  | sony addressSize commandSize => Sony.setMessageTimes addressSize commandSize

/-- `repeatInterval`, in milliseconds. -/
def repeatInterval : Remote → Nat
  | code _ => 110
  | sony _ _ => 45

/-- `minimum_repeats`. -/
def minimumRepeats : Remote → Nat
  | code _ => 0
  | sony _ _ => 2

def protocol : Remote → Protocol
  | code c => c.protocol
  | sony addressSize commandSize => Sony.protocol addressSize commandSize

/-- The size of the receiver's buffer. -/
def messageLen : Remote → Nat
  | code _ => Ir.messageLen
  | sony addressSize commandSize => Sony.messageLen addressSize commandSize

/-- The new transmitter; what the slots hold is not said. -/
def start (m : Remote) (slots : List Nat) (now : Nat) : World :=
  { led := { times := slots, repeatInterval := m.repeatInterval, minimumRepeats := m.minimumRepeats }, now := now }

end Remote

/-- `repeat` of a transmitter. -/
def Remote.repeat (m : Remote) (P : Pool) (w : World) : Except Fault (Bool × World) :=
  if m = .code .nec then (w.setOutputTimes (Nec.repeatTimes.map UInt32.toNat)).repeat P else w.repeat P

def Remote.call (m : Remote) (P : Pool) (w : World) : Cmd → Except Fault (Bool × World)
  | .send addr func => (w.setOutputTimes ((m.setMessageTimes addr func).map UInt32.toNat)).transmit P
  | .again => m.repeat P w

/-- An order, and the alarms it leads to. -/
def Remote.obey (m : Remote) (P : Pool) (w : World) (o : Order) : Except Fault World := do
  let p ← m.call P { w with now := w.now + o.wait } o.cmd
  p.2.fires ((p.2.led.minimumRepeats.toNat + 1) * (p.2.led.nTimes + 2))

/-- What the receiver's interrupt handler is given of a change; the module pulls its output down in a mark. -/
def pin (e : Nat × Bool) : UInt64 × Bool := (UInt64.ofNat e.1, !e.2)

/-! ## What is to be heard -/

namespace Remote

/-- The sizes of a message are those that both sides can do with. -/
def Fits : Remote → Prop
  | code _ => True
  | sony addressSize commandSize => Sony.Sizes addressSize commandSize

/-- An address and a function that a message has room for. -/
def Carries : Remote → UInt16 → UInt16 → Prop
  | code _, _, _ => True
  | sony addressSize commandSize, addr, func => addr.toNat < 2 ^ addressSize ∧ func.toNat < 2 ^ commandSize

/-- What arrives of an address and a function. -/
def delivers : Remote → UInt16 → UInt16 → UInt16 × UInt16
  | code c, addr, func => (c.arrives addr, func.toUInt8.toUInt16)
  | sony _ _, addr, func => (addr, func)

/-- By how much the delays of the changes may differ. -/
def slack : Remote → Nat
  | code _ => 280
  | sony _ _ => 299

/-- The calls for the orders, behind a message of `key`, which the transmitter holds or not. -/
def heard (m : Remote) : UInt16 × UInt16 → Bool → List Cmd → List Act
  | _, _, [] => []
  | _, _, .send addr func :: cs =>
    List.replicate (m.minimumRepeats + 1) (.received 0 (m.delivers addr func).1 (m.delivers addr func).2) ++
      m.heard (m.delivers addr func) true cs
  | key, held, .again :: cs =>
    (if m = code .nec then [.repeated 0 key.1 key.2] else if held then [.received 0 key.1 key.2] else []) ++
      m.heard key held cs

end Remote

/-- A call without its time. -/
def Act.untimed : Act → Act
  | .received _ addr func => .received 0 addr func
  | .repeated _ addr func => .repeated 0 addr func
  | .error => .error

/-- A receiver for all addresses, between messages, with its callbacks set. -/
structure Remote.Listens (m : Remote) (r : Receiver) : Prop where
  idle : r.Idle
  mxPulse : r.mxPulse = m.messageLen
  address : r.address = 0xffff
  rcb : r.rcb = true
  rpt : r.rpt = true

/-! ## The changes that are seen are the edges of a message -/

open Signal (Late bounds)

theorem ofNat_sub_add {t t' : Nat} (h : t ≤ t') (hlt : t' - t < 2 ^ 32) :
    UInt64.ofNat t + (UInt32.ofNat (t' - t)).toUInt64 = UInt64.ofNat t' := by
  apply UInt64.toNat_inj.1
  rw [UInt64.toNat_add, UInt32.toNat_toUInt64, UInt32.toNat_ofNat', Nat.mod_eq_of_lt hlt, UInt64.toNat_ofNat',
    UInt64.toNat_ofNat', Nat.mod_add_mod, Nat.add_sub_cancel' h]

/-- **The intervals differ from the durations by less than the delays do.** -/
theorem ends_of_late {delay slack : Nat} : ∀ (ds : List UInt32) (a : Nat) (v : Bool) (seen : List (Nat × Bool)),
    List.Forall₂ (Late delay slack) (bounds a v (ds.map UInt32.toNat)) seen →
    (∀ d ∈ ds, slack < d.toNat ∧ d.toNat + slack < 2 ^ 32) →
    ∃ (t : Nat) (is : List UInt32), seen.map pin = (UInt64.ofNat t, !v) :: ends (UInt64.ofNat t) v is ∧
      a + delay ≤ t ∧ t ≤ a + delay + slack ∧ List.Forall₂ (Within (slack + 1)) is ds
  | [], a, v, seen, h, _ => by
    obtain ⟨e, tl, ⟨hv, hlo, hhi⟩, htl, rfl⟩ := List.forall₂_cons_left_iff.1 h
    cases htl
    exact ⟨e.1, [], by rw [List.map_singleton, pin, hv]; rfl, hlo, hhi, .nil⟩
  | d :: ds, a, v, seen, h, hd => by
    obtain ⟨e, tl, ⟨hv, hlo, hhi⟩, htl, rfl⟩ := List.forall₂_cons_left_iff.1 h
    obtain ⟨t', is, htl', hlo', hhi', his⟩ :=
      ends_of_late ds (a + d.toNat) (!v) tl htl fun x hx => hd x (List.mem_cons_of_mem _ hx)
    obtain ⟨hd1, hd2⟩ := hd d List.mem_cons_self
    have hlt : t' - e.1 < 2 ^ 32 := by omega
    refine ⟨e.1, UInt32.ofNat (t' - e.1) :: is, ?_, hlo, hhi, .cons ?_ his⟩
    · rw [List.map_cons, htl', pin, hv, ends, ofNat_sub_add (by omega) hlt, Bool.not_not]
    · rw [Within, UInt32.toNat_ofNat', Nat.mod_eq_of_lt hlt]
      omega

/-- The changes of a burst. -/
theorem edges_of_late {delay slack : Nat} {ds : List UInt32} {a : Nat} {seen : List (Nat × Bool)}
    (h : List.Forall₂ (Late delay slack) (bounds a true (ds.map UInt32.toNat)) seen)
    (hd : ∀ d ∈ ds, slack < d.toNat ∧ d.toNat + slack < 2 ^ 32) :
    ∃ (ts : UInt64) (is : List UInt32), seen.map pin = edges ts is ∧ List.Forall₂ (Within (slack + 1)) is ds := by
  obtain ⟨t, is, hs, -, -, his⟩ := ends_of_late ds a true seen h hd
  exact ⟨UInt64.ofNat t, is, hs, his⟩

/-! ## The durations of a message -/

theorem mem_byteTimes (base : UInt32) : ∀ (k : Nat) (data : UInt8), ∀ d ∈ byteTimes base k data, d = base ∨ d = base * 3
  | 0, _, d, h => absurd h List.not_mem_nil
  | k + 1, data, d, h => by
    rw [byteTimes] at h
    rcases List.mem_cons.1 h with rfl | h
    · exact .inl rfl
    · rcases List.mem_cons.1 h with rfl | h
      · split
        · exact .inl rfl
        · exact .inr rfl
      · exact mem_byteTimes base k _ d h

theorem mem_wordTimes : ∀ (k : Nat) (word mask : UInt16), ∀ d ∈ Sony.wordTimes k word mask, d = 600 ∨ d = 1200
  | 0, _, _, d, h => absurd h List.not_mem_nil
  | k + 1, word, mask, d, h => by
    rw [Sony.wordTimes] at h
    rcases List.mem_cons.1 h with rfl | h
    · exact .inl rfl
    · rcases List.mem_cons.1 h with rfl | h
      · split
        · exact .inl rfl
        · exact .inr rfl
      · exact mem_wordTimes k word _ d h

/-- What all trains of a transmitter have. -/
structure Train (m : Remote) (ds : List UInt32) : Prop where
  odd : ds.length % 2 = 1
  length : ds.length ≤ 67
  durations : ∀ d ∈ ds, m.slack < d.toNat ∧ d.toNat ≤ 8992

theorem Train.ne_nil {m : Remote} {ds : List UInt32} (h : Train m ds) : ds.map UInt32.toNat ≠ [] := by
  intro hc
  have hodd := h.odd
  rw [List.map_eq_nil_iff.1 hc] at hodd
  cases hodd

theorem Train.playable {m : Remote} {ds : List UInt32} (h : Train m ds) :
    Playable (ds.map UInt32.toNat) m.repeatInterval := by
  have hle : ∀ x ∈ ds.map UInt32.toNat, x ≤ 8992 := by
    intro x hx
    obtain ⟨d, hd, rfl⟩ := List.mem_map.1 hx
    exact (h.durations d hd).2
  have hsum := List.sum_le_card_nsmul _ _ hle
  rw [List.length_map, smul_eq_mul] at hsum
  have hlen := h.length
  refine ⟨fun x hx => ?_, by omega, ?_⟩
  · obtain ⟨d, hd, rfl⟩ := List.mem_map.1 hx
    exact Nat.lt_of_le_of_lt (Nat.zero_le _) (h.durations d hd).1
  · cases m with
    | code _ => exact (by decide : 110 * 1000 < 2 ^ 31)
    | sony _ _ => exact (by decide : 45 * 1000 < 2 ^ 31)

theorem train_code {mark : UInt32} (hm : 280 < mark.toNat ∧ mark.toNat ≤ 8992) (c : Code) (d0 d1 d2 d3 : UInt8) :
    Train (.code c) (messageTimes 562 mark [d0, d1, d2, d3]) := by
  have hlen := length_messageTimes 562 mark d0 d1 d2 d3
  have hall : ∀ d ∈ [562, 562 * 3, (562 : UInt32) * 8], 280 < d.toNat ∧ d.toNat ≤ 8992 := by simp
  refine ⟨by rw [hlen]; rfl, Nat.le_of_eq hlen, fun d hd => ?_⟩
  rcases List.mem_cons.1 hd with rfl | hd
  · exact hm
  rcases List.mem_cons.1 hd with rfl | hd
  · exact hall _ (by simp)
  rcases List.mem_append.1 hd with hd | hd
  · obtain ⟨b, -, hd⟩ := List.mem_flatMap.1 hd
    rcases mem_byteTimes 562 8 b d hd with rfl | rfl
    · exact hall _ (by simp)
    · exact hall _ (by simp)
  · rw [List.mem_singleton.1 hd]
    exact hall _ (by simp)

theorem train_message {m : Remote} (hm : m.Fits) (addr func : UInt16) : Train m (m.setMessageTimes addr func) := by
  cases m with
  | code c =>
    cases c with
    | nec => exact train_code ⟨by decide, by decide⟩ .nec _ _ _ _
    | samsung => exact train_code ⟨by decide, by decide⟩ .samsung _ _ _ _
  | sony addressSize commandSize =>
    have hm : Sony.Sizes addressSize commandSize := hm
    have hboth := hm.both
    have hlen : (Sony.setMessageTimes addressSize commandSize addr func).length = 2 * (addressSize + commandSize) + 1 := by
      rw [Sony.setMessageTimes, List.length_cons, List.length_append, Sony.length_wordTimes, Sony.length_wordTimes]
      omega
    refine ⟨by rw [Remote.setMessageTimes, hlen]; omega, by rw [Remote.setMessageTimes, hlen]; omega, fun d hd => ?_⟩
    have hall : ∀ d ∈ [600, 1200, (2400 : UInt32)], 299 < d.toNat ∧ d.toNat ≤ 8992 := by simp
    refine hall d ?_
    rcases List.mem_cons.1 hd with rfl | hd
    · exact List.mem_cons_of_mem _ (List.mem_cons_of_mem _ List.mem_cons_self)
    rcases List.mem_append.1 hd with hd | hd
    · rcases mem_wordTimes _ _ _ d hd with rfl | rfl
      · simp
      · simp
    · rcases mem_wordTimes _ _ _ d hd with rfl | rfl
      · simp
      · simp

theorem train_repeat : Train (.code .nec) Nec.repeatTimes :=
  ⟨rfl, by decide, by simp [Nec.repeatTimes, Nec.basePulse, Remote.slack]⟩

/-! ## What a receiver does with a train -/

/-- A train that fills the buffer. -/
theorem feed_message {P : Protocol} {IsMark IsSpace : UInt32 → Prop} (h : Starts P IsMark IsSpace) {r : Receiver}
    (hr : r.Idle) {i j : UInt32} (hi : IsMark i) (hj : IsSpace j) (is : List UInt32) (k : UInt32)
    (hlen : is.length + 3 = r.mxPulse) (ts : UInt64) {d : Bool × UInt16 × UInt16}
    (hd : P.decode (i :: j :: is ++ [k]) r.address.toUInt16 = d) :
    r.feed P (edges ts (i :: j :: is ++ [k])) =
      { r with pulses := [], sync := 0, prevTs := lastTs ts (i :: j :: is ++ [k]), rptAddr := d.2.1,
               rptFunc := d.2.2, msgTimer := false, bitTimer := false, sem := 1,
               acts := r.acts ++ r.outcome (lastTs ts (i :: j :: is ++ [k])) d } := by
  obtain ⟨b, hb⟩ := ends_concat (i :: j :: is) ts true k
  have hs := feed_start h hr hi hj is (by omega) ts
  have hl := store_last h (r := { r with pulses := i :: j :: is, sync := 2, prevTs := lastTs ts (i :: j :: is) }) rfl
    (by simp only [List.length_cons]; omega) k b hd
  have hall : r.feed P (edges ts (i :: j :: is ++ [k])) = ((r.feed P (edges ts (i :: j :: is))).storeTimestamp P
      (lastTs ts (i :: j :: is) + k.toUInt64) b) := by
    rw [edges, hb, ← List.cons_append, feed_append, ← edges]
    rfl
  rw [hall, hs, hl, lastTs_concat]
  rfl

/-- What a train does to a receiver: it listens on, knows a key, and has made a call. -/
structure Hears (m : Remote) (r r' : Receiver) (key : UInt16 × UInt16) (a : Act) : Prop where
  listens : m.Listens r'
  key : (r'.rptAddr, r'.rptFunc) = key
  acts : r'.acts.map Act.untimed = r.acts.map Act.untimed ++ [a]

theorem hears_message {m : Remote} {P : Protocol} {IsMark IsSpace : UInt32 → Prop} (h : Starts P IsMark IsSpace)
    {r : Receiver} (hr : m.Listens r) {i j : UInt32} (hi : IsMark i) (hj : IsSpace j) (is : List UInt32) (k : UInt32)
    (hlen : is.length + 3 = m.messageLen) (ts : UInt64) {addr func : UInt16}
    (hd : P.decode (i :: j :: is ++ [k]) 0xffff = (true, addr, func)) :
    Hears m r (r.feed P (edges ts (i :: j :: is ++ [k]))) (addr, func) (.received 0 addr func) := by
  have haddr : r.address.toUInt16 = 0xffff := by rw [hr.address]; rfl
  have hout : r.outcome (lastTs ts (i :: j :: is ++ [k])) (true, addr, func) =
      [.received (lastTs ts (i :: j :: is ++ [k])) addr func] := by
    rw [Receiver.outcome, if_pos rfl, if_pos hr.rcb]
  rw [← haddr] at hd
  rw [feed_message h hr.idle hi hj is k (hlen.trans hr.mxPulse.symm) ts hd, hout]
  exact ⟨⟨⟨rfl, rfl, rfl, hr.idle.msgTimeout, hr.idle.bitTimeout⟩, hr.mxPulse, hr.address, hr.rcb, hr.rpt⟩, rfl,
    List.map_append⟩

/-- **A message is heard as its key.** -/
theorem hears_sent {m : Remote} (hm : m.Fits) {addr func : UInt16} (hc : m.Carries addr func) {r : Receiver}
    (hr : m.Listens r) (ts : UInt64) {is : List UInt32}
    (h : List.Forall₂ (Within (m.slack + 1)) is (m.setMessageTimes addr func)) :
    Hears m r (r.feed m.protocol (edges ts is)) (m.delivers addr func)
      (.received 0 (m.delivers addr func).1 (m.delivers addr func).2) := by
  cases m with
  | code c =>
    have hfunc : c.setMessageTimes addr func = c.setMessageTimes addr func.toUInt8.toUInt16 := by
      cases c with
      | nec => simp only [Code.setMessageTimes, Nec.setMessageTimes, Nec.messageData, UInt8.toUInt8_toUInt16]
      | samsung =>
        simp only [Code.setMessageTimes, Samsung.setMessageTimes, Samsung.messageData, UInt8.toUInt8_toUInt16]
    have hnear : List.Forall₂ Near is (c.setMessageTimes addr func) := h
    rw [hfunc] at hnear
    have hd := decode_sent c addr func.toUInt8 hnear
    cases c with
    | nec =>
      obtain ⟨p, q, tl, k, rfl, hp, hq, hlen, -⟩ := near_split hnear
      exact hears_message syncs_nec.starts hr hp hq tl k (by rw [hlen]; rfl) ts hd
    | samsung =>
      obtain ⟨p, q, tl, k, rfl, hp, hq, hlen, -⟩ := near_split hnear
      exact hears_message syncs_samsung.starts hr hp hq tl k (by rw [hlen]; rfl) ts hd
  | sony addressSize commandSize =>
    have hm : Sony.Sizes addressSize commandSize := hm
    have hd : Sony.decode addressSize commandSize is 0xffff = (true, addr, func) := by
      rw [Sony.decode_sent hm.address.2 hm.value.2 hc.1 hc.2 h]
      simp
    obtain ⟨p, q, tl, k, rfl, hp, hq, hlen⟩ := Sony.within_split hm.value.1 h
    exact hears_message (Sony.starts addressSize commandSize) hr hp hq tl k hlen ts hd

/-- A mark that is no start of a message. -/
theorem store_stray {r : Receiver} (hr : r.sync = 0) {k : UInt32} (hk : Near k 562) :
    r.storeTimestamp Nec.protocol (r.prevTs + k.toUInt64) true =
      { r with pulses := [], prevTs := r.prevTs + k.toUInt64 } := by
  have hd := delta_add r k
  have hno : comparePulse k (Nec.basePulse * 16) (Nec.basePulse / 2) = false := by
    have hhi : k.toNat < 562 + 281 := hk.1
    have hn : ¬ k > Nec.basePulse * 16 - Nec.basePulse / 2 := by
      rw [gt_iff_lt, UInt32.lt_iff_toNat_lt]
      exact Nat.not_lt.2 (Nat.le_trans (Nat.le_of_lt hhi) (by decide))
    simp [comparePulse, hn]
  have hc : Nec.checkSync r (r.prevTs + k.toUInt64) true = (false, { r with pulses := [] }) := by
    unfold Nec.checkSync
    rw [if_pos hr]
    simp only [if_true]
    rw [show Receiver.delta { r with pulses := [] } (r.prevTs + k.toUInt64) = k from hd, hno]
    rfl
  rw [store_of_unsynced (P := Nec.protocol) hc, if_neg (fun h => h.2 hr)]

/-- **A repeat code is heard as the key before it.** -/
theorem hears_repeat {r : Receiver} (hr : Remote.Listens (.code .nec) r) (ts : UInt64) {is : List UInt32}
    (h : List.Forall₂ Near is Nec.repeatTimes) :
    Hears (.code .nec) r (r.feed Nec.protocol (edges ts is)) (r.rptAddr, r.rptFunc)
      (.repeated 0 r.rptAddr r.rptFunc) := by
  obtain ⟨p, tl, hp, htl, rfl⟩ := List.forall₂_cons_right_iff.1 h
  obtain ⟨q, tl', hq, htl', rfl⟩ := List.forall₂_cons_right_iff.1 htl
  obtain ⟨k, tl'', hk, htl'', rfl⟩ := List.forall₂_cons_right_iff.1 htl'
  cases htl''
  have hi := hr.idle
  have h1 := store_first syncs_nec.starts hi ts
  have hidle : Receiver.Idle { r with pulses := [], prevTs := ts } :=
    ⟨hi.sync, hi.msgTimer, hi.bitTimer, hi.msgTimeout, hi.bitTimeout⟩
  have h2 := store_mark syncs_nec.starts hidle hp
  have h3 := @Nec.edge_repeat { r with pulses := [p], sync := 1, prevTs := ts + p.toUInt64 }
    (ts + p.toUInt64 + q.toUInt64) false ⟨rfl, rfl, by
      rw [delta_add { r with pulses := [p], sync := 1, prevTs := ts + p.toUInt64 }]
      exact comparePulse_near (by decide) (by decide) (by decide) hq⟩
  rw [if_pos (show r.rpt = true from hr.rpt)] at h3
  have h4 := store_stray (r := { r with
    pulses := [], sync := 0, prevTs := ts + p.toUInt64 + q.toUInt64, msgTimer := false, bitTimer := false, sem := 1
    acts := r.acts ++ [.repeated (ts + p.toUInt64 + q.toUInt64) r.rptAddr r.rptFunc] }) rfl hk
  have hfeed : r.feed Nec.protocol (edges ts [p, q, k]) = (((r.storeTimestamp Nec.protocol ts false).storeTimestamp
      Nec.protocol (ts + p.toUInt64) true).storeTimestamp Nec.protocol (ts + p.toUInt64 + q.toUInt64)
      false).storeTimestamp Nec.protocol (ts + p.toUInt64 + q.toUInt64 + k.toUInt64) true := by
    simp only [edges, ends, Receiver.feed, List.foldl_cons, List.foldl_nil, Bool.not_true, Bool.not_false]
  rw [h1, h2, h3] at hfeed
  rw [hfeed.trans h4]
  exact ⟨⟨⟨rfl, rfl, rfl, hi.msgTimeout, hi.bitTimeout⟩, hr.mxPulse, hr.address, hr.rcb, hr.rpt⟩, rfl,
    List.map_append⟩

/-! ## What is played for the orders -/

/-- A train of a transmitter. -/
inductive Copy where
  | message (addr func : UInt16)
  | code

namespace Copy

def times (m : Remote) : Copy → List UInt32
  | message addr func => m.setMessageTimes addr func
  | code => Nec.repeatTimes

def Fine (m : Remote) : Copy → Prop
  | message addr func => m.Carries addr func
  | code => m = .code .nec

/-- The key that a receiver knows behind it. -/
def key (m : Remote) (k : UInt16 × UInt16) : Copy → UInt16 × UInt16
  | message addr func => m.delivers addr func
  | code => k

def call (m : Remote) (k : UInt16 × UInt16) : Copy → Act
  | message addr func => .received 0 (m.delivers addr func).1 (m.delivers addr func).2
  | code => .repeated 0 k.1 k.2

theorem train {m : Remote} (hm : m.Fits) {c : Copy} (hc : c.Fine m) : Train m (c.times m) := by
  cases c with
  | message addr func => exact train_message hm addr func
  | code =>
    cases hc
    exact train_repeat

/-- **A train is heard as what it is.** -/
theorem hears {m : Remote} (hm : m.Fits) {c : Copy} (hc : c.Fine m) {r : Receiver} (hr : m.Listens r) (ts : UInt64)
    {is : List UInt32} (h : List.Forall₂ (Within (m.slack + 1)) is (c.times m)) :
    Hears m r (r.feed m.protocol (edges ts is)) (c.key m (r.rptAddr, r.rptFunc))
      (c.call m (r.rptAddr, r.rptFunc)) := by
  cases c with
  | message addr func => exact hears_sent hm hc hr ts h
  | code =>
    cases hc
    exact hears_repeat hr ts h

end Copy

namespace Remote

/-- What the transmitter holds behind a repeat. -/
def again (m : Remote) (held : Option Copy) : Option Copy := if m = code .nec then some .code else held

/-- What is played for an order, and held behind it. -/
def copies (m : Remote) (held : Option Copy) : Cmd → List Copy × Option Copy
  | .send addr func => (List.replicate (m.minimumRepeats + 1) (.message addr func), some (.message addr func))
  | .again => ((m.again held).toList, m.again held)

/-- The transmitter between its orders. -/
structure Rests (m : Remote) (held : Option Copy) (w : World) : Prop where
  alarms : w.alarms = []
  repeatInterval : w.led.repeatInterval = m.repeatInterval
  minimumRepeats : w.led.minimumRepeats = m.minimumRepeats
  nTimes : w.led.nTimes = (held.map (fun c => (c.times m).length)).getD 0
  times : ∀ c ∈ held, w.led.times.take (c.times m).length = (c.times m).map UInt32.toNat
  fine : ∀ c ∈ held, c.Fine m
  quiet : ∀ t, w.now ≤ t → w.wave t = false

/-- What a run of orders adds to the wave. -/
structure Plays (m : Remote) (w w' : World) (held : Option Copy) (cs : List Copy) : Prop where
  rests : m.Rests held w'
  later : w.now ≤ w'.now
  past : ∀ t < w.now, w'.wave t = w.wave t
  bursts : ∃ bs, bs.map Prod.snd = cs.map (fun c => (c.times m).map UInt32.toNat) ∧
    Signal.Bursts w'.wave w.now (w'.now - w.now) bs

theorem Plays.trans {m : Remote} {w w' w'' : World} {held held' : Option Copy} {cs cs' : List Copy}
    (h : m.Plays w w' held cs) (h' : m.Plays w' w'' held' cs') : m.Plays w w'' held' (cs ++ cs') := by
  have hlater := h.later
  have hlater' := h'.later
  obtain ⟨bs, hbs, hb⟩ := h.bursts
  obtain ⟨bs', hbs', hb'⟩ := h'.bursts
  refine ⟨h'.rests, Nat.le_trans hlater hlater', fun t ht => ?_, bs ++ bs', ?_, ?_⟩
  · rw [h'.past t (by omega), h.past t ht]
  · rw [List.map_append, List.map_append, hbs, hbs']
  · have hfirst := hb.congr fun t _ ht => h'.past t (by omega)
    exact hfirst.trans hlater hlater' hb'

variable {P : Pool} {m : Remote}

/-- A transmission that starts behind a wait. -/
theorem plays_from (hm : m.Fits) {held : Option Copy} {w v : World} (hw : m.Rests held w) (hlater : w.now ≤ v.now)
    (hpast : ∀ t < v.now, v.wave t = w.wave t) {c : Copy} (hc : c.Fine m)
    (hv : Holds ((c.times m).map UInt32.toNat) v) (hR : v.led.repeatInterval = m.repeatInterval)
    (hr : v.led.minimumRepeats = m.minimumRepeats) (r : Nat) (hle : r ≤ m.minimumRepeats) :
    ∃ w1 w', ({ v.stop with led := { v.stop.led with outIndex := 0, repeats := r } } : World).start P = .ok (true, w1) ∧
      w1.fires ((w1.led.minimumRepeats.toNat + 1) * (w1.led.nTimes + 2)) = .ok w' ∧
      m.Plays w w' (some c) (List.replicate (r + 1) c) := by
  have htrain := Copy.train hm hc
  have hplayable := htrain.playable
  obtain ⟨w1, w', hstart, hsame1, hfires, hplayed, hsame⟩ := stop_plays htrain.ne_nil hplayable hv hR r
  have hodd : ((c.times m).map UInt32.toNat).length % 2 = 1 := by
    rw [List.length_map]
    exact htrain.odd
  have hend := hplayed.now
  have hfuel : (r + 1) * (((c.times m).map UInt32.toNat).length + 2) ≤
      (w1.led.minimumRepeats.toNat + 1) * (w1.led.nTimes + 2) := by
    rw [hsame1.minimumRepeats, hsame1.nTimes, hr, hv.nTimes, Int.toNat_natCast]
    exact Nat.mul_le_mul_right _ (Nat.succ_le_succ hle)
  refine ⟨w1, w', hstart, hfires _ hfuel, ⟨⟨hplayed.alarms, ?_, ?_, ?_, ?_, ?_, fun t ht => played_quiet hplayed ht⟩, ?_,
    fun t ht => ?_, ?_⟩⟩
  · rw [hsame.repeatInterval, hR]
  · rw [hsame.minimumRepeats, hr]
  · rw [hsame.nTimes, hv.nTimes, List.length_map]
    rfl
  · intro x hx
    cases hx
    have ht := hv.times
    rw [hsame.times]
    rwa [List.length_map] at ht
  · intro x hx
    cases hx
    exact hc
  · omega
  · rw [hsame.past t (by omega), hpast t (by omega)]
  · have hidle : Signal.Bursts w'.wave w.now (v.now - w.now) [] := Signal.bursts_idle fun t ht hlt => by
      rw [hsame.past t (by omega), hpast t (by omega), hw.quiet t ht]
    have hplay := bursts_played hplayable hplayed hodd
    refine ⟨_, ?_, hidle.trans hlater (by omega) hplay⟩
    rw [List.nil_append, List.map_map, List.map_replicate]
    exact List.ext_getElem (by simp) (by simp)

theorem setOutputTimes_kept (w : World) (ds : List Nat) : (w.setOutputTimes ds).now = w.now ∧
    (w.setOutputTimes ds).led.repeatInterval = w.led.repeatInterval ∧
    (w.setOutputTimes ds).led.minimumRepeats = w.led.minimumRepeats ∧
    ∀ t < w.now, (w.setOutputTimes ds).wave t = w.wave t := by
  unfold World.setOutputTimes World.stop
  by_cases h : w.led.timer ≠ -1
  · simp only [if_pos h]
    exact ⟨rfl, rfl, rfl, fun t ht => if_pos ht⟩
  · simp only [if_neg h]
    exact ⟨rfl, rfl, rfl, fun t ht => if_pos ht⟩

/-- Durations that are set behind a wait. -/
theorem plays_set (hm : m.Fits) {held : Option Copy} {w : World} (hw : m.Rests held w) (wait : Nat) {c : Copy}
    (hc : c.Fine m) (r : Nat) (hle : r ≤ m.minimumRepeats) :
    let v := World.setOutputTimes { w with now := w.now + wait } ((c.times m).map UInt32.toNat)
    Holds ((c.times m).map UInt32.toNat) v ∧ v.led.minimumRepeats = m.minimumRepeats ∧
    ∃ w1 w', ({ v.stop with led := { v.stop.led with outIndex := 0, repeats := r } } : World).start P = .ok (true, w1) ∧
      w1.fires ((w1.led.minimumRepeats.toNat + 1) * (w1.led.nTimes + 2)) = .ok w' ∧
      m.Plays w w' (some c) (List.replicate (r + 1) c) := by
  intro v
  have hnone : ∀ a ∈ ({ w with now := w.now + wait } : World).alarms, a.id = w.led.timer ∧ a.id ≠ -1 := by
    intro a ha
    have ha : a ∈ w.alarms := ha
    rw [hw.alarms] at ha
    cases ha
  have hv : Holds ((c.times m).map UInt32.toNat) v := setOutputTimes_holds hnone _
  obtain ⟨hnow, hR, hr, hwave⟩ := setOutputTimes_kept { w with now := w.now + wait } ((c.times m).map UInt32.toNat)
  have hr : v.led.minimumRepeats = m.minimumRepeats := hr.trans hw.minimumRepeats
  refine ⟨hv, hr, plays_from hm hw ?_ (fun t ht => ?_) hc hv (hR.trans hw.repeatInterval) hr r hle⟩
  · rw [hnow]
    exact Nat.le_add_right _ _
  · exact hwave t (by rw [hnow] at ht; exact ht)

theorem obey_of {w w1 w' : World} {wait : Nat} {cmd : Cmd}
    (h : m.call P { w with now := w.now + wait } cmd = .ok (true, w1))
    (hf : w1.fires ((w1.led.minimumRepeats.toNat + 1) * (w1.led.nTimes + 2)) = .ok w') :
    m.obey P w ⟨wait, cmd⟩ = .ok w' := by
  unfold obey
  simp only [bind, Except.bind]
  rw [h]
  exact hf

/-- A repeat of nothing. -/
theorem plays_nothing {w : World} (hw : m.Rests none w) (wait : Nat) :
    let v : World := { w with now := w.now + wait }
    v.repeat P = .ok (true, v.stop) ∧ m.Plays w v.stop none [] := by
  intro v
  obtain ⟨hled, hnow, -⟩ := stop_kept v
  have halarms : v.stop.alarms = [] := stop_alarms fun a ha => by
    have ha : a ∈ w.alarms := ha
    rw [hw.alarms] at ha
    cases ha
  have hsame := stop_same v
  have hn : v.stop.led.nTimes = 0 := hsame.nTimes.trans hw.nTimes
  have hquiet : ∀ t, w.now ≤ t → v.stop.wave t = false := by
    intro t ht
    by_cases hlt : t < v.now
    · rw [hsame.past t hlt]
      exact hw.quiet t ht
    · exact stop_off (Nat.le_of_not_lt hlt)
  refine ⟨?_, ⟨⟨halarms, hsame.repeatInterval.trans hw.repeatInterval, hsame.minimumRepeats.trans hw.minimumRepeats, hn,
    fun c hc => (by cases hc), fun c hc => (by cases hc), fun t ht => ?_⟩, ?_, fun t ht => ?_, ⟨[], rfl, ?_⟩⟩⟩
  · unfold World.repeat
    simp only
    rw [if_neg (by rw [hn]; exact Nat.lt_irrefl 0)]
  · rw [hnow] at ht
    exact hquiet t (Nat.le_trans (Nat.le_add_right w.now wait) ht)
  · rw [hnow]
    exact Nat.le_add_right _ _
  · exact hsame.past t (Nat.lt_of_lt_of_le ht (Nat.le_add_right _ _))
  · exact Signal.bursts_idle fun t ht _ => hquiet t ht

/-- **An order is played**, and leaves the transmitter between its orders. -/
theorem obey_plays (hm : m.Fits) {held : Option Copy} {w : World} (hw : m.Rests held w) (o : Order)
    (hc : ∀ addr func, o.cmd = .send addr func → m.Carries addr func) :
    ∃ w', m.obey P w o = .ok w' ∧ m.Plays w w' (m.copies held o.cmd).2 (m.copies held o.cmd).1 := by
  obtain ⟨wait, cmd⟩ := o
  cases cmd with
  | send addr func =>
    have hfine : (Copy.message addr func).Fine m := hc addr func rfl
    obtain ⟨hv, hr, w1, w', hstart, hfires, hplays⟩ := plays_set hm hw wait hfine m.minimumRepeats (Nat.le_refl _)
    refine ⟨w', obey_of ?_ hfires, hplays⟩
    rw [← hr] at hstart
    exact (transmit_eq (Copy.train hm hfine).ne_nil hv).trans hstart
  | again =>
    rw [copies, again]
    by_cases hnec : m = code .nec
    · obtain ⟨hv, -, w1, w', hstart, hfires, hplays⟩ := plays_set hm hw wait (c := .code) hnec 0 (Nat.zero_le _)
      rw [if_pos hnec]
      refine ⟨w', obey_of ?_ hfires, hplays⟩
      rw [call, Remote.repeat, if_pos hnec]
      exact (repeat_eq (Copy.train hm (c := .code) hnec).ne_nil hv).trans hstart
    · rw [if_neg hnec]
      have hcall : m.call P { w with now := w.now + wait } .again = World.repeat P { w with now := w.now + wait } := by
        rw [call, Remote.repeat, if_neg hnec]
      cases held with
      | some c =>
        have hfine := hw.fine c rfl
        have hv : Holds ((c.times m).map UInt32.toNat) { w with now := w.now + wait } := by
          refine ⟨?_, ?_, fun a ha => ?_⟩
          · rw [List.length_map]
            exact hw.nTimes
          · rw [List.length_map]
            exact hw.times c rfl
          · have ha : a ∈ w.alarms := ha
            rw [hw.alarms] at ha
            cases ha
        obtain ⟨w1, w', hstart, hfires, hplays⟩ := plays_from (v := { w with now := w.now + wait }) hm hw
          (Nat.le_add_right w.now wait) (fun t _ => rfl) hfine hv hw.repeatInterval hw.minimumRepeats 0 (Nat.zero_le _)
        exact ⟨w', obey_of (hcall.trans ((repeat_eq (Copy.train hm hfine).ne_nil hv).trans hstart)) hfires, hplays⟩
      | none =>
        obtain ⟨hcall', hplays⟩ := plays_nothing hw wait
        exact ⟨_, obey_of (hcall.trans hcall') (fires_idle hplays.rests.alarms _), hplays⟩

/-- What is played for a list of orders. -/
def copiesOf (m : Remote) : Option Copy → List Cmd → List Copy
  | _, [] => []
  | held, c :: cs => (m.copies held c).1 ++ m.copiesOf (m.copies held c).2 cs

theorem Plays.refl {held : Option Copy} {w : World} (hw : m.Rests held w) : m.Plays w w held [] :=
  ⟨hw, Nat.le_refl _, fun _ _ => rfl, [], rfl, Signal.bursts_idle fun t ht _ => hw.quiet t ht⟩

/-- **Orders are played** one after the other. -/
theorem orders_play (hm : m.Fits) : ∀ (os : List Order) (held : Option Copy) (w : World), m.Rests held w →
    (∀ o ∈ os, ∀ addr func, o.cmd = .send addr func → m.Carries addr func) →
    ∃ w' held', os.foldlM (m.obey P) w = .ok w' ∧ m.Plays w w' held' (m.copiesOf held (os.map (·.cmd)))
  | [], held, w, hw, _ => ⟨w, held, rfl, .refl hw⟩
  | o :: os, held, w, hw, hc => by
    obtain ⟨w1, hobey, hplays⟩ := obey_plays hm hw o (hc o List.mem_cons_self)
    obtain ⟨w', held', hrun, hplays'⟩ := orders_play hm os _ w1 hplays.rests fun x hx => hc x (List.mem_cons_of_mem _ hx)
    refine ⟨w', held', ?_, hplays.trans hplays'⟩
    rw [List.foldlM_cons, hobey]
    exact hrun

theorem copies_fine {held : Option Copy} (hheld : ∀ c ∈ held, c.Fine m) {cmd : Cmd}
    (hc : ∀ addr func, cmd = .send addr func → m.Carries addr func) :
    (∀ c ∈ (m.copies held cmd).1, c.Fine m) ∧ ∀ c ∈ (m.copies held cmd).2, c.Fine m := by
  cases cmd with
  | send addr func =>
    have hfine : (Copy.message addr func).Fine m := hc addr func rfl
    refine ⟨fun c hmem => ?_, fun c hmem => ?_⟩
    · rw [(List.mem_replicate.1 hmem).2]
      exact hfine
    · cases hmem
      exact hfine
  | again =>
    have hagain : ∀ c ∈ m.again held, c.Fine m := by
      intro c hmem
      rw [again] at hmem
      split at hmem
      · next hnec =>
        cases hmem
        exact hnec
      · exact hheld c hmem
    exact ⟨fun c hmem => hagain c (Option.mem_toList.1 hmem), hagain⟩

theorem copiesOf_fine : ∀ (cmds : List Cmd) (held : Option Copy), (∀ c ∈ held, c.Fine m) →
    (∀ cmd ∈ cmds, ∀ addr func, cmd = .send addr func → m.Carries addr func) → ∀ c ∈ m.copiesOf held cmds, c.Fine m
  | [], _, _, _, _, hmem => absurd hmem List.not_mem_nil
  | cmd :: cmds, held, hheld, hc, c, hmem => by
    obtain ⟨h1, h2⟩ := copies_fine hheld (hc cmd List.mem_cons_self)
    rcases List.mem_append.1 hmem with hmem | hmem
    · exact h1 c hmem
    · exact copiesOf_fine cmds _ h2 (fun x hx => hc x (List.mem_cons_of_mem _ hx)) c hmem

/-! ## What is heard of them -/

/-- The calls for trains, behind a key. -/
def calls (m : Remote) : UInt16 × UInt16 → List Copy → List Act
  | _, [] => []
  | k, c :: cs => c.call m k :: m.calls (c.key m k) cs

/-- **Trains are heard** one after the other. -/
theorem hears_all (hm : m.Fits) {delay : Nat} : ∀ (cs : List Copy) (bs : List (Nat × List Nat)) (r : Receiver)
    (seen : List (Nat × Bool)), m.Listens r → (∀ c ∈ cs, c.Fine m) →
    bs.map Prod.snd = cs.map (fun c => (c.times m).map UInt32.toNat) →
    List.Forall₂ (Late delay m.slack) (bs.flatMap (fun b => bounds b.1 true b.2)) seen →
    m.Listens (r.feed m.protocol (seen.map pin)) ∧
    (r.feed m.protocol (seen.map pin)).acts.map Act.untimed =
      r.acts.map Act.untimed ++ m.calls (r.rptAddr, r.rptFunc) cs
  | [], bs, r, seen, hr, _, hbs, h => by
    rw [List.map_nil, List.map_eq_nil_iff] at hbs
    subst hbs
    cases h
    exact ⟨hr, (List.append_nil _).symm⟩
  | c :: cs, bs, r, seen, hr, hf, hbs, h => by
    obtain ⟨b, bs, rfl⟩ : ∃ b bs', bs = b :: bs' := by
      cases bs with
      | nil => cases hbs
      | cons b bs' => exact ⟨b, bs', rfl⟩
    obtain ⟨hb, hbs⟩ := List.cons.inj hbs
    rw [List.flatMap_cons] at h
    obtain ⟨s, s', rfl, hs, hs'⟩ := Signal.late_split h
    have hfine := hf c List.mem_cons_self
    rw [hb] at hs
    obtain ⟨ts, is, hpin, his⟩ := edges_of_late hs fun d hd => by
      obtain ⟨h1, h2⟩ := (Copy.train hm hfine).durations d hd
      exact ⟨h1, by omega⟩
    have hears := Copy.hears hm hfine hr ts his
    rw [List.map_append, hpin, feed_append]
    obtain ⟨hl, ha⟩ := hears_all hm cs bs _ s' hears.listens (fun x hx => hf x (List.mem_cons_of_mem _ hx)) hbs hs'
    refine ⟨hl, ?_⟩
    rw [ha, hears.acts, hears.key, List.append_assoc]
    rfl

theorem calls_replicate (addr func : UInt16) (cs : List Copy) : ∀ (n : Nat) (k : UInt16 × UInt16),
    m.calls k (List.replicate (n + 1) (.message addr func) ++ cs) =
      List.replicate (n + 1) (.received 0 (m.delivers addr func).1 (m.delivers addr func).2) ++
        m.calls (m.delivers addr func) cs
  | 0, _ => rfl
  | n + 1, _ => congrArg (List.cons (Act.received 0 (m.delivers addr func).1 (m.delivers addr func).2))
      (calls_replicate addr func cs n (m.delivers addr func))

/-- What is held goes with the key. -/
def Keeps (m : Remote) (k : UInt16 × UInt16) (held : Bool) : Option Copy → Prop
  | none => held = false
  | some (.message addr func) => held = true ∧ k = m.delivers addr func
  | some .code => m = code .nec

theorem heard_eq : ∀ (cmds : List Cmd) (k : UInt16 × UInt16) (held : Bool) (c : Option Copy), m.Keeps k held c →
    m.heard k held cmds = m.calls k (m.copiesOf c cmds)
  | [], _, _, _, _ => rfl
  | .send addr func :: cmds, k, held, c, _ => by
    rw [heard, copiesOf, copies, calls_replicate,
      heard_eq cmds (m.delivers addr func) true (some (.message addr func)) ⟨rfl, rfl⟩]
  | .again :: cmds, k, held, c, hk => by
    rw [heard, copiesOf, copies, again]
    by_cases hnec : m = code .nec
    · rw [if_pos hnec, if_pos hnec, heard_eq cmds k held (some .code) hnec]
      rfl
    · rw [if_neg hnec, if_neg hnec, heard_eq cmds k held c hk]
      cases c with
      | none =>
        cases hk
        rfl
      | some c =>
        cases c with
        | message addr func =>
          obtain ⟨rfl, rfl⟩ := hk
          rfl
        | code => exact absurd hk hnec

end Remote

/-- **What is ordered is heard.**  Whatever an application orders from a new transmitter, one order when the one before
has been played, every order is played to its end; and a receiver that is called for every change of the wave, with
delays that differ by no more than the slack, calls back for every copy of every message, for every repeat, and for
nothing else. -/
theorem session_heard {P : Pool} {m : Remote} (hm : m.Fits) (slots : List Nat) (now : Nat) {orders : List Order}
    (hc : ∀ o ∈ orders, ∀ addr func, o.cmd = .send addr func → m.Carries addr func) {r : Receiver}
    (hr : m.Listens r) :
    ∃ w', orders.foldlM (m.obey P) (m.start slots now) = .ok w' ∧ w'.alarms = [] ∧
      ∀ (delay : Nat) (seen : List (Nat × Bool)),
        List.Forall₂ (Late delay m.slack) (Signal.changes w'.wave false now (w'.now - now)) seen →
        m.Listens (r.feed m.protocol (seen.map pin)) ∧
        (r.feed m.protocol (seen.map pin)).acts.map Act.untimed =
          r.acts.map Act.untimed ++ m.heard (r.rptAddr, r.rptFunc) false (orders.map (·.cmd)) := by
  have hstart : m.Rests none (m.start slots now) :=
    ⟨rfl, rfl, rfl, rfl, fun c hc => (by cases hc), fun c hc => (by cases hc), fun _ _ => rfl⟩
  obtain ⟨w', held', hrun, hplays⟩ := Remote.orders_play hm orders none _ hstart hc
  obtain ⟨bs, hbs, hbursts⟩ := hplays.bursts
  refine ⟨w', hrun, hplays.rests.alarms, fun delay seen hseen => ?_⟩
  have hfine := Remote.copiesOf_fine (m := m) (orders.map (·.cmd)) none (fun c hc => by cases hc) fun cmd hcmd => by
    obtain ⟨o, ho, rfl⟩ := List.mem_map.1 hcmd
    exact hc o ho
  rw [show now = (m.start slots now).now from rfl, hbursts.changes] at hseen
  rw [Remote.heard_eq (orders.map (·.cmd)) (r.rptAddr, r.rptFunc) false none rfl]
  exact Remote.hears_all hm _ bs r seen hr hfine hbs hseen

/-- A key is pressed and held on a remote control. -/
theorem session_heard_held :
    ∃ w', [⟨5, .send 0x1234 0x45⟩, ⟨0, .again⟩, ⟨900, .again⟩].foldlM ((Remote.code .nec).obey .greatest)
        ((Remote.code .nec).start [] 7) = .ok w' ∧
      (Receiver.feed (Remote.code .nec).protocol { mxPulse := messageLen, rcb := true, rpt := true }
        (((Signal.changes w'.wave false 7 (w'.now - 7)).map (fun e => (e.1 + 40, e.2))).map pin)).acts.map Act.untimed =
        [.received 0 0x1234 0x45, .repeated 0 0x1234 0x45, .repeated 0 0x1234 0x45] := by
  obtain ⟨w', hrun, -, hheard⟩ := @session_heard .greatest (.code .nec) trivial [] 7
    [⟨5, .send 0x1234 0x45⟩, ⟨0, .again⟩, ⟨900, .again⟩] (fun _ _ _ _ _ => trivial)
    { mxPulse := messageLen, rcb := true, rpt := true } ⟨⟨rfl, rfl, rfl, rfl, rfl⟩, rfl, rfl, rfl, rfl⟩
  have hlate : ∀ l : List (Nat × Bool), List.Forall₂ (Late 40 280) l (l.map (fun e => (e.1 + 40, e.2))) := by
    intro l
    rw [List.forall₂_map_right_iff, List.forall₂_same]
    exact fun e _ => ⟨rfl, Nat.le_refl _, Nat.le_add_right _ _⟩
  exact ⟨w', hrun, (hheard 40 _ (hlate _)).2⟩

end Ir
end Pico
