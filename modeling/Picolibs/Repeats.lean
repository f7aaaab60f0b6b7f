import Picolibs.IrCodes
import Picolibs.Loop
/-!
# Repeats — what a repeat code of NEC reports (`nec_receiver.cpp` with the timers of `ir_receiver.cpp`)

A repeat is a mark and a short space.  `check_sync` finds it, and passes on `rpt_addr_` and `rpt_func_`, which
`decode` writes for every full buffer, whatever it makes of it.

The events of a receiver are its edges and the expiries of its two timers; a timeout callback answers as it likes.
-/
namespace Pico
namespace Ir

open History (Reach Justified)

namespace Receiver

/-- `timeout`; the callback is set or not, and has an answer. -/
def timeout (tmo answer : Bool) (r : Receiver) : Bool × Receiver :=
  if tmo then (answer, if answer then r else r.reset) else (false, r.messageError)

/-- `timeout_msg`. -/
def timeoutMsg (tmo answer : Bool) (r : Receiver) : Receiver := { (r.timeout tmo answer).2 with msgTimer := false }

/-- The alarm of a bit goes off again after `bit_timeout_`, unless that comes to 0. -/
def bitAgain (r : Receiver) : Receiver :=
  let r := { r with prevCount := r.pulses.length }
  if r.bitTimeout * 1000 % 2 ^ 32 = 0 then { r with bitTimer := false } else r

/-- `timeout_bit`, with the `check_bit_timeout` of the subclass. -/
def timeoutBit (checkBitTimeout : Receiver → Bool) (tmo answer : Bool) (r : Receiver) : Receiver :=
  if r.sync ≠ 0 then
    if r.pulses.length = r.prevCount && checkBitTimeout r then
      let t := r.timeout tmo answer
      if t.1 then t.2.bitAgain else { t.2 with bitTimer := false }
    else r.bitAgain
  else { r with bitTimer := false }

/-- The pulses once an edge of a message is stored. -/
def stored (r : Receiver) (ts : UInt64) : List UInt32 :=
  if r.pulses.length < r.mxPulse then r.pulses ++ [r.delta ts] else r.pulses

end Receiver

/-- What the application sets, and what was reported and would be, are as they were. -/
structure Quiet (r r' : Receiver) : Prop where
  mxPulse : r'.mxPulse = r.mxPulse
  address : r'.address = r.address
  rcb : r'.rcb = r.rcb
  rpt : r'.rpt = r.rpt
  rptAddr : r'.rptAddr = r.rptAddr
  rptFunc : r'.rptFunc = r.rptFunc
  acts : r'.acts = r.acts ∨ r'.acts = r.acts ++ [.error]

theorem Quiet.rfl {r : Receiver} : Quiet r r := ⟨by rfl, by rfl, by rfl, by rfl, by rfl, by rfl, Or.inl (by rfl)⟩

theorem quiet_reset (r : Receiver) : Quiet r r.reset := ⟨rfl, rfl, rfl, rfl, rfl, rfl, Or.inl rfl⟩

theorem quiet_messageError (r : Receiver) : Quiet r r.messageError := by
  unfold Receiver.messageError
  cases r.err with
  | true => exact ⟨rfl, rfl, rfl, rfl, rfl, rfl, Or.inr rfl⟩
  | false => exact quiet_reset r

theorem quiet_timeout (tmo answer : Bool) (r : Receiver) : Quiet r (r.timeout tmo answer).2 := by
  unfold Receiver.timeout
  cases tmo with
  | true =>
    cases answer with
    | true => exact .rfl
    | false => exact quiet_reset r
  | false => exact quiet_messageError r

theorem quiet_timeoutMsg (tmo answer : Bool) (r : Receiver) : Quiet r (r.timeoutMsg tmo answer) :=
  { quiet_timeout tmo answer r with }

theorem Quiet.bitAgain {r r' : Receiver} (h : Quiet r r') : Quiet r r'.bitAgain := by
  unfold Receiver.bitAgain
  simp only
  split
  · exact { h with }
  · exact { h with }

theorem quiet_timeoutBit (check : Receiver → Bool) (tmo answer : Bool) (r : Receiver) :
    Quiet r (r.timeoutBit check tmo answer) := by
  have h := quiet_timeout tmo answer r
  have h0 : Quiet r r := .rfl
  unfold Receiver.timeoutBit
  simp only
  split
  · split
    · split
      · exact h.bitAgain
      · exact { h with }
    · exact h0.bitAgain
  · exact { h0 with }

theorem startMessageTimeout_cases (r : Receiver) :
    r.startMessageTimeout = r ∨ r.startMessageTimeout = { r with msgTimer := true } := by
  unfold Receiver.startMessageTimeout
  split
  · exact Or.inr rfl
  · exact Or.inl rfl

theorem quiet_startMessageTimeout (r : Receiver) : Quiet r r.startMessageTimeout := by
  rcases startMessageTimeout_cases r with h | h
  · rw [h]
    exact .rfl
  · rw [h]
    exact ⟨rfl, rfl, rfl, rfl, rfl, rfl, Or.inl rfl⟩

/-- `start_timeout` sets timers and the count beside them. -/
theorem startTimeout_eq (r : Receiver) :
    ∃ m b n, r.startTimeout = { r with msgTimer := m, bitTimer := b, prevCount := n } := by
  unfold Receiver.startTimeout
  rcases startMessageTimeout_cases r with h | h
  · rw [h]
    by_cases hb : 0 < r.bitTimeout
    · exact ⟨r.msgTimer, true, r.pulses.length, if_pos hb⟩
    · exact ⟨r.msgTimer, r.bitTimer, r.prevCount, if_neg hb⟩
  · rw [h]
    by_cases hb : 0 < r.bitTimeout
    · exact ⟨true, true, r.pulses.length, if_pos hb⟩
    · exact ⟨true, r.bitTimer, r.prevCount, if_neg hb⟩

theorem Quiet.startTimeout {r r' : Receiver} (h : Quiet r r') : Quiet r r'.startTimeout := by
  obtain ⟨m, b, n, he⟩ := startTimeout_eq r'
  rw [he]
  exact { h with }

theorem store_of_unsynced {P : Protocol} {r r' : Receiver} {ts : UInt64} {falling : Bool}
    (h : P.checkSync r ts falling = (false, r')) :
    r.storeTimestamp P ts falling =
      if r.sync = 0 ∧ r'.sync ≠ 0 then Receiver.startTimeout { r' with prevTs := ts }
      else { r' with prevTs := ts } := by
  unfold Receiver.storeTimestamp
  rw [h]
  rfl

theorem Quiet.store {P : Protocol} {r r' : Receiver} {ts : UInt64} {falling : Bool} (hq : Quiet r r')
    (h : P.checkSync r ts falling = (false, r')) : Quiet r (r.storeTimestamp P ts falling) := by
  have ht : Quiet r { r' with prevTs := ts } := { hq with }
  rw [store_of_unsynced h]
  split
  · exact ht.startTimeout
  · exact ht

theorem store_of_synced {P : Protocol} {r : Receiver} {ts : UInt64} {falling : Bool}
    (h : P.checkSync r ts falling = (true, r)) (hs : r.sync ≠ 0) :
    r.storeTimestamp P ts falling =
      if (r.stored ts).length = r.mxPulse then
        { Receiver.messageComplete P { r with pulses := r.stored ts } ts with prevTs := ts }
      else { r with pulses := r.stored ts, prevTs := ts } := by
  unfold Receiver.storeTimestamp Receiver.stored
  rw [h]
  simp only [if_true, hs, false_and, if_false]
  by_cases hlt : r.pulses.length < r.mxPulse
  · rw [if_pos hlt, if_pos hlt]
    split
    · rfl
    · rfl
  · rw [if_neg hlt, if_neg hlt]
    split
    · rfl
    · rfl

namespace Nec

inductive Event where
  | edge (ts : UInt64) (falling : Bool)
  | msg (answer : Bool)
  | bit (answer : Bool)
  | start
  deriving DecidableEq

/-- A timer expires that is set. -/
def Can (r : Receiver) : Event → Prop
  | .msg _ => r.msgTimer = true
  | .bit _ => r.bitTimer = true
  | _ => True

def step (tmo : Bool) (r : Receiver) : Event → Receiver
  | .edge ts falling => r.storeTimestamp protocol ts falling
  | .msg answer => r.timeoutMsg tmo answer
  | .bit answer => r.timeoutBit (fun r => r.sync = 2) tmo answer
  | .start => r.startMessageTimeout

/-- A receiver as the constructor leaves it and the application sets it up. -/
def receiver (address : UInt32) (rcb rpt err : Bool) (msgTimeout bitTimeout : Nat) : Receiver :=
  { mxPulse := messageLen, address := address, rcb := rcb, rpt := rpt, err := err, msgTimeout := msgTimeout,
    bitTimeout := bitTimeout }

/-! ## What is reported -/

/-- The last message that was delivered. -/
def lastReceived (acts : List Act) : Option (UInt16 × UInt16) :=
  acts.foldl (fun d a => match a with | .received _ addr func => some (addr, func) | _ => d) none

/-- Every repeat reports the last message before it. -/
def Truthful (acts : List Act) : Prop :=
  Justified (fun pre a => ∀ ts addr func, a = .repeated ts addr func → lastReceived pre = some (addr, func)) acts

/-- An edge that ends a repeat code. -/
def Repeats (r : Receiver) (ts : UInt64) (falling : Bool) : Prop :=
  r.sync = 1 ∧ falling = false ∧ comparePulse (r.delta ts) (basePulse * 4) (basePulse / 2) = true

/-- An edge that fills the buffer. -/
def Completes (r : Receiver) (ts : UInt64) : Prop := r.sync = 2 ∧ (r.stored ts).length = r.mxPulse

instance (r : Receiver) (ts : UInt64) (falling : Bool) : Decidable (Repeats r ts falling) :=
  inferInstanceAs (Decidable (_ ∧ _ ∧ _))

instance (r : Receiver) (ts : UInt64) : Decidable (Completes r ts) := inferInstanceAs (Decidable (_ ∧ _))

/-- Nothing is repeated before the first message, and after it a buffer that is not delivered has its values. -/
def Fine (r : Receiver) : Event → Prop
  | .edge ts falling => r.rpt = true →
      (Repeats r ts falling → lastReceived r.acts ≠ none) ∧
      (Completes r ts → ∀ d ∈ lastReceived r.acts,
        (r.rcb = true ∧ (decode (r.stored ts) r.address.toUInt16).1 = true) ∨
          (decode (r.stored ts) r.address.toUInt16).2 = d)
  | _ => True

instance (r : Receiver) : (e : Event) → Decidable (Can r e)
  | .edge _ _ => inferInstanceAs (Decidable True)
  | .msg _ => inferInstanceAs (Decidable (_ = _))
  | .bit _ => inferInstanceAs (Decidable (_ = _))
  | .start => inferInstanceAs (Decidable True)

instance (r : Receiver) : (e : Event) → Decidable (Fine r e)
  | .edge ts _ =>
    have : Decidable (∀ d ∈ lastReceived r.acts,
        (r.rcb = true ∧ (decode (r.stored ts) r.address.toUInt16).1 = true) ∨
          (decode (r.stored ts) r.address.toUInt16).2 = d) := Option.decidableForallMem _
    inferInstanceAs (Decidable (_ → (_ → _) ∧ (_ → _)))
  | .msg _ => inferInstanceAs (Decidable True)
  | .bit _ => inferInstanceAs (Decidable True)
  | .start => inferInstanceAs (Decidable True)

theorem lastReceived_concat (acts : List Act) (a : Act) :
    lastReceived (acts ++ [a]) =
      match a with | .received _ addr func => some (addr, func) | _ => lastReceived acts := by
  rw [lastReceived, List.foldl_concat]
  rfl

theorem truthful_concat {acts : List Act} {a : Act} (h : Truthful acts)
    (ha : ∀ ts addr func, a = .repeated ts addr func → lastReceived acts = some (addr, func)) :
    Truthful (acts ++ [a]) := History.justified_snoc h ha

/-! ## What an edge can do -/

theorem not_space {p : UInt32} (h : comparePulse p (basePulse * 4) (basePulse / 2) = true) :
    comparePulse p (basePulse * 8) (basePulse / 2) = false := by
  rw [Bool.eq_false_iff, ne_eq, comparePulse_iff (by decide) (by decide)]
  rw [comparePulse_iff (by decide) (by decide)] at h
  obtain ⟨h1, -⟩ := h
  rintro ⟨-, h2⟩
  have h1 : p.toNat < 2248 + 281 := h1
  have h2 : 4496 < p.toNat + 281 := h2
  omega

/-- The start of a message is looked for. -/
theorem edge_idle {r : Receiver} (hr : r.sync = 0) (ts : UInt64) (falling : Bool) :
    Quiet r (r.storeTimestamp protocol ts falling) := by
  have h0 : Quiet r r := .rfl
  have hc : ∃ r', checkSync r ts falling = (false, r') ∧ Quiet r r' := by
    unfold checkSync
    rw [if_pos hr]
    simp only
    split
    · split
      · exact ⟨_, rfl, { h0 with }⟩
      · exact ⟨_, rfl, { h0 with }⟩
    · exact ⟨_, rfl, { h0 with }⟩
  obtain ⟨r', hr', hq⟩ := hc
  exact hq.store hr'

/-- The space after the first mark is looked at. -/
theorem edge_mark {r : Receiver} (hr : r.sync = 1) {ts : UInt64} {falling : Bool} (hn : ¬ Repeats r ts falling) :
    Quiet r (r.storeTimestamp protocol ts falling) := by
  have h0 : Quiet r r := .rfl
  have hc : ∃ r', checkSync r ts falling = (false, r') ∧ Quiet r r' := by
    unfold checkSync
    rw [if_neg (by rw [hr]; decide), if_pos hr]
    simp only
    split
    · exact ⟨_, rfl, { h0 with }⟩
    · rw [if_neg]
      · exact ⟨_, rfl, quiet_reset r⟩
      · rw [Bool.and_eq_true, Bool.not_eq_true']
        exact fun h => hn ⟨hr, h.1, h.2⟩
  obtain ⟨r', hr', hq⟩ := hc
  exact hq.store hr'

/-- A repeat code is passed on. -/
theorem edge_repeat {r : Receiver} {ts : UInt64} {falling : Bool} (h : Repeats r ts falling) :
    r.storeTimestamp protocol ts falling =
      { if r.rpt then r.reset.act (.repeated ts r.rptAddr r.rptFunc) else r.reset with prevTs := ts } := by
  obtain ⟨hr, hf, hd⟩ := h
  have hc : checkSync r ts falling =
      (false, if r.rpt then r.reset.act (.repeated ts r.rptAddr r.rptFunc) else r.reset) := by
    unfold checkSync
    rw [if_neg (by rw [hr]; decide), if_pos hr]
    simp only
    rw [if_neg (by rw [not_space hd, Bool.and_false]; decide), if_pos (by rw [hf, hd]; rfl)]
    rfl
  rw [store_of_unsynced (P := protocol) hc, if_neg (fun h => absurd h.1 (by rw [hr]; decide))]

/-- A pulse of a message. -/
theorem edge_bit {r : Receiver} (hr : r.sync = 2) {ts : UInt64} (hn : ¬ Completes r ts) (falling : Bool) :
    r.storeTimestamp protocol ts falling = { r with pulses := r.stored ts, prevTs := ts } := by
  rw [store_of_synced (syncs_nec.bits r ts falling hr) (by rw [hr]; decide), if_neg (fun h => hn ⟨hr, h⟩)]

/-- **A full buffer sets what a repeat reports**, delivered or not. -/
theorem edge_complete {r : Receiver} {ts : UInt64} (h : Completes r ts) (falling : Bool) :
    r.storeTimestamp protocol ts falling =
      { r with pulses := [], sync := 0, prevTs := ts, rptAddr := (decode (r.stored ts) r.address.toUInt16).2.1,
               rptFunc := (decode (r.stored ts) r.address.toUInt16).2.2, msgTimer := false, bitTimer := false,
               sem := 1, acts := r.acts ++ r.outcome ts (decode (r.stored ts) r.address.toUInt16) } := by
  rw [store_of_synced (syncs_nec.bits r ts falling h.1) (by rw [h.1]; decide), if_pos h.2,
    messageComplete_eq (P := protocol) { r with pulses := r.stored ts } ts rfl]
  rfl

/-- Any other state of `sync_` stores nothing. -/
theorem edge_other {r : Receiver} (h0 : r.sync ≠ 0) (h1 : r.sync ≠ 1) (h2 : r.sync ≠ 2) (ts : UInt64)
    (falling : Bool) : Quiet r (r.storeTimestamp protocol ts falling) := by
  have hq : Quiet r r := .rfl
  refine hq.store (P := protocol) ?_
  show checkSync r ts falling = _
  unfold checkSync
  rw [if_neg h0, if_neg h1, decide_eq_false h2]

/-! ## Every run -/

/-- What was repeated was the last message, and what would be is, where a repeat is passed on. -/
structure Good (r : Receiver) : Prop where
  truthful : Truthful r.acts
  last : r.rpt = true → ∀ d, lastReceived r.acts = some d → (r.rptAddr, r.rptFunc) = d

/-- Nothing, or an error, is not a message. -/
theorem silent {acts acts' : List Act} (h : acts' = acts ∨ acts' = acts ++ [.error]) :
    (Truthful acts → Truthful acts') ∧ lastReceived acts' = lastReceived acts := by
  rcases h with ha | ha
  · rw [ha]
    exact ⟨id, rfl⟩
  · rw [ha, lastReceived_concat]
    exact ⟨fun h => truthful_concat h (fun _ _ _ he => by cases he), rfl⟩

theorem Good.quiet {r r' : Receiver} (g : Good r) (h : Quiet r r') : Good r' := by
  obtain ⟨ht, hl⟩ := silent h.acts
  refine ⟨ht g.truthful, fun hr d hd => ?_⟩
  rw [h.rptAddr, h.rptFunc]
  exact g.last (h.rpt ▸ hr) d (hl ▸ hd)

theorem outcome_received {r : Receiver} {d : Bool × UInt16 × UInt16} (h : r.rcb = true ∧ d.1 = true) (ts : UInt64) :
    r.outcome ts d = [.received ts d.2.1 d.2.2] := by
  rw [Receiver.outcome, if_pos h.2, if_pos h.1]

theorem outcome_silent {r : Receiver} {d : Bool × UInt16 × UInt16} (h : ¬ (r.rcb = true ∧ d.1 = true)) (ts : UInt64) :
    r.acts ++ r.outcome ts d = r.acts ∨ r.acts ++ r.outcome ts d = r.acts ++ [.error] := by
  unfold Receiver.outcome
  by_cases hd : d.1 = true
  · rw [if_pos hd, if_neg (fun hc => h ⟨hc, hd⟩), List.append_nil]
    exact Or.inl rfl
  · rw [if_neg hd]
    split
    · exact Or.inr rfl
    · exact Or.inl (List.append_nil _)

theorem Good.repeats {r : Receiver} (g : Good r) {ts : UInt64} {falling : Bool} (h : Repeats r ts falling)
    (hf : Fine r (.edge ts falling)) : Good (r.storeTimestamp protocol ts falling) := by
  rw [edge_repeat h]
  cases hr : r.rpt with
  | false => exact g.quiet { quiet_reset r with }
  | true =>
    obtain ⟨d, hd⟩ := Option.ne_none_iff_exists'.1 ((hf hr).1 h)
    have hlast := g.last hr d hd
    rw [if_pos rfl]
    constructor
    · refine truthful_concat g.truthful fun _ addr func he => ?_
      cases he
      exact hd.trans (congrArg some hlast.symm)
    · intro _ d' hd'
      refine g.last hr d' ?_
      rw [← hd']
      exact (lastReceived_concat r.acts (.repeated ts r.rptAddr r.rptFunc)).symm

theorem Good.complete {r : Receiver} (g : Good r) {ts : UInt64} {falling : Bool} (h : Completes r ts)
    (hf : Fine r (.edge ts falling)) : Good (r.storeTimestamp protocol ts falling) := by
  rw [edge_complete h]
  by_cases hdel : r.rcb = true ∧ (decode (r.stored ts) r.address.toUInt16).1 = true
  · rw [outcome_received hdel]
    refine ⟨truthful_concat g.truthful (fun _ _ _ he => by cases he), fun _ d hd => ?_⟩
    dsimp only at hd
    rw [lastReceived_concat] at hd
    exact Option.some.inj hd
  · obtain ⟨ht, hl⟩ := silent (outcome_silent hdel ts)
    exact ⟨ht g.truthful, fun hr d hd => ((hf hr).2 h d (hl ▸ hd)).resolve_left hdel⟩

theorem Good.step {r : Receiver} (g : Good r) (tmo : Bool) {e : Event} (hf : Fine r e) : Good (step tmo r e) := by
  cases e with
  | edge ts falling =>
    show Good (r.storeTimestamp protocol ts falling)
    by_cases h0 : r.sync = 0
    · exact g.quiet (edge_idle h0 ts falling)
    by_cases h1 : r.sync = 1
    · by_cases h : Repeats r ts falling
      · exact g.repeats h hf
      · exact g.quiet (edge_mark h1 h)
    by_cases h2 : r.sync = 2
    · by_cases h : Completes r ts
      · exact g.complete h hf
      · rw [edge_bit h2 h]
        exact ⟨g.truthful, g.last⟩
    · exact g.quiet (edge_other h0 h1 h2 ts falling)
  | msg answer => exact g.quiet (quiet_timeoutMsg tmo answer r)
  | bit answer => exact g.quiet (quiet_timeoutBit (fun r => r.sync = 2) tmo answer r)
  | start => exact g.quiet (quiet_startMessageTimeout r)

/-- Between messages, a repeat code that follows is passed on. -/
theorem repeat_follows {r : Receiver} (h0 : r.sync = 0) (hr : r.rpt = true) (tmo : Bool) :
    ∃ es ts, History.Along (Nec.step tmo) Can r es ∧
      (es.foldl (Nec.step tmo) r).acts = r.acts ++ [.repeated ts r.rptAddr r.rptFunc] := by
  have hm := syncs_nec.mark r (r.prevTs + UInt32.toUInt64 (562 * 16)) h0 (by rw [delta_add]; decide)
  rw [delta_add] at hm
  have hs := store_of_unsynced hm
  rw [if_pos ⟨h0, Nat.one_ne_zero⟩] at hs
  obtain ⟨m, b, n, he⟩ := startTimeout_eq
    { r with pulses := [562 * 16], sync := 1, prevTs := r.prevTs + UInt32.toUInt64 (562 * 16) }
  rw [he] at hs
  refine ⟨[.edge (r.prevTs + UInt32.toUInt64 (562 * 16)) true,
    .edge (r.prevTs + UInt32.toUInt64 (562 * 16) + UInt32.toUInt64 (562 * 4)) false],
    r.prevTs + UInt32.toUInt64 (562 * 16) + UInt32.toUInt64 (562 * 4), ⟨trivial, trivial, trivial⟩, ?_⟩
  show (Receiver.storeTimestamp protocol (r.storeTimestamp protocol _ true) _ false).acts = _
  rw [hs, edge_repeat ⟨rfl, rfl, by
    rw [delta_add { r with
      pulses := [562 * 16], sync := 1, prevTs := r.prevTs + UInt32.toUInt64 (562 * 16), msgTimer := m, bitTimer := b,
      prevCount := n }]
    decide⟩]
  dsimp only
  rw [if_pos hr]
  rfl

/-- **A repeat reports the last message**, in every run in which no repeat comes before the first message and none that
fails has other values than the last one; and after such a run, another step can be followed by a repeat that does
not. -/
theorem repeats_truthful (tmo : Bool) (address : UInt32) (rcb rpt err : Bool) (msgTimeout bitTimeout : Nat) :
    (∀ r, Reach (receiver address rcb rpt err msgTimeout bitTimeout) (step tmo) (fun r e => Can r e ∧ Fine r e) r →
      Truthful r.acts) ∧
    ∀ r e, Reach (receiver address rcb rpt err msgTimeout bitTimeout) (step tmo) (fun r e => Can r e ∧ Fine r e) r →
      Can r e → ¬ Fine r e →
        ∃ es, History.Along (step tmo) Can r (e :: es) ∧ ¬ Truthful ((e :: es).foldl (step tmo) r).acts := by
  have good {r : Receiver} (hr : Reach (receiver address rcb rpt err msgTimeout bitTimeout) (step tmo)
      (fun r e => Can r e ∧ Fine r e) r) : Good r :=
    History.inv_of_reach ⟨History.justified_nil _, fun _ _ hd => by cases hd⟩ (fun _ _ g h => g.step tmo h.2) hr
  refine ⟨fun r hr => (good hr).truthful, fun r e hr hcan hn => ?_⟩
  cases e with
  | edge ts falling =>
    simp only [Fine, not_forall, not_and_or] at hn
    obtain ⟨hrpt, ⟨hrep, hnone⟩ | ⟨hcomp, d, hd, hnot⟩⟩ := hn
    · -- a repeat of nothing
      refine ⟨[], ⟨trivial, trivial⟩, fun ht => ?_⟩
      have hacts : (r.storeTimestamp protocol ts falling).acts = r.acts ++ [.repeated ts r.rptAddr r.rptFunc] := by
        rw [edge_repeat hrep, if_pos hrpt]
        rfl
      have h := ht r.acts _ [] hacts ts r.rptAddr r.rptFunc rfl
      exact hnone (by rw [h]; exact Option.some_ne_none _)
    · -- the values of a message that was not delivered
      obtain ⟨hfail, hne⟩ := not_or.1 hnot
      obtain ⟨es, ts', halong, hacts⟩ := repeat_follows (r := r.storeTimestamp protocol ts falling)
        (by rw [edge_complete hcomp]) (by rw [edge_complete hcomp]; exact hrpt) tmo
      refine ⟨es, ⟨trivial, halong⟩, fun ht => ?_⟩
      have h := ht _ _ [] hacts ts' _ _ rfl
      rw [edge_complete hcomp] at h
      rw [(silent (outcome_silent hfail ts)).2, hd] at h
      exact hne (Option.some.inj h).symm
  | msg answer => exact absurd trivial hn
  | bit answer => exact absurd trivial hn
  | start => exact absurd trivial hn

/-- The edges of a message. -/
def message (ts : UInt64) (addr func : UInt16) : List Event :=
  (edges ts (setMessageTimes addr func)).map fun e => .edge e.1 e.2

/-- The edges of a repeat code, up to the end of its space. -/
def repeatCode (ts : UInt64) : List Event :=
  (edges ts [basePulse * 16, basePulse * 4]).map fun e => .edge e.1 e.2

/-- A message and its repeat; and a repeat that comes first. -/
theorem repeats_truthful_once :
    Truthful ((message 0 1 2 ++ repeatCode 110000).foldl (step false) (receiver 1 true true true 0 0)).acts ∧
    ∃ es, History.Along (step false) Can (((repeatCode 0).take 2).foldl (step false) (receiver 1 true true true 0 0))
        (.edge 11240 false :: es) ∧
      ¬ Truthful ((.edge 11240 false :: es).foldl (step false)
        (((repeatCode 0).take 2).foldl (step false) (receiver 1 true true true 0 0))).acts :=
  ⟨(repeats_truthful false 1 true true true 0 0).1 _ (History.reach_along _ _ .init (by decide +kernel)),
    (repeats_truthful false 1 true true true 0 0).2 _ (.edge 11240 false)
      (History.reach_along _ _ .init (by decide +kernel)) trivial (by decide +kernel)⟩

/-- A message for another device is what the next repeat reports. -/
theorem repeat_foreign : ¬ ∀ (address : UInt32) (r : Receiver),
    Reach (receiver address true true true 0 0) (step false) Can r → Truthful r.acts := by
  intro h
  have ht := h 1 ((message 0 1 2 ++ message 110000 3 4 ++ repeatCode 220000).foldl (step false)
    (receiver 1 true true true 0 0)) (History.reach_along _ _ .init (by decide +kernel))
  have hacts : ((message 0 1 2 ++ message 110000 3 4 ++ repeatCode 220000).foldl (step false)
      (receiver 1 true true true 0 0)).acts = [.received 68002 1 2, .error, .repeated 231240 3 4] := by decide +kernel
  exact absurd (ht [.received 68002 1 2, .error] _ [] hacts 231240 3 4 rfl) (by decide)

end Nec
end Ir
end Pico
