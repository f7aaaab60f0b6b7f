import Picolibs.Repeats
import Picolibs.Sony
/-!
# Waiting — what releases `wait_for_message` (`ir_receiver.cpp` with `raw_receiver.cpp`)

A call takes the one permit of the semaphore and waits until `reset` gives it back.  `reset` is called where a message
is complete and decodes, and also where it does not decode, where a timer expires, and where the start of a message
goes wrong (`sem_step`).  The events are those of the receiver, the steps of the call that is looked at, and the steps
of other calls, which get past `sem_try_acquire` only when the permit is there.

The pulses that `RAW_Receiver` copies out are left out.
-/
namespace Pico
namespace Ir

open History (Reach Along)

namespace Raw

/-- `check_sync`. -/
def checkSync (r : Receiver) (_ts : UInt64) (falling : Bool) : Bool × Receiver :=
  if r.sync = 0 && !falling then (false, r) else (true, { r with sync := 1 })

/-- `decode_message`. -/
def decode (_pulses : List UInt32) (_address : UInt16) : Bool × UInt16 × UInt16 := (true, 0, 0)

def protocol : Protocol := ⟨checkSync, decode⟩

end Raw

/-- The receivers; `RAW_Receiver` has a buffer of any size. -/
inductive Kind where
  | nec
  | samsung
  | sony (addrSize valueSize : Nat)
  | raw (edges : Nat)

namespace Kind

def protocol : Kind → Protocol
  | .nec => Nec.protocol
  | .samsung => Samsung.protocol
  | .sony addrSize valueSize => Sony.protocol addrSize valueSize
  | .raw _ => Raw.protocol

/-- `check_bit_timeout`. -/
def checkBitTimeout : Kind → Receiver → Bool
  | .raw _, _ => true
  | _, r => r.sync = 2

def mxPulse : Kind → Nat
  | .nec => messageLen
  | .samsung => messageLen
  | .sony addrSize valueSize => Sony.messageLen addrSize valueSize
  | .raw edges => edges

/-- The space `check_sync` looks for behind the first mark, with its band. -/
def space : Kind → Option (UInt32 × UInt32)
  | .nec => some (Nec.basePulse * 8, Nec.basePulse / 2)
  | .samsung => some (Samsung.basePulse * 8, Samsung.basePulse / 2)
  | .sony _ _ => some (Sony.basePulse * 1, Sony.basePulse / 2)
  | .raw _ => none

/-- A receiver as its constructor leaves it and the application sets it up. -/
def receiver (k : Kind) (address : UInt32) (rcb rpt err : Bool) (msgTimeout bitTimeout : Nat) : Receiver :=
  { mxPulse := k.mxPulse, address, rcb, rpt, err, msgTimeout, bitTimeout }

/-- What an event does to a receiver. -/
def step (k : Kind) (tmo : Bool) (r : Receiver) : Nec.Event → Receiver
  | .edge ts falling => r.storeTimestamp k.protocol ts falling
  | .msg answer => r.timeoutMsg tmo answer
  | .bit answer => r.timeoutBit k.checkBitTimeout tmo answer
  | .start => r.startMessageTimeout

/-! ## What releases the semaphore -/

/-- Another edge than the end of the space: the start of a message is given up. -/
def Aborts (k : Kind) (r : Receiver) (ts : UInt64) (falling : Bool) : Prop :=
  r.sync = 1 ∧ ∃ s ∈ k.space, (!falling && comparePulse (r.delta ts) s.1 s.2) = false

/-- An edge that fills the buffer. -/
def Completes (k : Kind) (r : Receiver) (ts : UInt64) (falling : Bool) : Prop :=
  (k.protocol.checkSync r ts falling).1 = true ∧ (r.stored ts).length = r.mxPulse

/-- The pulses of the full buffer are a message. -/
def Decodes (k : Kind) (r : Receiver) : Nec.Event → Prop
  | .edge ts falling => k.Completes r ts falling ∧ (k.protocol.decode (r.stored ts) r.address.toUInt16).1 = true
  | _ => False

/-- The events that come to `reset`. -/
def Releases (k : Kind) (tmo : Bool) (r : Receiver) : Nec.Event → Prop
  | .edge ts falling => k.Aborts r ts falling ∨ k.Completes r ts falling
  | .msg answer => (tmo && answer) = false
  | .bit answer => r.sync ≠ 0 ∧ r.pulses.length = r.prevCount ∧ k.checkBitTimeout r = true ∧ (tmo && answer) = false
  | .start => False

instance (k : Kind) (r : Receiver) (ts : UInt64) (falling : Bool) : Decidable (k.Aborts r ts falling) :=
  have : Decidable (∃ s ∈ k.space, (!falling && comparePulse (r.delta ts) s.1 s.2) = false) :=
    Option.decidableExistsMem _
  inferInstanceAs (Decidable (_ ∧ _))

instance (k : Kind) (r : Receiver) (ts : UInt64) (falling : Bool) : Decidable (k.Completes r ts falling) :=
  inferInstanceAs (Decidable (_ ∧ _))

instance (k : Kind) (r : Receiver) : (e : Nec.Event) → Decidable (k.Decodes r e)
  | .edge _ _ => inferInstanceAs (Decidable (_ ∧ _))
  | .msg _ => inferInstanceAs (Decidable False)
  | .bit _ => inferInstanceAs (Decidable False)
  | .start => inferInstanceAs (Decidable False)

instance (k : Kind) (tmo : Bool) (r : Receiver) : (e : Nec.Event) → Decidable (k.Releases tmo r e)
  | .edge _ _ => inferInstanceAs (Decidable (_ ∨ _))
  | .msg _ => inferInstanceAs (Decidable (_ = _))
  | .bit _ => inferInstanceAs (Decidable (_ ∧ _ ∧ _ ∧ _))
  | .start => inferInstanceAs (Decidable False)

variable {k : Kind} {tmo : Bool} {r : Receiver} {ts : UInt64} {falling : Bool}

/-- What `check_sync` leaves to `store_timestamp`, and what it does to the semaphore. -/
structure Checks (k : Kind) (r : Receiver) (ts : UInt64) (falling : Bool) : Prop where
  sem : (k.protocol.checkSync r ts falling).2.sem = if k.Aborts r ts falling then 1 else r.sem
  synced : (k.protocol.checkSync r ts falling).1 = true →
    ¬ k.Aborts r ts falling ∧ ∃ n ≠ 0, (k.protocol.checkSync r ts falling).2 = { r with sync := n }

theorem not_aborts (h : r.sync ≠ 1) : ¬ k.Aborts r ts falling := fun ha => h ha.1

/-- Where pulses are stored with `sync_` at 2 only. -/
theorem Checks.of_two
    (hsem : (k.protocol.checkSync r ts falling).2.sem = if k.Aborts r ts falling then 1 else r.sem)
    (h2 : (k.protocol.checkSync r ts falling).1 = true → r.sync = 2 ∧ (k.protocol.checkSync r ts falling).2 = r) :
    Checks k r ts falling := by
  refine ⟨hsem, fun h => ?_⟩
  obtain ⟨hsync, heq⟩ := h2 h
  refine ⟨not_aborts (by omega), 2, by decide, ?_⟩
  rw [heq, ← hsync]

theorem checks_nec (r : Receiver) (ts : UInt64) (falling : Bool) : Checks .nec r ts falling := by
  apply Checks.of_two
  · simp only [Kind.protocol, Nec.protocol, Nec.checkSync, Aborts, space]
    split_ifs <;> simp_all [Receiver.reset, Receiver.act]
  · simp only [Kind.protocol, Nec.protocol, Nec.checkSync]
    split_ifs <;> simp

theorem checks_samsung (r : Receiver) (ts : UInt64) (falling : Bool) : Checks .samsung r ts falling := by
  apply Checks.of_two
  · simp only [Kind.protocol, Samsung.protocol, Samsung.checkSync, Aborts, space]
    split_ifs <;> simp_all [Receiver.reset]
  · simp only [Kind.protocol, Samsung.protocol, Samsung.checkSync]
    split_ifs <;> simp

theorem checks_sony (addrSize valueSize : Nat) (r : Receiver) (ts : UInt64) (falling : Bool) :
    Checks (.sony addrSize valueSize) r ts falling := by
  apply Checks.of_two
  · simp only [Kind.protocol, Sony.protocol, Sony.checkSync, Aborts, space]
    split_ifs <;> simp_all [Receiver.reset]
  · simp only [Kind.protocol, Sony.protocol, Sony.checkSync]
    split_ifs <;> simp

theorem checks_raw (edges : Nat) (r : Receiver) (ts : UInt64) (falling : Bool) :
    Checks (.raw edges) r ts falling := by
  have hn : ¬ (raw edges).Aborts r ts falling := by
    rintro ⟨-, s, hs, -⟩
    cases hs
  have hc : (raw edges).protocol.checkSync r ts falling =
      if r.sync = 0 && !falling then (false, r) else (true, { r with sync := 1 }) := rfl
  constructor
  · rw [hc, if_neg hn]
    split <;> rfl
  · rw [hc]
    intro h
    split at h
    · cases h
    · next hs =>
      rw [if_neg hs]
      exact ⟨hn, 1, by decide, rfl⟩

theorem checks (k : Kind) (r : Receiver) (ts : UInt64) (falling : Bool) : Checks k r ts falling := by
  cases k with
  | nec => exact checks_nec r ts falling
  | samsung => exact checks_samsung r ts falling
  | sony addrSize valueSize => exact checks_sony addrSize valueSize r ts falling
  | raw edges => exact checks_raw edges r ts falling

theorem sem_startTimeout (r : Receiver) : r.startTimeout.sem = r.sem := by
  obtain ⟨m, b, n, h⟩ := startTimeout_eq r
  rw [h]

theorem store_of_stored {P : Protocol} {n : Nat} (hn : n ≠ 0)
    (h : P.checkSync r ts falling = (true, { r with sync := n })) :
    r.storeTimestamp P ts falling =
      if (r.stored ts).length = r.mxPulse then
        { Receiver.messageComplete P { r with sync := n, pulses := r.stored ts } ts with prevTs := ts }
      else if r.sync = 0 then Receiver.startTimeout { r with sync := n, pulses := r.stored ts, prevTs := ts }
      else { r with sync := n, pulses := r.stored ts, prevTs := ts } := by
  have hpulses : (if r.pulses.length < r.mxPulse then
        { r with sync := n, pulses := r.pulses ++ [Receiver.delta { r with sync := n } ts] }
      else { r with sync := n }) = { r with sync := n, pulses := r.stored ts } := by
    unfold Receiver.stored
    split <;> rfl
  unfold Receiver.storeTimestamp
  rw [h]
  simp only [if_true, hpulses]
  by_cases hfull : (r.stored ts).length = r.mxPulse
  · rw [if_pos hfull, if_pos hfull, messageComplete_eq _ _ rfl, if_neg (fun hc => hc.2 rfl)]
  · rw [if_neg hfull, if_neg hfull]
    simp only [hn, ne_eq, not_false_eq_true, and_true]

/-- **An edge that fills the buffer completes a message**, which decodes or does not. -/
theorem store_of_completes (h : k.Completes r ts falling) :
    ∃ n, r.storeTimestamp k.protocol ts falling =
      { Receiver.messageComplete k.protocol { r with sync := n, pulses := r.stored ts } ts with prevTs := ts } := by
  obtain ⟨-, n, hn, heq⟩ := (checks k r ts falling).synced h.1
  refine ⟨n, ?_⟩
  rw [store_of_stored hn (Prod.ext h.1 heq), if_pos h.2]

theorem sem_of_completes (h : k.Completes r ts falling) : (r.storeTimestamp k.protocol ts falling).sem = 1 := by
  obtain ⟨n, hs⟩ := store_of_completes h
  rw [hs, messageComplete_eq _ _ rfl]

theorem sem_of_not_completes (h : ¬ k.Completes r ts falling) :
    (r.storeTimestamp k.protocol ts falling).sem = if k.Aborts r ts falling then 1 else r.sem := by
  have hc := checks k r ts falling
  cases hb : (k.protocol.checkSync r ts falling).1 with
  | true =>
    obtain ⟨ha, n, hn, heq⟩ := hc.synced hb
    rw [store_of_stored hn (Prod.ext hb heq), if_neg (fun hfull => h ⟨hb, hfull⟩), if_neg ha]
    split
    · exact sem_startTimeout _
    · rfl
  | false =>
    rw [store_of_unsynced (Prod.ext hb rfl), ← hc.sem]
    split
    · exact sem_startTimeout _
    · rfl

theorem sem_edge (r : Receiver) (ts : UInt64) (falling : Bool) :
    (r.storeTimestamp k.protocol ts falling).sem =
      if k.Aborts r ts falling ∨ k.Completes r ts falling then 1 else r.sem := by
  by_cases h : k.Completes r ts falling
  · rw [sem_of_completes h, if_pos (Or.inr h)]
  · rw [sem_of_not_completes h]
    simp only [h, or_false]

theorem sem_timeout (tmo answer : Bool) (r : Receiver) :
    (r.timeout tmo answer).2.sem = if (tmo && answer) = false then 1 else r.sem := by
  cases tmo <;> cases answer <;> simp [Receiver.timeout, Receiver.messageError, Receiver.reset]

theorem sem_bitAgain (r : Receiver) : r.bitAgain.sem = r.sem := by
  unfold Receiver.bitAgain
  simp only
  split <;> rfl

theorem sem_bit (answer : Bool) (r : Receiver) :
    (r.timeoutBit k.checkBitTimeout tmo answer).sem =
      if r.sync ≠ 0 ∧ r.pulses.length = r.prevCount ∧ k.checkBitTimeout r = true ∧ (tmo && answer) = false then 1
      else r.sem := by
  have ht := sem_timeout tmo answer r
  simp only [Receiver.timeoutBit]
  by_cases hs : r.sync = 0
  · rw [if_neg (not_not.2 hs), if_neg (fun h => h.1 hs)]
  · rw [if_pos hs]
    by_cases hc : r.pulses.length = r.prevCount ∧ k.checkBitTimeout r = true
    · rw [if_pos (by rw [Bool.and_eq_true, decide_eq_true_eq]; exact hc)]
      have hiff : (r.sync ≠ 0 ∧ r.pulses.length = r.prevCount ∧ k.checkBitTimeout r = true ∧ (tmo && answer) = false) ↔
          (tmo && answer) = false := ⟨fun h => h.2.2.2, fun h => ⟨hs, hc.1, hc.2, h⟩⟩
      simp only [hiff, ← ht]
      split
      · exact sem_bitAgain _
      · rfl
    · rw [if_neg (by rw [Bool.and_eq_true, decide_eq_true_eq]; exact hc), if_neg (fun h => hc ⟨h.2.1, h.2.2.1⟩),
        sem_bitAgain]

/-- **The semaphore is released by the events that come to `reset`**, and by no other. -/
theorem sem_step (k : Kind) (tmo : Bool) (r : Receiver) (e : Nec.Event) :
    (k.step tmo r e).sem = if k.Releases tmo r e then 1 else r.sem := by
  cases e with
  | edge ts falling => exact sem_edge r ts falling
  | msg answer => exact sem_timeout tmo answer r
  | bit answer => exact sem_bit answer r
  | start =>
    rw [if_neg (fun h : k.Releases tmo r .start => h), step]
    rcases startMessageTimeout_cases r with h | h <;> rw [h]

end Kind

/-! ## A call and the others -/

/-- The call that is looked at: it waits for the semaphore, has still to release it, or has returned. -/
inductive Waiter where
  | idle
  | blocked (timed : Bool)
  | leaving (ret : Bool)
  | returned (ret : Bool)
  deriving DecidableEq

def Waiter.isBlocked : Waiter → Bool
  | .blocked _ => true
  | _ => false

def Waiter.isFree : Waiter → Bool
  | .idle => true
  | .returned _ => true
  | _ => false

/-- `others` wait for the semaphore, `leaving` have still to release it; `decoded` is whether a message was complete and
decoded since the call. -/
structure MessageWait where
  receiver : Receiver
  waiter : Waiter := .idle
  others : Nat := 0
  leaving : Nat := 0
  decoded : Bool := false
  deriving DecidableEq

namespace MessageWait

inductive Event where
  | receiver (e : Nec.Event)
  | call (timed : Bool)
  | wake
  | expire
  | leave
  | otherCall
  | otherWake
  | otherExpire
  | otherLeave

/-- The receiver with the semaphore taken, or released. -/
def taken (s : MessageWait) : Receiver := { s.receiver with sem := s.receiver.sem - 1 }

def released (s : MessageWait) : Receiver := { s.receiver with sem := 1 }

/-- What can happen: the timers that are set expire, the call finds no other, and each goes on from where it is. -/
def Can (s : MessageWait) : Event → Prop
  | .receiver e => Nec.Can s.receiver e
  | .call _ => s.waiter.isFree = true ∧ s.others = 0 ∧ s.leaving = 0
  | .wake => s.waiter.isBlocked = true ∧ 0 < s.receiver.sem
  | .expire => s.waiter = .blocked true
  | .leave => s.waiter = .leaving true ∨ s.waiter = .leaving false
  | .otherCall => True
  | .otherWake => 0 < s.others ∧ 0 < s.receiver.sem
  | .otherExpire => 0 < s.others
  | .otherLeave => 0 < s.leaving

/-- `wait_for_message`, with `sem_try_acquire`, the second acquisition or its timeout, and `sem_release`. -/
def step (k : Kind) (tmo : Bool) (s : MessageWait) : Event → MessageWait
  | .receiver e =>
    { s with receiver := k.step tmo s.receiver e, decoded := s.decoded || decide (k.Decodes s.receiver e) }
  | .call timed =>
    if 0 < s.receiver.sem then { s with receiver := s.taken, waiter := .blocked timed, decoded := false }
    else { s with waiter := .returned false, decoded := false }
  | .wake => { s with receiver := s.taken, waiter := .leaving true }
  | .expire => { s with waiter := .leaving false }
  | .leave => { s with receiver := s.released, waiter := .returned (s.waiter == .leaving true) }
  | .otherCall => if 0 < s.receiver.sem then { s with receiver := s.taken, others := s.others + 1 } else s
  | .otherWake => { s with receiver := s.taken, others := s.others - 1, leaving := s.leaving + 1 }
  | .otherExpire => { s with others := s.others - 1, leaving := s.leaving + 1 }
  | .otherLeave => { s with receiver := s.released, leaving := s.leaving - 1 }

/-- A call that returned true got its message. -/
def Honest (s : MessageWait) : Prop := s.waiter = .returned true → s.decoded = true

/-- While the call waits for a message, nothing releases the semaphore but one that decodes. -/
def Fine (k : Kind) (tmo : Bool) (s : MessageWait) : Event → Prop
  | .receiver e => s.waiter.isBlocked = true → s.decoded = false →
      k.Releases tmo s.receiver e → k.Decodes s.receiver e
  | _ => True

/-- While the call waits for a message it has the only permit, and it goes on only with a message. -/
structure Held (s : MessageWait) : Prop where
  permit : s.receiver.sem ≤ 1
  alone : s.waiter.isBlocked = true → s.decoded = false → s.receiver.sem = 0 ∧ s.others = 0 ∧ s.leaving = 0
  left : s.waiter = .leaving true ∨ s.waiter = .returned true → s.decoded = true

variable {k : Kind} {tmo : Bool} {s : MessageWait}

theorem taken_le (h : Held s) : s.taken.sem ≤ 1 := Nat.le_trans (Nat.sub_le _ 1) h.permit

theorem Held.receiver (h : Held s) {e : Nec.Event} (hf : Fine k tmo s (.receiver e)) :
    Held (step k tmo s (.receiver e)) := by
  have hsem := k.sem_step tmo s.receiver e
  constructor
  · rw [step, hsem]
    split
    · exact Nat.le_refl 1
    · exact h.permit
  · intro hb hd
    obtain ⟨hd1, hd2⟩ := Bool.or_eq_false_iff.1 hd
    have hnot : ¬ k.Releases tmo s.receiver e := fun hr => of_decide_eq_false hd2 (hf hb hd1 hr)
    rw [if_neg hnot] at hsem
    obtain ⟨h0, hothers⟩ := h.alone hb hd1
    exact ⟨hsem.trans h0, hothers⟩
  · intro hw
    exact Bool.or_eq_true_iff.2 (Or.inl (h.left hw))

theorem Held.call (h : Held s) {timed : Bool} (hc : Can s (.call timed)) : Held (step k tmo s (.call timed)) := by
  have hpermit := h.permit
  rw [step]
  split
  · refine ⟨taken_le h, fun _ _ => ⟨?_, hc.2⟩, fun hw => ?_⟩
    · exact Nat.sub_eq_zero_of_le hpermit
    · rcases hw with hw | hw <;> cases hw
  · refine ⟨hpermit, fun hb _ => ?_, fun hw => ?_⟩
    · cases hb
    · rcases hw with hw | hw <;> cases hw

/-- A call goes on after a message only. -/
theorem Held.decoded (h : Held s) (hb : s.waiter.isBlocked = true) (hsem : 0 < s.receiver.sem) : s.decoded = true := by
  rw [← Bool.not_eq_false]
  intro hd
  exact absurd (h.alone hb hd).1 (Nat.ne_of_gt hsem)

/-- Where another call has a hand in it, the message has come. -/
theorem Held.other (h : Held s) (ho : 0 < s.others ∨ 0 < s.leaving) (hb : s.waiter.isBlocked = true) :
    s.decoded = true := by
  rw [← Bool.not_eq_false]
  intro hd
  obtain ⟨-, h1, h2⟩ := h.alone hb hd
  omega

theorem Held.step (h : Held s) {e : Event} (hc : Can s e) (hf : Fine k tmo s e) : Held (step k tmo s e) := by
  cases e with
  | receiver e => exact h.receiver hf
  | call timed => exact h.call hc
  | wake => exact ⟨taken_le h, nofun, fun _ => h.decoded hc.1 hc.2⟩
  | expire =>
    refine ⟨h.permit, nofun, fun hw => ?_⟩
    rcases hw with hw | hw <;> cases hw
  | leave =>
    refine ⟨Nat.le_refl 1, nofun, fun hw => h.left (Or.inl ?_)⟩
    rcases hw with hw | hw
    · cases hw
    · exact beq_iff_eq.1 (Waiter.returned.inj hw)
  | otherCall =>
    rw [MessageWait.step]
    split
    · next hpos => exact ⟨taken_le h, fun hb hd => absurd (h.decoded hb hpos) (Bool.eq_false_iff.1 hd), h.left⟩
    · exact h
  | otherWake =>
    exact ⟨taken_le h, fun hb hd => absurd (h.decoded hb hc.2) (Bool.eq_false_iff.1 hd), h.left⟩
  | otherExpire =>
    exact ⟨h.permit, fun hb hd => absurd (h.other (Or.inl hc) hb) (Bool.eq_false_iff.1 hd), h.left⟩
  | otherLeave =>
    exact ⟨Nat.le_refl 1, fun hb hd => absurd (h.other (Or.inr hc) hb) (Bool.eq_false_iff.1 hd), h.left⟩

/-- The system around a receiver that is new. -/
def fresh (k : Kind) (address : UInt32) (rcb rpt err : Bool) (msgTimeout bitTimeout : Nat) : MessageWait :=
  { receiver := k.receiver address rcb rpt err msgTimeout bitTimeout }

/-- **A call returns true only with a message**, in every run in which nothing else comes to `reset` while it waits; and
after such a run, a step that does can be followed by a return without one. -/
theorem waits_honest (k : Kind) (tmo : Bool) (address : UInt32) (rcb rpt err : Bool) (msgTimeout bitTimeout : Nat) :
    (∀ s, Reach (fresh k address rcb rpt err msgTimeout bitTimeout) (step k tmo)
      (fun s e => Can s e ∧ Fine k tmo s e) s → Honest s) ∧
    ∀ s e, Reach (fresh k address rcb rpt err msgTimeout bitTimeout) (step k tmo)
      (fun s e => Can s e ∧ Fine k tmo s e) s → Can s e → ¬ Fine k tmo s e →
        ∃ es, Along (step k tmo) Can s (e :: es) ∧ ¬ Honest ((e :: es).foldl (step k tmo) s) := by
  constructor
  · intro s hs
    have h : Held s := History.inv_of_reach ⟨Nat.le_refl 1, nofun, fun hw => by rcases hw with hw | hw <;> cases hw⟩
      (fun _ _ h hok => h.step hok.1 hok.2) hs
    exact fun hw => h.left (Or.inr hw)
  · intro s e _ hc hn
    cases e with
    | receiver e =>
      simp only [Fine, not_forall] at hn
      obtain ⟨hb, hd, hr, hnot⟩ := hn
      have hsem := k.sem_step tmo s.receiver e
      rw [if_pos hr] at hsem
      refine ⟨[.wake, .leave], ⟨hc, ⟨hb, ?_⟩, Or.inl rfl, trivial⟩, fun h => ?_⟩
      · exact Nat.lt_of_lt_of_eq Nat.one_pos hsem.symm
      · have hdec : (s.decoded || decide (k.Decodes s.receiver e)) = true := h rfl
        rw [hd, decide_eq_false hnot] at hdec
        cases hdec
    | _ => exact absurd trivial hn

instance (s : MessageWait) : (e : Event) → Decidable (Can s e)
  | .receiver e => inferInstanceAs (Decidable (Nec.Can s.receiver e))
  | .call _ => inferInstanceAs (Decidable (_ ∧ _ ∧ _))
  | .wake => inferInstanceAs (Decidable (_ ∧ _))
  | .expire => inferInstanceAs (Decidable (_ = _))
  | .leave => inferInstanceAs (Decidable (_ ∨ _))
  | .otherCall => inferInstanceAs (Decidable True)
  | .otherWake => inferInstanceAs (Decidable (_ ∧ _))
  | .otherExpire => inferInstanceAs (Decidable (_ < _))
  | .otherLeave => inferInstanceAs (Decidable (_ < _))

instance (k : Kind) (tmo : Bool) (s : MessageWait) : (e : Event) → Decidable (Fine k tmo s e)
  | .receiver _ => inferInstanceAs (Decidable (_ → _ → _ → _))
  | .call _ => inferInstanceAs (Decidable True)
  | .wake => inferInstanceAs (Decidable True)
  | .expire => inferInstanceAs (Decidable True)
  | .leave => inferInstanceAs (Decidable True)
  | .otherCall => inferInstanceAs (Decidable True)
  | .otherWake => inferInstanceAs (Decidable True)
  | .otherExpire => inferInstanceAs (Decidable True)
  | .otherLeave => inferInstanceAs (Decidable True)

/-- A call, and the edges of a message. -/
def callAndMessage : List Event :=
  .call false :: (Nec.message 0 1 2).map .receiver

/-- A mark as at the start of a message, and an edge soon after it. -/
def noise : List Event := [.receiver (.edge 8992 true), .receiver (.edge 9092 false)]

/-- A call that gets its message; and one that returns on noise. -/
theorem waits_honest_once :
    Honest ((callAndMessage ++ [Event.wake, .leave]).foldl (step .nec false) (fresh .nec 1 false false false 0 0)) ∧
    ∃ es, Along (step .nec false) Can
        ([Event.call false, .receiver (.edge 8992 true)].foldl (step .nec false) (fresh .nec 1 false false false 0 0))
        (.receiver (.edge 9092 false) :: es) ∧
      ¬ Honest ((Event.receiver (.edge 9092 false) :: es).foldl (step .nec false)
        ([Event.call false, .receiver (.edge 8992 true)].foldl (step .nec false)
          (fresh .nec 1 false false false 0 0))) :=
  ⟨(waits_honest .nec false 1 false false false 0 0).1 _ (History.reach_along _ _ .init (by decide +kernel)),
    (waits_honest .nec false 1 false false false 0 0).2 _ (.receiver (.edge 9092 false))
      (History.reach_along _ _ .init (by decide +kernel)) trivial (by decide +kernel)⟩

/-- A call that waits without a limit returns true on noise. -/
theorem noise_returns : ¬ ∀ (k : Kind) (s : MessageWait),
    Reach (fresh k 1 false false false 0 0) (step k false) Can s → Honest s := by
  intro h
  have hs := h .nec ((.call false :: (noise ++ [.wake, .leave])).foldl (step .nec false)
    (fresh .nec 1 false false false 0 0)) (History.reach_along _ _ .init (by decide +kernel))
  exact absurd (hs (by decide +kernel)) (by decide +kernel)

end MessageWait
end Ir
end Pico
