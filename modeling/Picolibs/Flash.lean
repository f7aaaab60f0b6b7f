import Mathlib.Algebra.Group.Int.Defs
import Mathlib.Algebra.GroupWithZero.Nat
import Mathlib.Data.Nat.Bitwise
import Picolibs.Alarms
import Picolibs.Loop
/-!
# Flash — an LED that shows a pattern of bits (`led.h`, `led.cpp`)

An alarm shows the next bit of the pattern and moves on; its callback may come between any two statements of a call.
`flasher_` is the identifier of the alarm, or −1.  A callback that returns a time is due again that long after it was
due, not after it came.

The pin is its level alone; what is put out, and when, is `shown`.
-/
namespace Pico
namespace Flash

open Alarms
open History (Reach Along inv_of_reach reach_along)

structure Led where
  flashPeriod : Nat := 0
  flashPattern : Nat := 1
  flashBits : Nat := 2
  flashIndex : Nat := 0
  flasher : Int := -1
  deriving DecidableEq

/-- What `check_flash` sets the LED to, where that is all the pattern shows. -/
def Led.steady (l : Led) : Option Bool :=
  let mask := 0xffffffff >>> (32 - l.flashBits)
  let pat := l.flashPattern &&& mask
  if pat = 0 then some false else if pat = mask then some true else none

/-- The condition of `setFlash`. -/
def Led.flashes (l : Led) : Bool := l.steady.isNone && l.flashPeriod != 0 && decide (l.flashPeriod > l.flashBits)

/-- The statements of the calls; `cancel` is `cancel_alarm` and `clear` what follows it. -/
inductive Stmt where
  | period (p : Nat)
  | pattern (p : Nat)
  | bits (n : Nat)
  | setLed (b : Bool)
  | wrapIndex
  | check
  | start
  | cancel
  | clear
  deriving DecidableEq

inductive Call where
  | setState (b : Bool)
  | setFlash (period : Nat)
  | setFlashPattern (pattern bits : Nat)
  | setFlashPeriod (period : Nat)
  deriving DecidableEq

/-- `setFlash`. -/
def setFlash (period : Nat) : List Stmt := [.period period, .wrapIndex, .check]

def Call.body (l : Led) : Call → List Stmt
  | .setState b => [.period 0, .setLed b]
  | .setFlash period => Flash.setFlash period
  | .setFlashPattern pattern bits => [.pattern pattern, .bits bits] ++ Flash.setFlash l.flashPeriod
  | .setFlashPeriod period => [.period period]

structure World where
  led : Led := {}
  on : Bool
  -- microseconds
  now : Nat := 0
  alarms : List (Alarm Unit) := []
  -- how many alarms were added
  added : Nat := 0
  shown : List (Nat × Bool) := []
  -- what is left of the call that runs, and what it returns, if it is known
  rest : List Stmt := []
  result : Option Bool := none
  deriving DecidableEq

namespace World

/-- `set_led`. -/
def setLed (w : World) (b : Bool) : World := { w with on := b, shown := w.shown ++ [(w.now, b)] }

/-- `check_flash`. -/
def checkFlash (w : World) : World :=
  match w.led.steady with
  | none => w
  | some b => w.setLed b

def exec (P : Pool) (w : World) : Stmt → World
  | .period p => { w with led := { w.led with flashPeriod := p } }
  | .pattern p => { w with led := { w.led with flashPattern := p } }
  | .bits n => { w with led := { w.led with flashBits := n } }
  | .setLed b => w.setLed b
  | .wrapIndex =>
    if w.led.flashIndex ≥ w.led.flashBits then { w with led := { w.led with flashIndex := 0 } } else w
  | .check =>
    let w := w.checkFlash
    { w with result := some w.led.flashes, rest := (if w.led.flashes then .start else .cancel) :: w.rest }
  | .start =>
    if w.led.flasher = -1 then
      let id := P.newId w.added (w.alarms.map (·.id))
      { w with
        led := { w.led with flasher := id },
        alarms := w.alarms ++ [⟨id, w.now + w.led.flashPeriod / w.led.flashBits * 1000, ()⟩], added := w.added + 1 }
    else w
  | .cancel =>
    if w.led.flasher ≠ -1 then { w with alarms := w.alarms.filter (·.id ≠ w.led.flasher), rest := .clear :: w.rest }
    else w
  | .clear => { w with led := { w.led with flasher := -1 } }

/-- `do_timer`. -/
def doTimer (w : World) : Nat × World :=
  if w.led.flashPeriod > 0 then
    let ret := w.led.flashPeriod / w.led.flashBits
    let w := w.setLed ((w.led.flashPattern &&& 1 <<< w.led.flashIndex) != 0)
    let i := w.led.flashIndex + 1
    let led := { w.led with flashIndex := if i ≥ w.led.flashBits then 0 else i }
    (ret, { w with led := if ret = 0 then { led with flasher := -1 } else led })
  else (0, { w with led := { w.led with flasher := -1 } })

/-- `timer_cb`: an alarm whose callback returns a time is due again. -/
def timerCb (w : World) (a : Alarm Unit) : World :=
  let r := w.doTimer
  if r.1 = 0 then { r.2 with alarms := r.2.alarms.filter (·.id ≠ a.id) }
  else { r.2 with alarms := r.2.alarms.map fun x => if x.id = a.id then { x with due := a.due + r.1 * 1000 } else x }

end World

inductive Event where
  | call (c : Call) (t : Nat)
  | next (t : Nat)
  | fire (a : Alarm Unit) (t : Nat)

def Event.time : Event → Nat
  | .call _ t | .next t | .fire _ t => t

def step (P : Pool) (w : World) (e : Event) : World :=
  let w := { w with now := e.time }
  match e with
  | .call c _ => { w with rest := c.body w.led, result := none }
  | .next _ =>
    match w.rest with
    | [] => w
    | x :: rest => { w with rest := rest }.exec P x
  | .fire a _ => w.timerCb a

/-- A pattern has from one bit to as many as the mask. -/
def Call.Fits : Call → Prop
  | .setFlashPattern _ bits => 1 ≤ bits ∧ bits ≤ 32
  | _ => True

/-- One call runs at a time, and no alarm comes before it is due. -/
def Can (w : World) (e : Event) : Prop :=
  w.now ≤ e.time ∧
  match e with
  | .call c _ => w.rest = [] ∧ c.Fits
  | .next _ => w.rest ≠ []
  | .fire a t => a ∈ w.alarms ∧ a.due ≤ t

/-- After the constructor. -/
def World.start (state : Bool) : World := { on := state }

/-! ## What holds between any two statements -/

/-- Where the call that runs is, with what it returns, whether the pattern is flashed and whether an alarm is pending. -/
inductive Phase (result : Option Bool) (flashes pending : Bool) : List Stmt → Prop where
  | idle (h : ∀ r, result = some r → r = flashes ∧ r = pending) : Phase result flashes pending []
  | setState (b : Bool) (hr : result = none) : Phase result flashes pending [.period 0, .setLed b]
  | setLed (b : Bool) (hr : result = none) : Phase result flashes pending [.setLed b]
  | setPeriod (p : Nat) (hr : result = none) : Phase result flashes pending [.period p]
  | setPattern (q n p : Nat) (hn : 1 ≤ n ∧ n ≤ 32) (hr : result = none) :
    Phase result flashes pending (.pattern q :: .bits n :: setFlash p)
  | setBits (n p : Nat) (hn : 1 ≤ n ∧ n ≤ 32) (hr : result = none) :
    Phase result flashes pending (.bits n :: setFlash p)
  | setFlash (p : Nat) (hr : result = none) : Phase result flashes pending (setFlash p)
  | wrapIndex (hr : result = none) : Phase result flashes pending [.wrapIndex, .check]
  | check (hr : result = none) : Phase result flashes pending [.check]
  | start (hr : result = some true) (hf : flashes = true) : Phase result flashes pending [.start]
  | cancel (hr : result = some false) (hf : flashes = false) : Phase result flashes pending [.cancel]
  | clear (hr : result = some false) (hf : flashes = false) (hp : pending = false) : Phase result flashes pending [.clear]

/-- The alarm that is pending, if there is one, is the one in `flasher_`. -/
inductive Holds (alarms : List (Alarm Unit)) (flasher : Int) (rest : List Stmt) : Prop where
  | one (a : Alarm Unit) (ha : alarms = [a]) (hid : flasher = a.id) (hpos : 0 < a.id)
  | none (ha : alarms = []) (hid : flasher = -1)
  | cleared (ha : alarms = []) (hr : rest = [.clear])

/-- An alarm is pending. -/
def World.pending (w : World) : Bool := !w.alarms.isEmpty

structure Good (w : World) : Prop where
  holds : Holds w.alarms w.led.flasher w.rest
  bits : 1 ≤ w.led.flashBits ∧ w.led.flashBits ≤ 32
  index : w.led.flashIndex < w.led.flashBits ∨ .wrapIndex ∈ w.rest
  shift : w.led.flashIndex < 32
  phase : Phase w.result w.led.flashes w.pending w.rest

/-- Only a cancelled alarm's identifier is out of date, until it is cleared. -/
theorem Holds.next {alarms : List (Alarm Unit)} {flasher : Int} {x : Stmt} {rest : List Stmt}
    (h : Holds alarms flasher (x :: rest)) (hx : x ≠ .clear) (rest' : List Stmt) : Holds alarms flasher rest' := by
  cases h with
  | one a ha hid hpos => exact .one a ha hid hpos
  | none ha hid => exact .none ha hid
  | cleared ha hcl => exact absurd (List.cons.inj hcl).1 hx

theorem Good.index_lt {w : World} (h : Good w) (hr : .wrapIndex ∉ w.rest) : w.led.flashIndex < w.led.flashBits :=
  h.index.resolve_right hr

theorem flashes_iff {l : Led} : l.flashes = true ↔ l.steady = none ∧ l.flashBits < l.flashPeriod := by
  unfold Led.flashes
  rw [Bool.and_eq_true, Bool.and_eq_true, Option.isNone_iff_eq_none, decide_eq_true_eq, bne_iff_ne]
  constructor
  · exact fun h => ⟨h.1.1, h.2⟩
  · exact fun h => ⟨⟨h.1, Nat.ne_of_gt (Nat.lt_of_le_of_lt (Nat.zero_le _) h.2)⟩, h.2⟩

/-- The bit after the one that is shown. -/
def Led.nextIndex (l : Led) : Nat := if l.flashIndex + 1 ≥ l.flashBits then 0 else l.flashIndex + 1

/-- The bit that is shown. -/
def Led.bit (l : Led) : Bool := l.flashPattern.testBit l.flashIndex

theorem and_shift_ne (n i : Nat) : ((n &&& 1 <<< i) != 0) = n.testBit i := by
  rw [Nat.one_shiftLeft, Nat.and_two_pow]
  cases n.testBit i with
  | false => rw [Bool.toNat_false, Nat.zero_mul]; rfl
  | true => rw [Bool.toNat_true, Nat.one_mul, bne_iff_ne]; exact Nat.ne_of_gt (Nat.two_pow_pos i)

/-- **The callback shows a bit and is due again**, a bit's time after it was due. -/
theorem timerCb_again {w : World} {a : Alarm Unit} (ha : w.alarms = [a]) (hb : 1 ≤ w.led.flashBits)
    (hp : w.led.flashBits ≤ w.led.flashPeriod) : w.timerCb a =
      { w.setLed w.led.bit with
        led := { w.led with flashIndex := w.led.nextIndex },
        alarms := [{ a with due := a.due + w.led.flashPeriod / w.led.flashBits * 1000 }] } := by
  have hpos : w.led.flashPeriod > 0 := by omega
  have hq : w.led.flashPeriod / w.led.flashBits ≠ 0 := Nat.ne_of_gt (Nat.div_pos hp hb)
  unfold World.timerCb World.doTimer
  rw [if_pos hpos]
  simp only [if_neg hq, and_shift_ne, World.setLed, ha, List.map_cons, List.map_nil, if_true]
  rfl

/-- A callback whose period is shorter than the pattern is the last. -/
theorem timerCb_ends {w : World} {a : Alarm Unit} (ha : w.alarms = [a]) (hp : w.led.flashPeriod < w.led.flashBits) :
    ∃ i on shown, (i = w.led.flashIndex ∨ i = w.led.nextIndex) ∧ w.timerCb a =
      { w with led := { w.led with flashIndex := i, flasher := -1 }, on := on, shown := shown, alarms := [] } := by
  have hq : w.led.flashPeriod / w.led.flashBits = 0 := Nat.div_eq_of_lt hp
  have hfilter : [a].filter (fun x => decide (x.id ≠ a.id)) = [] := by simp
  unfold World.timerCb World.doTimer
  by_cases hpos : w.led.flashPeriod > 0
  · rw [if_pos hpos]
    simp only [hq, if_true, World.setLed, ha, hfilter]
    exact ⟨_, _, _, .inr rfl, rfl⟩
  · rw [if_neg hpos]
    simp only [if_true, ha, hfilter]
    exact ⟨_, _, _, .inl rfl, rfl⟩

theorem nextIndex_lt {l : Led} (hb : 1 ≤ l.flashBits) : l.nextIndex < l.flashBits := by
  unfold Led.nextIndex
  split <;> omega

/-- Where the pattern is flashed the alarm goes on; elsewhere no phase asks for it. -/
theorem Phase.fired {result : Option Bool} {flashes pending : Bool} {rest : List Stmt}
    (h : Phase result flashes true rest) (hgoes : flashes = true → pending = true) :
    Phase result flashes pending rest := by
  cases h with
  | idle h =>
    refine .idle fun r hr => ?_
    obtain ⟨h1, rfl⟩ := h r hr
    exact ⟨h1, (hgoes h1.symm).symm⟩
  | setState b h => exact .setState b h
  | setLed b h => exact .setLed b h
  | setPeriod p h => exact .setPeriod p h
  | setPattern q n p hn h => exact .setPattern q n p hn h
  | setBits n p hn h => exact .setBits n p hn h
  | setFlash p h => exact .setFlash p h
  | wrapIndex h => exact .wrapIndex h
  | check h => exact .check h
  | start h h' => exact .start h h'
  | cancel h h' => exact .cancel h h'
  | clear h h' hp => cases hp

theorem Good.fire {w : World} (h : Good w) {a : Alarm Unit} (ha : a ∈ w.alarms) : Good (w.timerCb a) := by
  have hone : w.alarms = [a] ∧ w.led.flasher = a.id ∧ 0 < a.id := by
    cases h.holds with
    | one a' ha' hid hpos =>
      rw [ha', List.mem_singleton] at ha
      rw [ha]
      exact ⟨ha', hid, hpos⟩
    | none h0 _ => rw [h0] at ha; cases ha
    | cleared h0 _ => rw [h0] at ha; cases ha
  obtain ⟨hal, hid, hpos⟩ := hone
  have hphase : Phase w.result w.led.flashes true w.rest := by
    have h0 := h.phase
    rwa [World.pending, hal] at h0
  have hnext := nextIndex_lt h.bits.1
  by_cases hp : w.led.flashBits ≤ w.led.flashPeriod
  · rw [timerCb_again hal h.bits.1 hp]
    exact ⟨.one _ rfl hid hpos, h.bits, .inl hnext, Nat.lt_of_lt_of_le hnext h.bits.2,
      hphase.fired (fun _ => rfl)⟩
  · obtain ⟨i, on, shown, hi, heq⟩ := timerCb_ends hal (Nat.lt_of_not_le hp)
    rw [heq]
    refine ⟨.none rfl rfl, h.bits, ?_, ?_, hphase.fired (fun hf => ?_)⟩
    · rcases hi with rfl | rfl
      · exact h.index
      · exact .inl hnext
    · rcases hi with rfl | rfl
      · exact h.shift
      · exact Nat.lt_of_lt_of_le hnext h.bits.2
    · exact absurd (Nat.le_of_lt (flashes_iff.1 hf).2) hp

theorem good_start (state : Bool) : Good (World.start state) :=
  ⟨.none rfl rfl, (by decide : 1 ≤ 2 ∧ 2 ≤ 32), .inl Nat.two_pos, (by decide : 0 < 32), .idle fun _ h => by cases h⟩

theorem Good.call {w : World} (h : Good w) (hr : w.rest = []) {c : Call} (hc : c.Fits) :
    Good { w with rest := c.body w.led, result := none } := by
  have hholds : Holds w.alarms w.led.flasher (c.body w.led) := by
    cases h.holds with
    | one a ha hid hpos => exact .one a ha hid hpos
    | none ha hid => exact .none ha hid
    | cleared ha hcl => rw [hr] at hcl; cases hcl
  refine ⟨hholds, h.bits, .inl (h.index_lt (by rw [hr]; simp)), h.shift, ?_⟩
  cases c with
  | setState b => exact .setState b rfl
  | setFlash p => exact .setFlash p rfl
  | setFlashPattern q n => exact .setPattern q n _ hc rfl
  | setFlashPeriod p => exact .setPeriod p rfl

/-- `check_flash` does nothing but put something out. -/
theorem checkFlash_eq (w : World) : ∃ on shown, w.checkFlash = { w with on := on, shown := shown } := by
  unfold World.checkFlash
  cases w.led.steady with
  | none => exact ⟨_, _, rfl⟩
  | some b => exact ⟨_, _, rfl⟩

/-- `add_alarm_in_ms`, unless there is an alarm. -/
theorem Good.start {P : Pool} {w : World} (h : Good w) (hr : w.rest = [.start]) :
    Good ({ w with rest := [] }.exec P .start) := by
  have hphase := h.phase
  have hholds := h.holds
  have hindex := h.index_lt (by rw [hr]; simp)
  rw [hr] at hphase hholds
  obtain ⟨hn, hf⟩ : w.result = some true ∧ w.led.flashes = true := by
    cases hphase with
    | start hn hf => exact ⟨hn, hf⟩
  have hh := hholds.next (by simp) []
  unfold World.exec
  dsimp only
  split
  · rename_i hid
    have ha : w.alarms = [] := by
      cases hh with
      | one a ha hida hpos => omega
      | none ha _ => exact ha
      | cleared ha _ => exact ha
    rw [ha]
    refine ⟨.one _ rfl rfl (P.positive _ _), h.bits, .inl hindex, h.shift, .idle fun r hr => ?_⟩
    rw [hn] at hr
    cases hr
    exact ⟨hf.symm, rfl⟩
  · rename_i hid
    refine ⟨hh, h.bits, .inl hindex, h.shift, .idle fun r hr => ?_⟩
    rw [hn] at hr
    cases hr
    refine ⟨hf.symm, ?_⟩
    cases hh with
    | one a ha hida hpos => simp [World.pending, ha]
    | none ha hid' => exact absurd hid' hid
    | cleared ha hr => cases hr

/-- `cancel_alarm`, if there is an alarm. -/
theorem Good.cancel {P : Pool} {w : World} (h : Good w) (hr : w.rest = [.cancel]) :
    Good ({ w with rest := [] }.exec P .cancel) := by
  have hphase := h.phase
  have hholds := h.holds
  have hindex := h.index_lt (by rw [hr]; simp)
  rw [hr] at hphase hholds
  obtain ⟨hn, hf⟩ : w.result = some false ∧ w.led.flashes = false := by
    cases hphase with
    | cancel hn hf => exact ⟨hn, hf⟩
  have hh := hholds.next (by simp) []
  unfold World.exec
  dsimp only
  split
  · rename_i hid
    have ha : w.alarms.filter (fun a => decide (a.id ≠ w.led.flasher)) = [] := by
      cases hh with
      | one a ha hida hpos => simp [ha, hida]
      | none ha hid' => rw [ha]; rfl
      | cleared ha _ => rw [ha]; rfl
    rw [ha]
    exact ⟨.cleared rfl rfl, h.bits, .inl hindex, h.shift, .clear hn hf rfl⟩
  · rename_i hid
    refine ⟨hh, h.bits, .inl hindex, h.shift, .idle fun r hr => ?_⟩
    rw [hn] at hr
    cases hr
    refine ⟨hf.symm, ?_⟩
    cases hh with
    | one a ha hida hpos => omega
    | none ha hid' => simp [World.pending, ha]
    | cleared ha hr => cases hr

/-- The next statement of the call that runs. -/
theorem Good.next {P : Pool} {w : World} (h : Good w) {x : Stmt} {rest : List Stmt} (hr : w.rest = x :: rest) :
    Good ({ w with rest := rest }.exec P x) := by
  have hphase := h.phase
  have hholds := h.holds
  have hindex := h.index
  rw [hr] at hphase hholds hindex
  have hi : x ≠ .wrapIndex → w.led.flashIndex < w.led.flashBits ∨ .wrapIndex ∈ rest := fun hx => by
    rcases hindex with hi | hi
    · exact .inl hi
    · exact .inr ((List.mem_cons.1 hi).resolve_left (Ne.symm hx))
  cases hphase with
  | setState b hn => exact ⟨hholds.next (by simp) _, h.bits, hi (by simp), h.shift, .setLed b hn⟩
  | setLed b hn =>
    exact ⟨hholds.next (by simp) _, h.bits, hi (by simp), h.shift, .idle fun r hr => by rw [hn] at hr; cases hr⟩
  | setPeriod p hn =>
    exact ⟨hholds.next (by simp) _, h.bits, hi (by simp), h.shift, .idle fun r hr => by rw [hn] at hr; cases hr⟩
  | setPattern q n p hb hn => exact ⟨hholds.next (by simp) _, h.bits, hi (by simp), h.shift, .setBits n p hb hn⟩
  | setBits n p hb hn =>
    exact ⟨hholds.next (by simp) _, hb, .inr (List.mem_cons_of_mem _ List.mem_cons_self), h.shift, .setFlash p hn⟩
  | setFlash p hn => exact ⟨hholds.next (by simp) _, h.bits, .inr List.mem_cons_self, h.shift, .wrapIndex hn⟩
  | wrapIndex hn =>
    unfold World.exec
    dsimp only
    split
    · exact ⟨hholds.next (by simp) _, h.bits, .inl h.bits.1, (by decide : 0 < 32), .check hn⟩
    · rename_i hlt
      exact ⟨hholds.next (by simp) _, h.bits, .inl (Nat.lt_of_not_le hlt), h.shift, .check hn⟩
  | check hn =>
    obtain ⟨on, shown, heq⟩ := checkFlash_eq { w with rest := [] }
    unfold World.exec
    dsimp only
    rw [heq]
    refine ⟨hholds.next (by simp) _, h.bits, .inl (h.index_lt (by rw [hr]; simp)), h.shift, ?_⟩
    dsimp only
    cases hf : w.led.flashes with
    | true => exact .start rfl rfl
    | false => exact .cancel rfl rfl
  | start _ _ => exact h.start hr
  | cancel _ _ => exact h.cancel hr
  | clear hn hf hp =>
    have ha : w.alarms = [] := List.isEmpty_iff.1 (by rwa [World.pending, Bool.not_eq_false'] at hp)
    refine ⟨.none ha rfl, h.bits, hi (by simp), h.shift, .idle fun r hr => ?_⟩
    rw [hn] at hr
    cases hr
    exact ⟨hf.symm, hp.symm⟩

theorem Good.step {P : Pool} {w : World} {e : Event} (h : Good w) (hc : Can w e) : Good (step P w e) := by
  have hnow : Good { w with now := e.time } := ⟨h.holds, h.bits, h.index, h.shift, h.phase⟩
  cases e with
  | call c t => exact hnow.call hc.2.1 hc.2.2
  | next t =>
    cases hr : w.rest with
    | nil => exact absurd hr hc.2
    | cons x rest =>
      have heq : Flash.step P w (.next t) = { w with now := t, rest := rest }.exec P x := by
        simp only [Flash.step, hr, Event.time]
      rw [heq]
      exact hnow.next hr
  | fire a t => exact hnow.fire hc.2.1

/-- Between calls the index is inside the pattern, and what was returned last is still so. -/
theorem Good.between {w : World} (h : Good w) (hrest : w.rest = []) : w.led.flashIndex < w.led.flashBits ∧
    ∀ r, w.result = some r → r = w.led.flashes ∧ r = w.pending := by
  constructor
  · exact h.index_lt (by rw [hrest]; simp)
  · have hphase := h.phase
    rw [hrest] at hphase
    cases hphase with
    | idle h => exact h

/-- **Between calls** `flasher_` is the one alarm that is pending, or −1 where none is; the bit is inside the pattern; and
what `setFlash` and `setFlashPattern` returned last says whether the pattern is flashed and an alarm is pending.  The
callbacks may have come anywhere between the statements of the calls. -/
theorem one_alarm {P : Pool} {state : Bool} {w : World} (hr : Reach (World.start state) (step P) Can w)
    (hrest : w.rest = []) :
    w.alarms.map (·.id) = (if w.led.flasher = -1 then [] else [w.led.flasher]) ∧ w.led.flashIndex < w.led.flashBits ∧
      ∀ r, w.result = some r → r = w.led.flashes ∧ r = w.pending := by
  have h : Good w := inv_of_reach (good_start state) (fun _ _ => Good.step) hr
  refine ⟨?_, h.between hrest⟩
  cases h.holds with
  | one a ha hid hpos => rw [ha, if_neg (by omega), hid]; rfl
  | none ha hid => rw [ha, if_pos hid]; rfl
  | cleared ha hcl => rw [hrest] at hcl; cases hcl

instance decidableFits : ∀ c : Call, Decidable c.Fits
  | .setFlashPattern _ _ => inferInstanceAs (Decidable (_ ∧ _))
  | .setState _ | .setFlash _ | .setFlashPeriod _ => isTrue trivial

instance decidableCan (w : World) : ∀ e, Decidable (Can w e)
  | .call c _ => inferInstanceAs (Decidable (_ ∧ _ = _ ∧ c.Fits))
  | .next _ => inferInstanceAs (Decidable (_ ∧ _ ≠ _))
  | .fire _ _ => inferInstanceAs (Decidable (_ ∧ _ ∧ _))

/-- The LED flashes with a period of 100 ms, and after 70 ms a longer pattern is set, while a callback comes. -/
def twoPatterns : List Event :=
  [.call (.setFlash 100) 0, .next 0, .next 0, .next 0, .next 0, .fire ⟨1, 50000, ()⟩ 50002,
    .call (.setFlashPattern 5 4) 70000, .next 70000, .next 70000, .fire ⟨1, 100000, ()⟩ 100000, .next 100001,
    .next 100001, .next 100001, .next 100001]

theorem reach_twoPatterns :
    Reach (World.start true) (step .greatest) Can (twoPatterns.foldl (step .greatest) (World.start true)) :=
  reach_along twoPatterns _ .init (by decide)

theorem one_alarm_twoPatterns :
    (twoPatterns.foldl (step .greatest) (World.start true)).alarms.map (·.id) = [1] ∧ 2 < 4 ∧ ∀ r, some true = some r →
      r = (twoPatterns.foldl (step .greatest) (World.start true)).led.flashes ∧
      r = (twoPatterns.foldl (step .greatest) (World.start true)).pending :=
  one_alarm reach_twoPatterns rfl

/-! ## What is shown -/

def Event.fires : Event → Prop
  | .fire _ _ => True
  | _ => False

/-- The alarm is pending, and the pattern is flashed. -/
structure Flashing (w : World) (a : Alarm Unit) : Prop where
  alarm : w.alarms = [a]
  bits : 1 ≤ w.led.flashBits
  index : w.led.flashIndex < w.led.flashBits
  flashes : w.led.flashBits < w.led.flashPeriod

/-- How long a bit is shown, in microseconds. -/
def Led.bitTime (l : Led) : Nat := l.flashPeriod / l.flashBits * 1000

theorem nextIndex_eq {l : Led} (h : l.flashIndex < l.flashBits) : l.nextIndex = (l.flashIndex + 1) % l.flashBits := by
  unfold Led.nextIndex
  split
  · rw [show l.flashIndex + 1 = l.flashBits by omega, Nat.mod_self]
  · rw [Nat.mod_eq_of_lt (by omega)]

theorem step_fire {P : Pool} {w : World} {a : Alarm Unit} (h : Flashing w a) {e : Event} (he : e.fires) (hc : Can w e) :
    a.due ≤ e.time ∧ step P w e =
      { w with
        led := { w.led with flashIndex := (w.led.flashIndex + 1) % w.led.flashBits }, on := w.led.bit, now := e.time,
        shown := w.shown ++ [(e.time, w.led.bit)], alarms := [{ a with due := a.due + w.led.bitTime }] } := by
  cases e with
  | call c t => exact he.elim
  | next t => exact he.elim
  | fire b t =>
    obtain ⟨hb, hdue⟩ := hc.2
    rw [h.alarm, List.mem_singleton] at hb
    subst hb
    refine ⟨hdue, ?_⟩
    have hcb := timerCb_again (w := { w with now := t }) (a := b) h.alarm h.bits (Nat.le_of_lt h.flashes)
    refine hcb.trans ?_
    rw [nextIndex_eq h.index]
    rfl

/-- **The pattern is shown bit by bit, over and over, without drift**: while no call is made each callback shows the
next bit, and the `j`-th is due `j` bits after the first one, however late the others came. -/
theorem fires_show {P : Pool} : ∀ (es : List Event) {w : World} {a : Alarm Unit}, Flashing w a →
    (∀ e ∈ es, e.fires) → Along (step P) Can w es →
    (es.foldl (step P) w).shown = w.shown ++ es.mapIdx (fun j e =>
      (e.time, w.led.flashPattern.testBit ((w.led.flashIndex + j) % w.led.flashBits))) ∧
    (es.foldl (step P) w).alarms = [{ a with due := a.due + es.length * w.led.bitTime }] ∧
    ∀ j e, es[j]? = some e → a.due + j * w.led.bitTime ≤ e.time
  | [], w, a, h, _, _ => by
    refine ⟨by simp, ?_, fun j e he => by simp at he⟩
    rw [List.foldl_nil, h.alarm, List.length_nil, Nat.zero_mul, Nat.add_zero]
  | e :: es, w, a, h, hf, hc => by
    obtain ⟨hdue, heq⟩ := step_fire (P := P) h (hf e List.mem_cons_self) hc.1
    have hnext : Flashing (step P w e) { a with due := a.due + w.led.bitTime } := by
      rw [heq]
      exact ⟨rfl, h.bits, Nat.mod_lt _ h.bits, h.flashes⟩
    obtain ⟨hshown, halarms, htimes⟩ := fires_show es hnext (fun x hx => hf x (List.mem_cons_of_mem _ hx)) hc.2
    rw [heq] at hshown halarms htimes
    rw [List.foldl_cons, heq]
    refine ⟨?_, ?_, fun j x hx => ?_⟩
    · have hbit : w.led.flashPattern.testBit ((w.led.flashIndex + 0) % w.led.flashBits) = w.led.bit := by
        rw [Nat.add_zero, Nat.mod_eq_of_lt h.index]
        rfl
      have hrest : ∀ j, ((w.led.flashIndex + 1) % w.led.flashBits + j) % w.led.flashBits =
          (w.led.flashIndex + (j + 1)) % w.led.flashBits := fun j => by
        rw [Nat.mod_add_mod, Nat.add_assoc, Nat.add_comm 1 j]
      simp only [hrest] at hshown
      rw [hshown, List.mapIdx_cons, List.append_assoc, List.singleton_append, hbit]
    · rw [halarms, List.length_cons, Nat.succ_mul, Nat.add_comm (es.length * _), ← Nat.add_assoc]
      rfl
    · cases j with
      | zero =>
        rw [Nat.zero_mul, Nat.add_zero, ← Option.some.inj hx]
        exact hdue
      | succ j =>
        have := htimes j x hx
        rw [Nat.succ_mul, Nat.add_comm (j * _), ← Nat.add_assoc]
        exact this

/-- **A pattern that is flashed is shown** from any state of any run in which `setFlash` or `setFlashPattern` has said
so. -/
theorem pattern_shown {P : Pool} {state : Bool} {w : World} (hr : Reach (World.start state) (step P) Can w)
    (hrest : w.rest = []) (hres : w.result = some true) :
    ∃ a, w.alarms = [a] ∧ ∀ es : List Event, (∀ e ∈ es, e.fires) → Along (step P) Can w es →
      (es.foldl (step P) w).shown = w.shown ++ es.mapIdx (fun j e =>
        (e.time, w.led.flashPattern.testBit ((w.led.flashIndex + j) % w.led.flashBits))) ∧
      (es.foldl (step P) w).alarms = [{ a with due := a.due + es.length * w.led.bitTime }] ∧
      ∀ j e, es[j]? = some e → a.due + j * w.led.bitTime ≤ e.time := by
  have h : Good w := inv_of_reach (good_start state) (fun _ _ => Good.step) hr
  obtain ⟨hindex, hresult⟩ := h.between hrest
  obtain ⟨hf, hp⟩ := hresult true hres
  obtain ⟨a, ha⟩ : ∃ a, w.alarms = [a] := by
    cases h.holds with
    | one a ha _ _ => exact ⟨a, ha⟩
    | none ha _ => rw [World.pending, ha] at hp; cases hp
    | cleared ha _ => rw [World.pending, ha] at hp; cases hp
  exact ⟨a, ha, fun es => fires_show es ⟨ha, h.bits.1, hindex, (flashes_iff.1 hf.symm).2⟩⟩

theorem pattern_shown_twoPatterns : ∃ a, (twoPatterns.foldl (step .greatest) (World.start true)).alarms = [a] ∧
    ∀ es : List Event, (∀ e ∈ es, e.fires) →
      Along (step .greatest) Can (twoPatterns.foldl (step .greatest) (World.start true)) es →
      ((twoPatterns ++ es).foldl (step .greatest) (World.start true)).shown =
        [(50002, true), (100000, false)] ++ es.mapIdx (fun j e => (e.time, (5 : Nat).testBit ((2 + j) % 4))) ∧
      ((twoPatterns ++ es).foldl (step .greatest) (World.start true)).alarms =
        [{ a with due := a.due + es.length * 25000 }] ∧
      ∀ j e, es[j]? = some e → a.due + j * 25000 ≤ e.time := by
  have h := pattern_shown reach_twoPatterns rfl rfl
  simp only [List.foldl_append]
  exact h

end Flash
end Pico
