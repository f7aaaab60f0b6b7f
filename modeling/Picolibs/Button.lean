import Picolibs.Alarms
import Picolibs.Loop
/-!
# Button — a debounced button and its timers (`button.cpp`)

Three alarms: `bounce_cb` samples the pin some time after an edge, `hold_cb` and `click_cb` follow the press.  A `World`
is the object with the level of its pin, the time, the pending alarms and what was notified.  An alarm fires by its
identifier, with its callback; an edge raises `gpio_cb` there and then.

The operations are described through the deadlines alone (`due`): `Keeps.sample_cases`, `Keeps.hold_fires` and
`Keeps.click_fires` say what each callback does.
-/
namespace Pico
namespace Key

open Alarms

inductive ButtonAction where
  | noAction
  | buttonDown
  | buttonUp
  | buttonClicked
  | buttonDoubleClicked
  | buttonHeld
  deriving DecidableEq

structure ButtonEvent where
  time : Nat
  id : Nat
  action : ButtonAction
  deriving DecidableEq

inductive Callback where
  | bounceCb
  | holdCb
  | clickCb
  deriving DecidableEq

structure Button where
  id : Nat := 0
  bounce : Int := -1
  click : Int := -1
  hold : Int := -1
  -- milliseconds
  bounceTime : Nat := 7
  clickTime : Nat := 250
  holdTime : Nat := 3000
  prevState : Bool := false
  deriving DecidableEq

/-- The field with the identifier of the callback's alarm. -/
def Button.slot (b : Button) : Callback → Int
  | .bounceCb => b.bounce
  | .holdCb => b.hold
  | .clickCb => b.click

def Button.setSlot (b : Button) (k : Callback) (id : Int) : Button :=
  match k with
  | .bounceCb => { b with bounce := id }
  | .holdCb => { b with hold := id }
  | .clickCb => { b with click := id }

theorem Button.slot_setSlot (b : Button) (k : Callback) (id : Int) :
    (b.setSlot k id).slot = Function.update b.slot k id := by
  funext j
  cases k <;> cases j <;> rfl

theorem Button.setSlot_slot (b : Button) (k : Callback) : b.setSlot k (b.slot k) = b := by cases k <;> rfl

theorem Button.setSlot_comm {b : Button} {j k : Callback} (h : k ≠ j) (x y : Int) :
    (b.setSlot k x).setSlot j y = (b.setSlot j y).setSlot k x := by
  cases k <;> cases j <;> first | rfl | exact absurd rfl h

structure World where
  btn : Button
  -- the level of the pin, and when it last changed
  gpio : Bool := true
  changed : Nat := 0
  -- microseconds
  now : Nat := 0
  alarms : List (Alarm Callback) := []
  -- how many alarms were added
  added : Nat := 0
  -- what `notify` was called with
  events : List ButtonEvent := []
  deriving DecidableEq

namespace World

/-- `isDown`. -/
def isDown (w : World) : Bool := !w.gpio

/-- `notify`: one more event for the callback or the queue. -/
def notify (w : World) (action : ButtonAction) : World := { w with events := w.events ++ [⟨w.now, w.btn.id, action⟩] }

/-- `cancel_alarm`. -/
def cancelAlarm (w : World) (id : Int) : World := { w with alarms := w.alarms.filter (·.id ≠ id) }

/-- `stop_hold_timer` and `stop_click_timer`. -/
def stopTimer (k : Callback) (w : World) : World :=
  if w.btn.slot k ≠ -1 then
    let w := w.cancelAlarm (w.btn.slot k)
    { w with btn := w.btn.setSlot k (-1) }
  else w

def stopHoldTimer : World → World := stopTimer .holdCb

def stopClickTimer : World → World := stopTimer .clickCb

/-- `button_clicked`. -/
def buttonClicked (w : World) : World := (w.notify .buttonClicked).stopClickTimer

/-- `button_held`. -/
def buttonHeld (w : World) : World := (w.notify .buttonHeld).stopClickTimer.stopHoldTimer

def holdCb (w : World) : World := { w with btn := w.btn.setSlot .holdCb (-1) }.buttonHeld

def clickCb (w : World) : World := { w with btn := w.btn.setSlot .clickCb (-1) }.buttonClicked

section Pool

variable (P : Pool)

/-- `add_alarm_in_ms`, with the identifier stored. -/
def addAlarmInMs (ms : Nat) (k : Callback) (w : World) : World :=
  let id := P.newId w.added (w.alarms.map (·.id))
  { w with
    btn := w.btn.setSlot k id, alarms := w.alarms ++ [⟨id, w.now + ms * 1000, k⟩], added := w.added + 1 }

def startHoldTimer (w : World) : World :=
  let w := w.stopHoldTimer
  w.addAlarmInMs P w.btn.holdTime .holdCb

def startClickTimer (w : World) : World :=
  let w := w.stopClickTimer
  w.addAlarmInMs P w.btn.clickTime .clickCb

/-- `button_down`. -/
def buttonDown (w : World) : World := (w.notify .buttonDown).startHoldTimer P

/-- `button_up`. -/
def buttonUp (w : World) : World :=
  let w := w.notify .buttonUp
  let w :=
    if w.btn.hold ≠ -1 then
      if w.btn.click = -1 then w.startClickTimer P
      else w.stopClickTimer.notify .buttonDoubleClicked
    else w
  w.stopHoldTimer

/-- `bounce_cb`. -/
def bounceCb (w : World) : World :=
  let state := w.isDown
  let w :=
    if state ≠ w.btn.prevState then
      let w := { w with btn := { w.btn with prevState := state } }
      if state then w.buttonDown P else w.buttonUp P
    else w
  { w with btn := w.btn.setSlot .bounceCb (-1) }

/-- `do_event`, which `gpio_cb` calls. -/
def doEvent (w : World) : World :=
  if w.btn.bounce = -1 then w.addAlarmInMs P w.btn.bounceTime .bounceCb else w

def callback : Callback → World → World
  | .bounceCb => bounceCb P
  | .holdCb => holdCb
  | .clickCb => clickCb

end Pool

end World

inductive Event where
  -- the pin changes, and `gpio_cb` runs
  | edge (t : Nat)
  -- the alarm fires
  | fire (a : Alarm Callback) (t : Nat)
  -- `bounce_cb` samples a pin that has changed
  | change (t : Nat)

def step (P : Pool) (w : World) : Event → World
  | .edge t => { w with now := t, gpio := !w.gpio, changed := t }.doEvent P
  | .fire a t => World.callback P a.cb { w with now := t, alarms := w.alarms.filter (·.id ≠ a.id) }
  | .change t => { w with now := t, gpio := w.btn.prevState, changed := t }.bounceCb P

/-! ## The deadlines -/

namespace World

/-- The pending alarms are the ones whose identifiers are kept. -/
def Keeps (w : World) : Prop := Owned w.btn.slot w.alarms

/-- When the callback's alarm is due. -/
def due (w : World) : Callback → Option Nat := dueOf w.alarms

/-- `w'` is `w` with other deadlines, the slots for them, and the notifications. -/
structure Does (w w' : World) (due : Callback → Option Nat) (acts : List ButtonAction) : Prop where
  keeps : w'.Keeps
  due : w'.due = due
  events : w'.events = w.events ++ acts.map fun action => ⟨w.now, w.btn.id, action⟩
  now : w'.now = w.now
  gpio : w'.gpio = w.gpio
  changed : w'.changed = w.changed
  id : w'.btn.id = w.btn.id
  prevState : w'.btn.prevState = w.btn.prevState
  times : w'.btn.bounceTime = w.btn.bounceTime ∧ w'.btn.clickTime = w.btn.clickTime ∧ w'.btn.holdTime = w.btn.holdTime

section Does

variable {w w1 w2 : World} {d1 d2 : Callback → Option Nat} {acts1 acts2 : List ButtonAction} {k : Callback}

theorem Does.trans (h1 : w.Does w1 d1 acts1) (h2 : w1.Does w2 d2 acts2) : w.Does w2 d2 (acts1 ++ acts2) := by
  refine ⟨h2.keeps, h2.due, ?_, h2.now.trans h1.now, h2.gpio.trans h1.gpio, h2.changed.trans h1.changed,
    h2.id.trans h1.id, h2.prevState.trans h1.prevState, ?_⟩
  · rw [h2.events, h1.events, h1.now, h1.id, List.map_append, List.append_assoc]
  · obtain ⟨hb, hc, hh⟩ := h1.times
    obtain ⟨hb', hc', hh'⟩ := h2.times
    exact ⟨hb'.trans hb, hc'.trans hc, hh'.trans hh⟩

/-- What was notified. -/
def actions (w : World) : List ButtonAction := w.events.map (·.action)

theorem Does.actions (h : w.Does w1 d1 acts1) : w1.actions = w.actions ++ acts1 := by
  rw [World.actions, h.events, List.map_append, List.map_map]
  exact congrArg (w.actions ++ ·) (List.map_id acts1)

theorem Keeps.slot_eq_iff (h : w.Keeps) (k : Callback) : w.btn.slot k = -1 ↔ w.due k = none := Owned.slot_eq_iff h k

theorem setSlot_same (b : Button) (k : Callback) (id : Int) : (b.setSlot k id).id = b.id ∧
    (b.setSlot k id).prevState = b.prevState ∧ (b.setSlot k id).bounceTime = b.bounceTime ∧
    (b.setSlot k id).clickTime = b.clickTime ∧ (b.setSlot k id).holdTime = b.holdTime := by
  cases k <;> exact ⟨rfl, rfl, rfl, rfl, rfl⟩

theorem Keeps.notify (h : w.Keeps) (action : ButtonAction) : w.Does (w.notify action) w.due [action] :=
  ⟨h, rfl, rfl, rfl, rfl, rfl, rfl, rfl, rfl, rfl, rfl⟩

/-- The callback's alarm leaves the pending ones, and its slot is reset. -/
def reset (k : Callback) (w : World) : World :=
  { w with btn := w.btn.setSlot k (-1), alarms := w.alarms.filter (·.cb ≠ k) }

theorem Keeps.reset (h : w.Keeps) (k : Callback) : w.Does (w.reset k) (Function.update w.due k none) [] := by
  obtain ⟨hid, hprev, htimes⟩ := setSlot_same w.btn k (-1)
  refine ⟨?_, dueOf_cancel w.alarms k, (List.append_nil _).symm, rfl, rfl, rfl, hid, hprev, htimes⟩
  unfold Keeps World.reset
  rw [Button.slot_setSlot]
  exact Owned.cancel h k

theorem Keeps.stopTimer_eq (h : w.Keeps) (k : Callback) : w.stopTimer k = w.reset k := by
  have hcancel := Owned.cancel_eq h k
  unfold World.stopTimer World.reset
  by_cases hs : w.btn.slot k = -1
  · have hall : w.alarms.filter (·.id ≠ -1) = w.alarms := List.filter_eq_self.2 fun a ha => by
      have hpos := Owned.positive h a ha
      exact decide_eq_true (by omega)
    rw [if_neg (not_not.2 hs), ← hs, Button.setSlot_slot, ← hcancel, hs, hall]
  · rw [if_pos hs]
    unfold cancelAlarm
    rw [hcancel]

/-- **Stopping a timer** takes its deadline. -/
theorem Keeps.stopTimer (h : w.Keeps) (k : Callback) : w.Does (w.stopTimer k) (Function.update w.due k none) [] := by
  rw [h.stopTimer_eq k]
  exact h.reset k

theorem Keeps.addAlarmInMs (h : w.Keeps) (P : Pool) (ms : Nat) (hk : w.due k = none) :
    w.Does (w.addAlarmInMs P ms k) (Function.update w.due k (some (w.now + ms * 1000))) [] := by
  obtain ⟨hid, hprev, htimes⟩ := setSlot_same w.btn k (P.newId w.added (w.alarms.map (·.id)))
  refine ⟨?_, dueOf_add hk _ _, (List.append_nil _).symm, rfl, rfl, rfl, hid, hprev, htimes⟩
  unfold Keeps World.addAlarmInMs
  rw [Button.slot_setSlot]
  exact Owned.add h P w.added _ ((h.slot_eq_iff k).2 hk)

/-- **Starting a timer** sets its deadline, whatever it was. -/
theorem Keeps.restart (h : w.Keeps) (P : Pool) (ms : Nat) (k : Callback) :
    w.Does ((w.stopTimer k).addAlarmInMs P ms k) (Function.update w.due k (some (w.now + ms * 1000))) [] := by
  have hstop := h.stopTimer k
  have hadd := hstop.keeps.addAlarmInMs P ms (k := k) (by rw [hstop.due, Function.update_self])
  rw [hstop.due, hstop.now, Function.update_idem] at hadd
  exact hstop.trans hadd

end Does

/-! ## What the member functions do -/

section Members

variable {w : World} (P : Pool)

theorem Keeps.startHoldTimer (h : w.Keeps) : w.Does (w.startHoldTimer P)
    (Function.update w.due .holdCb (some (w.now + w.btn.holdTime * 1000))) [] := by
  have htime := (h.stopTimer .holdCb).times.2.2
  unfold World.startHoldTimer World.stopHoldTimer
  simp only [htime]
  exact h.restart P w.btn.holdTime .holdCb

theorem Keeps.startClickTimer (h : w.Keeps) : w.Does (w.startClickTimer P)
    (Function.update w.due .clickCb (some (w.now + w.btn.clickTime * 1000))) [] := by
  have htime := (h.stopTimer .clickCb).times.2.1
  unfold World.startClickTimer World.stopClickTimer
  simp only [htime]
  exact h.restart P w.btn.clickTime .clickCb

theorem Keeps.buttonDown (h : w.Keeps) : w.Does (w.buttonDown P)
    (Function.update w.due .holdCb (some (w.now + w.btn.holdTime * 1000))) [.buttonDown] :=
  (h.notify .buttonDown).trans ((h.notify .buttonDown).keeps.startHoldTimer P)

theorem Keeps.buttonHeld (h : w.Keeps) : w.Does w.buttonHeld
    (Function.update (Function.update w.due .clickCb none) .holdCb none) [.buttonHeld] := by
  have hclick := (h.notify .buttonHeld).trans ((h.notify .buttonHeld).keeps.stopTimer .clickCb)
  have hhold := hclick.keeps.stopTimer .holdCb
  rw [hclick.due] at hhold
  exact hclick.trans hhold

theorem Keeps.buttonClicked (h : w.Keeps) : w.Does w.buttonClicked (Function.update w.due .clickCb none)
    [.buttonClicked] :=
  (h.notify .buttonClicked).trans ((h.notify .buttonClicked).keeps.stopTimer .clickCb)

/-- **What the hold timer does**: it takes the click timer with it. -/
theorem Keeps.hold_fires (h : w.Keeps) : w.Does (w.reset .holdCb).buttonHeld
    (Function.update (Function.update w.due .clickCb none) .holdCb none) [.buttonHeld] := by
  have hreset := h.reset .holdCb
  have hd := hreset.trans hreset.keeps.buttonHeld
  rw [hreset.due, Function.update_comm (by decide), Function.update_idem, Function.update_comm (by decide)] at hd
  exact hd

/-- **What the click timer does.** -/
theorem Keeps.click_fires (h : w.Keeps) : w.Does (w.reset .clickCb).buttonClicked (Function.update w.due .clickCb none)
    [.buttonClicked] := by
  have hreset := h.reset .clickCb
  have hd := hreset.trans hreset.keeps.buttonClicked
  rw [hreset.due, Function.update_idem] at hd
  exact hd

/-- `button_up` with no hold timer: the press was held, or began before the start. -/
theorem Keeps.buttonUp_held (h : w.Keeps) (hh : w.due .holdCb = none) : w.Does (w.buttonUp P) w.due [.buttonUp] := by
  have hup := h.notify .buttonUp
  have hslot : (w.notify .buttonUp).btn.hold = -1 := (hup.keeps.slot_eq_iff .holdCb).2 hh
  have hstop := hup.keeps.stopTimer .holdCb
  rw [Function.update_eq_self_iff.2 (show none = (w.notify .buttonUp).due .holdCb from hh.symm)] at hstop
  unfold World.buttonUp
  simp only [if_neg (not_not.2 hslot)]
  exact hup.trans hstop

/-- `button_up` of a short press with no other before it starts the click timer. -/
theorem Keeps.buttonUp_first (h : w.Keeps) (hh : w.due .holdCb ≠ none) (hc : w.due .clickCb = none) :
    w.Does (w.buttonUp P) (Function.update (Function.update w.due .clickCb (some (w.now + w.btn.clickTime * 1000)))
      .holdCb none) [.buttonUp] := by
  have hup := h.notify .buttonUp
  have hslot : (w.notify .buttonUp).btn.hold ≠ -1 := fun hs => hh ((hup.keeps.slot_eq_iff .holdCb).1 hs)
  have hslot' : (w.notify .buttonUp).btn.click = -1 := (hup.keeps.slot_eq_iff .clickCb).2 hc
  have hstart := hup.trans (hup.keeps.startClickTimer P)
  have hstop := hstart.keeps.stopTimer .holdCb
  rw [hstart.due] at hstop
  unfold World.buttonUp
  simp only [if_pos hslot, if_pos hslot']
  exact hstart.trans hstop

/-- `button_up` of a short press behind another makes a double click of the two. -/
theorem Keeps.buttonUp_second (h : w.Keeps) (hh : w.due .holdCb ≠ none) (hc : w.due .clickCb ≠ none) :
    w.Does (w.buttonUp P) (Function.update (Function.update w.due .clickCb none) .holdCb none)
      [.buttonUp, .buttonDoubleClicked] := by
  have hup := h.notify .buttonUp
  have hslot : (w.notify .buttonUp).btn.hold ≠ -1 := fun hs => hh ((hup.keeps.slot_eq_iff .holdCb).1 hs)
  have hslot' : (w.notify .buttonUp).btn.click ≠ -1 := fun hs => hc ((hup.keeps.slot_eq_iff .clickCb).1 hs)
  have hclick := hup.trans (hup.keeps.stopTimer .clickCb)
  have hdouble := hclick.trans (hclick.keeps.notify .buttonDoubleClicked)
  rw [hclick.due] at hdouble
  have hstop := hdouble.keeps.stopTimer .holdCb
  rw [hdouble.due] at hstop
  unfold World.buttonUp
  simp only [if_pos hslot, if_neg hslot']
  exact hdouble.trans hstop

/-- `bounce_cb`, of a button whose bounce timer is not kept any more. -/
def sample (w : World) : World :=
  if w.isDown ≠ w.btn.prevState then
    let w := { w with btn := { w.btn with prevState := w.isDown } }
    if w.isDown then w.buttonDown P else w.buttonUp P
  else w

/-- The bounce timer is not kept any more. -/
def settle (w : World) : World := { w with btn := w.btn.setSlot .bounceCb (-1) }

theorem settle_stopTimer {k : Callback} (hk : k ≠ .bounceCb) (w : World) :
    (w.stopTimer k).settle = w.settle.stopTimer k := by
  have hslot : w.settle.btn.slot k = w.btn.slot k := by
    show (w.btn.setSlot .bounceCb (-1)).slot k = _
    rw [Button.slot_setSlot, Function.update_of_ne hk]
  unfold stopTimer
  rw [hslot]
  split
  · unfold cancelAlarm settle
    simp only [Button.setSlot_comm hk]
  · rfl

theorem settle_addAlarmInMs {k : Callback} (hk : k ≠ .bounceCb) (ms : Nat) (w : World) :
    (w.addAlarmInMs P ms k).settle = w.settle.addAlarmInMs P ms k := by
  unfold addAlarmInMs settle
  simp only [Button.setSlot_comm hk]

theorem settle_startClickTimer (w : World) : (w.startClickTimer P).settle = w.settle.startClickTimer P := by
  unfold startClickTimer stopClickTimer
  rw [settle_addAlarmInMs P (by decide), settle_stopTimer (by decide), ← settle_stopTimer (by decide)]
  rfl

theorem settle_buttonDown (w : World) : (w.buttonDown P).settle = w.settle.buttonDown P := by
  unfold buttonDown startHoldTimer stopHoldTimer
  rw [settle_addAlarmInMs P (by decide), settle_stopTimer (by decide),
    show w.settle.notify .buttonDown = (w.notify .buttonDown).settle from rfl, ← settle_stopTimer (by decide)]
  rfl

theorem settle_buttonUp (w : World) : (w.buttonUp P).settle = w.settle.buttonUp P := by
  have hn : w.settle.notify .buttonUp = (w.notify .buttonUp).settle := rfl
  unfold buttonUp stopHoldTimer
  rw [settle_stopTimer (by decide), hn]
  generalize w.notify .buttonUp = w1
  have hhold : w1.settle.btn.hold = w1.btn.hold := rfl
  have hclick : w1.settle.btn.click = w1.btn.click := rfl
  simp only [hhold, hclick]
  congr 1
  split
  · split
    · exact settle_startClickTimer P w1
    · unfold stopClickTimer
      rw [← settle_stopTimer (by decide)]
      rfl
  · rfl

/-- Nothing that `bounce_cb` calls reads or writes the bounce timer. -/
theorem bounceCb_eq (w : World) : w.bounceCb P = w.settle.sample P := by
  show (if w.isDown ≠ w.btn.prevState then _ else w : World).settle = _
  unfold sample
  have hdown : w.settle.isDown = w.isDown := rfl
  have hprev : w.settle.btn.prevState = w.btn.prevState := rfl
  rw [hdown, hprev]
  split
  · show (if w.isDown = true then _ else _ : World).settle = if w.isDown = true then _ else _
    split
    · exact settle_buttonDown P _
    · exact settle_buttonUp P _
  · rfl

theorem sample_down (hd : w.isDown = true) (hp : w.btn.prevState = false) :
    w.sample P = World.buttonDown P { w with btn := { w.btn with prevState := true } } := by
  unfold World.sample
  rw [if_pos (by rw [hd, hp]; decide), hd]
  exact if_pos hd

theorem sample_up (hd : w.isDown = false) (hp : w.btn.prevState = true) :
    w.sample P = World.buttonUp P { w with btn := { w.btn with prevState := false } } := by
  unfold World.sample
  rw [if_pos (by rw [hd, hp]; decide), hd]
  exact if_neg (ne_true_of_eq_false hd)

theorem sample_same (h : w.isDown = w.btn.prevState) : w.sample P = w := by
  unfold World.sample
  rw [if_neg (not_not.2 h)]

/-- **What `sample` does**: nothing, or what `button_down` or `button_up` do with the new level. -/
theorem Keeps.sample_cases (h : w.Keeps) :
    (w.isDown = w.btn.prevState ∧ w.sample P = w) ∨
    (w.isDown = true ∧ w.btn.prevState = false ∧
      { w with btn := { w.btn with prevState := true } }.Does (w.sample P)
        (Function.update w.due .holdCb (some (w.now + w.btn.holdTime * 1000))) [.buttonDown]) ∨
    (w.isDown = false ∧ w.btn.prevState = true ∧
      { w with btn := { w.btn with prevState := false } }.Does (w.sample P)
        (Function.update
          (if w.due .holdCb = none then w.due
            else Function.update w.due .clickCb
              (if w.due .clickCb = none then some (w.now + w.btn.clickTime * 1000) else none)) .holdCb none)
        (if w.due .holdCb = none ∨ w.due .clickCb = none then [.buttonUp] else [.buttonUp, .buttonDoubleClicked])) := by
  have hkeeps : ∀ level, ({ w with btn := { w.btn with prevState := level } } : World).Keeps := fun _ => h
  cases hd : w.isDown with
  | true =>
    cases hp : w.btn.prevState with
    | true => exact Or.inl ⟨rfl, sample_same P (hd.trans hp.symm)⟩
    | false =>
      rw [sample_down P hd hp]
      exact Or.inr (Or.inl ⟨rfl, rfl, (hkeeps true).buttonDown P⟩)
  | false =>
    cases hp : w.btn.prevState with
    | false => exact Or.inl ⟨rfl, sample_same P (hd.trans hp.symm)⟩
    | true =>
      rw [sample_up P hd hp]
      refine Or.inr (Or.inr ⟨rfl, rfl, ?_⟩)
      by_cases hh : w.due .holdCb = none
      · rw [if_pos hh, if_pos (Or.inl hh), Function.update_eq_self_iff.2 hh.symm]
        exact (hkeeps false).buttonUp_held P hh
      · rw [if_neg hh]
        by_cases hc : w.due .clickCb = none
        · rw [if_pos hc, if_pos (Or.inr hc)]
          exact (hkeeps false).buttonUp_first P hh hc
        · rw [if_neg hc, if_neg (not_or.2 ⟨hh, hc⟩)]
          exact (hkeeps false).buttonUp_second P hh hc

/-- The bounce timer is left alone. -/
theorem Keeps.sample_due (h : w.Keeps) : (w.sample P).due .bounceCb = w.due .bounceCb := by
  rcases h.sample_cases P with ⟨-, hsame⟩ | ⟨-, -, hd⟩ | ⟨-, -, hd⟩
  · rw [hsame]
  · rw [hd.due, Function.update_of_ne (by decide)]
  · rw [hd.due, Function.update_of_ne (by decide)]
    split
    · rfl
    · rw [Function.update_of_ne (by decide)]

end Members

end World

/-- **What fires**: the callback, of a button that has the alarm no more. -/
theorem step_fire {P : Pool} {w : World} (h : w.Keeps) {a : Alarm Callback} (ha : a ∈ w.alarms) (t : Nat) :
    step P w (.fire a t) = match a.cb with
      | .bounceCb => World.sample P ({ w with now := t }.reset .bounceCb)
      | .holdCb => ({ w with now := t }.reset .holdCb).buttonHeld
      | .clickCb => ({ w with now := t }.reset .clickCb).buttonClicked := by
  have hslot := Owned.inSlot h a ha
  have hcancel := Owned.cancel_eq h a.cb
  rw [hslot] at hcancel
  show World.callback P a.cb { w with now := t, alarms := w.alarms.filter (·.id ≠ a.id) } = _
  rw [hcancel]
  cases a.cb with
  | bounceCb => exact World.bounceCb_eq P _
  | holdCb => rfl
  | clickCb => rfl

end Key
end Pico
