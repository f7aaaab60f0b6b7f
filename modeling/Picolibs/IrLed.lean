import Mathlib.Algebra.Order.BigOperators.Group.List
import Mathlib.Algebra.Order.Group.Nat
import Picolibs.Alarms
import Picolibs.Text
/-!
# IrLed — what an infrared LED is driven to (`ir_led.cpp`)

`set_next` is called when a transmission starts and at every alarm.  `out_index_` says which call it is: of a duration,
of the pause behind the last one, or of what comes after the pause, the next copy or the end.  A `World` is the object
with its alarms, the time, and the output at every microsecond.

`transmit_plays`: the durations are played `minimum_repeats() + 1` times, at the distance that the repeat interval
asks for, and the callback is called once.
-/
namespace Pico
namespace Ir

open Alarms (Alarm Pool)

structure Led where
  -- the allocated slots
  times : List Nat := []
  nTimes : Nat := 0
  outIndex : Nat := 0
  timer : Int := -1
  repeats : Int := 0
  -- the virtual functions
  repeatInterval : Int := 0
  minimumRepeats : Int := 0
  deriving DecidableEq

structure World where
  led : Led
  now : Nat := 0
  alarms : List (Alarm Unit) := []
  -- how many alarms were added
  added : Nat := 0
  -- whether `duty_` is applied, at every microsecond
  wave : Nat → Bool := fun _ => false
  -- `timer_` at each call of `done_cb_`
  dones : List Int := []

/-- `times_[i]`, of the durations that are set. -/
def Led.read (l : Led) (i : Nat) : Except Fault Nat :=
  if i < l.nTimes then .ok (l.times.getD i 0) else .error .outOfBounds

namespace World

/-- `setDutyCycle`, to `duty_` or to 0: the output from now on. -/
def setDutyCycle (w : World) (on : Bool) : World :=
  { w with wave := fun t => if t < w.now then w.wave t else on }

/-- `pause -= times_[ii]`, for the first slots, in 32 bits. -/
def subtractTimes (l : Led) : Nat → Int → Except Fault Int
  | 0, pause => .ok pause
  | ii + 1, pause => do
    let pause ← subtractTimes l ii pause
    let t ← l.read ii
    .ok (Int.bmod (pause - t) (2 ^ 32))

/-- The first part of `set_next`: the duration at the index, and 0 behind the last. -/
def nextTime (w : World) : Except Fault (Int × World) :=
  if w.led.outIndex < w.led.nTimes then do
    let t ← w.led.read w.led.outIndex
    let w := w.setDutyCycle (w.led.outIndex % 2 == 0)
    .ok (t, { w with led := { w.led with outIndex := (w.led.outIndex + 1) % 2 ^ 32 } })
  else .ok (0, w)

/-- The second part: the pause behind the last duration, the next copy, or the end. -/
def afterLast (w : World) : Except Fault (Int × World) :=
  let w := w.setDutyCycle false
  if w.led.outIndex = w.led.nTimes then do
    let w := { w with led := { w.led with outIndex := (w.led.outIndex + 1) % 2 ^ 32 } }
    let pause ← subtractTimes w.led w.led.nTimes (Int.bmod (w.led.repeatInterval * 1000) (2 ^ 32))
    let pause := if 0 < w.led.repeats then pause - 1 else pause
    .ok (if pause < 1 then 1 else pause, w)
  else if w.led.nTimes < w.led.outIndex ∧ 0 < w.led.repeats then
    .ok (1, { w with led := { w.led with repeats := w.led.repeats - 1, outIndex := 0 } })
  else
    let w := { w with led := { w.led with timer := -1 } }
    .ok (0, { w with dones := w.dones ++ [w.led.timer] })

/-- `set_next`. -/
def setNext (w : World) : Except Fault (Int × World) := do
  let p ← w.nextTime
  if p.1 = 0 then p.2.afterLast else .ok p

/-- `start`. -/
def start (P : Pool) (w : World) : Except Fault (Bool × World) := do
  let p ← w.setNext
  let w := p.2
  let id := P.newId w.added (w.alarms.map (·.id))
  .ok (decide (0 < id), { w with
    led := { w.led with timer := id }, added := w.added + 1
    alarms := w.alarms ++ [⟨id, ((w.now : Int) + p.1).toNat, ()⟩] })

/-- `stop`. -/
def stop (w : World) : World :=
  let w := if w.led.timer ≠ -1 then { w with alarms := w.alarms.filter (·.id ≠ w.led.timer) } else w
  { w with led := { w.led with timer := -1, outIndex := 0, repeats := 0 } }.setDutyCycle false

/-- `setOutputTimes`. -/
def setOutputTimes (w : World) (times : List Nat) : World :=
  let w := w.stop
  let slots := if w.led.times.length < times.length then List.replicate (times.length + 16) 0 else w.led.times
  { w with led := { w.led with times := times ++ slots.drop times.length, nTimes := times.length } }

/-- `transmit`. -/
def transmit (P : Pool) (w : World) : Except Fault (Bool × World) :=
  let w := w.stop
  if 0 < w.led.nTimes then
    { w with led := { w.led with outIndex := 0, repeats := w.led.minimumRepeats } }.start P
  else .ok (true, w)

/-- The alarm that is due: `timer_cb` gives back a negative time, which counts from when the alarm was due, or 0, which
ends it. -/
def fire (w : World) : Except Fault World :=
  match w.alarms with
  | [] => .ok w
  | a :: rest => do
    let p ← { w with now := a.due, alarms := rest }.setNext
    if p.1 = (0 : Int) then .ok p.2
    else .ok { p.2 with alarms := p.2.alarms ++ [{ a with due := ((a.due : Int) + p.1).toNat }] }

def fires : Nat → World → Except Fault World
  | 0, w => .ok w
  | k + 1, w => do
    let w ← w.fire
    w.fires k

end World

/-! ## What is to be played -/

/-- When the duration at an index begins. -/
def offset (ds : List Nat) (i : Nat) : Nat := (ds.take i).sum

/-- How far apart the copies begin. -/
def period (ds : List Nat) (R : Nat) : Nat := max (R * 1000) (ds.sum + 2)

/-- In an even-indexed duration of one of `r + 1` copies. -/
def On (ds : List Nat) (R r x : Nat) : Prop :=
  ∃ c ≤ r, ∃ i < ds.length, i % 2 = 0 ∧
    c * period ds R + offset ds i ≤ x ∧ x < c * period ds R + offset ds (i + 1)

theorem offset_succ {ds : List Nat} {i : Nat} (h : i < ds.length) : offset ds (i + 1) = offset ds i + ds[i] := by
  rw [offset, List.take_succ_eq_append_getElem h, List.sum_append, List.sum_singleton]
  rfl

theorem offset_mono (ds : List Nat) {i j : Nat} (h : i ≤ j) : offset ds i ≤ offset ds j := List.monotone_sum_take ds h

theorem offset_length (ds : List Nat) : offset ds ds.length = ds.sum := by rw [offset, List.take_length]

theorem offset_le_sum (ds : List Nat) (i : Nat) : offset ds i ≤ ds.sum := by
  by_cases h : i ≤ ds.length
  · rw [← offset_length]
    exact offset_mono ds h
  · rw [offset, List.take_of_length_le (by omega)]

theorem sum_lt_period (ds : List Nat) (R : Nat) : ds.sum + 2 ≤ period ds R := Nat.le_max_right _ _

section Copies

variable {ds : List Nat} {R r c x : Nat}

/-- Between two starts the copy is known. -/
theorem on_copy (hc : c ≤ r) (hx : c * period ds R ≤ x) (hlast : c < r → x < (c + 1) * period ds R) :
    On ds R r x ↔ ∃ i < ds.length, i % 2 = 0 ∧ c * period ds R + offset ds i ≤ x ∧
      x < c * period ds R + offset ds (i + 1) := by
  constructor
  · rintro ⟨c', hc', i, hi, hev, hlo, hhi⟩
    have hsum := offset_le_sum ds (i + 1)
    have hper := sum_lt_period ds R
    have hend : x < (c' + 1) * period ds R := by
      rw [Nat.succ_mul]
      omega
    rcases Nat.lt_trichotomy c' c with h | rfl | h
    · have := Nat.mul_le_mul_right (period ds R) (show c' + 1 ≤ c from h)
      exact absurd (Nat.lt_of_lt_of_le hend this) (Nat.not_lt.2 hx)
    · exact ⟨i, hi, hev, hlo, hhi⟩
    · have := Nat.mul_le_mul_right (period ds R) (show c + 1 ≤ c' from h)
      have := hlast (Nat.lt_of_lt_of_le h hc')
      omega
  · rintro ⟨i, hi, h⟩
    exact ⟨c, hc, i, hi, h⟩

/-- **Inside a duration.** -/
theorem on_duration {j : Nat} (hc : c ≤ r) (hj : j < ds.length) (hlo : c * period ds R + offset ds j ≤ x)
    (hhi : x < c * period ds R + offset ds (j + 1)) : On ds R r x ↔ j % 2 = 0 := by
  have hsum := offset_le_sum ds (j + 1)
  have hper := sum_lt_period ds R
  rw [on_copy hc (by omega) fun _ => by rw [Nat.succ_mul]; omega]
  constructor
  · rintro ⟨i, hi, hev, hlo', hhi'⟩
    rcases Nat.lt_trichotomy i j with h | rfl | h
    · have := offset_mono ds (show i + 1 ≤ j from h)
      omega
    · exact hev
    · have := offset_mono ds (show j + 1 ≤ i from h)
      omega
  · intro hev
    exact ⟨j, hj, hev, hlo, hhi⟩

/-- **Between two copies, and behind the last.** -/
theorem not_on_gap (hc : c ≤ r) (hx : c * period ds R + ds.sum ≤ x) (hlast : c < r → x < (c + 1) * period ds R) :
    ¬ On ds R r x := by
  rw [on_copy hc (by omega) hlast]
  rintro ⟨i, hi, -, -, hhi⟩
  have := offset_le_sum ds (i + 1)
  omega

end Copies

/-! ## One call -/

/-- When call `j` of copy `c` is due: a duration begins, the pause does, or the pause is over. -/
def dueAt (ds : List Nat) (R r c j : Nat) : Nat :=
  c * period ds R +
    if j ≤ ds.length then offset ds j else if c < r then period ds R - 1 else max (R * 1000) (ds.sum + 1)

/-- What is asked of the durations and the interval. -/
structure Playable (ds : List Nat) (R : Nat) : Prop where
  positive : ∀ d ∈ ds, 0 < d
  short : ds.sum < 2 ^ 31
  interval : R * 1000 < 2 ^ 31

theorem Playable.length_le {ds : List Nat} {R : Nat} (h : Playable ds R) : ds.length ≤ ds.sum :=
  List.length_le_sum_of_one_le ds h.positive

/-- The state in which call `j` of copy `c` is made, of a transmission that began at `t0`. -/
structure At (ds : List Nat) (R r t0 : Nat) (dones : List Int) (c j : Nat) (w : World) : Prop where
  copy : c ≤ r
  index : j ≤ ds.length + 1
  outIndex : w.led.outIndex = j
  repeats : w.led.repeats = (r : Int) - c
  nTimes : w.led.nTimes = ds.length
  times : w.led.times.take ds.length = ds
  repeatInterval : w.led.repeatInterval = R
  now : w.now = t0 + dueAt ds R r c j
  alarms : w.alarms = []
  dones : w.dones = dones
  wave : ∀ t, t0 ≤ t → t < w.now → (w.wave t = true ↔ On ds R r (t - t0))

/-- The state after the last call. -/
structure Played (ds : List Nat) (R r t0 : Nat) (dones : List Int) (w : World) : Prop where
  timer : w.led.timer = -1
  alarms : w.alarms = []
  now : w.now = t0 + dueAt ds R r r (ds.length + 1)
  dones : w.dones = dones ++ [-1]
  wave : ∀ t, t0 ≤ t → (w.wave t = true ↔ On ds R r (t - t0))

theorem read_times {l : Led} {ds : List Nat} {i : Nat} (hn : l.nTimes = ds.length)
    (ht : l.times.take ds.length = ds) (hi : i < ds.length) : l.read i = .ok ds[i] := by
  have hget : l.times[i]? = some ds[i] := by
    have h : (l.times.take ds.length)[i]? = some ds[i] := by rw [ht, List.getElem?_eq_getElem hi]
    rwa [List.getElem?_take_of_lt hi] at h
  rw [Led.read, hn, if_pos hi, List.getD_eq_getElem?_getD, hget]
  rfl

theorem bmod_small {x : Int} (hlo : -2 ^ 31 ≤ x) (hhi : x < 2 ^ 31) : Int.bmod x (2 ^ 32) = x :=
  Int.bmod_eq_of_le_mul_two (by omega) (by omega)

/-- **The 32-bit difference is exact.** -/
theorem subtractTimes_eq {l : Led} {ds : List Nat} (hn : l.nTimes = ds.length) (ht : l.times.take ds.length = ds)
    (hshort : ds.sum < 2 ^ 31) {pause : Int} (h0 : 0 ≤ pause) (h1 : pause < 2 ^ 31) : ∀ k, k ≤ ds.length →
    World.subtractTimes l k pause = .ok (pause - offset ds k)
  | 0, _ => by
    rw [World.subtractTimes]
    simp [offset]
  | k + 1, hk => by
    have ih := subtractTimes_eq hn ht hshort h0 h1 k (Nat.le_of_succ_le hk)
    have hsum := offset_le_sum ds (k + 1)
    have hsucc := offset_succ (Nat.lt_of_succ_le hk)
    rw [World.subtractTimes, ih]
    simp only [bind, Except.bind, read_times hn ht (Nat.lt_of_succ_le hk)]
    generalize ds[k] = d at hsucc
    rw [bmod_small (by omega) (by omega), hsucc]
    congr 1
    omega

section Call

variable {ds : List Nat} {R r t0 c j : Nat} {dones : List Int} {w : World}

theorem nextTime_last (h : At ds R r t0 dones c j w) (hj : ds.length ≤ j) : w.nextTime = .ok (0, w) := by
  rw [World.nextTime, h.outIndex, h.nTimes, if_neg (Nat.not_lt.2 hj)]

/-- **A duration is played.** -/
theorem call_duration (hp : Playable ds R) (h : At ds R r t0 dones c j w) (hj : j < ds.length) :
    ∃ w' : World, w.setNext = .ok ((ds[j] : Int), w') ∧ w'.now = w.now ∧ w'.led.timer = w.led.timer ∧
      w'.added = w.added ∧ At ds R r t0 dones c (j + 1) { w' with now := w.now + ds[j] } := by
  have hlen := hp.length_le
  have hpos := hp.positive ds[j] (List.getElem_mem hj)
  have hshort := hp.short
  have hone := h.outIndex
  have hread : w.led.read w.led.outIndex = .ok ds[j] := by
    rw [hone]
    exact read_times h.nTimes h.times hj
  have hdue : dueAt ds R r c (j + 1) = dueAt ds R r c j + ds[j] := by
    rw [dueAt, dueAt, if_pos (show j + 1 ≤ ds.length from hj), if_pos (Nat.le_of_lt hj), offset_succ hj, Nat.add_assoc]
  have hnow : w.now = t0 + (c * period ds R + offset ds j) := by
    rw [h.now, dueAt, if_pos (Nat.le_of_lt hj)]
  have hnext : w.nextTime = .ok ((ds[j] : Int), { w.setDutyCycle (w.led.outIndex % 2 == 0) with
      led := { w.led with outIndex := (w.led.outIndex + 1) % 2 ^ 32 } }) := by
    rw [World.nextTime, if_pos (by rw [hone, h.nTimes]; exact hj), hread]
    rfl
  have hcall : w.setNext = .ok ((ds[j] : Int), { w.setDutyCycle (w.led.outIndex % 2 == 0) with
      led := { w.led with outIndex := (w.led.outIndex + 1) % 2 ^ 32 } }) := by
    rw [World.setNext, hnext]
    exact if_neg (show ¬ (ds[j] : Int) = 0 by omega)
  have hmod : (w.led.outIndex + 1) % 2 ^ 32 = j + 1 := by rw [hone, Nat.mod_eq_of_lt (by omega)]
  refine ⟨_, hcall, rfl, rfl, rfl, ?_⟩
  refine ⟨h.copy, by omega, hmod, h.repeats, h.nTimes, h.times, h.repeatInterval, ?_, h.alarms, h.dones, ?_⟩
  · show w.now + ds[j] = _
    rw [hdue, h.now, Nat.add_assoc]
  · intro t ht hlt
    have hlt : t < w.now + ds[j] := hlt
    show (if t < w.now then w.wave t else w.led.outIndex % 2 == 0) = true ↔ _
    rw [hone]
    split
    · next hbefore => exact h.wave t ht hbefore
    · have hsucc := offset_succ hj
      rw [on_duration h.copy hj (by omega) (by omega), beq_iff_eq]

theorem dueAt_last : dueAt ds R r c ds.length = c * period ds R + ds.sum := by
  rw [dueAt, if_pos (Nat.le_refl _), offset_length]

theorem dueAt_gap : dueAt ds R r c (ds.length + 1) =
    c * period ds R + if c < r then period ds R - 1 else max (R * 1000) (ds.sum + 1) := by
  rw [dueAt, if_neg (Nat.not_succ_le_self _)]

/-- What is left of the interval: one microsecond less where another copy follows, which takes it. -/
def pauseOf (ds : List Nat) (R r c : Nat) : Nat :=
  if c < r then period ds R - 1 - ds.sum else max (R * 1000) (ds.sum + 1) - ds.sum

theorem dueAt_pause : dueAt ds R r c (ds.length + 1) = dueAt ds R r c ds.length + pauseOf ds R r c := by
  have hper := sum_lt_period ds R
  rw [dueAt_gap, dueAt_last, pauseOf]
  generalize c * period ds R = start
  split <;> omega

/-- **The pause behind the last duration.** -/
theorem call_pause (hp : Playable ds R) (h : At ds R r t0 dones c ds.length w) :
    ∃ w' : World, w.setNext = .ok ((pauseOf ds R r c : Int), w') ∧ w'.now = w.now ∧ w'.led.timer = w.led.timer ∧
      w'.added = w.added ∧ At ds R r t0 dones c (ds.length + 1) { w' with now := w.now + pauseOf ds R r c } := by
  have hone := h.outIndex
  have hshort := hp.short
  have hinterval := hp.interval
  have hlen := hp.length_le
  have hmod : (w.led.outIndex + 1) % 2 ^ 32 = ds.length + 1 := by rw [hone, Nat.mod_eq_of_lt (by omega)]
  have hmul : Int.bmod (w.led.repeatInterval * 1000) (2 ^ 32) = (R : Int) * 1000 := by
    rw [h.repeatInterval, bmod_small (by omega) (by omega)]
  have hsub : World.subtractTimes { w.led with outIndex := (w.led.outIndex + 1) % 2 ^ 32 } w.led.nTimes
      ((R : Int) * 1000) = .ok ((R : Int) * 1000 - ds.sum) := by
    have hall := @subtractTimes_eq { w.led with outIndex := (w.led.outIndex + 1) % 2 ^ 32 } ds h.nTimes h.times hshort
      ((R : Int) * 1000) (by omega) (by omega) ds.length (Nat.le_refl _)
    rw [offset_length] at hall
    rw [h.nTimes]
    exact hall
  have hpause : (if (if 0 < w.led.repeats then (R : Int) * 1000 - ds.sum - 1 else (R : Int) * 1000 - ds.sum) < 1 then 1
      else if 0 < w.led.repeats then (R : Int) * 1000 - ds.sum - 1 else (R : Int) * 1000 - ds.sum) =
        (pauseOf ds R r c : Int) := by
    have hrep := h.repeats
    have hcopy := h.copy
    have hper : period ds R = max (R * 1000) (ds.sum + 2) := rfl
    rw [pauseOf]
    by_cases hlt : c < r
    · have hpos : 0 < w.led.repeats := by omega
      rw [if_pos hlt, if_pos hpos]
      split <;> omega
    · have hpos : ¬ 0 < w.led.repeats := by omega
      rw [if_neg hlt, if_neg hpos]
      split <;> omega
  have hcall : w.setNext = .ok ((pauseOf ds R r c : Int),
      { w.setDutyCycle false with led := { w.led with outIndex := (w.led.outIndex + 1) % 2 ^ 32 } }) := by
    rw [World.setNext, nextTime_last h (Nat.le_refl _)]
    show w.afterLast = _
    rw [World.afterLast]
    simp only
    rw [if_pos (show (w.setDutyCycle false).led.outIndex = (w.setDutyCycle false).led.nTimes from
      hone.trans h.nTimes.symm)]
    show (World.subtractTimes { w.led with outIndex := (w.led.outIndex + 1) % 2 ^ 32 } w.led.nTimes
      (Int.bmod (w.led.repeatInterval * 1000) (2 ^ 32))).bind _ = _
    rw [hmul, hsub]
    exact congrArg (fun pause : Int => (Except.ok (pause, { w.setDutyCycle false with
      led := { w.led with outIndex := (w.led.outIndex + 1) % 2 ^ 32 } }) : Except Fault (Int × World))) hpause
  refine ⟨_, hcall, rfl, rfl, rfl, ?_⟩
  refine ⟨h.copy, Nat.le_refl _, hmod, h.repeats, h.nTimes, h.times, h.repeatInterval, ?_, h.alarms, h.dones, ?_⟩
  · show w.now + pauseOf ds R r c = _
    rw [dueAt_pause, h.now, Nat.add_assoc]
  · intro t ht hlt
    have hlt : t < w.now + pauseOf ds R r c := hlt
    show (if t < w.now then w.wave t else false) = true ↔ _
    split
    · next hbefore => exact h.wave t ht hbefore
    · have hnow := h.now
      have hdue := @dueAt_pause ds R r c
      rw [dueAt_gap] at hdue
      rw [dueAt_last] at hnow hdue
      refine iff_of_false Bool.false_ne_true (not_on_gap h.copy (by omega) fun hcr => ?_)
      rw [if_pos hcr] at hdue
      rw [Nat.succ_mul]
      omega

/-- The call behind the pause: the next copy while there is one to repeat, else the end. -/
theorem setNext_behind (h : At ds R r t0 dones c (ds.length + 1) w) :
    w.setNext = if 0 < w.led.repeats then
        .ok (1, { w.setDutyCycle false with led := { w.led with repeats := w.led.repeats - 1, outIndex := 0 } })
      else .ok (0, { w.setDutyCycle false with led := { w.led with timer := -1 }, dones := w.dones ++ [-1] }) := by
  have hbehind : w.led.nTimes < w.led.outIndex := by
    rw [h.outIndex, h.nTimes]
    exact Nat.lt_succ_self _
  have hnot : ¬ (w.setDutyCycle false).led.outIndex = (w.setDutyCycle false).led.nTimes := Nat.ne_of_gt hbehind
  rw [World.setNext, nextTime_last h (Nat.le_succ _)]
  show w.afterLast = _
  rw [World.afterLast]
  simp only
  rw [if_neg hnot]
  by_cases hpos : 0 < w.led.repeats
  · rw [if_pos hpos]
    exact if_pos ⟨hbehind, hpos⟩
  · rw [if_neg hpos]
    exact if_neg fun hboth => hpos hboth.2

/-- **The next copy**, one microsecond after the pause. -/
theorem call_next (h : At ds R r t0 dones c (ds.length + 1) w) (hlt : c < r) :
    ∃ w' : World, w.setNext = .ok (1, w') ∧ w'.now = w.now ∧ w'.led.timer = w.led.timer ∧
      w'.added = w.added ∧ At ds R r t0 dones (c + 1) 0 { w' with now := w.now + 1 } := by
  have hrep := h.repeats
  have hper := sum_lt_period ds R
  have hnow := h.now
  rw [dueAt_gap, if_pos hlt] at hnow
  refine ⟨_, (setNext_behind h).trans (if_pos (by omega)), rfl, rfl, rfl, ?_⟩
  refine ⟨hlt, Nat.zero_le _, rfl, ?_, h.nTimes, h.times, h.repeatInterval, ?_, h.alarms, h.dones, ?_⟩
  · show w.led.repeats - 1 = _
    omega
  · show w.now + 1 = _
    rw [hnow, dueAt, if_pos (Nat.zero_le _), Nat.succ_mul, offset, List.take_zero, List.sum_nil]
    omega
  · intro t ht hlt'
    have hlt' : t < w.now + 1 := hlt'
    show (if t < w.now then w.wave t else false) = true ↔ _
    split
    · next hbefore => exact h.wave t ht hbefore
    · refine iff_of_false Bool.false_ne_true (not_on_gap h.copy (by omega) fun _ => ?_)
      rw [Nat.succ_mul]
      omega

/-- **The end.** -/
theorem call_last (h : At ds R r t0 dones c (ds.length + 1) w) (hc : c = r) :
    ∃ w' : World, w.setNext = .ok (0, w') ∧ Played ds R r t0 dones w' := by
  subst hc
  have hrep := h.repeats
  have hnow := h.now
  rw [dueAt_gap, if_neg (Nat.lt_irrefl c)] at hnow
  refine ⟨_, (setNext_behind h).trans (if_neg (by omega)), rfl, h.alarms, h.now, ?_, fun t ht => ?_⟩
  · show w.dones ++ [-1] = _
    rw [h.dones]
  · show (if t < w.now then w.wave t else false) = true ↔ _
    split
    · next hbefore => exact h.wave t ht hbefore
    · exact iff_of_false Bool.false_ne_true (not_on_gap h.copy (by omega) fun hcr => absurd hcr (by omega))

/-! ## All calls -/

/-- How many calls are left, with this one. -/
def callsLeft (n r c j : Nat) : Nat := (r - c) * (n + 2) + (n + 2 - j)

/-- **A call that is not the last** is followed by the next one, when the time that it gives has passed. -/
theorem call (hp : Playable ds R) (h : At ds R r t0 dones c j w) (hmore : callsLeft ds.length r c j ≠ 1) :
    ∃ (next : Nat) (w' : World) (c' j' : Nat), 0 < next ∧ w.setNext = .ok ((next : Int), w') ∧ w'.now = w.now ∧
      w'.led.timer = w.led.timer ∧ w'.added = w.added ∧ At ds R r t0 dones c' j' { w' with now := w.now + next } ∧
      callsLeft ds.length r c j = callsLeft ds.length r c' j' + 1 := by
  have hcopy := h.copy
  have hindex := h.index
  rcases Nat.lt_trichotomy j ds.length with hj | rfl | hj
  · obtain ⟨w', hcall, hnow, htimer, hid, hat⟩ := call_duration hp h hj
    refine ⟨ds[j], w', c, j + 1, hp.positive _ (List.getElem_mem hj), hcall, hnow, htimer, hid, hat, ?_⟩
    simp only [callsLeft]
    omega
  · obtain ⟨w', hcall, hnow, htimer, hid, hat⟩ := call_pause hp h
    refine ⟨pauseOf ds R r c, w', c, ds.length + 1, ?_, hcall, hnow, htimer, hid, hat, ?_⟩
    · have hper := sum_lt_period ds R
      rw [pauseOf]
      split <;> omega
    · simp only [callsLeft]
      omega
  · obtain rfl : j = ds.length + 1 := by omega
    have hlt : c < r := by
      refine Nat.lt_of_le_of_ne hcopy fun he => hmore ?_
      rw [callsLeft, he, Nat.sub_self, Nat.zero_mul]
      omega
    obtain ⟨w', hcall, hnow, htimer, hid, hat⟩ := call_next h hlt
    refine ⟨1, w', c + 1, 0, Nat.one_pos, hcall, hnow, htimer, hid, hat, ?_⟩
    obtain ⟨k, hk⟩ : ∃ k, r - c = k + 1 := ⟨r - c - 1, by omega⟩
    have hk' : r - (c + 1) = k := by omega
    rw [callsLeft, callsLeft, hk, hk', Nat.succ_mul]
    omega

/-- The alarm of the next call is pending. -/
structure Waiting (ds : List Nat) (R r t0 : Nat) (dones : List Int) (c j : Nat) (w : World) : Prop where
  alarm : ∃ a, w.alarms = [a] ∧ w.led.timer = a.id ∧ At ds R r t0 dones c j { w with now := a.due, alarms := [] }

theorem fire_more (hp : Playable ds R) (h : Waiting ds R r t0 dones c j w) (hmore : callsLeft ds.length r c j ≠ 1) :
    ∃ (w' : World) (c' j' : Nat), w.fire = .ok w' ∧ Waiting ds R r t0 dones c' j' w' ∧
      callsLeft ds.length r c j = callsLeft ds.length r c' j' + 1 := by
  obtain ⟨a, halarms, htimer, hat⟩ := h.alarm
  obtain ⟨next, w', c', j', hpos, hcall, hnow, htimer', -, hat', hleft⟩ := call hp hat hmore
  refine ⟨{ w' with alarms := w'.alarms ++ [{ a with due := ((a.due : Int) + next).toNat }] }, c', j', ?_,
    ⟨{ a with due := a.due + next }, ?_, ?_, ?_⟩, hleft⟩
  · unfold World.fire
    rw [halarms]
    simp only [hcall, bind, Except.bind]
    exact if_neg (by omega)
  · have hnone : w'.alarms = [] := hat'.alarms
    show w'.alarms ++ _ = _
    rw [hnone, List.nil_append]
    rfl
  · exact htimer'.trans htimer
  · have hnone : w'.alarms = [] := hat'.alarms
    have hsame : ({ w' with now := a.due + next, alarms := [] } : World) = { w' with now := a.due + next } := by
      rw [← hnone]
    show At ds R r t0 dones c' j' { w' with now := a.due + next, alarms := [] }
    rw [hsame]
    exact hat'

theorem fire_last (h : Waiting ds R r t0 dones c j w) (hlast : callsLeft ds.length r c j = 1) :
    ∃ w', w.fire = .ok w' ∧ Played ds R r t0 dones w' := by
  obtain ⟨a, halarms, -, hat⟩ := h.alarm
  have hcopy := hat.copy
  have hindex := hat.index
  have hpos : 0 < ds.length + 2 - j := by omega
  have hzero : (r - c) * (ds.length + 2) = 0 := by
    rw [callsLeft] at hlast
    omega
  have hc : r - c = 0 := by
    rcases Nat.mul_eq_zero.1 hzero with h | h
    · exact h
    · omega
  obtain rfl : j = ds.length + 1 := by
    rw [callsLeft] at hlast
    omega
  obtain ⟨w', hcall, hplayed⟩ := call_last hat (by omega)
  refine ⟨w', ?_, hplayed⟩
  unfold World.fire
  rw [halarms]
  simp only [hcall, bind, Except.bind]
  exact if_pos trivial

/-- **The alarms that are left**, one after the other. -/
theorem fires_all (hp : Playable ds R) : ∀ (m c j : Nat) (w : World), Waiting ds R r t0 dones c j w →
    callsLeft ds.length r c j = m + 1 →
    (∃ w', w.fires (m + 1) = .ok w' ∧ Played ds R r t0 dones w') ∧
      ∀ k ≤ m, ∃ wk c' j', w.fires k = .ok wk ∧ Waiting ds R r t0 dones c' j' wk
  | 0, c, j, w, h, hleft => by
    obtain ⟨w', hfire, hplayed⟩ := fire_last h hleft
    refine ⟨⟨w', ?_, hplayed⟩, fun k hk => ?_⟩
    · rw [World.fires, hfire]
      rfl
    · obtain rfl : k = 0 := Nat.le_zero.1 hk
      exact ⟨w, c, j, rfl, h⟩
  | m + 1, c, j, w, h, hleft => by
    obtain ⟨w1, c1, j1, hfire, hwait, hleft1⟩ := fire_more hp h (by omega)
    obtain ⟨⟨w', hfires, hplayed⟩, hall⟩ := fires_all hp m c1 j1 w1 hwait (by omega)
    refine ⟨⟨w', ?_, hplayed⟩, fun k hk => ?_⟩
    · rw [World.fires, hfire]
      exact hfires
    · cases k with
      | zero => exact ⟨w, c, j, rfl, h⟩
      | succ k =>
        obtain ⟨wk, c', j', hk', hwait'⟩ := hall k (Nat.le_of_succ_le_succ hk)
        refine ⟨wk, c', j', ?_, hwait'⟩
        rw [World.fires, hfire]
        exact hk'

end Call

/-! ## Transmitting -/

/-- The durations are set, and no alarm is pending but the object's own. -/
structure Holds (ds : List Nat) (w : World) : Prop where
  nTimes : w.led.nTimes = ds.length
  times : w.led.times.take ds.length = ds
  owned : ∀ a ∈ w.alarms, a.id = w.led.timer ∧ a.id ≠ -1

theorem stop_alarms {w : World} (h : ∀ a ∈ w.alarms, a.id = w.led.timer ∧ a.id ≠ -1) : w.stop.alarms = [] := by
  unfold World.stop
  by_cases ht : w.led.timer ≠ -1
  · simp only [if_pos ht]
    show w.alarms.filter _ = []
    rw [List.filter_eq_nil_iff]
    intro a ha
    simp [(h a ha).1]
  · simp only [if_neg ht]
    refine List.eq_nil_iff_forall_not_mem.2 fun a ha => ?_
    obtain ⟨heq, hne⟩ := h a ha
    rw [heq] at hne
    exact ht hne

theorem stop_kept (w : World) : w.stop.led = { w.led with timer := -1, outIndex := 0, repeats := 0 } ∧
    w.stop.now = w.now ∧ w.stop.dones = w.dones := by
  unfold World.stop
  split <;> exact ⟨rfl, rfl, rfl⟩

/-- **What `setOutputTimes` sets is held.** -/
theorem setOutputTimes_holds {w : World} (h : ∀ a ∈ w.alarms, a.id = w.led.timer ∧ a.id ≠ -1) (ds : List Nat) :
    Holds ds (w.setOutputTimes ds) := by
  have halarms : (w.setOutputTimes ds).alarms = [] := stop_alarms h
  refine ⟨rfl, List.take_left, fun a ha => ?_⟩
  rw [halarms] at ha
  cases ha

/-- **What is started waits for its next call.** -/
theorem start_waits (P : Pool) {w : World} {ds : List Nat} {R r : Nat} {dones : List Int} (hne : ds ≠ [])
    (hp : Playable ds R) (hat : At ds R r w.now dones 0 0 w) :
    ∃ w1 c j, w.start P = .ok (true, w1) ∧ Waiting ds R r w.now dones c j w1 ∧
      (r + 1) * (ds.length + 2) = callsLeft ds.length r c j + 1 ∧
      ∃ next w2, w.setNext = .ok (next, w2) ∧ w1.led = { w2.led with timer := w1.led.timer } ∧ w1.wave = w2.wave := by
  have hcalls : (r + 1) * (ds.length + 2) = callsLeft ds.length r 0 0 := by
    rw [callsLeft, Nat.succ_mul]
    rfl
  have hlen := List.length_pos_iff.2 hne
  have hmore : callsLeft ds.length r 0 0 ≠ 1 := by
    simp only [callsLeft]
    omega
  obtain ⟨next, w2, c, j, hnext, hcall, hnow2, -, -, hat2, hleft⟩ := call hp hat hmore
  have hnone : w2.alarms = [] := hat2.alarms
  have hpos := P.positive w2.added (w2.alarms.map (·.id))
  generalize hid : P.newId w2.added (w2.alarms.map (·.id)) = id at hpos
  refine ⟨{ w2 with
    led := { w2.led with timer := id }, added := w2.added + 1
    alarms := w2.alarms ++ [⟨id, ((w2.now : Int) + next).toNat, ()⟩] }, c, j, ?_,
    ⟨⟨id, w.now + next, ()⟩, ?_, rfl, { hat2 with alarms := rfl }⟩, hcalls.trans hleft, next, w2, hcall, rfl, rfl⟩
  · rw [World.start, hcall]
    simp only [bind, Except.bind, hid, decide_eq_true hpos]
  · show w2.alarms ++ _ = _
    rw [hnone, hnow2]
    rfl

/-- **What `transmit` plays**: the durations `r + 1` times, on in the even ones, at their distance; every alarm but the
last is followed by another, and the last one calls the callback, once, with no timer. -/
theorem transmit_plays {P : Pool} {w : World} {ds : List Nat} {R r : Nat} (hne : ds ≠ []) (hp : Playable ds R)
    (h : Holds ds w) (hR : w.led.repeatInterval = R) (hr : w.led.minimumRepeats = r) :
    ∃ w1 w', w.transmit P = .ok (true, w1) ∧ w1.fires ((r + 1) * (ds.length + 2) - 1) = .ok w' ∧
      Played ds R r w.now w.dones w' ∧
      ∀ k < (r + 1) * (ds.length + 2) - 1, ∃ wk, w1.fires k = .ok wk ∧ wk.alarms ≠ [] ∧ wk.dones = w.dones := by
  obtain ⟨hled, hnow, hdones⟩ := stop_kept w
  have halarms := stop_alarms h.owned
  have hpos : 0 < w.stop.led.nTimes := by
    rw [hled]
    show 0 < w.led.nTimes
    rw [h.nTimes]
    exact List.length_pos_iff.2 hne
  generalize hw0 : ({ w.stop with led := { w.stop.led with
    outIndex := 0, repeats := w.stop.led.minimumRepeats } } : World) = w0
  have hnow0 : w0.now = w.now := by
    rw [← hw0]
    exact hnow
  have hat : At ds R r w0.now w.dones 0 0 w0 := by
    rw [hnow0, ← hw0, hled]
    refine ⟨Nat.zero_le r, Nat.zero_le _, rfl, ?_, h.nTimes, h.times, hR, ?_, halarms, hdones, fun t ht hlt => ?_⟩
    · show w.led.minimumRepeats = (r : Int) - (0 : Nat)
      rw [hr]
      simp
    · refine hnow.trans ?_
      rw [dueAt, if_pos (Nat.zero_le _), Nat.zero_mul]
      rfl
    · have hlt : t < w.stop.now := hlt
      omega
  obtain ⟨w1, c, j, hstart, hwait, hleft, -⟩ := start_waits P hne hp hat
  rw [hnow0] at hwait
  have htransmit : w.transmit P = .ok (true, w1) := by
    unfold World.transmit
    simp only
    rw [if_pos hpos, hw0, hstart]
  have hone : 1 * (ds.length + 2) ≤ (r + 1) * (ds.length + 2) := Nat.mul_le_mul_right _ (Nat.le_add_left 1 r)
  obtain ⟨m, hm⟩ : ∃ m, callsLeft ds.length r c j = m + 1 := ⟨callsLeft ds.length r c j - 1, by omega⟩
  obtain ⟨⟨w', hfires, hplayed⟩, hall⟩ := fires_all hp m c j w1 hwait hm
  have hcount : (r + 1) * (ds.length + 2) - 1 = m + 1 := by omega
  rw [hcount]
  refine ⟨w1, w', htransmit, hfires, hplayed, fun k hk => ?_⟩
  obtain ⟨wk, c', j', hk', hwait'⟩ := hall k (Nat.le_of_lt_succ hk)
  obtain ⟨a, halarm, -, hat'⟩ := hwait'.alarm
  exact ⟨wk, hk', by rw [halarm]; exact List.cons_ne_nil _ _, hat'.dones⟩

/-- A mark of 500 and a space of 300, one repeat every millisecond. -/
def shortBurst : World := { led := { times := [500, 300], nTimes := 2, repeatInterval := 1, minimumRepeats := 1 } }

theorem transmit_plays_burst : ∃ w1 w', shortBurst.transmit .greatest = .ok (true, w1) ∧
    w1.fires ((1 + 1) * (2 + 2) - 1) = .ok w' ∧ w'.led.timer = -1 ∧ w'.dones = [-1] := by
  obtain ⟨w1, w', ht, hf, hplayed, -⟩ := @transmit_plays .greatest shortBurst [500, 300] 1 1
    (by decide) ⟨by decide, by decide, by decide⟩ ⟨rfl, rfl, fun a ha => absurd ha List.not_mem_nil⟩ rfl rfl
  exact ⟨w1, w', ht, hf, hplayed.timer, hplayed.dones⟩

end Ir
end Pico
