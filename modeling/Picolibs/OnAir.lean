import Picolibs.IrLed
import Picolibs.Signal
/-!
# OnAir — what a transmission adds to the wave (`ir_led.cpp`)

`IR_LED::repeat` is `transmit` without the further copies.  Whatever is played, the settings stay and so does the wave
up to where it began: `Same`.  `start_plays`: behind it no alarm is pending, and the wave has the copies as bursts.
-/
namespace Pico
namespace Ir

open Alarms (Alarm Pool)

/-- `IR_LED::repeat`. -/
def World.repeat (P : Pool) (w : World) : Except Fault (Bool × World) :=
  let w := w.stop
  if 0 < w.led.nTimes then { w with led := { w.led with outIndex := 0, repeats := 0 } }.start P
  else .ok (true, w)

/-! ## What stays -/

/-- The settings, and the wave before a time. -/
structure Same (T : Nat) (w w' : World) : Prop where
  times : w'.led.times = w.led.times
  nTimes : w'.led.nTimes = w.led.nTimes
  repeatInterval : w'.led.repeatInterval = w.led.repeatInterval
  minimumRepeats : w'.led.minimumRepeats = w.led.minimumRepeats
  past : ∀ t < T, w'.wave t = w.wave t

theorem Same.trans {T : Nat} {w w' w'' : World} (h : Same T w w') (h' : Same T w' w'') : Same T w w'' :=
  ⟨h'.times.trans h.times, h'.nTimes.trans h.nTimes, h'.repeatInterval.trans h.repeatInterval,
    h'.minimumRepeats.trans h.minimumRepeats, fun t ht => (h'.past t ht).trans (h.past t ht)⟩

theorem Same.refl (T : Nat) (w : World) : Same T w w := ⟨rfl, rfl, rfl, rfl, fun _ _ => rfl⟩

/-- Another change of the object, or of the time and the alarms. -/
theorem Same.led {T : Nat} {w w' w'' : World} (h : Same T w w') (ht : w''.led.times = w'.led.times)
    (hn : w''.led.nTimes = w'.led.nTimes) (hi : w''.led.repeatInterval = w'.led.repeatInterval)
    (hm : w''.led.minimumRepeats = w'.led.minimumRepeats) (hw : w''.wave = w'.wave := by rfl) : Same T w w'' :=
  ⟨ht.trans h.times, hn.trans h.nTimes, hi.trans h.repeatInterval, hm.trans h.minimumRepeats,
    fun t hlt => by rw [hw]; exact h.past t hlt⟩

theorem setDutyCycle_same {T : Nat} {w : World} (hT : T ≤ w.now) (on : Bool) : Same T w (w.setDutyCycle on) :=
  ⟨rfl, rfl, rfl, rfl, fun _ ht => if_pos (Nat.lt_of_lt_of_le ht hT)⟩

theorem nextTime_same {T : Nat} {w w' : World} {x : Int} (hT : T ≤ w.now) (h : w.nextTime = .ok (x, w')) :
    Same T w w' ∧ w'.now = w.now := by
  unfold World.nextTime at h
  split at h
  · obtain ⟨t, -, h⟩ := Text.bind_eq_ok.1 h
    cases h
    exact ⟨(setDutyCycle_same hT _).led rfl rfl rfl rfl, rfl⟩
  · cases h
    exact ⟨.refl T w, rfl⟩

theorem afterLast_same {T : Nat} {w w' : World} {x : Int} (hT : T ≤ w.now) (h : w.afterLast = .ok (x, w')) :
    Same T w w' ∧ w'.now = w.now := by
  have hs := setDutyCycle_same hT false
  unfold World.afterLast at h
  simp only at h
  split at h
  · obtain ⟨pause, -, h⟩ := Text.bind_eq_ok.1 h
    cases h
    exact ⟨hs.led rfl rfl rfl rfl, rfl⟩
  · split at h
    · cases h
      exact ⟨hs.led rfl rfl rfl rfl, rfl⟩
    · cases h
      exact ⟨hs.led rfl rfl rfl rfl, rfl⟩

theorem setNext_same {T : Nat} {w w' : World} {x : Int} (hT : T ≤ w.now) (h : w.setNext = .ok (x, w')) :
    Same T w w' ∧ w'.now = w.now := by
  obtain ⟨⟨y, w1⟩, hn, h⟩ := Text.bind_eq_ok.1 h
  obtain ⟨hs, hnow⟩ := nextTime_same hT hn
  simp only at h
  split at h
  · obtain ⟨hs', hnow'⟩ := afterLast_same (T := T) (hnow ▸ hT) h
    exact ⟨hs.trans hs', hnow'.trans hnow⟩
  · cases h
    exact ⟨hs, hnow⟩

theorem fire_same {T : Nat} {a : Alarm Unit} {w w' : World} (hw : w.alarms = [a]) (hT : T ≤ a.due) (h : w.fire = .ok w') :
    Same T w w' := by
  unfold World.fire at h
  rw [hw] at h
  obtain ⟨⟨x, w1⟩, hn, h⟩ := Text.bind_eq_ok.1 h
  obtain ⟨hs, -⟩ := setNext_same (T := T) hT hn
  have hw1 : Same T w w1 := ⟨hs.times, hs.nTimes, hs.repeatInterval, hs.minimumRepeats, hs.past⟩
  simp only at h
  split at h
  · cases h
    exact hw1
  · cases h
    exact ⟨hw1.times, hw1.nTimes, hw1.repeatInterval, hw1.minimumRepeats, hw1.past⟩

/-! ## Playing -/

theorem fires_idle {w : World} (h : w.alarms = []) : ∀ k, w.fires k = .ok w
  | 0 => rfl
  | k + 1 => by
    have hfire : w.fire = .ok w := by rw [World.fire, h]
    rw [World.fires, hfire]
    exact fires_idle h k

section Play

variable {P : Pool} {ds : List Nat} {R r t0 : Nat} {dones : List Int}

/-- **The alarms that are left**, and as many more as one likes. -/
theorem fires_play (hp : Playable ds R) : ∀ (m c j : Nat) (w : World), Waiting ds R r t0 dones c j w →
    callsLeft ds.length r c j = m + 1 →
    ∃ w', (∀ k, m < k → w.fires k = .ok w') ∧ Played ds R r t0 dones w' ∧ Same t0 w w'
  | 0, c, j, w, h, hleft => by
    obtain ⟨a, halarm, -, hat⟩ := h.alarm
    obtain ⟨w', hfire, hplayed⟩ := fire_last h hleft
    have hdue : a.due = t0 + dueAt ds R r c j := hat.now
    refine ⟨w', fun k hk => ?_, hplayed, fire_same halarm (by omega) hfire⟩
    obtain ⟨k, rfl⟩ : ∃ n, k = n + 1 := ⟨k - 1, by omega⟩
    rw [World.fires, hfire]
    exact fires_idle hplayed.alarms k
  | m + 1, c, j, w, h, hleft => by
    obtain ⟨a, halarm, -, hat⟩ := h.alarm
    obtain ⟨w1, c1, j1, hfire, hwait, hleft1⟩ := fire_more hp h (by omega)
    obtain ⟨w', hfires, hplayed, hsame⟩ := fires_play hp m c1 j1 w1 hwait (by omega)
    have hdue : a.due = t0 + dueAt ds R r c j := hat.now
    refine ⟨w', fun k hk => ?_, hplayed, (fire_same halarm (by omega) hfire).trans hsame⟩
    obtain ⟨k, rfl⟩ : ∃ n, k = n + 1 := ⟨k - 1, by omega⟩
    rw [World.fires, hfire]
    exact hfires k (by omega)

/-- **What `start` plays.** -/
theorem start_plays {w : World} (hne : ds ≠ []) (hp : Playable ds R) (hat : At ds R r w.now dones 0 0 w) :
    ∃ w1 w', w.start P = .ok (true, w1) ∧ Same w.now w w1 ∧
      (∀ k, (r + 1) * (ds.length + 2) ≤ k → w1.fires k = .ok w') ∧ Played ds R r w.now dones w' ∧ Same w.now w w' := by
  obtain ⟨w1, c, j, hstart, hwait, hleft, next, w2, hcall, hled, hwave⟩ := start_waits P hne hp hat
  obtain ⟨hsame2, -⟩ := setNext_same (Nat.le_refl _) hcall
  have hsame1 : Same w.now w w1 := hsame2.led (by rw [hled]) (by rw [hled]) (by rw [hled]) (by rw [hled]) hwave
  have hlen := List.length_pos_iff.2 hne
  have hone : 1 * (ds.length + 2) ≤ (r + 1) * (ds.length + 2) := Nat.mul_le_mul_right _ (Nat.le_add_left 1 r)
  obtain ⟨m, hm⟩ : ∃ m, callsLeft ds.length r c j = m + 1 := ⟨callsLeft ds.length r c j - 1, by omega⟩
  obtain ⟨w', hfires, hplayed, hsame⟩ := fires_play hp m c j w1 hwait hm
  exact ⟨w1, w', hstart, hsame1, fun k hk => hfires k (by omega), hplayed, hsame1.trans hsame⟩

theorem stop_same (w : World) : Same w.now w w.stop := by
  obtain ⟨hled, -⟩ := stop_kept w
  refine ⟨by rw [hled], by rw [hled], by rw [hled], by rw [hled], fun t ht => ?_⟩
  unfold World.stop
  split <;> exact if_pos ht

theorem stop_off {w : World} {t : Nat} (ht : w.now ≤ t) : w.stop.wave t = false := by
  unfold World.stop
  split <;> exact if_neg (Nat.not_lt.2 ht)

/-- What is played from a stop on, with these durations set. -/
theorem stop_plays {w : World} (hne : ds ≠ []) (hp : Playable ds R) (h : Holds ds w) (hR : w.led.repeatInterval = R)
    (r : Nat) : ∃ w1 w', ({ w.stop with led := { w.stop.led with outIndex := 0, repeats := r } } : World).start P =
        .ok (true, w1) ∧ Same w.now w w1 ∧ (∀ k, (r + 1) * (ds.length + 2) ≤ k → w1.fires k = .ok w') ∧
      Played ds R r w.now w.dones w' ∧ Same w.now w w' := by
  obtain ⟨hled, hnow, hdones⟩ := stop_kept w
  have hstop := stop_same w
  generalize hw0 : ({ w.stop with led := { w.stop.led with outIndex := 0, repeats := r } } : World) = w0
  have hsame0 : Same w.now w w0 := by
    rw [← hw0]
    exact hstop.led rfl rfl rfl rfl
  have hnow0 : w0.now = w.now := by
    rw [← hw0]
    exact hnow
  have hat : At ds R r w0.now w.dones 0 0 w0 := by
    refine ⟨Nat.zero_le r, Nat.zero_le _, by rw [← hw0], ?_, by rw [hsame0.nTimes, h.nTimes],
      by rw [hsame0.times, h.times], by rw [hsame0.repeatInterval, hR], ?_, by rw [← hw0]; exact stop_alarms h.owned,
      by rw [← hw0]; exact hdones, fun t ht hlt => absurd hlt (Nat.not_lt.2 ht)⟩
    · rw [← hw0]
      simp
    · rw [dueAt, if_pos (Nat.zero_le _), Nat.zero_mul]
      rfl
  obtain ⟨w1, w', hstart, hsame1, hfires, hplayed, hsame⟩ := start_plays (P := P) hne hp hat
  rw [hnow0] at hsame1 hplayed hsame
  exact ⟨w1, w', hstart, hsame0.trans hsame1, hfires, hplayed, hsame0.trans hsame⟩

theorem transmit_eq {w : World} (hne : ds ≠ []) (h : Holds ds w) :
    w.transmit P = ({ w.stop with led := { w.stop.led with
      outIndex := 0, repeats := w.led.minimumRepeats } } : World).start P := by
  have hpos := List.length_pos_iff.2 hne
  obtain ⟨hled, -⟩ := stop_kept w
  unfold World.transmit
  simp only
  rw [if_pos (by rw [hled]; exact h.nTimes ▸ hpos), hled]

theorem repeat_eq {w : World} (hne : ds ≠ []) (h : Holds ds w) :
    w.repeat P = ({ w.stop with led := { w.stop.led with outIndex := 0, repeats := (0 : Nat) } } : World).start P := by
  have hpos := List.length_pos_iff.2 hne
  obtain ⟨hled, -⟩ := stop_kept w
  unfold World.repeat
  simp only
  rw [if_pos (by rw [hled]; exact h.nTimes ▸ hpos)]
  rfl

/-! ## The wave -/

open Signal (Follows Bursts)

/-- A copy is a train. -/
theorem copy_follows {w : World} (h : Played ds R r t0 dones w) (hodd : ds.length % 2 = 1) {c : Nat} (hc : c ≤ r)
    (gap : Nat) (hgap : c < r → ds.sum + gap ≤ period ds R) : Follows w.wave (t0 + c * period ds R) true (ds ++ [gap]) := by
  refine Signal.follows_of fun j hj t ht hlt => ?_
  have hwave := h.wave t (by omega)
  rw [List.length_append, List.length_singleton] at hj
  by_cases hjlt : j < ds.length
  · rw [List.take_append_of_le_length (Nat.le_of_lt hjlt)] at ht
    rw [List.take_append_of_le_length (show j + 1 ≤ ds.length from hjlt)] at hlt
    rw [on_duration hc hjlt (by rw [offset]; omega) (by rw [offset]; omega)] at hwave
    by_cases hev : j % 2 = 0
    · rw [if_pos hev]
      exact hwave.2 hev
    · rw [if_neg hev, Bool.eq_false_iff.2 fun ht => hev (hwave.1 ht)]
      rfl
  · obtain rfl : j = ds.length := by omega
    rw [List.take_left] at ht
    rw [List.take_of_length_le (by simp), List.sum_append, List.sum_singleton] at hlt
    rw [if_neg (by omega), Bool.eq_false_iff.2 fun ht' => not_on_gap hc (by omega) (fun hcr => ?_) (hwave.1 ht')]
    · rfl
    · have := hgap hcr
      rw [Nat.succ_mul]
      omega

theorem bursts_copies {w : World} (hp : Playable ds R) (h : Played ds R r t0 dones w) (hodd : ds.length % 2 = 1) :
    ∀ c ≤ r, Bursts w.wave t0 (c * period ds R) ((List.range c).map (fun c => (t0 + c * period ds R, ds)))
  | 0, _ => by
    rw [Nat.zero_mul]
    exact Signal.bursts_idle fun t ht hlt => absurd hlt (Nat.not_lt.2 ht)
  | c + 1, hc => by
    have hper := sum_lt_period ds R
    have ih := bursts_copies hp h hodd c (Nat.le_of_succ_le hc)
    have hf := copy_follows h hodd (Nat.le_of_succ_le hc) (period ds R - ds.sum) (fun _ => by omega)
    have hb := Signal.bursts_train hp.positive hodd (by omega) hf
    rw [Nat.add_sub_cancel' (by omega)] at hb
    rw [Nat.succ_mul, List.range_succ, List.map_append]
    exact ih.append hb

/-- **The copies are the bursts of the wave.** -/
theorem bursts_played {w : World} (hp : Playable ds R) (h : Played ds R r t0 dones w) (hodd : ds.length % 2 = 1) :
    Bursts w.wave t0 (w.now - t0) ((List.range (r + 1)).map (fun c => (t0 + c * period ds R, ds))) := by
  have hnow := h.now
  rw [dueAt_gap, if_neg (Nat.lt_irrefl r)] at hnow
  have hf := copy_follows h hodd (Nat.le_refl r) (max (R * 1000) (ds.sum + 1) - ds.sum)
    (fun hlt => absurd hlt (Nat.lt_irrefl r))
  have hb := Signal.bursts_train hp.positive hodd (by omega) hf
  rw [Nat.add_sub_cancel' (by omega)] at hb
  have hsplit : w.now - t0 = r * period ds R + max (R * 1000) (ds.sum + 1) := by omega
  rw [hsplit, List.range_succ, List.map_append]
  exact (bursts_copies hp h hodd r (Nat.le_refl r)).append hb

/-- Behind the last copy the output is off. -/
theorem played_quiet {w : World} (h : Played ds R r t0 dones w) {t : Nat} (ht : w.now ≤ t) : w.wave t = false := by
  have hnow := h.now
  rw [dueAt_gap, if_neg (Nat.lt_irrefl r)] at hnow
  refine Bool.eq_false_iff.2 fun hon => not_on_gap (Nat.le_refl r) (by omega) (fun hlt => ?_)
    ((h.wave t (by omega)).1 hon)
  exact absurd hlt (Nat.lt_irrefl r)

end Play

end Ir
end Pico
