import Mathlib.Data.List.Chain
import Picolibs.Clicks
/-!
# Debounce — the pin and the level that is notified (`button.cpp`)

An edge that finds no bounce timer starts one; those that come while it is pending are dropped, and its `bounce_cb`
takes one sample.  The level may be behind the pin only while the timer is pending (`Follows.still`), and the timer was
started no later than the last edge (`Follows.soon`).

`pin_followed`: with no bounce timer the level is the pin's; the notified levels alternate; and the last of them is the
pin's once the pin has been stable for the bounce time.  `pin_presses_counted`: with a bounce time that is not 0 the
levels change at later and later times, and the presses are counted as in `presses_counted`.
-/
namespace Pico
namespace Key

open Alarms

/-- The pin changes, and any pending alarm fires, whenever it does. -/
def AtPin (w : World) : Event → Prop
  | .edge t => w.now ≤ t
  | .fire a t => w.now ≤ t ∧ a ∈ w.alarms
  | .change _ => False

instance (w : World) : ∀ e, Decidable (AtPin w e)
  | .edge t => inferInstanceAs (Decidable (w.now ≤ t))
  | .fire a t => inferInstanceAs (Decidable (w.now ≤ t ∧ a ∈ w.alarms))
  | .change _ => isFalse id

/-- The level of a `Button_Down` or a `Button_Up`. -/
def ButtonAction.level : ButtonAction → Option Bool
  | .buttonDown => some true
  | .buttonUp => some false
  | _ => none

/-- The levels that were notified. -/
def World.levels (w : World) : List Bool := w.actions.filterMap ButtonAction.level

/-- What every step keeps of the levels, from the one at the start. -/
structure Follows (start : Bool) (w : World) : Prop where
  keeps : w.Keeps
  still : w.due .bounceCb = none → w.btn.prevState = w.isDown
  soon : ∀ x ∈ w.due .bounceCb, x ≤ w.changed + w.btn.bounceTime * 1000 ∧ w.changed ≤ w.now
  alternate : (start :: w.levels).IsChain (· ≠ ·)
  last : w.levels.getLastD start = w.btn.prevState

theorem chain_snoc {start b : Bool} {l : List Bool} (h : (start :: l).IsChain (· ≠ ·)) (hb : l.getLastD start ≠ b) :
    (start :: (l ++ [b])).IsChain (· ≠ ·) := by
  rw [← List.cons_append]
  refine h.append (List.isChain_singleton b) fun x hx y hy => ?_
  rw [List.getLast?_cons, Option.mem_some_iff] at hx
  cases hy
  rw [← hx, ← List.getLastD_eq_getLast?]
  exact hb

section Follows

variable {P : Pool} {start : Bool} {w w' : World}

theorem levels_of_does {due : Callback → Option Nat} {acts : List ButtonAction} (hd : w.Does w' due acts) :
    w'.levels = w.levels ++ acts.filterMap ButtonAction.level := by
  rw [World.levels, hd.actions, List.filterMap_append]
  rfl

/-- What leaves the bounce timer alone and notifies no level. -/
theorem Follows.of_does {due : Callback → Option Nat} {acts : List ButtonAction} (h : Follows start w)
    (hd : w.Does w' due acts) (hb : due .bounceCb = w.due .bounceCb) (ha : acts.filterMap ButtonAction.level = []) :
    Follows start w' := by
  have hlevels : w'.levels = w.levels := by rw [levels_of_does hd, ha, List.append_nil]
  have hdue : w'.due .bounceCb = w.due .bounceCb := by rw [hd.due, hb]
  have hdown : w'.isDown = w.isDown := by rw [World.isDown, World.isDown, hd.gpio]
  refine ⟨hd.keeps, ?_, ?_, ?_, ?_⟩
  · rw [hdue, hd.prevState, hdown]
    exact h.still
  · rw [hdue, hd.changed, hd.now, hd.times.1]
    exact h.soon
  · rw [hlevels]
    exact h.alternate
  · rw [hlevels, hd.prevState]
    exact h.last

/-- **An edge**: it starts the bounce timer, or finds one that was started before it. -/
theorem Follows.doEvent (h : Follows start w) {t : Nat} (ht : w.now ≤ t) :
    Follows start (World.doEvent P { w with now := t, gpio := !w.gpio, changed := t }) := by
  have hkeeps : ({ w with now := t, gpio := !w.gpio, changed := t } : World).Keeps := h.keeps
  have hslot := hkeeps.slot_eq_iff .bounceCb
  unfold World.doEvent
  by_cases hb : w.btn.bounce = -1
  · have hd := hkeeps.addAlarmInMs P w.btn.bounceTime (hslot.1 hb)
    rw [if_pos hb]
    have hdue := congrFun hd.due .bounceCb
    rw [Function.update_self] at hdue
    have hlevels := levels_of_does hd
    refine ⟨hd.keeps, fun hn => ?_, fun x hx => ?_, ?_, ?_⟩
    · rw [hdue] at hn
      cases hn
    · rw [hdue] at hx
      cases hx
      rw [hd.changed, hd.now, hd.times.1]
      exact ⟨Nat.le_refl _, Nat.le_refl _⟩
    · rw [hlevels, List.filterMap_nil, List.append_nil]
      exact h.alternate
    · rw [hlevels, List.filterMap_nil, List.append_nil, hd.prevState]
      exact h.last
  · rw [if_neg hb]
    refine ⟨hkeeps, fun hn => absurd (hslot.2 hn) hb, fun x hx => ?_, h.alternate, h.last⟩
    obtain ⟨hle, hchanged⟩ := h.soon x hx
    show x ≤ t + w.btn.bounceTime * 1000 ∧ t ≤ t
    omega

/-- **A sample**, when the bounce timer is not pending any more. -/
theorem Follows.sample (hkeeps : w.Keeps) (hb : w.due .bounceCb = none)
    (halternate : (start :: w.levels).IsChain (· ≠ ·)) (hlast : w.levels.getLastD start = w.btn.prevState) :
    Follows start (w.sample P) := by
  have hdue := (hkeeps.sample_due P).trans hb
  have hsoon : ∀ x ∈ (w.sample P).due .bounceCb, x ≤ (w.sample P).changed + (w.sample P).btn.bounceTime * 1000 ∧
      (w.sample P).changed ≤ (w.sample P).now := fun x hx => by
    rw [hdue] at hx
    cases hx
  rcases hkeeps.sample_cases P with ⟨heq, hsame⟩ | ⟨hdown, hp, hd⟩ | ⟨hdown, hp, hd⟩
  · rw [hsame] at hsoon ⊢
    exact ⟨hkeeps, fun _ => heq.symm, hsoon, halternate, hlast⟩
  · have hlevels : (w.sample P).levels = w.levels ++ [true] := levels_of_does hd
    have hprev : (w.sample P).btn.prevState = true := hd.prevState
    rw [hp] at hlast
    refine ⟨hd.keeps, fun _ => ?_, hsoon, ?_, ?_⟩
    · rw [hprev, World.isDown, hd.gpio]
      exact hdown.symm
    · rw [hlevels]
      exact chain_snoc halternate (by rw [hlast]; exact Bool.false_ne_true)
    · rw [hlevels, hprev, List.getLastD_concat]
  · have hlevels : (w.sample P).levels = w.levels ++ [false] := by
      refine (levels_of_does hd).trans (congrArg (w.levels ++ ·) ?_)
      split <;> rfl
    have hprev : (w.sample P).btn.prevState = false := hd.prevState
    rw [hp] at hlast
    refine ⟨hd.keeps, fun _ => ?_, hsoon, ?_, ?_⟩
    · rw [hprev, World.isDown, hd.gpio]
      exact hdown.symm
    · rw [hlevels]
      exact chain_snoc halternate (by rw [hlast]; exact Bool.false_ne_true.symm)
    · rw [hlevels, hprev, List.getLastD_concat]

/-- The step lemma. -/
theorem Follows.step {e : Event} (h : Follows start w) (hok : AtPin w e) : Follows start (step P w e) := by
  cases e with
  | change t => exact hok.elim
  | edge t => exact h.doEvent hok
  | fire a t =>
    obtain ⟨ht, ha⟩ := hok
    have hkeeps : ({ w with now := t } : World).Keeps := h.keeps
    have hw : Follows start { w with now := t } :=
      ⟨h.keeps, h.still, fun x hx => ⟨(h.soon x hx).1, Nat.le_trans (h.soon x hx).2 ht⟩, h.alternate, h.last⟩
    rw [step_fire h.keeps ha]
    cases a.cb with
    | bounceCb =>
      have hd := hkeeps.reset .bounceCb
      have hlevels := levels_of_does hd
      rw [List.filterMap_nil, List.append_nil] at hlevels
      refine Follows.sample hd.keeps (by rw [hd.due, Function.update_self]) ?_ ?_
      · rw [hlevels]
        exact h.alternate
      · rw [hlevels, hd.prevState]
        exact h.last
    | holdCb => exact hw.of_does hkeeps.hold_fires rfl rfl
    | clickCb => exact hw.of_does hkeeps.click_fires rfl rfl

end Follows

/-- **The pin is followed.** -/
theorem pin_followed {P : Pool} {w₀ w : World} (h₀ : Started w₀) (hp : w₀.btn.prevState = w₀.isDown)
    (hr : History.Reach w₀ (step P) AtPin w) :
    (w.btn.bounce = -1 → w.btn.prevState = w.isDown) ∧ (w₀.btn.prevState :: w.levels).IsChain (· ≠ ·) ∧
    ∀ t, w.changed + w.btn.bounceTime * 1000 ≤ t → (∀ a ∈ w.alarms, a.cb = .bounceCb → t < a.due) →
      w.levels.getLastD w₀.btn.prevState = w.isDown := by
  have hnil : w₀.levels = [] := by
    rw [World.levels, World.actions, h₀.events]
    rfl
  have hfollows : Follows w₀.btn.prevState w := by
    refine History.inv_of_reach ⟨h₀.keeps, fun _ => hp, fun x hx => ?_, ?_, ?_⟩ (fun _ _ h hok => h.step hok) hr
    · rw [h₀.due] at hx
      cases hx
    · rw [hnil]
      exact List.isChain_singleton _
    · rw [hnil]
      rfl
  have hslot := hfollows.keeps.slot_eq_iff .bounceCb
  refine ⟨fun hb => hfollows.still (hslot.1 hb), hfollows.alternate, fun t ht hdue => ?_⟩
  have hnone : w.due .bounceCb = none := by
    refine Option.eq_none_iff_forall_not_mem.2 fun x hx => ?_
    obtain ⟨a, ha, hcb, hx'⟩ := mem_of_dueOf hx
    have hlt := hdue a ha hcb
    have hle := (hfollows.soon x hx).1
    omega
  rw [hfollows.last]
  exact hfollows.still hnone

/-- A bounce: three edges, the sample that follows the first, and the next press's end. -/
def bouncing : List Event :=
  [.edge 1000, .edge 2000, .edge 3000, .fire ⟨1, 8000, .bounceCb⟩ 8000, .edge 90000, .fire ⟨2, 97000, .bounceCb⟩ 97000]

theorem pin_followed_bouncing :
    (bouncing.foldl (step Pool.greatest) { btn := {} }).btn.prevState =
      (bouncing.foldl (step Pool.greatest) { btn := {} }).isDown ∧
    (bouncing.foldl (step Pool.greatest) { btn := {} }).levels.getLastD false =
      (bouncing.foldl (step Pool.greatest) { btn := {} }).isDown := by
  have h₀ : Started { btn := {} } := ⟨by funext k; cases k <;> rfl, rfl, rfl⟩
  obtain ⟨hprev, -, hlast⟩ := pin_followed h₀ rfl
    (@History.reach_along _ _ _ (step Pool.greatest) AtPin bouncing _ .init (by decide +kernel))
  exact ⟨hprev (by decide +kernel), hlast 97000 (by decide +kernel) (by decide +kernel)⟩

/-! ## The presses at the pin -/

/-- As `AtPin`, with every alarm no earlier than its deadline, and in the order of the deadlines. -/
def OnTime (w : World) : Event → Prop
  | .edge t => w.now ≤ t
  | .fire a t => w.now ≤ t ∧ a ∈ w.alarms ∧ a.due ≤ t ∧ ∀ b ∈ w.alarms, a.due ≤ b.due
  | .change _ => False

/-- The notifications are no later than now, and the levels earlier than the next sample. -/
structure Dated (w : World) : Prop where
  counted : Counted w
  pos : 0 < w.btn.bounceTime
  past : ∀ ev ∈ w.events, ev.time ≤ w.now
  before : ∀ x ∈ w.due .bounceCb, ∀ ev ∈ w.events, ev.action = .buttonDown ∨ ev.action = .buttonUp → ev.time < x

section Dated

variable {P : Pool} {w w' : World}

theorem past_of_does {due : Callback → Option Nat} {acts : List ButtonAction} (h : ∀ ev ∈ w.events, ev.time ≤ w.now)
    (hd : w.Does w' due acts) : ∀ ev ∈ w'.events, ev.time ≤ w'.now := by
  intro ev hev
  rw [hd.events] at hev
  rw [hd.now]
  rcases List.mem_append.1 hev with hev | hev
  · exact h ev hev
  · obtain ⟨_, -, rfl⟩ := List.mem_map.1 hev
    exact Nat.le_refl _

theorem past_sample (hkeeps : w.Keeps) (h : ∀ ev ∈ w.events, ev.time ≤ w.now) :
    ∀ ev ∈ (w.sample P).events, ev.time ≤ (w.sample P).now := by
  rcases hkeeps.sample_cases P with ⟨-, hsame⟩ | ⟨-, -, hd⟩ | ⟨-, -, hd⟩
  · rw [hsame]
    exact h
  · exact past_of_does (w := { w with btn := { w.btn with prevState := true } }) h hd
  · exact past_of_does (w := { w with btn := { w.btn with prevState := false } }) h hd

theorem sample_bounceTime (hkeeps : w.Keeps) : (w.sample P).btn.bounceTime = w.btn.bounceTime := by
  rcases hkeeps.sample_cases P with ⟨-, hsame⟩ | ⟨-, -, hd⟩ | ⟨-, -, hd⟩
  · rw [hsame]
  · exact hd.times.1
  · exact hd.times.1

/-- A callback that notifies no level. -/
theorem before_of_does {due : Callback → Option Nat} {acts : List ButtonAction}
    (h : ∀ x ∈ w.due .bounceCb, ∀ ev ∈ w.events, ev.action = .buttonDown ∨ ev.action = .buttonUp → ev.time < x)
    (hd : w.Does w' due acts) (hb : due .bounceCb = w.due .bounceCb)
    (ha : ∀ a ∈ acts, ¬ (a = .buttonDown ∨ a = .buttonUp)) :
    ∀ x ∈ w'.due .bounceCb, ∀ ev ∈ w'.events, ev.action = .buttonDown ∨ ev.action = .buttonUp → ev.time < x := by
  intro x hx ev hev hact
  rw [hd.due, hb] at hx
  rw [hd.events] at hev
  rcases List.mem_append.1 hev with hev | hev
  · exact h x hx ev hev hact
  · obtain ⟨a, hin, rfl⟩ := List.mem_map.1 hev
    exact absurd hact (ha a hin)

theorem Dated.doEvent (h : Dated w) {t : Nat} (ht : w.now ≤ t) :
    Dated (World.doEvent P { w with now := t, gpio := !w.gpio, changed := t }) := by
  have hcounted : Counted { w with now := t, gpio := !w.gpio, changed := t } := h.counted.of_same rfl rfl rfl
  have hslot := hcounted.keeps.slot_eq_iff .bounceCb
  have hpast : ∀ ev ∈ w.events, ev.time ≤ t := fun ev hev => Nat.le_trans (h.past ev hev) ht
  unfold World.doEvent
  by_cases hb : w.btn.bounce = -1
  · have hd := hcounted.keeps.addAlarmInMs P w.btn.bounceTime (hslot.1 hb)
    have hpos := h.pos
    rw [if_pos hb]
    have hdue := congrFun hd.due .bounceCb
    rw [Function.update_self] at hdue
    refine ⟨hcounted.of_does hd rfl rfl, by rw [hd.times.1]; exact hpos, past_of_does hpast hd, fun x hx ev hev _ => ?_⟩
    rw [hdue] at hx
    cases hx
    rw [hd.events, List.map_nil, List.append_nil] at hev
    have hle := hpast ev hev
    show ev.time < t + w.btn.bounceTime * 1000
    omega
  · rw [if_neg hb]
    exact ⟨hcounted, h.pos, hpast, h.before⟩

theorem Dated.step {e : Event} (h : Dated w) (hok : OnTime w e) : Dated (step P w e) := by
  cases e with
  | change t => exact hok.elim
  | edge t => exact h.doEvent hok
  | fire a t =>
    obtain ⟨ht, ha, hdue, hfirst⟩ := hok
    have hkeeps : ({ w with now := t } : World).Keeps := h.counted.keeps
    have hpast : ∀ ev ∈ w.events, ev.time ≤ t := fun ev hev => Nat.le_trans (h.past ev hev) ht
    have hmem : w.due a.cb = some a.due := Owned.dueOf_mem h.counted.keeps ha
    rw [step_fire h.counted.keeps ha]
    cases hk : a.cb with
    | bounceCb =>
      rw [hk] at hmem
      have hd := hkeeps.reset .bounceCb
      have hcounted : Counted { w with now := t } := h.counted.of_same rfl rfl rfl
      refine ⟨(hcounted.of_does hd rfl rfl).sample fun ev hev hact => ?_, ?_,
        past_sample hd.keeps (past_of_does hpast hd), fun x hx => ?_⟩
      · have hlt := h.before a.due hmem ev hev hact
        show ev.time < t
        omega
      · rw [sample_bounceTime hd.keeps, hd.times.1]
        exact h.pos
      · rw [hd.keeps.sample_due, hd.due, Function.update_self] at hx
        cases hx
    | holdCb =>
      rw [hk] at hmem
      have hd := hkeeps.hold_fires
      refine ⟨h.counted.buttonHeld hmem hfirst t, by rw [hd.times.1]; exact h.pos, past_of_does hpast hd,
        before_of_does (w := { w with now := t }) h.before hd rfl (by decide)⟩
    | clickCb =>
      rw [hk] at hmem
      have hd := hkeeps.click_fires
      refine ⟨h.counted.buttonClicked (by rw [hmem]; exact Option.some_ne_none _) t, by rw [hd.times.1]; exact h.pos,
        past_of_does hpast hd, before_of_does (w := { w with now := t }) h.before hd rfl (by decide)⟩

end Dated

/-- **The presses at the pin are counted**: the bounce time keeps the level changes apart. -/
theorem pin_presses_counted {P : Pool} {w₀ w : World} (hle : w₀.btn.clickTime ≤ w₀.btn.holdTime)
    (hpos : 0 < w₀.btn.bounceTime) (h₀ : Started w₀) (hr : History.Reach w₀ (step P) OnTime w) :
    (ledger w.actions).short.length = w.actions.count .buttonClicked + 2 * w.actions.count .buttonDoubleClicked +
      (if w.btn.click ≠ -1 then 1 else 0) ∧
    ∀ k ∈ (ledger w.actions).clicked, k ∉ (ledger w.actions).held := by
  have hdated : Dated w := by
    refine History.inv_of_reach ⟨h₀.counted hle, hpos, fun ev hev => ?_, fun x hx => ?_⟩
      (fun _ _ h hok => h.step hok) hr
    · rw [h₀.events] at hev
      cases hev
    · rw [h₀.due] at hx
      cases hx
  exact ⟨hdated.counted.length_short, hdated.counted.clicked_not_held⟩

end Key
end Pico
