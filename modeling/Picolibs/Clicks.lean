import Picolibs.Button
/-!
# Clicks — what becomes of the presses (`button.cpp`)

A press is short when nothing was notified of it but its two ends.  The notifications alone tell which presses are
short, which were held, and which the clicks are of: a click is of the press that ended last, a double click of the
two that did (`Ledger`).  `Tally` follows them with the level and the two timers, one step of the code at a time.

`presses_counted`: every short press is in one click, but the one whose click timer is still pending, and no press that
was held is in any.  A click timer of a press that is over is due before the hold timer of the next one, because it was
started earlier; so `hold_cb` finds none.
-/
namespace Pico
namespace Key

open Alarms

/-! ## The presses -/

/-- The presses, numbered by their `Button_Down`; 0 is one that began before the start.  The lists begin with the
latest. -/
structure Ledger where
  presses : Nat := 0
  released : List Nat := []
  short : List Nat := []
  held : List Nat := []
  clicked : List Nat := []

/-- The press has begun, and was neither held nor released. -/
def Ledger.Short (l : Ledger) : Prop := 0 < l.presses ∧ l.presses ∉ l.released ∧ l.presses ∉ l.held

instance (l : Ledger) : Decidable l.Short := inferInstanceAs (Decidable (_ ∧ _ ∧ _))

def Ledger.record (l : Ledger) : ButtonAction → Ledger
  | .noAction => l
  | .buttonDown => { l with presses := l.presses + 1 }
  | .buttonUp =>
    { l with released := l.presses :: l.released, short := if l.Short then l.presses :: l.short else l.short }
  | .buttonHeld => { l with held := l.presses :: l.held }
  | .buttonClicked => { l with clicked := l.released.take 1 ++ l.clicked }
  | .buttonDoubleClicked => { l with clicked := l.released.take 2 ++ l.clicked }

def ledger (acts : List ButtonAction) : Ledger := acts.foldl Ledger.record {}

theorem ledger_snoc (acts : List ButtonAction) (a : ButtonAction) : ledger (acts ++ [a]) = (ledger acts).record a := by
  rw [ledger, List.foldl_append]
  rfl

/-- What the notifications say, at a level and with timers that are pending or not. -/
structure Tally (acts : List ButtonAction) (down hold click : Bool) : Prop where
  current : down = true → (ledger acts).presses ∉ (ledger acts).released ∧
    (hold = true ↔ 0 < (ledger acts).presses ∧ (ledger acts).presses ∉ (ledger acts).held)
  numbered : ∀ k ∈ (ledger acts).released ++ (ledger acts).held, k ≤ (ledger acts).presses
  short : ∀ k ∈ (ledger acts).short, k ∈ (ledger acts).released ∧ k ∉ (ledger acts).held
  credited : (ledger acts).short = (if click = true then (ledger acts).released.take 1 else []) ++ (ledger acts).clicked
  counted : (ledger acts).short.length =
    acts.count .buttonClicked + 2 * acts.count .buttonDoubleClicked + if click = true then 1 else 0

section Tally

variable {acts : List ButtonAction} {down hold click : Bool}

theorem tally_nil : Tally [] down false false := by
  refine ⟨fun _ => ⟨List.not_mem_nil, ?_⟩, fun k hk => absurd hk List.not_mem_nil,
    fun k hk => absurd hk List.not_mem_nil, rfl, rfl⟩
  exact iff_of_false Bool.false_ne_true fun h => Nat.lt_irrefl 0 h.1

theorem count_snoc (a b : ButtonAction) : (acts ++ [a]).count b = acts.count b + if a = b then 1 else 0 := by
  rw [List.count_append, List.count_singleton]
  simp only [beq_iff_eq]

theorem Tally.buttonDown (h : Tally acts false false click) : Tally (acts ++ [.buttonDown]) true true click := by
  have hnew : ∀ k ∈ (ledger acts).released ++ (ledger acts).held, k ≠ (ledger acts).presses + 1 := fun k hk => by
    have := h.numbered k hk
    omega
  have hled := ledger_snoc acts .buttonDown
  refine ⟨fun _ => ?_, ?_, ?_, ?_, ?_⟩
  · rw [hled]
    exact ⟨fun hk => hnew _ (List.mem_append_left _ hk) rfl, iff_of_true rfl
      ⟨Nat.succ_pos _, fun hk => hnew _ (List.mem_append_right _ hk) rfl⟩⟩
  · rw [hled]
    exact fun k hk => Nat.le_succ_of_le (h.numbered k hk)
  · rw [hled]
    exact h.short
  · rw [hled]
    exact h.credited
  · rw [hled, count_snoc, count_snoc]
    exact h.counted

/-- The end of a press, short or not. -/
theorem Tally.ended (h : Tally acts true hold click) : (ledger (acts ++ [.buttonUp])).released =
      (ledger acts).presses :: (ledger acts).released ∧
    (ledger (acts ++ [.buttonUp])).short =
      (if hold = true then [(ledger acts).presses] else []) ++ (ledger acts).short := by
  obtain ⟨hopen, hhold⟩ := h.current rfl
  have hled := ledger_snoc acts .buttonUp
  rw [hled]
  refine ⟨rfl, ?_⟩
  show (if (ledger acts).Short then _ else _) = _
  by_cases hh : hold = true
  · obtain ⟨hpos, hheld⟩ := hhold.1 hh
    rw [if_pos hh, if_pos ⟨hpos, hopen, hheld⟩]
    rfl
  · rw [if_neg hh, if_neg fun hs => hh (hhold.2 ⟨hs.1, hs.2.2⟩)]
    rfl

theorem Tally.numbered_up (h : Tally acts true hold click) :
    ∀ k ∈ (ledger (acts ++ [.buttonUp])).released ++ (ledger (acts ++ [.buttonUp])).held,
      k ≤ (ledger (acts ++ [.buttonUp])).presses := by
  intro k hk
  rw [h.ended.1, ledger_snoc] at hk
  rw [ledger_snoc]
  rcases List.mem_cons.1 hk with rfl | hk
  · exact Nat.le_refl _
  · exact h.numbered k hk

theorem Tally.short_up (h : Tally acts true hold click) : ∀ k ∈ (ledger (acts ++ [.buttonUp])).short,
    k ∈ (ledger (acts ++ [.buttonUp])).released ∧ k ∉ (ledger (acts ++ [.buttonUp])).held := by
  intro k hk
  obtain ⟨hreleased, hshort⟩ := h.ended
  rw [hshort] at hk
  rw [hreleased]
  rcases List.mem_append.1 hk with hk | hk
  · by_cases hh : hold = true
    · rw [if_pos hh] at hk
      rw [List.mem_singleton.1 hk, ledger_snoc]
      exact ⟨List.mem_cons_self, (((h.current rfl).2.1 hh).2)⟩
    · rw [if_neg hh] at hk
      cases hk
  · obtain ⟨hin, hheld⟩ := h.short k hk
    rw [ledger_snoc]
    exact ⟨List.mem_cons_of_mem _ hin, hheld⟩

/-- A press that was held, or began before the start, is over. -/
theorem Tally.buttonUp_held (h : Tally acts true false false) : Tally (acts ++ [.buttonUp]) false false false := by
  have hshort : (ledger (acts ++ [.buttonUp])).short = (ledger acts).short := h.ended.2
  refine ⟨fun hd => absurd hd Bool.false_ne_true, h.numbered_up, h.short_up, ?_, ?_⟩
  · rw [hshort, h.credited, ledger_snoc]
    rfl
  · rw [hshort, h.counted, count_snoc, count_snoc]
    rfl

/-- A short press is over, and no other waits. -/
theorem Tally.buttonUp_first (h : Tally acts true true false) : Tally (acts ++ [.buttonUp]) false false true := by
  obtain ⟨hreleased, hshort⟩ := h.ended
  have hcredited : (ledger acts).short = (ledger acts).clicked := h.credited
  refine ⟨fun hd => absurd hd Bool.false_ne_true, h.numbered_up, h.short_up, ?_, ?_⟩
  · rw [hshort, hreleased, hcredited, ledger_snoc]
    rfl
  · have hcounted := h.counted
    rw [hshort, count_snoc, count_snoc]
    simp only [if_pos, List.singleton_append, List.length_cons, reduceCtorEq, if_false] at hcounted ⊢
    omega

/-- A short press is over, and the one before it waits. -/
theorem Tally.buttonUp_second (h : Tally acts true true true) :
    Tally (acts ++ [.buttonUp] ++ [.buttonDoubleClicked]) false false false := by
  obtain ⟨hreleased, hshort⟩ := h.ended
  have hled := ledger_snoc (acts ++ [.buttonUp]) .buttonDoubleClicked
  have hcredited : (ledger acts).short = (ledger acts).released.take 1 ++ (ledger acts).clicked := h.credited
  refine ⟨fun hd => absurd hd Bool.false_ne_true, ?_, ?_, ?_, ?_⟩
  · rw [hled]
    exact h.numbered_up
  · rw [hled]
    exact h.short_up
  · rw [hled]
    show (ledger (acts ++ [.buttonUp])).short = (ledger (acts ++ [.buttonUp])).released.take 2 ++ _
    rw [hshort, hreleased, hcredited, ledger_snoc]
    rfl
  · have hcounted := h.counted
    rw [hled]
    show (ledger (acts ++ [.buttonUp])).short.length = _
    rw [hshort, count_snoc, count_snoc, count_snoc, count_snoc]
    simp only [if_pos, List.singleton_append, List.length_cons, reduceCtorEq, if_false] at hcounted ⊢
    omega

/-- The press is held, and no other waits. -/
theorem Tally.buttonHeld (h : Tally acts true true false) : Tally (acts ++ [.buttonHeld]) true false false := by
  obtain ⟨hopen, -⟩ := h.current rfl
  have hled := ledger_snoc acts .buttonHeld
  refine ⟨fun _ => ?_, ?_, ?_, ?_, ?_⟩
  · rw [hled]
    exact ⟨hopen, iff_of_false Bool.false_ne_true fun hh => hh.2 List.mem_cons_self⟩
  · rw [hled]
    intro k hk
    rcases List.mem_append.1 hk with hk | hk
    · exact h.numbered k (List.mem_append_left _ hk)
    · rcases List.mem_cons.1 hk with rfl | hk
      · exact Nat.le_refl _
      · exact h.numbered k (List.mem_append_right _ hk)
  · rw [hled]
    intro k hk
    obtain ⟨hin, hheld⟩ := h.short k hk
    refine ⟨hin, fun hk' => ?_⟩
    rcases List.mem_cons.1 hk' with rfl | hk'
    · exact hopen hin
    · exact hheld hk'
  · rw [hled]
    exact h.credited
  · rw [hled, count_snoc, count_snoc]
    exact h.counted

/-- The press that waits is clicked. -/
theorem Tally.buttonClicked (h : Tally acts down hold true) : Tally (acts ++ [.buttonClicked]) down hold false := by
  have hled := ledger_snoc acts .buttonClicked
  refine ⟨?_, ?_, ?_, ?_, ?_⟩
  · rw [hled]
    exact h.current
  · rw [hled]
    exact h.numbered
  · rw [hled]
    exact h.short
  · rw [hled]
    exact h.credited
  · have hcounted := h.counted
    rw [hled, count_snoc, count_snoc]
    show (ledger acts).short.length = _
    simp only [if_pos, reduceCtorEq, if_false] at hcounted ⊢
    omega

end Tally

/-! ## The runs -/

/-- The level changes at later and later times, and the alarms fire in the order of their deadlines. -/
def InOrder (w : World) : Event → Prop
  | .edge _ => False
  | .fire a _ => a ∈ w.alarms ∧ ∀ b ∈ w.alarms, a.due ≤ b.due
  | .change t => ∀ ev ∈ w.events, ev.action = .buttonDown ∨ ev.action = .buttonUp → ev.time < t

instance (w : World) : ∀ e, Decidable (InOrder w e)
  | .edge _ => isFalse id
  | .fire a _ => inferInstanceAs (Decidable (a ∈ w.alarms ∧ ∀ b ∈ w.alarms, a.due ≤ b.due))
  | .change t => inferInstanceAs (Decidable (∀ ev ∈ w.events, ev.action = .buttonDown ∨ ev.action = .buttonUp →
      ev.time < t))

/-- What every step keeps of the presses. -/
structure Counted (w : World) : Prop where
  keeps : w.Keeps
  le : w.btn.clickTime ≤ w.btn.holdTime
  tally : Tally w.actions w.btn.prevState (w.due .holdCb).isSome (w.due .clickCb).isSome
  up : w.btn.prevState = false → w.due .holdCb = none
  held : w.btn.prevState = true → w.due .holdCb = none → w.due .clickCb = none
  started : ∀ c ∈ w.due .clickCb, ∃ ev ∈ w.events, ev.action = .buttonUp ∧ c = ev.time + w.btn.clickTime * 1000
  order : ∀ c ∈ w.due .clickCb, ∀ h ∈ w.due .holdCb, c < h

section Counted

variable {P : Pool} {w w' : World}

theorem Counted.of_same (h : Counted w) (hbtn : w'.btn = w.btn) (halarms : w'.alarms = w.alarms)
    (hevents : w'.events = w.events) : Counted w' := by
  cases w
  cases w'
  cases hbtn
  cases halarms
  cases hevents
  exact ⟨h.keeps, h.le, h.tally, h.up, h.held, h.started, h.order⟩

/-- What moves neither of the two timers and notifies nothing keeps it. -/
theorem Counted.of_does {due : Callback → Option Nat} (h : Counted w) (hd : w.Does w' due [])
    (hh : due .holdCb = w.due .holdCb) (hc : due .clickCb = w.due .clickCb) : Counted w' := by
  have hevents : w'.events = w.events := hd.events.trans (List.append_nil _)
  have hactions : w'.actions = w.actions := hd.actions.trans (List.append_nil _)
  have hhold : w'.due .holdCb = w.due .holdCb := by rw [hd.due, hh]
  have hclick : w'.due .clickCb = w.due .clickCb := by rw [hd.due, hc]
  obtain ⟨-, hclickTime, hholdTime⟩ := hd.times
  refine ⟨hd.keeps, ?_, ?_, ?_, ?_, ?_, ?_⟩
  · rw [hclickTime, hholdTime]
    exact h.le
  · rw [hactions, hd.prevState, hhold, hclick]
    exact h.tally
  · rw [hd.prevState, hhold]
    exact h.up
  · rw [hd.prevState, hhold, hclick]
    exact h.held
  · rw [hclick, hevents, hclickTime]
    exact h.started
  · rw [hclick, hhold]
    exact h.order

theorem Counted.buttonDown (h : Counted w) (hp : w.btn.prevState = false)
    (hlater : ∀ ev ∈ w.events, ev.action = .buttonDown ∨ ev.action = .buttonUp → ev.time < w.now)
    (hd : { w with btn := { w.btn with prevState := true } }.Does w'
      (Function.update w.due .holdCb (some (w.now + w.btn.holdTime * 1000))) [.buttonDown]) : Counted w' := by
  have hle := h.le
  have hhold : w'.due .holdCb = some (w.now + w.btn.holdTime * 1000) := by rw [hd.due, Function.update_self]
  have hclick : w'.due .clickCb = w.due .clickCb := by rw [hd.due, Function.update_of_ne (by decide)]
  have hprev : w'.btn.prevState = true := hd.prevState
  have hclickTime : w'.btn.clickTime = w.btn.clickTime := hd.times.2.1
  have hholdTime : w'.btn.holdTime = w.btn.holdTime := hd.times.2.2
  have htally := h.tally
  rw [hp, h.up hp] at htally
  have hstarted : ∀ c ∈ w'.due .clickCb, ∃ ev ∈ w.events, ev.action = .buttonUp ∧
      c = ev.time + w.btn.clickTime * 1000 := by
    rw [hclick]
    exact h.started
  refine ⟨hd.keeps, by rw [hclickTime, hholdTime]; exact hle, ?_, fun hup => ?_, fun _ hn => ?_, fun c hc => ?_,
    fun c hc x hx => ?_⟩
  · rw [hd.actions, hprev, hhold, hclick]
    exact htally.buttonDown
  · rw [hprev] at hup
    cases hup
  · rw [hhold] at hn
    cases hn
  · obtain ⟨ev, hev, hact, hdue⟩ := hstarted c hc
    refine ⟨ev, ?_, hact, by rw [hclickTime]; exact hdue⟩
    rw [hd.events]
    exact List.mem_append_left _ hev
  · -- the press before ended earlier than this one began
    obtain ⟨ev, hev, hact, hdue⟩ := hstarted c hc
    have hlt := hlater ev hev (Or.inr hact)
    rw [hhold] at hx
    cases hx
    omega

theorem Counted.buttonUp (h : Counted w) (hp : w.btn.prevState = true)
    (hd : { w with btn := { w.btn with prevState := false } }.Does w'
      (Function.update
        (if w.due .holdCb = none then w.due
          else Function.update w.due .clickCb
            (if w.due .clickCb = none then some (w.now + w.btn.clickTime * 1000) else none)) .holdCb none)
      (if w.due .holdCb = none ∨ w.due .clickCb = none then [.buttonUp] else [.buttonUp, .buttonDoubleClicked])) :
    Counted w' := by
  have htally := h.tally
  have hhold : w'.due .holdCb = none := by rw [hd.due, Function.update_self]
  have hprev : w'.btn.prevState = false := hd.prevState
  have hclickTime : w'.btn.clickTime = w.btn.clickTime := hd.times.2.1
  have hholdTime : w'.btn.holdTime = w.btn.holdTime := hd.times.2.2
  have hdue : w'.due .clickCb = if w.due .holdCb = none then w.due .clickCb
      else if w.due .clickCb = none then some (w.now + w.btn.clickTime * 1000) else none := by
    rw [hd.due, Function.update_of_ne (by decide)]
    split
    · rfl
    · rw [Function.update_self]
  have hactions : w'.actions = w.actions ++ _ := hd.actions
  have hevents := hd.events
  rw [hp] at htally
  suffices hsuff : Tally w'.actions false false (w'.due .clickCb).isSome ∧ ∀ c ∈ w'.due .clickCb,
      ∃ ev ∈ w'.events, ev.action = .buttonUp ∧ c = ev.time + w.btn.clickTime * 1000 by
    refine ⟨hd.keeps, by rw [hclickTime, hholdTime]; exact h.le, ?_, fun _ => hhold, fun hdown => ?_, ?_,
      fun c _ x hx => ?_⟩
    · rw [hprev, hhold]
      exact hsuff.1
    · rw [hprev] at hdown
      cases hdown
    · rw [hclickTime]
      exact hsuff.2
    · rw [hhold] at hx
      cases hx
  rw [hactions, hdue]
  by_cases hh : w.due .holdCb = none
  · -- held, or begun before the start
    have hc := h.held hp hh
    rw [if_pos hh, if_pos (Or.inl hh), hc]
    rw [hh, hc] at htally
    exact ⟨htally.buttonUp_held, fun c hc => absurd hc (by simp)⟩
  · obtain ⟨x, hx⟩ := Option.ne_none_iff_exists'.1 hh
    rw [if_neg hh]
    by_cases hc : w.due .clickCb = none
    · rw [if_pos hc, if_pos (Or.inr hc)]
      rw [hx, hc] at htally
      refine ⟨htally.buttonUp_first, fun c hc' => ?_⟩
      rw [if_pos (Or.inr hc)] at hevents
      refine ⟨⟨w.now, w.btn.id, .buttonUp⟩, ?_, rfl, (Option.some.inj hc').symm⟩
      rw [hevents]
      exact List.mem_append_right _ List.mem_cons_self
    · obtain ⟨y, hy⟩ := Option.ne_none_iff_exists'.1 hc
      rw [if_neg hc, if_neg (not_or.2 ⟨hh, hc⟩)]
      rw [hx, hy] at htally
      have htwo := htally.buttonUp_second
      rw [List.append_assoc] at htwo
      exact ⟨htwo, fun c hc => absurd hc (by simp)⟩

/-- **A sample** is counted, if the level last changed earlier. -/
theorem Counted.sample (h : Counted w)
    (hlater : ∀ ev ∈ w.events, ev.action = .buttonDown ∨ ev.action = .buttonUp → ev.time < w.now) :
    Counted (w.sample P) := by
  rcases h.keeps.sample_cases P with ⟨-, hsame⟩ | ⟨-, hp, hd⟩ | ⟨-, hp, hd⟩
  · rw [hsame]
    exact h
  · exact h.buttonDown hp hlater hd
  · exact h.buttonUp hp hd

/-- **The hold timer fires**: in the order of the deadlines, no click timer is pending. -/
theorem Counted.buttonHeld (h : Counted w) {x : Nat} (hx : w.due .holdCb = some x)
    (hfirst : ∀ a ∈ w.alarms, x ≤ a.due) (t : Nat) : Counted ({ w with now := t }.reset .holdCb).buttonHeld := by
  have hd := (show ({ w with now := t } : World).Keeps from h.keeps).hold_fires
  have hclick : w.due .clickCb = none := by
    refine Option.eq_none_iff_forall_not_mem.2 fun c hc => ?_
    obtain ⟨a, ha, -, hdue⟩ := mem_of_dueOf hc
    have hlt := h.order c hc x hx
    have hle := hfirst a ha
    omega
  have hdown : w.btn.prevState = true := by
    cases hp : w.btn.prevState with
    | true => rfl
    | false =>
      rw [h.up hp] at hx
      cases hx
  have htally := h.tally
  rw [hdown, hx, hclick] at htally
  have hhold' : (({ w with now := t } : World).reset .holdCb).buttonHeld.due .holdCb = none := by
    rw [hd.due, Function.update_self]
  have hclick' : (({ w with now := t } : World).reset .holdCb).buttonHeld.due .clickCb = none := by
    rw [hd.due, Function.update_of_ne (by decide), Function.update_self]
  have hprev := hd.prevState.trans hdown
  obtain ⟨-, hclickTime, hholdTime⟩ := hd.times
  refine ⟨hd.keeps, by rw [hclickTime, hholdTime]; exact h.le, ?_, fun _ => hhold', fun _ _ => hclick',
    fun c hc => ?_, fun c hc => ?_⟩
  · rw [hd.actions, hprev, hhold', hclick']
    exact htally.buttonHeld
  · rw [hclick'] at hc
    cases hc
  · rw [hclick'] at hc
    cases hc

/-- **The click timer fires.** -/
theorem Counted.buttonClicked (h : Counted w) (hc : w.due .clickCb ≠ none) (t : Nat) :
    Counted ({ w with now := t }.reset .clickCb).buttonClicked := by
  have hd := (show ({ w with now := t } : World).Keeps from h.keeps).click_fires
  obtain ⟨x, hx⟩ := Option.ne_none_iff_exists'.1 hc
  have htally := h.tally
  rw [hx] at htally
  have hhold' : (({ w with now := t } : World).reset .clickCb).buttonClicked.due .holdCb = w.due .holdCb := by
    rw [hd.due, Function.update_of_ne (by decide)]
    rfl
  have hclick' : (({ w with now := t } : World).reset .clickCb).buttonClicked.due .clickCb = none := by
    rw [hd.due, Function.update_self]
  have hprev : (({ w with now := t } : World).reset .clickCb).buttonClicked.btn.prevState = w.btn.prevState :=
    hd.prevState
  obtain ⟨-, hclickTime, hholdTime⟩ := hd.times
  refine ⟨hd.keeps, by rw [hclickTime, hholdTime]; exact h.le, ?_, ?_, fun _ _ => hclick', fun c hc => ?_,
    fun c hc => ?_⟩
  · rw [hd.actions, hprev, hhold', hclick']
    exact htally.buttonClicked
  · rw [hprev, hhold']
    exact h.up
  · rw [hclick'] at hc
    cases hc
  · rw [hclick'] at hc
    cases hc

theorem Counted.click_iff (h : Counted w) : (w.due .clickCb).isSome = true ↔ w.btn.click ≠ -1 := by
  rw [Option.isSome_iff_ne_none]
  exact not_congr (h.keeps.slot_eq_iff .clickCb).symm

theorem Counted.length_short (h : Counted w) : (ledger w.actions).short.length =
    w.actions.count .buttonClicked + 2 * w.actions.count .buttonDoubleClicked +
      (if w.btn.click ≠ -1 then 1 else 0) := by
  have hlength := h.tally.counted
  simp only [h.click_iff] at hlength
  exact hlength

theorem Counted.short_eq (h : Counted w) : (ledger w.actions).short =
    (if w.btn.click ≠ -1 then (ledger w.actions).released.take 1 else []) ++ (ledger w.actions).clicked := by
  have hcredited := h.tally.credited
  simp only [h.click_iff] at hcredited
  exact hcredited

theorem Counted.clicked_not_held (h : Counted w) : ∀ k ∈ (ledger w.actions).clicked, k ∉ (ledger w.actions).held := by
  intro k hk
  have hshort : k ∈ (ledger w.actions).short := by
    rw [h.short_eq]
    exact List.mem_append_right _ hk
  exact (h.tally.short k hshort).2

end Counted

/-- A button as it is constructed: no timer, and nothing notified. -/
structure Started (w : World) : Prop where
  slots : w.btn.slot = fun _ => -1
  alarms : w.alarms = []
  events : w.events = []

theorem Started.keeps {w : World} (h : Started w) : w.Keeps := by
  unfold World.Keeps
  rw [h.slots, h.alarms]
  exact owned_nil

theorem Started.due {w : World} (h : Started w) (k : Callback) : w.due k = none := by
  rw [World.due, h.alarms]
  rfl

theorem Started.counted {w : World} (h : Started w) (hle : w.btn.clickTime ≤ w.btn.holdTime) : Counted w := by
  have hactions : w.actions = [] := by rw [World.actions, h.events, List.map_nil]
  refine ⟨h.keeps, hle, ?_, fun _ => h.due _, fun _ _ => h.due _, fun c hc => ?_, fun c hc => ?_⟩
  · rw [hactions, h.due, h.due]
    exact tally_nil
  · rw [h.due] at hc
    cases hc
  · rw [h.due] at hc
    cases hc

/-- The step lemma: the presses are counted, with the bounce timer left to itself. -/
theorem Counted.step {P : Pool} {w : World} {e : Event} (h : Counted w ∧ w.due .bounceCb = none) (hok : InOrder w e) :
    Counted (step P w e) ∧ (step P w e).due .bounceCb = none := by
  obtain ⟨hcounted, hbounce⟩ := h
  cases e with
  | edge t => exact hok.elim
  | fire a t =>
    obtain ⟨ha, hfirst⟩ := hok
    have hdue : w.due a.cb = some a.due := Owned.dueOf_mem hcounted.keeps ha
    have hkeeps : ({ w with now := t } : World).Keeps := hcounted.keeps
    rw [step_fire hcounted.keeps ha]
    cases hk : a.cb with
    | bounceCb =>
      rw [hk, hbounce] at hdue
      cases hdue
    | holdCb =>
      rw [hk] at hdue
      refine ⟨hcounted.buttonHeld hdue hfirst t, ?_⟩
      rw [hkeeps.hold_fires.due]
      exact hbounce
    | clickCb =>
      rw [hk] at hdue
      refine ⟨hcounted.buttonClicked (by rw [hdue]; exact Option.some_ne_none _) t, ?_⟩
      rw [hkeeps.click_fires.due]
      exact hbounce
  | change t =>
    have hslot := (hcounted.keeps.slot_eq_iff .bounceCb).2 hbounce
    have hsettle : World.settle { w with now := t, gpio := w.btn.prevState, changed := t } =
        { w with now := t, gpio := w.btn.prevState, changed := t } := by
      have hsame := Button.setSlot_slot w.btn .bounceCb
      rw [hslot] at hsame
      unfold World.settle
      rw [hsame]
    have hw : Counted { w with now := t, gpio := w.btn.prevState, changed := t } := hcounted.of_same rfl rfl rfl
    show Counted (World.bounceCb P _) ∧ (World.bounceCb P _).due .bounceCb = none
    rw [World.bounceCb_eq, hsettle]
    exact ⟨hw.sample hok, (hw.keeps.sample_due P).trans hbounce⟩

/-- **What becomes of the presses**: every short press is in one click, the one that waits for its click timer apart,
and no press that was held is in any. -/
theorem presses_counted {P : Pool} {w₀ w : World} (hle : w₀.btn.clickTime ≤ w₀.btn.holdTime) (h₀ : Started w₀)
    (hr : History.Reach w₀ (step P) InOrder w) :
    (ledger w.actions).short.length = w.actions.count .buttonClicked + 2 * w.actions.count .buttonDoubleClicked +
      (if w.btn.click ≠ -1 then 1 else 0) ∧
    (∀ k ∈ (ledger w.actions).clicked, k ∉ (ledger w.actions).held) ∧
    (ledger w.actions).short = (if w.btn.click ≠ -1 then (ledger w.actions).released.take 1 else []) ++
      (ledger w.actions).clicked := by
  have hinv : Counted w ∧ w.due .bounceCb = none :=
    History.inv_of_reach (I := fun w => Counted w ∧ w.due .bounceCb = none) ⟨h₀.counted hle, h₀.due _⟩
      (fun _ _ h hok => Counted.step h hok) hr
  exact ⟨hinv.1.length_short, hinv.1.clicked_not_held, hinv.1.short_eq⟩

/-- A short press, and a second one that is held; the click timer fires while it is. -/
def twoPresses : List Event :=
  [.change 1000, .change 101000, .change 200000, .fire ⟨2, 351000, .clickCb⟩ 351000,
    .fire ⟨3, 3200000, .holdCb⟩ 3200000]

theorem presses_counted_two :
    (ledger (twoPresses.foldl (step Pool.greatest) { btn := {} }).actions).short.length = 1 ∧
    ∀ k ∈ (ledger (twoPresses.foldl (step Pool.greatest) { btn := {} }).actions).clicked,
      k ∉ (ledger (twoPresses.foldl (step Pool.greatest) { btn := {} }).actions).held := by
  have h₀ : Started { btn := {} } := ⟨by funext k; cases k <;> rfl, rfl, rfl⟩
  obtain ⟨hlength, hheld, -⟩ := presses_counted (by decide) h₀
    (@History.reach_along _ _ _ (step Pool.greatest) InOrder twoPresses _ .init (by decide +kernel))
  exact ⟨hlength.trans (by decide +kernel), hheld⟩

end Key
end Pico
