import Picolibs.Wifi
/-!
# AccessPoint — from `enable_ap` to the tick that ends it (`web.h`, `web.cpp`)

`enable_ap` asks for some minutes.  The next tick starts the access point with its DHCP server, or gives the one that
is up its new time; every tick behind it counts, and the last one stops both.  The application may ask again at any
moment, from the callbacks of a tick too.

The driver is told to start and to stop in turn, in every run (`switched`), and what is asked for `m` minutes is up for
`120 * m` ticks (`up_for`).
-/
namespace Pico
namespace Wifi

/-! ## What the driver is told -/

/-- `is_ap_active`. -/
def Web.isApActive (w : Web) : Bool := decide (0 < w.apActive)

def Act.isAp : Act → Bool
  | .enableAp _ | .disableAp => true
  | _ => false

/-- The access point, up or not, is told something: nothing starts twice, and nothing stops that is not up. -/
def Act.turn (up : Bool) : Act → Option Bool
  | .enableAp _ => if up then none else some true
  | .disableAp => if up then some false else none
  | _ => some up

/-- What the driver has been told leaves the access point up, or not. -/
def Web.apUp (w : Web) : Option Bool := w.acts.foldlM Act.turn false

/-- The minutes of every `enable_ap` are as `P` says. -/
def Calls.Every (P : Int → Prop) : Calls → Prop
  | .done => True
  | .connectToWifi _ _ rest => rest.Every P
  | .updateWifi _ _ inner rest => inner.Every P ∧ rest.Every P
  | .enableAp minutes _ rest => P minutes ∧ rest.Every P

def Event.Every (P : Int → Prop) : Event → Prop
  | .call c => c.Every P
  | .tick t => ∀ n, (t.reply n).Every P

/-- `ap_requested_ * 60 * 2` is an `int`. -/
def Fits (minutes : Int) : Prop := minutes * 60 * 2 < 2 ^ 31

instance (minutes : Int) : Decidable (Fits minutes) := inferInstanceAs (Decidable (_ < _))

/-- Nobody asks for the access point. -/
abbrev Event.Silent (e : Event) : Prop := e.Every fun _ => False

theorem apUp_act (w : Web) (a : Act) : (w.act a).apUp = w.apUp.bind fun up => a.turn up := by
  rw [Web.apUp, Web.act, List.foldlM_append]
  cases h : w.acts.foldlM Act.turn false with
  | none => rw [Web.apUp, h]; rfl
  | some up => rw [Web.apUp, h]; simp

/-! ## What leaves the access point alone -/

/-- The access point is as it was, and what is asked of it is what was, or as `P` says. -/
structure Asks (P : Int → Prop) (w w' : Web) : Prop where
  active : w'.apActive = w.apActive
  up : w'.apUp = w.apUp
  asked : w'.apRequested = w.apRequested ∨ P w'.apRequested

section
variable {P : Int → Prop} {w w' w'' : Web}

theorem Asks.refl : Asks P w w := ⟨rfl, rfl, .inl rfl⟩

theorem Asks.trans (h : Asks P w w') (h' : Asks P w' w'') : Asks P w w'' := by
  refine ⟨h'.active.trans h.active, h'.up.trans h.up, ?_⟩
  rcases h'.asked with heq | hp
  · rw [heq]
    exact h.asked
  · exact .inr hp

theorem Asks.time (h : Asks P w w') (n : Nat) : Asks P w { w' with reconnectTime := n } := ⟨h.active, h.up, h.asked⟩

theorem asks_act (w : Web) {a : Act} (h : a.isAp = false) : Asks P w (w.act a) := by
  refine ⟨rfl, ?_, .inl rfl⟩
  rw [apUp_act]
  cases w.apUp with
  | none => rfl
  | some up =>
    cases a with
    | enableAp _ => cases h
    | disableAp => cases h
    | _ => rfl

theorem asks_connectToWifi (w : Web) (caller : Caller) (creds : Creds) (answer : Int) :
    Asks P w (w.connectToWifi caller creds answer).2 := by
  have hset : ∀ w : Web, Asks P w { w with ssid := creds.ssid, pwd := creds.password } := fun _ => ⟨rfl, rfl, .inl rfl⟩
  have hname : Asks P w { w with hostname := creds.hostname } := ⟨rfl, rfl, .inl rfl⟩
  have htold : Asks P w ({ w with hostname := creds.hostname }.act (.setHostname creds.hostname)) :=
    hname.trans (asks_act _ rfl)
  unfold Web.connectToWifi
  dsimp only
  split
  · split
    · exact hname.trans (hset _)
    · exact htold.trans (hset _)
  · split
    · exact (hname.trans (hset _)).trans (asks_act _ rfl)
    · exact (htold.trans (hset _)).trans (asks_act _ rfl)

theorem asks_updateWifi (w : Web) (creds : Creds) (answer : Int) {notify : Notice → Web → Web}
    (hn : ∀ n w, Asks P w (notify n w)) : Asks P w (w.updateWifi creds answer notify).2 := by
  unfold Web.updateWifi
  split
  · exact (asks_act w rfl).trans (asks_connectToWifi _ _ creds answer)
  · split
    all_goals first | exact hn _ w | exact Asks.refl

theorem asks_perform : ∀ {c : Calls}, c.Every P → ∀ w : Web, Asks P w (Web.perform c w)
  | .done, _, _ => Asks.refl
  | .connectToWifi creds answer rest, h, w =>
    (asks_connectToWifi w .app creds answer).trans (asks_perform (c := rest) h _)
  | .updateWifi creds answer _ _, h, w =>
    (asks_updateWifi w creds answer fun _ _ => (asks_act _ rfl).trans (asks_perform h.1 _)).trans
      (asks_perform h.2 _)
  | .enableAp minutes name _, h, w =>
    have hask : Asks P w (w.enableAp minutes name) := ⟨rfl, rfl, .inr h.1⟩
    hask.trans (asks_perform h.2 _)

variable {t : Tick}

theorem asks_sendNotice (ht : (Event.tick t).Every P) (w : Web) (n : Notice) : Asks P w (w.sendNotice t.reply n) :=
  (asks_act w rfl).trans (asks_perform (ht n) _)

theorem asks_checkStatus (ht : (Event.tick t).Every P) (w : Web) : Asks P w (w.checkStatus t) := by
  have hread : Asks P w { w with state := t.sts, addr := t.addr } := ⟨rfl, rfl, .inl rfl⟩
  have hnotice := fun n => hread.trans (asks_sendNotice ht _ n)
  have hconnected : ∀ w : Web, Asks P w
      { { w with mdnsActive := true }.sendNotice t.reply .staConnected with reconnectTime := 0 } := by
    intro w
    have hflag : Asks P w { w with mdnsActive := true } := ⟨rfl, rfl, .inl rfl⟩
    exact (hflag.trans (asks_sendNotice ht _ .staConnected)).time 0
  unfold Web.checkStatus
  split
  · dsimp only
    split
    · exact hnotice _
    · exact hnotice _
    · refine hread.trans ?_
      have hmdns : Asks P { w with state := t.sts, addr := t.addr }
          (if w.mdnsActive then { w with state := t.sts, addr := t.addr }.act .mdnsRemove
            else { w with state := t.sts, addr := t.addr }) := by
        split
        · exact asks_act _ rfl
        · exact Asks.refl
      have hadd : ∀ (w : Web) (name : Bytes), Asks P w (w.act (.mdnsAdd name)) := fun w _ => asks_act w rfl
      have hannounce : ∀ w : Web, Asks P w (w.act .mdnsAnnounce) := fun w => asks_act w rfl
      exact ((hmdns.trans (hadd _ _)).trans (hannounce _)).trans (hconnected _)
    · exact (hnotice _).time _
    · exact (hnotice _).time _
    · exact (hnotice _).time _
    · exact hnotice _
    · exact hread
  · exact Asks.refl

theorem asks_reconnect (w : Web) (t : Tick) : Asks P w (w.reconnect t) := by
  unfold Web.reconnect
  split
  all_goals first | exact Asks.refl | (split; exact asks_connectToWifi w _ _ _; exact Asks.refl)

theorem asks_checkReconnect (w : Web) (t : Tick) : Asks P w (w.checkReconnect t) := by
  have hcount : Asks P w { w with reconnectTime := w.reconnectTime - 1 } := ⟨rfl, rfl, .inl rfl⟩
  unfold Web.checkReconnect
  split
  · dsimp only
    split
    · exact hcount.trans (asks_reconnect _ t)
    · exact hcount
  · exact Asks.refl

end

/-! ## Starting, stopping and counting -/

theorem apUp_some {w : Web} {up : Bool} (h : w.apUp = some up) (a : Act) : (w.act a).apUp = a.turn up := by
  rw [apUp_act, h, Option.bind_some]

/-- The access point as the members and the driver have it, with nothing that an `int` does not hold. -/
structure Steady (w : Web) : Prop where
  low : 0 ≤ w.apActive
  high : w.apActive < 2 ^ 31
  asked : Fits w.apRequested
  up : w.apUp = some w.isApActive

theorem Asks.steady {P : Int → Prop} (hP : ∀ m, P m → Fits m) {w w' : Web} (h : Asks P w w') (hw : Steady w) :
    Steady w' := by
  refine ⟨h.active ▸ hw.low, h.active ▸ hw.high, ?_, ?_⟩
  · rcases h.asked with heq | hp
    · exact heq ▸ hw.asked
    · exact hP _ hp
  · rw [h.up, hw.up, Web.isApActive, Web.isApActive, h.active]

/-- `check_wifi` counts: the time goes down to 0, where the access point stops. -/
theorem countAp_steady {P : Int → Prop} {w : Web} {t : Tick} (ht : (Event.tick t).Every P) (hw : Steady w) :
    (w.countAp t).apActive = max 0 (w.apActive - 1) ∧ (w.countAp t).apUp = some (w.countAp t).isApActive ∧
    ((w.countAp t).apRequested = w.apRequested ∨ P (w.countAp t).apRequested) := by
  have hlow := hw.low
  have hup := hw.up
  unfold Web.countAp
  by_cases hpos : 0 < w.apActive
  · rw [if_pos hpos]
    rw [Web.isApActive, decide_eq_true hpos] at hup
    dsimp only
    split
    · have hsent := asks_sendNotice ht ({ w with apActive := w.apActive - 1 }.act .disableAp) .apInactive
      have hdown : ({ w with apActive := w.apActive - 1 }.act .disableAp).apUp = some false :=
        apUp_some (w := { w with apActive := w.apActive - 1 }) hup .disableAp
      have hactive : (Web.stopAp { w with apActive := w.apActive - 1 } t).apActive = w.apActive - 1 := hsent.active
      refine ⟨?_, ?_, hsent.asked⟩
      · rw [hactive]
        omega
      · rw [Web.isApActive, hactive, decide_eq_false (by omega)]
        exact hsent.up.trans hdown
    · have hmax : w.apActive - 1 = max 0 (w.apActive - 1) := by omega
      refine ⟨hmax, ?_, .inl rfl⟩
      rw [Web.isApActive, decide_eq_true (show 0 < w.apActive - 1 by omega)]
      exact hup
  · rw [if_neg hpos]
    exact ⟨by omega, hup, .inl rfl⟩

/-- `check_wifi` starts what is asked for: an access point that is up only has its new time. -/
theorem checkAp_steady {P : Int → Prop} {w : Web} {t : Tick} (ht : (Event.tick t).Every P) (hw : Steady w) :
    (w.checkAp t).apActive = (if 0 < w.apRequested then w.apRequested * 60 * 2 else w.apActive) ∧
    (w.checkAp t).apUp = some (w.checkAp t).isApActive ∧
    ((w.checkAp t).apRequested = (if 0 < w.apRequested then 0 else w.apRequested) ∨ P (w.checkAp t).apRequested) := by
  unfold Web.checkAp
  by_cases hpos : 0 < w.apRequested
  · rw [if_pos hpos, if_pos hpos, if_pos hpos]
    have hmode : (if w.apActive = 0 then w.act (.enableAp w.apName) else w).apUp = some true ∧
        (if w.apActive = 0 then w.act (.enableAp w.apName) else w).apRequested = w.apRequested := by
      have hlow := hw.low
      have hup := hw.up
      split
      · refine ⟨?_, rfl⟩
        rw [Web.isApActive, decide_eq_false (by omega)] at hup
        exact apUp_some hup _
      · rw [Web.isApActive, decide_eq_true (by omega)] at hup
        exact ⟨hup, rfl⟩
    obtain ⟨hup, hasked⟩ := hmode
    have hsent := fun v : Web => asks_sendNotice ht v .apActive
    have hactive : (w.startAp t).apActive = w.apRequested * 60 * 2 := by
      rw [← hasked]
      exact (hsent _).active
    refine ⟨hactive, ?_, (hsent _).asked⟩
    rw [Web.isApActive, hactive, decide_eq_true (by omega)]
    exact (hsent _).up.trans hup
  · rw [if_neg hpos, if_neg hpos, if_neg hpos]
    exact ⟨rfl, hw.up, .inl rfl⟩

/-- **One tick**: the access point has the time of what is asked for when the tick comes to it, or one less. -/
theorem checkWifi_ap {P : Int → Prop} (hP : ∀ m, P m → Fits m) {w : Web} {t : Tick} (ht : (Event.tick t).Every P)
    (hw : Steady w) : Steady (w.checkWifi t) ∧ ∃ r, (r = w.apRequested ∨ P r) ∧
      (w.checkWifi t).apActive = (if 0 < r then r * 60 * 2 else max 0 (w.apActive - 1)) ∧
      ((w.checkWifi t).apRequested = (if 0 < r then 0 else r) ∨ P (w.checkWifi t).apRequested) := by
  have hwatch : Asks P w ((w.checkStatus t).checkReconnect t) :=
    (asks_checkStatus ht w).trans (asks_checkReconnect _ t)
  have hw1 := hwatch.steady hP hw
  obtain ⟨hactive, hup, hasked⟩ := countAp_steady ht hw1
  rw [hwatch.active] at hactive
  have hr : ∀ {r : Int}, (r = ((w.checkStatus t).checkReconnect t).apRequested ∨ P r) → r = w.apRequested ∨ P r := by
    rintro r (rfl | hp)
    · exact hwatch.asked
    · exact .inr hp
  have hfits : ∀ {r : Int}, (r = w.apRequested ∨ P r) → Fits r := by
    rintro r (rfl | hp)
    · exact hw.asked
    · exact hP r hp
  have hlow := hw.low
  have hhigh := hw.high
  have hw2 : Steady (((w.checkStatus t).checkReconnect t).countAp t) :=
    ⟨by omega, by omega, hfits (hr hasked), hup⟩
  obtain ⟨hactive2, hup2, hasked2⟩ := checkAp_steady ht hw2
  have hbound := hw2.asked
  unfold Fits at hbound
  rw [hactive] at hactive2
  refine ⟨⟨?_, ?_, ?_, hup2⟩, _, hr hasked, hactive2, hasked2⟩
  · rw [Web.checkWifi, hactive2]
    split <;> omega
  · rw [Web.checkWifi, hactive2]
    split <;> omega
  · rcases hasked2 with heq | hp
    · rw [Web.checkWifi, heq]
      split
      · exact (by decide : Fits 0)
      · exact hw2.asked
    · exact hP _ hp

/-! ## Runs -/

theorem step_steady {P : Int → Prop} (hP : ∀ m, P m → Fits m) {w : Web} (hw : Steady w) :
    ∀ {e : Event}, e.Every P → Steady (step w e)
  | .call _, he => (asks_perform he w).steady hP hw
  | .tick _, he => (checkWifi_ap hP he hw).1

theorem foldl_steady {P : Int → Prop} (hP : ∀ m, P m → Fits m) : ∀ (es : List Event) {w : Web}, Steady w →
    (∀ e ∈ es, e.Every P) → Steady (es.foldl step w)
  | [], _, hw, _ => hw
  | e :: es, _, hw, he =>
    foldl_steady hP es (step_steady hP hw (he e List.mem_cons_self)) fun e' hm => he e' (List.mem_cons_of_mem _ hm)

theorem steady_run (addr : Addr) {es : List Event} (h : ∀ e ∈ es, e.Every Fits) : Steady (run addr es) :=
  foldl_steady (fun _ hm => hm) es
    ⟨Int.le_refl 0, (by decide : (0 : Int) < 2 ^ 31), (by decide : Fits 0), rfl⟩ h

/-- Nobody asks: every tick takes one from the time that is left. -/
theorem foldl_silent : ∀ {es : List Event} {w : Web}, Steady w → w.apRequested ≤ 0 → (∀ e ∈ es, e.Silent) →
    (es.foldl step w).apActive = max 0 (w.apActive - (readings es).length)
  | [], w, hw, _, _ => by
    have hlow := hw.low
    exact (Int.max_eq_right (by simpa using hlow)).symm.trans (by simp [readings])
  | .call c :: es, w, hw, hr, he => by
    have hc : c.Every fun _ => False := he _ List.mem_cons_self
    have hask := asks_perform hc w
    have hr' : (step w (.call c)).apRequested ≤ 0 := by
      rcases hask.asked with heq | hf
      · exact heq ▸ hr
      · exact hf.elim
    rw [List.foldl_cons, step, foldl_silent (hask.steady (fun _ hf => hf.elim) hw) hr'
      (fun e hm => he e (List.mem_cons_of_mem _ hm)), readings]
    exact congrArg (fun a => max 0 (a - ((readings es).length : Int))) hask.active
  | .tick t :: es, w, hw, hr, he => by
    obtain ⟨hw', r, hwas, hactive, hasked⟩ := checkWifi_ap (fun _ hf => hf.elim) (he _ List.mem_cons_self) hw
    have hr0 : r = w.apRequested := hwas.resolve_right fun hf => hf
    rw [hr0, if_neg (by omega)] at hactive
    rw [hr0, if_neg (by omega)] at hasked
    have hr' : (w.checkWifi t).apRequested ≤ 0 := by
      rcases hasked with heq | hf
      · exact heq ▸ hr
      · exact hf.elim
    rw [List.foldl_cons, step, foldl_silent hw' hr' fun e hm => he e (List.mem_cons_of_mem _ hm), hactive, readings,
      List.length_cons]
    omega

/-- **In every run the driver is told to start and to stop in turn**, and is told what `is_ap_active` says; the time
that is left is an `int`. -/
theorem switched (addr : Addr) {es : List Event} (h : ∀ e ∈ es, e.Every Fits) :
    (run addr es).apUp = some (run addr es).isApActive ∧ 0 ≤ (run addr es).apActive ∧ (run addr es).apActive < 2 ^ 31 :=
  have hw := steady_run addr h
  ⟨hw.up, hw.low, hw.high⟩

/-- A device that asks again whenever its access point has stopped. -/
def again : Tick where
  sts := .nonet
  addr := 0
  reply
    | .apInactive => .enableAp 1 (ascii "pico") .done
    | _ => .done

def restarted : List Event := .call (.enableAp 1 (ascii "pico") .done) :: List.replicate 121 (.tick again)

theorem every_restarted : ∀ e ∈ restarted, e.Every Fits := by
  intro e he
  have hask : (Calls.enableAp 1 (ascii "pico") .done).Every Fits := ⟨by decide, trivial⟩
  rcases List.mem_cons.1 he with rfl | he
  · exact hask
  · rw [List.eq_of_mem_replicate he]
    intro n
    cases n with
    | apInactive => exact hask
    | _ => trivial

theorem switched_again : (run 0 restarted).apUp = some (run 0 restarted).isApActive ∧
    0 ≤ (run 0 restarted).apActive ∧ (run 0 restarted).apActive < 2 ^ 31 :=
  switched 0 every_restarted

example : (run 0 restarted).acts.filter Act.isAp =
    [.enableAp (ascii "pico"), .disableAp, .enableAp (ascii "pico")] := by decide +kernel

/-- **What is asked for some minutes is up for so many ticks**: from the tick that finds it asked for, if nobody asks
again, the driver has the access point up until the tick that is 120 to the minute behind, whatever it was before, and
whatever the link does. -/
theorem up_for (addr : Addr) {before : List Event} (hb : ∀ e ∈ before, e.Every Fits) {t : Tick}
    (ht : (Event.tick t).Silent) (hasked : 0 < (run addr before).apRequested) {window : List Event}
    (hw : ∀ e ∈ window, e.Silent) :
    (run addr (before ++ .tick t :: window)).apUp =
      some (decide ((readings window).length < (run addr before).apRequested * 60 * 2)) := by
  have hsteady := steady_run addr hb
  obtain ⟨hw1, r, hwas, hactive, hleft⟩ := checkWifi_ap (fun _ hf => hf.elim) ht hsteady
  have hr : r = (run addr before).apRequested := hwas.resolve_right fun hf => hf
  rw [hr, if_pos hasked] at hactive
  rw [hr, if_pos hasked] at hleft
  have hnone : ((run addr before).checkWifi t).apRequested ≤ 0 := by
    rcases hleft with heq | hf
    · exact Int.le_of_eq heq
    · exact hf.elim
  rw [run_append, List.foldl_cons, step, (foldl_steady (fun _ hf => hf.elim) window hw1 hw).up, Web.isApActive,
    foldl_silent hw1 hnone hw, hactive]
  exact congrArg some (decide_eq_decide.2 (by omega))

/-- Nobody asks in `k` ticks of a link that is down. -/
theorem silent_gone (k : Nat) : ∀ e ∈ List.replicate k (.tick gone), Event.Silent e := by
  intro e he
  rw [List.eq_of_mem_replicate he]
  exact fun _ => trivial

/-- A minute is 120 ticks. -/
theorem up_for_minute :
    (run 0 ([.call (.enableAp 1 (ascii "pico") .done)] ++ .tick gone :: List.replicate 119 (.tick gone))).apUp =
      some true ∧
    (run 0 ([.call (.enableAp 1 (ascii "pico") .done)] ++ .tick gone :: List.replicate 120 (.tick gone))).apUp =
      some false := by
  have hup := fun k : Nat => @up_for 0 [.call (.enableAp 1 (ascii "pico") .done)]
    (List.forall_mem_singleton.2 ⟨by decide, trivial⟩) gone (fun _ => trivial) (by decide) _ (silent_gone k)
  simp only [readings_gone, List.length_replicate] at hup
  exact ⟨hup 119, hup 120⟩

end Wifi
end Pico
