import Picolibs.Countdown
import Picolibs.Loop
import Picolibs.Text
/-!
# Wifi — the link watched at every tick (`web.cpp`, `check_wifi`, `connect_to_wifi`, `update_wifi`)

`checkWifi` compares what the driver reports with what it reported last.  A new status or address gives the application
a notice, and a link that is down winds up `reconnect_time_`; each tick counts it down, and at zero the access point is
tried again.  So the count is a `Countdown` over the readings.

The driver's answers and what the notice callback does are data of the event.  The trace has the calls of the driver.
-/
namespace Pico
namespace Wifi

open History (Reach Along)
open Countdown

/-- What `cyw43_tcpip_link_status` reports, by the names of `CYW43_LINK_*`. -/
inductive Link where
  | down
  | join
  | noip
  | up
  | fail
  | nonet
  | badauth
  -- the switches have no default
  | other (sts : Int)
  deriving DecidableEq

/-- The statuses `check_wifi` reconnects from. -/
def Link.offline : Link → Bool
  | .down | .fail | .nonet => true
  | _ => false

abbrev Addr := UInt32

inductive Notice where
  | staInitializing
  | staConnected
  | staDisconnected
  | apActive
  | apInactive
  deriving DecidableEq

structure Creds where
  hostname : Bytes
  ssid : Bytes
  password : Bytes
  deriving DecidableEq

/-- What the notice callback calls before it returns, with the driver's answers; `inner` is what it does where
`update_wifi` gives a notice of its own. -/
inductive Calls where
  | done
  | connectToWifi (creds : Creds) (answer : Int) (rest : Calls)
  | updateWifi (creds : Creds) (answer : Int) (inner rest : Calls)
  | enableAp (minutes : Int) (name : Bytes) (rest : Calls)

/-- Who called `connect_to_wifi`. -/
inductive Caller where
  | app
  | checkWifi
  deriving DecidableEq

inductive Act where
  | notice (n : Notice)
  | leave
  | setHostname (hostname : Bytes)
  | connectAsync (caller : Caller) (ssid password : Bytes) (answer : Int)
  | mdnsRemove
  | mdnsAdd (hostname : Bytes)
  | mdnsAnnounce
  | enableAp (name : Bytes)
  | disableAp
  deriving DecidableEq

/-- A connection attempt that `check_wifi` makes. -/
def Act.isRetry : Act → Bool
  | .connectAsync .checkWifi _ _ _ => true
  | _ => false

structure Web where
  hostname : Bytes := []
  ssid : Bytes := []
  pwd : Bytes := []
  state : Link := .down
  -- the constructor leaves `wifi_addr_` as it finds it
  addr : Addr
  reconnectTime : Nat := 0
  apName : Bytes := []
  apActive : Int := 0
  apRequested : Int := 0
  mdnsActive : Bool := false
  acts : List Act := []

/-- `reconnect_interval_`, in ticks of 500 ms. -/
def reconnectInterval : Nat := 300000 / 500

/-- What a tick reads: the driver's status and the interface's address, what a connection attempt would answer, and
what the notice callback does. -/
structure Tick where
  sts : Link
  addr : Addr
  answer : Int := 0
  reply : Notice → Calls := fun _ => .done

namespace Web

def act (w : Web) (a : Act) : Web := { w with acts := w.acts ++ [a] }

/-- The connection attempts `check_wifi` has made. -/
def retries (w : Web) : Nat := w.acts.countP Act.isRetry

/-- `connect_to_wifi`. -/
def connectToWifi (w : Web) (caller : Caller) (creds : Creds) (answer : Int) : Bool × Web :=
  let w := { w with hostname := creds.hostname }
  let w := if creds.hostname.isEmpty then w else w.act (.setHostname creds.hostname)
  let w := { w with ssid := creds.ssid, pwd := creds.password }
  if creds.ssid.isEmpty then (false, w) else (answer == 0, w.act (.connectAsync caller w.ssid w.pwd answer))

/-- `update_wifi`; `notify` gives a notice. -/
def updateWifi (w : Web) (creds : Creds) (answer : Int) (notify : Notice → Web → Web) : Bool × Web :=
  if creds.hostname ≠ w.hostname ∨ creds.ssid ≠ w.ssid ∨ creds.password ≠ w.pwd then
    (w.act .leave).connectToWifi .app creds answer
  else
    match w.state with
    | .join | .noip => (true, notify .staInitializing w)
    | .up => (true, notify .staConnected w)
    | .down | .fail | .nonet | .badauth => (true, notify .staDisconnected w)
    | .other _ => (true, w)

/-- `enable_ap`. -/
def enableAp (w : Web) (minutes : Int) (name : Bytes) : Web := { w with apRequested := minutes, apName := name }

/-- The notice callback, call by call. -/
def perform : Calls → Web → Web
  | .done, w => w
  | .connectToWifi creds answer rest, w => perform rest (w.connectToWifi .app creds answer).2
  | .updateWifi creds answer inner rest, w =>
    perform rest (w.updateWifi creds answer (fun n w => perform inner (w.act (.notice n)))).2
  | .enableAp minutes name rest, w => perform rest (w.enableAp minutes name)

/-- `send_notice`. -/
def sendNotice (w : Web) (reply : Notice → Calls) (n : Notice) : Web := perform (reply n) (w.act (.notice n))

/-- `check_wifi`, as far as the comparison with the last status and address goes. -/
def checkStatus (w : Web) (t : Tick) : Web :=
  if t.sts ≠ w.state ∨ t.addr ≠ w.addr then
    let w := { w with state := t.sts, addr := t.addr }
    match t.sts with
    | .join | .noip => w.sendNotice t.reply .staInitializing
    | .up =>
      let w := if w.mdnsActive then w.act .mdnsRemove else w
      let w := (w.act (.mdnsAdd w.hostname)).act .mdnsAnnounce
      let w := { w with mdnsActive := true }
      { w.sendNotice t.reply .staConnected with reconnectTime := 0 }
    | .down | .fail | .nonet =>
      { w.sendNotice t.reply .staDisconnected with reconnectTime := reconnectInterval }
    | .badauth => w.sendNotice t.reply .staDisconnected
    | .other _ => w
  else w

/-- `check_wifi`, the switch of the reconnection attempt; what the attempt returns is not looked at. -/
def reconnect (w : Web) (t : Tick) : Web :=
  match w.state with
  | .down | .fail | .nonet =>
    if 0 < w.ssid.length then (w.connectToWifi .checkWifi ⟨w.hostname, w.ssid, w.pwd⟩ t.answer).2 else w
  | _ => w

/-- `check_wifi`, the count down to the reconnection attempt. -/
def checkReconnect (w : Web) (t : Tick) : Web :=
  if 0 < w.reconnectTime then
    let w := { w with reconnectTime := w.reconnectTime - 1 }
    if w.reconnectTime = 0 then w.reconnect t else w
  else w

/-- `start_ap`. -/
def startAp (w : Web) (t : Tick) : Web :=
  let w := if w.apActive = 0 then w.act (.enableAp w.apName) else w
  { w with apActive := w.apRequested * 60 * 2, apRequested := 0 }.sendNotice t.reply .apActive

/-- `stop_ap`. -/
def stopAp (w : Web) (t : Tick) : Web := (w.act .disableAp).sendNotice t.reply .apInactive

/-- `check_wifi`, the access point's time. -/
def countAp (w : Web) (t : Tick) : Web :=
  if 0 < w.apActive then
    let w := { w with apActive := w.apActive - 1 }
    if w.apActive = 0 then w.stopAp t else w
  else w

/-- `check_wifi`, the access point asked for. -/
def checkAp (w : Web) (t : Tick) : Web := if 0 < w.apRequested then w.startAp t else w

/-- `check_wifi`. -/
def checkWifi (w : Web) (t : Tick) : Web := (((w.checkStatus t).checkReconnect t).countAp t).checkAp t

end Web

/-! ## Runs -/

/-- The application's calls and the ticks of the timer. -/
inductive Event where
  | call (c : Calls)
  | tick (t : Tick)

def step (w : Web) : Event → Web
  | .call c => Web.perform c w
  | .tick t => w.checkWifi t

/-- The readings of the ticks. -/
def readings : List Event → List (Link × Addr)
  | [] => []
  | .call _ :: es => readings es
  | .tick t :: es => (t.sts, t.addr) :: readings es

/-- The run of a device, from the address its memory held. -/
def run (addr : Addr) (es : List Event) : Web := es.foldl step { addr := addr }

/-- Offline at one address, with an access point to go back to: at a tick, the status is one of the three. -/
def Offline (addr : Addr) (w : Web) : Event → Prop
  | .call _ => True
  | .tick t => t.sts.offline = true ∧ t.addr = addr ∧ 0 < w.ssid.length

instance (addr : Addr) (w : Web) : (e : Event) → Decidable (Offline addr w e)
  | .call _ => isTrue trivial
  | .tick t => inferInstanceAs (Decidable (t.sts.offline = true ∧ t.addr = addr ∧ 0 < w.ssid.length))

/-! ## What the application's calls leave alone -/

/-- `w'` watches the link as `w` does, and `check_wifi` has not tried to connect in between. -/
structure Keeps (w w' : Web) : Prop where
  state : w'.state = w.state
  addr : w'.addr = w.addr
  time : w'.reconnectTime = w.reconnectTime
  retries : w'.retries = w.retries

theorem Keeps.rfl' {w : Web} : Keeps w w := ⟨rfl, rfl, rfl, rfl⟩

theorem Keeps.trans {w₁ w₂ w₃ : Web} (h : Keeps w₁ w₂) (h' : Keeps w₂ w₃) : Keeps w₁ w₃ :=
  ⟨h'.state.trans h.state, h'.addr.trans h.addr, h'.time.trans h.time, h'.retries.trans h.retries⟩

theorem retries_act (w : Web) (a : Act) : (w.act a).retries = w.retries + if a.isRetry then 1 else 0 := by
  unfold Web.retries Web.act
  rw [List.countP_append, List.countP_singleton]

theorem keeps_act (w : Web) {a : Act} (h : a.isRetry = false) : Keeps w (w.act a) :=
  ⟨rfl, rfl, rfl, by rw [retries_act, h]; rfl⟩

/-- A connection attempt leaves the watch alone; it is a retry where `check_wifi` makes it and there is an access
point. -/
theorem connectToWifi_watch (w : Web) (caller : Caller) (creds : Creds) (answer : Int) :
    (w.connectToWifi caller creds answer).2.state = w.state ∧ (w.connectToWifi caller creds answer).2.addr = w.addr ∧
    (w.connectToWifi caller creds answer).2.reconnectTime = w.reconnectTime ∧
    (w.connectToWifi caller creds answer).2.retries =
      w.retries + if caller = .checkWifi ∧ 0 < creds.ssid.length then 1 else 0 := by
  have hpos : creds.ssid.isEmpty = false ↔ 0 < creds.ssid.length := by
    cases creds.ssid <;> simp
  have hretry : ∀ ssid pwd, (Act.connectAsync caller ssid pwd answer).isRetry = decide (caller = .checkWifi) := by
    intro ssid pwd
    cases caller <;> rfl
  unfold Web.connectToWifi
  by_cases hs : creds.ssid.isEmpty = true
  · have hn : ¬ (caller = .checkWifi ∧ 0 < creds.ssid.length) := by
      rintro ⟨-, h⟩
      rw [hpos.2 h] at hs
      cases hs
    rw [if_pos hs, if_neg hn]
    split
    · exact ⟨rfl, rfl, rfl, rfl⟩
    · exact ⟨rfl, rfl, rfl, retries_act _ _⟩
  · have hlen : 0 < creds.ssid.length := hpos.1 (by simpa using hs)
    rw [if_neg hs]
    split
    · refine ⟨rfl, rfl, rfl, ?_⟩
      rw [retries_act, hretry]
      simp [hlen, Web.retries]
    · refine ⟨rfl, rfl, rfl, ?_⟩
      rw [retries_act, hretry]
      simp [hlen, Web.retries, Web.act, Act.isRetry]

theorem keeps_connectToWifi (w : Web) (creds : Creds) (answer : Int) :
    Keeps w (w.connectToWifi .app creds answer).2 := by
  obtain ⟨hs, ha, ht, hr⟩ := connectToWifi_watch w .app creds answer
  exact ⟨hs, ha, ht, by rw [hr]; simp⟩

theorem keeps_updateWifi (w : Web) (creds : Creds) (answer : Int) {notify : Notice → Web → Web}
    (hn : ∀ n w, Keeps w (notify n w)) : Keeps w (w.updateWifi creds answer notify).2 := by
  unfold Web.updateWifi
  split
  · exact (keeps_act w rfl).trans (keeps_connectToWifi _ creds answer)
  · split
    all_goals first | exact hn _ w | exact Keeps.rfl'

theorem keeps_perform : ∀ (c : Calls) (w : Web), Keeps w (Web.perform c w)
  | .done, _ => Keeps.rfl'
  | .connectToWifi creds answer rest, w =>
    (keeps_connectToWifi w creds answer).trans (keeps_perform rest _)
  | .updateWifi creds answer inner rest, w =>
    (keeps_updateWifi w creds answer fun _ _ => (keeps_act _ rfl).trans (keeps_perform inner _)).trans
      (keeps_perform rest _)
  | .enableAp minutes name rest, w =>
    have h : Keeps w (w.enableAp minutes name) := ⟨rfl, rfl, rfl, rfl⟩
    h.trans (keeps_perform rest _)

theorem keeps_sendNotice (w : Web) (reply : Notice → Calls) (n : Notice) : Keeps w (w.sendNotice reply n) :=
  (keeps_act w rfl).trans (keeps_perform _ _)

theorem keeps_startAp (w : Web) (t : Tick) : Keeps w (w.startAp t) := by
  have hmode : Keeps w (if w.apActive = 0 then w.act (.enableAp w.apName) else w) := by
    split
    · exact keeps_act w rfl
    · exact Keeps.rfl'
  unfold Web.startAp
  refine Keeps.trans ?_ (keeps_sendNotice _ _ _)
  exact ⟨hmode.state, hmode.addr, hmode.time, hmode.retries⟩

theorem keeps_countAp (w : Web) (t : Tick) : Keeps w (w.countAp t) := by
  unfold Web.countAp
  split
  · dsimp only
    split
    · refine Keeps.trans ?_ ((keeps_act _ rfl).trans (keeps_sendNotice _ _ _))
      exact ⟨rfl, rfl, rfl, rfl⟩
    · exact ⟨rfl, rfl, rfl, rfl⟩
  · exact Keeps.rfl'

theorem keeps_checkAp (w : Web) (t : Tick) : Keeps w (w.checkAp t) := by
  unfold Web.checkAp
  split
  · exact keeps_startAp w t
  · exact Keeps.rfl'

/-! ## One tick -/

/-- Nothing is new: the comparison changes nothing. -/
theorem checkStatus_same {w : Web} {t : Tick} (h : (t.sts, t.addr) = (w.state, w.addr)) : w.checkStatus t = w := by
  obtain ⟨hs, ha⟩ := Prod.mk.inj h
  unfold Web.checkStatus
  rw [if_neg (by rw [hs, ha]; simp)]

/-- A new reading of a link that is down: it is noted, and the timer is wound up. -/
theorem checkStatus_new {w : Web} {t : Tick} (ht : t.sts.offline = true) (h : (t.sts, t.addr) ≠ (w.state, w.addr)) :
    Keeps { w with state := t.sts, addr := t.addr, reconnectTime := reconnectInterval } (w.checkStatus t) := by
  have hne : t.sts ≠ w.state ∨ t.addr ≠ w.addr := by
    by_contra hc
    push Not at hc
    exact h (by rw [hc.1, hc.2])
  have hk := keeps_sendNotice { w with state := t.sts, addr := t.addr } t.reply .staDisconnected
  unfold Web.checkStatus
  rw [if_pos hne]
  cases hs : t.sts with
  | down | fail | nonet =>
    rw [hs] at hk
    exact ⟨hk.state, hk.addr, rfl, hk.retries⟩
  | join | noip | up | badauth | other n =>
    rw [hs] at ht
    cases ht

/-- The attempt leaves the watch alone, and is one where the link is down and there is an access point. -/
theorem reconnect_watch (w : Web) (t : Tick) :
    (w.reconnect t).state = w.state ∧ (w.reconnect t).addr = w.addr ∧
    (w.reconnect t).reconnectTime = w.reconnectTime ∧
    (w.reconnect t).retries = w.retries + if w.state.offline = true ∧ 0 < w.ssid.length then 1 else 0 := by
  obtain ⟨hs, ha, ht, hr⟩ := connectToWifi_watch w .checkWifi ⟨w.hostname, w.ssid, w.pwd⟩ t.answer
  unfold Web.reconnect
  by_cases hlen : 0 < w.ssid.length
  · rw [if_pos hlen]
    rw [if_pos ⟨rfl, hlen⟩] at hr
    split <;> rename_i hst <;> simp_all [Link.offline]
  · rw [if_neg hlen]
    split <;> simp [hlen]

theorem checkReconnect_watch (w : Web) (t : Tick) :
    (w.checkReconnect t).state = w.state ∧ (w.checkReconnect t).addr = w.addr ∧
    (w.checkReconnect t).reconnectTime = w.reconnectTime - 1 ∧
    (w.checkReconnect t).retries =
      w.retries + if w.reconnectTime = 1 ∧ w.state.offline = true ∧ 0 < w.ssid.length then 1 else 0 := by
  unfold Web.checkReconnect
  by_cases hpos : 0 < w.reconnectTime
  · rw [if_pos hpos]
    dsimp only
    by_cases h1 : w.reconnectTime = 1
    · obtain ⟨hs, ha, ht, hr⟩ := reconnect_watch { w with reconnectTime := w.reconnectTime - 1 } t
      rw [if_pos (by omega)]
      refine ⟨hs, ha, ht, hr.trans ?_⟩
      simp [h1, Web.retries]
    · rw [if_neg (by omega), if_neg (fun h => h1 h.1)]
      exact ⟨rfl, rfl, rfl, rfl⟩
  · rw [if_neg hpos, if_neg (fun h => hpos (by omega))]
    exact ⟨rfl, rfl, by omega, rfl⟩

/-- **A tick of a link that is down** takes one step of the countdown, and retries where it expires. -/
theorem checkWifi_offline {w : Web} {t : Tick} (ht : t.sts.offline = true) (hssid : 0 < w.ssid.length) :
    (w.checkWifi t).state = t.sts ∧ (w.checkWifi t).addr = t.addr ∧
    (w.checkWifi t).reconnectTime =
      armed reconnectInterval (w.state, w.addr) w.reconnectTime (t.sts, t.addr) - 1 ∧
    (w.checkWifi t).retries =
      w.retries + if armed reconnectInterval (w.state, w.addr) w.reconnectTime (t.sts, t.addr) = 1 then 1 else 0 := by
  have hap : Keeps ((w.checkStatus t).checkReconnect t) (w.checkWifi t) :=
    (keeps_countAp _ t).trans (keeps_checkAp _ t)
  obtain ⟨hs, ha, htime, hr⟩ := checkReconnect_watch (w.checkStatus t) t
  by_cases h : (t.sts, t.addr) = (w.state, w.addr)
  · have hst : w.state.offline = true := by rwa [← (Prod.mk.inj h).1]
    rw [checkStatus_same h] at hap hs ha htime hr
    rw [h, armed_same]
    refine ⟨?_, ?_, hap.time.trans htime, hap.retries.trans (hr.trans ?_)⟩
    · rw [hap.state, hs, (Prod.mk.inj h).1]
    · rw [hap.addr, ha, (Prod.mk.inj h).2]
    · simp [hst, hssid]
  · have hk := checkStatus_new ht h
    rw [armed_new _ _ h]
    refine ⟨?_, ?_, ?_, ?_⟩
    · rw [hap.state, hs, hk.state]
    · rw [hap.addr, ha, hk.addr]
    · rw [hap.time, htime, hk.time]
    · rw [hap.retries, hr, hk.time, hk.retries]
      simp [reconnectInterval, Web.retries]

/-! ## A window of ticks -/

theorem run_append (addr : Addr) (es es' : List Event) : run addr (es ++ es') = es'.foldl step (run addr es) :=
  List.foldl_append

/-- **The retries of a window** are the expiries of the countdown over its readings. -/
theorem retries_window {addr : Addr} : ∀ (es : List Event) (w : Web), Along step (Offline addr) w es →
    (es.foldl step w).retries =
      w.retries + expiries reconnectInterval (w.state, w.addr) w.reconnectTime (readings es)
  | [], _, _ => rfl
  | .call c :: es, w, h => by
    have hk : Keeps w (step w (.call c)) := keeps_perform c w
    rw [List.foldl_cons, retries_window es _ h.2, hk.state, hk.addr, hk.time, hk.retries]
    rfl
  | .tick t :: es, w, h => by
    obtain ⟨⟨ht, -, hssid⟩, hrest⟩ := h
    obtain ⟨hs, ha, htime, hr⟩ := checkWifi_offline (w := w) ht hssid
    rw [List.foldl_cons, retries_window es _ hrest]
    show (w.checkWifi t).retries + expiries reconnectInterval ((w.checkWifi t).state, (w.checkWifi t).addr)
      (w.checkWifi t).reconnectTime (readings es) = _
    rw [hs, ha, htime, hr, readings, expiries, Nat.add_assoc]

/-! ## One reading all along -/

theorem checkStatus_time {w : Web} (h : w.reconnectTime ≤ reconnectInterval) (t : Tick) :
    (w.checkStatus t).reconnectTime ≤ reconnectInterval := by
  have hn : ∀ n, ({ w with state := t.sts, addr := t.addr }.sendNotice t.reply n).reconnectTime ≤ reconnectInterval :=
    fun n => le_of_eq_of_le (keeps_sendNotice _ t.reply n).time h
  unfold Web.checkStatus
  split
  · dsimp only
    split
    · exact hn _
    · exact hn _
    · exact Nat.zero_le _
    · exact Nat.le_refl _
    · exact Nat.le_refl _
    · exact Nat.le_refl _
    · exact hn _
    · exact h
  · exact h

theorem step_time {w : Web} (h : w.reconnectTime ≤ reconnectInterval) : ∀ e : Event,
    (step w e).reconnectTime ≤ reconnectInterval
  | .call c => le_of_eq_of_le (keeps_perform c w).time h
  | .tick t => by
    have hc := (checkReconnect_watch (w.checkStatus t) t).2.2.1
    have hle := checkStatus_time h t
    have hap := ((keeps_countAp ((w.checkStatus t).checkReconnect t) t).trans (keeps_checkAp _ t)).time
    show (w.checkWifi t).reconnectTime ≤ _
    unfold Web.checkWifi
    omega

theorem foldl_time : ∀ (es : List Event) {w : Web}, w.reconnectTime ≤ reconnectInterval →
    (es.foldl step w).reconnectTime ≤ reconnectInterval
  | [], _, h => h
  | e :: es, _, h => foldl_time es (step_time h e)

/-- The timer never has more than the interval left. -/
theorem reconnectTime_le (addr : Addr) (es : List Event) : (run addr es).reconnectTime ≤ reconnectInterval :=
  foldl_time es (Nat.zero_le _)

/-- **One status at one address for the whole interval**: there is an attempt exactly if the status or the address is
new, or the timer still runs. -/
theorem retried_steady_iff (addr₀ addr : Addr) (sts : Link) (before window : List Event) {k : Nat}
    (h : Along step (Offline addr) (run addr₀ before) window) (hk : reconnectInterval ≤ k)
    (hw : readings window = List.replicate k (sts, addr)) :
    (run addr₀ before).retries < (run addr₀ (before ++ window)).retries ↔
      (sts, addr) ≠ ((run addr₀ before).state, (run addr₀ before).addr) ∨ 0 < (run addr₀ before).reconnectTime := by
  have hle := reconnectTime_le addr₀ before
  rw [run_append, retries_window window _ h, hw]
  by_cases hnew : (sts, addr) = ((run addr₀ before).state, (run addr₀ before).addr)
  · rw [← hnew, expiries_replicate]
    simp only [ne_eq, not_true_eq_false, false_or]
    split <;> omega
  · rw [expiries_replicate_new (by decide) hk hnew]
    simp [hnew]

/-! ## The network that stays away -/

/-- The access point goes away, for good. -/
def gone : Tick := { sts := .nonet, addr := 0 }

/-- The device is told its access point, and is at once out of its reach for `k` ticks. -/
def lost (k : Nat) : List Event :=
  .call (.connectToWifi ⟨ascii "pico", ascii "home", ascii "secret"⟩ 0 .done) :: List.replicate k (.tick gone)

theorem checkStatus_ssid (w : Web) : (w.checkStatus gone).ssid = w.ssid := by
  unfold Web.checkStatus
  split <;> rfl

theorem connectToWifi_ssid (w : Web) (caller : Caller) (creds : Creds) (answer : Int) :
    (w.connectToWifi caller creds answer).2.ssid = creds.ssid := by
  unfold Web.connectToWifi
  dsimp only
  split <;> rfl

theorem checkReconnect_ssid (w : Web) (t : Tick) : (w.checkReconnect t).ssid = w.ssid := by
  have hr : ∀ w : Web, (w.reconnect t).ssid = w.ssid := by
    intro w
    unfold Web.reconnect
    split
    all_goals first | rfl | (split; exact connectToWifi_ssid w _ _ _; rfl)
  unfold Web.checkReconnect
  split
  · dsimp only
    split
    · exact hr _
    · rfl
  · rfl

theorem checkAp_ssid (w : Web) : ((w.countAp gone).checkAp gone).ssid = w.ssid := by
  have hc : (w.countAp gone).ssid = w.ssid := by
    unfold Web.countAp
    split
    · dsimp only
      split <;> rfl
    · rfl
  rw [← hc]
  unfold Web.checkAp Web.startAp
  split
  · dsimp only
    split <;> rfl
  · rfl

theorem step_gone_ssid (w : Web) : (step w (.tick gone)).ssid = w.ssid := by
  show (w.checkWifi gone).ssid = w.ssid
  rw [Web.checkWifi, checkAp_ssid, checkReconnect_ssid, checkStatus_ssid]

theorem along_gone : ∀ (k : Nat) (w : Web), 0 < w.ssid.length →
    Along step (Offline 0) w (List.replicate k (.tick gone))
  | 0, _, _ => trivial
  | k + 1, w, h => ⟨⟨rfl, rfl, h⟩, along_gone k _ (by rw [step_gone_ssid]; exact h)⟩

theorem readings_gone : ∀ k : Nat, readings (List.replicate k (.tick gone)) = List.replicate k (.nonet, 0)
  | 0 => rfl
  | k + 1 => by rw [List.replicate_succ, readings, readings_gone k]; rfl

theorem foldl_gone_ssid : ∀ (k : Nat) (w : Web), ((List.replicate k (.tick gone)).foldl step w).ssid = w.ssid
  | 0, _ => rfl
  | k + 1, w => by rw [List.replicate_succ, List.foldl_cons, foldl_gone_ssid k, step_gone_ssid]

theorem lost_ssid (k : Nat) : (run 0 (lost k)).ssid = ascii "home" := foldl_gone_ssid k (run 0 (lost 0))

theorem lost_append (k m : Nat) : lost k ++ List.replicate m (.tick gone) = lost (k + m) := by
  rw [lost, List.cons_append, List.replicate_append_replicate]
  rfl

/-- The device tries once. -/
theorem retries_lost {k : Nat} (hk : reconnectInterval ≤ k) : (run 0 (lost k)).retries = 1 := by
  show ((List.replicate k (.tick gone)).foldl step (run 0 (lost 0))).retries = 1
  rw [retries_window _ _ (along_gone k _ (by decide)), readings_gone, expiries_replicate_new (by decide) hk (by decide)]
  rfl

/-! ## When it tries again -/

/-- **When an unattended device tries again**: over a window of ticks at which the link is down, `check_wifi` makes an
attempt exactly where the time that was left runs out on the reading it was wound up for, or where a reading differs
from the one before it and stays for the whole interval. -/
theorem retried_iff (addr₀ addr : Addr) (before window : List Event)
    (h : Along step (Offline addr) (run addr₀ before) window) :
    (run addr₀ before).retries < (run addr₀ (before ++ window)).retries ↔
      RunsOut ((run addr₀ before).state, (run addr₀ before).addr) (run addr₀ before).reconnectTime (readings window) ∨
      ChangesAndStays reconnectInterval ((run addr₀ before).state, (run addr₀ before).addr) (readings window) := by
  rw [run_append, retries_window window _ h, ← expiries_pos_iff (by decide)]
  omega

/-- The first attempt: the network is new to the device when it goes. -/
theorem retried_iff_lost :
    (run 0 (lost 0)).retries < (run 0 (lost 0 ++ List.replicate 1200 (.tick gone))).retries := by
  refine (retried_iff 0 0 (lost 0) (List.replicate 1200 (.tick gone)) (along_gone 1200 _ (by decide))).2 (Or.inr ?_)
  rw [readings_gone]
  refine ⟨[], (.nonet, 0), List.replicate 1199 (.nonet, 0), rfl, by decide, ?_, fun x hx => ?_⟩
  · rw [List.length_replicate]
    decide
  · exact List.eq_of_mem_replicate (List.mem_of_mem_take hx)

/-- **The attempt that failed without a sign is the last**: after it, twice the interval passes without another. -/
theorem attempt_not_repeated :
    Along step (Offline 0) (run 0 (lost 600)) (List.replicate 1200 (.tick gone)) ∧
    readings (List.replicate 1200 (.tick gone)) = List.replicate 1200 (.nonet, 0) ∧
    (run 0 (lost 600)).retries = 1 ∧ (run 0 (lost 600 ++ List.replicate 1200 (.tick gone))).retries = 1 := by
  refine ⟨along_gone 1200 _ ?_, readings_gone 1200, retries_lost (Nat.le_refl 600), ?_⟩
  · rw [lost_ssid]
    decide
  · rw [lost_append]
    exact retries_lost (by decide)

end Wifi
end Pico
