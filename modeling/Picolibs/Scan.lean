import Mathlib.Data.List.Count
import Std.Data.ExtTreeMap
import Picolibs.Loop
import Picolibs.Text
/-!
# Scan — waiting for the driver's scan (`web.cpp`, `scan_wifi` to `timer_callback`)

`scans_` is the list of waiting requests.  `scanWifi` starts the driver's scan where it is not active and then clears
the list; `checkScanFinished`, at every tick, calls the callbacks of all that wait once the scan is over.  The list is
a vector and the tick goes through it with an iterator: a callback that clears it leaves the iterator dangling.

The trace has the requests in the order they were made, each under its number, the ticks with what the driver said, and
the calls of callbacks.
-/
namespace Pico
namespace Scan

open Std (ExtTreeMap)
open History (Reach)

/-- `WiFiScanData`. -/
abbrev Ssids := ExtTreeMap Bytes Int compare

/-- The arguments of `scan_wifi`; a callback is null or the number of a function. -/
structure Args where
  client : UInt32
  callback : Option Nat
  userData : Nat
  deriving DecidableEq

/-- `ScanRqst`, with the number of the request. -/
structure ScanRqst where
  id : Nat
  args : Args
  deriving DecidableEq

/-- Whether `cyw43_wifi_scan` starts a scan, and the calls of `scan_wifi` that a callback makes, each at the moment it
is asked. -/
structure World where
  scan : Nat → Bool := fun _ => true
  callback : Nat → Nat → UInt32 → Ssids → Nat → List Args := fun _ _ _ _ _ => []

inductive Obs where
  | request (id : Nat) (cb : Bool)
  | tick (active : Bool)
  | call (id : Nat)
  deriving DecidableEq

structure Web where
  scans : List ScanRqst := []
  ssids : Ssids := ∅
  active : Bool := false
  -- `check_scan_finished` stands at a place in the list
  iterating : Bool := false
  tick : Nat := 0
  serial : Nat := 0
  trace : List Obs := []
  fault : Option Fault := none

variable (W : World)

namespace Web

def record (w : Web) (o : Obs) : Web := { w with trace := w.trace ++ [o] }

/-- A change of `scans_`: under the iterator of `check_scan_finished` it is undefined what follows. -/
def setScans (w : Web) (scans : List ScanRqst) : Web :=
  if w.iterating then { w with fault := some .dangling } else { w with scans := scans }

/-- `scan_wifi`. -/
def scanWifi (w : Web) (args : Args) : Web :=
  let rqst : ScanRqst := { id := w.serial, args := args }
  let w := { w.record (.request w.serial args.callback.isSome) with serial := w.serial + 1 }
  let w := if w.active then w else { w with active := W.scan w.tick, tick := w.tick + 1 }.setScans []
  w.setScans (w.scans ++ [rqst])

/-- The calls of a callback, while they return. -/
def scanAll : List Args → Web → Web
  | [], w => w
  | a :: rest, w => if w.fault.isSome then w else scanAll rest (w.scanWifi W a)

/-- The loop of `check_scan_finished`. -/
def report : List ScanRqst → Web → Web
  | [], w => w
  | r :: rest, w =>
    if w.fault.isSome then w
    else
      match r.args.callback with
      | none => report rest w
      | some f =>
        let calls := W.callback w.tick f r.args.client w.ssids r.args.userData
        report rest (scanAll W calls { w.record (.call r.id) with tick := w.tick + 1 })

/-- `check_scan_finished`. -/
def checkScanFinished (w : Web) : Web :=
  if 0 < w.scans.length then
    if !w.active then
      let w := report W w.scans { w with iterating := true }
      if w.fault.isSome then w else { w with iterating := false, ssids := ∅, scans := [] }
    else w
  else w

/-- `timer_callback`, as far as scans go. -/
def timerCallback (w : Web) : Web := (w.record (.tick w.active)).checkScanFinished W

/-- `scan_cb`. -/
def scanCb (w : Web) (rslt : Option (Bytes × Int)) : Web :=
  match rslt with
  | some (ssid, rssi) => { w with ssids := w.ssids.insert ssid rssi }
  | none => w

end Web

/-! ## Runs -/

inductive Event where
  | request (args : Args)
  | result (rslt : Option (Bytes × Int))
  -- the driver's scan is over
  | complete
  | tick

def step (w : Web) (e : Event) : Web :=
  if w.fault.isSome then w
  else
    match e with
    | .request args => w.scanWifi W args
    | .result rslt => w.scanCb rslt
    | .complete => { w with active := false }
    | .tick => w.timerCallback W

/-- The ticks in a row, since the last request, that found the driver's scan not active. -/
def quietAfter (n : Nat) : Obs → Nat
  | .request _ _ => 0
  | .tick true => 0
  | .tick false => n + 1
  | .call _ => n

def quiet (trace : List Obs) : Nat := trace.foldl quietAfter 0

@[simp] theorem quiet_nil : quiet [] = 0 := rfl

@[simp] theorem quiet_snoc (l : List Obs) (o : Obs) : quiet (l ++ [o]) = quietAfter (quiet l) o := by
  rw [quiet, List.foldl_append]
  rfl

/-- No request is reported twice, and with the second quiet tick in a row every one with a callback is reported; and
the list was never changed under the iterator. -/
structure Reported (w : Web) : Prop where
  steady : w.fault = none
  once : ∀ id, w.trace.count (.call id) ≤ 1
  all : 2 ≤ quiet w.trace → ∀ id, Obs.request id true ∈ w.trace → w.trace.count (.call id) = 1

/-! ## What a run must not do -/

/-- Some callback of the waiting requests calls `scan_wifi`, the first of them called at the moment `n`. -/
def rescans (ssids : Ssids) : List ScanRqst → Nat → Bool
  | [], _ => false
  | r :: rest, n =>
    match r.args.callback with
    | none => rescans ssids rest n
    | some f => !(W.callback n f r.args.client ssids r.args.userData).isEmpty || rescans ssids rest (n + 1)

def isWaiting (r : ScanRqst) : Bool := r.args.callback.isSome

/-- A request finds the scan active or nobody waiting for a call, and a tick that reports calls nobody who makes a new
request. -/
def Fine (w : Web) : Event → Prop
  | .request _ => w.active = true ∨ w.scans.any isWaiting = false
  | .tick => w.active = true ∨ rescans W w.ssids w.scans w.tick = false
  | _ => True

instance decidableFine (w : Web) : ∀ e, Decidable (Fine W w e)
  | .request _ => inferInstanceAs (Decidable (w.active = true ∨ w.scans.any isWaiting = false))
  | .tick => inferInstanceAs (Decidable (w.active = true ∨ rescans W w.ssids w.scans w.tick = false))
  | .result _ => isTrue trivial
  | .complete => isTrue trivial

/-! ## The invariant -/

/-- The numbers of those that wait for a call. -/
def waitingIds (scans : List ScanRqst) : List Nat := (scans.filter isWaiting).map ScanRqst.id

structure Good (w : Web) : Prop where
  steady : w.fault = none
  still : w.iterating = false
  -- a request with a callback waits or was called, never both
  due : ∀ id, w.trace.count (.call id) + (waitingIds w.scans).count id = w.trace.count (.request id true)
  distinct : ∀ id, w.trace.count (.request id true) ≤ 1
  fresh : ∀ id, w.serial ≤ id → w.trace.count (.request id true) = 0
  idle : 1 ≤ quiet w.trace → w.scans = []

theorem good_init : Good {} :=
  ⟨rfl, rfl, fun _ => rfl, fun _ => Nat.zero_le 1, fun _ _ => rfl, fun _ => rfl⟩

variable {W} {w : Web}

theorem Good.reported (g : Good w) : Reported w := by
  refine ⟨g.steady, fun id => ?_, fun hq id hid => ?_⟩
  · have := g.due id
    have := g.distinct id
    omega
  · have hdue := g.due id
    have hone := g.distinct id
    have hpos := List.count_pos_iff.2 hid
    rw [g.idle (by omega)] at hdue
    have hnil : (waitingIds []).count id = 0 := rfl
    omega

theorem waitingIds_append (l m : List ScanRqst) : waitingIds (l ++ m) = waitingIds l ++ waitingIds m := by
  rw [waitingIds, List.filter_append, List.map_append, waitingIds, waitingIds]

theorem waitingIds_of_not {scans : List ScanRqst} (h : scans.any isWaiting = false) : waitingIds scans = [] := by
  have hnil : scans.filter isWaiting = [] := by
    rw [List.filter_eq_nil_iff]
    intro r hr hw
    rw [List.any_eq_false] at h
    exact h r hr hw
  rw [waitingIds, hnil, List.map_nil]

/-! ## A request -/

/-- What `scan_wifi` does outside the iteration. -/
theorem scanWifi_eq (hi : w.iterating = false) (args : Args) :
    w.scanWifi W args = { w with
      trace := w.trace ++ [.request w.serial args.callback.isSome]
      serial := w.serial + 1
      active := if w.active then true else W.scan w.tick
      tick := if w.active then w.tick else w.tick + 1
      scans := (if w.active then w.scans else []) ++ [{ id := w.serial, args := args }] } := by
  unfold Web.scanWifi Web.setScans
  cases ha : w.active <;> simp [Web.record, hi, ha]

theorem count_request_ne (id n : Nat) (b : Bool) (h : id ≠ n) : [Obs.request n b].count (.request id true) = 0 := by
  rw [List.count_eq_zero]
  simp only [List.mem_singleton, Obs.request.injEq, not_and]
  intro e
  exact absurd e h

theorem waitingIds_new (n : Nat) (args : Args) (id : Nat) :
    (waitingIds [{ id := n, args := args }]).count id =
      [Obs.request n args.callback.isSome].count (.request id true) := by
  unfold waitingIds isWaiting
  by_cases hid : id = n
  · subst hid
    cases hcb : args.callback <;> simp [hcb]
  · rw [count_request_ne id n _ hid]
    cases hcb : args.callback with
    | none => simp [hcb]
    | some f => simp [hcb, Ne.symm hid]

theorem Good.request (g : Good w) {args : Args} (h : w.active = true ∨ w.scans.any isWaiting = false) :
    Good (w.scanWifi W args) := by
  have hkeep : waitingIds (if w.active then w.scans else []) = waitingIds w.scans := by
    rcases h with ha | hn
    · rw [ha, if_pos rfl]
    · split
      · rfl
      · rw [waitingIds_of_not hn]
        rfl
  rw [scanWifi_eq g.still]
  refine ⟨g.steady, g.still, fun id => ?_, fun id => ?_, fun id hid => ?_, fun hq => ?_⟩
  · have hcall : [Obs.request w.serial args.callback.isSome].count (.call id) = 0 := rfl
    simp only [waitingIds_append, List.count_append, hkeep, waitingIds_new, hcall, ← g.due id]
    omega
  · have hle := g.distinct id
    simp only [List.count_append]
    by_cases hid : id = w.serial
    · rw [hid, g.fresh w.serial (Nat.le_refl _), Nat.zero_add]
      exact List.count_le_length
    · rw [count_request_ne id _ _ hid]
      exact hle
  · have hlt : w.serial + 1 ≤ id := hid
    simp only [List.count_append]
    rw [g.fresh id (by omega), count_request_ne id _ _ (by omega)]
  · simp only [quiet_snoc, quietAfter] at hq
    omega

/-! ## A tick -/

theorem waitingIds_cons_none {r : ScanRqst} (h : r.args.callback = none) (l : List ScanRqst) :
    waitingIds (r :: l) = waitingIds l := by
  unfold waitingIds isWaiting
  simp [h]

theorem waitingIds_cons_some {r : ScanRqst} {f : Nat} (h : r.args.callback = some f) (l : List ScanRqst) :
    waitingIds (r :: l) = r.id :: waitingIds l := by
  unfold waitingIds isWaiting
  simp [h]

/-- Callbacks that make no request are called, one after another, and that is all. -/
theorem report_eq : ∀ (l : List ScanRqst) {w : Web}, w.fault = none → rescans W w.ssids l w.tick = false →
    Web.report W l w = { w with
      trace := w.trace ++ (waitingIds l).map Obs.call
      tick := w.tick + (waitingIds l).length }
  | [], w, _, _ => by
    rw [Web.report]
    simp [waitingIds]
  | r :: l, w, hf, h => by
    rw [Web.report, if_neg (by rw [hf]; exact Bool.false_ne_true)]
    rw [rescans] at h
    cases hcb : r.args.callback with
    | none =>
      simp only [hcb] at h ⊢
      rw [report_eq l hf h, waitingIds_cons_none hcb]
    | some f =>
      simp only [hcb, Bool.or_eq_false_iff, Bool.not_eq_false', List.isEmpty_iff] at h ⊢
      rw [h.1, Web.scanAll, report_eq l (w := { w.record (.call r.id) with tick := w.tick + 1 }) hf h.2,
        waitingIds_cons_some hcb]
      simp only [Web.record, List.map_cons, List.append_assoc, List.singleton_append, List.length_cons]
      congr 1
      omega

theorem report_of_fault {w : Web} (hf : w.fault.isSome = true) (l : List ScanRqst) : Web.report W l w = w := by
  cases l with
  | nil => rfl
  | cons r l => rw [Web.report, if_pos hf]

/-- The first request under the iterator leaves it dangling. -/
theorem scanAll_fault {w : Web} (hf : w.fault = none) (hi : w.iterating = true) {calls : List Args} (h : calls ≠ []) :
    (Web.scanAll W calls w).fault.isSome = true := by
  cases calls with
  | nil => exact absurd rfl h
  | cons a rest =>
    have hone : (w.scanWifi W a).fault.isSome = true := by
      unfold Web.scanWifi Web.setScans
      cases ha : w.active <;> simp [Web.record, hi, ha]
    rw [Web.scanAll, hf]
    simp only [Option.isSome_none, Bool.false_eq_true, if_false]
    cases rest with
    | nil => exact hone
    | cons b rest => rw [Web.scanAll, if_pos hone, hone]

theorem report_fault : ∀ (l : List ScanRqst) {w : Web}, w.fault = none → w.iterating = true →
    rescans W w.ssids l w.tick = true → (Web.report W l w).fault.isSome = true
  | [], _, _, _, h => nomatch h
  | r :: l, w, hf, hi, h => by
    rw [Web.report, if_neg (by rw [hf]; exact Bool.false_ne_true)]
    rw [rescans] at h
    cases hcb : r.args.callback with
    | none =>
      simp only [hcb] at h ⊢
      exact report_fault l hf hi h
    | some f =>
      simp only [hcb] at h ⊢
      by_cases hnil : W.callback w.tick f r.args.client w.ssids r.args.userData = []
      · rw [hnil, List.isEmpty_nil, Bool.not_true, Bool.false_or] at h
        rw [hnil, Web.scanAll]
        exact report_fault l (w := { w.record (.call r.id) with tick := w.tick + 1 }) hf hi h
      · have hs : (Web.scanAll W (W.callback w.tick f r.args.client w.ssids r.args.userData)
            { w.record (.call r.id) with tick := w.tick + 1 }).fault.isSome = true :=
          scanAll_fault (w := { w.record (.call r.id) with tick := w.tick + 1 }) hf hi hnil
        rw [report_of_fault hs, hs]

theorem count_calls (id : Nat) (ids : List Nat) : (ids.map Obs.call).count (.call id) = ids.count id :=
  List.count_map_of_injective ids Obs.call (fun _ _ h => Obs.call.inj h) id

theorem count_requests_calls (id : Nat) (ids : List Nat) : (ids.map Obs.call).count (.request id true) = 0 := by
  rw [List.count_eq_zero]
  intro h
  obtain ⟨n, -, hn⟩ := List.mem_map.1 h
  cases hn

theorem quiet_calls (l : List Obs) : ∀ ids : List Nat, quiet (l ++ ids.map Obs.call) = quiet l
  | [] => by rw [List.map_nil, List.append_nil]
  | id :: ids => by
    have ih := quiet_calls (l ++ [.call id]) ids
    rw [quiet_snoc, List.append_assoc] at ih
    exact ih

/-- What the check does once the scan is over: all that wait are called, and nobody waits any more. -/
theorem checkScanFinished_eq (hf : w.fault = none) (hi : w.iterating = false) (ha : w.active = false)
    (h : rescans W w.ssids w.scans w.tick = false) :
    w.checkScanFinished W = { w with
      trace := w.trace ++ (waitingIds w.scans).map Obs.call
      tick := w.tick + (waitingIds w.scans).length
      ssids := if w.scans = [] then w.ssids else ∅
      scans := [] } := by
  have hrep := report_eq (W := W) w.scans (w := { w with iterating := true }) hf h
  obtain ⟨scans, ssids, active, iterating, tick, serial, trace, fault⟩ := w
  cases hf
  cases hi
  cases ha
  unfold Web.checkScanFinished
  cases scans with
  | nil => simp [waitingIds]
  | cons r l =>
    have hpos : 0 < (r :: l).length := Nat.succ_pos _
    dsimp only at hrep ⊢
    rw [if_pos hpos]
    simp only [hrep, Bool.not_false, if_true, Option.isSome_none, Bool.false_eq_true, if_false, reduceCtorEq]

/-- What a tick does when nobody who is called makes a request: it reports to all that wait once the scan is over. -/
theorem timerCallback_eq (g : Good w) (h : w.active = true ∨ rescans W w.ssids w.scans w.tick = false) :
    ∃ n ssids, w.timerCallback W = { w with
      trace := w.trace ++ [.tick w.active] ++ (if w.active then [] else waitingIds w.scans).map Obs.call
      tick := n
      ssids := ssids
      scans := if w.active then w.scans else [] } := by
  cases ha : w.active with
  | true =>
    refine ⟨w.tick, w.ssids, ?_⟩
    unfold Web.timerCallback Web.checkScanFinished
    simp [Web.record, ha]
  | false =>
    rw [ha] at h
    have he := checkScanFinished_eq (W := W) (w := w.record (.tick false)) g.steady g.still ha
      (h.resolve_left Bool.false_ne_true)
    refine ⟨w.tick + (waitingIds w.scans).length, if w.scans = [] then w.ssids else ∅, ?_⟩
    rw [Web.timerCallback, ha, he]
    simp only [Web.record, ha, Bool.false_eq_true, if_false]

theorem Good.tick (g : Good w) (h : w.active = true ∨ rescans W w.ssids w.scans w.tick = false) :
    Good (w.timerCallback W) := by
  obtain ⟨n, ssids, he⟩ := timerCallback_eq (W := W) g h
  rw [he]
  generalize hids : (if w.active then [] else waitingIds w.scans) = ids
  have htick (b : Bool) :
      quiet (w.trace ++ [Obs.tick b] ++ ids.map Obs.call) = quietAfter (quiet w.trace) (.tick b) := by
    rw [quiet_calls, quiet_snoc]
  have hcount (id : Nat) : (w.trace ++ [Obs.tick w.active] ++ ids.map Obs.call).count (Obs.request id true) =
      w.trace.count (.request id true) := by
    have h0 : [Obs.tick w.active].count (.request id true) = 0 := rfl
    rw [List.count_append, List.count_append, count_requests_calls, h0]
    rfl
  refine ⟨g.steady, g.still, fun id => ?_, fun id => ?_, fun id hid => ?_, fun hq => ?_⟩
  · have h0 : [Obs.tick w.active].count (.call id) = 0 := rfl
    have hdue := g.due id
    have hnil : (waitingIds []).count id = 0 := rfl
    simp only [hcount, ← hdue]
    rw [List.count_append, List.count_append, count_calls, h0, ← hids]
    cases w.active <;> simp [hnil]
  · simp only [hcount]
    exact g.distinct id
  · simp only [hcount]
    exact g.fresh id hid
  · simp only [htick] at hq
    cases ha : w.active with
    | true =>
      rw [ha] at hq
      exact absurd hq (Nat.not_succ_le_zero 0)
    | false => rfl

theorem Good.next (g : Good w) {e : Event} (h : Fine W w e) : Good (step W w e) := by
  have hs := g.steady
  unfold step
  rw [if_neg (by rw [hs]; exact Bool.false_ne_true)]
  cases e with
  | request args => exact g.request h
  | result rslt =>
    cases rslt with
    | none => exact g
    | some r => exact ⟨g.steady, g.still, g.due, g.distinct, g.fresh, g.idle⟩
  | complete => exact ⟨g.steady, g.still, g.due, g.distinct, g.fresh, g.idle⟩
  | tick => exact g.tick h

/-! ## What the two narrow orders lose -/

theorem step_of_fault {w : Web} (hf : w.fault.isSome = true) (e : Event) : step W w e = w := by
  unfold step
  rw [if_pos hf]

theorem step_of_none {w : Web} (hf : w.fault = none) :
    ∀ e, step W w e = match e with
      | .request args => w.scanWifi W args
      | .result rslt => w.scanCb rslt
      | .complete => { w with active := false }
      | .tick => w.timerCallback W := by
  intro e
  unfold step
  rw [if_neg (by rw [hf]; exact Bool.false_ne_true)]

/-- A callback that makes a request takes the list away from under the iterator. -/
theorem tick_fault (hf : w.fault = none) (ha : w.active = false)
    (h : rescans W w.ssids w.scans w.tick = true) : (w.timerCallback W).fault.isSome = true := by
  have hrep := report_fault (W := W) w.scans (w := { w.record (.tick false) with iterating := true }) hf rfl h
  have hne : 0 < w.scans.length := by
    refine List.length_pos_iff.2 fun hnil => ?_
    rw [hnil] at h
    cases h
  have hcheck : w.timerCallback W = Web.report W w.scans { w.record (.tick false) with iterating := true } := by
    unfold Web.timerCallback Web.checkScanFinished
    rw [ha]
    show (if 0 < w.scans.length then if (!w.active) = true then _ else _ else _) = _
    rw [if_pos hne, ha, Bool.not_false, if_pos rfl]
    exact if_pos hrep
  rw [hcheck]
  exact hrep

/-- A request that finds the scan over and somebody waiting takes that one's turn. -/
theorem request_loses (g : Good w) {args : Args} (ha : w.active = false) (hw : w.scans.any isWaiting = true) :
    ¬ Reported ([Event.complete, .tick, .tick].foldl (step W) (w.scanWifi W args)) := by
  intro hrep
  obtain ⟨r, hr, hrw⟩ := List.any_eq_true.1 hw
  have hmem : r.id ∈ waitingIds w.scans := List.mem_map_of_mem (List.mem_filter.2 ⟨hr, hrw⟩)
  have hpos := List.count_pos_iff.2 hmem
  have hdue := g.due r.id
  have hone := g.distinct r.id
  have hlt : r.id ≠ w.serial := by
    intro e
    have := g.fresh r.id (by omega)
    omega
  have hreq : Obs.request r.id true ∈ w.trace := List.count_pos_iff.1 (by omega)
  -- the state in which the first tick finds the new request alone
  generalize hw1 : w.scanWifi W args = w1 at hrep
  rw [scanWifi_eq g.still, ha] at hw1
  have hf1 : w1.fault = none := by rw [← hw1]; exact g.steady
  have hi1 : w1.iterating = false := by rw [← hw1]; exact g.still
  rw [List.foldl_cons, step_of_none hf1, List.foldl_cons] at hrep
  simp only at hrep
  generalize hw2 : { w1 with active := false } = w2 at hrep
  have hf2 : w2.fault = none := by rw [← hw2]; exact hf1
  have hi2 : w2.iterating = false := by rw [← hw2]; exact hi1
  have ha2 : w2.active = false := by rw [← hw2]
  have hs2 : w2.scans = [{ id := w.serial, args := args }] := by rw [← hw2, ← hw1]; rfl
  have ht2 : w2.trace = w.trace ++ [.request w.serial args.callback.isSome] := by rw [← hw2, ← hw1]
  rw [step_of_none hf2, List.foldl_cons, List.foldl_nil] at hrep
  simp only at hrep
  cases hre : rescans W w2.ssids w2.scans w2.tick with
  | true =>
    have hfault := tick_fault hf2 ha2 hre
    rw [step_of_fault hfault] at hrep
    rw [hrep.steady] at hfault
    cases hfault
  | false =>
    have he := checkScanFinished_eq (W := W) (w := w2.record (.tick false)) hf2 hi2 ha2 hre
    have htick : w2.timerCallback W = (w2.record (.tick false)).checkScanFinished W := by rw [Web.timerCallback, ha2]
    rw [htick, he] at hrep
    have hid : (waitingIds [{ id := w.serial, args := args }]).count r.id = 0 := by
      rw [waitingIds_new, count_request_ne _ _ _ hlt]
    have hids : waitingIds (w2.record (.tick false)).scans = waitingIds [{ id := w.serial, args := args }] := by
      rw [← hs2]
      rfl
    -- the second tick finds nobody
    rw [step_of_none (by exact hf2)] at hrep
    simp only [Web.timerCallback, Web.checkScanFinished, Web.record, List.length_nil, Nat.lt_irrefl, if_false] at hrep
    have hall := hrep.all
    simp only [ha2, ht2, hs2, quiet_snoc, quiet_calls, quietAfter] at hall
    have hcalled := hall (Nat.le_refl 2) r.id (by simp [hreq])
    simp only [List.count_append, count_calls, hid] at hcalled
    have h0 : [Obs.request w.serial args.callback.isSome].count (.call r.id) = 0 := rfl
    have h1 : [Obs.tick false].count (.call r.id) = 0 := rfl
    omega

/-- **Every request is reported once**, in every run whose requests do not find a finished scan with somebody waiting
and whose callbacks make none; and after such a run, another step can be followed by one that loses a request. -/
theorem all_reported (W : World) :
    (∀ w, Reach ({} : Web) (step W) (Fine W) w → Reported w) ∧
    ∀ w e, Reach ({} : Web) (step W) (Fine W) w → ¬ Fine W w e →
      ∃ es, ¬ Reported ((e :: es).foldl (step W) w) := by
  have good {w : Web} (hr : Reach ({} : Web) (step W) (Fine W) w) : Good w :=
    History.inv_of_reach good_init (fun _ _ g h => g.next h) hr
  refine ⟨fun w hr => (good hr).reported, fun w e hr hn => ?_⟩
  have g := good hr
  cases e with
  | request args =>
    have ha : w.active = false := Bool.eq_false_iff.2 fun h => hn (Or.inl h)
    have hw : w.scans.any isWaiting = true := Bool.not_eq_false _ ▸ fun h => hn (Or.inr h)
    refine ⟨[.complete, .tick, .tick], ?_⟩
    rw [List.foldl_cons, step_of_none g.steady]
    exact request_loses g ha hw
  | result rslt => exact absurd trivial hn
  | complete => exact absurd trivial hn
  | tick =>
    have ha : w.active = false := Bool.eq_false_iff.2 fun h => hn (Or.inl h)
    have hre : rescans W w.ssids w.scans w.tick = true := Bool.not_eq_false _ ▸ fun h => hn (Or.inr h)
    refine ⟨[], fun hrep => ?_⟩
    have hfault := tick_fault g.steady ha hre
    have hs := hrep.steady
    rw [List.foldl_cons, List.foldl_nil, step_of_none g.steady] at hs
    rw [hs] at hfault
    cases hfault

def ask : Args := { client := 1000, callback := some 0, userData := 0 }

/-- Two requests, reported at the tick after the scan. -/
def askRun : List Event := [.request ask, .request ask, .complete, .tick, .tick]

theorem all_reported_ask :
    Reported (askRun.foldl (step {}) {}) ∧
    (¬ Fine {} (([Event.request ask, .complete]).foldl (step {}) {}) (.request ask) ∧
      ∃ es, ¬ Reported ((Event.request ask :: es).foldl (step {}) ([Event.request ask, .complete].foldl (step {}) {}))) :=
  ⟨(all_reported {}).1 _ (History.reach_along askRun _ .init (by decide)), by decide,
    (all_reported {}).2 _ _ (History.reach_along [Event.request ask, .complete] _ .init (by decide)) (by decide)⟩

/-- The first of two requests is dropped when the second comes after the scan and before the tick. -/
theorem request_dropped : ¬ ∀ (W : World) (w : Web), Reach ({} : Web) (step W) (fun _ _ => True) w → Reported w := by
  intro h
  have hr := h {} ([Event.request ask, .complete, .request ask, .complete, .tick, .tick].foldl (step {}) {})
    (History.reach_along _ _ .init ⟨trivial, trivial, trivial, trivial, trivial, trivial, trivial⟩)
  exact absurd (hr.all (by decide) 0 (by decide)) (by decide)

end Scan
end Pico
