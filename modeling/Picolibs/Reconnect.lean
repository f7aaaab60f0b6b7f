import Mathlib.Logic.Function.Basic
import Picolibs.Loop
/-!
# Reconnect — the browser's end of a websocket (`websocket.js`)

A page has one `ws` at a time, and the browser keeps the sockets that were `ws` before until their close events.  The
handlers belong to a socket but work on the variables of the page, so a close event of an old socket is taken for one
of the new.  An event runs to its end before the next; listeners of `ws_state` and `ws_message` do nothing here.

Of a timer only whether it is set is kept.  A socket that `close()` was called on is closing, and has no open event.
-/
namespace Pico
namespace Reconnect

open History (Reach)

inductive ReadyState where
  | connecting
  | open
  | closing
  | closed
  deriving DecidableEq

structure Socket where
  readyState : ReadyState := .closed
  -- close() was called, and the open and the close event were handled
  closeCalled : Bool := false
  hasOpened : Bool := false
  closeHandled : Bool := false
  deriving DecidableEq

/-- Whether the window has `WebSocket` and the document has `hidden`. -/
structure Window where
  webSocket : Bool := true
  hidden : Bool := true

structure Page where
  ws : Option Nat := none
  timer : Bool := false
  conchk : Bool := false
  opened : Bool := false
  closed : Bool := true
  suspended : Bool := false
  -- document.onvisibilitychange is set
  onVisibility : Bool := false
  sockets : Nat → Socket := fun _ => {}
  -- how many sockets were created
  count : Nat := 0
  -- the states of the ws_state events
  states : List Bool := []

namespace Page

def setSocket (p : Page) (k : Nat) (s : Socket) : Page := { p with sockets := Function.update p.sockets k s }

/-- `WebSocket.close()`. -/
def close (p : Page) (k : Nat) : Page :=
  let s := p.sockets k
  let readyState := match s.readyState with | .closed => .closed | _ => .closing
  p.setSocket k { s with readyState := readyState, closeCalled := true }

/-- `setWSOpened`. -/
def setWSOpened (p : Page) (state : Bool) : Page :=
  if state ≠ p.opened then { p with opened := state, states := p.states ++ [state] } else p

/-- `checkOpenState`. -/
def checkOpenState (p : Page) : Page :=
  let p := { p with conchk := false }
  match p.ws with
  | some k => if (p.sockets k).readyState = .open then (if !p.opened then p.setWSOpened true else p) else p
  | none => p

/-- The old connection is closed when another one is opened. -/
def closeOld (p : Page) : Page :=
  match p.ws with
  | some k => { p.close k with ws := none }
  | none => p

/-- `new WebSocket`. -/
def create (p : Page) : Page :=
  { p.setSocket p.count { readyState := .connecting } with ws := some p.count, count := p.count + 1 }

/-- `openWS`. -/
def openWS (W : Window) (p : Page) : Page :=
  if W.webSocket then
    let p := { p with closed := false }
    let p := p.closeOld
    let p := p.setWSOpened false
    let p := p.create
    let p := if p.conchk then p else { p with conchk := true }
    if p.timer then p else { p with timer := true, onVisibility := p.onVisibility || W.hidden }
  else p

/-- `closeWS`. -/
def closeWS (p : Page) : Page :=
  let p := { p with closed := true }
  let p := match p.ws with | some k => p.close k | none => p
  p.setWSOpened false

/-- `retryConnection`. -/
def retryConnection (W : Window) (p : Page) : Page :=
  if !p.suspended && !p.closed then
    match p.ws with
    | none => p.openWS W
    | some _ => p
  else p

/-- `document.onvisibilitychange`. -/
def visibilityChange (W : Window) (p : Page) (hidden : Bool) : Page :=
  let p := { p with suspended := hidden }
  if !p.suspended then p.retryConnection W
  else
    let p := match p.ws with | some k => p.close k | none => p
    p.setWSOpened false

/-- The open event of a socket, with `ws.onopen`, which fails when `ws` is undefined. -/
def onopen (p : Page) (k : Nat) : Page :=
  let p := p.setSocket k { p.sockets k with readyState := .open, hasOpened := true }
  match p.ws with
  | some _ => p.checkOpenState
  | none => p

/-- The close event of a socket, with `ws.onclose`. -/
def onclose (p : Page) (k : Nat) : Page :=
  let p := p.setSocket k { p.sockets k with readyState := .closed, closeHandled := true }
  let p := p.setWSOpened false
  { p with ws := none, conchk := false }

/-- `ws.onmessage` only passes the message on. -/
def onmessage (p : Page) : Page := p

/-- `ws.onerror`, of any socket. -/
def onerror (W : Window) (p : Page) : Page :=
  match p.ws with
  | some k => ((p.close k).setWSOpened false).retryConnection W
  | none => p

/-- The server closes a connection, or it fails. -/
def peerClose (p : Page) (k : Nat) : Page := p.setSocket k { p.sockets k with readyState := .closing }

end Page

inductive Event where
  | openWS
  | closeWS
  | visibility (hidden : Bool)
  | timer
  | conchk
  | open (k : Nat)
  | peerClose (k : Nat)
  | message (k : Nat)
  | error (k : Nat)
  | close (k : Nat)
  deriving DecidableEq

/-- What may happen: a timer that is set fires, a socket that is connecting opens, the peer closes one that is
connecting or open, a message comes on an open one, and a close event once, when the socket is closing. -/
def Can (p : Page) : Event → Prop
  | .visibility _ => p.onVisibility = true
  | .timer => p.timer = true
  | .conchk => p.conchk = true
  | .open k => k < p.count ∧ (p.sockets k).readyState = .connecting
  | .peerClose k => k < p.count ∧ ((p.sockets k).readyState = .connecting ∨ (p.sockets k).readyState = .open)
  | .message k => k < p.count ∧ (p.sockets k).readyState = .open
  | .error k => k < p.count ∧ (p.sockets k).closeHandled = false
  | .close k => k < p.count ∧ (p.sockets k).readyState = .closing
  | _ => True

def step (W : Window) (p : Page) : Event → Page
  | .openWS => p.openWS W
  | .closeWS => p.closeWS
  | .visibility hidden => p.visibilityChange W hidden
  | .timer => p.retryConnection W
  | .conchk => p.checkOpenState
  | .open k => p.onopen k
  | .peerClose k => p.peerClose k
  | .message _ => p.onmessage
  | .error _ => p.onerror W
  | .close k => p.onclose k

/-- The socket of an event. -/
def Event.socket : Event → Option Nat
  | .open k => some k
  | .message k => some k
  | .error k => some k
  | .close k => some k
  | _ => none

/-! ## What is to hold -/

/-- Connecting or open, and `close()` was not called. -/
def Socket.Live (s : Socket) : Prop := (s.readyState = .connecting ∨ s.readyState = .open) ∧ s.closeCalled = false

/-- An open page has a socket that has opened and not closed, and one socket at most is live. -/
structure Sound (p : Page) : Prop where
  opened : p.opened = true → ∃ k, p.ws = some k ∧ (p.sockets k).hasOpened = true ∧ (p.sockets k).closeHandled = false
  one : ∀ j k, j < p.count → k < p.count → (p.sockets j).Live → (p.sockets k).Live → j = k

/-- An event of another socket than `ws` changes nothing of the page. -/
def Undisturbed (p : Page) (e : Event) (p' : Page) : Prop :=
  ∀ k, e.socket = some k → p.ws ≠ some k → p'.ws = p.ws ∧ p'.opened = p.opened ∧ p'.conchk = p.conchk

/-- The close event of a socket that is no longer `ws` comes when there is no `ws`, and its error event when the page is
not open. -/
def Fine (p : Page) : Event → Prop
  | .close k => p.ws = some k ∨ p.ws = none
  | .error k => p.ws = some k ∨ p.opened = false
  | _ => True

instance decidableCan (p : Page) : ∀ e, Decidable (Can p e)
  | .openWS | .closeWS => isTrue trivial
  | .visibility _ | .timer | .conchk => inferInstanceAs (Decidable (_ = _))
  | .open _ | .peerClose _ | .message _ | .error _ | .close _ => inferInstanceAs (Decidable (_ ∧ _))

instance decidableFine (p : Page) : ∀ e, Decidable (Fine p e)
  | .close _ | .error _ => inferInstanceAs (Decidable (_ ∨ _))
  | .openWS | .closeWS | .visibility _ | .timer | .conchk | .open _ | .peerClose _ | .message _ => isTrue trivial

/-! ## The invariant -/

/-- A socket opens once, and not after `close()`. -/
structure Socket.Ok (s : Socket) : Prop where
  called : s.readyState = .connecting ∨ s.readyState = .open → s.closeCalled = false
  opened : s.readyState = .open → s.hasOpened = true

structure Good (p : Page) : Prop where
  opened : p.opened = true → ∃ k, p.ws = some k ∧ (p.sockets k).hasOpened = true
  kept : ∀ k, p.ws = some k → (p.sockets k).closeHandled = false
  live : ∀ k, (p.sockets k).Live → p.ws = some k
  idle : p.ws = none → p.conchk = false
  ok : ∀ k, (p.sockets k).Ok

theorem Good.sound {p : Page} (h : Good p) : Sound p := by
  constructor
  · intro ho
    obtain ⟨k, hk, hopen⟩ := h.opened ho
    exact ⟨k, hk, hopen, h.kept k hk⟩
  · intro j k _ _ hj hk
    exact Option.some.inj ((h.live j hj).symm.trans (h.live k hk))

theorem Good.closed_of_none {p : Page} (h : Good p) (hw : p.ws = none) : p.opened = false := by
  cases ho : p.opened with
  | false => rfl
  | true =>
    obtain ⟨k, hk, -⟩ := h.opened ho
    rw [hw] at hk
    cases hk

theorem Good.live_of_connecting {p : Page} (h : Good p) {k : Nat} (hk : (p.sockets k).readyState = .connecting) :
    p.ws = some k := h.live k ⟨Or.inl hk, (h.ok k).called (Or.inl hk)⟩

theorem setSocket_self (p : Page) (k : Nat) (s : Socket) : (p.setSocket k s).sockets k = s := Function.update_self ..

/-- What is to hold of every socket once one is set. -/
theorem forall_setSocket {p : Page} {k : Nat} {s : Socket} {P : Nat → Socket → Prop} :
    (∀ j, P j ((p.setSocket k s).sockets j)) ↔ P k s ∧ ∀ j, j ≠ k → P j (p.sockets j) :=
  Function.forall_update_iff p.sockets P

/-- `setWSOpened` leaves `opened_` at its argument. -/
theorem setWSOpened_eq (p : Page) (state : Bool) :
    ∃ l, p.setWSOpened state = { p with opened := state, states := l } := by
  unfold Page.setWSOpened
  by_cases h : state = p.opened
  · rw [if_neg (not_not_intro h), h]
    exact ⟨p.states, rfl⟩
  · rw [if_pos h]
    exact ⟨_, rfl⟩

theorem Good.setWSOpened_false {p : Page} (h : Good p) : Good (p.setWSOpened false) := by
  obtain ⟨l, hl⟩ := setWSOpened_eq p false
  rw [hl]
  exact { h with opened := nofun }

theorem not_up_of_down {s : Socket} (hs : s.readyState = .closing ∨ s.readyState = .closed) :
    ¬ (s.readyState = .connecting ∨ s.readyState = .open) := by
  rcases hs with hs | hs
  · rw [hs]
    decide
  · rw [hs]
    decide

theorem ok_of_down {s : Socket} (hs : s.readyState = .closing ∨ s.readyState = .closed) : s.Ok :=
  ⟨fun h => absurd h (not_up_of_down hs), fun h => absurd (Or.inr h) (not_up_of_down hs)⟩

/-- A socket that is not live, and keeps what was handled of it, takes the place of one. -/
theorem Good.setSocket {p : Page} (h : Good p) {k : Nat} {s : Socket} (hs : s.readyState = .closing ∨
    s.readyState = .closed) (hopen : s.hasOpened = (p.sockets k).hasOpened)
    (hclose : s.closeHandled = (p.sockets k).closeHandled) : Good (p.setSocket k s) := by
  have hopened : ∀ j, (p.sockets j).hasOpened = true → ((p.setSocket k s).sockets j).hasOpened = true :=
    forall_setSocket (P := fun j s => (p.sockets j).hasOpened = true → s.hasOpened = true)
      |>.2 ⟨fun ho => hopen.trans ho, fun _ _ ho => ho⟩
  constructor
  · intro ho
    obtain ⟨j, hj, hjopened⟩ := h.opened ho
    exact ⟨j, hj, hopened j hjopened⟩
  · exact forall_setSocket (P := fun j s => p.ws = some j → s.closeHandled = false)
      |>.2 ⟨fun hk => hclose.trans (h.kept k hk), fun j _ => h.kept j⟩
  · exact forall_setSocket (P := fun j s => s.Live → p.ws = some j)
      |>.2 ⟨fun hl => absurd hl.1 (not_up_of_down hs), fun j _ => h.live j⟩
  · exact h.idle
  · exact forall_setSocket (P := fun _ s => s.Ok) |>.2 ⟨ok_of_down hs, fun j _ => h.ok j⟩

theorem Good.close {p : Page} (h : Good p) (k : Nat) : Good (p.close k) := by
  refine h.setSocket ?_ rfl rfl
  cases (p.sockets k).readyState with
  | closed => exact Or.inr rfl
  | _ => exact Or.inl rfl

theorem Good.peerClose {p : Page} (h : Good p) (k : Nat) : Good (p.peerClose k) := h.setSocket (Or.inl rfl) rfl rfl

theorem close_not_live (p : Page) (k : Nat) : ¬ ((p.close k).sockets k).Live := by
  intro h
  have hcalled : ((p.close k).sockets k).closeCalled = true := by
    unfold Page.close
    rw [setSocket_self]
  rw [h.2] at hcalled
  cases hcalled

/-- `checkOpenState` opens the page when `ws` is open. -/
theorem checkOpenState_cases (p : Page) :
    p.checkOpenState = { p with conchk := false } ∨
      ∃ k, p.ws = some k ∧ (p.sockets k).readyState = .open ∧
        p.checkOpenState = Page.setWSOpened { p with conchk := false } true := by
  unfold Page.checkOpenState
  simp only
  split
  case h_1 k hw =>
    by_cases hopen : (p.sockets k).readyState = .open
    · rw [if_pos hopen]
      by_cases ho : (!p.opened) = true
      · rw [if_pos ho]
        exact Or.inr ⟨k, hw, hopen, rfl⟩
      · rw [if_neg ho]
        exact Or.inl rfl
    · rw [if_neg hopen]
      exact Or.inl rfl
  case h_2 => exact Or.inl rfl

theorem Good.checkOpenState {p : Page} (h : Good p) : Good p.checkOpenState := by
  rcases checkOpenState_cases p with he | ⟨k, hw, hopen, he⟩
  · rw [he]
    exact { h with idle := fun _ => rfl }
  · obtain ⟨l, hl⟩ := setWSOpened_eq { p with conchk := false } true
    rw [he, hl]
    exact { h with opened := fun _ => ⟨k, hw, (h.ok k).opened hopen⟩, idle := fun _ => rfl }

theorem good_create {p : Page} (ho : p.opened = false) (hlive : ∀ k, ¬ (p.sockets k).Live)
    (hok : ∀ k, (p.sockets k).Ok) : Good p.create := by
  constructor
  · intro ho'
    rw [show p.create.opened = p.opened from rfl, ho] at ho'
    cases ho'
  · intro k hk
    rw [← Option.some.inj hk]
    exact congrArg Socket.closeHandled (setSocket_self p p.count { readyState := .connecting })
  · exact forall_setSocket (P := fun j s => s.Live → some p.count = some j)
      |>.2 ⟨fun _ => rfl, fun j _ hl => absurd hl (hlive j)⟩
  · nofun
  · exact forall_setSocket (P := fun _ s => s.Ok) |>.2 ⟨⟨fun _ => rfl, nofun⟩, fun j _ => hok j⟩

/-- Once the old connection is closed no socket is live. -/
theorem Good.closeOld {p : Page} (h : Good p) :
    (∀ k, ¬ (p.closeOld.sockets k).Live) ∧ ∀ k, (p.closeOld.sockets k).Ok := by
  unfold Page.closeOld
  split
  case h_1 j hw =>
    refine ⟨fun k hk => ?_, (h.close j).ok⟩
    have he : (p.close j).ws = some k := (h.close j).live k hk
    have hjk : j = k := Option.some.inj (hw.symm.trans he)
    rw [← hjk] at hk
    exact close_not_live p j hk
  case h_2 hw =>
    refine ⟨fun k hk => ?_, h.ok⟩
    have he := h.live k hk
    rw [hw] at he
    cases he

theorem Good.openWS {p : Page} (h : Good p) (W : Window) : Good (p.openWS W) := by
  have hclose : Good { p with closed := false } := { h with }
  obtain ⟨hlive, hok⟩ := hclose.closeOld
  obtain ⟨l, hl⟩ := setWSOpened_eq (Page.closeOld { p with closed := false }) false
  have hcreate : Good (Page.create (Page.setWSOpened (Page.closeOld { p with closed := false }) false)) := by
    rw [hl]
    exact good_create rfl hlive hok
  unfold Page.openWS
  split
  · simp only
    split <;> split
    · exact hcreate
    · exact { hcreate with }
    · exact { hcreate with idle := nofun }
    · exact { hcreate with idle := nofun }
  · exact h

theorem Good.closeWS {p : Page} (h : Good p) : Good p.closeWS := by
  have hc : Good { p with closed := true } := { h with }
  unfold Page.closeWS
  simp only
  split
  · exact (hc.close _).setWSOpened_false
  · exact hc.setWSOpened_false

theorem Good.retryConnection {p : Page} (h : Good p) (W : Window) : Good (p.retryConnection W) := by
  unfold Page.retryConnection
  split
  · split
    · exact h.openWS W
    · exact h
  · exact h

theorem Good.visibilityChange {p : Page} (h : Good p) (W : Window) (hidden : Bool) :
    Good (p.visibilityChange W hidden) := by
  have hs : Good { p with suspended := hidden } := { h with }
  unfold Page.visibilityChange
  simp only
  split
  · exact hs.retryConnection W
  · split
    · exact (hs.close _).setWSOpened_false
    · exact hs.setWSOpened_false

theorem Good.onerror {p : Page} (h : Good p) (W : Window) : Good (p.onerror W) := by
  unfold Page.onerror
  split
  · exact ((h.close _).setWSOpened_false).retryConnection W
  · exact h

/-- The socket that opens is `ws`. -/
theorem Good.onopen {p : Page} (h : Good p) {k : Nat} (hk : (p.sockets k).readyState = .connecting) :
    Good (p.onopen k) := by
  have hw := h.live_of_connecting hk
  have hg : Good (p.setSocket k { p.sockets k with readyState := .open, hasOpened := true }) := by
    constructor
    · exact fun _ => ⟨k, hw, by rw [setSocket_self]⟩
    · exact forall_setSocket (P := fun j s => p.ws = some j → s.closeHandled = false)
        |>.2 ⟨h.kept k, fun j _ => h.kept j⟩
    · exact forall_setSocket (P := fun j s => s.Live → p.ws = some j) |>.2 ⟨fun _ => hw, fun j _ => h.live j⟩
    · exact h.idle
    · have hk' : Socket.Ok { p.sockets k with readyState := .open, hasOpened := true } :=
        ⟨fun _ => (h.ok k).called (Or.inl hk), fun _ => rfl⟩
      exact forall_setSocket (P := fun _ s => s.Ok) |>.2 ⟨hk', fun j _ => h.ok j⟩
  unfold Page.onopen
  simp only
  split
  · exact hg.checkOpenState
  · exact hg

/-- `ws.onclose` leaves no `ws`, so the socket that closes has to be it. -/
theorem Good.onclose {p : Page} (h : Good p) {k : Nat} (hfine : Fine p (.close k)) : Good (p.onclose k) := by
  obtain ⟨l, hl⟩ := setWSOpened_eq
    (p.setSocket k { p.sockets k with readyState := .closed, closeHandled := true }) false
  unfold Page.onclose
  simp only
  rw [hl]
  constructor
  · nofun
  · nofun
  · refine forall_setSocket (P := fun j s => s.Live → none = some j)
      |>.2 ⟨fun hlive => absurd hlive.1 (not_up_of_down (Or.inr rfl)), fun j hjk hlive => ?_⟩
    have hw := h.live j hlive
    rcases hfine with hf | hf
    · exact absurd (Option.some.inj (hw.symm.trans hf)) hjk
    · rw [hf] at hw
      cases hw
  · exact fun _ => rfl
  · exact forall_setSocket (P := fun _ s => s.Ok) |>.2 ⟨ok_of_down (Or.inr rfl), fun j _ => h.ok j⟩

theorem Good.step {p : Page} (h : Good p) (W : Window) (e : Event) (hcan : Can p e) (hfine : Fine p e) :
    Good (step W p e) := by
  cases e with
  | openWS => exact h.openWS W
  | closeWS => exact h.closeWS
  | visibility hidden => exact h.visibilityChange W hidden
  | timer => exact h.retryConnection W
  | conchk => exact h.checkOpenState
  | «open» k => exact h.onopen hcan.2
  | peerClose k => exact h.peerClose k
  | message k => exact h
  | error k => exact h.onerror W
  | close k => exact h.onclose hfine

/-! ## Events of old sockets -/

theorem setWSOpened_opened (p : Page) (state : Bool) : (p.setWSOpened state).opened = state := by
  obtain ⟨l, hl⟩ := setWSOpened_eq p state
  rw [hl]

theorem setWSOpened_ws (p : Page) (state : Bool) : (p.setWSOpened state).ws = p.ws := by
  obtain ⟨l, hl⟩ := setWSOpened_eq p state
  rw [hl]

theorem setWSOpened_conchk (p : Page) (state : Bool) : (p.setWSOpened state).conchk = p.conchk := by
  obtain ⟨l, hl⟩ := setWSOpened_eq p state
  rw [hl]

theorem retryConnection_of_ws {W : Window} {p : Page} {k : Nat} (hw : p.ws = some k) : p.retryConnection W = p := by
  unfold Page.retryConnection
  rw [hw]
  exact ite_self _

/-- What an error does to a page that has a socket. -/
theorem onerror_of_ws {W : Window} {p : Page} {k : Nat} (hw : p.ws = some k) :
    p.onerror W = (p.close k).setWSOpened false := by
  have hk : ((p.close k).setWSOpened false).ws = some k := by
    rw [setWSOpened_ws]
    exact hw
  unfold Page.onerror
  rw [hw]
  exact retryConnection_of_ws hk

theorem undisturbed_close {W : Window} {p : Page} {k : Nat} (h : Good p) :
    Undisturbed p (.close k) (step W p (.close k)) ↔ Fine p (.close k) := by
  constructor
  · intro hu
    by_cases hk : p.ws = some k
    · exact Or.inl hk
    · exact Or.inr (hu k rfl hk).1.symm
  · rintro hfine j hj hne
    obtain rfl : k = j := Option.some.inj hj
    have hw : p.ws = none := hfine.resolve_left hne
    refine ⟨hw.symm, ?_, (h.idle hw).symm⟩
    rw [h.closed_of_none hw]
    exact setWSOpened_opened _ false

theorem undisturbed_error {W : Window} {p : Page} {k : Nat} (h : Good p) :
    Undisturbed p (.error k) (step W p (.error k)) ↔ Fine p (.error k) := by
  cases hw : p.ws with
  | none =>
    have hstep : step W p (.error k) = p := by
      unfold step Page.onerror
      rw [hw]
    rw [hstep]
    exact ⟨fun _ => Or.inr (h.closed_of_none hw), fun _ j _ _ => ⟨rfl, rfl, rfl⟩⟩
  | some i =>
    have hstep : step W p (.error k) = (p.close i).setWSOpened false := onerror_of_ws hw
    rw [hstep]
    constructor
    · intro hu
      by_cases hk : p.ws = some k
      · exact Or.inl hk
      · refine Or.inr ((hu k rfl hk).2.1.symm.trans ?_)
        exact setWSOpened_opened _ false
    · rintro hfine j hj hne
      obtain rfl : k = j := Option.some.inj hj
      refine ⟨setWSOpened_ws _ false, ?_, setWSOpened_conchk _ false⟩
      rw [setWSOpened_opened, hfine.resolve_left hne]

/-- Of the events of a socket only the close and the error event reach the page from an old one. -/
theorem undisturbed_iff {W : Window} {p : Page} {e : Event} (h : Good p) (hcan : Can p e) :
    Undisturbed p e (step W p e) ↔ Fine p e := by
  cases e with
  | close k => exact undisturbed_close h
  | error k => exact undisturbed_error h
  | «open» k =>
    refine ⟨fun _ => trivial, fun _ j hj hne => ?_⟩
    obtain rfl : k = j := Option.some.inj hj
    exact absurd (h.live_of_connecting hcan.2) hne
  | message k => exact ⟨fun _ => trivial, fun _ _ _ _ => ⟨rfl, rfl, rfl⟩⟩
  | _ => exact ⟨fun _ => trivial, fun _ => nofun⟩

theorem good_empty : Good {} :=
  ⟨nofun, nofun, fun _ hk => absurd hk.1 (not_up_of_down (Or.inr rfl)), fun _ => rfl, fun _ => ok_of_down (Or.inr rfl)⟩

theorem good_of_reach {W : Window} {p : Page} (h : Reach {} (step W) (fun p e => Can p e ∧ Fine p e) p) : Good p :=
  History.inv_of_reach good_empty (fun _ e hg he => hg.step W e he.1 he.2) h

/-- **A page whose old sockets close before the next one is there is sound**, and an old socket disturbs it exactly
otherwise. -/
theorem page_sound (W : Window) (p : Page) (h : Reach {} (step W) (fun p e => Can p e ∧ Fine p e) p) :
    Sound p ∧ ∀ e, Can p e → (Undisturbed p e (step W p e) ∧ Sound (step W p e) ↔ Fine p e) := by
  have hg := good_of_reach h
  refine ⟨hg.sound, fun e hcan => ⟨fun hr => (undisturbed_iff hg hcan).1 hr.1, fun hfine => ?_⟩⟩
  exact ⟨(undisturbed_iff hg hcan).2 hfine, (hg.step W e hcan hfine).sound⟩

/-- A connection, its end, the next one by the timer, and a page that is hidden. -/
def someEvents : List Event :=
  [.openWS, .conchk, .open 0, .message 0, .peerClose 0, .error 0, .close 0, .timer, .open 1, .visibility true]

theorem page_sound_run : Sound (someEvents.foldl (step {}) {}) ∧
    Undisturbed (someEvents.foldl (step {}) {}) (.close 1) (step {} (someEvents.foldl (step {}) {}) (.close 1)) ∧
    Sound (step {} (someEvents.foldl (step {}) {}) (.close 1)) :=
  have h := page_sound {} (someEvents.foldl (step {}) {}) (History.reach_along _ _ .init (by decide +kernel))
  ⟨h.1, (h.2 (.close 1) (by decide +kernel)).2 (by decide +kernel)⟩

/-- The close event of the old socket comes after the new one was made, and `ws` is gone. -/
theorem page_disturbed : ¬ ∀ p : Page, Reach {} (step {}) Can p →
    Sound p ∧ ∀ e, Can p e → Undisturbed p e (step {} p e) := by
  intro h
  have hlate := h ([.openWS, .open 0, .openWS].foldl (step {}) {}) (History.reach_along _ _ .init (by decide +kernel))
  have hws := (hlate.2 (.close 0) (by decide +kernel) 0 rfl (by decide +kernel)).1
  exact absurd hws (by decide +kernel)

/-- The timer then makes a third socket, while the second is connecting. -/
theorem two_sockets : ¬ ∀ p : Page, Reach {} (step {}) Can p → Sound p := by
  intro h
  have hone := (h ([.openWS, .open 0, .openWS, .close 0, .timer].foldl (step {}) {})
    (History.reach_along _ _ .init (by decide +kernel))).one 1 2 (by decide +kernel) (by decide +kernel)
    ⟨Or.inl (by decide +kernel), by decide +kernel⟩ ⟨Or.inl (by decide +kernel), by decide +kernel⟩
  cases hone

end Reconnect
end Pico
