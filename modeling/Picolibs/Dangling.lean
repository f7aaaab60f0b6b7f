import Picolibs.Delivery
import Picolibs.Passes
/-!
# Dangling — the reference that the loop of `tcp_server_recv` keeps

The loop looks its client up again after a request and ignores the answer.  `drops` is the one way the client can be
gone then: its request was answered with nothing left to send and is to be closed, and `altcp_close` succeeds.  No other
use of a client, in the loop or out of it, finds it deleted (`dangling_iff`).
-/
namespace Pico
namespace Web

variable {W : World} {w : Web} {p : Pcb} {c : Client}

/-- The pass that starts here closes the client and drops it: a whole request, answered with `close`, nothing queued. -/
def drops (W : World) (h : ClientHandle) (s : Web) : Bool :=
  match s.findHandle h with
  | none => false
  | some c =>
    match c.rqstIsReady with
    | .ok (true, c1) =>
      let r := (s.put c1).answer W h c1
      !c1.websocket && r.1.fault.isNone && r.2 &&
        match r.1.findHandle h with
        | some d => !d.websocket && closes W r.1 d
        | none => false
    | _ => false

/-! ## One pass -/

theorem rqstIsReady_apart (c : Client) : Text.Apart (c.rqstIsReady) := by
  unfold Client.rqstIsReady
  split
  · exact (Http.parseRequest_apart _ _ _).bind fun _ => Text.Apart.ok _
  · exact (Ws.parsePacket_apart _ _).bind fun _ => Text.Apart.ok _

theorem rqstIsReady_websocket {c1 : Client} {b : Bool} (h : c.rqstIsReady = .ok (b, c1)) :
    c1.websocket = c.websocket := by
  rcases rqstIsReady_cases h with ⟨-, q, -, -, rfl⟩ | ⟨-, q, -, -, rfl⟩
  · rfl
  · rfl

theorem rqstIsReady_length {c1 : Client} {b : Bool} (h : c.rqstIsReady = .ok (b, c1)) :
    c1.rqst.length ≤ c.rqst.length := by
  rcases rqstIsReady_cases h with ⟨-, q, hq, -, rfl⟩ | ⟨-, q, hq, -, rfl⟩
  · rcases Http.parseRequest_cases hq with ⟨-, -, hlost⟩ | ⟨hparsed, -⟩
    · exact Http.length_resync hlost
    · exact Nat.le_of_eq hparsed.length
  · exact Nat.le_of_eq (Ws.length_parsePacket hq)

/-- **A request is looked for where a blank line is**; without one the buffer is searched for the start of a request. -/
theorem rqstIsReady_http {c1 : Client} {b : Bool} (hws : c.websocket = false) (h : c.rqstIsReady = .ok (b, c1)) :
    (Text.find Text.blankLine c.rqst = none ∧ b = false ∧ Http.resync c.rqst = some c1.rqst) ∨
      (Ready c1 ∧ c1.rqst = c.rqst) := by
  have hws1 := rqstIsReady_websocket h
  rcases rqstIsReady_cases h with ⟨-, q, hq, hcomplete, rfl⟩ | ⟨hsocket, -⟩
  · rcases Http.parseRequest_cases hq with ⟨hnone, hempty, hlost⟩ | ⟨hparsed, hsame⟩
    · left
      rw [hempty] at hcomplete
      exact ⟨hnone, hcomplete.symm, hlost⟩
    · right
      have hrqst := hsame rfl
      refine ⟨⟨hws1.trans hws, ?_, ?_, hparsed.pos, ?_⟩, hrqst⟩
      · rw [hrqst]
        exact hparsed.blank
      · rw [hrqst]
        exact hparsed.headers
      · rw [hrqst]
        exact hparsed.fits
  · rw [hws] at hsocket
    cases hsocket

theorem length_resetRqst_le (c : Client) : c.resetRqst.rqst.length ≤ c.rqst.length := by
  unfold Client.resetRqst
  split
  · simp only
    split
    · exact (List.drop_sublist _ _).length_le
    · exact Nat.zero_le _
  · simp only
    split
    · exact (List.drop_sublist _ _).length_le
    · exact Nat.zero_le _

/-- `resetRqst` after an answer takes the request off the buffer. -/
theorem length_resetRqst {c1 d e : Client} {s : List Act} (ha : Answered W c1 d s) (he : SameText d e) :
    d.http.size + e.resetRqst.rqst.length ≤ c1.rqst.length := by
  have hshort := ha.shorter
  have hfits := ha.fits
  unfold Client.resetRqst
  cases hws : e.websocket with
  | true =>
    have hnil : e.rqst = [] := by rw [he.rqst]; exact ha.spent (by rw [← he.websocket]; exact hws)
    simp only [Bool.not_true, Bool.false_eq_true, if_false, hnil, List.length_nil, Nat.not_lt_zero]
    exact hfits
  | false =>
    simp only [Bool.not_false, if_true]
    split
    · rw [List.length_drop, he.http, he.rqst]
      omega
    · exact hfits

@[simp] theorem requests_heard (h k : ClientHandle) (opcode : UInt8) (payload : Bytes) :
    requests k (heard W h opcode payload) = [] := by
  unfold heard
  split <;> rfl

/-- What a pass that goes round again takes off the buffer, and says. -/
structure Took (h : ClientHandle) (c d : Client) (s : List Act) : Prop where
  websocket : c.websocket = true → d.websocket = true
  blank : c.websocket = false → (Text.find Text.blankLine c.rqst).isSome = true
  shorter : c.websocket = false → d.rqst.length < c.rqst.length
  extent : extent (requests h s) + d.rqst.length ≤ c.rqst.length
  headers : c.websocket = false → ∀ q ∈ requests h s, q.1.headers = Http.linesOf c.rqst

theorem Took.of_answered {h : ClientHandle} {c1 d e : Client} {s : List Act} (hws : c.websocket = false)
    (hr : Ready c1) (hsame : c1.rqst = c.rqst) (ha : Answered W c1 d s) (he : SameText d e) (hd : d.handle = h) :
    Took h c e.resetRqst s := by
  have hlen := length_resetRqst ha he
  have hpos := ha.pos
  have hsaid : requests h s = [] ∨ ∃ text, requests h s = [(d.http, text)] := by
    rcases ha.told with rfl | rfl
    · exact Or.inl rfl
    · unfold asked
      split
      · exact Or.inr ⟨d.rqst.take d.http.size, by simp [requests, hd]⟩
      · exact Or.inl rfl
  rw [hsame] at hlen
  refine ⟨fun hc => ?_, fun _ => ?_, fun _ => by omega, ?_, fun _ q hq => ?_⟩
  · rw [hws] at hc
    cases hc
  · rw [← hsame]
    exact hr.blank
  · rcases hsaid with hs | ⟨text, hs⟩
    · rw [hs]
      show 0 + _ ≤ _
      omega
    · rw [hs]
      exact hlen
  · rcases hsaid with hs | ⟨text, hs⟩
    · rw [hs] at hq
      cases hq
    · rw [hs, List.mem_singleton] at hq
      rw [hq, ← hsame, ← hr.headers]
      exact ha.headers

/-- What a pass that leaves makes of the buffer. -/
structure Rests (c d : Client) : Prop where
  websocket : d.websocket = c.websocket
  shorter : d.rqst.length ≤ c.rqst.length
  found : c.websocket = false → (Text.find Text.blankLine c.rqst).isSome = true → d.rqst = c.rqst
  lost : c.websocket = false → Text.find Text.blankLine c.rqst = none → Http.resync c.rqst = some d.rqst

theorem Rests.of_ready {c1 : Client} {b : Bool} (h : c.rqstIsReady = .ok (b, c1)) : Rests c c1 := by
  refine ⟨rqstIsReady_websocket h, rqstIsReady_length h, fun hws hblank => ?_, fun hws hnone => ?_⟩
  · rcases rqstIsReady_http hws h with ⟨hnone, -⟩ | ⟨-, hsame⟩
    · rw [hnone] at hblank
      cases hblank
    · exact hsame
  · rcases rqstIsReady_http hws h with ⟨-, -, hlost⟩ | ⟨hr, hsame⟩
    · exact hlost
    · have := hr.blank
      rw [hsame, hnone] at this
      cases this

/-- A frame whose payload is not all there. -/
theorem processWebsocket_unread {h : ClientHandle} (hc : w.findHandle h = some c) {f : Fault}
    (hp : Text.substr c.rqst (some c.wshdr.start.toNat) (some (c.wshdr.start.toNat + c.wshdr.length.toNat)) =
      .error f) : w.processWebsocket W h = (w.put (c.activity W w.tick)).throw f := by
  have hs := sameRequest_activity (W := W) (c := c) w.tick
  unfold processWebsocket
  rw [deref_of_some hc]
  simp only [hs.wshdr, hs.rqst, hp]

/-- What a pass on the client `c` comes to: it leaves, with a deleted client used exactly if it `dropped` it, or it goes
round again with its client there. -/
def Passed (p : Pcb) (h : ClientHandle) (c : Client) (said : List Act) (w : Web) (r : Loop.Pass Web Web)
    (dropped : Bool) : Prop :=
  (∃ v, r = .leave v ∧ (v.fault = some .dangling ↔ dropped = true) ∧
    (v.fault = none → ∃ d, Told p h d said w v ∧ Rests c d)) ∨
  dropped = false ∧ ∃ v d s, r = .again v ∧ Told p h d (said ++ s) w v ∧ Took h c d s

/-- The end of a pass that has processed a request or a frame. -/
def endPass (h : ClientHandle) (w : Web) : Loop.Pass Web Web :=
  if w.fault.isSome then .leave w
  else
    match w.findHandle h with
    | none => .leave (w.throw .dangling)
    | some client => .again (w.put client.resetRqst)

namespace Told

variable {h : ClientHandle} {said : List Act} {w' : Web} {c1 : Client}

theorem passed_fault {v : Web} {f : Fault} (hv : v.fault = some f) (hf : f ≠ .dangling) :
    Passed p h c said w (.leave v) false := by
  refine Or.inl ⟨v, rfl, ?_, fun hnone => ?_⟩
  · rw [hv]
    exact ⟨fun e => absurd (Option.some.inj e) hf, nofun⟩
  · rw [hv] at hnone
    cases hnone

theorem endPass_eq (t : Told p h c said w w') : endPass h w' = .again (w'.put c.resetRqst) := by
  unfold endPass
  rw [t.fault, t.findHandle]
  rfl

theorem endPass_of_fault {f : Fault} (hf : w'.fault = some f) : endPass h w' = .leave w' := by
  unfold endPass
  rw [hf]
  rfl

theorem recvPass_ready (t : Told p h c said w w') (hr : c.rqstIsReady = .ok (true, c1)) :
    Web.recvPass W h w' = endPass h
      (if !c1.websocket then (w'.put c1).processRqst W h else (w'.put c1).processWebsocket W h) := by
  unfold Web.recvPass
  rw [t.findHandle]
  simp only [hr, if_true]
  rfl

theorem drops_of_ready (t : Told p h c said w w') (hr : c.rqstIsReady = .ok (true, c1)) :
    drops W h w' = (!c1.websocket && ((w'.put c1).answer W h c1).1.fault.isNone && ((w'.put c1).answer W h c1).2 &&
      match ((w'.put c1).answer W h c1).1.findHandle h with
      | some d => !d.websocket && closes W ((w'.put c1).answer W h c1).1 d
      | none => false) := by
  unfold drops
  rw [t.findHandle]
  simp only [hr]

/-- A pass without a whole request or frame. -/
theorem recvPass_unready (t : Told p h c said w w') (hr : c.rqstIsReady = .ok (false, c1)) :
    Passed p h c said w (Web.recvPass W h w') (drops W h w') := by
  have u : Told p h c1 said w (w'.put c1) := t.request (rqstIsReady_same hr)
  unfold Web.recvPass drops
  rw [t.findHandle]
  simp only [hr, Bool.false_eq_true, if_false]
  refine Or.inl ⟨_, rfl, ⟨fun e => ?_, nofun⟩, fun _ => ⟨c1, u, Rests.of_ready hr⟩⟩
  rw [u.fault] at e
  cases e

/-- A pass over a frame. -/
theorem recvPass_websocket (t : Told p h c said w w') (hr : c.rqstIsReady = .ok (true, c1))
    (hws : c1.websocket = true) : Passed p h c said w (Web.recvPass W h w') (drops W h w') := by
  have u : Told p h c1 said w (w'.put c1) := t.request (rqstIsReady_same hr)
  have hc : c.websocket = true := (rqstIsReady_websocket hr).symm.trans hws
  rw [t.recvPass_ready (W := W) hr, t.drops_of_ready (W := W) hr, hws]
  simp only [Bool.not_true, Bool.false_eq_true, if_false, Bool.false_and]
  cases hp : Text.substr c1.rqst (some c1.wshdr.start.toNat)
    (some (c1.wshdr.start.toNat + c1.wshdr.length.toNat)) with
  | error f =>
    have hfault : ((w'.put c1).processWebsocket W h).fault = some f := by
      rw [processWebsocket_unread u.findHandle hp]
      rfl
    rw [endPass_of_fault hfault]
    refine passed_fault hfault fun e => ?_
    rw [e] at hp
    exact Text.substr_apart _ _ _ hp
  | ok payload =>
    obtain ⟨d, hd, v⟩ := u.processWebsocket (W := W) hp
    have hd' := v.request (resetRqst_same d)
    have hon {P : Prop} (hf : c.websocket = false) : P := by
      rw [hc] at hf
      cases hf
    rw [List.append_assoc] at hd'
    rw [v.endPass_eq]
    refine Or.inr ⟨rfl, _, _, _, rfl, hd', fun _ => ?_, hon, hon, ?_, hon⟩
    · rw [websocket_resetRqst, hd.websocket, hws]
    · have hle := length_resetRqst_le d
      rw [hd.rqst] at hle
      rw [requests_append, requests_heard, List.append_nil]
      show 0 + _ ≤ _
      rw [Nat.zero_add]
      exact Nat.le_trans hle (Rests.of_ready hr).shorter

/-- A pass over a request. -/
theorem recvPass_http (t : Told p h c said w w') (hr : c.rqstIsReady = .ok (true, c1)) (hws : c1.websocket = false) :
    Passed p h c said w (Web.recvPass W h w') (drops W h w') := by
  have u : Told p h c1 said w (w'.put c1) := t.request (rqstIsReady_same hr)
  have hc : c.websocket = false := (rqstIsReady_websocket hr).symm.trans hws
  obtain ⟨hready, hkept⟩ : Ready c1 ∧ c1.rqst = c.rqst := by
    rcases rqstIsReady_http hc hr with ⟨-, hb, -⟩ | h
    · cases hb
    · exact h
  have hagain {v : Web} {d e : Client} {s : List Act} (ha : Answered W c1 d s) (he : SameText d e) (hd : d.handle = h)
      (t' : Told p h e (said ++ s) w v) : Passed p h c said w (endPass h v) false := by
    rw [t'.endPass_eq]
    exact Or.inr ⟨rfl, _, _, _, rfl, t'.request (resetRqst_same e), .of_answered hc hready hkept ha he hd⟩
  rw [t.recvPass_ready (W := W) hr, t.drops_of_ready (W := W) hr, hws]
  simp only [Bool.not_false, if_true, Bool.true_and]
  rcases u.processRqst (W := W) hready with ⟨f, hf, hans, hfault⟩ | ⟨d, s, ha, v, heq⟩
  · rw [endPass_of_fault hfault, hans]
    exact passed_fault hfault hf
  · rw [heq, v.fault, v.findHandle]
    simp only [Option.isNone_none, Bool.true_and]
    by_cases hclose : (!d.websocket && ((w'.put c1).answer W h c1).2) = true
    · rw [if_pos hclose]
      rw [Bool.and_eq_true] at hclose
      rcases v.close (W := W) with ⟨hcl, hgone⟩ | ⟨hcl, e, he, v'⟩
      · have hdangling : endPass h (((w'.put c1).answer W h c1).1.closeClient W d.pcb false) =
            .leave ((((w'.put c1).answer W h c1).1.closeClient W d.pcb false).throw .dangling) := by
          unfold endPass
          rw [fault_closeClient, v.fault, hgone]
          rfl
        rw [hdangling, hclose.1, hclose.2, hcl]
        exact Or.inl ⟨_, rfl, ⟨fun _ => rfl, fun _ => rfl⟩, nofun⟩
      · rw [hclose.1, hclose.2, hcl]
        exact hagain ha he v.handle v'
    · have hoff : ∀ a b x : Bool, ¬(a && b) = true → (b && (a && x)) = false := by decide
      rw [if_neg hclose, hoff _ _ _ hclose]
      exact hagain ha ⟨rfl, rfl, rfl, rfl⟩ v.handle v

/-- **One pass**: it uses a deleted client exactly when it drops it, and it goes round again with its client there. -/
theorem recvPass (t : Told p h c said w w') : Passed p h c said w (Web.recvPass W h w') (drops W h w') := by
  cases hr : c.rqstIsReady with
  | error f =>
    unfold Web.recvPass drops
    rw [t.findHandle]
    simp only [hr]
    refine passed_fault rfl fun e => ?_
    rw [e] at hr
    exact rqstIsReady_apart c hr
  | ok r =>
    obtain ⟨ready, c1⟩ := r
    cases ready with
    | false => exact t.recvPass_unready hr
    | true =>
      cases hws : c1.websocket with
      | true => exact t.recvPass_websocket hr hws
      | false => exact t.recvPass_http hr hws

/-- Every pass of the loop starts with the client there. -/
theorem reaches (t : Told p h c said w w') {s : Web} (hr : Loop.Reaches (Web.recvPass W h) w' s) :
    ∃ d said', Told p h d said' w s := by
  refine hr.inv (J := fun s => ∃ d said', Told p h d said' w s) ?_ ⟨c, said, t⟩
  rintro s s' ⟨d, said', u⟩ he
  rcases u.recvPass (W := W) with ⟨v, hl, -⟩ | ⟨-, v, e, said'', ha, v', -⟩
  · rw [hl] at he
    cases he
  · rw [ha] at he
    cases he
    exact ⟨e, said' ++ said'', v'⟩

theorem websocket_of_drops (t : Told p h c said w w') (hd : drops W h w' = true) : c.websocket = false := by
  unfold drops at hd
  rw [t.findHandle] at hd
  simp only at hd
  split at hd
  · next c1 hr =>
    rw [← rqstIsReady_websocket hr]
    cases hws : c1.websocket with
    | true =>
      rw [hws] at hd
      cases hd
    | false => rfl
  · cases hd

/-- **The loop uses a deleted client exactly when one of its passes drops it.** -/
theorem recvLoop_dangling_iff (t : Told p h c said w w') :
    (w'.recvLoop W h c.rqst).fault = some .dangling ↔
      ∃ s, Loop.Reaches (Web.recvPass W h) w' s ∧ drops W h s = true := by
  constructor
  · intro hfault
    unfold recvLoop at hfault
    cases hrun : Loop.run (Web.recvPass W h) (c.rqst.length + 1) w' with
    | none =>
      rw [hrun] at hfault
      cases hfault
    | some v =>
      rw [hrun] at hfault
      obtain ⟨s, hs, hl⟩ := Loop.reaches_of_run hrun
      obtain ⟨d, said', u⟩ := t.reaches hs
      refine ⟨s, hs, ?_⟩
      rcases u.recvPass (W := W) with ⟨v', hl', hiff, -⟩ | ⟨-, v', -, -, ha, -⟩
      · rw [hl] at hl'
        cases hl'
        exact hiff.1 hfault
      · rw [hl] at ha
        cases ha
  · rintro ⟨s, hs, hd⟩
    obtain ⟨d, said', u⟩ := t.reaches hs
    have hws := u.websocket_of_drops hd
    -- on the way to a pass on an HTTP request every pass is on one, and shortens the string
    obtain ⟨n, hn, hrun⟩ := Loop.run_of_reaches
      (fun s => ((s.findHandle h).map (fun d => d.rqst.length)).getD 0)
      (J := fun s => ∃ d said', Told p h d said' w s) (I := fun s => ∃ d, s.findHandle h = some d ∧ d.websocket = false)
      (by
        rintro s s' ⟨d, said', u⟩ he
        exact u.reaches (Loop.Reaches.start.again he))
      (by
        rintro s s' ⟨d, said', u⟩ he ⟨e, he', hew⟩
        rcases u.recvPass (W := W) with ⟨v, hl, -⟩ | ⟨-, v, e', said'', ha, v', htook⟩
        · rw [hl] at he
          cases he
        · rw [ha] at he
          cases he
          rw [v'.findHandle] at he'
          cases he'
          have hdw : d.websocket = false := by
            cases hdw : d.websocket with
            | false => rfl
            | true =>
              rw [htook.websocket hdw] at hew
              cases hew
          rw [u.findHandle, v'.findHandle]
          exact ⟨⟨d, rfl, hdw⟩, htook.shorter hdw⟩)
      ⟨c, said, t⟩ hs ⟨d, u.findHandle, hws⟩
    rw [t.findHandle] at hn
    have hle : n ≤ c.rqst.length := Nat.le_trans (Nat.le_add_right _ _) hn
    obtain ⟨m, hm⟩ := Nat.exists_eq_add_of_le hle
    unfold recvLoop
    rw [hm, Nat.add_assoc, hrun]
    rcases u.recvPass (W := W) with ⟨v, hl, hiff, -⟩ | ⟨hnot, -⟩
    · rw [Loop.run_leave hl]
      exact hiff.2 hd
    · rw [hd] at hnot
      cases hnot

end Told

/-! ## Steps and runs -/

/-- The rest of the server returns, whatever happens. -/
theorem fault_poll (i : w.Inv) (hf : w.fault = none) : (w.tcpServerPoll W p).fault = none := by
  unfold tcpServerPoll
  cases h : w.findClient p with
  | none => exact hf
  | some c =>
    simp only
    split
    · next hpcb =>
      have t := Told.start i hf h
      have hwrite : ∃ d, Told p c.handle d [] w (if c.moreToSend = true then w.writeNext W c.pcb else w) := by
        split
        · obtain ⟨d, -, u⟩ := t.sends (writeNext_moves (W := W) i (i.queueing t.findHandle).1)
            ((fault_writeNext _ _).trans hf)
          exact ⟨d, u⟩
        · exact ⟨c, t⟩
      obtain ⟨d, u⟩ := hwrite
      generalize (if c.moreToSend = true then w.writeNext W c.pcb else w) = v at u
      have hidle : ∃ e, Told p c.handle e [] w (v.pollIdle W p d) := by
        unfold pollIdle
        split
        · split
          · next hclose =>
            have hws : (!d.wsCloseSent) = true := by
              rw [Bool.and_eq_true] at hclose
              exact hclose.2
            obtain ⟨e, -, u'⟩ := u.sendClose (W := W) []
            rw [if_pos hws] at u'
            exact ⟨e, u'⟩
          · unfold markForClose
            rw [u.find]
            exact ⟨_, u.put d.setClosed rfl (.setClosed rfl u.find)⟩
        · exact ⟨d, u⟩
      obtain ⟨e, u'⟩ := hidle
      rw [deref_of_some u.findHandle, andThen_of_none u'.fault, deref_of_some u'.findHandle]
      split
      · exact (fault_closeClient _ _ _).trans u'.fault
      · exact u'.fault
    · exact (fault_closeClient _ _ _).trans hf

/-- **Every event but a segment returns.** -/
theorem step_returns (i : w.Inv) (hf : w.fault = none) {e : Event} (ha : Allowed w e)
    (he : ∀ p data, e ≠ .recv p (some data)) : (w.step W e).fault = none := by
  rw [step_of_none hf]
  cases e with
  | accept p err =>
    rcases accept_cases (W := W) i ha with ⟨he, -⟩ | ⟨-, hp0, hp, k, hh, he⟩
    · simp only [he]
      exact hf
    · simp only [he, addClient_eq ((i.reg.find_none).1 hp) hh]
      exact hf
  | recv p segment =>
    cases segment with
    | some data => exact absurd rfl (he p data)
    | none => exact (fault_closeClient _ _ _).trans hf
  | sent p len =>
    show (w.tcpServerSent W p len).fault = none
    unfold tcpServerSent
    simp only
    split
    · exact (fault_writeNext _ _).trans hf
    · exact (fault_writeNext _ _).trans hf
  | poll p => exact fault_poll i hf
  | err p =>
    show (w.tcpServerErr p).fault = none
    unfold tcpServerErr
    simp only
    split
    · exact (fault_deleteClient _ _).trans hf
    · exact hf
  | app a => exact call_fault i hf a
  | sendBuffer p data allocated => exact (fault_sendBuffer _ _ _ _ _).trans hf
  | writeNext p => exact (fault_writeNext _ _).trans hf

/-- No pass over the segment drops its client. -/
def Survives (W : World) (w : Web) : Event → Prop
  | .recv p (some data) => ∀ c, w.findClient p = some c → data.val ≠ [] →
    ∀ s, Loop.Reaches (recvPass W c.handle) (w.put { c with rqst := c.rqst ++ data.val }) s → drops W c.handle s = false
  | _ => True

/-- **A step uses a deleted client exactly when a pass over its segment drops it.** -/
theorem dangling_step_iff (i : w.Inv) (hf : w.fault = none) {e : Event} (ha : Allowed w e) :
    (w.step W e).fault ≠ some .dangling ↔ Survives W w e := by
  by_cases hrecv : ∃ p data, e = .recv p (some data)
  · obtain ⟨p, data, rfl⟩ := hrecv
    unfold Survives
    cases h : w.findClient p with
    | none =>
      have hstep : w.step W (.recv p (some data)) = w := by
        rw [step_of_none hf]
        show w.tcpServerRecv W p (some data.val) = w
        unfold tcpServerRecv
        rw [h]
      rw [hstep, hf]
      refine ⟨fun _ d hd => ?_, fun _ => nofun⟩
      rw [h] at hd
      cases hd
    | some c =>
      have t := Told.start i hf h
      by_cases hempty : data.val = []
      · rw [t.recv_empty hempty, hf]
        exact ⟨fun _ _ _ hne => absurd hempty hne, fun _ => nofun⟩
      · obtain ⟨u, hstep⟩ := t.recv_eq (W := W) hempty
        rw [hstep, Ne, u.recvLoop_dangling_iff]
        constructor
        · intro hnot d hd _ s hs
          rw [h] at hd
          cases hd
          rw [← Bool.not_eq_true]
          exact fun hdrop => hnot ⟨s, hs, hdrop⟩
        · rintro hall ⟨s, hs, hdrop⟩
          rw [hall c h hempty s hs] at hdrop
          cases hdrop
  · have hne : ∀ p data, e ≠ .recv p (some data) := fun p data he => hrecv ⟨p, data, he⟩
    rw [step_returns i hf ha hne]
    have : Survives W w e := by
      unfold Survives
      split
      · next p data => exact absurd rfl (hne p data)
      · trivial
    exact ⟨fun _ => this, fun _ => nofun⟩

/-- **The loop works only on a client that is there**, in every run in which no pass drops its client; and at any point
of any run, that is what it takes. -/
theorem dangling_iff (W : World) :
    (∀ w, Reachable W (fun w e => Allowed w e ∧ Survives W w e) w → w.fault ≠ some .dangling) ∧
    ∀ w e, Reachable W Allowed w → w.fault = none → Allowed w e →
      ((w.step W e).fault ≠ some .dangling ↔ Survives W w e) := by
  refine ⟨fun w hr => ?_, fun w e hr hf ha => dangling_step_iff (inv_reachable (fun _ _ => id) hr) hf ha⟩
  suffices h : w.Inv ∧ w.fault ≠ some .dangling from h.2
  have hinit : ({} : Web).fault ≠ some .dangling := by decide
  refine History.inv_of_reach (I := fun s => s.Inv ∧ s.fault ≠ some .dangling) ⟨inv_init, hinit⟩ ?_ hr
  rintro s e ⟨i, hs⟩ ⟨ha, hsurvives⟩
  refine ⟨inv_step i ha, ?_⟩
  cases hf : s.fault with
  | some f => rw [step_of_fault hf]; exact hs
  | none => exact (dangling_step_iff i hf ha).2 hsurvives

theorem dangling_iff_page :
    (runOf pageWorld (pageRun.take 2)).fault ≠ some .dangling ∧
    (((runOf pageWorld (pageRun.take 2)).step pageWorld (.recv 1 (some getRequest))).fault ≠ some .dangling ↔
      Survives pageWorld (runOf pageWorld (pageRun.take 2)) (.recv 1 (some getRequest))) := by
  have hpage : Reachable pageWorld Allowed (runOf pageWorld (pageRun.take 1)) := runOf_reachable (by decide)
  have hrecv : Survives pageWorld (runOf pageWorld (pageRun.take 1)) (.recv 1 (some getRequest)) :=
    (dangling_step_iff (inv_reachable (fun _ _ => id) hpage) (by decide) (e := .recv 1 (some getRequest)) trivial).1
      (by decide)
  have haccept : Reachable pageWorld (fun w e => Allowed w e ∧ Survives pageWorld w e)
      (runOf pageWorld (pageRun.take 1)) := History.Reach.step .init (e := Event.accept 1 0) ⟨by decide, trivial⟩
  exact ⟨(dangling_iff pageWorld).1 _
      (History.Reach.step haccept (e := Event.recv 1 (some getRequest)) ⟨trivial, hrecv⟩),
    (dangling_iff pageWorld).2 _ _ (runOf_reachable (by decide)) (by decide) trivial⟩

/-- A callback that answers a request by sending nothing. -/
def silentWorld : World := { httpCallback := some fun _ _ _ _ => {} }

theorem dangling_silent : ¬ ∀ (W : World) (w : Web), Reachable W Allowed w → w.fault ≠ some .dangling := by
  intro h
  exact h silentWorld (runOf silentWorld [.accept 1 0, .recv 1 (some getRequest)]) (runOf_reachable (by decide))
    (by decide)

end Web
end Pico
