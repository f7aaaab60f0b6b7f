import Picolibs.Frames
import Picolibs.Spoken
/-!
# Handshake — where a CLOSE is queued, and what may follow it (`process_websocket`, `tcp_server_poll`)

A CLOSE frame is queued where the idle poll starts the closing or the peer's is answered.  `ws_close_sent_` is set then,
but only a marked client has lost its pcb: between the poll's CLOSE and the marking (`closing`) the senders still find
the connection.  `Hands` is what is queued while `ws_close_sent_` goes from one value to another, and `Shakes` says it of
a step; a closing client is sent something exactly where the program speaks to it or a PING of it is answered
(`Passes.silent_iff` for its own segments, `other_adds` for the events of others).
-/
namespace Pico
namespace Web

open Ws (Frame)

variable {W : World} {w w' w'' : Web} {p q : Pcb} {c d : Client} {h : ClientHandle}

/-! ## CLOSE and what is queued -/

/-- Only the last frame may be a CLOSE. -/
def CloseLast (frames : List Bytes) : Prop := ∀ f ∈ frames.dropLast, isClose f = false

/-- The frames queued while `ws_close_sent_` goes from `b` to `b'`. -/
structure Hands (b b' : Bool) (frames : List Bytes) : Prop where
  shut : b = true → b' = true ∧ frames = []
  data : b' = false → ∀ f ∈ frames, isClose f = false
  last : CloseLast frames

theorem Hands.trans {b b' b'' : Bool} {fs fs' : List Bytes} (hs : Hands b b' fs) (hs' : Hands b' b'' fs') :
    Hands b b'' (fs ++ fs') := by
  have hopen : b'' = false → b' = false := fun h'' => by
    cases hb : b' with
    | false => rfl
    | true => rw [(hs'.shut hb).1] at h''; cases h''
  refine ⟨fun hb => ?_, fun h'' f hf => ?_, fun f hf => ?_⟩
  · obtain ⟨hb', rfl⟩ := hs.shut hb
    exact hs'.shut hb'
  · exact (List.mem_append.1 hf).elim (hs.data (hopen h'') f) (hs'.data h'' f)
  · cases fs' with
    | nil =>
      rw [List.append_nil] at hf
      exact hs.last f hf
    | cons x xs =>
      rw [List.dropLast_append_of_ne_nil (List.cons_ne_nil x xs)] at hf
      have hb' : b' = false := Bool.eq_false_iff.2 fun hb => List.cons_ne_nil x xs (hs'.shut hb).2
      exact (List.mem_append.1 hf).elim (hs.data hb' f) (hs'.last f)

/-- Two states of a websocket's client: `ws_close_sent_` became `b`. -/
structure SameSocket (c : Client) (b : Bool) (d : Client) : Prop where
  handle : d.handle = c.handle
  websocket : d.websocket = c.websocket
  wsCloseSent : d.wsCloseSent = b

theorem SameRequest.socket (hs : SameRequest c d) : SameSocket c c.wsCloseSent d :=
  ⟨hs.handle, hs.websocket, hs.wsCloseSent⟩

/-- Frames were queued on the connection, where the client was `c`, and `ws_close_sent_` was set accordingly. -/
def Shakes (p : Pcb) (c : Client) (w w' : Web) : Prop :=
  ∃ b frames, queuedOn p w' = queuedOn p w ++ frames ∧ Hands c.wsCloseSent b frames ∧
    ∀ d, w'.findClient p = some d → SameSocket c b d

namespace Shakes

theorem trans (s : Shakes p c w w') (hd : w'.findClient p = some d) (s' : Shakes p d w' w'') : Shakes p c w w'' := by
  obtain ⟨b, fs, hq, hs, hsame⟩ := s
  obtain ⟨b', fs', hq', hs', hsame'⟩ := s'
  have hcd := hsame d hd
  rw [hcd.wsCloseSent] at hs'
  refine ⟨b', fs ++ fs', by rw [hq', hq, List.append_assoc], hs.trans hs', fun e he => ?_⟩
  have hde := hsame' e he
  exact ⟨hde.handle.trans hcd.handle, hde.websocket.trans hcd.websocket, hde.wsCloseSent⟩

/-- Data frames are queued, or nothing. -/
theorem adds {T : Prop} (ha : Adds p T w w') (hsent : c.wsCloseSent = true → ¬ T)
    (hsame : ∀ d, w'.findClient p = some d → SameSocket c c.wsCloseSent d) : Shakes p c w w' := by
  obtain ⟨frames, hq, hn, hs⟩ := ha
  refine ⟨c.wsCloseSent, frames, hq, ⟨fun hb => ⟨hb, ?_⟩, fun _ => hn, fun f hf => ?_⟩, hsame⟩
  · exact not_not.1 (mt hs.1 (hsent hb))
  · exact hn f (List.dropLast_subset frames hf)

/-- Nothing is queued. -/
theorem still (hq : queuedOn p w' = queuedOn p w)
    (hsame : ∀ d, w'.findClient p = some d → SameSocket c c.wsCloseSent d) : Shakes p c w w' :=
  adds (Adds.still hq) (fun _ => id) hsame

theorem grows (s : Shakes p c w w') : queuedOn p w <+: queuedOn p w' := by
  obtain ⟨-, frames, hq, -⟩ := s
  exact ⟨frames, hq.symm⟩

end Shakes

/-- The client that is found is this one. -/
theorem found {b : Bool} (hd : w.findClient p = some d) (hs : SameSocket c b d) :
    ∀ e, w.findClient p = some e → SameSocket c b e := by
  intro e he
  rw [hd] at he
  cases he
  exact hs

theorem Adds.grows {T : Prop} (ha : Adds p T w w') : queuedOn p w <+: queuedOn p w' := by
  obtain ⟨frames, hq, -⟩ := ha
  exact ⟨frames, hq.symm⟩

/-- A CLOSE was queued on the connection. -/
def Announced (p : Pcb) (w w' : Web) : Prop :=
  ∃ frames f, queuedOn p w' = queuedOn p w ++ frames ∧ f ∈ frames ∧ isClose f = true

theorem Announced.later (ha : Announced p w w') (hg : queuedOn p w' <+: queuedOn p w'') : Announced p w w'' := by
  obtain ⟨frames, f, hq, hf, hclose⟩ := ha
  obtain ⟨more, hmore⟩ := hg
  exact ⟨frames ++ more, f, by rw [← hmore, hq, List.append_assoc], List.mem_append_left _ hf, hclose⟩

theorem Announced.earlier (hg : queuedOn p w <+: queuedOn p w') (ha : Announced p w' w'') : Announced p w w'' := by
  obtain ⟨frames, f, hq, hf, hclose⟩ := ha
  obtain ⟨more, hmore⟩ := hg
  exact ⟨more ++ frames, f, by rw [hq, ← hmore, List.append_assoc], List.mem_append_right _ hf, hclose⟩

/-- The client was sent a CLOSE, and the senders still find it. -/
def closing (p : Pcb) (w : Web) : Bool := (w.findClient p).any fun c => c.wsCloseSent && !c.closed

theorem closing_iff (hc : w.findClient p = some c) :
    closing p w = true ↔ c.wsCloseSent = true ∧ c.closed = false := by
  rw [closing, hc, Option.any_some, Bool.and_eq_true, Bool.not_eq_true']

theorem closing_same (hc : w.findClient p = some c) (hd : w'.findClient p = some d) (hs : SameRequest c d) :
    closing p w' = closing p w := by
  rw [closing, closing, hc, hd, Option.any_some, Option.any_some, hs.wsCloseSent, hs.closed]

/-- What is queued by sending a frame on a client's pcb. -/
theorem queuedOn_send (i : w.Inv) (hc : w.findClient p = some c) (opc : Ws.OpCode) (payload : Bytes) :
    queuedOn p (w.sendWebsocket W c.pcb opc payload) =
      queuedOn p w ++ if c.closed then [] else [cut (Ws.plainFrame opc payload)] := by
  rcases i.reg.find_pcb hc with ⟨hclosed, h0⟩ | ⟨hopen, hpcb⟩
  · rw [if_pos hclosed, List.append_nil, (mute_sendWebsocket (by rw [h0]; exact (i.reg.find hc).2.2.1.symm) _ _).queued]
  · have hq := (sendWebsocket_queues (W := W) i hc hopen opc payload).queued p
    rw [hc, Option.bind_some, only, if_pos rfl] at hq
    rw [hpcb, hq, hopen]
    rfl

/-- **CLOSE is sent once**: by the poll, or in answer to the client's. -/
theorem sendClose_shakes (i : w.Inv) (hc : w.findClient p = some c) (hno : c.wsCloseSent = false)
    (payload : Bytes) :
    Shakes p c w ((w.put (c.setWSCloseSent W w.tick)).sendWebsocket W c.pcb .close payload) ∧
      queuedOn p ((w.put (c.setWSCloseSent W w.tick)).sendWebsocket W c.pcb .close payload) =
        queuedOn p w ++ (if c.closed then [] else [cut (Ws.plainFrame .close payload)]) := by
  have ha := sameRequest_activity (W := W) (c := c) w.tick
  obtain ⟨hm, hc1, hpcb⟩ := setWSCloseSent_moves (W := W) i hc
  have i1 := hm.inv i
  have hclosed : (c.setWSCloseSent W w.tick).closed = c.closed := ha.closed
  have hq := queuedOn_send (W := W) i1 hc1 .close payload
  have hqueueing := i1.queueing (t := .call) (i1.reg.find hc1).2.1
  rw [hpcb] at hq hqueueing
  rw [hclosed] at hq
  refine ⟨⟨true, _, hq, ⟨fun hb => ?_, nofun, fun f hf => ?_⟩, fun e he => ?_⟩, hq⟩
  · rw [hno] at hb
    cases hb
  · split at hf <;> cases hf
  · obtain ⟨d, hd, hs⟩ := (sendWebsocket_moves (W := W) i1 hqueueing .close payload).keeps i1 nofun hc1
    rw [hd] at he
    cases he
    exact ⟨hs.handle.trans ha.handle, hs.websocket.trans ha.websocket, hs.wsCloseSent⟩

/-- Marking leaves the client closed. -/
theorem find_markForClose (i : w.Inv) (hc : w.findClient p = some c) :
    ∃ d, (w.markForClose c.pcb).findClient p = some d ∧ d.closed = true ∧ SameSocket c c.wsCloseSent d := by
  unfold markForClose
  rcases i.reg.find_pcb hc with ⟨hclosed, h0⟩ | ⟨-, hpcb⟩
  · rw [h0, i.reg.find_zero]
    exact ⟨c, hc, hclosed, rfl, rfl, rfl⟩
  · rw [hpcb, hc]
    exact ⟨c.setClosed, i.find_put hc c.setClosed rfl, rfl, rfl, rfl, rfl⟩

/-! ## A frame of the client -/

/-- **A frame that is no CLOSE** draws frames from the program's calls or a PONG. -/
theorem processWebsocket_data (i : w.Inv) (hf : w.fault = none) (hc : w.findClient p = some c)
    (hws : c.websocket = true) {payload : Bytes} (hp : payloadOf c = .ok payload)
    (hraw : ∀ a ∈ frameCalls W w.tick c, a.raw c.handle = false) (hop : c.wshdr.opcode ≠ Ws.OpCode.close.code) :
    Adds p (c.closed = false ∧ (c.wshdr.opcode = Ws.OpCode.ping.code ∨
        ∃ a ∈ frameCalls W w.tick c, a.speaks c.handle = true)) w (w.processWebsocket W c.handle) ∧
      ∃ d, (w.processWebsocket W c.handle).findClient p = some d ∧ SameRequest c d := by
  have hreq := sameRequest_activity (W := W) (c := c) w.tick
  have u := ((Told.start i hf hc).activity (W := W) w.tick).record (a := .frame c.handle c.wshdr.opcode payload)
    (beq_self_eq_true _)
  have hstart : queuedOn p ((w.put (c.activity W w.tick)).record (.frame c.handle c.wshdr.opcode payload)) =
      queuedOn p w := queuedOn_record rfl
  have hlist := frameCalls_same (W := W) hreq w.tick
  have htick : ((w.put (c.activity W w.tick)).record (.frame c.handle c.wshdr.opcode payload)).tick = w.tick := rfl
  unfold payloadOf at hp
  unfold processWebsocket
  rw [deref_of_some (i.reg.find hc).2.1]
  dsimp only
  rw [hreq.rqst, hreq.wshdr, hp]
  dsimp only
  generalize (w.put (c.activity W w.tick)).record (.frame c.handle c.wshdr.opcode payload) = v at u hstart htick
  generalize c.activity W w.tick = e at hreq u hlist
  by_cases htext : c.wshdr.opcode = Ws.OpCode.text.code
  · have hping : c.wshdr.opcode ≠ Ws.OpCode.ping.code := by rw [htext]; decide
    rw [if_pos htext]
    cases hcb : W.messageCallback with
    | none =>
      refine ⟨(Adds.still hstart).congr (iff_of_false id ?_), e, u.find, hreq⟩
      rintro ⟨-, h | ⟨a, ha, -⟩⟩
      · exact hping h
      · simp only [frameCalls, if_pos htext, hcb] at ha
        exact List.not_mem_nil ha
    | some callback =>
      have hcalls : frameCalls W w.tick c = callback v.tick c.handle payload := by
        simp only [frameCalls, payloadOf, if_pos htext, hcb, hp, htick]
      rw [hcalls] at hraw
      obtain ⟨-, -, ⟨d, hd, hsame⟩, hadds⟩ := told_adds (W := W) u.inv u.fault u.find (hreq.websocket.trans hws)
        (k := c.handle) (a := .message c.handle payload) (beq_self_eq_true _) (callback v.tick c.handle payload)
        (by rw [hreq.handle]; exact hraw)
      refine ⟨(Adds.after hstart hadds).congr ?_, d, hd, hreq.trans hsame⟩
      rw [spokenTo_same hreq, SpokenTo, hcalls, or_iff_right hping]
  · rw [if_neg htext]
    have hnone : frameCalls W w.tick c = [] := if_neg htext
    rw [hnone]
    by_cases hping : c.wshdr.opcode = Ws.OpCode.ping.code
    · have hq := queuedOn_send (W := W) u.inv u.find .pong payload
      have hqueueing := u.inv.queueing (t := .call) (u.inv.reg.find u.find).2.1
      obtain ⟨d, hd, hsame⟩ := (sendWebsocket_moves (W := W) u.inv hqueueing .pong payload).keeps u.inv
        (Option.some_ne_none p).symm u.find
      rw [if_pos hping]
      refine ⟨Adds.after hstart ⟨_, hq, fun f hf => ?_, ?_⟩, d, hd, hreq.trans hsame⟩
      · split at hf
        · cases hf
        · rw [List.mem_singleton.1 hf]
          exact isClose_cut .pong payload (by decide)
      · rw [hreq.closed]
        cases c.closed <;> simp [hping]
    · rw [if_neg hping, if_neg hop]
      refine ⟨(Adds.still hstart).congr (iff_of_false id ?_), e, u.find, hreq⟩
      rintro ⟨-, h | ⟨a, ha, -⟩⟩
      · exact hping h
      · exact List.not_mem_nil ha

/-- **A CLOSE** is answered with CLOSE, unless one was sent, and its client is marked. -/
theorem processWebsocket_close (i : w.Inv) (hf : w.fault = none) (hc : w.findClient p = some c) {payload : Bytes}
    (hp : payloadOf c = .ok payload) (hop : c.wshdr.opcode = Ws.OpCode.close.code) :
    Shakes p c w (w.processWebsocket W c.handle) ∧
      ∃ d, (w.processWebsocket W c.handle).findClient p = some d ∧ d.closed = true := by
  have hreq := sameRequest_activity (W := W) (c := c) w.tick
  have u := ((Told.start i hf hc).activity (W := W) w.tick).record (a := .frame c.handle c.wshdr.opcode payload)
    (beq_self_eq_true _)
  have hstart : Shakes p c w ((w.put (c.activity W w.tick)).record (.frame c.handle c.wshdr.opcode payload)) :=
    Shakes.still (queuedOn_record rfl) (found u.find hreq.socket)
  unfold payloadOf at hp
  unfold processWebsocket
  rw [deref_of_some (i.reg.find hc).2.1]
  dsimp only
  rw [hreq.rqst, hreq.wshdr, hp]
  dsimp only
  rw [if_neg (by rw [hop]; decide), if_neg (by rw [hop]; decide), if_pos hop]
  generalize (w.put (c.activity W w.tick)).record (.frame c.handle c.wshdr.opcode payload) = v at u hstart
  generalize c.activity W w.tick = e at hreq u
  obtain ⟨d, -, t⟩ := u.sendClose (W := W) payload
  have hclose : Shakes p e v (if !e.wsCloseSent then
      (v.put (e.setWSCloseSent W v.tick)).sendWebsocket W e.pcb .close payload else v) := by
    cases hno : e.wsCloseSent with
    | false => exact (sendClose_shakes u.inv u.find hno payload).1
    | true => exact Shakes.still rfl (found u.find ⟨rfl, rfl, rfl⟩)
  rw [andThen_of_none t.fault, deref_of_some t.findHandle]
  obtain ⟨x, hx, hclosed, hsocket⟩ := find_markForClose t.inv t.find
  exact ⟨hstart.trans u.find (hclose.trans t.find (Shakes.still (mute_markForClose p _).queued (found hx hsocket))),
    x, hx, hclosed⟩

theorem resetRqst_socket (c : Client) : SameSocket c c.wsCloseSent c.resetRqst ∧ c.resetRqst.closed = c.closed := by
  unfold Client.resetRqst
  split <;> exact ⟨⟨rfl, rfl, rfl⟩, rfl⟩

/-- The frame draws an answer: a PONG, or what the program sends the client when it is told. -/
def Draws (W : World) (h : ClientHandle) (w : Web) (f : Frame) : Prop :=
  f.opcode = Ws.OpCode.ping.code ∨ ∃ a ∈ called W h w, a.speaks h = true

/-- **A pass over a frame of the client.** -/
theorem pass_frame {v : Web} (i : w.Inv) (hf : w.fault = none) (hc : w.findClient p = some c)
    (hws : c.websocket = true) {f : Frame} {rest : Bytes} (hr : c.rqst = f.bytes ++ rest)
    (ha : recvPass W c.handle w = .again v) (hraw : ∀ a ∈ called W c.handle w, a.raw c.handle = false) :
    (f.opcode = Ws.OpCode.close.code → called W c.handle w = [] ∧ Shakes p c w v ∧
      ∃ d, v.findClient p = some d ∧ d.closed = true) ∧
    (f.opcode ≠ Ws.OpCode.close.code → Adds p (c.closed = false ∧ Draws W c.handle w f) w v ∧
      ∃ d, v.findClient p = some d ∧ SameSocket c c.wsCloseSent d ∧ d.closed = c.closed) := by
  have t := Told.start i hf hc
  obtain ⟨hdr, hready, hop, -, -, hsub⟩ := frame_ready hws f hr
  have u : Told p c.handle { c with wshdr := hdr, rqst := f.head ++ f.payload ++ rest } [] w
      (w.put { c with wshdr := hdr, rqst := f.head ++ f.payload ++ rest }) := t.request ⟨rfl, rfl, rfl, rfl⟩
  have hcalled : called W c.handle w =
      frameCalls W w.tick { c with wshdr := hdr, rqst := f.head ++ f.payload ++ rest } := by
    rw [called_eq t.findHandle hready]
    exact if_pos hws
  have hput : queuedOn p (w.put { c with wshdr := hdr, rqst := f.head ++ f.payload ++ rest }) = queuedOn p w := rfl
  have hsock : SameSocket c c.wsCloseSent { c with wshdr := hdr, rqst := f.head ++ f.payload ++ rest } := ⟨rfl, rfl, rfl⟩
  obtain ⟨e, -, x⟩ := u.processWebsocket (W := W) hsub
  have hv : v = ((w.put { c with wshdr := hdr, rqst := f.head ++ f.payload ++ rest }).processWebsocket W c.handle).put
      e.resetRqst := by
    have hw : (!c.websocket) = false := by rw [hws]; rfl
    unfold recvPass at ha
    rw [t.findHandle] at ha
    simp only [hready, if_true, hw, Bool.false_eq_true, if_false, x.fault, x.findHandle, Option.isSome_none] at ha
    exact (Loop.Pass.again.inj ha).symm
  have hfind : v.findClient p = some e.resetRqst := by
    rw [hv]
    exact (x.request (resetRqst_same e)).find
  have hlast : queuedOn p v = queuedOn p
      ((w.put { c with wshdr := hdr, rqst := f.head ++ f.payload ++ rest }).processWebsocket W c.handle) := by rw [hv]; rfl
  obtain ⟨hreset, hresetClosed⟩ := resetRqst_socket e
  rw [hcalled] at hraw
  refine ⟨fun hclose => ?_, fun hdata => ?_⟩
  · have hclose' : hdr.opcode = Ws.OpCode.close.code := hop.trans hclose
    obtain ⟨hshakes, d, hd, hclosed⟩ := processWebsocket_close (W := W) u.inv hf u.find hsub hclose'
    rw [x.find] at hd
    cases hd
    refine ⟨?_, ?_, e.resetRqst, hfind, hresetClosed.trans hclosed⟩
    · rw [hcalled]
      exact if_neg (by rw [hclose']; decide)
    · refine (Shakes.still hput (found u.find hsock)).trans u.find (hshakes.trans x.find ?_)
      exact Shakes.still hlast (found hfind hreset)
  · obtain ⟨hadds, d, hd, hsame⟩ := processWebsocket_data (W := W) u.inv hf u.find hws hsub hraw
      (by rw [hop]; exact hdata)
    rw [x.find] at hd
    cases hd
    refine ⟨((Adds.after hput hadds).settled hlast).congr ?_, e.resetRqst, hfind, ?_, hresetClosed.trans hsame.closed⟩
    · rw [Draws, hcalled, hop]
      rfl
    · exact ⟨hreset.handle.trans hsame.handle, hreset.websocket.trans hsame.websocket,
        hreset.wsCloseSent.trans hsame.wsCloseSent⟩

/-! ## The passes over a segment -/

/-- Nothing is drawn from the frames while the client is closing: the program is silent, and each PING stands behind a
CLOSE. -/
structure Silent (W : World) (p : Pcb) (h : ClientHandle) (w : Web) (fs : List Frame) : Prop where
  calls : ∀ s, Loop.Reaches (recvPass W h) w s → closing p s = true → ∀ a ∈ called W h s, a.speaks h = false
  pings : ∀ before f after, fs = before ++ f :: after → f.opcode = Ws.OpCode.ping.code →
    ∃ g ∈ before, g.opcode = Ws.OpCode.close.code

theorem not_draws_iff (W : World) (h : ClientHandle) (w : Web) (f : Frame) :
    ¬ Draws W h w f ↔ f.opcode ≠ Ws.OpCode.ping.code ∧ ∀ a ∈ called W h w, a.speaks h = false := by
  rw [Draws, not_or, not_exists]
  refine and_congr_right fun _ => forall_congr' fun a => ?_
  rw [not_and, Bool.not_eq_true]

/-- A frame that is no CLOSE, in front of others. -/
theorem silent_cons {v : Web} {f : Frame} {fs : List Frame} (ha : recvPass W h w = .again v)
    (hclosing : closing p w = true) (hop : f.opcode ≠ Ws.OpCode.close.code) :
    Silent W p h w (f :: fs) ↔ ¬ Draws W h w f ∧ Silent W p h v fs := by
  rw [not_draws_iff]
  constructor
  · intro hs
    refine ⟨⟨fun hping => ?_, hs.calls w .start hclosing⟩, fun s hr => hs.calls s ((Loop.reaches_again ha).2 (.inr hr)), ?_⟩
    · obtain ⟨g, hg, -⟩ := hs.pings [] f fs rfl hping
      exact List.not_mem_nil hg
    · rintro before g after rfl hping
      obtain ⟨x, hx, hclose⟩ := hs.pings (f :: before) g after rfl hping
      rcases List.mem_cons.1 hx with rfl | hx
      · exact absurd hclose hop
      · exact ⟨x, hx, hclose⟩
  · rintro ⟨⟨hping, hcalls⟩, hs⟩
    refine ⟨fun s hr hc => ?_, fun before g after he hg => ?_⟩
    · rcases (Loop.reaches_again ha).1 hr with rfl | hr
      · exact hcalls
      · exact hs.calls s hr hc
    · cases before with
      | nil =>
        cases he
        exact absurd hg hping
      | cons x before =>
        cases he
        obtain ⟨y, hy, hclose⟩ := hs.pings before g after rfl hg
        exact ⟨y, List.mem_cons_of_mem _ hy, hclose⟩

namespace Passes

variable {fs : List Frame} {v : Web}

/-- Nothing but frames is sent to the client. -/
def Plain (W : World) (h : ClientHandle) (w : Web) : Prop :=
  ∀ s, Loop.Reaches (recvPass W h) w s → ∀ a ∈ called W h s, a.raw h = false

theorem Plain.tail (hp : Plain W h w) (ha : recvPass W h w = .again v) : Plain W h v :=
  fun s hs => hp s ((Loop.reaches_again ha).2 (.inr hs))

/-- A pass does not start the closing, and a CLOSE ends it. -/
theorem closing_of (hp : Passes W p h w fs v) (hplain : Plain W h w) :
    (closing p v = true → closing p w = true) ∧
      ∀ s, Loop.Reaches (recvPass W h) w s → closing p s = true → closing p w = true := by
  induction hp with
  | @part w c hdr i hc hh _ hl =>
    refine ⟨fun hclosing => ?_, fun s hs hclosing => ?_⟩
    · exact (closing_iff hc).2 ((closing_iff (i.find_put hc { c with wshdr := hdr } rfl)).1 hclosing)
    · rw [(Loop.reaches_leave hl).1 hs] at hclosing
      exact hclosing
  | @frame w v v' c f fs rest i hf hc hh hws hr ha _ ih =>
    subst hh
    obtain ⟨hclose, hdata⟩ := pass_frame i hf hc hws hr ha (hplain w .start)
    have hnext : closing p v = true → closing p w = true := fun hclosing => by
      by_cases hop : f.opcode = Ws.OpCode.close.code
      · obtain ⟨-, -, d, hd, hclosed⟩ := hclose hop
        rw [((closing_iff hd).1 hclosing).2] at hclosed
        cases hclosed
      · obtain ⟨-, d, hd, hs, hclosed⟩ := hdata hop
        have hdc := (closing_iff hd).1 hclosing
        exact (closing_iff hc).2 ⟨hs.wsCloseSent ▸ hdc.1, hclosed ▸ hdc.2⟩
    obtain ⟨hend, hall⟩ := ih (hplain.tail ha)
    refine ⟨fun hclosing => hnext (hend hclosing), fun s hs hclosing => ?_⟩
    rcases (Loop.reaches_again ha).1 hs with rfl | hs
    · exact hclosing
    · exact hnext (hall s hs hclosing)

theorem grows (hp : Passes W p h w fs v) (hplain : Plain W h w) : queuedOn p w <+: queuedOn p v := by
  induction hp with
  | part hdr i hc hh _ hl => exact List.prefix_refl _
  | @frame w v v' c f fs rest i hf hc hh hws hr ha _ ih =>
    subst hh
    obtain ⟨hclose, hdata⟩ := pass_frame i hf hc hws hr ha (hplain w .start)
    refine List.IsPrefix.trans ?_ (ih (hplain.tail ha))
    by_cases hop : f.opcode = Ws.OpCode.close.code
    · exact (hclose hop).2.1.grows
    · exact (hdata hop).1.grows

/-- **What is queued in the passes** hands the closing on, where nothing is drawn from a closing client. -/
theorem shakes (hp : Passes W p h w fs v) (hplain : Plain W h w) (hs : closing p w = true → Silent W p h w fs) :
    ∀ c, w.findClient p = some c → Shakes p c w v := by
  induction hp with
  | @part w c hdr i hc hh _ hl =>
    intro c' hc'
    rw [hc] at hc'
    cases hc'
    exact Shakes.still rfl (found (i.find_put hc { c with wshdr := hdr } rfl) ⟨rfl, rfl, rfl⟩)
  | @frame w v v' c f fs rest i hf hc hh hws hr ha hrest ih =>
    subst hh
    intro c' hc'
    rw [hc] at hc'
    cases hc'
    obtain ⟨hclose, hdata⟩ := pass_frame i hf hc hws hr ha (hplain w .start)
    have htail := hplain.tail ha
    by_cases hop : f.opcode = Ws.OpCode.close.code
    · obtain ⟨-, hshakes, d, hd, hclosed⟩ := hclose hop
      refine hshakes.trans hd (ih htail (fun hclosing => ?_) d hd)
      rw [((closing_iff hd).1 hclosing).2] at hclosed
      cases hclosed
    · obtain ⟨hadds, d, hd, hsocket, hclosed⟩ := hdata hop
      have hsilent (hclosing : closing p w = true) := (silent_cons ha hclosing hop).1 (hs hclosing)
      refine (Shakes.adds hadds (fun hsent hdraws => ?_) (found hd hsocket)).trans hd
        (ih htail (fun hclosing => ?_) d hd)
      · exact (hsilent ((closing_iff hc).2 ⟨hsent, hdraws.1⟩)).1 hdraws.2
      · have hdc := (closing_iff hd).1 hclosing
        exact (hsilent ((closing_iff hc).2 ⟨hsocket.wsCloseSent ▸ hdc.1, hclosed ▸ hdc.2⟩)).2

/-- **A closing client is sent nothing exactly where nothing is drawn from its frames.** -/
theorem silent_iff (hp : Passes W p h w fs v) (hplain : Plain W h w) (hclosing : closing p w = true) :
    queuedOn p v = queuedOn p w ↔ Silent W p h w fs := by
  induction hp with
  | @part w c hdr i hc hh hready hl =>
    refine iff_of_true rfl ⟨fun s hs _ a ha => ?_, fun before f after he => ?_⟩
    · have hhandle := (i.reg.find hc).2.1
      rw [hh] at hhandle
      rw [(Loop.reaches_leave hl).1 hs] at ha
      simp only [called, hhandle, Option.map_some, hready] at ha
      exact absurd ha List.not_mem_nil
    · exact absurd he.symm (List.append_ne_nil_of_right_ne_nil before (List.cons_ne_nil f after))
  | @frame w v v' c f fs rest i hf hc hh hws hr ha hrest ih =>
    subst hh
    obtain ⟨hclose, hdata⟩ := pass_frame i hf hc hws hr ha (hplain w .start)
    have htail := hplain.tail ha
    have hgrows := hrest.grows htail
    by_cases hop : f.opcode = Ws.OpCode.close.code
    · obtain ⟨hcalled, hshakes, d, hd, hclosed⟩ := hclose hop
      have hmarked : closing p v ≠ true := fun h => by
        rw [((closing_iff hd).1 h).2] at hclosed
        cases hclosed
      have hstay : ∀ x, Shakes p c w x → queuedOn p x = queuedOn p w := by
        rintro x ⟨b, frames, hq, hhands, -⟩
        rw [hq, (hhands.shut ((closing_iff hc).1 hclosing).1).2, List.append_nil]
      refine iff_of_true ?_ ⟨fun s hs hcs a hmem => ?_, fun before g after he hg => ?_⟩
      · exact hstay v' (hshakes.trans hd (hrest.shakes htail (fun h => absurd h hmarked) d hd))
      · rcases (Loop.reaches_again ha).1 hs with rfl | hs
        · rw [hcalled] at hmem
          exact absurd hmem List.not_mem_nil
        · exact absurd ((hrest.closing_of htail).2 s hs hcs) hmarked
      · cases before with
        | nil =>
          cases he
          rw [hop] at hg
          cases hg
        | cons x before =>
          cases he
          exact ⟨f, List.mem_cons_self, hop⟩
    · obtain ⟨hadds, d, hd, hsocket, hclosed⟩ := hdata hop
      have hc' := (closing_iff hc).1 hclosing
      have hclosing' : closing p v = true :=
        (closing_iff hd).2 ⟨hsocket.wsCloseSent.trans hc'.1, hclosed.trans hc'.2⟩
      rw [silent_cons ha hclosing hop, ← ih htail hclosing', ← and_iff_right hc'.2 (b := Draws W c.handle w f),
        ← hadds.same_iff]
      constructor
      · intro h
        have hle : queuedOn p v <+: queuedOn p w := h ▸ hgrows
        have hsame := hle.eq_of_length_le hadds.grows.length_le
        exact ⟨hsame, h.trans hsame.symm⟩
      · rintro ⟨h1, h2⟩
        exact h2.trans h1

end Passes

/-! ## The condition on a step -/

/-- Every pass over the segment, of the client `k` from the state `s`. -/
def EachPass (W : World) (P : ClientHandle → Web → Prop) (w : Web) : Event → Prop
  | .recv q (some data) => ∀ c, w.findClient q = some c → data.val ≠ [] →
    ∀ s, Loop.Reaches (recvPass W c.handle) (w.put { c with rqst := c.rqst ++ data.val }) s → P c.handle s
  | _ => True

/-- Every call the program makes, on its own or in a pass. -/
def EachCall (W : World) (P : Web → AppCall → Prop) (w : Web) : Event → Prop
  | .app a => P w a
  | e => EachPass W (fun k s => ∀ a ∈ called W k s, P s a) w e

/-- The connection is in use as a websocket: its client is there, and what is sent to it are frames. -/
structure Framed (W : World) (p : Pcb) (h : ClientHandle) (w : Web) (e : Event) : Prop where
  there : (w.findClient p).isSome = true
  bare : ∀ data allocated, e ≠ .sendBuffer p data allocated
  calls : EachCall W (fun _ a => a.raw h = false) w e

/-- Each PING frame that the text begins with, or has behind other frames, stands behind a CLOSE. -/
def PingsBehind (text : Bytes) : Prop := ∀ (before : List Frame) (f : Frame) (more : Bytes),
  text = before.flatMap Frame.bytes ++ f.bytes ++ more → f.opcode = Ws.OpCode.ping.code →
    ∃ g ∈ before, g.opcode = Ws.OpCode.close.code

/-- Nothing is sent to the client while it is closing: the program does not speak to it, and of the frames that a
segment of it completes none before a CLOSE is a PING. -/
structure Quiet (W : World) (p : Pcb) (h : ClientHandle) (w : Web) (e : Event) : Prop where
  calls : EachCall W (fun s a => closing p s = true → a.speaks h = false) w e
  pings : closing p w = true → ∀ data c, e = .recv p (some data) → data.val ≠ [] → w.findClient p = some c →
    PingsBehind (c.rqst ++ data.val)

/-- Frames that begin the text of other frames are these. -/
theorem begin_frames {x more : Bytes} {last : Frame} (hmore : more <+: last.bytes)
    (hlt : more.length < last.bytes.length) : ∀ {before done : List Frame},
    before.flatMap Frame.bytes ++ x = done.flatMap Frame.bytes ++ more →
      ∃ rest : List Frame, before.map Frame.opcode ++ rest.map Frame.opcode = done.map Frame.opcode ∧
        x = rest.flatMap Frame.bytes ++ more
  | [], done, h => ⟨done, rfl, h⟩
  | b :: before, [], h => by
    obtain ⟨y, hy⟩ := hmore
    rw [List.flatMap_cons, List.flatMap_nil, List.nil_append, List.append_assoc] at h
    have hlast : b.bytes ++ (before.flatMap Frame.bytes ++ x ++ y) = last.bytes ++ [] := by
      rw [← List.append_assoc, h, hy, List.append_nil]
    have hlen := (bytes_begin hlast).2.1
    have := congrArg List.length h
    rw [List.length_append] at this
    omega
  | b :: before, g :: done, h => by
    rw [List.flatMap_cons, List.flatMap_cons, List.append_assoc, List.append_assoc] at h
    obtain ⟨hop, -, hrest⟩ := bytes_begin h
    obtain ⟨rest, hops, hx⟩ := begin_frames hmore hlt hrest
    exact ⟨rest, by rw [List.map_cons, List.map_cons, List.cons_append, hops, hop], hx⟩

/-- **The frames of a text are found by their bytes.** -/
theorem pingsBehind_iff {more : Bytes} {last : Frame} (hmore : more <+: last.bytes)
    (hlt : more.length < last.bytes.length) (done : List Frame) :
    PingsBehind (done.flatMap Frame.bytes ++ more) ↔ ∀ before f after, done = before ++ f :: after →
      f.opcode = Ws.OpCode.ping.code → ∃ g ∈ before, g.opcode = Ws.OpCode.close.code := by
  constructor
  · rintro h before f after rfl hping
    refine h before f (after.flatMap Frame.bytes ++ more) ?_ hping
    rw [List.flatMap_append, List.flatMap_cons]
    simp only [List.append_assoc]
  · intro h before f x htext hping
    have hlist : before.flatMap Frame.bytes ++ f.bytes ++ x = (before ++ [f]).flatMap Frame.bytes ++ x := by
      rw [List.flatMap_append, List.flatMap_singleton]
    obtain ⟨rest, hops, -⟩ := begin_frames hmore hlt (hlist.symm.trans htext.symm)
    rw [List.map_append, List.map_singleton, List.append_assoc, List.singleton_append] at hops
    obtain ⟨before', tl, rfl, hb, htl⟩ := List.map_eq_append_iff.1 hops.symm
    obtain ⟨f', after', rfl, hf', -⟩ := List.map_eq_cons_iff.1 htl
    obtain ⟨g, hg, hclose⟩ := h before' f' after' rfl (hf'.trans hping)
    have hmem : g.opcode ∈ before.map Frame.opcode := by
      rw [← hb]
      exact List.mem_map_of_mem hg
    obtain ⟨g', hg', he⟩ := List.mem_map.1 hmem
    exact ⟨g', hg', he.trans hclose⟩

/-! ## Events of others -/

theorem mute_sent (p q : Pcb) (len : Nat) : Mute p w (w.tcpServerSent W q len) := by
  have hsent : Mute p w (w.record (.sent q len)) := Mute.record rfl
  unfold tcpServerSent
  dsimp only
  split
  · exact hsent.trans (mute_writeNext p q)
  · next c _ =>
    have hacked : Mute p (w.record (.sent q len)) (((w.record (.sent q len)).put
        { c with sendbuf := (acknowledge len c.sendbuf).1 }).recordAll
          (releases q .acknowledged (acknowledge len c.sendbuf).2)) := Mute.releases q .acknowledged _
    exact (hsent.trans hacked).trans (mute_writeNext p q)

theorem mute_err (p q : Pcb) : Mute p w (w.tcpServerErr q) := by
  have herr : Mute p w (w.record (.err q)) := Mute.record rfl
  unfold tcpServerErr
  dsimp only
  split
  · exact herr.trans (mute_deleteClient p q)
  · exact herr

theorem mute_pollIdle (hd : d.pcb ≠ p) : Mute p w (w.pollIdle W q d) := by
  unfold pollIdle
  split
  · split
    · exact (Mute.still rfl).trans (mute_sendWebsocket hd _ _)
    · exact mute_markForClose p q
  · exact Mute.still rfl

theorem andThen_mute {next : Web → Web} (m : Mute p w w') (hn : Mute p w' (next w')) : Mute p w (w'.andThen next) := by
  unfold andThen
  split
  · exact m
  · exact m.trans hn

theorem mute_poll (i : w.Inv) (hc : w.findClient p = some c) (hqp : q ≠ p) : Mute p w (w.tcpServerPoll W q) := by
  unfold tcpServerPoll
  cases hq : w.findClient q with
  | none => exact Mute.still rfl
  | some k =>
    have hne : k.handle ≠ c.handle := fun e => hqp (i.reg.find_inj hq hc e)
    dsimp only
    split
    · have hm : Moves (.on q) w (if k.moreToSend = true then w.writeNext W k.pcb else w) := by
        split
        · exact writeNext_moves i (i.queueing (i.reg.find hq).2.1).1
        · exact Moves.refl _ _
      have hmute : Mute p w (if k.moreToSend = true then w.writeNext W k.pcb else w) := by
        split
        · exact mute_writeNext p _
        · exact Mute.still rfl
      obtain ⟨c', hc', hsame⟩ := hm.keeps i (fun e => hqp (Option.some.inj e)) hc
      have i1 := hm.inv i
      generalize (if k.moreToSend = true then w.writeNext W k.pcb else w) = v at hmute hc' i1
      refine hmute.trans ?_
      unfold deref
      cases hk : v.findHandle k.handle with
      | none => exact Mute.still rfl
      | some d =>
        have haway := away i1 hc' hk (by rw [hsame.handle]; exact hne)
        refine andThen_mute (mute_pollIdle haway) ?_
        split
        · dsimp only
          split
          · exact mute_closeClient p q false
          · exact Mute.still rfl
        · exact Mute.still rfl
    · exact mute_closeClient p q false

/-- Nobody speaks to the client in the step. -/
abbrev Unspoken (W : World) (h : ClientHandle) (w : Web) (e : Event) : Prop :=
  EachCall W (fun _ a => a.speaks h = false) w e

/-- What an event of others queues: data frames, some exactly where the program speaks to the open client. -/
structure Elsewhere (W : World) (p : Pcb) (c : Client) (w : Web) (e : Event) (T : Prop) : Prop where
  adds : Adds p T w (w.step W e)
  spoken : T → c.closed = false ∧ ¬ Unspoken W c.handle w e
  unspoken : (w.step W e).fault = none → c.closed = false → ¬ T → Unspoken W c.handle w e

theorem Elsewhere.still {e : Event} (hq : queuedOn p (w.step W e) = queuedOn p w) (hu : Unspoken W c.handle w e) :
    Elsewhere W p c w e False :=
  ⟨Adds.still hq, False.elim, fun _ _ _ => hu⟩

/-- **An event of another connection, or a call.** -/
theorem other_adds (i : w.Inv) (hf : w.fault = none) (hc : w.findClient p = some c) (hws : c.websocket = true)
    {e : Event} (ha : Allowed w e) (hturn : e.turn.pcb ≠ some p) (hraw : EachCall W (fun _ a => a.raw c.handle = false) w e) :
    ∃ T, Elsewhere W p c w e T := by
  have hqp {q : Pcb} (ht : e.turn = .on q ∨ e.turn = .alone q) : q ≠ p := by
    rintro rfl
    rcases ht with ht | ht <;> rw [ht] at hturn <;> exact hturn rfl
  have hstep := step_of_none (W := W) hf e
  cases e with
  | accept q err =>
    refine ⟨False, .still ?_ trivial⟩
    rw [hstep]
    rcases accept_cases (W := W) i ha with ⟨he, -⟩ | ⟨-, hq0, hq, k, hh, he⟩
    · simp only [he]
    · simp only [he, addClient_eq (i.reg.find_none.1 hq) hh]
      refine queuedOn_acts p rfl fun a ha => ?_
      rw [List.mem_singleton.1 ha]
      exact beq_eq_false_iff_ne.2 (hqp (Or.inl rfl))
  | recv q segment =>
    cases segment with
    | none => exact ⟨False, .still (by rw [hstep]; exact (mute_closeClient p q true).queued) trivial⟩
    | some data =>
      have hrecv : w.step W (.recv q (some data)) = w.tcpServerRecv W q (some data.val) := hstep
      unfold tcpServerRecv at hrecv
      cases hq : w.findClient q with
      | none =>
        rw [hq] at hrecv
        refine ⟨False, .still (by rw [hrecv]) fun k hk => ?_⟩
        rw [hq] at hk
        cases hk
      | some k =>
        rw [hq] at hrecv
        dsimp only at hrecv
        by_cases hempty : data.val = []
        · rw [if_pos (by rw [hempty]; rfl)] at hrecv
          exact ⟨False, .still (by rw [hrecv]) fun _ _ hne => absurd hempty hne⟩
        · rw [if_neg (by rw [List.isEmpty_iff]; exact hempty)] at hrecv
          have hm : Moves (.on q) w (w.put { k with rqst := k.rqst ++ data.val }) :=
            Moves.one (.request rfl hq ⟨rfl, rfl, rfl, rfl⟩)
          have hhandle : k.handle ≠ c.handle := fun e => hqp (Or.inl rfl) (i.reg.find_inj hq hc e)
          have hc1 := find_put_other i hc hq hhandle (rfl : ({ k with rqst := k.rqst ++ data.val } : Client).handle = _)
          have hq1 := i.find_put hq { k with rqst := k.rqst ++ data.val } rfl
          obtain ⟨T, hadds, hspoken, hunspoken⟩ := recvLoop_adds (W := W) (hm.inv i) hf hc1 hws hq1 (hqp (Or.inl rfl))
            (fun s hs => hraw k hq hempty s hs) (k.rqst ++ data.val)
          refine ⟨T, by rw [hrecv]; exact Adds.after rfl hadds, fun hT => ?_, fun hfault ho hT => ?_⟩
          · obtain ⟨s, hs, ho, a, hmem, hspeaks⟩ := hspoken hT
            refine ⟨ho, fun hu => ?_⟩
            rw [hu k hq hempty s hs a hmem] at hspeaks
            cases hspeaks
          · intro k' hk' _ s hs a hmem
            rw [hq] at hk'
            cases hk'
            rw [← Bool.not_eq_true]
            rw [hrecv] at hfault
            exact fun hspeaks => hT (hunspoken hfault ⟨s, hs, ho, a, hmem, hspeaks⟩)
  | sent q len => exact ⟨False, .still (by rw [hstep]; exact (mute_sent p q len).queued) trivial⟩
  | poll q => exact ⟨False, .still (by rw [hstep]; exact (mute_poll i hc (hqp (Or.inl rfl))).queued) trivial⟩
  | err q => exact ⟨False, .still (by rw [hstep]; exact (mute_err p q).queued) trivial⟩
  | app a =>
    refine ⟨c.closed = false ∧ a.speaks c.handle = true, by rw [hstep]; exact call_adds i hf hc hws hraw,
      fun hT => ⟨hT.1, fun hu => ?_⟩, fun _ ho hT => ?_⟩
    · have hspeaks := hT.2
      rw [(hu : a.speaks c.handle = false)] at hspeaks
      cases hspeaks
    · exact Bool.eq_false_iff.2 fun hspeaks => hT ⟨ho, hspeaks⟩
  | sendBuffer q data allocated =>
    exact ⟨False, .still (by rw [hstep]; exact (mute_sendBuffer (hqp (Or.inr rfl)) _ _ _).queued) trivial⟩
  | writeNext q => exact ⟨False, .still (by rw [hstep]; exact (mute_writeNext p q).queued) trivial⟩

/-- While others have their turn the closing stays as it is. -/
theorem eachCall_closing (i : w.Inv) (hc : w.findClient p = some c) {e : Event} (hturn : e.turn.pcb ≠ some p)
    (P : AppCall → Prop) : EachCall W (fun s a => closing p s = true → P a) w e ↔
      (closing p w = true → EachCall W (fun _ a => P a) w e) := by
  cases e with
  | app a => exact Iff.rfl
  | recv q segment =>
    cases segment with
    | none => exact iff_of_true trivial fun _ => trivial
    | some data =>
      have hqp : q ≠ p := fun e => hturn (by rw [e]; rfl)
      have hsame {k : Client} (hq : w.findClient q = some k) {s : Web}
          (hs : Loop.Reaches (recvPass W k.handle) (w.put { k with rqst := k.rqst ++ data.val }) s) :
          closing p s = closing p w := by
        have hm : Moves (.on q) w (w.put { k with rqst := k.rqst ++ data.val }) :=
          Moves.one (.request rfl hq ⟨rfl, rfl, rfl, rfl⟩)
        have hq1 := i.find_put hq { k with rqst := k.rqst ++ data.val } rfl
        have hall := hm.trans (reaches_moves (hm.inv i) ((hm.inv i).owns hq1) hs)
        obtain ⟨d, hd, hds⟩ := hall.keeps i (fun e => hqp (Option.some.inj e)) hc
        exact closing_same hc hd hds
      constructor
      · intro h hclosing k hq hne s hs a hmem
        exact h k hq hne s hs a hmem ((hsame hq hs).trans hclosing)
      · intro h k hq hne s hs a hmem hclosing
        exact h ((hsame hq hs).symm.trans hclosing) k hq hne s hs a hmem
  | accept q err => exact iff_of_true trivial fun _ => trivial
  | sent q len => exact iff_of_true trivial fun _ => trivial
  | poll q => exact iff_of_true trivial fun _ => trivial
  | err q => exact iff_of_true trivial fun _ => trivial
  | sendBuffer q data allocated => exact iff_of_true trivial fun _ => trivial
  | writeNext q => exact iff_of_true trivial fun _ => trivial

/-! ## Events of the connection itself -/

/-- What an event of the connection other than a segment leaves of its client: frames may be queued, a CLOSE if the
closing starts, and nothing is told of the client or changed in its buffer. -/
structure Kept (p : Pcb) (c : Client) (w w' : Web) : Prop where
  shakes : Shakes p c w w'
  told : w'.trace.filter (tells c.handle) = w.trace.filter (tells c.handle)
  rqst : ∀ d, w'.findClient p = some d → d.rqst = c.rqst
  closing : closing p w' = true → closing p w = true ∨ Announced p w w'

namespace Kept

theorem trans (k : Kept p c w w') (hd : w'.findClient p = some d) (k' : Kept p d w' w'') : Kept p c w w'' := by
  obtain ⟨b, frames, hq, hs, hsame⟩ := k.shakes
  have htold := k'.told
  rw [(hsame d hd).handle] at htold
  refine ⟨k.shakes.trans hd k'.shakes, htold.trans k.told, fun e he => (k'.rqst e he).trans (k.rqst d hd),
    fun hclosing => ?_⟩
  rcases k'.closing hclosing with hclosing' | hlater
  · exact (k.closing hclosing').imp_right fun ha => ha.later k'.shakes.grows
  · exact Or.inr (hlater.earlier k.shakes.grows)

theorem mute (m : Mute p w w') (hd : w'.findClient p = some d) (hc : w.findClient p = some c) (hs : SameRequest c d) :
    Kept p c w w' := by
  refine ⟨Shakes.still m.queued (found hd hs.socket), m.told _, fun e he => ?_, fun hclosing => Or.inl ?_⟩
  · rw [hd] at he
    cases he
    exact hs.rqst
  · rw [closing_same hc hd hs] at hclosing
    exact hclosing

/-- Nothing is queued, and the client is closed or gone. -/
theorem marked (m : Mute p w w') (hd : ∀ d, w'.findClient p = some d →
    SameSocket c c.wsCloseSent d ∧ d.rqst = c.rqst ∧ d.closed = true) : Kept p c w w' := by
  refine ⟨Shakes.still m.queued fun d h => (hd d h).1, m.told _, fun d h => (hd d h).2.1, fun hclosing => ?_⟩
  unfold Web.closing at hclosing
  cases hf : w'.findClient p with
  | none =>
    rw [hf] at hclosing
    cases hclosing
  | some d =>
    rw [hf, Option.any_some, (hd d hf).2.2, Bool.not_true, Bool.and_false] at hclosing
    cases hclosing

end Kept

theorem find_closeClient (i : w.Inv) (hc : w.findClient p = some c) :
    ∀ d, (w.closeClient W p false).findClient p = some d →
      SameSocket c c.wsCloseSent d ∧ d.rqst = c.rqst ∧ d.closed = true := by
  intro d hd
  have hset : Moves (.on p) w (w.put c.setClosed) := Moves.one (.setClosed rfl hc)
  have hmoves := hset.trans (settle_moves (hset.inv i) (i.find_put hc c.setClosed rfl))
  have hfind := i.find_put hc { c.setClosed with sendbuf := (acknowledge 0 c.sendbuf).1 } rfl
  have i1 := hmoves.inv i
  have hsame {e : Client} (he : some { c.setClosed with sendbuf := (acknowledge 0 c.sendbuf).1 } = some e) :
      SameSocket c c.wsCloseSent e ∧ e.rqst = c.rqst ∧ e.closed = true := by
    cases he
    exact ⟨⟨rfl, rfl, rfl⟩, rfl, rfl⟩
  rw [closeClient_eq hc] at hd
  dsimp only at hd
  split at hd
  · split at hd
    · have hreg : ((((w.put { c.setClosed with sendbuf := (acknowledge 0 c.sendbuf).1 }).recordAll
          (releases p .acknowledged (acknowledge 0 c.sendbuf).2)).record
          (.close p .own (W.altcpClose w.tick))).tock).Registered := ⟨i1.reg.leads, i1.reg.one, i1.reg.led⟩
      rw [hreg.findClient_deleteClient (c := { c.setClosed with sendbuf := (acknowledge 0 c.sendbuf).1 }) hfind,
        if_pos rfl] at hd
      cases hd
    · exact hsame (hfind.symm.trans hd)
  · exact hsame (hfind.symm.trans hd)

theorem closeClient_kept (i : w.Inv) (hc : w.findClient p = some c) : Kept p c w (w.closeClient W p false) :=
  .marked (mute_closeClient p p false) (find_closeClient i hc)

theorem writeNext_kept (i : w.Inv) (hc : w.findClient p = some c) : Kept p c w (w.writeNext W p) := by
  obtain ⟨hm, hfind, hsame⟩ := writeChunk_moves (W := W) (t := .on p) i hc
  have hchunk : Kept p c w (w.writeChunk W p c).1 := .mute (mute_writeChunk p p c) hfind hc hsame
  unfold writeNext
  rw [hc]
  dsimp only
  split
  · exact hchunk.trans hfind (closeClient_kept (hm.inv i) hfind)
  · exact hchunk

theorem sent_kept (i : w.Inv) (hc : w.findClient p = some c) {len : Nat}
    (hlen : len ≤ (conn p w.trace).ledger.unacked.length) : Kept p c w (w.tcpServerSent W p len) := by
  have hm := acked_moves i hc hlen
  have hfind := i.find_put hc { c with sendbuf := (acknowledge len c.sendbuf).1 } rfl
  have hsent : Mute p w (w.record (.sent p len)) := Mute.record rfl
  have hreleased : Mute p (w.record (.sent p len)) (((w.record (.sent p len)).put
      { c with sendbuf := (acknowledge len c.sendbuf).1 }).recordAll
        (releases p .acknowledged (acknowledge len c.sendbuf).2)) :=
    Mute.releases (w := (w.record (.sent p len)).put { c with sendbuf := (acknowledge len c.sendbuf).1 }) p
      .acknowledged _
  have hacked : Kept p c w (((w.record (.sent p len)).put
      { c with sendbuf := (acknowledge len c.sendbuf).1 }).recordAll
        (releases p .acknowledged (acknowledge len c.sendbuf).2)) :=
    .mute (hsent.trans hreleased) hfind hc ⟨rfl, rfl, rfl, rfl, rfl, rfl, rfl, rfl⟩
  have hf : (w.record (.sent p len)).findClient p = some c := hc
  unfold tcpServerSent
  simp only [hf]
  exact hacked.trans hfind (writeNext_kept (hm.inv i) hfind)

/-- **An idle websocket is sent a CLOSE**, or marked where it was sent one. -/
theorem pollIdle_kept {said : List Act} {w0 : Web} (t : Told p h c said w0 w) :
    Kept p c w (w.pollIdle W p c) ∧ ∃ d, Told p h d said w0 (w.pollIdle W p c) := by
  unfold pollIdle
  by_cases hidle : c.isIdle W w.tick = true
  · rw [if_pos hidle]
    have hopen : c.closed = false := by
      cases hcl : c.closed with
      | false => rfl
      | true => rw [Client.isIdle, if_pos hcl] at hidle; cases hidle
    by_cases hclose : (c.websocket && !c.wsCloseSent) = true
    · rw [if_pos hclose]
      rw [Bool.and_eq_true, Bool.not_eq_true'] at hclose
      obtain ⟨e, htext, u⟩ := t.sendClose (W := W) []
      rw [if_pos (by rw [hclose.2]; rfl)] at u
      obtain ⟨hshakes, hq⟩ := sendClose_shakes (W := W) t.inv t.find hclose.2 []
      rw [hopen] at hq
      refine ⟨⟨hshakes, ?_, fun d hd => ?_, fun _ => Or.inr ⟨_, _, hq, List.mem_singleton_self _, rfl⟩⟩, e, u⟩
      · rw [t.handle]
        exact u.told.trans t.told.symm
      · rw [u.find] at hd
        cases hd
        exact htext.rqst
    · rw [if_neg hclose]
      have hput : w.markForClose p = w.put c.setClosed := by
        unfold markForClose
        rw [t.find]
      have u : Told p h c.setClosed said w0 (w.put c.setClosed) := t.put c.setClosed rfl (.setClosed rfl t.find)
      refine ⟨.marked (mute_markForClose p p) fun d hd => ?_, c.setClosed, by rw [hput]; exact u⟩
      rw [hput, u.find] at hd
      cases hd
      exact ⟨⟨rfl, rfl, rfl⟩, rfl, rfl⟩
  · rw [if_neg hidle]
    exact ⟨.mute (Mute.still rfl) t.find t.find (SameRequest.rfl' c), c, t⟩

/-- The connection's own poll. -/
theorem poll_kept (i : w.Inv) (hf : w.fault = none) (hc : w.findClient p = some c) :
    Kept p c w (w.tcpServerPoll W p) := by
  have t := Told.start i hf hc
  unfold tcpServerPoll
  rw [hc]
  dsimp only
  split
  · next hpcb =>
    have hwrite : ∃ e, Told p c.handle e [] w (if c.moreToSend = true then w.writeNext W c.pcb else w) ∧
        Kept p c w (if c.moreToSend = true then w.writeNext W c.pcb else w) := by
      split
      · obtain ⟨e, -, u⟩ := t.sends (writeNext_moves (W := W) i (i.queueing t.findHandle).1)
          ((fault_writeNext _ _).trans hf)
        refine ⟨e, u, ?_⟩
        rw [hpcb]
        exact writeNext_kept i hc
      · exact ⟨c, t, .mute (Mute.still rfl) hc hc (SameRequest.rfl' c)⟩
    obtain ⟨e, u, hwritten⟩ := hwrite
    generalize (if c.moreToSend = true then w.writeNext W c.pcb else w) = v at u hwritten
    obtain ⟨hidle, e', u'⟩ := pollIdle_kept (W := W) u
    rw [deref_of_some u.findHandle, andThen_of_none u'.fault, deref_of_some u'.findHandle]
    split
    · exact hwritten.trans u.find (hidle.trans u'.find (closeClient_kept u'.inv u'.find))
    · exact hwritten.trans u.find hidle
  · exact closeClient_kept i hc

/-- **An event of the connection itself**, other than a segment that arrives. -/
theorem own_kept (i : w.Inv) (hf : w.fault = none) (hc : w.findClient p = some c) {e : Event} (ha : Allowed w e)
    (hturn : e.turn.pcb = some p) (hbare : ∀ data allocated, e ≠ .sendBuffer p data allocated)
    (hrecv : ∀ data, e ≠ .recv p (some data)) : Kept p c w (w.step W e) := by
  have hstep := step_of_none (W := W) hf e
  have hgone {v : Web} (m : Mute p w v) (hnone : v.findClient p = none) : Kept p c w v :=
    .marked m fun d hd => by
      rw [hnone] at hd
      cases hd
  cases e with
  | accept q err =>
    cases hturn
    rcases accept_cases (W := W) i ha with ⟨he, -⟩ | ⟨-, -, hnone, -⟩
    · rw [hstep]
      simp only [he]
      exact .mute (Mute.still rfl) hc hc (SameRequest.rfl' c)
    · rw [hc] at hnone
      cases hnone
  | recv q segment =>
    cases hturn
    cases segment with
    | none =>
      have hnone := (i.peerClose (W := W) hc).2.1 p
      rw [if_pos rfl] at hnone
      rw [hstep]
      exact hgone (mute_closeClient p p true) hnone
    | some data => exact absurd rfl (hrecv data)
  | sent q len =>
    cases hturn
    rw [hstep]
    exact sent_kept i hc ha
  | poll q =>
    cases hturn
    rw [hstep]
    exact poll_kept i hf hc
  | err q =>
    cases hturn
    have hnone := (i.err hc).2.1 p
    rw [if_pos rfl] at hnone
    rw [hstep]
    exact hgone (mute_err p p) hnone
  | app a => cases hturn
  | sendBuffer q data allocated =>
    cases hturn
    exact absurd rfl (hbare data allocated)
  | writeNext q =>
    cases hturn
    rw [hstep]
    exact writeNext_kept i hc

end Web
end Pico
