import Picolibs.Broadcast
import Picolibs.Dangling
/-!
# Spoken — what is queued on one connection by the program and by the passes of others

`queuedOn` is followed through the server's functions.  What is sent elsewhere is `Mute` on this connection.  The
program queues data frames, none of them a CLOSE, exactly where it speaks to an open client (`Adds`), whether it calls
on its own or while another client's request or frame is answered; `called` lists what it calls in a pass.
-/
namespace Pico

/-- The call sends a client bytes that are no frame. -/
def AppCall.raw (h : ClientHandle) : AppCall → Bool
  | .sendData k _ _ => k == h
  | _ => false

/-- The call sends to a client, if it can. -/
def AppCall.speaks (h : ClientHandle) : AppCall → Bool
  | .sendData k _ _ => k == h
  | .sendMessage k _ => k == h
  | .sendMessageTxt k _ => k == h
  | .broadcastWebsocket _ => true
  | .broadcastWebsocketTxt _ => true

namespace Web

variable {W : World} {w w' w'' : Web} {p q : Pcb} {c : Client} {h : ClientHandle}

/-! ## Frames that close -/

/-- A frame with FIN and the opcode CLOSE. -/
def isClose (frame : Bytes) : Bool := frame.head? == some 0x88

theorem isClose_cut (opc : Ws.OpCode) (payload : Bytes) (h : opc ≠ .close) :
    isClose (cut (Ws.plainFrame opc payload)) = false := by
  unfold isClose cut Ws.plainFrame Ws.plainHead
  rw [List.cons_append, List.cons_append]
  generalize (_ % 2 ^ 16 : Nat) = n
  cases n with
  | zero => rfl
  | succ n => cases opc <;> first | rfl | exact absurd rfl h

/-! ## What the program calls in a pass -/

/-- What the program calls while a request is answered. -/
def requestCalls (W : World) (tick : Nat) (c : Client) : List AppCall :=
  match W.httpCallback with
  | none => []
  | some callback =>
    match c.http.header (ascii "Upgrade") with
    | .error _ => []
    | .ok upgrade =>
      if upgrade = ascii "websocket" then []
      else if c.http.type = ascii "POST" then
        match Http.parseRequest (W.stackByte tick) c.rqst true with
        | .error _ => []
        | .ok r => (callback tick c.handle r.1 r.2).calls
      else (callback tick c.handle c.http c.rqst).calls

/-- The payload of the frame that was read. -/
def payloadOf (c : Client) : Except Fault Bytes :=
  Text.substr c.rqst (some c.wshdr.start.toNat) (some (c.wshdr.start.toNat + c.wshdr.length.toNat))

/-- What the program calls while a frame is processed. -/
def frameCalls (W : World) (tick : Nat) (c : Client) : List AppCall :=
  if c.wshdr.opcode = Ws.OpCode.text.code then
    match W.messageCallback, payloadOf c with
    | some callback, .ok payload => callback tick c.handle payload
    | _, _ => []
  else []

/-- What the program calls in a pass of the loop on the client `k`. -/
def called (W : World) (k : ClientHandle) (s : Web) : List AppCall :=
  match (s.findHandle k).map Client.rqstIsReady with
  | some (.ok (true, c)) => if c.websocket then frameCalls W s.tick c else requestCalls W s.tick c
  | _ => []

/-! ## What is queued on a connection -/

theorem queuedOn_acts (p : Pcb) {as : List Act} (hw : w'.trace = w.trace ++ as) (h : ∀ a ∈ as, gives p a = false) :
    queuedOn p w' = queuedOn p w := by
  unfold queuedOn
  rw [hw, queued_acts p as w.trace h]

theorem queuedOn_record {a : Act} (h : gives p a = false) : queuedOn p (w.record a) = queuedOn p w :=
  queuedOn_acts p rfl (by simpa using h)

/-- The act queues nothing on `p` and tells nobody. -/
def mute (p : Pcb) : Act → Bool
  | .http _ _ _ => false
  | .frame _ _ _ => false
  | .message _ _ => false
  | a => !gives p a

/-- Only mute acts were written. -/
def Mute (p : Pcb) (w w' : Web) : Prop := ∃ as, w'.trace = w.trace ++ as ∧ ∀ a ∈ as, mute p a = true

namespace Mute

theorem still (h : w'.trace = w.trace) : Mute p w w' := ⟨[], by rw [h, List.append_nil], nofun⟩

theorem trans (m : Mute p w w') (m' : Mute p w' w'') : Mute p w w'' := by
  obtain ⟨as, ht, has⟩ := m
  obtain ⟨bs, ht', hbs⟩ := m'
  refine ⟨as ++ bs, by rw [ht', ht, List.append_assoc], fun a ha => ?_⟩
  exact (List.mem_append.1 ha).elim (has a) (hbs a)

theorem record {a : Act} (h : mute p a = true) : Mute p w (w.record a) := ⟨[a], rfl, by simpa using h⟩

theorem releases (q : Pcb) (why : Releasing) (bufs : List SendBuf) :
    Mute p w (w.recordAll (releases q why bufs)) := by
  refine ⟨_, rfl, fun a ha => ?_⟩
  obtain ⟨sb, -, rfl⟩ := List.mem_map.1 ha
  rfl

theorem queued (m : Mute p w w') : queuedOn p w' = queuedOn p w := by
  obtain ⟨as, ht, has⟩ := m
  refine queuedOn_acts p ht fun a ha => ?_
  have := has a ha
  cases a <;> first | rfl | simpa [mute] using this

theorem told (m : Mute p w w') (h : ClientHandle) : w'.trace.filter (tells h) = w.trace.filter (tells h) := by
  obtain ⟨as, ht, has⟩ := m
  have hnil : as.filter (tells h) = [] := by
    refine List.filter_eq_nil_iff.2 fun a ha => ?_
    have := has a ha
    cases a <;> first | exact Bool.false_ne_true | cases this
  rw [ht, List.filter_append, hnil, List.append_nil]

end Mute

theorem mute_deleteClient (p q : Pcb) : Mute p w (w.deleteClient q) := by
  unfold deleteClient
  split
  · exact Mute.still rfl
  · dsimp only
    split
    · exact Mute.releases q .deleted _
    · exact Mute.still rfl

theorem mute_closeClient (p q : Pcb) (b : Bool) : Mute p w (w.closeClient W q b) := by
  have hclose (v : Web) (why : Closing) (err : Int) : Mute p v (v.record (.close q why err)).tock := Mute.record rfl
  unfold closeClient
  split
  · next c _ =>
    have hset : Mute p w ((w.put { c.setClosed with sendbuf := (acknowledge 0 c.setClosed.sendbuf).1 }).recordAll
        (releases q .acknowledged (acknowledge 0 c.setClosed.sendbuf).2)) := Mute.releases q .acknowledged _
    split
    · dsimp only
      split
      · split
        · exact (hset.trans (hclose _ _ _)).trans (mute_deleteClient p q)
        · exact hset.trans (hclose _ _ _)
      · exact hset
    · exact (hclose (w.put c.setClosed) _ _).trans (mute_deleteClient p q)
  · split
    · exact hclose w _ _
    · exact Mute.still rfl

theorem mute_writeChunk (p q : Pcb) (c : Client) : Mute p w (w.writeChunk W q c).1 := by
  unfold writeChunk
  dsimp only
  split
  · exact (Mute.releases q .acknowledged _).trans (Mute.record rfl)
  · exact Mute.releases q .acknowledged _

theorem mute_writeNext (p q : Pcb) : Mute p w (w.writeNext W q) := by
  unfold writeNext
  split
  · exact Mute.still rfl
  · dsimp only
    split
    · exact (mute_writeChunk p q _).trans (mute_closeClient p q false)
    · exact mute_writeChunk p q _

theorem mute_sendBuffer (hq : q ≠ p) (buffer : Bytes) (n : Nat) (a : Allocation) :
    Mute p w (w.sendBuffer W q buffer n a) := by
  unfold sendBuffer
  split
  · exact Mute.still rfl
  · next c _ =>
    have hqueue : Mute p w (w.queueSend q c (buffer.take (n % 2 ^ 16)) a) :=
      Mute.record (a := .queue q w.serial _ a) (by simp [mute, gives, hq])
    exact hqueue.trans (mute_writeNext p q)

theorem mute_sendWebsocket (hq : q ≠ p) (opc : Ws.OpCode) (payload : Bytes) :
    Mute p w (w.sendWebsocket W q opc payload) := by
  rw [sendWebsocket_eq]
  exact mute_sendBuffer hq _ _ _

theorem mute_markForClose (p q : Pcb) : Mute p w (w.markForClose q) := by
  unfold markForClose
  split <;> exact Mute.still rfl

theorem mute_marks (w : Web) (k : ClientHandle) :
    Mute p w (w.deref k fun client => w.markForClose client.pcb) := by
  unfold deref
  split
  · exact mute_markForClose p _
  · exact Mute.still rfl

/-! ## What the program queues -/

/-- Frames were queued on `p`, none of them a CLOSE, and some exactly if `T`. -/
def Adds (p : Pcb) (T : Prop) (w w' : Web) : Prop :=
  ∃ frames, queuedOn p w' = queuedOn p w ++ frames ∧ (∀ f ∈ frames, isClose f = false) ∧ (frames ≠ [] ↔ T)

/-- The client is open, and one of the calls sends to it. -/
def SpokenTo (c : Client) (as : List AppCall) : Prop := c.closed = false ∧ ∃ a ∈ as, a.speaks c.handle = true

variable {T T' : Prop}

theorem Adds.still (h : queuedOn p w' = queuedOn p w) : Adds p False w w' :=
  ⟨[], by rw [h, List.append_nil], nofun, iff_of_false (fun hne => hne rfl) id⟩

theorem Adds.congr (h : Adds p T w w') (ht : T ↔ T') : Adds p T' w w' := by
  obtain ⟨fs, hq, hn, hs⟩ := h
  exact ⟨fs, hq, hn, hs.trans ht⟩

theorem Adds.trans (h : Adds p T w w') (h' : Adds p T' w' w'') : Adds p (T ∨ T') w w'' := by
  obtain ⟨fs, hq, hn, hs⟩ := h
  obtain ⟨fs', hq', hn', hs'⟩ := h'
  refine ⟨fs ++ fs', by rw [hq', hq, List.append_assoc], fun f hf => ?_, ?_⟩
  · exact (List.mem_append.1 hf).elim (hn f) (hn' f)
  · rw [← hs, ← hs', ne_eq, List.append_eq_nil_iff, not_and_or]

/-- Nothing is queued afterwards. -/
theorem Adds.settled (h : Adds p T w w') (hq : queuedOn p w'' = queuedOn p w') : Adds p T w w'' :=
  (h.trans (Adds.still hq)).congr (or_iff_left id)

/-- Nothing was queued before. -/
theorem Adds.after (hq : queuedOn p w' = queuedOn p w) (h : Adds p T w' w'') : Adds p T w w'' :=
  ((Adds.still hq).trans h).congr (or_iff_right id)

/-- Nothing is queued exactly where nothing is spoken. -/
theorem Adds.same_iff (h : Adds p T w w') : queuedOn p w' = queuedOn p w ↔ ¬ T := by
  obtain ⟨fs, hq, -, hs⟩ := h
  rw [hq, List.append_right_eq_self, ← hs, not_not]

theorem Queues.adds {data : ClientHandle → Option Bytes} (hq : Queues data w w') (hc : w.findClient p = some c)
    (hd : ∀ f, data c.handle = some f → isClose f = false) : Adds p ((data c.handle).isSome = true) w w' := by
  have hqueued := hq.queued p
  rw [hc, Option.bind_some] at hqueued
  refine ⟨_, hqueued, fun f hf => hd f (Option.mem_toList.1 hf), ?_⟩
  cases data c.handle <;> simp

/-- The three senders, on a connection that may be theirs. -/
theorem sendTo_adds (i : w.Inv) (hc : w.findClient p = some c) {k : ClientHandle} {data : Bytes} {send : Pcb → Web}
    (hsend : ∀ d, w.findHandle k = some d → d.closed = false → Queues (only k data) w (w.sendTo k send).2)
    (hd : k = c.handle → isClose data = false) : Adds p (c.closed = false ∧ k = c.handle) w (w.sendTo k send).2 := by
  cases hk : w.findHandle k with
  | none =>
    rw [sendTo_unknown hk]
    refine (Adds.still (queuedOn_record rfl)).congr (iff_of_false id fun h => ?_)
    rw [h.2, (i.reg.find hc).2.1] at hk
    cases hk
  | some d =>
    have hsame (he : k = c.handle) : d = c := by
      rw [he, (i.reg.find hc).2.1] at hk
      exact (Option.some.inj hk).symm
    cases hcl : d.closed with
    | true =>
      rw [sendTo_closed i hk hcl]
      refine (Adds.still rfl).congr (iff_of_false id fun h => ?_)
      rw [hsame h.2, h.1] at hcl
      cases hcl
    | false =>
      refine ((hsend d hk hcl).adds hc fun f hf => ?_).congr ?_
      · unfold only at hf
        split at hf
        · next hh =>
          cases hf
          exact hd hh.symm
        · cases hf
      · unfold only
        by_cases hh : c.handle = k
        · rw [if_pos hh]
          exact iff_of_true rfl ⟨by rw [← hsame hh.symm]; exact hcl, hh.symm⟩
        · rw [if_neg hh]
          exact iff_of_false Bool.false_ne_true fun h => hh h.2.symm

theorem everySocket_adds (i : w.Inv) (hc : w.findClient p = some c) (hws : c.websocket = true)
    {data : ClientHandle → Bytes} (hq : Queues (everySocket w data) w w') (hd : isClose (data c.handle) = false) :
    Adds p (c.closed = false) w w' := by
  have hopen : w.openSocket c.handle = !c.closed := by
    unfold openSocket
    rw [(i.reg.find hc).2.1, Option.any_some, hws, Bool.true_and]
  refine (hq.adds hc fun f hf => ?_).congr ?_
  · unfold everySocket at hf
    split at hf
    · cases hf
      exact hd
    · cases hf
  · unfold everySocket
    rw [hopen]
    cases c.closed <;> simp

/-- **A call of the program** queues no CLOSE, and something exactly if it speaks to the client and that is open. -/
theorem call_adds (i : w.Inv) (hf : w.fault = none) (hc : w.findClient p = some c) (hws : c.websocket = true)
    {a : AppCall} (hraw : a.raw c.handle = false) :
    Adds p (c.closed = false ∧ a.speaks c.handle = true) w (w.call W a) := by
  have htext (m : Bytes) : isClose (cut (Ws.plainFrame .text m)) = false := isClose_cut .text m (by decide)
  have hto (k : ClientHandle) : (c.closed = false ∧ k = c.handle) ↔ (c.closed = false ∧ (k == c.handle) = true) := by
    rw [beq_iff_eq]
  cases a with
  | sendData k data allocate =>
    refine (sendTo_adds i hc (fun d hk ho => (sendData_queues i hk ho data allocate).2) fun hk => ?_).congr (hto k)
    rw [AppCall.raw, hk, beq_self_eq_true] at hraw
    cases hraw
  | sendMessage k message =>
    exact (sendTo_adds i hc (fun d hk ho => (sendMessage_queues i hk ho message).2) fun _ => htext _).congr (hto k)
  | sendMessageTxt k message =>
    exact (sendTo_adds i hc (fun d hk ho => (sendMessageTxt_queues i hk ho message.property).2)
      fun _ => htext _).congr (hto k)
  | broadcastWebsocket txt =>
    exact (everySocket_adds i hc hws (broadcastWebsocket_queues i hf txt) (htext _)).congr
      (and_iff_left (rfl : AppCall.speaks c.handle (.broadcastWebsocket txt) = true)).symm
  | broadcastWebsocketTxt txt =>
    exact (everySocket_adds i hc hws (broadcastWebsocketTxt_queues i hf txt.property) (htext _)).congr
      (and_iff_left (rfl : AppCall.speaks c.handle (.broadcastWebsocketTxt txt) = true)).symm

/-- The calls of a callback, one after another. -/
theorem calls_adds : ∀ (as : List AppCall) {w : Web} {c : Client}, w.Inv → w.fault = none → w.findClient p = some c →
    c.websocket = true → (∀ a ∈ as, a.raw c.handle = false) → Adds p (SpokenTo c as) w (calls W as w)
  | [], _, _, _, _, _, _, _ => (Adds.still rfl).congr (iff_of_false id fun ⟨_, _, ha, _⟩ => List.not_mem_nil ha)
  | a :: as, w, c, i, hf, hc, hws, hraw => by
    have hm := call_moves (W := W) (t := .call) i a
    obtain ⟨d, hd, hsame⟩ := hm.keeps i nofun hc
    rw [calls, andThen_of_none hf]
    refine ((call_adds (W := W) i hf hc hws (hraw a List.mem_cons_self)).trans
      (calls_adds as (hm.inv i) (call_fault i hf a) hd (hsame.websocket.trans hws) fun b hb => ?_)).congr ?_
    · rw [hsame.handle]
      exact hraw b (List.mem_cons_of_mem a hb)
    · rw [SpokenTo, SpokenTo, hsame.closed, hsame.handle, ← and_or_left, List.exists_mem_cons_iff]

/-! ## Passes on another client -/

/-- No pcb of another client is this one's. -/
theorem away (i : w.Inv) (hc : w.findClient p = some c) {k : ClientHandle} {d : Client} (hk : w.findHandle k = some d)
    (hne : k ≠ c.handle) : d.pcb ≠ p := by
  obtain ⟨hh, q, hq⟩ := i.reg.find_handle hk
  rcases i.reg.find_pcb hq with ⟨-, h0⟩ | ⟨-, hpcb⟩
  · rw [h0]
    exact (i.reg.find hc).2.2.1.symm
  · rw [hpcb]
    rintro rfl
    rw [hc] at hq
    cases hq
    exact hne hh.symm

/-- A statement that uses another client's pcb. -/
theorem deref_away (i : w.Inv) (hc : w.findClient p = some c) {k : ClientHandle} (hne : k ≠ c.handle)
    {use : Client → Web} (hu : ∀ d, d.pcb ≠ p → queuedOn p (use d) = queuedOn p w) :
    queuedOn p (w.deref k use) = queuedOn p w := by
  unfold deref
  cases hk : w.findHandle k with
  | none => rfl
  | some d => exact hu d (away i hc hk hne)

theorem andThen_adds {next : Web → Web} (h : Adds p T w w') (hn : queuedOn p (next w') = queuedOn p w') :
    Adds p T w (w'.andThen next) := by
  cases hf : w'.fault with
  | none =>
    rw [andThen_of_none hf]
    exact h.settled hn
  | some f =>
    rw [andThen_of_fault hf]
    exact h

/-- The callback is told something, and calls. -/
theorem told_adds (i : w.Inv) (hf : w.fault = none) (hc : w.findClient p = some c) (hws : c.websocket = true)
    {k : ClientHandle} {a : Act} (ha : tells k a = true) (as : List AppCall) (hraw : ∀ a ∈ as, a.raw c.handle = false) :
    (calls W as (w.record a).tock).Inv ∧ (calls W as (w.record a).tock).fault = none ∧
      (∃ d, (calls W as (w.record a).tock).findClient p = some d ∧ SameRequest c d) ∧
      Adds p (SpokenTo c as) w (calls W as (w.record a).tock) := by
  have i1 : (w.record a).Inv := i.record fun q e _ => conn_tells ha q _
  have i2 : (w.record a).tock.Inv := (Move.tick (t := .call) _).inv i1
  have hc2 : (w.record a).tock.findClient p = some c := hc
  have hm := calls_moves (W := W) (t := .call) as i2
  have hgives : gives p a = false := by cases a <;> first | rfl | cases ha
  have hstill : queuedOn p (w.record a).tock = queuedOn p w := queuedOn_record hgives
  exact ⟨hm.inv i2, calls_fault as i2 hf, hm.keeps i2 nofun hc2,
    Adds.after hstill (calls_adds as i2 hf hc2 hws hraw)⟩

/-- What the program calls when it is given a request. -/
def replyCalls (W : World) (tick : Nat) (c : Client) : List AppCall :=
  match W.httpCallback with
  | none => []
  | some callback => (callback tick c.handle c.http c.rqst).calls

theorem not_spokenTo_nil (c : Client) : ¬ SpokenTo c [] := fun ⟨_, _, ha, _⟩ => List.not_mem_nil ha

theorem processHttpRqst_adds (i : w.Inv) (hf : w.fault = none) (hc : w.findClient p = some c) (hws : c.websocket = true)
    {d : Client} (hne : d.handle ≠ c.handle) (hd : d.pcb ≠ p)
    (hraw : ∀ a ∈ replyCalls W w.tick d, a.raw c.handle = false) :
    Adds p (SpokenTo c (replyCalls W w.tick d)) w (w.processHttpRqst W d.handle d).1 := by
  unfold processHttpRqst
  unfold replyCalls at hraw ⊢
  cases hcb : W.httpCallback with
  | none =>
    exact (Adds.still (mute_sendBuffer hd _ _ _).queued).congr (iff_of_false id (not_spokenTo_nil c))
  | some callback =>
    rw [hcb] at hraw
    obtain ⟨i1, hf1, ⟨e, he, hsame⟩, hadds⟩ := told_adds (W := W) i hf hc hws
      (tells_http d.handle d.http d.rqst) (callback w.tick d.handle d.http d.rqst).calls hraw
    dsimp only
    split
    · exact hadds
    · exact andThen_adds hadds (deref_away i1 he (by rw [hsame.handle]; exact hne) fun e' haway =>
        (mute_sendBuffer haway _ _ _).queued)

theorem openWebsocket_adds {d : Client} (hd : d.pcb ≠ p) : Adds p False w (w.openWebsocket W d.handle d) := by
  unfold openWebsocket
  split
  · exact Adds.still rfl
  · exact Adds.still rfl
  · refine andThen_adds (Adds.still (mute_sendBuffer hd _ _ _).queued) ?_
    unfold deref
    split <;> rfl

/-- A client that is written back is another's. -/
theorem find_put_other (i : w.Inv) (hc : w.findClient p = some c) {d d' : Client} (hq : w.findClient q = some d)
    (hne : d.handle ≠ c.handle) (hh : d'.handle = d.handle) : (w.put d').findClient p = some c := by
  rw [i.reg.findClient_put hq hh, if_neg, hc]
  rintro rfl
  rw [hc] at hq
  cases hq
  exact hne rfl

theorem answerRqst_adds (i : w.Inv) (hf : w.fault = none) (hc : w.findClient p = some c) (hws : c.websocket = true)
    {d : Client} (hq : w.findClient q = some d) (hne : d.handle ≠ c.handle)
    (hraw : ∀ a ∈ requestCalls W w.tick d, a.raw c.handle = false) (hd : d.websocket = false) :
    Adds p (SpokenTo c (requestCalls W w.tick d)) w (w.answerRqst W d.handle d).1 := by
  have haway : d.pcb ≠ p := away i hc (i.reg.find hq).2.1 hne
  have hnone (hcalls : requestCalls W w.tick d = []) {v : Web} (h : Adds p False w v) :
      Adds p (SpokenTo c (requestCalls W w.tick d)) w v := by
    rw [hcalls]
    exact h.congr (iff_of_false id (not_spokenTo_nil c))
  unfold answerRqst
  rw [if_pos (by rw [hd]; rfl)]
  cases hu : d.http.header (ascii "Upgrade") with
  | error f => exact hnone (by unfold requestCalls; split <;> simp only [hu]) (Adds.still rfl)
  | ok upgrade =>
    dsimp only
    by_cases hup : upgrade = ascii "websocket"
    · rw [if_pos hup]
      exact hnone (by unfold requestCalls; split <;> simp only [hu, if_pos hup]) (openWebsocket_adds haway)
    · rw [if_neg hup]
      by_cases hpost : d.http.type = ascii "POST"
      · rw [if_pos hpost]
        cases hr : Http.parseRequest (W.stackByte w.tick) d.rqst true with
        | error f =>
          exact hnone (by unfold requestCalls; split <;> simp only [hu, if_neg hup, if_pos hpost, hr]) (Adds.still rfl)
        | ok r =>
          have hm : Moves (.on q) w (w.put { d with http := r.1, rqst := r.2 }) :=
            Moves.one (.request rfl hq ⟨rfl, rfl, rfl, rfl⟩)
          have i1 := hm.inv i
          have hc1 : (w.put { d with http := r.1, rqst := r.2 }).findClient p = some c :=
            find_put_other i hc hq hne rfl
          have hcalls : requestCalls W w.tick d = replyCalls W w.tick { d with http := r.1, rqst := r.2 } := by
            unfold requestCalls replyCalls
            cases W.httpCallback with
            | none => rfl
            | some callback => simp only [hu, if_neg hup, if_pos hpost, hr]
          rw [hcalls] at hraw ⊢
          exact Adds.after rfl (processHttpRqst_adds (W := W) (d := { d with http := r.1, rqst := r.2 }) i1 hf hc1 hws hne
            haway hraw)
      · rw [if_neg hpost]
        have hcalls : requestCalls W w.tick d = replyCalls W w.tick d := by
          unfold requestCalls replyCalls
          cases W.httpCallback with
          | none => rfl
          | some callback => simp only [hu, if_neg hup, if_neg hpost]
        rw [hcalls] at hraw ⊢
        exact processHttpRqst_adds i hf hc hws hne haway hraw

theorem requestCalls_same {d d' : Client} (hs : SameRequest d d') (n : Nat) :
    requestCalls W n d' = requestCalls W n d := by
  simp only [requestCalls, hs.http, hs.rqst, hs.handle]

theorem frameCalls_same {d d' : Client} (hs : SameRequest d d') (n : Nat) : frameCalls W n d' = frameCalls W n d := by
  simp only [frameCalls, payloadOf, hs.wshdr, hs.rqst, hs.handle]

theorem processRqst_adds (i : w.Inv) (hf : w.fault = none) (hc : w.findClient p = some c) (hws : c.websocket = true)
    {d : Client} (hq : w.findClient q = some d) (hne : d.handle ≠ c.handle)
    (hraw : ∀ a ∈ requestCalls W w.tick d, a.raw c.handle = false) (hd : d.websocket = false) :
    Adds p (SpokenTo c (requestCalls W w.tick d)) w (w.processRqst W d.handle) := by
  have hreq := sameRequest_activity (W := W) (c := d) w.tick
  have hm : Moves (.on q) w (w.put (d.activity W w.tick)) := activity_moves i hq
  have i1 := hm.inv i
  have hc1 : (w.put (d.activity W w.tick)).findClient p = some c := find_put_other i hc hq hne hreq.handle
  have hq1 := i.find_put hq (d.activity W w.tick) hreq.handle
  have hanswer : Adds p (SpokenTo c (requestCalls W w.tick d)) w
      ((w.put (d.activity W w.tick)).answerRqst W d.handle (d.activity W w.tick)).1 := by
    have := answerRqst_adds (W := W) i1 hf hc1 hws hq1 (by rw [hreq.handle]; exact hne)
      (by rw [requestCalls_same hreq]; exact hraw) (hreq.websocket.trans hd)
    rw [hreq.handle, requestCalls_same hreq] at this
    exact Adds.after rfl this
  rw [processRqst_eq (i.reg.find hq).2.1]
  refine andThen_adds hanswer ?_
  unfold deref
  split
  · dsimp only
    split
    · exact (mute_closeClient _ _ _).queued
    · rfl
  · rfl

theorem processWebsocket_adds (i : w.Inv) (hf : w.fault = none) (hc : w.findClient p = some c)
    (hws : c.websocket = true) {d : Client} (hq : w.findClient q = some d) (hne : d.handle ≠ c.handle)
    (hraw : ∀ a ∈ frameCalls W w.tick d, a.raw c.handle = false) :
    Adds p (SpokenTo c (frameCalls W w.tick d)) w (w.processWebsocket W d.handle) := by
  have hreq := sameRequest_activity (W := W) (c := d) w.tick
  have hm : Moves (.on q) w (w.put (d.activity W w.tick)) := activity_moves i hq
  have i1 := hm.inv i
  have hc1 : (w.put (d.activity W w.tick)).findClient p = some c := find_put_other i hc hq hne hreq.handle
  have haway : (d.activity W w.tick).pcb ≠ p := by
    rw [hreq.pcb]
    exact away i hc (i.reg.find hq).2.1 hne
  have hcalls := frameCalls_same (W := W) hreq w.tick
  unfold processWebsocket
  rw [deref_of_some (i.reg.find hq).2.1]
  dsimp only
  generalize d.activity W w.tick = e at hreq i1 hc1 haway hcalls
  rw [← hcalls] at hraw ⊢
  have hnone (hlist : frameCalls W w.tick e = []) {v : Web} (h : Adds p False w v) :
      Adds p (SpokenTo c (frameCalls W w.tick e)) w v := by
    rw [hlist]
    exact h.congr (iff_of_false id (not_spokenTo_nil c))
  cases hp : Text.substr e.rqst (some e.wshdr.start.toNat) (some (e.wshdr.start.toNat + e.wshdr.length.toNat)) with
  | error f =>
    refine hnone ?_ (Adds.still rfl)
    unfold frameCalls payloadOf
    simp only [hp]
    split
    · split <;> first | rfl | contradiction
    · rfl
  | ok payload =>
    have i2 : ((w.put e).record (.frame d.handle e.wshdr.opcode payload)).Inv :=
      i1.record fun q' e' _ => conn_tells (h := d.handle) (beq_self_eq_true _) q' _
    have hc2 : ((w.put e).record (.frame d.handle e.wshdr.opcode payload)).findClient p = some c := hc1
    have hstill : queuedOn p ((w.put e).record (.frame d.handle e.wshdr.opcode payload)) = queuedOn p w :=
      queuedOn_record rfl
    have htick : ((w.put e).record (.frame d.handle e.wshdr.opcode payload)).tick = w.tick := rfl
    have hf2 : ((w.put e).record (.frame d.handle e.wshdr.opcode payload)).fault = none := hf
    dsimp only
    generalize (w.put e).record (.frame d.handle e.wshdr.opcode payload) = v at i2 hc2 hstill htick hf2
    by_cases htext : e.wshdr.opcode = Ws.OpCode.text.code
    · rw [if_pos htext]
      cases hcb : W.messageCallback with
      | none => exact hnone (by simp only [frameCalls, if_pos htext, hcb]) (Adds.still hstill)
      | some callback =>
        have hlist : frameCalls W w.tick e = callback v.tick d.handle payload := by
          simp only [frameCalls, payloadOf, if_pos htext, hcb, hp, htick, hreq.handle]
        rw [hlist] at hraw ⊢
        exact Adds.after hstill (told_adds i2 hf2 hc2 hws (k := d.handle) (beq_self_eq_true _) _ hraw).2.2.2
    · rw [if_neg htext]
      refine hnone (if_neg htext) (Adds.after hstill ?_)
      split
      · exact Adds.still (mute_sendWebsocket haway _ _).queued
      · split
        · have hclose : Adds p False v (if !e.wsCloseSent then
              (v.put (e.setWSCloseSent W v.tick)).sendWebsocket W e.pcb .close payload else v) := by
            split
            · exact Adds.still ((mute_sendWebsocket haway _ _).queued.trans rfl)
            · exact Adds.still rfl
          exact andThen_adds hclose (mute_marks _ _).queued
        · exact Adds.still rfl

/-! ## The loop on another client -/

theorem fault_again {k : ClientHandle} (ha : recvPass W k w = .again w') : w'.fault = none := by
  unfold recvPass at ha
  split at ha
  · cases ha
  · split at ha
    · cases ha
    · next ready d1 _ =>
      dsimp only at ha
      generalize (if (!d1.websocket) = true then (w.put d1).processRqst W k
        else (w.put d1).processWebsocket W k) = v at ha
      split at ha
      · split at ha
        · cases ha
        · next hf =>
          split at ha
          · cases ha
          · cases ha
            simpa using hf
      · cases ha

theorem called_eq {k : ClientHandle} {d d1 : Client} (hk : w.findHandle k = some d)
    (hr : d.rqstIsReady = .ok (true, d1)) :
    called W k w = if d1.websocket then frameCalls W w.tick d1 else requestCalls W w.tick d1 := by
  simp only [called, hk, Option.map_some, hr]

/-- **A pass on another client** queues what the program calls in it. -/
theorem recvPass_adds (i : w.Inv) (hf : w.fault = none) (hc : w.findClient p = some c) (hws : c.websocket = true)
    {k : ClientHandle} (hne : k ≠ c.handle) (hraw : ∀ a ∈ called W k w, a.raw c.handle = false) :
    ∃ v, Adds p (SpokenTo c (called W k w)) w v ∧ (recvPass W k w = .again v ∨ recvPass W k w = .leave v) := by
  have hnone (hcalls : called W k w = []) {v : Web} (hq : queuedOn p v = queuedOn p w) :
      Adds p (SpokenTo c (called W k w)) w v := by
    rw [hcalls]
    exact (Adds.still hq).congr (iff_of_false id (not_spokenTo_nil c))
  unfold recvPass
  cases hk : w.findHandle k with
  | none => exact ⟨w.throw .dangling, hnone (by simp only [called, hk, Option.map_none]) rfl, Or.inr rfl⟩
  | some d =>
    obtain ⟨rfl, q, hq⟩ := i.reg.find_handle hk
    dsimp only
    cases hr : d.rqstIsReady with
    | error f => exact ⟨w.throw f, hnone (by simp only [called, hk, Option.map_some, hr]) rfl, Or.inr rfl⟩
    | ok r =>
      obtain ⟨ready, d1⟩ := r
      have hsame := rqstIsReady_same hr
      have hm : Moves (.on q) w (w.put d1) := Moves.one (.request rfl hq hsame)
      have hc1 : (w.put d1).findClient p = some c := find_put_other i hc hq hne hsame.handle
      have hq1 := i.find_put hq d1 hsame.handle
      cases ready with
      | false => exact ⟨w.put d1, hnone (by simp only [called, hk, Option.map_some, hr]) rfl, Or.inr rfl⟩
      | true =>
        have hlist := called_eq (W := W) hk hr
        have hpass : Adds p (SpokenTo c (called W d.handle w)) w (if (!d1.websocket) = true then
            (w.put d1).processRqst W d.handle else (w.put d1).processWebsocket W d.handle) := by
          have hput : queuedOn p (w.put d1) = queuedOn p w := rfl
          refine Adds.after hput ?_
          rw [hlist] at hraw ⊢
          rw [← hsame.handle] at hne ⊢
          cases hd : d1.websocket with
          | false =>
            rw [hd] at hraw
            exact processRqst_adds (hm.inv i) hf hc1 hws hq1 hne hraw hd
          | true =>
            rw [hd] at hraw
            exact processWebsocket_adds (hm.inv i) hf hc1 hws hq1 hne hraw
        dsimp only
        rw [if_pos rfl]
        generalize (if (!d1.websocket) = true then (w.put d1).processRqst W d.handle
            else (w.put d1).processWebsocket W d.handle) = v at hpass
        split
        · exact ⟨v, hpass, Or.inr rfl⟩
        · split
          · exact ⟨v.throw .dangling, hpass.settled rfl, Or.inr rfl⟩
          · next e _ => exact ⟨v.put e.resetRqst, hpass.settled rfl, Or.inl rfl⟩

/-- A pass from which the program speaks to the client. -/
def SpeaksIn (W : World) (k : ClientHandle) (c : Client) (w : Web) : Prop :=
  ∃ s, Loop.Reaches (recvPass W k) w s ∧ SpokenTo c (called W k s)

theorem spokenTo_same {d : Client} (hs : SameRequest c d) (as : List AppCall) : SpokenTo d as ↔ SpokenTo c as := by
  rw [SpokenTo, SpokenTo, hs.closed, hs.handle]

/-- **The passes of a loop that leaves.** -/
theorem run_adds {k : ClientHandle} (hpq : q ≠ p) : ∀ (n : Nat) {w v : Web} {c : Client}, w.Inv → w.fault = none →
    w.findClient p = some c → c.websocket = true → k ≠ c.handle → Owns q k w →
    (∀ s, Loop.Reaches (recvPass W k) w s → ∀ a ∈ called W k s, a.raw c.handle = false) →
    Loop.run (recvPass W k) n w = some v → Adds p (SpeaksIn W k c w) w v
  | 0, _, _, _, _, _, _, _, _, _, _, hrun => by cases hrun
  | n + 1, w, v, c, i, hf, hc, hws, hne, o, hraw, hrun => by
    obtain ⟨v1, hadds, ha | hl⟩ := recvPass_adds i hf hc hws hne (hraw w .start)
    · rw [Loop.run_again ha] at hrun
      have m := again_moves i o ha
      obtain ⟨e, he, hsame⟩ := m.keeps i (fun e => hpq (Option.some.inj e)) hc
      have hrest := run_adds hpq n (m.inv i) (fault_again ha) he (hsame.websocket.trans hws)
        (by rw [hsame.handle]; exact hne) (o.moves m i) (fun s hs => by
          rw [hsame.handle]
          exact hraw s ((Loop.reaches_again ha).2 (Or.inr hs))) hrun
      refine (hadds.trans hrest).congr ?_
      unfold SpeaksIn
      simp only [Loop.reaches_again ha, spokenTo_same hsame, or_and_right, exists_or, exists_eq_left]
    · rw [Loop.run_leave hl] at hrun
      cases hrun
      refine hadds.congr ?_
      unfold SpeaksIn
      simp only [Loop.reaches_leave hl, exists_eq_left]

theorem recvLoop_adds (i : w.Inv) (hf : w.fault = none) (hc : w.findClient p = some c) (hws : c.websocket = true)
    {d : Client} (hq : w.findClient q = some d) (hpq : q ≠ p)
    (hraw : ∀ s, Loop.Reaches (recvPass W d.handle) w s → ∀ a ∈ called W d.handle s, a.raw c.handle = false)
    (rqst : Bytes) :
    ∃ T, Adds p T w (w.recvLoop W d.handle rqst) ∧ (T → SpeaksIn W d.handle c w) ∧
      ((w.recvLoop W d.handle rqst).fault = none → SpeaksIn W d.handle c w → T) := by
  have hne : d.handle ≠ c.handle := fun e => hpq (i.reg.find_inj hq hc e)
  unfold recvLoop
  cases hrun : Loop.run (recvPass W d.handle) (rqst.length + 1) w with
  | none => exact ⟨False, Adds.still rfl, False.elim, nofun⟩
  | some v => exact ⟨_, run_adds hpq _ i hf hc hws hne (i.owns hq) hraw hrun, id, fun _ => id⟩

end Web
end Pico
