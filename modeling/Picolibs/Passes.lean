import Picolibs.Runs
/-!
# Passes — what one pass of the loop of `tcp_server_recv` does to the client it works on

Sending raises no fault and removes nobody (`call_fault`, `Moves.keeps`), so that a request or a frame is answered with
its client still there.  `Told` carries that through a pass, together with what was told of the client: the requests and
frames the callbacks were given.
-/
namespace Pico
namespace Web

open Http (HttpRequest)

variable {W : World} {w : Web} {p : Pcb} {c : Client}

/-! ## Sending returns -/

@[simp] theorem fault_put (w : Web) (c : Client) : (w.put c).fault = w.fault := rfl

@[simp] theorem fault_record (w : Web) (a : Act) : (w.record a).fault = w.fault := rfl

@[simp] theorem fault_recordAll (w : Web) (as : List Act) : (w.recordAll as).fault = w.fault := rfl

@[simp] theorem fault_tock (w : Web) : w.tock.fault = w.fault := rfl

@[simp] theorem fault_deleteClient (w : Web) (p : Pcb) : (w.deleteClient p).fault = w.fault := by
  unfold deleteClient
  split
  · rfl
  · simp only
    split <;> rfl

@[simp] theorem fault_closeClient (w : Web) (p : Pcb) (b : Bool) : (w.closeClient W p b).fault = w.fault := by
  unfold closeClient
  split
  · split
    · simp only
      split
      · split
        · exact fault_deleteClient _ _
        · rfl
      · rfl
    · exact fault_deleteClient _ _
  · split <;> rfl

theorem fault_writeChunk (w : Web) (p : Pcb) (c : Client) : (w.writeChunk W p c).1.fault = w.fault := by
  unfold writeChunk
  simp only
  split <;> rfl

@[simp] theorem fault_writeNext (w : Web) (p : Pcb) : (w.writeNext W p).fault = w.fault := by
  unfold writeNext
  split
  · rfl
  · simp only
    split
    · rw [fault_closeClient, fault_writeChunk]
    · exact fault_writeChunk _ _ _

@[simp] theorem fault_sendBuffer (w : Web) (p : Pcb) (buffer : Bytes) (n : Nat) (a : Allocation) :
    (w.sendBuffer W p buffer n a).fault = w.fault := by
  unfold sendBuffer
  split
  · rfl
  · rw [fault_writeNext]
    rfl

@[simp] theorem fault_sendWebsocket (w : Web) (p : Pcb) (opc : Ws.OpCode) (payload : Bytes) :
    (w.sendWebsocket W p opc payload).fault = w.fault := by
  obtain ⟨r, hr⟩ := Ws.buildPacket_unmasked opc payload (W.rand w.tick)
  unfold sendWebsocket
  rw [hr]
  exact fault_sendBuffer _ _ _ _ _

theorem fault_sendTo {h : ClientHandle} {send : Pcb → Web} (hs : ∀ q, (send q).fault = w.fault) :
    (w.sendTo h send).2.fault = w.fault := by
  unfold sendTo
  split
  · rfl
  · simp only
    split
    · exact hs _
    · rfl

theorem fault_sendMessageTxt (w : Web) (h : ClientHandle) {message : Txt} (ho : message.Owned) :
    (w.sendMessageTxt W h message).2.fault = w.fault := by
  refine fault_sendTo fun q => ?_
  obtain ⟨r, hr⟩ := Txt.buildPacket_ok ho .text (W.rand w.tick)
  rw [hr]
  exact fault_sendBuffer _ _ _ _ _

/-- While a program calls nobody goes. -/
theorem Moves.keeps_handle {w' : Web} (m : Moves .call w w') (i : w.Inv) {h : ClientHandle}
    (hh : (w.findHandle h).isSome = true) : (w'.findHandle h).isSome = true := by
  obtain ⟨c, hc⟩ := Option.isSome_iff_exists.1 hh
  obtain ⟨rfl, p, hp⟩ := i.reg.find_handle hc
  obtain ⟨d, hd, hs⟩ := m.keeps i nofun hp
  rw [← hs.handle, ((m.inv i).reg.find hd).2.1]
  rfl

theorem andThen_of_none {next : Web → Web} (hf : w.fault = none) : w.andThen next = next w := by
  unfold andThen
  rw [hf]
  rfl

theorem andThen_of_fault {f : Fault} {next : Web → Web} (hf : w.fault = some f) : w.andThen next = w := by
  unfold andThen
  rw [hf]
  rfl

theorem deref_of_some {h : ClientHandle} {use : Client → Web} (hc : w.findHandle h = some c) :
    w.deref h use = use c := by
  unfold deref
  rw [hc]

theorem fault_broadcastFrom (txt : Bytes) : ∀ (handles : List ClientHandle) {w : Web}, w.Inv → w.fault = none →
    (∀ h ∈ handles, (w.findHandle h).isSome = true) → (broadcastFrom W txt handles w).fault = none
  | [], _, _, hf, _ => hf
  | h :: rest, w, i, hf, hall => by
    obtain ⟨c, hc⟩ := Option.isSome_iff_exists.1 (hall h List.mem_cons_self)
    rw [broadcastFrom, andThen_of_none hf, deref_of_some hc]
    have hrest := fun k hk => hall k (List.mem_cons_of_mem h hk)
    split
    · have hm := sendWebsocket_moves (W := W) (t := .call) i (i.queueing hc) .text txt
      exact fault_broadcastFrom txt rest (hm.inv i) ((fault_sendWebsocket _ _ _ _).trans hf)
        fun k hk => hm.keeps_handle i (hrest k hk)
    · exact fault_broadcastFrom txt rest i hf hrest

theorem fault_broadcastTxtFrom {txt : Txt} (ho : txt.Owned) : ∀ (handles : List ClientHandle) (nwsc : Nat) {w : Web},
    w.Inv → w.fault = none → (∀ h ∈ handles, (w.findHandle h).isSome = true) →
      (broadcastTxtFrom W txt nwsc handles w).fault = none
  | [], _, _, _, hf, _ => hf
  | h :: rest, nwsc, w, i, hf, hall => by
    obtain ⟨c, hc⟩ := Option.isSome_iff_exists.1 (hall h List.mem_cons_self)
    rw [broadcastTxtFrom, andThen_of_none hf, deref_of_some hc]
    have hrest := fun k hk => hall k (List.mem_cons_of_mem h hk)
    have hsend (message : Txt) (hm : message.Owned) :
        (broadcastTxtFrom W txt (nwsc - 1) rest (w.sendMessageTxt W h message).2).fault = none := by
      have hmoves := sendMessageTxt_moves (W := W) (t := .call) i h message
      exact fault_broadcastTxtFrom ho rest _ (hmoves.inv i) ((fault_sendMessageTxt _ _ hm).trans hf)
        fun k hk => hmoves.keeps_handle i (hrest k hk)
    split
    · split
      · obtain ⟨t, ht, hto⟩ := Txt.ofData_ok txt.data txt.datasize (txt.datasize + 16)
        rw [ht]
        exact hsend t hto
      · exact hsend txt ho
    · exact fault_broadcastTxtFrom ho rest nwsc i hf hrest

theorem findHandle_of_mem_keys {h : ClientHandle} (hk : h ∈ w.clientHndl.keys) : (w.findHandle h).isSome = true := by
  rw [Std.ExtTreeMap.mem_keys, Std.ExtTreeMap.mem_iff_isSome_getElem?] at hk
  exact hk

/-- **A program's call returns.** -/
theorem call_fault (i : w.Inv) (hf : w.fault = none) (a : AppCall) : (w.call W a).fault = none := by
  cases a with
  | sendData h data allocate => exact (fault_sendTo fun _ => fault_sendBuffer _ _ _ _ _).trans hf
  | sendMessage h message => exact (fault_sendTo fun _ => fault_sendWebsocket _ _ _ _).trans hf
  | sendMessageTxt h message => exact (fault_sendMessageTxt w h message.property).trans hf
  | broadcastWebsocket txt => exact fault_broadcastFrom txt _ i hf fun _ => findHandle_of_mem_keys
  | broadcastWebsocketTxt txt => exact fault_broadcastTxtFrom txt.property _ _ i hf fun _ => findHandle_of_mem_keys

theorem calls_fault : ∀ (as : List AppCall) {w : Web}, w.Inv → w.fault = none → (calls W as w).fault = none
  | [], _, _, hf => hf
  | a :: as, w, i, hf => by
    rw [calls, andThen_of_none hf]
    exact calls_fault as ((call_moves (W := W) (t := .call) i a).inv i) (call_fault i hf a)

/-! ## What a client is told -/

/-- The connection's client is `c` under the handle `h`, and `said` is what the trace has of it since `w`. -/
structure Told (p : Pcb) (h : ClientHandle) (c : Client) (said : List Act) (w w' : Web) : Prop where
  inv : w'.Inv
  fault : w'.fault = none
  find : w'.findClient p = some c
  handle : c.handle = h
  told : w'.trace.filter (tells h) = w.trace.filter (tells h) ++ said

namespace Told

variable {h : ClientHandle} {said : List Act} {w' w'' : Web}

theorem start (i : w.Inv) (hf : w.fault = none) (hc : w.findClient p = some c) : Told p c.handle c [] w w :=
  ⟨i, hf, hc, rfl, (List.append_nil _).symm⟩

theorem findHandle (t : Told p h c said w w') : w'.findHandle h = some c := by
  rw [← t.handle]
  exact (t.inv.reg.find t.find).2.1

/-- Sending says nothing. -/
theorem sends (t : Told p h c said w w') (m : Moves .call w' w'') (hf : w''.fault = none) :
    ∃ d, SameRequest c d ∧ Told p h d said w w'' := by
  obtain ⟨d, hd, hs⟩ := m.keeps t.inv nofun t.find
  refine ⟨d, hs, m.inv t.inv, hf, hd, hs.handle.trans t.handle, ?_⟩
  have hq := m.quiet t.inv nofun t.find
  rw [t.handle] at hq
  rw [hq, t.told]

theorem calls (t : Told p h c said w w') (as : List AppCall) :
    ∃ d, SameRequest c d ∧ Told p h d said w (calls W as w') :=
  t.sends (calls_moves as t.inv) (calls_fault as t.inv t.fault)

theorem sendBuffer (t : Told p h c said w w') {q : Pcb} (hq : Queueing .call w' q) (buffer : Bytes) (n : Nat)
    (a : Allocation) : ∃ d, SameRequest c d ∧ Told p h d said w (w'.sendBuffer W q buffer n a) :=
  t.sends (sendBuffer_moves t.inv hq buffer n a) ((fault_sendBuffer _ _ _ _ _).trans t.fault)

theorem sendWebsocket (t : Told p h c said w w') {q : Pcb} (hq : Queueing .call w' q) (opc : Ws.OpCode)
    (payload : Bytes) : ∃ d, SameRequest c d ∧ Told p h d said w (w'.sendWebsocket W q opc payload) :=
  t.sends (sendWebsocket_moves t.inv hq opc payload) ((fault_sendWebsocket _ _ _ _).trans t.fault)

/-- A client is written back, and nothing is said. -/
theorem put (t : Told p h c said w w') (d : Client) (hh : d.handle = c.handle)
    (m : Move (.on p) w' (w'.put d)) : Told p h d said w (w'.put d) :=
  ⟨m.inv t.inv, t.fault, t.inv.find_put t.find d hh, hh.trans t.handle, t.told⟩

theorem request (t : Told p h c said w w') {d : Client} (hs : SameSending c d) : Told p h d said w (w'.put d) :=
  t.put d hs.handle (.request rfl t.find hs)

theorem activity (t : Told p h c said w w') (n : Nat) : Told p h (c.activity W n) said w (w'.put (c.activity W n)) := by
  have hs : SameSending c (c.activity W n) := by
    unfold Client.activity
    split <;> exact ⟨rfl, rfl, rfl, rfl⟩
  exact t.request hs

theorem tock (t : Told p h c said w w') : Told p h c said w w'.tock :=
  ⟨(Move.tick (t := .on p) (w'.tick + 1)).inv t.inv, t.fault, t.find, t.handle, t.told⟩

/-- A callback is told of the client. -/
theorem record (t : Told p h c said w w') {a : Act} (ha : tells h a = true) :
    Told p h c (said ++ [a]) w (w'.record a) := by
  have ha' : tells c.handle a = true := by rw [t.handle]; exact ha
  refine ⟨(Move.told (t := .on p) rfl t.find ha').inv t.inv, t.fault, t.find, t.handle, ?_⟩
  show (w'.trace ++ [a]).filter (tells h) = _
  rw [List.filter_append, t.told, List.filter_cons, if_pos ha, List.filter_nil, List.append_assoc]

end Told

/-! ## The requests among what is told -/

/-- The requests the HTTP callback was given of a client: the object, and the text it points into. -/
def requests (h : ClientHandle) (l : List Act) : List (HttpRequest × Bytes) :=
  l.filterMap fun
    | .http k r text => if k == h then some (r, text.take r.size) else none
    | _ => none

/-- How much of the stream they are. -/
def extent (l : List (HttpRequest × Bytes)) : Nat := (l.map fun q => q.1.size).sum

theorem requests_append (h : ClientHandle) (l m : List Act) : requests h (l ++ m) = requests h l ++ requests h m :=
  List.filterMap_append

theorem requests_filter (h : ClientHandle) (l : List Act) : requests h (l.filter (tells h)) = requests h l := by
  unfold requests
  rw [List.filterMap_filter]
  congr 1
  funext a
  cases a <;> simp [tells]

theorem extent_append (l m : List (HttpRequest × Bytes)) : extent (l ++ m) = extent l + extent m := by
  rw [extent, List.map_append, List.sum_append]
  rfl

/-! ## Answering a request -/

/-- What the HTTP callback is told. -/
def asked (W : World) (c : Client) : List Act :=
  if W.httpCallback.isSome then [.http c.handle c.http c.rqst] else []

namespace Told

variable {h : ClientHandle} {said : List Act} {w' w'' : Web}

theorem processHttpRqst (t : Told p h c said w w') :
    ∃ d, SameRequest c d ∧ Told p h d (said ++ asked W c) w (w'.processHttpRqst W h c).1 := by
  have hqueue {v : Web} {d : Client} {s : List Act} (u : Told p h d s w v) : Queueing .call v d.pcb :=
    u.inv.queueing u.findHandle
  unfold Web.processHttpRqst asked
  cases W.httpCallback with
  | none =>
    simp only [Option.isSome_none, Bool.false_eq_true, if_false, List.append_nil]
    exact t.sendBuffer (hqueue t) _ _ _
  | some callback =>
    simp only [Option.isSome_some, if_true]
    obtain ⟨d, hcd, u⟩ := ((t.record (a := .http c.handle c.http c.rqst)
      (by rw [t.handle]; exact tells_http _ _ _)).tock).calls (W := W) (callback w'.tick c.handle c.http c.rqst).calls
    split
    · exact ⟨d, hcd, u⟩
    · simp only
      rw [andThen_of_none u.fault, deref_of_some u.findHandle]
      obtain ⟨e, hde, v⟩ := u.sendBuffer (W := W) (hqueue u) notFound 26 .alloc
      exact ⟨e, hcd.trans hde, v⟩

theorem websocketKey_apart (r : Http.HttpRequest) : Text.Apart (websocketKey r) := by
  unfold websocketKey
  refine (r.header_apart _).bind fun _ => (r.header_apart _).bind fun _ => (r.header_apart _).bind fun _ =>
    (r.header_apart _).bind fun _ => ?_
  exact (r.header_apart _).bind fun _ => Text.Apart.ok _

/-- A websocket is opened on a client that is still there, or refused. -/
theorem openWebsocket (t : Told p h c said w w') :
    (∃ f, f ≠ .dangling ∧ (w'.openWebsocket W h c).fault = some f) ∨
      ∃ d, (SameRequest c d ∨ SameRequest { c with websocket := true, rqst := [] } d) ∧
        Told p h d said w (w'.openWebsocket W h c) := by
  have hapart := websocketKey_apart c.http
  unfold Web.openWebsocket
  cases hk : websocketKey c.http with
  | error f =>
    rw [hk] at hapart
    exact Or.inl ⟨f, fun e => hapart (by rw [e]), rfl⟩
  | ok key =>
    right
    cases key with
    | none => exact ⟨c, Or.inl (SameRequest.rfl' c), t⟩
    | some key =>
      obtain ⟨d, hs, u⟩ := t.sendBuffer (W := W) (t.inv.queueing t.findHandle) (switchingProtocols W key)
        (switchingProtocols W key).length .alloc
      simp only
      rw [andThen_of_none u.fault, deref_of_some u.findHandle]
      refine ⟨{ d with websocket := true, rqst := [] }, Or.inr ?_, u.request ⟨rfl, rfl, rfl, rfl⟩⟩
      exact ⟨rfl, hs.pcb, hs.closed, rfl, hs.wsCloseSent, hs.http, hs.wshdr, hs.handle⟩

end Told

/-- A request that `rqstIsReady` found whole. -/
structure Ready (c : Client) : Prop where
  websocket : c.websocket = false
  blank : (Text.find Text.blankLine c.rqst).isSome = true
  headers : c.http.headers = Http.linesOf c.rqst
  pos : 0 < c.http.size
  fits : c.http.size ≤ c.rqst.length

theorem Ready.of_same {d : Client} (hr : Ready c) (hs : SameRequest c d) : Ready d := by
  refine ⟨hs.websocket.trans hr.websocket, ?_, ?_, ?_, ?_⟩
  · rw [hs.rqst]
    exact hr.blank
  · rw [hs.http, hs.rqst]
    exact hr.headers
  · rw [hs.http]
    exact hr.pos
  · rw [hs.http, hs.rqst]
    exact hr.fits

/-- What answering a request leaves of its client, and the `s` that was said of it. -/
structure Answered (W : World) (c d : Client) (s : List Act) : Prop where
  told : s = [] ∨ s = asked W d
  headers : d.http.headers = c.http.headers
  shorter : d.rqst.length ≤ c.rqst.length
  pos : 0 < d.http.size
  fits : d.http.size ≤ c.rqst.length
  spent : d.websocket = true → d.rqst = []

theorem Answered.of_same {d : Client} {s : List Act} (hr : Ready c) (hs : SameRequest c d)
    (ha : s = [] ∨ s = asked W c) : Answered W c d s := by
  refine ⟨?_, by rw [hs.http], Nat.le_of_eq (by rw [hs.rqst]), by rw [hs.http]; exact hr.pos,
    by rw [hs.http]; exact hr.fits, fun hd => ?_⟩
  · rw [asked, hs.handle, hs.http, hs.rqst]
    exact ha
  · rw [hs.websocket, hr.websocket] at hd
    cases hd

namespace Told

variable {h : ClientHandle} {said : List Act} {w' w'' : Web}

theorem answerRqst (t : Told p h c said w w') (hr : Ready c) :
    (∃ f, f ≠ .dangling ∧ (w'.answerRqst W h c).1.fault = some f) ∨
      ∃ d s, Answered W c d s ∧ Told p h d (said ++ s) w (w'.answerRqst W h c).1 := by
  have hapart := c.http.header_apart (ascii "Upgrade")
  unfold Web.answerRqst
  rw [if_pos (by rw [hr.websocket]; rfl)]
  cases hu : c.http.header (ascii "Upgrade") with
  | error f =>
    rw [hu] at hapart
    exact Or.inl ⟨f, fun e => hapart (by rw [e]), rfl⟩
  | ok upgrade =>
    simp only
    by_cases hup : upgrade = ascii "websocket"
    · rw [if_pos hup]
      rcases t.openWebsocket (W := W) with hfault | ⟨d, hs | hs, u⟩
      · exact Or.inl hfault
      · rw [← List.append_nil said] at u
        exact Or.inr ⟨d, [], .of_same hr hs (Or.inl rfl), u⟩
      · rw [← List.append_nil said] at u
        refine Or.inr ⟨d, [], ⟨Or.inl rfl, by rw [hs.http], ?_, by rw [hs.http]; exact hr.pos,
          by rw [hs.http]; exact hr.fits, fun _ => hs.rqst⟩, u⟩
        rw [hs.rqst]
        exact Nat.zero_le _
    · rw [if_neg hup]
      by_cases hpost : c.http.type = ascii "POST"
      · rw [if_pos hpost]
        have hparse := Http.parseRequest_apart (W.stackByte w'.tick) c.rqst true
        cases hq : Http.parseRequest (W.stackByte w'.tick) c.rqst true with
        | error f =>
          rw [hq] at hparse
          exact Or.inl ⟨f, fun e => hparse (by rw [e]), rfl⟩
        | ok q =>
          right
          rcases Http.parseRequest_cases hq with ⟨hnone, -⟩ | ⟨hparsed, -⟩
          · have := hr.blank
            rw [hnone] at this
            cases this
          · have u : Told p h { c with http := q.1, rqst := q.2 } said w (w'.put { c with http := q.1, rqst := q.2 }) :=
              t.request ⟨rfl, rfl, rfl, rfl⟩
            obtain ⟨d, hs, v⟩ := u.processHttpRqst (W := W)
            refine ⟨d, _, ⟨Or.inr ?_, ?_, ?_, ?_, ?_, fun hd => ?_⟩, v⟩
            · rw [asked, asked, hs.handle, hs.http, hs.rqst]
            · rw [hs.http]
              exact hparsed.headers.trans hr.headers.symm
            · rw [hs.rqst]
              exact Nat.le_of_eq hparsed.length
            · rw [hs.http]
              exact hparsed.pos
            · rw [hs.http]
              exact hparsed.fits
            · rw [hs.websocket] at hd
              exact absurd hd (by rw [hr.websocket]; decide)
      · rw [if_neg hpost]
        right
        obtain ⟨d, hs, v⟩ := t.processHttpRqst (W := W)
        exact ⟨d, _, .of_same hr hs (Or.inr rfl), v⟩

end Told

/-! ## Closing after the answer -/

/-- Two states of a client with the same request string and what was made of it. -/
structure SameText (c d : Client) : Prop where
  rqst : d.rqst = c.rqst
  websocket : d.websocket = c.websocket
  http : d.http = c.http
  wshdr : d.wshdr = c.wshdr

theorem SameRequest.text {d : Client} (h : SameRequest c d) : SameText c d :=
  ⟨h.rqst, h.websocket, h.http, h.wshdr⟩

theorem SameText.trans {c d e : Client} (h : SameText c d) (h' : SameText d e) : SameText c e :=
  ⟨h'.rqst.trans h.rqst, h'.websocket.trans h.websocket, h'.http.trans h.http, h'.wshdr.trans h.wshdr⟩

/-- The server's own close takes the client away: it is open, nothing is queued, and `altcp_close` succeeds. -/
def closes (W : World) (w : Web) (c : Client) : Bool :=
  !c.closed && (acknowledge 0 c.sendbuf).1.isEmpty && decide (W.altcpClose w.tick = errOk)

theorem filter_releases (h : ClientHandle) (q : Pcb) (why : Releasing) (l : List Act) (bufs : List SendBuf) :
    (l ++ releases q why bufs).filter (tells h) = l.filter (tells h) := by
  have hnone : (releases q why bufs).filter (tells h) = [] := by
    rw [List.filter_eq_nil_iff]
    intro a ha
    obtain ⟨sb, -, rfl⟩ := List.mem_map.1 ha
    exact Bool.false_ne_true
  rw [List.filter_append, hnone, List.append_nil]

theorem filter_close (h : ClientHandle) (q : Pcb) (why : Closing) (err : Int) (l : List Act) :
    (l ++ [Act.close q why err]).filter (tells h) = l.filter (tells h) := by
  rw [List.filter_append]
  exact List.append_nil _

theorem closeClient_eq (h : w.findClient p = some c) : w.closeClient W p false =
    let v := (w.put { c.setClosed with sendbuf := (acknowledge 0 c.sendbuf).1 }).recordAll
      (releases p .acknowledged (acknowledge 0 c.sendbuf).2)
    if (acknowledge 0 c.sendbuf).1.isEmpty then
      if W.altcpClose w.tick = errOk then ((v.record (.close p .own (W.altcpClose w.tick))).tock).deleteClient p
      else (v.record (.close p .own (W.altcpClose w.tick))).tock
    else v := by
  unfold closeClient
  rw [h]
  rfl

namespace Told

variable {h : ClientHandle} {said : List Act} {w' w'' : Web}

/-- **The close after an answer** either takes the client away or leaves its request as it was. -/
theorem close (t : Told p h c said w w') :
    (closes W w' c = true ∧ (w'.closeClient W c.pcb false).findHandle h = none) ∨
      (closes W w' c = false ∧ ∃ d, SameText c d ∧ Told p h d said w (w'.closeClient W c.pcb false)) := by
  rcases t.inv.reg.find_pcb t.find with ⟨hclosed, h0⟩ | ⟨hopen, hpcb⟩
  · right
    have hnone : w'.findClient c.pcb = none := by rw [h0]; exact t.inv.reg.find_zero
    have hm := closeClient_pcb_moves (W := W) t.inv t.find
    have he : w'.closeClient W c.pcb false = (w'.record (.close c.pcb .unknown (W.altcpClose w'.tick))).tock := by
      unfold closeClient
      rw [hnone]
      rfl
    rw [he] at hm ⊢
    refine ⟨by rw [closes, hclosed]; rfl, c, ⟨rfl, rfl, rfl, rfl⟩, hm.inv t.inv, t.fault, t.find, t.handle, ?_⟩
    exact (filter_close h c.pcb .unknown _ w'.trace).trans t.told
  · rw [hpcb, closeClient_eq t.find, closes, hopen]
    have hset : Moves (.on p) w' (w'.put c.setClosed) := Moves.one (.setClosed rfl t.find)
    have hmoves := hset.trans (settle_moves (hset.inv t.inv) (t.inv.find_put t.find c.setClosed rfl))
    have hfind := t.inv.find_put t.find { c.setClosed with sendbuf := (acknowledge 0 c.sendbuf).1 } rfl
    have u : Told p h { c.setClosed with sendbuf := (acknowledge 0 c.sendbuf).1 } said w
        ((w'.put { c.setClosed with sendbuf := (acknowledge 0 c.sendbuf).1 }).recordAll
          (releases p .acknowledged (acknowledge 0 c.sendbuf).2)) :=
      ⟨hmoves.inv t.inv, t.fault, hfind, t.handle, (filter_releases h p _ _ _).trans t.told⟩
    have hsame : SameText c { c.setClosed with sendbuf := (acknowledge 0 c.sendbuf).1 } := ⟨rfl, rfl, rfl, rfl⟩
    generalize (w'.put { c.setClosed with sendbuf := (acknowledge 0 c.sendbuf).1 }).recordAll
      (releases p .acknowledged (acknowledge 0 c.sendbuf).2) = v at u
    by_cases hb : (acknowledge 0 c.sendbuf).1.isEmpty = true
    · simp only [if_pos hb]
      have htold (err : Int) : ((v.trace ++ [Act.close p .own err]).filter (tells h)) =
          w.trace.filter (tells h) ++ said := (filter_close h p .own err v.trace).trans u.told
      by_cases herr : W.altcpClose w'.tick = errOk
      · left
        rw [if_pos herr, hb, decide_eq_true herr]
        have hreg : ((v.record (.close p .own (W.altcpClose w'.tick))).tock).Registered :=
          ⟨u.inv.reg.leads, u.inv.reg.one, u.inv.reg.led⟩
        have hgone := hreg.findHandle_deleteClient (p := p) u.find
        rw [u.handle] at hgone
        exact ⟨rfl, hgone⟩
      · right
        rw [if_neg herr, hb, decide_eq_false herr]
        have hk : Moves (.on p) v (v.record (.close p .own (W.altcpClose w'.tick))).tock :=
          (Moves.one (.kept rfl u.find rfl (List.isEmpty_iff.1 hb) herr)).tail (.tick _)
        exact ⟨rfl, _, hsame, hk.inv u.inv, u.fault, u.find, u.handle, htold _⟩
    · right
      simp only [if_neg hb]
      rw [Bool.not_eq_true] at hb
      rw [hb]
      exact ⟨rfl, _, hsame, u⟩

end Told

/-- `process_rqst` up to its last `if`: the state it leaves, and `close`. -/
def answer (W : World) (h : ClientHandle) (c : Client) (w : Web) : Web × Bool :=
  (w.put (c.activity W w.tick)).answerRqst W h (c.activity W w.tick)

theorem processRqst_eq {h : ClientHandle} (hc : w.findHandle h = some c) :
    w.processRqst W h = (w.answer W h c).1.andThen fun v => v.deref h fun d =>
      if !d.websocket && (w.answer W h c).2 then v.closeClient W d.pcb false else v := by
  unfold processRqst
  rw [deref_of_some hc]
  rfl

namespace Told

variable {h : ClientHandle} {said : List Act} {w' w'' : Web}

theorem answer (t : Told p h c said w w') (hr : Ready c) :
    (∃ f, f ≠ .dangling ∧ (w'.answer W h c).1.fault = some f) ∨
      ∃ d s, Answered W c d s ∧ Told p h d (said ++ s) w (w'.answer W h c).1 := by
  have hs := sameRequest_activity (W := W) (c := c) w'.tick
  rcases (t.activity (W := W) w'.tick).answerRqst (W := W) (hr.of_same hs) with hfault | ⟨d, s, ha, u⟩
  · exact Or.inl hfault
  · refine Or.inr ⟨d, s, ⟨ha.told, ha.headers.trans (by rw [hs.http]), ?_, ha.pos, ?_, ha.spent⟩, u⟩
    · rw [← hs.rqst]
      exact ha.shorter
    · rw [← hs.rqst]
      exact ha.fits

/-- **A request is processed**: it is answered with its client there, and the client goes only in the close after the
answer. -/
theorem processRqst (t : Told p h c said w w') (hr : Ready c) :
    (∃ f, f ≠ .dangling ∧ (w'.answer W h c).1.fault = some f ∧ (w'.processRqst W h).fault = some f) ∨
      ∃ d s, Answered W c d s ∧ Told p h d (said ++ s) w (w'.answer W h c).1 ∧
        w'.processRqst W h =
          if !d.websocket && (w'.answer W h c).2 then (w'.answer W h c).1.closeClient W d.pcb false
          else (w'.answer W h c).1 := by
  rw [processRqst_eq t.findHandle]
  rcases t.answer (W := W) hr with ⟨f, hf, hfault⟩ | ⟨d, s, ha, u⟩
  · refine Or.inl ⟨f, hf, hfault, ?_⟩
    rw [andThen_of_fault hfault]
    exact hfault
  · refine Or.inr ⟨d, s, ha, u, ?_⟩
    rw [andThen_of_none u.fault, deref_of_some u.findHandle]

end Told

/-! ## Frames -/

/-- What the message callback is told of a frame. -/
def heard (W : World) (h : ClientHandle) (opcode : UInt8) (payload : Bytes) : List Act :=
  if opcode = Ws.OpCode.text.code ∧ W.messageCallback.isSome then [.message h payload] else []

namespace Told

variable {h : ClientHandle} {said : List Act} {w' w'' : Web}

theorem markForClose (t : Told p h c said w w') :
    ∃ d, SameText c d ∧ Told p h d said w (w'.markForClose c.pcb) := by
  unfold Web.markForClose
  rcases t.inv.reg.find_pcb t.find with ⟨-, h0⟩ | ⟨-, hpcb⟩
  · rw [h0, t.inv.reg.find_zero]
    exact ⟨c, ⟨rfl, rfl, rfl, rfl⟩, t⟩
  · rw [hpcb, t.find]
    exact ⟨c.setClosed, ⟨rfl, rfl, rfl, rfl⟩, t.put c.setClosed rfl (.setClosed rfl t.find)⟩

/-- A closing frame is answered once. -/
theorem sendClose (t : Told p h c said w w') (payload : Bytes) :
    ∃ d, SameText c d ∧ Told p h d said w
      (if !c.wsCloseSent then (w'.put (c.setWSCloseSent W w'.tick)).sendWebsocket W c.pcb .close payload else w') := by
  split
  · have hs := sameRequest_activity (W := W) (c := c) w'.tick
    have ha : SameSending c (c.activity W w'.tick) := by
      unfold Client.activity
      split <;> exact ⟨rfl, rfl, rfl, rfl⟩
    have hsame : SameSending c (c.setWSCloseSent W w'.tick) := ⟨ha.sendbuf, ha.pcb, ha.closed, ha.handle⟩
    have u := t.request hsame
    have hq := u.inv.queueing (t := .call) u.findHandle
    rw [hsame.pcb] at hq
    obtain ⟨d, hd, v⟩ := u.sendWebsocket (W := W) hq .close payload
    refine ⟨d, ⟨?_, ?_, ?_, ?_⟩, v⟩
    · exact hd.rqst.trans hs.rqst
    · exact hd.websocket.trans hs.websocket
    · exact hd.http.trans hs.http
    · exact hd.wshdr.trans hs.wshdr
  · exact ⟨c, ⟨rfl, rfl, rfl, rfl⟩, t⟩

/-- A frame is processed with its client there, and its request string is left alone. -/
theorem processWebsocket (t : Told p h c said w w') {payload : Bytes}
    (hp : Text.substr c.rqst (some c.wshdr.start.toNat) (some (c.wshdr.start.toNat + c.wshdr.length.toNat)) =
      .ok payload) :
    ∃ d, SameText c d ∧ Told p h d (said ++ [.frame h c.wshdr.opcode payload] ++ heard W h c.wshdr.opcode payload) w
      (w'.processWebsocket W h) := by
  have hs := sameRequest_activity (W := W) (c := c) w'.tick
  have u := (t.activity (W := W) w'.tick).record (a := .frame h c.wshdr.opcode payload) (beq_self_eq_true h)
  unfold Web.processWebsocket
  rw [deref_of_some t.findHandle]
  simp only [hs.wshdr, hs.rqst, hp, heard]
  generalize (w'.put (c.activity W w'.tick)).record (.frame h c.wshdr.opcode payload) = v at u
  generalize c.activity W w'.tick = c1 at hs u
  have hqueue {v' : Web} {d : Client} {s : List Act} (t' : Told p h d s w v') : Queueing .call v' d.pcb :=
    t'.inv.queueing t'.findHandle
  by_cases htext : c.wshdr.opcode = Ws.OpCode.text.code
  · rw [if_pos htext]
    cases hcb : W.messageCallback with
    | none =>
      simp only [Option.isSome_none, Bool.false_eq_true, and_false, if_false, List.append_nil]
      exact ⟨c1, hs.text, u⟩
    | some callback =>
      simp only [Option.isSome_some, and_true, if_pos htext]
      obtain ⟨d, hd, u'⟩ := ((u.record (a := .message h payload) (beq_self_eq_true h)).tock).calls (W := W)
        (callback v.tick h payload)
      exact ⟨d, (hs.trans hd).text, u'⟩
  · simp only [htext, false_and, if_false, List.append_nil]
    split
    · obtain ⟨d, hd, u'⟩ := u.sendWebsocket (W := W) (hqueue u) .pong payload
      exact ⟨d, (hs.trans hd).text, u'⟩
    · split
      · obtain ⟨d, hd, u'⟩ := u.sendClose (W := W) payload
        rw [andThen_of_none u'.fault, deref_of_some u'.findHandle]
        obtain ⟨e, he, u''⟩ := u'.markForClose
        exact ⟨e, hs.text.trans (hd.trans he), u''⟩
      · exact ⟨c1, hs.text, u⟩

end Told

theorem websocket_resetRqst (c : Client) : c.resetRqst.websocket = c.websocket := by
  unfold Client.resetRqst
  split <;> rfl

/-! ## A segment -/

namespace Told

variable {h : ClientHandle} {said : List Act} {w' : Web}

theorem tcpServerRecv_nil (t : Told p h c said w w') : w'.tcpServerRecv W p (some []) = w' := by
  unfold Web.tcpServerRecv
  rw [t.find]
  exact if_pos rfl

/-- A segment is appended to the buffer, and the loop runs. -/
theorem tcpServerRecv_eq (t : Told p h c said w w') {data : Bytes} (hne : data ≠ []) :
    Told p h { c with rqst := c.rqst ++ data } said w (w'.put { c with rqst := c.rqst ++ data }) ∧
      w'.tcpServerRecv W p (some data) = (w'.put { c with rqst := c.rqst ++ data }).recvLoop W h (c.rqst ++ data) := by
  refine ⟨t.request ⟨rfl, rfl, rfl, rfl⟩, ?_⟩
  rw [← t.handle]
  unfold Web.tcpServerRecv
  rw [t.find]
  exact if_neg (by rw [List.isEmpty_iff]; exact hne)

theorem step_recv (t : Told p h c said w w') (data : Block) :
    w'.step W (.recv p (some data)) = w'.tcpServerRecv W p (some data.val) := step_of_none t.fault _

theorem recv_empty (t : Told p h c said w w') {data : Block} (hempty : data.val = []) :
    w'.step W (.recv p (some data)) = w' := by
  rw [t.step_recv, hempty, t.tcpServerRecv_nil]

theorem recv_eq (t : Told p h c said w w') {data : Block} (hne : data.val ≠ []) :
    Told p h { c with rqst := c.rqst ++ data.val } said w (w'.put { c with rqst := c.rqst ++ data.val }) ∧
      w'.step W (.recv p (some data)) =
        (w'.put { c with rqst := c.rqst ++ data.val }).recvLoop W h (c.rqst ++ data.val) := by
  rw [t.step_recv]
  exact t.tcpServerRecv_eq hne

end Told

/-! ## Events of others -/

/-- An event of another connection, or a call by the program, leaves the client's request as it was and tells nobody of
it. -/
theorem other_keeps (i : w.Inv) (hf : w.fault = none) (hc : w.findClient p = some c) {e : Event} (ha : Allowed w e)
    (hturn : e.turn.pcb ≠ some p) : ∃ d, (w.step W e).findClient p = some d ∧ SameRequest c d ∧
      (w.step W e).trace.filter (tells c.handle) = w.trace.filter (tells c.handle) := by
  have hstays (bufs : List SendBuf) (q : Pcb) (a : Act) (htells : tells c.handle a = false)
      (hfind : (w.step W e).findClient p = w.findClient p)
      (htrace : (w.step W e).trace = w.trace ++ [a] ++ releases q .deleted bufs) :
      ∃ d, (w.step W e).findClient p = some d ∧ SameRequest c d ∧
        (w.step W e).trace.filter (tells c.handle) = w.trace.filter (tells c.handle) := by
    refine ⟨c, hfind.trans hc, SameRequest.rfl' c, ?_⟩
    rw [htrace, filter_releases, List.filter_append, List.filter_cons,
      if_neg (by rw [htells]; exact Bool.false_ne_true), List.filter_nil, List.append_nil]
  cases step_cases (W := W) i hf ha with
  | moves m _ =>
    obtain ⟨d, hd, hs⟩ := m.keeps i hturn hc
    exact ⟨d, hd, hs, m.quiet i hturn hc⟩
  | @opens q k _ _ _ hfind ht =>
    have hpq : p ≠ q := fun e => hturn (by rw [e]; rfl)
    refine hstays [] q (.accept q k) rfl (by rw [hfind, if_neg hpq]) ?_
    rw [ht]
    exact (List.append_nil _).symm
  | @unknown q _ hfind ht =>
    refine hstays [] q (.err q) rfl (hfind p) ?_
    rw [ht]
    exact (List.append_nil _).symm
  | @loses q d _ a takes hd hfind ht =>
    have hpq : p ≠ q := by
      rintro rfl
      cases takes <;> exact hturn rfl
    refine hstays d.sendbuf q a ?_ (by rw [hfind, if_neg hpq]) ht
    cases takes <;> rfl

theorem Told.other {h : ClientHandle} {said : List Act} {w' : Web} (t : Told p h c said w w') {e : Event}
    (ha : Allowed w' e) (hturn : e.turn.pcb ≠ some p) (hf : (w'.step W e).fault = none) :
    ∃ d, SameRequest c d ∧ Told p h d said w (w'.step W e) := by
  obtain ⟨d, hd, hs, htold⟩ := other_keeps (W := W) t.inv t.fault t.find ha hturn
  rw [t.handle] at htold
  exact ⟨d, hs, inv_step t.inv ha, hf, hd, hs.handle.trans t.handle, htold.trans t.told⟩

/-- What arrives on one connection, segment after segment, while other events, of other connections and of the program,
come in between and return. -/
inductive Feeds (W : World) (p : Pcb) : Web → Bytes → Web → Prop where
  | done (w : Web) : Feeds W p w [] w
  | segment {w w' : Web} {text : Bytes} (data : Block) : Feeds W p (w.step W (.recv p (some data))) text w' →
      Feeds W p w (data.val ++ text) w'
  | other {w w' : Web} {text : Bytes} (e : Event) : Allowed w e → e.turn.pcb ≠ some p → (w.step W e).fault = none →
      Feeds W p (w.step W e) text w' → Feeds W p w text w'

end Web
end Pico
