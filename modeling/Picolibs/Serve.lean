import Picolibs.Client
/-!
# Serve — sending, closing, and the lwIP callbacks (`web.cpp`, `send_buffer` to `close_client`)

Each definition is the source's function of that name on the state of `Client`.  `step` is one thing that can happen to
the server: a callback from lwIP, a call by the program, or a bare call of one of the two functions that work on a
client's queue, which the source makes from many places.
-/
namespace Pico
namespace Web

open Http (HttpRequest)

variable (W : World)

/-! ## Closing and writing -/

/-- `close_client`. -/
def closeClient (w : Web) (pcb : Pcb) (isClosed : Bool) : Web :=
  match w.findClient pcb with
  | some client =>
    if !isClosed then
      let client := client.setClosed
      let q := acknowledge 0 client.sendbuf
      let w := (w.put { client with sendbuf := q.1 }).recordAll (releases pcb .acknowledged q.2)
      if q.1.isEmpty then
        let csts := W.altcpClose w.tick
        let w := (w.record (.close pcb .own csts)).tock
        if csts = errOk then w.deleteClient pcb else w
      else w
    else
      let w := w.put client.setClosed
      let w := (w.record (.close pcb .peer (W.altcpClose w.tick))).tock
      w.deleteClient pcb
  | none =>
    if !isClosed then (w.record (.close pcb .unknown (W.altcpClose w.tick))).tock
    else w

def tcpMss : Nat := 1460

/-- The first half of `write_next`: one chunk of the front buffer is given to `altcp_write`, and put back if it is
refused. -/
def writeChunk (w : Web) (pcb : Pcb) (client : Client) : Web × Client :=
  let client := client.activity W w.tick
  let nn := if tcpMss < (W.altcpSndbuf w.tick).toNat then tcpMss else (W.altcpSndbuf w.tick).toNat
  match getNext nn client.sendbuf with
  | (some chunk, bufs, gone) =>
    let err := W.altcpWrite w.tick
    let client := { client with sendbuf := if err = errOk then bufs else requeue chunk bufs }
    let id := (bufs.head?.map SendBuf.id).getD 0
    ((((w.put client).recordAll (releases pcb .acknowledged gone)).record (.write pcb id chunk err)).tock, client)
  | (none, bufs, gone) =>
    let client := { client with sendbuf := bufs }
    (((w.put client).recordAll (releases pcb .acknowledged gone)).tock, client)

/-- `write_next`. -/
def writeNext (w : Web) (pcb : Pcb) : Web :=
  match w.findClient pcb with
  | none => w
  | some client =>
    let r := w.writeChunk W pcb client
    if r.2.closed && !r.2.moreToSend then r.1.closeClient W pcb false else r.1

/-- `queue_send`, with the address of the new `SENDBUF`. -/
def queueSend (w : Web) (pcb : Pcb) (client : Client) (data : Bytes) (allocated : Allocation) : Web :=
  let sb := SendBuf.new w.serial data allocated
  { (w.put { client with sendbuf := client.sendbuf ++ [sb] }).record (.queue pcb w.serial data allocated) with
    serial := w.serial + 1 }

/-- `send_buffer`: the length is cut to 16 bits. -/
def sendBuffer (w : Web) (pcb : Pcb) (buffer : Bytes) (buflen : Nat) (allocated : Allocation) : Web :=
  match w.findClient pcb with
  | none => w
  | some client => (w.queueSend pcb client (buffer.take (buflen % 2 ^ 16)) allocated).writeNext W pcb

/-- `send_websocket`. -/
def sendWebsocket (w : Web) (pcb : Pcb) (opc : Ws.OpCode) (payload : Bytes) : Web :=
  match Ws.buildPacket opc payload false (W.rand w.tick) with
  | .ok r => w.sendBuffer W pcb r.2 r.2.length .alloc
  | .error f => w.throw f

/-- `mark_for_close`. -/
def markForClose (w : Web) (pcb : Pcb) : Web :=
  match w.findClient pcb with
  | some client => w.put client.setClosed
  | none => w

/-! ## What a program calls

The three senders look a client up by its handle and compare it with the client its pcb leads to; without one they
read through a null pointer, find nothing there and return false. -/

def sendTo (w : Web) (handle : ClientHandle) (send : Pcb → Web) : Bool × Web :=
  match w.findHandle handle with
  | none => (false, w.record (.nullClient handle))
  | some client => (true, if w.clientPCB[client.pcb]? = some handle then send client.pcb else w)

/-- `send_data`. -/
def sendData (w : Web) (handle : ClientHandle) (data : Block) (allocate : Allocation) : Bool × Web :=
  w.sendTo handle (fun pcb => w.sendBuffer W pcb data.val data.val.length allocate)

/-- `send_message` of a string. -/
def sendMessage (w : Web) (handle : ClientHandle) (message : Bytes) : Bool × Web :=
  w.sendTo handle (fun pcb => w.sendWebsocket W pcb .text message)

/-- `send_message` of a `TXT`, whose buffer goes to the queue. -/
def sendMessageTxt (w : Web) (handle : ClientHandle) (message : Txt) : Bool × Web :=
  w.sendTo handle (fun pcb =>
    match Txt.buildPacket .text message false (W.rand w.tick) with
    | .ok r => w.sendBuffer W pcb r.2.data r.2.datasize .preall
    | .error f => w.throw f)

/-- `broadcast_websocket` of a string, from one place of the map on. -/
def broadcastFrom (txt : Bytes) : List ClientHandle → Web → Web
  | [], w => w
  | handle :: rest, w =>
    w.andThen fun w => w.deref handle fun client =>
      broadcastFrom txt rest (if client.websocket then w.sendWebsocket W client.pcb .text txt else w)

def broadcastWebsocket (w : Web) (txt : Bytes) : Web := broadcastFrom W txt w.clientHndl.keys w

/-- `broadcast_websocket` of a `TXT`: all but the last of the `nwsc` websocket clients get a copy. -/
def broadcastTxtFrom (txt : Txt) : Nat → List ClientHandle → Web → Web
  | _, [], w => w
  | nwsc, handle :: rest, w =>
    w.andThen fun w => w.deref handle fun client =>
      if client.websocket then
        if 0 < nwsc - 1 then
          match Txt.ofData txt.data txt.datasize (txt.datasize + 16) with
          | .ok txt1 => broadcastTxtFrom txt (nwsc - 1) rest (w.sendMessageTxt W handle txt1).2
          | .error f => w.throw f
        else broadcastTxtFrom txt (nwsc - 1) rest (w.sendMessageTxt W handle txt).2
      else broadcastTxtFrom txt nwsc rest w

def broadcastWebsocketTxt (w : Web) (txt : Txt) : Web :=
  let nwsc := (w.clientHndl.keys.filter (fun h => (w.findHandle h).any Client.websocket)).length
  broadcastTxtFrom W txt nwsc w.clientHndl.keys w

def call (w : Web) : AppCall → Web
  | .sendData handle data allocate => (w.sendData W handle data allocate).2
  | .sendMessage handle message => (w.sendMessage W handle message).2
  | .sendMessageTxt handle message => (w.sendMessageTxt W handle message.val).2
  | .broadcastWebsocket txt => w.broadcastWebsocket W txt
  | .broadcastWebsocketTxt txt => w.broadcastWebsocketTxt W txt.val

/-- The calls a callback makes, one after another. -/
def calls : List AppCall → Web → Web
  | [], w => w
  | c :: cs, w => w.andThen fun w => calls cs (w.call W c)

/-! ## Requests -/

def notFound : Bytes := ascii "HTTP/1.0 404 NOT_FOUND\r\n\r\n"

def serverError : Bytes := ascii "HTTP/1.0 500 Internal Server Error\r\n\r\n"

/-- `process_http_rqst`: the state, and the value it leaves in `close`. -/
def processHttpRqst (w : Web) (handle : ClientHandle) (client : Client) : Web × Bool :=
  match W.httpCallback with
  | none => (w.sendBuffer W client.pcb notFound 26 .alloc, true)
  | some callback =>
    let reply := callback w.tick client.handle client.http client.rqst
    let w := calls W reply.calls (w.record (.http client.handle client.http client.rqst)).tock
    if reply.handled then (w, reply.close)
    else (w.andThen fun w => w.deref handle fun client => w.sendBuffer W client.pcb notFound 26 .alloc, reply.close)

def switchingProtocols (W : World) (key : Bytes) : Bytes :=
  ascii "HTTP/1.1 101 Switching Protocols\r\nUpgrade: websocket\r\nConnection: Upgrade\r\nSec-WebSocket-Accept: " ++
    W.base64 (W.sha1 (key ++ ascii "258EAFA5-E914-47DA-95CA-C5AB0DC85B11")) ++ Text.blankLine

/-- What `open_websocket` asks of a request: the key, when the request is a good one. -/
def websocketKey (http : HttpRequest) : Except Fault (Option Bytes) := do
  let host ← http.header (ascii "Host")
  let key ← http.header (ascii "Sec-WebSocket-Key")
  let connection ← http.header (ascii "Connection")
  let upgrade ← http.header (ascii "Upgrade")
  let hasOrigin := ((http.headerIndex (ascii "Origin") 0).getD 0 : Nat) > 0
  let version ← http.header (ascii "Sec-WebSocket-Version")
  .ok (if (Text.find (ascii "Upgrade") connection).isSome ∧ hasOrigin ∧ upgrade = ascii "websocket" ∧
    version = ascii "13" ∧ 0 < host.length then some key else none)

/-- `open_websocket`. -/
def openWebsocket (w : Web) (handle : ClientHandle) (client : Client) : Web :=
  match websocketKey client.http with
  | .error f => w.throw f
  | .ok none => w
  | .ok (some key) =>
    let resp := switchingProtocols W key
    (w.sendBuffer W client.pcb resp resp.length .alloc).andThen fun w => w.deref handle fun client =>
      w.put { client with websocket := true, rqst := [] }

/-- The middle of `process_rqst`: what it does with the request, and `close`. -/
def answerRqst (w : Web) (handle : ClientHandle) (client : Client) : Web × Bool :=
  if !client.websocket then
    match client.http.header (ascii "Upgrade") with
    | .error f => (w.throw f, true)
    | .ok upgrade =>
      if upgrade = ascii "websocket" then (w.openWebsocket W handle client, true)
      else if client.http.type = ascii "POST" then
        match Http.parseRequest (W.stackByte w.tick) client.rqst true with
        | .error f => (w.throw f, true)
        | .ok r =>
          let client := { client with http := r.1, rqst := r.2 }
          (w.put client).processHttpRqst W handle client
      else w.processHttpRqst W handle client
  else (w.sendBuffer W client.pcb serverError 38 .alloc, true)

/-- `process_rqst`. -/
def processRqst (w : Web) (handle : ClientHandle) : Web :=
  w.deref handle fun client =>
    let client := client.activity W w.tick
    let r := (w.put client).answerRqst W handle client
    r.1.andThen fun w => w.deref handle fun client =>
      if !client.websocket && r.2 then w.closeClient W client.pcb false else w

/-- `process_websocket`. -/
def processWebsocket (w : Web) (handle : ClientHandle) : Web :=
  w.deref handle fun client =>
    let client := client.activity W w.tick
    let w := w.put client
    let opc := client.wshdr.opcode
    match Text.substr client.rqst (some client.wshdr.start.toNat)
      (some (client.wshdr.start.toNat + client.wshdr.length.toNat)) with
    | .error f => w.throw f
    | .ok payload =>
      let w := w.record (.frame handle opc payload)
      if opc = Ws.OpCode.text.code then
        match W.messageCallback with
        | none => w
        | some callback => calls W (callback w.tick handle payload) (w.record (.message handle payload)).tock
      else if opc = Ws.OpCode.ping.code then w.sendWebsocket W client.pcb .pong payload
      else if opc = Ws.OpCode.close.code then
        let w :=
          if !client.wsCloseSent then
            (w.put (client.setWSCloseSent W w.tick)).sendWebsocket W client.pcb .close payload
          else w
        w.andThen fun w => w.deref handle fun client => w.markForClose client.pcb
      else w

/-! ## The callbacks from lwIP -/

/-- One pass of the loop of `tcp_server_recv`, on the client it found before the loop. -/
def recvPass (handle : ClientHandle) (w : Web) : Loop.Pass Web Web :=
  match w.findHandle handle with
  | none => .leave (w.throw .dangling)
  | some client =>
    match client.rqstIsReady with
    | .error f => .leave (w.throw f)
    | .ok (ready, client) =>
      let w := w.put client
      if ready then
        let w := if !client.websocket then w.processRqst W handle else w.processWebsocket W handle
        if w.fault.isSome then .leave w
        else
          match w.findHandle handle with
          | none => .leave (w.throw .dangling)
          | some client => .again (w.put client.resetRqst)
      else .leave w

/-- The loop; every pass shortens the request string. -/
def recvLoop (w : Web) (handle : ClientHandle) (rqst : Bytes) : Web :=
  (Loop.run (recvPass W handle) (rqst.length + 1) w).getD (w.throw .hang)

/-- `tcp_server_recv` with a segment (`none`: the peer closed).  The copy in pieces of 64 bytes appends them all. -/
def tcpServerRecv (w : Web) (pcb : Pcb) (segment : Option Bytes) : Web :=
  match segment with
  | none => w.closeClient W pcb true
  | some data =>
    match w.findClient pcb with
    | none => w
    | some client =>
      if data.isEmpty then w
      else
        let client := { client with rqst := client.rqst ++ data }
        (w.put client).recvLoop W client.handle client.rqst

/-- `tcp_server_sent`. -/
def tcpServerSent (w : Web) (pcb : Pcb) (len : Nat) : Web :=
  let w := w.record (.sent pcb len)
  match w.findClient pcb with
  | none => w.writeNext W pcb
  | some client =>
    let q := acknowledge len client.sendbuf
    ((w.put { client with sendbuf := q.1 }).recordAll (releases pcb .acknowledged q.2)).writeNext W pcb

/-- What `tcp_server_poll` does about an idle client. -/
def pollIdle (w : Web) (pcb : Pcb) (client : Client) : Web :=
  if client.isIdle W w.tick then
    if client.websocket && !client.wsCloseSent then
      (w.put (client.setWSCloseSent W w.tick)).sendWebsocket W client.pcb .close []
    else w.markForClose pcb
  else w

/-- `tcp_server_poll`. -/
def tcpServerPoll (w : Web) (pcb : Pcb) : Web :=
  match w.findClient pcb with
  | none => w
  | some client =>
    if client.pcb = pcb then
      let w := if client.moreToSend then w.writeNext W client.pcb else w
      let handle := client.handle
      w.deref handle fun client => (w.pollIdle W pcb client).andThen fun w => w.deref handle fun client =>
        if client.closed then w.closeClient W pcb false else w
    else w.closeClient W pcb false

/-- `tcp_server_err`. -/
def tcpServerErr (w : Web) (pcb : Pcb) : Web :=
  let w := w.record (.err pcb)
  match w.findClient pcb with
  | some _ => w.deleteClient pcb
  | none => w

/-- `tcp_server_accept`. -/
def tcpServerAccept (w : Web) (pcb : Pcb) (err : Int) : Web :=
  if err ≠ errOk ∨ pcb = 0 then w else w.addClient W pcb

end Web

/-! ## Steps -/

inductive Event where
  | accept (pcb : Pcb) (err : Int)
  | recv (pcb : Pcb) (segment : Option Block)
  | sent (pcb : Pcb) (len : Nat)
  | poll (pcb : Pcb)
  | err (pcb : Pcb)
  | app (call : AppCall)
  | sendBuffer (pcb : Pcb) (data : Block) (allocated : Allocation)
  | writeNext (pcb : Pcb)

def Web.step (W : World) (w : Web) (e : Event) : Web :=
  w.andThen fun w =>
    match e with
    | .accept pcb err => w.tcpServerAccept W pcb err
    | .recv pcb segment => w.tcpServerRecv W pcb (segment.map Subtype.val)
    | .sent pcb len => w.tcpServerSent W pcb len
    | .poll pcb => w.tcpServerPoll W pcb
    | .err pcb => w.tcpServerErr pcb
    | .app c => w.call W c
    | .sendBuffer pcb data allocated => w.sendBuffer W pcb data.val data.val.length allocated
    | .writeNext pcb => w.writeNext W pcb

end Pico
