import Picolibs.Loop
import Picolibs.HttpPost
import Picolibs.Txt
import Picolibs.SendBuf
/-!
# Client — the server's state and its two maps (`web.h`, `addClient` to `findClient`, `CLIENT`)

`Web` is the server: the clients by handle, the handles by pcb, and what stands beside them in the source as global
state.  A pcb is an address, 0 the null pointer.  `trace` is what an observer of the library's boundary writes down:
the calls of `altcp_write` and `altcp_close`, what was queued and deleted, and what was given to the callbacks.  A
`World` answers everything the server asks of its surroundings, each question at the moment (`tick`) it is asked.

`fault` is set by what does not return; nothing runs after it.  A `CLIENT &` is the client's handle, looked up at each
use: a reference to a client that was deleted is the fault `dangling`.
-/
namespace Pico

open Http (HttpRequest)
open Std (ExtTreeMap)

abbrev Pcb := Nat

abbrev ClientHandle := UInt32

structure Client where
  rqst : Bytes := []
  pcb : Pcb
  closed : Bool := false
  websocket : Bool := false
  wsCloseSent : Bool := false
  sendbuf : List SendBuf := []
  http : HttpRequest := {}
  wshdr : Ws.Header := {}
  lastActivity : Int := 0
  handle : ClientHandle
  deriving DecidableEq

/-! ## The boundary -/

/-- Why the server calls `altcp_close`: on its own, because the peer closed, or on a pcb it does not know. -/
inductive Closing where
  | own
  | peer
  | unknown
  deriving DecidableEq, Repr

/-- Why a `SENDBUF` is deleted: `acknowledge` found it acknowledged whole, or its client is deleted. -/
inductive Releasing where
  | acknowledged
  | deleted
  deriving DecidableEq, Repr

inductive Act where
  | accept (pcb : Pcb) (handle : ClientHandle)
  | queue (pcb : Pcb) (id : Nat) (data : Bytes) (allocated : Allocation)
  | write (pcb : Pcb) (id : Nat) (data : Bytes) (err : Int)
  | sent (pcb : Pcb) (len : Nat)
  | release (pcb : Pcb) (id : Nat) (allocated : Allocation) (why : Releasing)
  | close (pcb : Pcb) (why : Closing) (err : Int)
  | err (pcb : Pcb)
  | http (handle : ClientHandle) (rqst : HttpRequest) (text : Bytes)
  | frame (handle : ClientHandle) (opcode : UInt8) (payload : Bytes)
  | message (handle : ClientHandle) (payload : Bytes)
  | nullClient (handle : ClientHandle)
  deriving DecidableEq

/-- A block of memory that a 16-bit length describes. -/
abbrev Block := { data : Bytes // data.length < 2 ^ 16 }

/-- What a program may call, from a callback or on its own. -/
inductive AppCall where
  | sendData (client : ClientHandle) (data : Block) (allocate : Allocation)
  | sendMessage (client : ClientHandle) (message : Bytes)
  | sendMessageTxt (client : ClientHandle) (message : { t : Txt // t.Owned })
  | broadcastWebsocket (txt : Bytes)
  | broadcastWebsocketTxt (txt : { t : Txt // t.Owned })

/-- What a call of `http_callback_` does: its calls, the value it returns, and what it leaves in `close`. -/
structure HttpReply where
  calls : List AppCall := []
  handled : Bool := true
  close : Bool := true

structure World where
  httpCallback : Option (Nat → ClientHandle → HttpRequest → Bytes → HttpReply) := none
  messageCallback : Option (Nat → ClientHandle → Bytes → List AppCall) := none
  altcpSndbuf : Nat → UInt16 := fun _ => 11680
  altcpWrite : Nat → Int := fun _ => 0
  altcpClose : Nat → Int := fun _ => 0
  now : Nat → Int := fun _ => 0
  rand : Nat → UInt32 := fun _ => 0
  sha1 : Bytes → Bytes := fun _ => []
  base64 : Bytes → Bytes := fun _ => []
  -- what `uri_decode` reads uninitialised, in each of its calls at a tick
  stackByte : Nat → Http.Stack := fun _ _ => 0
  -- the build's `HTTP_IDLE_TIME`, `WS_IDLE_TIME` and `WS_CLOSE_WAIT`
  httpIdleTime : Nat := 10
  wsIdleTime : Nat := 0
  wsCloseWait : Nat := 2

def errOk : Int := 0

structure Web where
  clientHndl : ExtTreeMap ClientHandle Client compare := ∅
  clientPCB : ExtTreeMap Pcb ClientHandle compare := ∅
  nextHandle : ClientHandle := 999
  tick : Nat := 0
  -- the address the next `SENDBUF` gets
  serial : Nat := 0
  trace : List Act := []
  fault : Option Fault := none

namespace Web

def record (w : Web) (a : Act) : Web := { w with trace := w.trace ++ [a] }

def recordAll (w : Web) (as : List Act) : Web := { w with trace := w.trace ++ as }

def tock (w : Web) : Web := { w with tick := w.tick + 1 }

def throw (w : Web) (f : Fault) : Web := { w with fault := some f }

/-- The next statement, when this one returned. -/
def andThen (w : Web) (next : Web → Web) : Web := if w.fault.isSome then w else next w

/-! ## The maps -/

def findHandle (w : Web) (handle : ClientHandle) : Option Client := w.clientHndl[handle]?

def findClient (w : Web) (pcb : Pcb) : Option Client := (w.clientPCB[pcb]?).bind w.findHandle

/-- A write through a `CLIENT *`. -/
def put (w : Web) (c : Client) : Web := { w with clientHndl := w.clientHndl.insert c.handle c }

/-- A use of a `CLIENT &`. -/
def deref (w : Web) (handle : ClientHandle) (use : Client → Web) : Web :=
  match w.findHandle handle with
  | some c => use c
  | none => w.throw .dangling

def releases (pcb : Pcb) (why : Releasing) (bufs : List SendBuf) : List Act :=
  bufs.map (fun sb => .release pcb sb.id sb.allocated why)

/-- `deleteClient`, with what `~CLIENT` deletes. -/
def deleteClient (w : Web) (pcb : Pcb) : Web :=
  match w.clientPCB[pcb]? with
  | none => w
  | some handle =>
    let w := match w.clientHndl[handle]? with
      | some c => { w with clientHndl := w.clientHndl.erase handle, trace := w.trace ++ releases pcb .deleted c.sendbuf }
      | none => w
    { w with clientPCB := w.clientPCB.erase pcb }

/-! ## Handles -/

def bump (handle : ClientHandle) : ClientHandle := if handle + 1 = 0 then 1000 else handle + 1

def handlePass (w : Web) (handle : ClientHandle) : Loop.Pass ClientHandle ClientHandle :=
  if (w.findHandle handle).isSome then .again (bump handle) else .leave handle

/-- `CLIENT::nextHandle`: `none` when every handle of the cycle is taken. -/
def newHandle (w : Web) : Option ClientHandle :=
  Loop.run w.handlePass (w.clientHndl.size + 1) (bump w.nextHandle)

end Web

/-! ## A client -/

namespace Client

variable (W : World)

def activity (c : Client) (tick : Nat) : Client := if c.wsCloseSent then c else { c with lastActivity := W.now tick }

def setClosed (c : Client) : Client := { c with closed := true, pcb := 0 }

def setWSCloseSent (c : Client) (tick : Nat) : Client := { c.activity W tick with wsCloseSent := true }

def moreToSend (c : Client) : Bool := !c.sendbuf.isEmpty

def isIdle (c : Client) (tick : Nat) : Bool :=
  if c.closed then false
  else
    let idle := (W.now tick - c.lastActivity).tdiv 60000000
    if c.websocket then
      if 0 < W.wsIdleTime then
        if c.wsCloseSent then decide (W.wsCloseWait < idle) else decide (W.wsIdleTime < idle)
      else false
    else decide (0 < W.httpIdleTime) && decide (W.httpIdleTime < idle)

/-- `rqstIsReady`: whether it is, and the client with its request parsed. -/
def rqstIsReady (c : Client) : Except Fault (Bool × Client) :=
  if !c.websocket then do
    -- no POST data are read, so that nothing is decoded
    let r ← Http.parseRequest (fun _ => 0) c.rqst false
    .ok (r.1.isComplete, { c with http := r.1, rqst := r.2 })
  else do
    let r ← Ws.parsePacket c.wshdr c.rqst
    .ok (r.1 == Ws.wsSuccess, { c with wshdr := r.2.1, rqst := r.2.2 })

def resetRqst (c : Client) : Client :=
  if !c.websocket then
    { c with rqst := if c.http.isComplete then c.rqst.drop c.http.size else [], http := {} }
  else
    let ii := (c.wshdr.start.toUInt32 + c.wshdr.length).toNat
    { c with rqst := if ii < c.rqst.length then c.rqst.drop ii else [] }

end Client

namespace Web

variable (W : World)

/-- `addClient`. -/
def addClient (w : Web) (pcb : Pcb) : Web :=
  match w.clientPCB[pcb]? with
  | some _ => w.record (.nullClient 0)
  | none =>
    match w.newHandle with
    | none => w.throw .hang
    | some handle =>
      let c : Client := { pcb := pcb, handle := handle, lastActivity := W.now w.tick }
      { w with
        clientPCB := w.clientPCB.insertIfNew pcb handle
        clientHndl := w.clientHndl.insertIfNew handle c
        nextHandle := handle
        trace := w.trace ++ [.accept pcb handle] }

/-- A client as `addClient` makes it. -/
def newClient (w : Web) (p : Pcb) (h : ClientHandle) : Client :=
  { pcb := p, handle := h, lastActivity := W.now w.tick }

end Web
end Pico
