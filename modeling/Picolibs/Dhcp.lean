import Picolibs.Tagged
import Picolibs.Txt
/-!
# Dhcp — the DHCP server of the access point (`dhcpserver.h`, `dhcpserver.c`)

A message is the 548 bytes of `dhcp_msg_t`, which stands on the stack: what the packet does not fill is what was there
before.  Pointers are offsets into it, and a read past its end is the fault `outOfBounds`.

`process` answers DISCOVER from the leases and notes a REQUEST in them.  A lease's expiry is the high half of a 32-bit
clock in milliseconds, so that it is compared, and expires, modulo 2^32.
-/
namespace Pico
namespace Dhcp

open Txt (readBlock writeBlock)
open Tagged

/-! ## Messages -/

def discoverMsg : UInt8 := 1
def offerMsg : UInt8 := 2
def requestMsg : UInt8 := 3
def ackMsg : UInt8 := 5

def optSubnetMask : UInt8 := 1
def optRouter : UInt8 := 3
def optDns : UInt8 := 6
def optRequestedIp : UInt8 := 50
def optIpLeaseTime : UInt8 := 51
def optMsgType : UInt8 := 53
def optServerId : UInt8 := 54
def optEnd : UInt8 := 255

/-- `sizeof(dhcp_msg_t)`. -/
def msgSize : Nat := 548

/-- `DHCP_MIN_SIZE`. -/
def minSize : Nat := 240 + 3

-- the fields of `dhcp_msg_t` that are used, by their offsets
def opAt : Nat := 0
def yiaddrAt : Nat := 16
def chaddrAt : Nat := 28
def optionsAt : Nat := 236

def macLen : Nat := 6

/-- What stands on the stack before a message does. -/
structure Stack where
  bytes : Bytes
  size : bytes.length = msgSize

structure Ip4 where
  a : UInt8
  b : UInt8
  c : UInt8
  d : UInt8
  deriving DecidableEq

/-- The address as it lies in memory. -/
def Ip4.bytes (ip : Ip4) : Bytes := [ip.a, ip.b, ip.c, ip.d]

/-- The address and the mask that `start_ap` gives the server. -/
def apIp : Ip4 := ⟨192, 168, 4, 1⟩
def apMask : Ip4 := ⟨255, 255, 255, 0⟩

def readByte (msg : Bytes) (p : Nat) : Except Fault UInt8 :=
  match msg[p]? with
  | some b => .ok b
  | none => .error .outOfBounds

/-- `opt_find`, with a budget of passes. -/
def optFindFrom (msg : Bytes) (opt : Nat) (cmd : UInt8) : Nat → Nat → Except Fault (Option Nat)
  | 0, _ => .ok none
  | n + 1, i =>
    if i < 308 then do
      let b ← readByte msg (opt + i)
      if b = optEnd then .ok none
      else if b = cmd then .ok (some (opt + i))
      else do
        let len ← readByte msg (opt + i + 1)
        optFindFrom msg opt cmd n (i + (2 + len.toNat))
    else .ok none

/-- `opt_find`; a pass goes on by two bytes at least. -/
def optFind (msg : Bytes) (opt : Nat) (cmd : UInt8) : Except Fault (Option Nat) := optFindFrom msg opt cmd 308 0

/-- `opt_write_n`: the message, and the pointer behind the option. -/
def optWriteN (cmd : UInt8) (data : Bytes) (w : Bytes × Nat) : Except Fault (Bytes × Nat) := do
  let msg ← writeBlock w.1 w.2 (cmd :: UInt8.ofNat data.length :: data)
  .ok (msg, w.2 + (2 + data.length))

def optWriteU8 (cmd val : UInt8) : Bytes × Nat → Except Fault (Bytes × Nat) := optWriteN cmd [val]

/-- The bytes of a 32-bit number, the highest first. -/
def beBytes (val : Nat) : Bytes :=
  [UInt8.ofNat (val >>> 24), UInt8.ofNat (val >>> 16), UInt8.ofNat (val >>> 8), UInt8.ofNat val]

def optWriteU32 (cmd : UInt8) (val : Nat) : Bytes × Nat → Except Fault (Bytes × Nat) := optWriteN cmd (beBytes val)

/-! ## Leases -/

/-- `DHCPS_MAX_IP`. -/
def maxIp : Nat := 8

/-- `DHCPS_BASE_IP`. -/
def baseIp : UInt8 := 16

/-- `DEFAULT_LEASE_TIME_S`. -/
def leaseTimeS : Nat := 24 * 60 * 60

structure Lease where
  mac : Bytes
  expiry : Nat
  deriving DecidableEq

def zeroMac : Bytes := List.replicate macLen 0

/-- `cyw43_hal_ticks_ms`, so many milliseconds after the start. -/
def ticks (t : Nat) : Nat := t % 2 ^ 32

/-- What REQUEST stores for the expiry. -/
def expiryAt (t : Nat) : Nat := ((ticks t + leaseTimeS * 1000) % 2 ^ 32) >>> 16

/-- `(int32_t)(expiry - cyw43_hal_ticks_ms()) < 0`. -/
def Lease.expired (l : Lease) (t : Nat) : Bool :=
  2 ^ 31 ≤ ((l.expiry <<< 16 ||| 0xffff) + (2 ^ 32 - ticks t)) % 2 ^ 32

def Lease.freed (l : Lease) : Lease := { l with mac := zeroMac }

/-- The loop of DISCOVER: the leases, and `yi`.  `clock i` is the time when the lease `i` is looked at. -/
def discover (mac : Bytes) (clock : Nat → Nat) : Nat → Nat → List Lease → List Lease × Nat
  | _, yi, [] => ([], yi)
  | i, yi, l :: ls =>
    if l.mac = mac then (l :: ls, i)
    else if yi = maxIp then
      let yi := if l.mac = zeroMac then i else yi
      if l.expired (clock i) then
        let r := discover mac clock (i + 1) i ls
        (l.freed :: r.1, r.2)
      else
        let r := discover mac clock (i + 1) yi ls
        (l :: r.1, r.2)
    else
      let r := discover mac clock (i + 1) yi ls
      (l :: r.1, r.2)

theorem length_discover (mac : Bytes) (clock : Nat → Nat) : ∀ (ls : List Lease) (i yi : Nat),
    (discover mac clock i yi ls).1.length = ls.length
  | [], _, _ => rfl
  | l :: ls, i, yi => by
    unfold discover
    split
    · rfl
    · split
      · dsimp only
        split
        · exact congrArg (· + 1) (length_discover mac clock ls _ _)
        · exact congrArg (· + 1) (length_discover mac clock ls _ _)
      · exact congrArg (· + 1) (length_discover mac clock ls _ _)

structure DhcpServer where
  ip : Ip4
  nm : Ip4
  lease : List Lease
  slots : lease.length = maxIp

/-- `dhcp_server_init`. -/
def init (ip nm : Ip4) : DhcpServer := ⟨ip, nm, List.replicate maxIp ⟨zeroMac, 0⟩, List.length_replicate⟩

/-- DISCOVER: the leases, and the one that is offered, or `maxIp`. -/
def DhcpServer.discover (d : DhcpServer) (mac : Bytes) (clock : Nat → Nat) : DhcpServer × Nat :=
  let r := Dhcp.discover mac clock 0 maxIp d.lease
  ({ d with lease := r.1, slots := (length_discover mac clock _ _ _).trans d.slots }, r.2)

/-- REQUEST, the lease that is asked for; `none` where the request is ignored. -/
def DhcpServer.requested (d : DhcpServer) (msg : Bytes) (opt : Nat) : Except Fault (Option Nat) := do
  match ← optFind msg opt optRequestedIp with
  | none => .ok none
  | some o =>
    let net ← readBlock msg (o + 2) 3
    if net ≠ d.ip.bytes.take 3 then .ok none
    else do
      let b ← readByte msg (o + 5)
      let yi := b - baseIp
      .ok (if yi.toNat ≥ maxIp then none else some yi.toNat)

/-- REQUEST, whether the lease may be used: it is the client's, or nobody's. -/
def Lease.admits (l : Lease) (mac : Bytes) : Bool := l.mac == mac || l.mac == zeroMac

/-- REQUEST, what is noted of a client that may use the lease. -/
def DhcpServer.grant (d : DhcpServer) (mac : Bytes) (yi t : Nat) : DhcpServer :=
  { d with lease := d.lease.set yi ⟨mac, expiryAt t⟩, slots := List.length_set.trans d.slots }

/-- The end of `dhcp_server_process`: the bytes given to `dhcp_socket_sendto`. -/
def DhcpServer.reply (d : DhcpServer) (msg : Bytes) (yi : Nat) (type : UInt8) : Except Fault Bytes := do
  let msg ← writeBlock msg (yiaddrAt + 3) [baseIp + UInt8.ofNat yi]
  let w ← optWriteU8 optMsgType type (msg, optionsAt + 4)
  let w ← optWriteN optServerId d.ip.bytes w
  let w ← optWriteN optSubnetMask d.nm.bytes w
  let w ← optWriteN optRouter d.ip.bytes w
  let w ← optWriteN optDns d.ip.bytes w
  let w ← optWriteU32 optIpLeaseTime leaseTimeS w
  let msg ← writeBlock w.1 w.2 [optEnd]
  .ok (msg.take (w.2 + 1))

/-- `pbuf_copy_partial` into the message. -/
def received (stack : Stack) (p : Bytes) : Bytes := p.take msgSize ++ stack.bytes.drop (p.take msgSize).length

def chaddr (msg : Bytes) : Bytes := (msg.drop chaddrAt).take macLen

/-- `dhcp_server_process`: the server, and what is handed to `dhcp_socket_sendto`, whose result is dropped.  The second
check of the length repeats the first. -/
def DhcpServer.process (d : DhcpServer) (clock : Nat → Nat) (stack : Stack) (p : Bytes) :
    Except Fault (DhcpServer × Option Bytes) := do
  if p.length < minSize then .ok (d, none)
  else
    let msg ← writeBlock (received stack p) opAt [offerMsg]
    let msg ← writeBlock msg yiaddrAt d.ip.bytes
    let opt := optionsAt + 4
    match ← optFind msg opt optMsgType with
    | none => .ok (d, none)
    | some msgtype =>
      let type ← readByte msg (msgtype + 2)
      if type = discoverMsg then
        let r := d.discover (chaddr msg) clock
        if r.2 = maxIp then .ok (r.1, none)
        else do
          let out ← r.1.reply msg r.2 offerMsg
          .ok (r.1, some out)
      else if type = requestMsg then do
        match ← d.requested msg opt with
        | none => .ok (d, none)
        | some yi =>
          if (d.lease.getD yi ⟨[], 0⟩).admits (chaddr msg) then do
            let d := d.grant (chaddr msg) yi (clock yi)
            let out ← d.reply msg yi ackMsg
            .ok (d, some out)
          else .ok (d, none)
      else .ok (d, none)

end Dhcp
end Pico
