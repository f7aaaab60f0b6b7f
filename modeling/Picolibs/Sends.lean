import Picolibs.Delivery
import Picolibs.Passes
/-!
# Sends — what a call of the program puts into the queues

`Queues data w w'` says that between two states each client got the buffer that `data` has for its handle, at the back
of its queue, or nothing, and that no client came or went.  Sending to an open client is that (`sendBuffer_queues`), for
the one client; the lemmas on `sendTo` say what the lookup by handle and pcb makes of a handle that is open, closed or
unknown.
-/
namespace Pico

open SendQueue

/-- What stays the same of a buffer while it waits: its address, its bytes and how they are stored. -/
def SendBuf.label (sb : SendBuf) : Nat × Bytes × Allocation := (sb.id, sb.buffer, sb.allocated)

/-- The second queue is the first but for its counters, without acknowledged buffers at the front. -/
def Settled (before after : List SendBuf) : Prop :=
  ∃ k, (∀ sb ∈ before.take k, sb.isAcknowledged = true) ∧
    after.map SendBuf.label = (before.drop k).map SendBuf.label

theorem Settled.same {before after : List SendBuf} (h : after.map SendBuf.label = before.map SendBuf.label) :
    Settled before after :=
  ⟨0, by simp, by rw [List.drop_zero, h]⟩

theorem label_requeue (chunk : Bytes) (bufs : List SendBuf) :
    (requeue chunk bufs).map SendBuf.label = bufs.map SendBuf.label := by
  cases bufs with
  | nil => rfl
  | cons sb rest =>
    have : (sb.requeue chunk).label = sb.label := by
      unfold SendBuf.requeue
      simp only
      split <;> rfl
    rw [requeue, List.map_cons, List.map_cons, this]

theorem acknowledge_settled {bufs : List SendBuf} {q : Queue Nat UInt8} (hr : Represents bufs q) :
    Settled bufs (acknowledge 0 bufs).1 := by
  cases bufs with
  | nil => exact Settled.same rfl
  | cons sb rest =>
    obtain ⟨v, vs, hl, hv, -⟩ := hr.cons
    rw [Represents.acknowledge_zero hv]
    split
    · next ha =>
      refine ⟨1, ?_, rfl⟩
      intro x hx
      rw [List.take_succ_cons, List.take_zero, List.mem_singleton] at hx
      rw [hx, ha]
    · exact Settled.same rfl

/-- A chunk is taken from the front, where `acknowledge(0)` dropped what was acknowledged. -/
theorem getNext_settled {bufs : List SendBuf} {q : Queue Nat UInt8} (hr : Represents bufs q) (count : Nat) :
    Settled bufs (getNext count bufs).2.1 := by
  obtain ⟨k, hk, hset⟩ := acknowledge_settled hr
  unfold getNext
  split
  · cases hq : acknowledge 0 bufs with
    | mk bufs' gone =>
      rw [hq] at hset
      cases bufs' with
      | nil => exact ⟨k, hk, hset⟩
      | cons sb rest =>
        simp only
        split
        · exact ⟨k, hk, hset⟩
        · exact ⟨k, hk, hset⟩
  · exact Settled.same rfl

theorem Settled.requeue {bufs bufs' : List SendBuf} (h : Settled bufs bufs') (chunk : Bytes) :
    Settled bufs (Pico.requeue chunk bufs') := by
  obtain ⟨k, hk, hset⟩ := h
  exact ⟨k, hk, by rw [label_requeue, hset]⟩

namespace Web

variable {W : World} {w w' w'' : Web} {p : Pcb} {c : Client}

/-! ## What was queued -/

/-- The acts of a sending that queues nothing more. -/
def writing : Act → Bool
  | .write _ _ _ _ => true
  | .release _ _ _ .acknowledged => true
  | _ => false

def sending : Act → Bool
  | .queue _ _ _ _ => true
  | a => writing a

def derefsNull : Act → Bool
  | .nullClient _ => true
  | _ => false

/-- The bytes queued for a connection, buffer by buffer. -/
def queuedOn (p : Pcb) (w : Web) : List Bytes := (conn p w.trace).ledger.queued.map Prod.snd

/-- The act changes what is queued on `p`. -/
def gives (p : Pcb) : Act → Bool
  | .queue q _ _ _ => q == p
  | .accept q _ => q == p
  | _ => false

theorem queued_acts (p : Pcb) : ∀ (as l : List Act), (∀ a ∈ as, gives p a = false) →
    (conn p (l ++ as)).ledger.queued = (conn p l).ledger.queued
  | [], l, _ => by rw [List.append_nil]
  | a :: as, l, h => by
    have ha := h a List.mem_cons_self
    rw [← List.singleton_append, ← List.append_assoc,
      queued_acts p as (l ++ [a]) fun b hb => h b (List.mem_cons_of_mem a hb), conn_snoc]
    cases a <;> simp only [gives, beq_eq_false_iff_ne, ne_eq] at ha <;> simp only [Conn.after] <;>
      first | rfl | (split <;> first | rfl | exact absurd ‹_› ha)

theorem gives_writing (p : Pcb) {a : Act} (h : writing a = true) : gives p a = false := by
  cases a <;> first | rfl | cases h

/-- What a client's queue becomes when a buffer with the data is queued for it, or none. -/
def Queued : Option Bytes → Client → Client → Prop
  | none, c, c' => c' = c
  | some data, c, c' => SameRequest c c' ∧ ∃ id a, Settled (c.sendbuf ++ [SendBuf.new id data a]) c'.sendbuf

structure Queues (data : ClientHandle → Option Bytes) (w w' : Web) : Prop where
  fault : w'.fault = w.fault
  pcbs : w'.clientPCB = w.clientPCB
  handles : ∀ h, h ∈ w'.clientHndl ↔ h ∈ w.clientHndl
  clients : ∀ p c, w.findClient p = some c → ∃ c', w'.findClient p = some c' ∧ Queued (data c.handle) c c'
  queued : ∀ p, queuedOn p w' = queuedOn p w ++ ((w.findClient p).bind fun c => data c.handle).toList
  acts : ∃ as, w'.trace = w.trace ++ as ∧ ∀ a ∈ as, sending a = true

def nothing : ClientHandle → Option Bytes := fun _ => none

def only (h : ClientHandle) (data : Bytes) : ClientHandle → Option Bytes := fun k => if k = h then some data else none

theorem Queued.sameRequest {data : Option Bytes} {c c' : Client} (h : Queued data c c') : SameRequest c c' := by
  cases data with
  | none => rw [show c' = c from h]; exact SameRequest.rfl' c
  | some d => exact h.1

namespace Queues

variable {data data' : ClientHandle → Option Bytes}

theorem rfl' (w : Web) : Queues nothing w w :=
  ⟨rfl, rfl, fun _ => Iff.rfl, fun _ c h => ⟨c, h, rfl⟩,
    fun p => by cases w.findClient p <;> exact (List.append_nil _).symm, [], (List.append_nil _).symm, nofun⟩

/-- Who is led to nobody stays so. -/
theorem find_none (q : Queues data w w') (r : w.Registered) (r' : w'.Registered) (h : w.findClient p = none) :
    w'.findClient p = none := by
  rw [r'.find_none, q.pcbs]
  exact r.find_none.1 h

/-- **One call after another**, no client getting from both. -/
theorem trans (q : Queues data w w') (q' : Queues data' w' w'') (r : w.Registered) (r' : w'.Registered)
    (hone : ∀ h, data h = none ∨ data' h = none) : Queues (fun h => (data h).or (data' h)) w w'' := by
  refine ⟨q'.fault.trans q.fault, q'.pcbs.trans q.pcbs, fun h => (q'.handles h).trans (q.handles h), ?_, ?_, ?_⟩
  · intro p c hc
    obtain ⟨c1, h1, hq1⟩ := q.clients p c hc
    obtain ⟨c2, h2, hq2⟩ := q'.clients p c1 h1
    have hs := hq1.sameRequest
    refine ⟨c2, h2, ?_⟩
    rw [hs.handle] at hq2
    rcases hone c.handle with hn | hn
    · rw [hn] at hq1
      simp only [hn, Option.none_or]
      rwa [show c1 = c from hq1] at hq2
    · rw [hn] at hq2
      simp only [hn, Option.or_none]
      rwa [show c2 = c1 from hq2]
  · intro p
    rw [q'.queued, q.queued, List.append_assoc]
    congr 1
    cases hc : w.findClient p with
    | none => rw [q.find_none r r' hc]; rfl
    | some c =>
      obtain ⟨c1, h1, hq1⟩ := q.clients p c hc
      rw [h1, Option.bind_some, Option.bind_some, Option.bind_some, hq1.sameRequest.handle]
      rcases hone c.handle with hn | hn
      · simp only [hn, Option.none_or]
        rfl
      · simp only [hn, Option.or_none]
        rw [Option.toList_none, List.append_nil]
  · obtain ⟨as, ht, has⟩ := q.acts
    obtain ⟨bs, ht', hbs⟩ := q'.acts
    refine ⟨as ++ bs, by rw [ht', ht, List.append_assoc], ?_⟩
    intro a ha
    exact (List.mem_append.1 ha).elim (has a) (hbs a)

theorem congr (q : Queues data w w') (h : ∀ k, k ∈ w.clientHndl → data' k = data k) (r : w.Registered) :
    Queues data' w w' := by
  have hc {p : Pcb} {c : Client} (hc : w.findClient p = some c) : data' c.handle = data c.handle := by
    refine h c.handle ?_
    rw [Std.ExtTreeMap.mem_iff_isSome_getElem?]
    have := (r.find hc).2.1
    rw [findHandle] at this
    rw [this]
    rfl
  refine ⟨q.fault, q.pcbs, q.handles, ?_, ?_, q.acts⟩
  · intro p c hp
    rw [hc hp]
    exact q.clients p c hp
  · intro p
    rw [q.queued]
    cases hp : w.findClient p with
    | none => rfl
    | some c => rw [Option.bind_some, Option.bind_some, hc hp]

/-- Nobody is dereferenced who is not there. -/
theorem nulls (q : Queues data w w') : w'.trace.filter derefsNull = w.trace.filter derefsNull := by
  obtain ⟨as, ht, has⟩ := q.acts
  have hnil : as.filter derefsNull = [] := by
    refine List.filter_eq_nil_iff.2 fun a ha hn => ?_
    have := has a ha
    cases a <;> first | exact absurd hn Bool.false_ne_true | exact absurd this Bool.false_ne_true
  rw [ht, List.filter_append, hnil, List.append_nil]

end Queues

/-! ## Sending to an open client -/

theorem writing_releases (p : Pcb) (bufs : List SendBuf) :
    ∀ a ∈ releases p .acknowledged bufs, writing a = true := by
  intro a ha
  obtain ⟨sb, -, rfl⟩ := List.mem_map.1 ha
  rfl

/-- What a call of `altcp_write` leaves: the client with its queue settled, the boundary's acts, and one question
asked. -/
theorem writeChunk_eq {q : Queue Nat UInt8} (hr : Represents c.sendbuf q) :
    ∃ c' as, (w.writeChunk W p c).1 = ((w.put c').recordAll as).tock ∧ SameRequest c c' ∧
      Settled c.sendbuf c'.sendbuf ∧ ∀ a ∈ as, writing a = true := by
  have hreq := sameRequest_activity (W := W) (c := c) w.tick
  have hbufs : (c.activity W w.tick).sendbuf = c.sendbuf := by
    unfold Client.activity
    split <;> rfl
  have hset := getNext_settled hr
    (if tcpMss < (W.altcpSndbuf w.tick).toNat then tcpMss else (W.altcpSndbuf w.tick).toNat)
  have hsame (bufs : List SendBuf) : SameRequest c { c.activity W w.tick with sendbuf := bufs } :=
    hreq.trans ⟨rfl, rfl, rfl, rfl, rfl, rfl, rfl, rfl⟩
  unfold writeChunk
  simp only [hbufs]
  generalize getNext (if tcpMss < (W.altcpSndbuf w.tick).toNat then tcpMss else (W.altcpSndbuf w.tick).toNat)
    c.sendbuf = next at hset ⊢
  obtain ⟨chunk, bufs, gone⟩ := next
  cases chunk with
  | some chunk =>
    refine ⟨_, releases p .acknowledged gone ++ [.write p ((bufs.head?.map SendBuf.id).getD 0) chunk
      (W.altcpWrite w.tick)], ?_, hsame (if W.altcpWrite w.tick = errOk then bufs else requeue chunk bufs), ?_, ?_⟩
    · simp only [recordAll, record, tock, put, List.append_assoc]
    · simp only
      split
      · exact hset
      · exact hset.requeue chunk
    · intro a ha
      rcases List.mem_append.1 ha with h | h
      · exact writing_releases p gone a h
      · rw [List.mem_singleton.1 h]
        rfl
  | none => exact ⟨_, releases p .acknowledged gone, rfl, hsame bufs, hset, writing_releases p gone⟩

/-- What sending to an open client leaves: the client with the buffer at the back of its queue, the acts of it, and one
question asked. -/
theorem sendBuffer_eq (i : w.Inv) (h : w.findClient p = some c) (ho : c.closed = false) (buffer : Bytes) (n : Nat)
    (a : Allocation) :
    ∃ c' as, w.sendBuffer W p buffer n a =
        { (w.put c') with
          trace := w.trace ++ .queue p w.serial (buffer.take (n % 2 ^ 16)) a :: as
          serial := w.serial + 1
          tick := w.tick + 1 } ∧
      SameRequest c c' ∧ Settled (c.sendbuf ++ [SendBuf.new w.serial (buffer.take (n % 2 ^ 16)) a]) c'.sendbuf ∧
      ∀ x ∈ as, writing x = true := by
  have hlen : (buffer.take (n % 2 ^ 16)).length < 2 ^ 16 := by
    have := Nat.mod_lt n (by decide : 0 < 2 ^ 16)
    have := List.length_take_le (n % 2 ^ 16) buffer
    omega
  unfold sendBuffer
  rw [h]
  generalize buffer.take (n % 2 ^ 16) = data at hlen ⊢
  generalize hc1 : ({ c with sendbuf := c.sendbuf ++ [SendBuf.new w.serial data a] } : Client) = c1
  have hs1 : SameRequest c c1 := by rw [← hc1]; exact ⟨rfl, rfl, rfl, rfl, rfl, rfl, rfl, rfl⟩
  have hq : (w.queueSend p c data a).Inv := (Move.queue (t := .call) a h (by rw [ho]; nofun) hlen).inv i
  have hf : (w.queueSend p c data a).findClient p = some c1 := by rw [← hc1]; exact i.find_put h _ rfl
  obtain ⟨q, hr, -⟩ := (hq.inStep p _ hf).holds
  obtain ⟨c', as, he, hs, hset, has⟩ := writeChunk_eq (W := W) (w := w.queueSend p c data a) (p := p) hr
  have hopen : ((w.queueSend p c data a).writeChunk W p c1).2.closed = false := by
    rw [(writeChunk_moves (W := W) (t := .call) hq hf).2.2.closed, hs1.closed, ho]
  refine ⟨c', as, ?_, hs1.trans hs, by rw [← hc1] at hset; exact hset, has⟩
  simp only [writeNext, hf, hopen, Bool.false_and, Bool.false_eq_true, if_false, he]
  have hput : (w.put c1).put c' = w.put c' := put_put w c1 c' hs.handle.symm
  simp only [tock, recordAll, queueSend, record, hc1, put, List.append_assoc, List.singleton_append]
  have hmap := congrArg Web.clientHndl hput
  simp only [put] at hmap
  rw [show c.handle = c1.handle from hs1.handle.symm, hmap]

theorem mem_clientHndl_put (i : w.Inv) (h : w.findClient p = some c) {c' : Client} (hh : c'.handle = c.handle)
    (k : ClientHandle) : k ∈ (w.put c').clientHndl ↔ k ∈ w.clientHndl := by
  rw [put, Std.ExtTreeMap.mem_insert, Std.LawfulEqCmp.compare_eq_iff_eq]
  refine ⟨?_, Or.inr⟩
  rintro (hk | hk)
  · have hc := (i.reg.find h).2.1
    rw [findHandle] at hc
    rw [← hk, hh, Std.ExtTreeMap.mem_iff_isSome_getElem?, hc]
    rfl
  · exact hk

/-- **A buffer sent to an open client is queued for it**, as much of it as a 16-bit length describes, and nothing else
happens to anybody. -/
theorem sendBuffer_queues (i : w.Inv) (h : w.findClient p = some c) (ho : c.closed = false) (buffer : Bytes) (n : Nat)
    (a : Allocation) :
    Queues (only c.handle (buffer.take (n % 2 ^ 16))) w (w.sendBuffer W p buffer n a) := by
  obtain ⟨c', as, he, hs, hset, has⟩ := sendBuffer_eq (W := W) i h ho buffer n a
  rw [he]
  have honly {r : Pcb} {d : Client} (hr : w.findClient r = some d) :
      only c.handle (buffer.take (n % 2 ^ 16)) d.handle = if r = p then some (buffer.take (n % 2 ^ 16)) else none := by
    unfold only
    by_cases hrp : r = p
    · rw [hrp, h] at hr
      cases hr
      rw [if_pos rfl, if_pos hrp]
    · rw [if_neg hrp, if_neg fun e => hrp (i.reg.find_inj hr h e)]
  refine ⟨rfl, rfl, mem_clientHndl_put i h hs.handle, ?_, ?_, ?_⟩
  · intro r d hr
    show ∃ d', (w.put c').findClient r = some d' ∧ _
    rw [i.reg.findClient_put h hs.handle, honly hr]
    by_cases hrp : r = p
    · rw [if_pos hrp, if_pos hrp]
      rw [hrp, h] at hr
      cases hr
      exact ⟨c', rfl, hs, _, _, hset⟩
    · rw [if_neg hrp, if_neg hrp]
      exact ⟨d, hr, rfl⟩
  · intro r
    unfold queuedOn
    rw [← List.singleton_append, ← List.append_assoc, queued_acts r as _ fun a ha => gives_writing r (has a ha),
      conn_snoc, Conn.after]
    by_cases hrp : r = p
    · rw [hrp, if_pos rfl, h, Option.bind_some, honly h, if_pos rfl]
      exact List.map_append
    · rw [if_neg (Ne.symm hrp)]
      cases hr : w.findClient r with
      | none => exact (List.append_nil _).symm
      | some d =>
        rw [Option.bind_some, honly hr, if_neg hrp]
        exact (List.append_nil _).symm
  · refine ⟨_, rfl, ?_⟩
    intro x hx
    rcases List.mem_cons.1 hx with rfl | hx
    · rfl
    · have := has x hx
      cases x <;> first | rfl | exact this

/-! ## The lookup of the three senders -/

/-- The handle names a client that is not closed. -/
def isOpen (w : Web) (h : ClientHandle) : Bool := (w.findHandle h).any fun c => !c.closed

theorem sendTo_unknown {h : ClientHandle} (hc : w.findHandle h = none) (send : Pcb → Web) :
    w.sendTo h send = (false, w.record (.nullClient h)) := by
  unfold sendTo
  rw [hc]

/-- The pcb of a closed client is null and leads nowhere. -/
theorem sendTo_closed (i : w.Inv) {h : ClientHandle} (hc : w.findHandle h = some c) (hcl : c.closed = true)
    (send : Pcb → Web) : w.sendTo h send = (true, w) := by
  obtain ⟨-, p, hp⟩ := i.reg.find_handle hc
  have hpcb : c.pcb = 0 := by
    rcases i.reg.find_pcb hp with ⟨-, h0⟩ | ⟨hopen, -⟩
    · exact h0
    · rw [hcl] at hopen
      cases hopen
  unfold sendTo
  rw [hc]
  simp only [hpcb, i.reg.find_none.1 i.reg.find_zero, reduceCtorEq, if_false]

theorem find_of_open (i : w.Inv) {h : ClientHandle} (hc : w.findHandle h = some c) (ho : c.closed = false) :
    w.findClient c.pcb = some c ∧ c.handle = h := by
  obtain ⟨hh, p, hp⟩ := i.reg.find_handle hc
  rcases i.reg.find_pcb hp with ⟨hcl, -⟩ | ⟨-, hpcb⟩
  · rw [ho] at hcl
    cases hcl
  · rw [hpcb]
    exact ⟨hp, hh⟩

theorem sendTo_open (i : w.Inv) {h : ClientHandle} (hc : w.findHandle h = some c) (ho : c.closed = false)
    (send : Pcb → Web) : w.sendTo h send = (true, send c.pcb) := by
  obtain ⟨hp, hh⟩ := find_of_open i hc ho
  unfold sendTo
  rw [hc]
  simp only [(i.reg.find hp).1, hh, if_true]

/-! ## The frames -/

/-- As much of the data as a 16-bit length describes. -/
def cut (data : Bytes) : Bytes := data.take (data.length % 2 ^ 16)

theorem cut_eq_iff (data : Bytes) : cut data = data ↔ data.length < 2 ^ 16 := by
  unfold cut
  constructor
  · intro h
    have hl := congrArg List.length h
    rw [List.length_take] at hl
    have := Nat.mod_lt data.length (by decide : 0 < 2 ^ 16)
    omega
  · intro h
    rw [Nat.mod_eq_of_lt h, List.take_length]

theorem length_textFrame_lt (message : Bytes) :
    (Ws.plainFrame .text message).length < 2 ^ 16 ↔ message.length < 65532 := by
  rw [Ws.length_plainFrame, Ws.length_plainHead]
  split
  · omega
  · split <;> omega

theorem sendWebsocket_eq (w : Web) (p : Pcb) (opc : Ws.OpCode) (payload : Bytes) :
    w.sendWebsocket W p opc payload =
      w.sendBuffer W p (Ws.plainFrame opc payload) (Ws.plainFrame opc payload).length .alloc := by
  unfold sendWebsocket
  rw [Ws.buildPacket_plain]

theorem sendWebsocket_queues (i : w.Inv) (h : w.findClient p = some c) (ho : c.closed = false) (opc : Ws.OpCode)
    (payload : Bytes) :
    Queues (only c.handle (cut (Ws.plainFrame opc payload))) w (w.sendWebsocket W p opc payload) := by
  rw [sendWebsocket_eq]
  exact sendBuffer_queues i h ho _ _ _

theorem sendMessage_queues (i : w.Inv) {h : ClientHandle} (hc : w.findHandle h = some c) (ho : c.closed = false)
    (message : Bytes) : (w.sendMessage W h message).1 = true ∧
      Queues (only h (cut (Ws.plainFrame .text message))) w (w.sendMessage W h message).2 := by
  obtain ⟨hp, hh⟩ := find_of_open i hc ho
  have hq := sendWebsocket_queues (W := W) i hp ho .text message
  rw [hh] at hq
  unfold sendMessage
  rw [sendTo_open i hc ho]
  exact ⟨rfl, hq⟩

theorem sendData_queues (i : w.Inv) {h : ClientHandle} (hc : w.findHandle h = some c) (ho : c.closed = false)
    (data : Block) (a : Allocation) :
    (w.sendData W h data a).1 = true ∧ Queues (only h data.val) w (w.sendData W h data a).2 := by
  obtain ⟨hp, hh⟩ := find_of_open i hc ho
  have hq := sendBuffer_queues (W := W) i hp ho data.val data.val.length a
  rw [hh, Nat.mod_eq_of_lt data.property, List.take_length] at hq
  unfold sendData
  rw [sendTo_open i hc ho]
  exact ⟨rfl, hq⟩

/-- A text's packet and its string's are one. -/
theorem sendMessageTxt_queues (i : w.Inv) {h : ClientHandle} (hc : w.findHandle h = some c) (ho : c.closed = false)
    {t : Txt} (ht : t.Owned) : (w.sendMessageTxt W h t).1 = true ∧
      Queues (only h (cut (Ws.plainFrame .text t.text))) w (w.sendMessageTxt W h t).2 := by
  obtain ⟨hp, hh⟩ := find_of_open i hc ho
  obtain ⟨r, hr, htext, hsize⟩ := Txt.buildPacket_text ht .text (W.rand w.tick)
  have hdata : r.2.data.take (r.2.datasize % 2 ^ 16) = cut (Ws.plainFrame .text t.text) := by
    have hmin : min (r.2.datasize % 2 ^ 16) r.2.datasize = r.2.datasize % 2 ^ 16 := Nat.min_eq_left (Nat.mod_le _ _)
    rw [cut, ← hsize, ← htext, Txt.text, List.take_take]
    show r.2.buffer.take _ = r.2.buffer.take (min (r.2.datasize % 2 ^ 16) r.2.datasize)
    rw [hmin]
  have hq := sendBuffer_queues (W := W) i hp ho r.2.data r.2.datasize .preall
  rw [hdata, hh] at hq
  unfold sendMessageTxt
  rw [sendTo_open i hc ho]
  simp only [hr, true_and]
  exact hq

/-! ## What the senders promise -/

/-- The call returns without a client that is not there; it returns true and queues the data for the handle's client
where that is open, and returns false and queues nothing everywhere else. -/
def Honest (h : ClientHandle) (data : Bytes) (w : Web) (r : Bool × Web) : Prop :=
  r.2.fault = none ∧ r.2.trace.filter derefsNull = w.trace.filter derefsNull ∧ r.1 = w.isOpen h ∧
    Queues (if w.isOpen h then only h data else nothing) w r.2

theorem queued_only {h : ClientHandle} {data : Bytes} (i : w.Inv) (hc : w.findHandle h = some c) (ho : c.closed = false)
    (q : Queues (only h data) w w') : queuedOn c.pcb w' = queuedOn c.pcb w ++ [data] := by
  obtain ⟨hp, hh⟩ := find_of_open i hc ho
  rw [q.queued, hp, Option.bind_some, only, if_pos hh]
  rfl

/-- **A sender keeps its promise** exactly where the handle's client is open and the length is not cut. -/
theorem honest_sendTo (i : w.Inv) (hf : w.fault = none) {h : ClientHandle} {data data' : Bytes} {send : Pcb → Web}
    (hsend : ∀ c, w.findHandle h = some c → c.closed = false →
      (w.sendTo h send).1 = true ∧ Queues (only h data') w (w.sendTo h send).2) :
    Honest h data w (w.sendTo h send) ↔ w.isOpen h = true ∧ data' = data := by
  unfold Honest isOpen
  cases hc : w.findHandle h with
  | none =>
    rw [sendTo_unknown hc]
    simp only [Option.any_none, Bool.false_eq_true, if_false, false_and, iff_false]
    rintro ⟨-, hn, -⟩
    have := congrArg List.length hn
    simp only [record, List.filter_append, List.length_append] at this
    simp [derefsNull] at this
  | some c =>
    cases hcl : c.closed with
    | true =>
      rw [sendTo_closed i hc hcl]
      simp [hcl]
    | false =>
      obtain ⟨hret, q⟩ := hsend c hc hcl
      simp only [Option.any_some, hcl, Bool.not_false, if_true, true_and]
      constructor
      · rintro ⟨-, -, -, q'⟩
        have h1 := queued_only i hc hcl q
        rw [queued_only i hc hcl q'] at h1
        exact (List.singleton_inj.1 (List.append_cancel_left h1)).symm
      · rintro rfl
        exact ⟨q.fault.trans hf, q.nulls, hret, q⟩

/-- **A handle that names no open client is not sent to safely**: the senders read through a null pointer where it
names nobody, and report success where its client is closed.  For an open client they queue the data, or the frame
where its length fits 16 bits. -/
theorem honest_iff (r : Reachable W Allowed w) (hf : w.fault = none) (h : ClientHandle) :
    (∀ (data : Block) (a : Allocation), Honest h data.val w (w.sendData W h data a) ↔ w.isOpen h = true) ∧
    (∀ message : Bytes, Honest h (Ws.plainFrame .text message) w (w.sendMessage W h message) ↔
      w.isOpen h = true ∧ message.length < 65532) ∧
    (∀ message : { t : Txt // t.Owned },
      Honest h (Ws.plainFrame .text message.val.text) w (w.sendMessageTxt W h message.val) ↔
        w.isOpen h = true ∧ message.val.text.length < 65532) := by
  have i := inv_reachable (fun _ _ => id) r
  refine ⟨fun data a => ?_, fun message => ?_, fun message => ?_⟩
  · have hsend : Honest h data.val w (w.sendData W h data a) ↔ w.isOpen h = true ∧ data.val = data.val :=
      honest_sendTo i hf fun c hc ho => sendData_queues (W := W) i hc ho data a
    exact hsend.trans (and_iff_left rfl)
  · rw [← length_textFrame_lt, ← cut_eq_iff]
    exact honest_sendTo i hf fun c hc ho => sendMessage_queues (W := W) i hc ho message
  · rw [← length_textFrame_lt, ← cut_eq_iff]
    exact honest_sendTo i hf fun c hc ho => sendMessageTxt_queues (W := W) i hc ho message.property

def accepted : Web := runOf {} [.accept 1 0]

theorem accepted_reachable : Reachable {} Allowed accepted := runOf_reachable (by decide)

theorem honest_iff_accepted : accepted.fault = none ∧
    (∀ (data : Block) (a : Allocation),
      Honest 1000 data.val accepted (accepted.sendData {} 1000 data a) ↔ accepted.isOpen 1000 = true) ∧
    (∀ message : Bytes, Honest 1000 (Ws.plainFrame .text message) accepted (accepted.sendMessage {} 1000 message) ↔
      accepted.isOpen 1000 = true ∧ message.length < 65532) ∧
    (∀ message : { t : Txt // t.Owned },
      Honest 1000 (Ws.plainFrame .text message.val.text) accepted (accepted.sendMessageTxt {} 1000 message.val) ↔
        accepted.isOpen 1000 = true ∧ message.val.text.length < 65532) :=
  ⟨by decide, honest_iff accepted_reachable (by decide) 1000⟩

/-- A handle that was never issued. -/
theorem unknown_handle : ¬ ∀ (W : World) (w : Web), Reachable W Allowed w → w.fault = none →
    ∀ (h : ClientHandle) (data : Block) (a : Allocation), Honest h data.val w (w.sendData W h data a) := by
  intro hall
  have h := hall {} {} .init rfl 1000 ⟨ascii "hi", by decide⟩ .alloc
  have hopen := ((honest_sendTo inv_init rfl fun c hc ho => sendData_queues inv_init hc ho _ _).1 h).1
  exact absurd hopen (by decide)

end Web
end Pico
