import Mathlib.Data.List.Forall2
import Picolibs.Text
import Picolibs.SendQueue
/-!
# SendBuf — the send queue of a client (`WEB::SENDBUF`, and `queue_send` to `acknowledge` of `WEB::CLIENT`)

A `SendBuf` has the source's counters, signed 32-bit; `id` is the address of the object, and a chunk stands for the
pointer and length that `get_next` gives out.  The client's list of them is a `SendQueue.Queue` (`Represents`), and the
operations on the list are the queue's: `queueSend` pushes, `getNext` accepts from the front window, `requeue` undoes
that, and `acknowledge`, which carries a count over buffers, never has to.
-/
namespace Pico

open SendQueue

inductive Allocation where
  | alloc
  | stat
  | preall
  deriving DecidableEq, Repr

structure SendBuf where
  id : Nat
  buffer : Bytes
  size : Int
  sent : Int
  ack : Int
  allocated : Allocation
  deriving DecidableEq, Repr

namespace SendBuf

/-- `SENDBUF(buf, size, alloc)`. -/
def new (id : Nat) (buffer : Bytes) (allocated : Allocation) : SendBuf :=
  { id := id, buffer := buffer, size := buffer.length, sent := 0, ack := 0, allocated := allocated }

def toSend (sb : SendBuf) : Nat := ((sb.size - sb.sent) % 2 ^ 32).toNat

def isAcknowledged (sb : SendBuf) : Bool := sb.ack == sb.size

/-- `get_next`: the chunk, and the buffer with it counted as sent. -/
def getNext (sb : SendBuf) (count : Nat) : Bytes × SendBuf :=
  let nn := if count < sb.toSend then count else sb.toSend
  ((sb.buffer.drop sb.sent.toNat).take nn, { sb with sent := sb.sent + nn })

def requeue (sb : SendBuf) (chunk : Bytes) : SendBuf :=
  let nn := sb.sent - chunk.length
  if 0 ≤ nn ∧ (sb.buffer.drop nn.toNat).take chunk.length = chunk then { sb with sent := nn } else sb

/-- `acknowledge`: what is left of the count, and the buffer. -/
def acknowledge (sb : SendBuf) (count : Int) : Int × SendBuf :=
  let na := sb.ack + count
  if sb.size < na then (na - sb.size, { sb with ack := sb.size }) else (0, { sb with ack := na })

end SendBuf

/-! ## The queue of a client -/

/-- `CLIENT::acknowledge`: what stays queued, and what was deleted.  A count that is not zero is left over only by a
buffer that is acknowledged whole, so the loop always goes on with the next. -/
def acknowledge : Int → List SendBuf → List SendBuf × List SendBuf
  | _, [] => ([], [])
  | count, sb :: rest =>
    let r := sb.acknowledge count
    if r.2.isAcknowledged then
      if r.1 = 0 then (rest, [r.2])
      else
        let q := acknowledge r.1 rest
        (q.1, r.2 :: q.2)
    else (r.2 :: rest, [])

/-- `CLIENT::get_next`: the chunk, what stays queued, and what was deleted. -/
def getNext (count : Nat) (bufs : List SendBuf) : Option Bytes × List SendBuf × List SendBuf :=
  if 0 < count then
    match acknowledge 0 bufs with
    | (sb :: rest, gone) =>
      if 0 < sb.toSend then
        let r := sb.getNext count
        (some r.1, r.2 :: rest, gone)
      else (none, sb :: rest, gone)
    | ([], gone) => (none, [], gone)
  else (none, bufs, [])

/-- `CLIENT::requeue`. -/
def requeue (chunk : Bytes) : List SendBuf → List SendBuf
  | [] => []
  | sb :: rest => sb.requeue chunk :: rest

/-! ## The windows it stands for -/

structure SendBuf.Is (sb : SendBuf) (w : Window Nat UInt8) : Prop where
  id : sb.id = w.key
  buffer : sb.buffer = w.data
  size : sb.size = w.data.length
  sent : sb.sent = w.sent
  ack : sb.ack = w.ack
  fits : w.data.length < 2 ^ 16

def Represents (bufs : List SendBuf) (q : Queue Nat UInt8) : Prop := List.Forall₂ SendBuf.Is bufs q.live

namespace SendBuf.Is

variable {sb : SendBuf} {w : Window Nat UInt8}

theorem bounds (h : sb.Is w) : 0 ≤ sb.ack ∧ sb.ack ≤ sb.sent ∧ sb.sent ≤ sb.size := by
  have h1 := w.ack_le
  have h2 := w.sent_le
  rw [h.ack, h.sent, h.size]
  omega

theorem toSend (h : sb.Is w) : sb.toSend = w.data.length - w.sent := by
  have := w.sent_le
  have := h.fits
  rw [SendBuf.toSend, h.size, h.sent]
  omega

theorem isAcknowledged (h : sb.Is w) : sb.isAcknowledged = true ↔ w.ack = w.data.length := by
  rw [SendBuf.isAcknowledged, beq_iff_eq, h.ack, h.size]
  omega

theorem acknowledge (h : sb.Is w) {n : Nat} (hn : w.ack + n ≤ w.sent) :
    sb.acknowledge n = (0, { sb with ack := sb.ack + n }) ∧ (sb.acknowledge n).2.Is (w.acknowledge n hn) := by
  have := w.sent_le
  have hle : ¬ sb.size < sb.ack + n := by rw [h.size, h.ack]; omega
  have he : sb.acknowledge n = (0, { sb with ack := sb.ack + n }) := by
    rw [SendBuf.acknowledge]
    simp only [hle, if_false]
  refine ⟨he, ?_⟩
  rw [he]
  refine ⟨h.id, h.buffer, h.size, h.sent, ?_, h.fits⟩
  show sb.ack + n = ((w.ack + n : Nat) : Int)
  rw [h.ack]
  omega

theorem getNext (h : sb.Is w) (count : Nat) :
    ∃ n, ∃ hn : w.sent + n ≤ w.data.length, ∃ sb',
      n = min count (w.data.length - w.sent) ∧ sb.getNext count = ((w.data.drop w.sent).take n, sb') ∧
      sb'.Is (w.accept n hn) ∧ sb'.requeue ((w.data.drop w.sent).take n) = sb ∧ sb'.allocated = sb.allocated := by
  have hs := w.sent_le
  have hnn : (if count < sb.toSend then count else sb.toSend) = min count (w.data.length - w.sent) := by
    rw [h.toSend]
    split <;> omega
  refine ⟨min count (w.data.length - w.sent), by omega,
    { sb with sent := sb.sent + (min count (w.data.length - w.sent) : Nat) }, rfl, ?_, ?_, ?_, rfl⟩
  · rw [SendBuf.getNext, hnn, h.buffer, h.sent, Int.toNat_natCast]
  · refine ⟨h.id, h.buffer, h.size, ?_, h.ack, h.fits⟩
    show sb.sent + _ = ((w.sent + min count (w.data.length - w.sent) : Nat) : Int)
    rw [h.sent]
    omega
  · have hlen : ((w.data.drop w.sent).take (min count (w.data.length - w.sent))).length =
        min count (w.data.length - w.sent) := by
      rw [List.length_take, List.length_drop]
      omega
    have hback : sb.sent + (min count (w.data.length - w.sent) : Nat) -
        ((w.data.drop w.sent).take (min count (w.data.length - w.sent))).length = sb.sent := by
      rw [hlen]
      omega
    rw [SendBuf.requeue]
    simp only [hback]
    rw [if_pos]
    refine ⟨by rw [h.sent]; omega, ?_⟩
    rw [hlen, h.buffer, h.sent, Int.toNat_natCast]

/-- Every buffer of a list has its window. -/
theorem window {bufs : List SendBuf} {ws : List (Window Nat UInt8)} (h : List.Forall₂ SendBuf.Is bufs ws)
    (hsb : sb ∈ bufs) : ∃ v ∈ ws, sb.Is v := by
  induction h with
  | nil => cases hsb
  | @cons b v bs vs hb _ ih =>
    rcases List.mem_cons.1 hsb with rfl | hin
    · exact ⟨v, List.mem_cons_self, hb⟩
    · obtain ⟨v', hv', his⟩ := ih hin
      exact ⟨v', List.mem_cons_of_mem v hv', his⟩

end SendBuf.Is

theorem new_is (id : Nat) {buffer : Bytes} (h : buffer.length < 2 ^ 16) (allocated : Allocation) :
    (SendBuf.new id buffer allocated).Is (Window.fresh id buffer) :=
  ⟨rfl, rfl, rfl, rfl, rfl, h⟩

/-! ## The operations on the list -/

namespace Represents

variable {bufs : List SendBuf} {q : Queue Nat UInt8}

theorem nil (h : Represents [] q) : q.live = [] := List.forall₂_nil_left_iff.1 h

theorem cons {sb : SendBuf} {rest : List SendBuf} (h : Represents (sb :: rest) q) :
    ∃ w ws, q.live = w :: ws ∧ sb.Is w ∧ List.Forall₂ SendBuf.Is rest ws := by
  obtain ⟨w, ws, hw, hws, hl⟩ := List.forall₂_cons_left_iff.1 h
  exact ⟨w, ws, hl, hw, hws⟩

theorem push (h : Represents bufs q) (id : Nat) {data : Bytes} (hd : data.length < 2 ^ 16)
    (allocated : Allocation) : Represents (bufs ++ [SendBuf.new id data allocated]) (q.push id data) :=
  List.rel_append h (List.Forall₂.cons (new_is id hd allocated) List.Forall₂.nil)

theorem setFront {sb sb' : SendBuf} {rest : List SendBuf} {w' : Window Nat UInt8} (h : Represents (sb :: rest) q)
    (hw : sb'.Is w') : Represents (sb' :: rest) (q.setFront w') := by
  obtain ⟨w, ws, hl, -, hrest⟩ := h.cons
  rw [Represents, Queue.live_setFront hl]
  exact List.Forall₂.cons hw hrest

theorem pop {sb : SendBuf} {rest : List SendBuf} (h : Represents (sb :: rest) q) : Represents rest q.pop := by
  obtain ⟨w, ws, hl, -, hrest⟩ := h.cons
  rw [Represents, Queue.live_pop hl]
  exact hrest

/-- **A count that TCP may acknowledge stays in the front buffer**, which leaves when that was all of it. -/
theorem acknowledge {sb : SendBuf} {w : Window Nat UInt8} (hw : sb.Is w) {n : Nat} (hn : w.ack + n ≤ w.sent)
    (rest : List SendBuf) :
    Pico.acknowledge n (sb :: rest) = if (sb.acknowledge n).2.isAcknowledged then (rest, [(sb.acknowledge n).2])
      else ((sb.acknowledge n).2 :: rest, []) := by
  rw [Pico.acknowledge, (hw.acknowledge hn).1]
  simp only [if_true]

/-- `acknowledge(0)` drops a front buffer that is acknowledged whole, and nothing else. -/
theorem acknowledge_zero {sb : SendBuf} {rest : List SendBuf} {w : Window Nat UInt8} (hw : sb.Is w) :
    Pico.acknowledge 0 (sb :: rest) = if sb.isAcknowledged then (rest, [sb]) else (sb :: rest, []) := by
  have hsame : sb.acknowledge 0 = (0, sb) := by
    have := (hw.acknowledge (n := 0) w.ack_le).1
    rw [Int.natCast_zero, Int.add_zero] at this
    exact this
  have hack := acknowledge hw (n := 0) w.ack_le rest
  rw [Int.natCast_zero, hsame] at hack
  exact hack

theorem bounds (h : Represents bufs q) : ∀ sb ∈ bufs, 0 ≤ sb.ack ∧ sb.ack ≤ sb.sent ∧ sb.sent ≤ sb.size := by
  intro sb hsb
  obtain ⟨w, -, hw⟩ := SendBuf.Is.window h hsb
  exact hw.bounds

end Represents

end Pico
