import Picolibs.Registry
/-!
# Moves — everything the server does to its state, and the invariant of every run

`Move t` is one thing that the functions of `Serve` do to the server while the turn `t` lasts, an event of one
connection or a call by the program: each says what changes, what it requires, and what it writes into the trace.  Only
the client whose turn it is is changed otherwise than in its send queue.  Accepting, and the two events that take a
connection away whatever is queued for it, are not moves.

`Inv` says that the maps are one injective map and that the queue of every client is in step with the ledger of its
connection.  It is kept by every move (`Move.inv`), and under it every act that a move writes is sound (`Move.sound`).
-/
namespace Pico
namespace Web

open SendQueue
open Relation (ReflTransGen)

/-! ## The moves -/

/-- Acts that report what was made of a client's request string. -/
def tells (h : ClientHandle) : Act → Bool
  | .http k _ _ => k == h
  | .frame k _ _ => k == h
  | .message k _ => k == h
  | _ => false

/-- Two states of a client that differ at most in its request. -/
structure SameSending (c c' : Client) : Prop where
  sendbuf : c'.sendbuf = c.sendbuf
  pcb : c'.pcb = c.pcb
  closed : c'.closed = c.closed
  handle : c'.handle = c.handle

/-- Whose turn it is: the connection of an event, or nobody while the program calls.  A bare turn is one of the two
events that call a function on a queue directly, where a client may be closed that the callers never pass. -/
structure Turn where
  pcb : Option Pcb
  bare : Bool := false

def Turn.call : Turn := { pcb := none }

def Turn.on (p : Pcb) : Turn := { pcb := some p }

def Turn.alone (p : Pcb) : Turn := { pcb := some p, bare := true }

inductive Move (t : Turn) (w : Web) : Web → Prop where
  | tick (n : Nat) : Move t w { w with tick := n }
  | fault (f : Fault) : Move t w (w.throw f)
  | null (h : ClientHandle) : Move t w (w.record (.nullClient h))
  | activity {p : Pcb} {c : Client} (now : Int) : w.findClient p = some c →
      Move t w (w.put { c with lastActivity := now })
  | queue {p : Pcb} {c : Client} {data : Bytes} (a : Allocation) : w.findClient p = some c →
      (c.closed = true → t.bare = true) → data.length < 2 ^ 16 → Move t w (w.queueSend p c data a)
  | pop {p : Pcb} {c : Client} {sb : SendBuf} {rest : List SendBuf} : w.findClient p = some c →
      c.sendbuf = sb :: rest → sb.isAcknowledged = true →
      Move t w ((w.put { c with sendbuf := rest }).record (.release p sb.id sb.allocated .acknowledged))
  | wrote {p : Pcb} {c : Client} {sb : SendBuf} {rest : List SendBuf} (count : Nat) : w.findClient p = some c →
      c.sendbuf = sb :: rest →
      Move t w ((w.put { c with sendbuf := (sb.getNext count).2 :: rest }).record
        (.write p sb.id (sb.getNext count).1 errOk))
  | refused (p : Pcb) (id : Nat) (data : Bytes) {err : Int} : err ≠ errOk →
      Move t w (w.record (.write p id data err))
  | unknown {p : Pcb} (err : Int) : w.findClient p = none → Move t w (w.record (.close p .unknown err))
  | request {p : Pcb} {c c' : Client} : t.pcb = some p → w.findClient p = some c → SameSending c c' →
      Move t w (w.put c')
  | told {p : Pcb} {c : Client} {a : Act} : t.pcb = some p → w.findClient p = some c → tells c.handle a = true →
      Move t w (w.record a)
  | setClosed {p : Pcb} {c : Client} : t.pcb = some p → w.findClient p = some c → Move t w (w.put c.setClosed)
  | kept {p : Pcb} {c : Client} {err : Int} : t.pcb = some p → w.findClient p = some c → c.closed = true →
      c.sendbuf = [] → err ≠ errOk → Move t w (w.record (.close p .own err))
  | gone {p : Pcb} {c : Client} : t.pcb = some p → w.findClient p = some c → c.sendbuf = [] →
      Move t w ((w.record (.close p .own errOk)).deleteClient p)
  | acked {p : Pcb} {c : Client} {sb : SendBuf} {rest : List SendBuf} {len : Nat} : t.pcb = some p →
      w.findClient p = some c → c.sendbuf = sb :: rest → sb.ack + len ≤ sb.sent →
      Move t w ((w.put { c with sendbuf := (sb.acknowledge len).2 :: rest }).record (.sent p len))
  | ackedNone {p : Pcb} {len : Nat} : t.pcb = some p → (w.findClient p = none ∨ len = 0) →
      Move t w (w.record (.sent p len))

abbrev Moves (t : Turn) : Web → Web → Prop := ReflTransGen (Move t)

theorem Moves.refl (t : Turn) (w : Web) : Moves t w w := ReflTransGen.refl

theorem Moves.one {t : Turn} {w w' : Web} (m : Move t w w') : Moves t w w' := ReflTransGen.single m

theorem Moves.trans {t : Turn} {w w' w'' : Web} (h : Moves t w w') (h' : Moves t w' w'') : Moves t w w'' :=
  ReflTransGen.trans h h'

theorem Moves.tail {t : Turn} {w w' w'' : Web} (h : Moves t w w') (m : Move t w' w'') : Moves t w w'' :=
  ReflTransGen.tail h m

/-! ## The invariant -/

/-- A client's queue is what its connection has left of it. -/
structure InStep (k : Conn) (bufs : List SendBuf) (serial : Nat) : Prop where
  up : k.up = true
  untorn : k.torn = false
  holds : ∃ q, Represents bufs q ∧ q.Holds k.ledger
  nodup : (bufs.map SendBuf.id).Nodup
  ids : ∀ sb ∈ bufs, sb.id < serial

structure Inv (w : Web) : Prop where
  reg : w.Registered
  inStep : ∀ p c, w.findClient p = some c → InStep (conn p w.trace) c.sendbuf w.serial

namespace InStep

variable {k : Conn} {bufs : List SendBuf} {serial : Nat}

theorem queue (h : InStep k bufs serial) {data : Bytes} (hd : data.length < 2 ^ 16) (a : Allocation) :
    InStep { k with ledger := k.ledger.queue serial data } (bufs ++ [SendBuf.new serial data a]) (serial + 1) := by
  obtain ⟨q, hr, hq⟩ := h.holds
  refine ⟨h.up, h.untorn, ⟨_, hr.push serial hd a, hq.push serial data⟩, ?_, ?_⟩
  · rw [List.map_append, List.nodup_append]
    refine ⟨h.nodup, by simp, ?_⟩
    intro x hx y hy
    obtain ⟨sb, hsb, rfl⟩ := List.mem_map.1 hx
    have hlt := h.ids sb hsb
    simp only [List.map_cons, List.map_nil, List.mem_singleton] at hy
    rw [hy]
    exact Nat.ne_of_lt hlt
  · intro sb hsb
    rcases List.mem_append.1 hsb with hm | hm
    · exact Nat.lt_succ_of_lt (h.ids sb hm)
    · rw [List.mem_singleton.1 hm]
      exact Nat.lt_succ_self serial

/-- The front buffer is replaced by one of the same identity. -/
theorem setFront {k' : Conn} {sb sb' : SendBuf} {rest : List SendBuf} (h : InStep k (sb :: rest) serial)
    (hup : k'.up = true) (hun : k'.torn = false)
    (hq : ∃ q, Represents (sb' :: rest) q ∧ q.Holds k'.ledger) (hid : sb'.id = sb.id) :
    InStep k' (sb' :: rest) serial := by
  refine ⟨hup, hun, hq, ?_, ?_⟩
  · have := h.nodup
    rw [List.map_cons] at this ⊢
    rw [hid]
    exact this
  · intro x hx
    rcases List.mem_cons.1 hx with rfl | hx
    · rw [hid]
      exact h.ids sb List.mem_cons_self
    · exact h.ids x (List.mem_cons_of_mem _ hx)

theorem wrote {sb : SendBuf} {rest : List SendBuf} (h : InStep k (sb :: rest) serial) (count : Nat) :
    InStep { k with ledger := k.ledger.accept sb.id (sb.getNext count).1 } ((sb.getNext count).2 :: rest) serial := by
  obtain ⟨q, hr, hq⟩ := h.holds
  obtain ⟨w, ws, hl, hw, -⟩ := hr.cons
  obtain ⟨n, hn, sb', -, hget, his, -, -⟩ := hw.getNext count
  rw [hget]
  refine h.setFront h.up h.untorn ⟨_, hr.setFront his, ?_⟩ (his.id.trans hw.id.symm)
  rw [hw.id]
  exact hq.accept hl hn

theorem acked {sb : SendBuf} {rest : List SendBuf} (h : InStep k (sb :: rest) serial) {len : Nat}
    (hlen : sb.ack + len ≤ sb.sent) :
    InStep { k with ledger := k.ledger.ack len } ((sb.acknowledge len).2 :: rest) serial := by
  obtain ⟨q, hr, hq⟩ := h.holds
  obtain ⟨w, ws, hl, hw, -⟩ := hr.cons
  have hn : w.ack + len ≤ w.sent := by
    rw [hw.ack, hw.sent] at hlen
    omega
  have his := (hw.acknowledge hn).2
  exact h.setFront h.up h.untorn ⟨_, hr.setFront his, hq.ack hl hn⟩ (his.id.trans hw.id.symm)

theorem pop {sb : SendBuf} {rest : List SendBuf} (h : InStep k (sb :: rest) serial)
    (ha : sb.isAcknowledged = true) : InStep k rest serial := by
  obtain ⟨q, hr, hq⟩ := h.holds
  obtain ⟨w, ws, hl, hw, -⟩ := hr.cons
  refine ⟨h.up, h.untorn, ⟨_, hr.pop, hq.pop hl (hw.isAcknowledged.1 ha)⟩, ?_, ?_⟩
  · have := h.nodup
    rw [List.map_cons, List.nodup_cons] at this
    exact this.2
  · exact fun x hx => h.ids x (List.mem_cons_of_mem _ hx)

/-- A buffer that is acknowledged whole leaves nothing in flight. -/
theorem whole {sb : SendBuf} {rest : List SendBuf} (h : InStep k (sb :: rest) serial)
    (ha : sb.isAcknowledged = true) : k.ledger.unacked = [] ∧ k.ledger.Whole sb.id := by
  obtain ⟨q, hr, hq⟩ := h.holds
  obtain ⟨w, ws, hl, hw, -⟩ := hr.cons
  rw [hw.id]
  exact hq.whole hl (hw.isAcknowledged.1 ha)

theorem drained (h : InStep k [] serial) : k.ledger.Drained := by
  obtain ⟨q, hr, hq⟩ := h.holds
  exact hq.drained hr.nil

end InStep

namespace Inv

variable {w : Web}

/-- **A client is changed**, and the trace says so of its connection only. -/
theorem update (i : w.Inv) (c' : Client) (as : List Act) {p : Pcb} {c : Client} {s : Nat}
    (h : w.findClient p = some c) (hh : c'.handle = c.handle) (hpcb : c'.pcb = if c'.closed then 0 else p)
    (hs : w.serial ≤ s)
    (hother : ∀ q, q ≠ p → conn q (w.trace ++ as) = conn q w.trace)
    (hk : InStep (conn p (w.trace ++ as)) c'.sendbuf s) :
    Inv { w.put c' with trace := w.trace ++ as, serial := s } := by
  refine ⟨?_, ?_⟩
  · exact ⟨(i.reg.put h hh hpcb).leads, (i.reg.put h hh hpcb).one, (i.reg.put h hh hpcb).led⟩
  · intro q d hd
    have hd' : (w.put c').findClient q = some d := hd
    rw [i.reg.findClient_put h hh] at hd'
    by_cases hq : q = p
    · rw [if_pos hq] at hd'
      cases hd'
      rw [hq]
      exact hk
    · rw [if_neg hq] at hd'
      have := i.inStep q d hd'
      show InStep (conn q (w.trace ++ as)) d.sendbuf s
      rw [hother q hq]
      exact ⟨this.up, this.untorn, this.holds, this.nodup, fun sb hsb => Nat.lt_of_lt_of_le (this.ids sb hsb) hs⟩

/-- An act that says nothing of a registered connection. -/
theorem record (i : w.Inv) {a : Act}
    (h : ∀ p c, w.findClient p = some c → (conn p w.trace).after p a = conn p w.trace) : (w.record a).Inv := by
  refine ⟨⟨i.reg.leads, i.reg.one, i.reg.led⟩, ?_⟩
  intro p c hc
  show InStep (conn p (w.trace ++ [a])) c.sendbuf w.serial
  rw [conn_snoc, h p c hc]
  exact i.inStep p c hc

theorem pcb_eq (i : w.Inv) {p : Pcb} {c : Client} (h : w.findClient p = some c) :
    c.pcb = if c.closed then 0 else p := (i.reg.find h).2.2.2.2

/-- **A client goes**, after acts that say nothing of the others. -/
theorem delete (i : w.Inv) (as : List Act) {p : Pcb} {c : Client} (h : w.findClient p = some c)
    (hother : ∀ q, q ≠ p → conn q (w.trace ++ as) = conn q w.trace) :
    Inv (deleteClient { w with trace := w.trace ++ as } p) := by
  have hreg : Registered { w with trace := w.trace ++ as } := ⟨i.reg.leads, i.reg.one, i.reg.led⟩
  have h' : findClient { w with trace := w.trace ++ as } p = some c := h
  refine ⟨hreg.deleteClient h', ?_⟩
  intro q d hd
  rw [hreg.findClient_deleteClient h'] at hd
  by_cases hq : q = p
  · rw [if_pos hq] at hd
    cases hd
  · rw [if_neg hq] at hd
    rw [hreg.deleteClient_eq h']
    show InStep (conn q (w.trace ++ as ++ releases p .deleted c.sendbuf)) d.sendbuf w.serial
    rw [conn_releases, hother q hq]
    exact i.inStep q d hd

end Inv

/-! ## Every move keeps it -/

theorem conn_tells {h : ClientHandle} {a : Act} (ha : tells h a = true) (p : Pcb) (k : Conn) : k.after p a = k := by
  cases a <;> first | rfl | exact absurd ha Bool.false_ne_true

/-- **Every move keeps the invariant.** -/
theorem Move.inv {t : Turn} {w w' : Web} (m : Move t w w') (i : w.Inv) : w'.Inv := by
  cases m with
  | tick n => exact ⟨⟨i.reg.leads, i.reg.one, i.reg.led⟩, i.inStep⟩
  | fault f => exact ⟨⟨i.reg.leads, i.reg.one, i.reg.led⟩, i.inStep⟩
  | null h => exact i.record (fun p c _ => rfl)
  | @activity p c now h =>
    have := i.update { c with lastActivity := now } [] h rfl (i.pcb_eq h :) (Nat.le_refl _)
      (fun q _ => by rw [List.append_nil]) (by rw [List.append_nil]; exact i.inStep p c h)
    rw [List.append_nil] at this
    exact this
  | @queue p c data a h ho hd =>
    refine i.update { c with sendbuf := c.sendbuf ++ [SendBuf.new w.serial data a] } [.queue p w.serial data a] h rfl
      (i.pcb_eq h :) (Nat.le_succ _) ?_ ?_
    · intro q hq
      rw [conn_snoc, Conn.after, if_neg (Ne.symm hq)]
    · rw [conn_snoc, Conn.after, if_pos rfl]
      exact (i.inStep p c h).queue hd a
  | @pop p c sb rest h hb ha =>
    refine i.update { c with sendbuf := rest } [.release p sb.id sb.allocated .acknowledged] h rfl
      (i.pcb_eq h :) (Nat.le_refl _) ?_ ?_
    · intro q _
      rw [conn_snoc]
      rfl
    · rw [conn_snoc]
      have := i.inStep p c h
      rw [hb] at this
      exact this.pop ha
  | @wrote p c sb rest count h hb =>
    refine i.update { c with sendbuf := (sb.getNext count).2 :: rest }
      [.write p sb.id (sb.getNext count).1 errOk] h rfl (i.pcb_eq h :) (Nat.le_refl _) ?_ ?_
    · intro q hq
      rw [conn_snoc, Conn.after, if_neg (fun e => hq e.1.symm)]
    · rw [conn_snoc, Conn.after, if_pos ⟨rfl, rfl⟩]
      have := i.inStep p c h
      rw [hb] at this
      exact this.wrote count
  | refused p id data herr => exact i.record (fun q c _ => by rw [Conn.after, if_neg (fun e => herr e.2)])
  | @unknown p err h =>
    refine i.record (fun q c hc => ?_)
    rw [Conn.after, if_neg]
    rintro ⟨rfl, -⟩
    rw [h] at hc
    cases hc
  | @request p c c' _ h hs =>
    have hpcb : c'.pcb = if c'.closed then 0 else p := by rw [hs.pcb, hs.closed]; exact i.pcb_eq h
    have := i.update c' [] h hs.handle hpcb (Nat.le_refl _) (fun q _ => by rw [List.append_nil])
      (by rw [List.append_nil, hs.sendbuf]; exact i.inStep p c h)
    rw [List.append_nil] at this
    exact this
  | told _ _ ha => exact i.record (fun q c _ => conn_tells ha q _)
  | @setClosed p c _ h =>
    have := i.update c.setClosed [] h rfl rfl (Nat.le_refl _) (fun q _ => by rw [List.append_nil])
      (by rw [List.append_nil]; exact i.inStep p c h)
    rw [List.append_nil] at this
    exact this
  | kept _ _ _ _ herr => exact i.record (fun q c _ => by rw [Conn.after, if_neg (fun e => herr e.2)])
  | @gone p c _ h hb =>
    refine i.delete [.close p .own errOk] h ?_
    intro q hq
    rw [conn_snoc, Conn.after, if_neg (fun e => hq e.1.symm)]
  | @acked p c sb rest len _ h hb hlen =>
    refine i.update { c with sendbuf := (sb.acknowledge len).2 :: rest } [.sent p len] h rfl
      (i.pcb_eq h :) (Nat.le_refl _) ?_ ?_
    · intro q hq
      rw [conn_snoc, Conn.after, if_neg (Ne.symm hq)]
    · rw [conn_snoc, Conn.after, if_pos rfl]
      have := i.inStep p c h
      rw [hb] at this
      exact this.acked hlen
  | @ackedNone p len _ h =>
    refine i.record (fun q c hc => ?_)
    rw [Conn.after]
    rcases h with hnone | hzero
    · rw [if_neg]
      rintro rfl
      rw [hnone] at hc
      cases hc
    · rw [hzero]
      split <;> rfl

theorem Moves.inv {t : Turn} {w w' : Web} (m : Moves t w w') (i : w.Inv) : w'.Inv := by
  induction m with
  | refl => exact i
  | tail _ m ih => exact m.inv ih

/-! ## What moves write -/

/-- What a move requires of the acts before the one it writes. -/
def Sound (pre : List Act) : Act → Prop
  | .close p .own _ => (conn p pre).ledger.Drained
  | .release p id _ .acknowledged => (conn p pre).ledger.unacked = [] ∧ (conn p pre).ledger.Whole id
  | .write p id data err =>
    err = errOk → ((conn p pre).ledger.accept id data).accepted <+: (conn p pre).ledger.stream
  | .release _ _ _ .deleted => False
  | .close _ .peer _ => False
  | .accept _ _ => False
  | .err _ => False
  | _ => True

/-- **A move writes at most one act, and a sound one**: the server's own close finds its connection drained,
`acknowledge` drops a buffer that is acknowledged whole, and `altcp_write` is given the bytes that come next. -/
theorem Move.sound {t : Turn} {w w' : Web} (m : Move t w w') (i : w.Inv) :
    w'.trace = w.trace ∨ ∃ a, w'.trace = w.trace ++ [a] ∧ Sound w.trace a := by
  cases m with
  | tick n => exact Or.inl rfl
  | fault f => exact Or.inl rfl
  | null h => exact Or.inr ⟨_, rfl, trivial⟩
  | activity now h => exact Or.inl rfl
  | queue a h ho hd => exact Or.inr ⟨_, rfl, trivial⟩
  | @pop p c sb rest h hb ha =>
    refine Or.inr ⟨_, rfl, ?_⟩
    have := i.inStep p c h
    rw [hb] at this
    exact this.whole ha
  | @wrote p c sb rest count h hb =>
    refine Or.inr ⟨_, rfl, fun _ => ?_⟩
    have := i.inStep p c h
    rw [hb] at this
    obtain ⟨q, -, hq⟩ := (this.wrote count).holds
    exact hq.accepted_prefix
  | refused p id data herr => exact Or.inr ⟨_, rfl, fun e => absurd e herr⟩
  | unknown err h => exact Or.inr ⟨_, rfl, trivial⟩
  | request _ h hs => exact Or.inl rfl
  | @told p c a _ h ha =>
    refine Or.inr ⟨_, rfl, ?_⟩
    cases a <;> trivial
  | setClosed _ h => exact Or.inl rfl
  | @kept p c err _ h _ hb herr =>
    refine Or.inr ⟨_, rfl, ?_⟩
    have := i.inStep p c h
    rw [hb] at this
    exact this.drained
  | @gone p c _ h hb =>
    have hreg : (w.record (.close p .own errOk)).Registered := ⟨i.reg.leads, i.reg.one, i.reg.led⟩
    have h' : (w.record (.close p .own errOk)).findClient p = some c := h
    have hin := i.inStep p c h
    rw [hb] at hin
    refine Or.inr ⟨.close p .own errOk, ?_, hin.drained⟩
    rw [hreg.deleteClient_eq h', hb]
    exact List.append_nil _
  | acked _ h hb hlen => exact Or.inr ⟨_, rfl, trivial⟩
  | ackedNone _ h => exact Or.inr ⟨_, rfl, trivial⟩

/-- Whatever soundness gives for an act holds of every act of a sequence of moves. -/
theorem Moves.justified {P : List Act → Act → Prop} (hP : ∀ pre a, Sound pre a → P pre a) {t : Turn}
    {w w' : Web} (m : Moves t w w') (i : w.Inv) (h : History.Justified P w.trace) :
    History.Justified P w'.trace := by
  induction m with
  | refl => exact h
  | tail ms m ih =>
    rcases m.sound (Moves.inv ms i) with he | ⟨a, he, ha⟩
    · rw [he]; exact ih
    · rw [he]; exact History.justified_snoc ih (hP _ _ ha)

/-! ## What moves leave alone -/

/-- Two states of a client that differ at most in its send queue. -/
structure SameRequest (c c' : Client) : Prop where
  rqst : c'.rqst = c.rqst
  pcb : c'.pcb = c.pcb
  closed : c'.closed = c.closed
  websocket : c'.websocket = c.websocket
  wsCloseSent : c'.wsCloseSent = c.wsCloseSent
  http : c'.http = c.http
  wshdr : c'.wshdr = c.wshdr
  handle : c'.handle = c.handle

theorem SameRequest.rfl' (c : Client) : SameRequest c c := ⟨rfl, rfl, rfl, rfl, rfl, rfl, rfl, rfl⟩

theorem SameRequest.trans {a b c : Client} (h : SameRequest a b) (h' : SameRequest b c) : SameRequest a c :=
  ⟨h'.rqst.trans h.rqst, h'.pcb.trans h.pcb, h'.closed.trans h.closed, h'.websocket.trans h.websocket,
    h'.wsCloseSent.trans h.wsCloseSent, h'.http.trans h.http, h'.wshdr.trans h.wshdr, h'.handle.trans h.handle⟩

/-- What a move does to the map of clients: one client is changed, or the client of `t` goes, or nothing happens. -/
theorem Move.find {t : Turn} {w w' : Web} (m : Move t w w') (i : w.Inv) :
    (∀ q, w'.findClient q = w.findClient q) ∨
    (∃ p c c', w.findClient p = some c ∧ c'.handle = c.handle ∧ (SameRequest c c' ∨ t.pcb = some p) ∧
      ∀ q, w'.findClient q = if q = p then some c' else w.findClient q) ∨
    (∃ p, t.pcb = some p ∧ ∀ q, w'.findClient q = if q = p then none else w.findClient q) := by
  -- a client written back with the same request
  have sends {w' : Web} {p : Pcb} {c : Client} (c' : Client) (h : w.findClient p = some c) (hs : SameRequest c c')
      (hw : ∀ q, w'.findClient q = (w.put c').findClient q) :
      ∃ p c c', w.findClient p = some c ∧ c'.handle = c.handle ∧ (SameRequest c c' ∨ t.pcb = some p) ∧
        ∀ q, w'.findClient q = if q = p then some c' else w.findClient q :=
    ⟨p, c, c', h, hs.handle, Or.inl hs, fun q => (hw q).trans (i.reg.findClient_put h hs.handle q)⟩
  cases m with
  | tick n => exact Or.inl fun _ => rfl
  | fault f => exact Or.inl fun _ => rfl
  | null h => exact Or.inl fun _ => rfl
  | @activity p c now h =>
    exact Or.inr (Or.inl (sends { c with lastActivity := now } h ⟨rfl, rfl, rfl, rfl, rfl, rfl, rfl, rfl⟩ fun _ => rfl))
  | @queue p c data a h ho hd =>
    exact Or.inr (Or.inl (sends { c with sendbuf := c.sendbuf ++ [SendBuf.new w.serial data a] } h
      ⟨rfl, rfl, rfl, rfl, rfl, rfl, rfl, rfl⟩ fun _ => rfl))
  | @pop p c sb rest h hb ha =>
    exact Or.inr (Or.inl (sends { c with sendbuf := rest } h ⟨rfl, rfl, rfl, rfl, rfl, rfl, rfl, rfl⟩
      fun _ => rfl))
  | @wrote p c sb rest count h hb =>
    exact Or.inr (Or.inl (sends { c with sendbuf := (sb.getNext count).2 :: rest } h
      ⟨rfl, rfl, rfl, rfl, rfl, rfl, rfl, rfl⟩ fun _ => rfl))
  | refused p id data herr => exact Or.inl fun _ => rfl
  | unknown err h => exact Or.inl fun _ => rfl
  | @request p c c' ht h hs =>
    exact Or.inr (Or.inl ⟨p, c, c', h, hs.handle, Or.inr ht, i.reg.findClient_put h hs.handle⟩)
  | told _ h ha => exact Or.inl fun _ => rfl
  | @setClosed p c ht h =>
    exact Or.inr (Or.inl ⟨p, c, c.setClosed, h, rfl, Or.inr ht, i.reg.findClient_put h rfl⟩)
  | kept _ h _ hb herr => exact Or.inl fun _ => rfl
  | @gone p c ht h hb =>
    have hreg : (w.record (.close p .own errOk)).Registered := ⟨i.reg.leads, i.reg.one, i.reg.led⟩
    have h' : (w.record (.close p .own errOk)).findClient p = some c := h
    exact Or.inr (Or.inr ⟨p, ht, hreg.findClient_deleteClient h'⟩)
  | @acked p c sb rest len _ h hb hlen =>
    exact Or.inr (Or.inl (sends { c with sendbuf := (sb.acknowledge len).2 :: rest } h
      ⟨rfl, rfl, rfl, rfl, rfl, rfl, rfl, rfl⟩ fun _ => rfl))
  | ackedNone _ h => exact Or.inl fun _ => rfl

/-- **A client of another connection stays**, and but for its send queue it stays as it was. -/
theorem Moves.keeps {t : Turn} {w w' : Web} (m : Moves t w w') (i : w.Inv) {p : Pcb} {c : Client}
    (ht : t.pcb ≠ some p) (h : w.findClient p = some c) : ∃ c', w'.findClient p = some c' ∧ SameRequest c c' := by
  induction m with
  | refl => exact ⟨c, h, SameRequest.rfl' c⟩
  | tail ms m ih =>
    obtain ⟨d, hd, hcd⟩ := ih
    rcases m.find (Moves.inv ms i) with hall | ⟨q, e, e', he, -, hs, hall⟩ | ⟨q, hq, hall⟩
    · exact ⟨d, by rw [hall, hd], hcd⟩
    · by_cases hp : p = q
      · subst hp
        rw [hd] at he
        cases he
        rcases hs with hs | hs
        · exact ⟨e', by rw [hall, if_pos rfl], hcd.trans hs⟩
        · exact absurd hs ht
      · exact ⟨d, by rw [hall, if_neg hp, hd], hcd⟩
    · have hp : p ≠ q := fun e => ht (e ▸ hq)
      exact ⟨d, by rw [hall, if_neg hp, hd], hcd⟩

/-- Moves register nobody. -/
theorem Moves.back {t : Turn} {w w' : Web} (m : Moves t w w') (i : w.Inv) {p : Pcb} {c' : Client}
    (h : w'.findClient p = some c') : ∃ c, w.findClient p = some c ∧ c.handle = c'.handle := by
  induction m generalizing c' with
  | refl => exact ⟨c', h, rfl⟩
  | tail ms m ih =>
    rcases m.find (Moves.inv ms i) with hall | ⟨q, e, e', he, hh, -, hall⟩ | ⟨q, -, hall⟩
    · rw [hall] at h
      exact ih h
    · rw [hall] at h
      by_cases hp : p = q
      · subst hp
        rw [if_pos rfl] at h
        cases h
        obtain ⟨c, hc, hce⟩ := ih he
        exact ⟨c, hc, hce.trans hh.symm⟩
      · rw [if_neg hp] at h
        exact ih h
    · rw [hall] at h
      split at h
      · cases h
      · exact ih h

/-- Moves for another connection tell nothing of this client. -/
theorem Moves.quiet {t : Turn} {w w' : Web} (m : Moves t w w') (i : w.Inv) {p : Pcb} {c : Client}
    (ht : t.pcb ≠ some p) (h : w.findClient p = some c) :
    w'.trace.filter (tells c.handle) = w.trace.filter (tells c.handle) := by
  induction m with
  | refl => rfl
  | @tail w1 w2 ms m ih =>
    have i1 := Moves.inv ms i
    obtain ⟨d, hd, hcd⟩ := Moves.keeps ms i ht h
    rw [← ih]
    have one (a : Act) (ha : tells c.handle a = false) :
        (w1.trace ++ [a]).filter (tells c.handle) = w1.trace.filter (tells c.handle) := by
      rw [List.filter_append, List.filter_cons, if_neg (by rw [ha]; exact Bool.false_ne_true), List.filter_nil,
        List.append_nil]
    cases m with
    | @told q e a hq he ha =>
      refine one a ?_
      have hne : c.handle ≠ e.handle := by
        intro heq
        apply ht
        rw [i1.reg.find_inj hd he (hcd.handle.trans heq)]
        exact hq
      cases a <;> first | rfl | skip
      all_goals
        simp only [tells, beq_iff_eq, beq_eq_false_iff_ne] at ha ⊢
        rw [ha]
        exact Ne.symm hne
    | @gone q e hq he hb =>
      have hreg : (w1.record (.close q .own errOk)).Registered := ⟨i1.reg.leads, i1.reg.one, i1.reg.led⟩
      have he' : (w1.record (.close q .own errOk)).findClient q = some e := he
      rw [hreg.deleteClient_eq he', hb]
      show (w1.trace ++ [_] ++ []).filter _ = _
      rw [List.append_nil]
      exact one _ rfl
    | tick n => rfl
    | fault f => rfl
    | activity now he => rfl
    | request _ he hs => rfl
    | setClosed _ he => rfl
    | null k => exact one _ rfl
    | queue a he ho hd => exact one _ rfl
    | pop he hb ha => exact one _ rfl
    | wrote count he hb => exact one _ rfl
    | refused q id data herr => exact one _ rfl
    | unknown err he => exact one _ rfl
    | kept _ he _ hb herr => exact one _ rfl
    | acked _ he hb hlen => exact one _ rfl
    | ackedNone _ he => exact one _ rfl

end Web
end Pico
