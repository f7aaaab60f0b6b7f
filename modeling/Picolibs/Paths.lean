import Picolibs.Moves
/-!
# Paths — every function of the server is a sequence of moves

One lemma for each function of `Serve`: what it does is moves, for the connection of the event or, where it only sends,
for none.  A function that sends through `write_next` may close its client, but only one that is closed already; that
is the hypothesis `Sending` of the lemmas on sending, which an open client and a pcb without a client satisfy.
-/
namespace Pico
namespace Web

open SendQueue
open Relation (ReflTransGen)

variable {W : World} {w : Web} {t : Turn} {p : Pcb} {c : Client}

theorem andThen_moves {w' : Web} {next : Web → Web} (h : Moves t w w') (hn : Moves t w' (next w')) :
    Moves t w (w'.andThen next) := by
  unfold andThen
  split
  · exact h
  · exact h.trans hn

theorem deref_moves {h : ClientHandle} {use : Client → Web} (hu : ∀ c, w.findHandle h = some c → Moves t w (use c)) :
    Moves t w (w.deref h use) := by
  unfold deref
  split
  · next c hc => exact hu c hc
  · exact Moves.one (.fault _)

theorem Inv.find_put (i : w.Inv) (h : w.findClient p = some c) (c' : Client) (hh : c'.handle = c.handle) :
    (w.put c').findClient p = some c' := by
  rw [i.reg.findClient_put h hh, if_pos rfl]

theorem Inv.put_self (i : w.Inv) (h : w.findClient p = some c) : w.put c = w := Web.put_self (i.reg.find h).2.1

/-! ## Writing -/

/-- `acknowledge(0)` on a client is at most one buffer dropped. -/
theorem settle_moves (i : (w.put c).Inv) (h : (w.put c).findClient p = some c) :
    Moves t (w.put c) ((w.put { c with sendbuf := (acknowledge 0 c.sendbuf).1 }).recordAll
      (releases p .acknowledged (acknowledge 0 c.sendbuf).2)) := by
  have hself (bufs : List SendBuf) (hb : c.sendbuf = bufs) :
      (w.put { c with sendbuf := bufs }).recordAll [] = w.put c := by
    subst hb
    show { w.put c with trace := w.trace ++ [] } = w.put c
    rw [List.append_nil]
    rfl
  cases hb : c.sendbuf with
  | nil => rw [acknowledge, releases, List.map_nil, hself [] hb]
  | cons sb rest =>
    obtain ⟨q, hr, hq⟩ := (i.inStep p c h).holds
    rw [hb] at hr
    obtain ⟨v, vs, hl, hv, -⟩ := hr.cons
    rw [Represents.acknowledge_zero hv]
    split
    · next hw =>
      have hm := Move.pop (t := t) h hb hw
      rw [put_put w c { c with sendbuf := rest } rfl] at hm
      exact Moves.one hm
    · rw [releases, List.map_nil, hself _ hb]

theorem settle_represents (i : w.Inv) (h : w.findClient p = some c) (sb : SendBuf) (rest : List SendBuf)
    (hb : (acknowledge 0 c.sendbuf).1 = sb :: rest) :
    ∃ q, Represents (sb :: rest) q := by
  obtain ⟨q, hr, hq⟩ := (i.inStep p c h).holds
  cases hc : c.sendbuf with
  | nil => rw [hc, acknowledge] at hb; cases hb
  | cons sb' rest' =>
    rw [hc] at hr hb
    obtain ⟨v, vs, hl, hv, -⟩ := hr.cons
    rw [Represents.acknowledge_zero hv] at hb
    split at hb
    · cases hb
      exact ⟨_, hr.pop⟩
    · cases hb
      exact ⟨_, hr⟩

theorem activity_moves (i : w.Inv) (h : w.findClient p = some c) : Moves t w (w.put (c.activity W w.tick)) := by
  unfold Client.activity
  split
  · rw [i.put_self h]
  · exact Moves.one (.activity _ h)

theorem sameRequest_activity (n : Nat) : SameRequest c (c.activity W n) := by
  unfold Client.activity
  split
  · exact SameRequest.rfl' c
  · exact ⟨rfl, rfl, rfl, rfl, rfl, rfl, rfl, rfl⟩

/-- What `getNext` does to a client's queue, as a call of `altcp_write` follows it. -/
theorem chunk_moves (i : (w.put c).Inv) (h : (w.put c).findClient p = some c) (nn : Nat) (err : Int) :
    Moves t (w.put c)
      (match getNext nn c.sendbuf with
        | (some chunk, bufs, gone) =>
          ((w.put { c with sendbuf := if err = errOk then bufs else requeue chunk bufs }).recordAll
            (releases p .acknowledged gone)).record (.write p ((bufs.head?.map SendBuf.id).getD 0) chunk err)
        | (none, bufs, gone) => (w.put { c with sendbuf := bufs }).recordAll (releases p .acknowledged gone)) := by
  have hset := settle_moves (t := t) i h
  unfold getNext
  by_cases hn : 0 < nn
  · rw [if_pos hn]
    cases hq : acknowledge 0 c.sendbuf with
    | mk bufs gone =>
      rw [hq] at hset
      cases bufs with
      | nil => exact hset
      | cons sb rest =>
        obtain ⟨q, hr⟩ := settle_represents i h sb rest (by rw [hq])
        obtain ⟨v, vs, hl, hv, -⟩ := hr.cons
        obtain ⟨n, hle, sb', -, hget, his, hback, -⟩ := hv.getNext nn
        by_cases hto : 0 < sb.toSend
        · simp only [if_pos hto]
          by_cases herr : err = errOk
          · have hfind : ((w.put { c with sendbuf := sb :: rest }).recordAll (releases p .acknowledged gone)).findClient
                p = some { c with sendbuf := sb :: rest } := by
              have := i.find_put h { c with sendbuf := sb :: rest } rfl
              rw [put_put w c { c with sendbuf := sb :: rest } rfl] at this
              exact this
            have hm := Move.wrote (t := t) nn hfind rfl
            have hid : (sb.getNext nn).2.id = sb.id := by
              rw [hget]
              exact his.id.trans hv.id.symm
            have hcomm : ((w.put { c with sendbuf := sb :: rest }).recordAll (releases p .acknowledged gone)).put
                { c with sendbuf := (sb.getNext nn).2 :: rest } =
                (w.put { c with sendbuf := (sb.getNext nn).2 :: rest }).recordAll (releases p .acknowledged gone) := by
              rw [← put_put w { c with sendbuf := sb :: rest } { c with sendbuf := (sb.getNext nn).2 :: rest } rfl]
              rfl
            rw [hcomm] at hm
            simp only [if_pos herr, List.head?_cons, Option.map_some, Option.getD_some, hid]
            rw [herr]
            exact hset.tail hm
          · simp only [if_neg herr, requeue, hget, hback]
            exact hset.tail (.refused _ _ _ herr)
        · simp only [if_neg hto]
          exact hset
  · rw [if_neg hn]
    show Moves t (w.put c) { w.put c with trace := w.trace ++ [] }
    rw [List.append_nil]
    exact Moves.refl _ _

/-- **A call of `altcp_write` is a sequence of moves**: what it refuses is put back as it was. -/
theorem writeChunk_moves (i : w.Inv) (h : w.findClient p = some c) :
    Moves t w (w.writeChunk W p c).1 ∧ (w.writeChunk W p c).1.findClient p = some (w.writeChunk W p c).2 ∧
      SameRequest c (w.writeChunk W p c).2 := by
  have hreq := sameRequest_activity (W := W) (c := c) w.tick
  have hact : Moves t w (w.put (c.activity W w.tick)) := activity_moves i h
  have h1 := i.find_put h (c.activity W w.tick) hreq.handle
  have hmoves := hact.trans (chunk_moves (hact.inv i) h1
    (if tcpMss < (W.altcpSndbuf w.tick).toNat then tcpMss else (W.altcpSndbuf w.tick).toNat) (W.altcpWrite w.tick))
  have hfind (bufs : List SendBuf) : (w.put { c.activity W w.tick with sendbuf := bufs }).findClient p =
      some { c.activity W w.tick with sendbuf := bufs } := i.find_put h _ hreq.handle
  have hsame (bufs : List SendBuf) : SameRequest c { c.activity W w.tick with sendbuf := bufs } :=
    hreq.trans ⟨rfl, rfl, rfl, rfl, rfl, rfl, rfl, rfl⟩
  unfold writeChunk
  simp only
  generalize getNext (if tcpMss < (W.altcpSndbuf w.tick).toNat then tcpMss else (W.altcpSndbuf w.tick).toNat)
    (c.activity W w.tick).sendbuf = next at hmoves ⊢
  obtain ⟨chunk, bufs, gone⟩ := next
  cases chunk with
  | some chunk => exact ⟨hmoves.tail (.tick _), hfind _, hsame _⟩
  | none => exact ⟨hmoves.tail (.tick _), hfind _, hsame _⟩

/-! ## Closing -/

/-- `altcp_close` on a client with nothing queued: it goes, or it is kept. -/
theorem finish_moves (ht : t.pcb = some p) (h : w.findClient p = some c) (hc : c.closed = true) (hb : c.sendbuf = [])
    (err : Int) :
    Moves t w (if err = errOk then (w.record (.close p .own err)).tock.deleteClient p
      else (w.record (.close p .own err)).tock) := by
  have htick : Moves t w w.tock := Moves.one (.tick _)
  split
  · next herr =>
    rw [herr]
    exact htick.tail (.gone ht h hb)
  · next herr => exact htick.tail (.kept ht h hc hb herr)

/-- The server's own close, for the connection of the event or for a pcb without a client. -/
theorem closeClient_moves (i : w.Inv) (ht : ∀ c, w.findClient p = some c → t.pcb = some p) :
    Moves t w (w.closeClient W p false) := by
  unfold closeClient
  cases h : w.findClient p with
  | none => exact (Moves.one (.unknown _ h)).tail (.tick _)
  | some c =>
    have hset : Moves t w (w.put c.setClosed) := Moves.one (.setClosed (ht c h) h)
    have h1 := i.find_put h c.setClosed rfl
    have hmoves := hset.trans (settle_moves (hset.inv i) h1)
    simp only [Bool.not_false, if_true]
    split
    · next hb =>
      refine hmoves.trans (finish_moves (c := { c.setClosed with sendbuf := (acknowledge 0 c.setClosed.sendbuf).1 })
        (ht c h) ?_ rfl (List.isEmpty_iff.1 hb) _)
      exact i.find_put h { c.setClosed with sendbuf := (acknowledge 0 c.setClosed.sendbuf).1 } rfl
    · exact hmoves

/-! ## Sending -/

/-- A client under the pcb that is closed already is the client whose turn it is. -/
def Sending (t : Turn) (w : Web) (p : Pcb) : Prop := ∀ c, w.findClient p = some c → c.closed = true → t.pcb = some p

/-- And for queueing the turn must be bare. -/
def Queueing (t : Turn) (w : Web) (p : Pcb) : Prop := Sending t w p ∧ ∀ c, w.findClient p = some c → c.closed = true →
  t.bare = true

theorem sending_on (w : Web) (p : Pcb) : Sending (.on p) w p := fun _ _ _ => rfl

theorem queueing_alone (w : Web) (p : Pcb) : Queueing (.alone p) w p := ⟨fun _ _ _ => rfl, fun _ _ _ => rfl⟩

/-- The pcb that a client knows leads to an open client, or to none. -/
theorem Inv.queueing (i : w.Inv) {h : ClientHandle} (hc : w.findHandle h = some c) : Queueing t w c.pcb := by
  have hopen : ∀ d, w.findClient c.pcb = some d → d.closed = false := by
    intro d hd
    obtain ⟨-, q, hq⟩ := i.reg.find_handle hc
    rcases i.reg.find_pcb hq with ⟨-, h0⟩ | ⟨hopen, hpcb⟩
    · rw [h0, i.reg.find_zero] at hd
      cases hd
    · rw [hpcb, hq] at hd
      cases hd
      exact hopen
  constructor <;> intro d hd hclosed <;> rw [hopen d hd] at hclosed <;> cases hclosed

theorem writeNext_moves (i : w.Inv) (hs : Sending t w p) : Moves t w (w.writeNext W p) := by
  unfold writeNext
  cases h : w.findClient p with
  | none => exact Moves.refl _ _
  | some c =>
    obtain ⟨hm, hf, hsame⟩ := writeChunk_moves (W := W) (t := t) i h
    simp only
    split
    · next hclose =>
      simp only [Bool.and_eq_true] at hclose
      have hclosed : c.closed = true := by rw [← hsame.closed]; exact hclose.1
      exact hm.trans (closeClient_moves (hm.inv i) (fun _ _ => hs c h hclosed))
    · exact hm

theorem sendBuffer_moves (i : w.Inv) (hs : Queueing t w p) (buffer : Bytes) (buflen : Nat) (a : Allocation) :
    Moves t w (w.sendBuffer W p buffer buflen a) := by
  unfold sendBuffer
  cases h : w.findClient p with
  | none => exact Moves.refl _ _
  | some c =>
    have hlen : (buffer.take (buflen % 2 ^ 16)).length < 2 ^ 16 := by
      have := Nat.mod_lt buflen (by decide : 0 < 2 ^ 16)
      have := List.length_take_le (buflen % 2 ^ 16) buffer
      omega
    have hq : Moves t w (w.queueSend p c (buffer.take (buflen % 2 ^ 16)) a) := Moves.one (.queue a h (hs.2 c h) hlen)
    refine hq.trans (writeNext_moves (hq.inv i) ?_)
    intro d hd hclosed
    have hf : (w.queueSend p c (buffer.take (buflen % 2 ^ 16)) a).findClient p = some { c with sendbuf := _ } :=
      i.find_put h { c with sendbuf := c.sendbuf ++ [SendBuf.new w.serial (buffer.take (buflen % 2 ^ 16)) a] } rfl
    rw [hf] at hd
    cases hd
    exact hs.1 c h hclosed

theorem sendWebsocket_moves (i : w.Inv) (hs : Queueing t w p) (opc : Ws.OpCode) (payload : Bytes) :
    Moves t w (w.sendWebsocket W p opc payload) := by
  unfold sendWebsocket
  split
  · exact sendBuffer_moves i hs _ _ _
  · exact Moves.one (.fault _)

/-! ## The calls of a program -/

theorem sendTo_moves {h : ClientHandle} {send : Pcb → Web} (i : w.Inv)
    (hsend : ∀ q, Queueing t w q → Moves t w (send q)) : Moves t w (w.sendTo h send).2 := by
  unfold sendTo
  split
  · exact Moves.one (.null h)
  · next c hc =>
    simp only
    split
    · exact hsend c.pcb (i.queueing hc)
    · exact Moves.refl _ _

theorem sendMessageTxt_moves (i : w.Inv) (h : ClientHandle) (message : Txt) :
    Moves t w (w.sendMessageTxt W h message).2 := by
  refine sendTo_moves i fun q hq => ?_
  split
  · exact sendBuffer_moves i hq _ _ _
  · exact Moves.one (.fault _)

theorem broadcastFrom_moves (txt : Bytes) : ∀ (handles : List ClientHandle) {w : Web}, w.Inv →
    Moves t w (broadcastFrom W txt handles w)
  | [], _, _ => Moves.refl _ _
  | h :: rest, w, i => by
    rw [broadcastFrom]
    refine andThen_moves (Moves.refl _ _) (deref_moves fun c hc => ?_)
    split
    · have hm := sendWebsocket_moves (W := W) (t := t) i (i.queueing hc) .text txt
      exact hm.trans (broadcastFrom_moves txt rest (hm.inv i))
    · exact broadcastFrom_moves txt rest i

theorem broadcastTxtFrom_moves (txt : Txt) : ∀ (handles : List ClientHandle) (nwsc : Nat) {w : Web}, w.Inv →
    Moves t w (broadcastTxtFrom W txt nwsc handles w)
  | [], _, _, _ => Moves.refl _ _
  | h :: rest, nwsc, w, i => by
    rw [broadcastTxtFrom]
    refine andThen_moves (Moves.refl _ _) (deref_moves fun c hc => ?_)
    have hsend (message : Txt) :
        Moves t w (broadcastTxtFrom W txt (nwsc - 1) rest (w.sendMessageTxt W h message).2) := by
      have hm := sendMessageTxt_moves (W := W) (t := t) i h message
      exact hm.trans (broadcastTxtFrom_moves txt rest (nwsc - 1) (hm.inv i))
    split
    · split
      · split
        · exact hsend _
        · exact Moves.one (.fault _)
      · exact hsend _
    · exact broadcastTxtFrom_moves txt rest nwsc i

/-- **A call by the program only sends.** -/
theorem call_moves (i : w.Inv) (a : AppCall) : Moves t w (w.call W a) := by
  cases a with
  | sendData h data allocate => exact sendTo_moves i fun q hq => sendBuffer_moves i hq _ _ _
  | sendMessage h message => exact sendTo_moves i fun q hq => sendWebsocket_moves i hq _ _
  | sendMessageTxt h message => exact sendMessageTxt_moves i h message.val
  | broadcastWebsocket txt => exact broadcastFrom_moves txt _ i
  | broadcastWebsocketTxt txt => exact broadcastTxtFrom_moves txt.val _ _ i

theorem calls_moves : ∀ (as : List AppCall) {w : Web}, w.Inv → Moves t w (calls W as w)
  | [], _, _ => Moves.refl _ _
  | a :: as, w, i => by
    rw [calls]
    have hm := call_moves (W := W) (t := t) i a
    exact andThen_moves (Moves.refl _ _) (hm.trans (calls_moves as (hm.inv i)))

/-! ## Requests

The functions on a request hold a reference, a handle that only the connection `p` can lead to (`Owns`). -/

def Owns (p : Pcb) (h : ClientHandle) (w : Web) : Prop := ∀ q c, w.findClient q = some c → c.handle = h → q = p

theorem Inv.owns (i : w.Inv) (h : w.findClient p = some c) : Owns p c.handle w :=
  fun _ _ hq hh => i.reg.find_inj hq h hh

theorem Owns.moves {h : ClientHandle} {w' : Web} (o : Owns p h w) (m : Moves t w w') (i : w.Inv) : Owns p h w' := by
  intro q c' hq hh
  obtain ⟨c, hc, hce⟩ := m.back i hq
  exact o q c hc (hce.trans hh)

theorem Owns.find {h : ClientHandle} (o : Owns p h w) (i : w.Inv) (hc : w.findHandle h = some c) :
    w.findClient p = some c ∧ c.handle = h := by
  obtain ⟨hh, q, hq⟩ := i.reg.find_handle hc
  exact ⟨o q c hq hh ▸ hq, hh⟩

theorem tells_http (h : ClientHandle) (r : Http.HttpRequest) (text : Bytes) : tells h (.http h r text) = true :=
  beq_self_eq_true h

theorem processHttpRqst_moves (i : w.Inv) (h : w.findClient p = some c) :
    Moves (.on p) w (w.processHttpRqst W c.handle c).1 := by
  unfold processHttpRqst
  split
  · exact sendBuffer_moves i (i.queueing (i.reg.find h).2.1) _ _ _
  · next callback _ =>
    have h1 : Moves (.on p) w ((w.record (.http c.handle c.http c.rqst)).tock) :=
      (Moves.one (.told rfl h (tells_http _ _ _))).tail (.tick _)
    have h2 := h1.trans (calls_moves (W := W) (callback w.tick c.handle c.http c.rqst).calls (h1.inv i))
    simp only
    split
    · exact h2
    · show Moves (.on p) w (Web.andThen _ fun w => w.deref c.handle fun client =>
        w.sendBuffer W client.pcb notFound 26 .alloc)
      refine andThen_moves h2 ?_
      exact deref_moves fun d hd => sendBuffer_moves (h2.inv i) ((h2.inv i).queueing hd) _ _ _

theorem openWebsocket_moves (i : w.Inv) (h : w.findClient p = some c) :
    Moves (.on p) w (w.openWebsocket W c.handle c) := by
  unfold openWebsocket
  split
  · exact Moves.one (.fault _)
  · exact Moves.refl _ _
  · next key _ =>
    have h1 : Moves (.on p) w (w.sendBuffer W c.pcb (switchingProtocols W key)
      (switchingProtocols W key).length .alloc) := sendBuffer_moves i (i.queueing (i.reg.find h).2.1) _ _ _
    refine andThen_moves h1 (deref_moves fun d hd => ?_)
    have hd' := ((i.owns h).moves h1 i).find (h1.inv i) hd
    exact Moves.one (.request rfl hd'.1 ⟨rfl, rfl, rfl, rfl⟩)

theorem answerRqst_moves (i : w.Inv) (h : w.findClient p = some c) :
    Moves (.on p) w (w.answerRqst W c.handle c).1 := by
  unfold answerRqst
  split
  · split
    · exact Moves.one (.fault _)
    · next upgrade _ =>
      by_cases hup : upgrade = ascii "websocket"
      · rw [if_pos hup]
        exact openWebsocket_moves i h
      · rw [if_neg hup]
        split
        · split
          · exact Moves.one (.fault _)
          · next r _ =>
            have h1 : Moves (.on p) w (w.put { c with http := r.1, rqst := r.2 }) :=
              Moves.one (.request rfl h ⟨rfl, rfl, rfl, rfl⟩)
            exact h1.trans (processHttpRqst_moves (h1.inv i) (i.find_put h { c with http := r.1, rqst := r.2 } rfl))
        · exact processHttpRqst_moves i h
  · exact sendBuffer_moves i (i.queueing (i.reg.find h).2.1) _ _ _

/-- Closing the client's own pcb is closing the connection `p`, or a pcb without a client. -/
theorem closeClient_pcb_moves (i : w.Inv) (h : w.findClient p = some c) :
    Moves (.on p) w (w.closeClient W c.pcb false) := by
  refine closeClient_moves i fun d hd => ?_
  rcases i.reg.find_pcb h with ⟨-, h0⟩ | ⟨-, hp⟩
  · rw [h0, i.reg.find_zero] at hd
    cases hd
  · rw [hp]; rfl

theorem processRqst_moves {h : ClientHandle} (i : w.Inv) (o : Owns p h w) :
    Moves (.on p) w (w.processRqst W h) := by
  unfold processRqst
  refine deref_moves fun c hc => ?_
  obtain ⟨hf, rfl⟩ := o.find i hc
  have h1 : Moves (.on p) w (w.put (c.activity W w.tick)) := activity_moves i hf
  have hreq := sameRequest_activity (W := W) (c := c) w.tick
  have hf1 := i.find_put hf (c.activity W w.tick) hreq.handle
  have h2 := answerRqst_moves (W := W) (h1.inv i) hf1
  rw [hreq.handle] at h2
  have h12 := h1.trans h2
  refine andThen_moves h12 (deref_moves fun d hd => ?_)
  have hd' := (o.moves h12 i).find (h12.inv i) hd
  split
  · exact closeClient_pcb_moves (h12.inv i) hd'.1
  · exact Moves.refl _ _

theorem markForClose_moves (ht : ∀ c, w.findClient p = some c → t.pcb = some p) : Moves t w (w.markForClose p) := by
  unfold markForClose
  split
  · next c hc => exact Moves.one (.setClosed (ht c hc) hc)
  · exact Moves.refl _ _

theorem markForClose_pcb_moves (i : w.Inv) (h : w.findClient p = some c) :
    Moves (.on p) w (w.markForClose c.pcb) := by
  refine markForClose_moves fun d hd => ?_
  rcases i.reg.find_pcb h with ⟨-, h0⟩ | ⟨-, hp⟩
  · rw [h0, i.reg.find_zero] at hd
    cases hd
  · rw [hp]; rfl

theorem setWSCloseSent_moves (i : w.Inv) (h : w.findClient p = some c) :
    Moves (.on p) w (w.put (c.setWSCloseSent W w.tick)) ∧
      (w.put (c.setWSCloseSent W w.tick)).findClient p = some (c.setWSCloseSent W w.tick) ∧
      (c.setWSCloseSent W w.tick).pcb = c.pcb := by
  have hreq := sameRequest_activity (W := W) (c := c) w.tick
  have hsame : SameSending c (c.setWSCloseSent W w.tick) := by
    refine ⟨?_, hreq.pcb, hreq.closed, hreq.handle⟩
    unfold Client.setWSCloseSent Client.activity
    split <;> rfl
  exact ⟨Moves.one (.request rfl h hsame), i.find_put h _ hreq.handle, hreq.pcb⟩

theorem processWebsocket_moves {h : ClientHandle} (i : w.Inv) (o : Owns p h w) :
    Moves (.on p) w (w.processWebsocket W h) := by
  unfold processWebsocket
  refine deref_moves fun c hc => ?_
  obtain ⟨hf, rfl⟩ := o.find i hc
  have h1 : Moves (.on p) w (w.put (c.activity W w.tick)) := activity_moves i hf
  have hh := (sameRequest_activity (W := W) (c := c) w.tick).handle
  have hf1 := i.find_put hf (c.activity W w.tick) hh
  generalize c.activity W w.tick = c1 at h1 hh hf1
  simp only
  split
  · exact h1.tail (.fault _)
  · next payload _ =>
    have htold : tells c1.handle (.frame c.handle c1.wshdr.opcode payload) = true := by
      rw [hh]
      exact beq_self_eq_true _
    have hf2 : ((w.put c1).record (.frame c.handle c1.wshdr.opcode payload)).findClient p = some c1 := hf1
    have h2 := h1.tail (.told rfl hf1 htold)
    have i2 := h2.inv i
    generalize (w.put c1).record (.frame c.handle c1.wshdr.opcode payload) = w2 at h2 hf2 i2
    split
    · split
      · exact h2
      · next callback _ =>
        have htold2 : tells c1.handle (.message c.handle payload) = true := by
          rw [hh]
          exact beq_self_eq_true _
        have h3 := (h2.tail (.told rfl hf2 htold2)).tail (.tick (w2.tick + 1))
        exact h3.trans (calls_moves _ (h3.inv i))
    · split
      · exact h2.trans (sendWebsocket_moves i2 (i2.queueing (i2.reg.find hf2).2.1) _ _)
      · split
        · have hclose : Moves (.on p) w (if (!c1.wsCloseSent) = true then
              (w2.put (c1.setWSCloseSent W w2.tick)).sendWebsocket W c1.pcb .close payload else w2) := by
            split
            · obtain ⟨hm, hf3, hpcb⟩ := setWSCloseSent_moves (W := W) i2 hf2
              have i3 := hm.inv i2
              have hs := i3.queueing (t := .on p) (i3.reg.find hf3).2.1
              rw [hpcb] at hs
              exact h2.trans (hm.trans (sendWebsocket_moves i3 hs _ _))
            · exact h2
          refine andThen_moves hclose (deref_moves fun d hd => ?_)
          exact markForClose_pcb_moves (hclose.inv i) ((o.moves hclose i).find (hclose.inv i) hd).1
        · exact h2

/-! ## The loop of `tcp_server_recv` -/

/-- What `rqstIsReady` parses, and the members it sets. -/
theorem rqstIsReady_cases {b : Bool} {d : Client} (h : c.rqstIsReady = .ok (b, d)) :
    (c.websocket = false ∧ ∃ q, Http.parseRequest (fun _ => 0) c.rqst false = .ok q ∧ q.1.isComplete = b ∧
      d = { c with http := q.1, rqst := q.2 }) ∨
      (c.websocket = true ∧ ∃ q, Ws.parsePacket c.wshdr c.rqst = .ok q ∧ (q.1 == Ws.wsSuccess) = b ∧
        d = { c with wshdr := q.2.1, rqst := q.2.2 }) := by
  unfold Client.rqstIsReady at h
  split at h
  · next hws =>
    obtain ⟨q, hq, hr⟩ := Text.bind_eq_ok.1 h
    cases hr
    exact Or.inl ⟨by simpa using hws, q, hq, rfl, rfl⟩
  · next hws =>
    obtain ⟨q, hq, hr⟩ := Text.bind_eq_ok.1 h
    cases hr
    exact Or.inr ⟨by simpa using hws, q, hq, rfl, rfl⟩

theorem rqstIsReady_same {r : Bool × Client} (h : c.rqstIsReady = .ok r) : SameSending c r.2 := by
  obtain ⟨b, d⟩ := r
  rcases rqstIsReady_cases h with ⟨-, q, -, -, rfl⟩ | ⟨-, q, -, -, rfl⟩
  · exact ⟨rfl, rfl, rfl, rfl⟩
  · exact ⟨rfl, rfl, rfl, rfl⟩

theorem resetRqst_same (c : Client) : SameSending c c.resetRqst := by
  unfold Client.resetRqst
  split <;> exact ⟨rfl, rfl, rfl, rfl⟩

theorem recvPass_moves {h : ClientHandle} (i : w.Inv) (o : Owns p h w) :
    ∃ w', Moves (.on p) w w' ∧ (recvPass W h w = .again w' ∨ recvPass W h w = .leave w') := by
  unfold recvPass
  cases hc : w.findHandle h with
  | none => exact ⟨_, Moves.one (.fault _), Or.inr rfl⟩
  | some c =>
    obtain ⟨hf, rfl⟩ := o.find i hc
    simp only
    cases hr : c.rqstIsReady with
    | error f => exact ⟨_, Moves.one (.fault _), Or.inr rfl⟩
    | ok r =>
      obtain ⟨ready, c1⟩ := r
      have hs := rqstIsReady_same hr
      have h1 : Moves (.on p) w (w.put c1) := Moves.one (.request rfl hf hs)
      have o1 := o.moves h1 i
      have i1 := h1.inv i
      simp only
      cases ready with
      | false => exact ⟨_, h1, Or.inr rfl⟩
      | true =>
        have h2 : Moves (.on p) w (if (!c1.websocket) = true then (w.put c1).processRqst W c.handle
            else (w.put c1).processWebsocket W c.handle) := by
          split
          · exact h1.trans (processRqst_moves i1 o1)
          · exact h1.trans (processWebsocket_moves i1 o1)
        generalize (if (!c1.websocket) = true then (w.put c1).processRqst W c.handle
            else (w.put c1).processWebsocket W c.handle) = w2 at h2
        simp only [if_true]
        cases hfault : w2.fault.isSome with
        | true => exact ⟨_, h2, Or.inr rfl⟩
        | false =>
          simp only [Bool.false_eq_true, if_false]
          cases hd : w2.findHandle c.handle with
          | none => exact ⟨_, h2.tail (.fault _), Or.inr rfl⟩
          | some d =>
            have hfd := (o.moves h2 i).find (h2.inv i) hd
            exact ⟨_, h2.tail (.request rfl hfd.1 (resetRqst_same d)), Or.inl rfl⟩

theorem again_moves {h : ClientHandle} (i : w.Inv) (o : Owns p h w) {w' : Web} (e : recvPass W h w = .again w') :
    Moves (.on p) w w' := by
  obtain ⟨v, hv, ha | hl⟩ := recvPass_moves (W := W) i o
  · rw [ha] at e
    cases e
    exact hv
  · rw [hl] at e
    cases e

theorem leave_moves {h : ClientHandle} (i : w.Inv) (o : Owns p h w) {w' : Web} (e : recvPass W h w = .leave w') :
    Moves (.on p) w w' := by
  obtain ⟨v, hv, ha | hl⟩ := recvPass_moves (W := W) i o
  · rw [ha] at e
    cases e
  · rw [hl] at e
    cases e
    exact hv

theorem reaches_moves {h : ClientHandle} (i : w.Inv) (o : Owns p h w) {w' : Web}
    (hr : Loop.Reaches (recvPass W h) w w') : Moves (.on p) w w' := by
  induction hr with
  | start => exact Moves.refl _ _
  | again _ hs ih => exact ih.trans (again_moves (ih.inv i) (o.moves ih i) hs)

theorem recvLoop_moves {h : ClientHandle} (i : w.Inv) (o : Owns p h w) (rqst : Bytes) :
    Moves (.on p) w (w.recvLoop W h rqst) := by
  unfold recvLoop
  cases hr : Loop.run (recvPass W h) (rqst.length + 1) w with
  | none => exact Moves.one (.fault _)
  | some w' =>
    refine Loop.run_inv (I := Moves (.on p) w) (Q := Moves (.on p) w) ?_ ?_ _ w w' (Moves.refl _ _) hr
    · exact fun s s' hs e => hs.trans (again_moves (hs.inv i) (o.moves hs i) e)
    · exact fun s r hs e => hs.trans (leave_moves (hs.inv i) (o.moves hs i) e)

/-! ## The callbacks -/

theorem recv_moves (i : w.Inv) (segment : Bytes) : Moves (.on p) w (w.tcpServerRecv W p (some segment)) := by
  unfold tcpServerRecv
  cases h : w.findClient p with
  | none => exact Moves.refl _ _
  | some c =>
    simp only
    split
    · exact Moves.refl _ _
    · have h1 : Moves (.on p) w (w.put { c with rqst := c.rqst ++ segment }) :=
        Moves.one (.request rfl h ⟨rfl, rfl, rfl, rfl⟩)
      exact h1.trans (recvLoop_moves (h1.inv i) ((i.owns h).moves h1 i) _)

/-- Bytes are acknowledged. -/
theorem acked_moves (i : w.Inv) (h : w.findClient p = some c) {len : Nat}
    (hlen : len ≤ (conn p w.trace).ledger.unacked.length) :
    Moves (.on p) w (((w.record (.sent p len)).put { c with sendbuf := (acknowledge len c.sendbuf).1 }).recordAll
      (releases p .acknowledged (acknowledge len c.sendbuf).2)) := by
  have hf : (w.record (.sent p len)).findClient p = some c := h
  obtain ⟨q, hr, hq⟩ := (i.inStep p c h).holds
  cases hb : c.sendbuf with
  | nil =>
    rw [hb] at hr
    rw [hq.unacked_nil hr.nil] at hlen
    have h1 : Moves (.on p) w (w.record (.sent p len)) := Moves.one (.ackedNone rfl (Or.inr (Nat.le_zero.1 hlen)))
    have hself : (w.record (.sent p len)).put { c with sendbuf := [] } = w.record (.sent p len) := by
      rw [← hb]
      exact (h1.inv i).put_self hf
    rw [acknowledge, hself, releases, List.map_nil]
    show Moves (.on p) w { w with trace := w.trace ++ [.sent p len] ++ [] }
    rw [List.append_nil]
    exact h1
  | cons sb rest =>
    rw [hb] at hr
    obtain ⟨v, vs, hl, hv, -⟩ := hr.cons
    rw [hq.length_unacked hl] at hlen
    have hle := v.ack_le
    have hn : v.ack + len ≤ v.sent := by omega
    have h1 : Moves (.on p) w ((w.put { c with sendbuf := (sb.acknowledge len).2 :: rest }).record (.sent p len)) :=
      Moves.one (.acked rfl h hb (by rw [hv.ack, hv.sent]; omega))
    rw [Represents.acknowledge hv hn rest]
    split
    · next hw =>
      have hf1 := i.find_put h { c with sendbuf := (sb.acknowledge len).2 :: rest } rfl
      have h2 := h1.tail (.pop hf1 rfl hw)
      have hput : ((w.put { c with sendbuf := (sb.acknowledge len).2 :: rest }).record (.sent p len)).put
          { c with sendbuf := rest } = (w.record (.sent p len)).put { c with sendbuf := rest } :=
        put_put (w.record (.sent p len)) { c with sendbuf := (sb.acknowledge len).2 :: rest }
          { c with sendbuf := rest } rfl
      rw [hput] at h2
      exact h2
    · rw [releases, List.map_nil]
      show Moves (.on p) w { w.put { c with sendbuf := (sb.acknowledge len).2 :: rest } with
        trace := w.trace ++ [.sent p len] ++ [] }
      rw [List.append_nil]
      exact h1

theorem sent_moves (i : w.Inv) {len : Nat} (hlen : len ≤ (conn p w.trace).ledger.unacked.length) :
    Moves (.on p) w (w.tcpServerSent W p len) := by
  unfold tcpServerSent
  cases h : w.findClient p with
  | none =>
    have h1 : Moves (.on p) w (w.record (.sent p len)) := Moves.one (.ackedNone rfl (Or.inl h))
    have hf : (w.record (.sent p len)).findClient p = none := h
    simp only [hf]
    exact h1.trans (writeNext_moves (h1.inv i) (sending_on _ _))
  | some c =>
    have hf : (w.record (.sent p len)).findClient p = some c := h
    have hm := acked_moves i h hlen
    simp only [hf]
    exact hm.trans (writeNext_moves (hm.inv i) (sending_on _ _))

theorem pollIdle_moves (i : w.Inv) (h : w.findClient p = some c) : Moves (.on p) w (w.pollIdle W p c) := by
  unfold pollIdle
  split
  · split
    · obtain ⟨hm, hf, hpcb⟩ := setWSCloseSent_moves (W := W) i h
      have hs := (hm.inv i).queueing (t := .on p) ((hm.inv i).reg.find hf).2.1
      rw [hpcb] at hs
      exact hm.trans (sendWebsocket_moves (hm.inv i) hs _ _)
    · exact markForClose_moves fun _ _ => rfl
  · exact Moves.refl _ _

/-- What `tcp_server_poll` does after it has written. -/
theorem pollRest_moves {h : ClientHandle} (i : w.Inv) (o : Owns p h w) :
    Moves (.on p) w (w.deref h fun client => (w.pollIdle W p client).andThen fun w => w.deref h fun client =>
      if client.closed then w.closeClient W p false else w) := by
  refine deref_moves fun d hd => ?_
  have h2 := pollIdle_moves (W := W) i (o.find i hd).1
  refine andThen_moves h2 (deref_moves fun e he => ?_)
  split
  · exact closeClient_moves (h2.inv i) fun _ _ => rfl
  · exact Moves.refl _ _

theorem poll_moves (i : w.Inv) : Moves (.on p) w (w.tcpServerPoll W p) := by
  unfold tcpServerPoll
  cases h : w.findClient p with
  | none => exact Moves.refl _ _
  | some c =>
    simp only
    split
    · have h1 : Moves (.on p) w (if c.moreToSend = true then w.writeNext W c.pcb else w) := by
        split
        · exact writeNext_moves i (i.queueing (i.reg.find h).2.1).1
        · exact Moves.refl _ _
      exact h1.trans (pollRest_moves (h1.inv i) ((i.owns h).moves h1 i))
    · exact closeClient_moves i fun _ _ => rfl

end Web
end Pico
