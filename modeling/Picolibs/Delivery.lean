import Mathlib.Data.List.Induction
import Picolibs.Runs
/-!
# Delivery — what is sent, acknowledged and released, over every run

In every run the bytes that `altcp_write` accepted are a prefix of the queued ones, `acknowledge` drops a buffer only
when it is acknowledged whole, and the server's own close finds everything queued acknowledged (`sound_reachable`).
Two things hold on a condition: a buffer is released while its bytes are in flight exactly when the peer closes
(`released_iff`), and a poll writes on exactly when the client is not closed (`poll_writes_iff`).
-/
namespace Pico
namespace Web

open SendQueue
open History (Justified)

variable {W : World} {w : Web}

/-! ## Sound traces -/

/-- What every act of a run requires of the acts before it. -/
def RunSound (pre : List Act) : Act → Prop
  | .close p .own _ => (conn p pre).ledger.Drained
  | .release p id _ .acknowledged => (conn p pre).ledger.Whole id
  | .write p id data err =>
    err = errOk → ((conn p pre).ledger.accept id data).accepted <+: (conn p pre).ledger.stream
  | _ => True

theorem runSound_of_sound {pre : List Act} {a : Act} (h : Sound pre a) : RunSound pre a := by
  cases a with
  | close p why err => cases why <;> first | exact h | trivial
  | release p id allocated why => cases why <;> first | exact h.2 | trivial
  | write p id data err => exact h
  | _ => trivial

/-- The trace of a connection that is lost: the act that takes it away, and the release of its buffers. -/
theorem justified_lost {P : List Act → Act → Prop} {l : List Act} {a : Act} {p : Pcb} {bufs : List SendBuf}
    (h : Justified P l) (ha : P l a)
    (hb : ∀ pre, ∀ sb ∈ bufs, pre <+: releases p .deleted bufs →
      P (l ++ [a] ++ pre) (.release p sb.id sb.allocated .deleted)) :
    Justified P (l ++ [a] ++ releases p .deleted bufs) := by
  refine History.justified_append (History.justified_snoc h ha) ?_
  intro pre b post hm
  have hpre : pre <+: releases p .deleted bufs := ⟨b :: post, hm.symm⟩
  have hmem : b ∈ releases p .deleted bufs := by
    rw [hm]
    exact List.mem_append_right _ List.mem_cons_self
  obtain ⟨sb, hsb, rfl⟩ := List.mem_map.1 hmem
  exact hb pre sb hsb hpre

/-- **One step keeps a trace justified**, when what the moves write is enough and the other events are looked at. -/
theorem justified_step {P : List Act → Act → Prop} (i : w.Inv) {e : Event} (ha : Allowed w e)
    (hmove : ∀ pre a, Sound pre a → P pre a) (haccept : ∀ pre p h, P pre (.accept p h))
    (herr : ∀ pre p, P pre (.err p)) (hpeer : ∀ pre p err, P pre (.close p .peer err))
    (hlost : ∀ p c a, w.findClient p = some c →
      (e = .err p ∧ a = .err p ∨ ∃ err, e = .recv p none ∧ a = .close p .peer err) →
      ∀ pre, ∀ sb ∈ c.sendbuf, pre <+: releases p .deleted c.sendbuf →
        P (w.trace ++ [a] ++ pre) (.release p sb.id sb.allocated .deleted))
    (h : Justified P w.trace) : Justified P (w.step W e).trace := by
  cases hf : w.fault with
  | some f => rw [step_of_fault hf]; exact h
  | none =>
    cases step_cases (W := W) i hf ha with
    | moves m _ => exact m.justified hmove i h
    | opens _ _ _ _ ht =>
      rw [ht]
      exact History.justified_snoc h (haccept _ _ _)
    | unknown _ _ ht =>
      rw [ht]
      exact History.justified_snoc h (herr _ _)
    | @loses p c _ a t hc _ ht =>
      rw [ht]
      cases t with
      | err => exact justified_lost h (herr _ _) (hlost p c _ hc (Or.inl ⟨rfl, rfl⟩))
      | peer => exact justified_lost h (hpeer _ _ _) (hlost p c _ hc (Or.inr ⟨_, rfl, rfl⟩))

theorem sound_reachable (hr : Reachable W Allowed w) : Justified RunSound w.trace := by
  suffices h : w.Inv ∧ Justified RunSound w.trace from h.2
  refine History.inv_of_reach (I := fun s => s.Inv ∧ Justified RunSound s.trace)
    ⟨inv_init, History.justified_nil _⟩ ?_ hr
  intro s e hs ha
  refine ⟨inv_step hs.1 ha, justified_step hs.1 ha (fun _ _ => runSound_of_sound) ?_ ?_ ?_ ?_ hs.2⟩
  · exact fun _ _ _ => trivial
  · exact fun _ _ => trivial
  · exact fun _ _ _ => trivial
  · exact fun _ _ _ _ _ _ _ _ _ => trivial

/-! ## In order, and whole -/

/-- The writes of a sound trace hand on a prefix of what was queued. -/
theorem accepted_prefix_of_sound (p : Pcb) : ∀ (l : List Act), Justified RunSound l →
    (conn p l).ledger.accepted <+: (conn p l).ledger.stream := by
  intro l
  induction l using List.reverseRecOn with
  | nil => exact fun _ => List.nil_prefix
  | append_singleton l a ih =>
    intro h
    have hl := ih h.of_append
    have ha := h l a [] rfl
    rw [conn_snoc]
    cases a with
    | accept q k =>
      rw [Conn.after]
      split
      · exact List.nil_prefix
      · exact hl
    | queue q id data allocated =>
      rw [Conn.after]
      split
      · refine hl.trans ?_
        show _ <+: List.flatMap tagged ((conn p l).ledger.queued ++ [(id, data)])
        rw [List.flatMap_append]
        exact List.prefix_append _ _
      · exact hl
    | write q id data err =>
      rw [Conn.after]
      split
      · next hq => exact hq.1 ▸ ha hq.2
      · exact hl
    | sent q len => rw [Conn.after]; split <;> exact hl
    | close q why err => rw [Conn.after]; split <;> exact hl
    | err q => rw [Conn.after]; split <;> exact hl
    | release q id allocated why => exact hl
    | http k r text => exact hl
    | frame k opc payload => exact hl
    | message k payload => exact hl
    | nullClient k => exact hl

/-! Runs to apply the theorems to: a page of two bytes, on one connection. -/

def getRequest : Block := ⟨ascii "GET / HTTP/1.1\r\n\r\n", by decide⟩

def pageWorld : World where
  httpCallback := some fun _ handle _ _ => { calls := [.sendData handle ⟨ascii "hi", by decide⟩ .alloc] }

def runOf (W : World) (es : List Event) : Web := es.foldl (step W) {}

theorem runOf_reachable {W : World} {ok : Web → Event → Prop} {es : List Event}
    (h : History.Along (step W) ok {} es) : Reachable W ok (runOf W es) := History.reach_along es _ .init h

/-- The page is requested and acknowledged, and the server closes. -/
def pageRun : List Event := [.accept 1 0, .recv 1 (some getRequest), .sent 1 2]

theorem pageRun_reachable : Reachable pageWorld Allowed (runOf pageWorld pageRun) :=
  runOf_reachable (by decide)

/-- **Nothing queued is lost, duplicated or reordered**, the counters of every buffer stay in order, and a buffer leaves
through `acknowledge` when it was accepted and acknowledged whole. -/
theorem sends_in_order (hr : Reachable W Allowed w) :
    (∀ p, (conn p w.trace).ledger.accepted <+: (conn p w.trace).ledger.stream) ∧
    (∀ h c, w.findHandle h = some c → ∀ sb ∈ c.sendbuf, 0 ≤ sb.ack ∧ sb.ack ≤ sb.sent ∧ sb.sent ≤ sb.size) ∧
    Justified (fun pre a => ∀ p id allocated, a = .release p id allocated .acknowledged →
      (conn p pre).ledger.Whole id) w.trace := by
  have hs := sound_reachable hr
  have i := inv_reachable (fun _ _ => id) hr
  refine ⟨fun p => accepted_prefix_of_sound p w.trace hs, ?_, ?_⟩
  · intro h c hc
    obtain ⟨-, p, hp⟩ := i.reg.find_handle hc
    obtain ⟨q, hq, -⟩ := (i.inStep p c hp).holds
    exact hq.bounds
  · refine hs.imp ?_
    rintro pre _ hp p id allocated rfl
    exact hp

theorem sends_in_order_page :
    (∀ p, (conn p (runOf pageWorld pageRun).trace).ledger.accepted <+:
      (conn p (runOf pageWorld pageRun).trace).ledger.stream) ∧
    (∀ h c, (runOf pageWorld pageRun).findHandle h = some c → ∀ sb ∈ c.sendbuf,
      0 ≤ sb.ack ∧ sb.ack ≤ sb.sent ∧ sb.sent ≤ sb.size) ∧
    Justified (fun pre a => ∀ p id allocated, a = .release p id allocated .acknowledged →
      (conn p pre).ledger.Whole id) (runOf pageWorld pageRun).trace :=
  sends_in_order pageRun_reachable

/-! ## The server's own close -/

/-- **The server's own close drops no byte**: everything queued for the client was accepted and acknowledged. -/
theorem own_close_drained (hr : Reachable W Allowed w) :
    Justified (fun pre a => ∀ p err, a = .close p .own err → (conn p pre).ledger.Drained) w.trace := by
  refine (sound_reachable hr).imp ?_
  rintro pre _ hp p err rfl
  exact hp

theorem own_close_drained_page :
    .close 1 .own errOk ∈ (runOf pageWorld pageRun).trace ∧
    Justified (fun pre a => ∀ p err, a = .close p .own err → (conn p pre).ledger.Drained)
      (runOf pageWorld pageRun).trace :=
  ⟨by decide, own_close_drained pageRun_reachable⟩

/-! ## What is released while it is in flight -/

/-- An act that releases no memory TCP may still read, unless an error has torn the connection down. -/
def Spares (pre : List Act) (a : Act) : Prop :=
  ∀ p id allocated why, a = .release p id allocated why → allocated ≠ .stat →
    (conn p pre).torn = true ∨ ∀ x ∈ (conn p pre).ledger.unacked, x.1 ≠ id

/-- The peer, if it closes, closes no connection that has bytes of an owned buffer in flight. -/
def PeerSpares (w : Web) : Event → Prop
  | .recv p none => ∀ c ∈ w.findClient p, ∀ sb ∈ c.sendbuf, sb.allocated ≠ .stat → sb.ack = sb.sent
  | _ => True

instance decidablePeerSpares (w : Web) : ∀ e, Decidable (PeerSpares w e)
  | .recv p none =>
    inferInstanceAs (Decidable (∀ c ∈ w.findClient p, ∀ sb ∈ c.sendbuf, sb.allocated ≠ .stat → sb.ack = sb.sent))
  | .recv _ (some _) => isTrue trivial
  | .accept _ _ => isTrue trivial
  | .sent _ _ => isTrue trivial
  | .poll _ => isTrue trivial
  | .err _ => isTrue trivial
  | .app _ => isTrue trivial
  | .sendBuffer _ _ _ => isTrue trivial
  | .writeNext _ => isTrue trivial

theorem spares_of_sound {pre : List Act} {a : Act} (h : Sound pre a) : Spares pre a := by
  rintro p id allocated why rfl -
  cases why with
  | acknowledged =>
    right
    rw [h.1]
    nofun
  | deleted => exact h.elim

theorem ledger_after_close (p q : Pcb) (why : Closing) (err : Int) (l : List Act) :
    (conn p (l ++ [.close q why err])).ledger = (conn p l).ledger := by
  rw [conn_snoc, Conn.after]
  split <;> rfl

theorem torn_after_close (p q : Pcb) (why : Closing) (err : Int) (l : List Act) :
    (conn p (l ++ [.close q why err])).torn = (conn p l).torn := by
  rw [conn_snoc, Conn.after]
  split <;> rfl

/-- A buffer with no byte in flight has none among the unacknowledged. -/
theorem InStep.not_inFlight {k : Conn} {bufs : List SendBuf} {serial : Nat} (h : InStep k bufs serial) {sb : SendBuf}
    (hsb : sb ∈ bufs) (hidle : sb.ack = sb.sent) : ∀ x ∈ k.ledger.unacked, x.1 ≠ sb.id := by
  obtain ⟨q, hr, hq⟩ := h.holds
  cases bufs with
  | nil => cases hsb
  | cons front rest =>
    obtain ⟨v, vs, hl, hv, -⟩ := hr.cons
    rw [hq.unacked_cons hl]
    intro x hx
    rw [fst_of_mem_tagged hx, ← hv.id]
    rcases List.mem_cons.1 hsb with rfl | hin
    · have hnone : v.ack = v.sent := by
        have := hv.ack
        have := hv.sent
        omega
      rw [hnone] at hx
      have : ((v.data.take v.sent).drop v.sent) = [] := List.drop_of_length_le (List.length_take_le _ _)
      rw [this] at hx
      cases hx
    · have hnd := h.nodup
      rw [List.map_cons, List.nodup_cons] at hnd
      intro e
      exact hnd.1 (e ▸ List.mem_map_of_mem hin)

/-- Only the front buffer can have bytes in flight, and then they are the unacknowledged ones. -/
theorem InStep.inFlight {k : Conn} {bufs : List SendBuf} {serial : Nat} (h : InStep k bufs serial) {sb : SendBuf}
    (hsb : sb ∈ bufs) (hbusy : sb.ack ≠ sb.sent) :
    (∃ rest, bufs = sb :: rest) ∧ ∃ x ∈ k.ledger.unacked, x.1 = sb.id := by
  obtain ⟨q, hr, hq⟩ := h.holds
  cases bufs with
  | nil => cases hsb
  | cons front rest =>
    obtain ⟨v, vs, hl, hv, hrest⟩ := hr.cons
    rcases List.mem_cons.1 hsb with rfl | hin
    · refine ⟨⟨rest, rfl⟩, ?_⟩
      have hlen := hq.length_unacked hl
      have hpos : 0 < k.ledger.unacked.length := by
        have := hv.ack
        have := hv.sent
        have := v.ack_le
        omega
      obtain ⟨x, hx⟩ := List.exists_mem_of_length_pos hpos
      refine ⟨x, hx, ?_⟩
      rw [hq.unacked_cons hl] at hx
      rw [fst_of_mem_tagged hx, hv.id]
    · exfalso
      obtain ⟨v', hv', his⟩ := SendBuf.Is.window hrest hin
      have hz := q.idle v' (by rw [hl]; exact hv')
      have := v'.ack_le
      have := his.ack
      have := his.sent
      omega

/-- **A step releases nothing in flight exactly when a closing peer spares it.** -/
theorem spares_step_iff (i : w.Inv) (hfault : w.fault = none) {e : Event} (ha : Allowed w e)
    (h : Justified Spares w.trace) : Justified Spares (w.step W e).trace ↔ PeerSpares w e := by
  constructor
  · intro hstep
    unfold PeerSpares
    split
    · next p =>
      intro c hc sb hsb halloc
      by_cases hbusy : sb.ack = sb.sent
      · exact hbusy
      exfalso
      obtain ⟨⟨rest, hrest⟩, x, hx, hxid⟩ := (i.inStep p c hc).inFlight hsb hbusy
      rw [step_of_none hfault] at hstep
      have htrace := (i.peerClose (W := W) hc).2.2
      have hin : (w.closeClient W p true).trace = (w.trace ++ [.close p .peer (W.altcpClose w.tick)]) ++
          .release p sb.id sb.allocated .deleted :: releases p .deleted rest := by
        rw [htrace, hrest]
        rfl
      rcases hstep _ _ _ hin p sb.id sb.allocated .deleted rfl halloc with htorn | hnone
      · rw [torn_after_close, (i.inStep p c hc).untorn] at htorn
        cases htorn
      · rw [ledger_after_close] at hnone
        exact hnone x hx hxid
    · trivial
  · intro hcond
    refine justified_step i ha (fun _ _ => spares_of_sound) nofun nofun nofun ?_ h
    rintro p c a hc hwhy pre sb hsb ⟨m, hm⟩ q id allocated why heq halloc
    cases heq
    obtain ⟨pre', hpre'⟩ : ∃ pre', pre = releases p .deleted pre' := by
      refine ⟨c.sendbuf.take pre.length, ?_⟩
      rw [releases, List.map_take]
      show pre = (releases p .deleted c.sendbuf).take pre.length
      rw [← hm, List.take_left]
    rw [hpre', conn_releases]
    rcases hwhy with ⟨-, rfl⟩ | ⟨err, rfl, rfl⟩
    · left
      rw [conn_snoc, Conn.after, if_pos rfl]
    · right
      rw [ledger_after_close]
      exact (i.inStep p c hc).not_inFlight hsb (hcond c hc sb hsb halloc)

/-- **No memory is released while TCP may read it**, in every run whose peers close only connections with no owned
bytes in flight; and at any point of any run, that is what it takes. -/
theorem released_iff (W : World) :
    (∀ w, Reachable W (fun w e => Allowed w e ∧ PeerSpares w e) w → Justified Spares w.trace) ∧
    ∀ w e, Reachable W Allowed w → w.fault = none → Allowed w e → Justified Spares w.trace →
      (Justified Spares (w.step W e).trace ↔ PeerSpares w e) := by
  refine ⟨fun w hr => ?_, fun w e hr hf ha h => spares_step_iff (inv_reachable (fun _ _ => id) hr) hf ha h⟩
  suffices h : w.Inv ∧ Justified Spares w.trace from h.2
  refine History.inv_of_reach (I := fun s => s.Inv ∧ Justified Spares s.trace)
    ⟨inv_init, History.justified_nil _⟩ ?_ hr
  rintro s e ⟨i, hs⟩ ⟨ha, hcond⟩
  refine ⟨inv_step i ha, ?_⟩
  cases hf : s.fault with
  | some f => rw [step_of_fault hf]; exact hs
  | none => exact (spares_step_iff i hf ha hs).2 hcond

theorem released_iff_page :
    Justified Spares (runOf pageWorld pageRun).trace ∧
    (Justified Spares ((runOf pageWorld (pageRun.take 2)).step pageWorld (.recv 1 none)).trace ↔
      PeerSpares (runOf pageWorld (pageRun.take 2)) (.recv 1 none)) :=
  ⟨(released_iff pageWorld).1 _ (runOf_reachable (by decide)),
    (released_iff pageWorld).2 _ _ (runOf_reachable (by decide)) (by decide) trivial
      ((released_iff pageWorld).1 _ (runOf_reachable (by decide)))⟩

/-- The page is requested and the peer closes at once: its two bytes are released while they are in flight. -/
def hangUpRun : List Event := [.accept 1 0, .recv 1 (some getRequest), .recv 1 none]

theorem released_in_flight : ¬ ∀ (W : World) (w : Web), Reachable W Allowed w → Justified Spares w.trace := by
  intro h
  have hj := h pageWorld (runOf pageWorld hangUpRun) (runOf_reachable (by decide))
  have hlast := hj (runOf pageWorld hangUpRun).trace.dropLast (.release 1 0 .alloc .deleted) [] (by decide)
  rcases hlast 1 0 .alloc .deleted rfl (by decide) with htorn | hnone
  · exact absurd htorn (by decide)
  · exact hnone (0, 104) (by decide) rfl

/-! ## What a poll writes -/

theorem Moves.trace_grows {t : Turn} {w w' : Web} (m : Moves t w w') (i : w.Inv) : w.trace <+: w'.trace := by
  induction m with
  | refl => exact List.prefix_refl _
  | tail ms m ih =>
    rcases m.sound (Moves.inv ms i) with he | ⟨a, he, -⟩
    · rw [he]; exact ih
    · rw [he]; exact ih.trans (List.prefix_append _ _)

/-- A front buffer with bytes to send gives some of them to `altcp_write` when there is a window. -/
theorem writeChunk_front (i : w.Inv) {p : Pcb} {c : Client} (h : w.findClient p = some c) {sb : SendBuf}
    {rest : List SendBuf} (hb : c.sendbuf = sb :: rest) (hmore : sb.sent < sb.size) (hidle : sb.sent = sb.ack)
    (hwindow : 0 < (W.altcpSndbuf w.tick).toNat) (hok : W.altcpWrite w.tick = errOk) :
    ∃ bytes, bytes ≠ [] ∧ (w.writeChunk W p c).1.trace = w.trace ++ [.write p sb.id bytes errOk] := by
  obtain ⟨q, hr, -⟩ := (i.inStep p c h).holds
  rw [hb] at hr
  obtain ⟨v, vs, hl, hv, -⟩ := hr.cons
  have hsb : (c.activity W w.tick).sendbuf = sb :: rest := by
    unfold Client.activity
    split <;> exact hb
  have hnot : sb.isAcknowledged = false := by
    rw [SendBuf.isAcknowledged, beq_eq_false_iff_ne]
    omega
  have hto : 0 < sb.toSend := by
    have := hv.size
    have := hv.sent
    rw [hv.toSend]
    omega
  unfold writeChunk
  simp only [hsb]
  generalize hnn : (if tcpMss < (W.altcpSndbuf w.tick).toNat then tcpMss else (W.altcpSndbuf w.tick).toNat) = nn
  have hpos : 0 < nn := by
    rw [← hnn]
    split
    · decide
    · exact hwindow
  obtain ⟨n, hle, sb', hn, hget, his, -, -⟩ := hv.getNext nn
  have hid : sb'.id = sb.id := his.id.trans hv.id.symm
  unfold getNext
  rw [if_pos hpos, Represents.acknowledge_zero hv, hnot]
  simp only [Bool.false_eq_true, if_false, if_pos hto, hget, hok, if_true, List.head?_cons, Option.map_some,
    Option.getD_some, hid]
  refine ⟨(v.data.drop v.sent).take n, ?_, ?_⟩
  · intro e
    have := congrArg List.length e
    rw [hv.toSend] at hto
    rw [List.length_take, List.length_drop, List.length_nil] at this
    omega
  · show w.trace ++ [] ++ [_] = _
    rw [List.append_nil]

/-- A client that waits for its queue to drain is polled in vain. -/
theorem poll_closed (i : w.Inv) {p : Pcb} {c : Client} (h : w.findClient p = some c) {sb : SendBuf}
    {rest : List SendBuf} (hb : c.sendbuf = sb :: rest) (hmore : sb.sent < sb.size) (hidle : sb.sent = sb.ack)
    (hclosed : c.closed = true) : (w.tcpServerPoll W p).trace = w.trace := by
  obtain ⟨q, hr, -⟩ := (i.inStep p c h).holds
  rw [hb] at hr
  obtain ⟨v, vs, hl, hv, -⟩ := hr.cons
  have hnot : sb.isAcknowledged = false := by
    rw [SendBuf.isAcknowledged, beq_eq_false_iff_ne]
    omega
  have hq : acknowledge 0 c.setClosed.sendbuf = (sb :: rest, []) := by
    show acknowledge 0 c.sendbuf = _
    rw [hb, Represents.acknowledge_zero hv, hnot]
    rfl
  have hpcb : c.pcb ≠ p := by
    have hp0 := (i.reg.find h).2.2.1
    rcases i.reg.find_pcb h with ⟨-, h0⟩ | ⟨hopen, -⟩
    · rw [h0]; exact hp0.symm
    · rw [hclosed] at hopen; cases hopen
  unfold tcpServerPoll
  simp only [h, if_neg hpcb]
  unfold closeClient
  simp only [h, Bool.not_false, if_true, hq, List.isEmpty_cons, Bool.false_eq_true, if_false]
  exact List.append_nil _

/-- **A poll hands bytes on exactly when the client is not closed**: with bytes to send, none of them in flight, a window
and a successful `altcp_write`. -/
theorem poll_writes_iff (hr : Reachable W Allowed w) (hf : w.fault = none) {p : Pcb} {c : Client}
    (h : w.findClient p = some c) {sb : SendBuf} {rest : List SendBuf} (hb : c.sendbuf = sb :: rest)
    (hmore : sb.sent < sb.size) (hidle : sb.sent = sb.ack) (hwindow : 0 < (W.altcpSndbuf w.tick).toNat)
    (hok : W.altcpWrite w.tick = errOk) :
    (∃ as bytes, (w.step W (.poll p)).trace = w.trace ++ as ∧ .write p sb.id bytes errOk ∈ as ∧ bytes ≠ []) ↔
      c.closed = false := by
  have i := inv_reachable (fun _ _ => id) hr
  rw [step_of_none hf]
  constructor
  · rintro ⟨as, bytes, htrace, hmem, -⟩
    cases hclosed : c.closed with
    | false => rfl
    | true =>
      have hsame := poll_closed (W := W) i h hb hmore hidle hclosed
      simp only [hsame, List.self_eq_append_right] at htrace
      rw [htrace] at hmem
      cases hmem
  · intro hopen
    obtain ⟨bytes, hne, hwrite⟩ := writeChunk_front (W := W) i h hb hmore hidle hwindow hok
    obtain ⟨hm, -, hsame⟩ := writeChunk_moves (W := W) (t := .on p) i h
    have hpcb : c.pcb = p := by
      rcases i.reg.find_pcb h with ⟨hclosed, -⟩ | ⟨-, hp⟩
      · rw [hopen] at hclosed; cases hclosed
      · exact hp
    have hnext : w.writeNext W p = (w.writeChunk W p c).1 := by
      unfold writeNext
      simp only [h, hsame.closed, hopen, Bool.false_and, Bool.false_eq_true, if_false]
    have hmoreToSend : c.moreToSend = true := by rw [Client.moreToSend, hb]; rfl
    have hrest := (pollRest_moves (W := W) (hm.inv i) ((i.owns h).moves hm i)).trace_grows (hm.inv i)
    have hpoll : w.tcpServerPoll W p = (w.writeChunk W p c).1.deref c.handle fun client =>
        ((w.writeChunk W p c).1.pollIdle W p client).andThen fun w => w.deref c.handle fun client =>
          if client.closed then w.closeClient W p false else w := by
      unfold tcpServerPoll
      simp only [h, hpcb, if_true, hmoreToSend, hnext]
    obtain ⟨as, has⟩ := hrest
    rw [← hpoll, hwrite] at has
    refine ⟨[.write p sb.id bytes errOk] ++ as, bytes, ?_, List.mem_append_left _ List.mem_cons_self, hne⟩
    rw [← List.append_assoc]
    exact has.symm

/-- lwIP is out of memory once, at the moment `k`. -/
def refusedWorld (k : Nat) : World := { pageWorld with altcpWrite := fun n => if n = k then -1 else errOk }

theorem exists_client {w : Web} {p : Pcb} {P : Client → Prop} (hsome : (w.findClient p).isSome = true)
    (hall : ∀ c ∈ w.findClient p, P c) : ∃ c, w.findClient p = some c ∧ P c := by
  obtain ⟨c, hc⟩ := Option.isSome_iff_exists.1 hsome
  exact ⟨c, hc, hall c hc⟩

/-- The program sends to an open client and is refused; the next poll sends. -/
def resendRun : List Event := [.accept 1 0, .app (.sendData 1000 ⟨ascii "hi", by decide⟩ .alloc)]

theorem poll_writes_iff_resend :
    ∃ c, (runOf (refusedWorld 0) resendRun).findClient 1 = some c ∧
      ((∃ as bytes, ((runOf (refusedWorld 0) resendRun).step (refusedWorld 0) (.poll 1)).trace =
          (runOf (refusedWorld 0) resendRun).trace ++ as ∧ .write 1 0 bytes errOk ∈ as ∧ bytes ≠ []) ↔
        c.closed = false) := by
  obtain ⟨c, hc, hb⟩ := exists_client (w := runOf (refusedWorld 0) resendRun) (p := 1)
    (P := fun c => c.sendbuf = [SendBuf.new 0 (ascii "hi") .alloc]) (by decide) (by decide)
  exact ⟨c, hc, poll_writes_iff (runOf_reachable (by decide)) (by decide) hc hb (by decide) (by decide) (by decide)
    (by decide)⟩

/-- The page is requested while lwIP is out of memory: the client is closed, and no poll sends its page. -/
theorem poll_in_vain : ¬ ∀ (W : World) (w : Web) (p : Pcb) (c : Client) (sb : SendBuf) (rest : List SendBuf),
    Reachable W Allowed w → w.fault = none → w.findClient p = some c → c.sendbuf = sb :: rest → sb.sent < sb.size →
    sb.sent = sb.ack → 0 < (W.altcpSndbuf w.tick).toNat → W.altcpWrite w.tick = errOk →
    ∃ as bytes, (w.step W (.poll p)).trace = w.trace ++ as ∧ .write p sb.id bytes errOk ∈ as ∧ bytes ≠ [] := by
  intro h
  obtain ⟨c, hc, hb⟩ := exists_client (w := runOf (refusedWorld 1) (pageRun.take 2)) (p := 1)
    (P := fun c => c.sendbuf = [SendBuf.new 0 (ascii "hi") .alloc]) (by decide) (by decide)
  obtain ⟨as, bytes, htrace, hmem, -⟩ := h (refusedWorld 1) _ 1 c _ []
    (runOf_reachable (by decide)) (by decide) hc hb (by decide) (by decide) (by decide)
    (by decide)
  have hsame : ((runOf (refusedWorld 1) (pageRun.take 2)).step (refusedWorld 1) (.poll 1)).trace =
      (runOf (refusedWorld 1) (pageRun.take 2)).trace := by decide
  rw [hsame, List.self_eq_append_right] at htrace
  rw [htrace] at hmem
  cases hmem

end Web
end Pico
