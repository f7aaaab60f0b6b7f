import Picolibs.Delivery
/-!
# Register — who is registered, over every run

The two maps stay inverse and every new connection gets a free handle that is not zero (`registry_inverse`).  The
registered pcbs are those lwIP still has (`Tracked`) as long as `altcp_close` succeeds whenever the peer has closed; on
its own close the server keeps a connection that lwIP refuses to close, and tries again at every poll
(`registered_iff_up`).
-/
namespace Pico
namespace Web

open SendQueue
open Std (ExtTreeMap)

variable {W : World} {w : Web}

/-! ## The maps are inverse -/

/-- **The two maps are inverse**, a client knows its pcb until it is closed, and a new connection gets a client under a
handle that is neither zero nor in use. -/
theorem registry_inverse (hr : Reachable W Allowed w) :
    (∀ (p : Pcb) (h : ClientHandle), w.clientPCB[p]? = some h →
      ∃ c, w.clientHndl[h]? = some c ∧ c.handle = h ∧ c.pcb = if c.closed then 0 else p) ∧
    (∀ (h : ClientHandle) (c : Client), w.clientHndl[h]? = some c →
      ∃ p : Pcb, w.clientPCB[p]? = some h ∧ ∀ q : Pcb, w.clientPCB[q]? = some h → q = p) ∧
    ∀ p : Pcb, w.fault = none → p ≠ 0 → Allowed w (.accept p errOk) →
      ∃ h c, h ≠ 0 ∧ (∀ (k : ClientHandle) (d : Client), w.clientHndl[k]? = some d → d.handle ≠ h) ∧
        (w.step W (.accept p errOk)).trace = w.trace ++ [.accept p h] ∧
        (w.step W (.accept p errOk)).findClient p = some c ∧ c.handle = h ∧ c.pcb = p ∧ c.closed = false := by
  have i := inv_reachable (fun _ _ => id) hr
  refine ⟨?_, ?_, ?_⟩
  · intro p h hp
    exact (i.reg.leads p h hp).2.2
  · intro h c hc
    obtain ⟨p, hp⟩ := i.reg.led h c hc
    exact ⟨p, hp, fun q hq => i.reg.one q p h hq hp⟩
  · intro p hf hp0 ha
    rw [step_of_none hf]
    rcases accept_cases (W := W) i ha with ⟨-, hbad⟩ | ⟨-, -, hp, h, hh, he⟩
    · rcases hbad with hbad | hbad
      · exact absurd rfl hbad
      · exact absurd hbad hp0
    · obtain ⟨hne, hfree⟩ := newHandle_free hh
      refine ⟨h, newClient W w p h, hne, ?_, ?_, ?_, rfl, rfl, rfl⟩
      · rintro k d hd rfl
        rw [(i.reg.find_handle hd).1, findHandle, hd] at hfree
        cases hfree
      · simp only [he, addClient_eq ((i.reg.find_none).1 hp) hh]
      · simp only [he]
        rw [(i.addClient hp0 hp hh).2, if_pos rfl]

theorem registry_inverse_page :
    (∀ (p : Pcb) (h : ClientHandle), (runOf pageWorld [.accept 1 0]).clientPCB[p]? = some h →
      ∃ c, (runOf pageWorld [.accept 1 0]).clientHndl[h]? = some c ∧ c.handle = h ∧
        c.pcb = if c.closed then 0 else p) ∧
    ∃ h c, h ≠ 0 ∧
      (∀ (k : ClientHandle) (d : Client), (runOf pageWorld [.accept 1 0]).clientHndl[k]? = some d → d.handle ≠ h) ∧
      ((runOf pageWorld [.accept 1 0]).step pageWorld (.accept 2 errOk)).trace =
        (runOf pageWorld [.accept 1 0]).trace ++ [.accept 2 h] ∧
      ((runOf pageWorld [.accept 1 0]).step pageWorld (.accept 2 errOk)).findClient 2 = some c ∧
      c.handle = h ∧ c.pcb = 2 ∧ c.closed = false :=
  have h := registry_inverse (W := pageWorld) (w := runOf pageWorld [.accept 1 0]) (runOf_reachable (by decide))
  ⟨h.1, h.2.2 2 (by decide) (by decide) (by decide)⟩

/-! ## Registered and open -/

/-- The registered pcbs are the connections that lwIP has not closed and not lost. -/
def Tracked (w : Web) : Prop := ∀ p, (w.findClient p).isSome = (conn p w.trace).up

theorem Tracked.of_same {w' : Web} (h : w.Tracked) (hfind : ∀ q, (w'.findClient q).isSome = (w.findClient q).isSome)
    (hup : ∀ q, (conn q w'.trace).up = (conn q w.trace).up) : w'.Tracked := by
  intro q
  rw [hfind, hup]
  exact h q

/-- Acts that neither open a connection nor end one. -/
def keepsUp : Act → Bool
  | .accept _ _ => false
  | .close _ _ err => decide (err ≠ errOk)
  | .err _ => false
  | _ => true

theorem up_after {a : Act} (h : keepsUp a = true) (q : Pcb) (l : List Act) :
    (conn q (l ++ [a])).up = (conn q l).up := by
  rw [conn_snoc]
  cases a with
  | accept p k => cases h
  | err p => cases h
  | close p why err => rw [Conn.after, if_neg (fun e => of_decide_eq_true h e.2)]
  | queue p id data allocated => rw [Conn.after]; split <;> rfl
  | write p id data err => rw [Conn.after]; split <;> rfl
  | sent p len => rw [Conn.after]; split <;> rfl
  | _ => rfl

/-- The server's own close keeps track. -/
theorem Move.tracked {t : Turn} {w' : Web} (m : Move t w w') (i : w.Inv) (h : w.Tracked) : w'.Tracked := by
  -- a client written back is registered before and after
  have put {p : Pcb} {c : Client} (c' : Client) (hc : w.findClient p = some c) (hh : c'.handle = c.handle) (q : Pcb) :
      ((w.put c').findClient q).isSome = (w.findClient q).isSome := by
    rw [i.reg.findClient_put hc hh]
    split
    · next hq => rw [hq, hc]; rfl
    · rfl
  cases m with
  | tick n => exact h
  | fault f => exact h
  | null k => exact h.of_same (fun _ => rfl) fun q => up_after rfl q _
  | @activity p c now hc => exact h.of_same (put { c with lastActivity := now } hc rfl) fun _ => rfl
  | @queue p c data a hc ho hd =>
    exact h.of_same (put { c with sendbuf := c.sendbuf ++ [SendBuf.new w.serial data a] } hc rfl)
      fun q => up_after rfl q _
  | @pop p c sb rest hc hb ha =>
    exact h.of_same (put { c with sendbuf := rest } hc rfl) fun q => up_after rfl q _
  | @wrote p c sb rest count hc hb =>
    exact h.of_same (put { c with sendbuf := (sb.getNext count).2 :: rest } hc rfl)
      fun q => up_after rfl q _
  | refused p id data herr => exact h.of_same (fun _ => rfl) fun q => up_after rfl q _
  | @unknown p err hc =>
    intro q
    show (w.findClient q).isSome = (conn q (w.trace ++ [.close p .unknown err])).up
    rw [conn_snoc, Conn.after]
    split
    · next hq => rw [← hq.1, hc]; rfl
    · exact h q
  | request _ hc hs => exact h.of_same (put _ hc hs.handle) fun _ => rfl
  | @told p c a _ hc ha =>
    have hk : keepsUp a = true := by cases a <;> first | rfl | cases ha
    exact h.of_same (fun _ => rfl) fun q => up_after hk q _
  | setClosed _ hc => exact h.of_same (put _ hc rfl) fun _ => rfl
  | @kept p c err _ hc _ hb herr =>
    have hk : keepsUp (.close p .own err) = true := decide_eq_true herr
    exact h.of_same (fun _ => rfl) fun q => up_after hk q _
  | @gone p c _ hc hb =>
    have hreg : (w.record (.close p .own errOk)).Registered := ⟨i.reg.leads, i.reg.one, i.reg.led⟩
    have hc' : (w.record (.close p .own errOk)).findClient p = some c := hc
    intro q
    rw [hreg.findClient_deleteClient hc', hreg.deleteClient_eq hc']
    show _ = (conn q (w.trace ++ [.close p .own errOk] ++ releases p .deleted c.sendbuf)).up
    rw [conn_releases, conn_snoc, Conn.after]
    by_cases hq : q = p
    · rw [if_pos hq, if_pos ⟨hq.symm, rfl⟩]
      rfl
    · rw [if_neg hq, if_neg (fun e => hq e.1.symm)]
      exact h q
  | @acked p c sb rest len _ hc hb hlen =>
    exact h.of_same (put { c with sendbuf := (sb.acknowledge len).2 :: rest } hc rfl)
      fun q => up_after rfl q _
  | ackedNone _ _ => exact h.of_same (fun _ => rfl) fun q => up_after rfl q _

theorem Moves.tracked {t : Turn} {w' : Web} (m : Moves t w w') (i : w.Inv) (h : w.Tracked) : w'.Tracked := by
  induction m with
  | refl => exact h
  | tail ms m ih => exact m.tracked (Moves.inv ms i) ih

/-- When the peer closes a registered connection, `altcp_close` succeeds. -/
def PeerCloses (W : World) (w : Web) : Event → Prop
  | .recv p none => (w.findClient p).isSome = true → W.altcpClose w.tick = errOk
  | _ => True

instance decidablePeerCloses (W : World) (w : Web) : ∀ e, Decidable (PeerCloses W w e)
  | .recv p none => inferInstanceAs (Decidable ((w.findClient p).isSome = true → W.altcpClose w.tick = errOk))
  | .recv _ (some _) => isTrue trivial
  | .accept _ _ => isTrue trivial
  | .sent _ _ => isTrue trivial
  | .poll _ => isTrue trivial
  | .err _ => isTrue trivial
  | .app _ => isTrue trivial
  | .sendBuffer _ _ _ => isTrue trivial
  | .writeNext _ => isTrue trivial

/-- **A step keeps track of the open connections exactly when a closing peer's connection is closed.** -/
theorem tracked_step_iff (i : w.Inv) (hf : w.fault = none) (h : w.Tracked) {e : Event} (ha : Allowed w e) :
    (w.step W e).Tracked ↔ PeerCloses W w e := by
  cases step_cases (W := W) i hf ha with
  | moves m hnone =>
    have hpeer : PeerCloses W w e := by
      unfold PeerCloses
      split
      · next p =>
        intro hsome
        rw [hnone p rfl] at hsome
        cases hsome
      · trivial
    exact ⟨fun _ => hpeer, fun _ => m.tracked i h⟩
  | @opens p _ hp0 hp hh hfind ht =>
    refine ⟨fun _ => trivial, fun _ q => ?_⟩
    rw [hfind, ht, conn_snoc, Conn.after]
    by_cases hq : q = p
    · rw [if_pos hq, if_pos hq.symm]; rfl
    · rw [if_neg hq, if_neg (Ne.symm hq)]; exact h q
  | @unknown p hc hfind ht =>
    refine ⟨fun _ => trivial, fun _ q => ?_⟩
    rw [hfind, ht, conn_snoc, Conn.after]
    split
    · next hq => rw [← hq, hc]; rfl
    · exact h q
  | @loses p c _ a t hc hfind ht =>
    have hdown : (w.step W e).Tracked ↔ (conn p (w.trace ++ [a])).up = false := by
      constructor
      · intro htracked
        have hp := htracked p
        rw [hfind, if_pos rfl, ht, conn_releases] at hp
        exact hp.symm
      · intro hup q
        rw [hfind, ht, conn_releases]
        by_cases hq : q = p
        · rw [if_pos hq, hq, hup]; rfl
        · rw [if_neg hq, t.other hq]; exact h q
    rw [hdown, conn_snoc]
    cases t with
    | err => exact ⟨fun _ => trivial, fun _ => by rw [Conn.after, if_pos rfl]⟩
    | peer =>
      rw [Conn.after]
      constructor
      · intro hup _
        by_cases herr : W.altcpClose w.tick = errOk
        · exact herr
        · rw [if_neg (fun e => herr e.2), (i.inStep p c hc).up] at hup
          cases hup
      · intro hpeer
        rw [if_pos ⟨rfl, hpeer (by rw [hc]; rfl)⟩]

/-! ## A refused close is tried again -/

def unclosedAfter (p : Pcb) (b : Bool) : Act → Bool
  | .accept q _ => if q = p then false else b
  | .close q _ err => if q = p then decide (err ≠ errOk) else b
  | _ => b

/-- The last `altcp_close` of the connection failed. -/
def unclosed (p : Pcb) (trace : List Act) : Bool := trace.foldl (unclosedAfter p) false

theorem unclosed_snoc (p : Pcb) (l : List Act) (a : Act) :
    unclosed p (l ++ [a]) = unclosedAfter p (unclosed p l) a := by
  rw [unclosed, List.foldl_append]
  rfl

theorem unclosed_releases (p q : Pcb) (why : Releasing) (l : List Act) : ∀ bufs : List SendBuf,
    unclosed p (l ++ releases q why bufs) = unclosed p l
  | [] => by rw [releases, List.map_nil, List.append_nil]
  | sb :: bufs => by
    have h := unclosed_releases p q why (l ++ [.release q sb.id sb.allocated why]) bufs
    rw [List.append_assoc, unclosed_snoc] at h
    exact h

/-- A connection that lwIP refused to close is kept, closed and with nothing queued. -/
def Retried (w : Web) : Prop := ∀ p, (conn p w.trace).up = true → unclosed p w.trace = true →
  ∃ c, w.findClient p = some c ∧ c.closed = true ∧ c.sendbuf = []

/-- A client is changed, and nothing is said of closing it. -/
theorem Retried.of_put {w' : Web} (h : w.Retried) {p : Pcb} {c : Client} (c' : Client) (hc : w.findClient p = some c)
    (hfind : ∀ q, w'.findClient q = if q = p then some c' else w.findClient q)
    (hup : ∀ q, (conn q w'.trace).up = (conn q w.trace).up) (href : ∀ q, unclosed q w'.trace = unclosed q w.trace)
    (hkeep : c.closed = true → c.sendbuf = [] → c'.closed = true ∧ c'.sendbuf = []) : w'.Retried := by
  intro q hq hr
  rw [hup] at hq
  rw [href] at hr
  obtain ⟨d, hd, hclosed, hb⟩ := h q hq hr
  rw [hfind]
  by_cases hqp : q = p
  · subst hqp
    rw [hc] at hd
    cases hd
    exact ⟨c', if_pos rfl, hkeep hclosed hb⟩
  · exact ⟨d, by rw [if_neg hqp, hd], hclosed, hb⟩

/-- An act that says nothing of closing. -/
theorem Retried.of_record {w' : Web} (h : w.Retried) (hfind : ∀ q, w'.findClient q = w.findClient q)
    (hup : ∀ q, (conn q w'.trace).up = (conn q w.trace).up) (href : ∀ q, unclosed q w'.trace = unclosed q w.trace) :
    w'.Retried := by
  intro q hq hr
  rw [hup] at hq
  rw [href] at hr
  rw [hfind]
  exact h q hq hr

/-- A client with something queued is changed. -/
theorem Retried.of_queued {w' : Web} (h : w.Retried) {p : Pcb} {c : Client} {sb : SendBuf} {rest : List SendBuf}
    (c' : Client) (hc : w.findClient p = some c) (hb : c.sendbuf = sb :: rest)
    (hfind : ∀ q, w'.findClient q = if q = p then some c' else w.findClient q)
    (hup : ∀ q, (conn q w'.trace).up = (conn q w.trace).up) (href : ∀ q, unclosed q w'.trace = unclosed q w.trace) :
    w'.Retried := by
  refine h.of_put c' hc hfind hup href fun _ hnil => ?_
  rw [hb] at hnil
  cases hnil

/-- A pcb without a client is closed. -/
theorem Retried.unknown (h : w.Retried) (htr : w.Tracked) {p : Pcb} (hc : w.findClient p = none) (err : Int) :
    (w.record (.close p .unknown err)).Retried := by
  intro q hq hr
  have hup : (conn q (w.trace ++ [.close p .unknown err])).up = true := hq
  have href : unclosed q (w.trace ++ [.close p .unknown err]) = true := hr
  show ∃ c, w.findClient q = some c ∧ c.closed = true ∧ c.sendbuf = []
  have hpq : p ≠ q := by
    rintro rfl
    have hdown := htr p
    rw [hc] at hdown
    rw [conn_snoc, Conn.after] at hup
    split at hup
    · cases hup
    · rw [hup] at hdown
      cases hdown
  rw [conn_snoc, Conn.after, if_neg (fun e => hpq e.1)] at hup
  rw [unclosed_snoc, unclosedAfter, if_neg hpq] at href
  exact h q hup href

/-- The close is refused, and the client kept. -/
theorem Retried.kept (h : w.Retried) {p : Pcb} {c : Client} {err : Int} (hc : w.findClient p = some c)
    (hclosed : c.closed = true) (hb : c.sendbuf = []) (herr : err ≠ errOk) :
    (w.record (.close p .own err)).Retried := by
  have hk : keepsUp (.close p .own err) = true := decide_eq_true herr
  intro q hq hr
  by_cases hqp : q = p
  · subst hqp
    exact ⟨c, hc, hclosed, hb⟩
  · have hup : (conn q (w.trace ++ [.close p .own err])).up = true := hq
    have href : unclosed q (w.trace ++ [.close p .own err]) = true := hr
    rw [up_after hk] at hup
    rw [unclosed_snoc, unclosedAfter, if_neg (Ne.symm hqp)] at href
    exact h q hup href

/-- The client is closed and deleted. -/
theorem Retried.gone (h : w.Retried) (i : w.Inv) {p : Pcb} {c : Client} (hc : w.findClient p = some c) :
    ((w.record (.close p .own errOk)).deleteClient p).Retried := by
  have hreg : (w.record (.close p .own errOk)).Registered := ⟨i.reg.leads, i.reg.one, i.reg.led⟩
  have hc' : (w.record (.close p .own errOk)).findClient p = some c := hc
  intro q hq hr
  rw [hreg.findClient_deleteClient hc']
  rw [hreg.deleteClient_eq hc'] at hq hr
  have hup : (conn q (w.trace ++ [.close p .own errOk] ++ releases p .deleted c.sendbuf)).up = true := hq
  have href : unclosed q (w.trace ++ [.close p .own errOk] ++ releases p .deleted c.sendbuf) = true := hr
  rw [unclosed_releases, unclosed_snoc, unclosedAfter] at href
  rw [conn_releases, conn_snoc, Conn.after] at hup
  by_cases hqp : p = q
  · rw [if_pos hqp] at href
    cases href
  · rw [if_neg hqp] at href
    rw [if_neg (fun e => hqp e.1)] at hup
    rw [if_neg (Ne.symm hqp)]
    exact h q hup href

/-- **A refused connection stays as it is**, unless it is closed after all: no call of the program reaches a closed
client's queue. -/
theorem Move.retried {t : Turn} (ht : t.bare = false) {w' : Web} (m : Move t w w') (i : w.Inv) (htr : w.Tracked)
    (h : w.Retried) : w'.Retried := by
  cases m with
  | tick n => exact h
  | fault f => exact h
  | null k => exact h.of_record (fun _ => rfl) (fun q => up_after rfl q _) fun q => unclosed_snoc q _ _
  | @activity p c now hc =>
    exact h.of_put { c with lastActivity := now } hc (i.reg.findClient_put hc rfl) (fun _ => rfl) (fun _ => rfl)
      fun h1 h2 => ⟨h1, h2⟩
  | @queue p c data a hc ho hd =>
    refine h.of_put { c with sendbuf := c.sendbuf ++ [SendBuf.new w.serial data a] } hc
      (i.reg.findClient_put hc rfl) (fun q => up_after rfl q _) (fun q => unclosed_snoc q _ _) ?_
    intro hclosed
    rw [ho hclosed] at ht
    cases ht
  | @pop p c sb rest hc hb ha =>
    exact h.of_queued { c with sendbuf := rest } hc hb (i.reg.findClient_put hc rfl) (fun q => up_after rfl q _)
      fun q => unclosed_snoc q _ _
  | @wrote p c sb rest count hc hb =>
    exact h.of_queued { c with sendbuf := (sb.getNext count).2 :: rest } hc hb (i.reg.findClient_put hc rfl)
      (fun q => up_after rfl q _) fun q => unclosed_snoc q _ _
  | refused p id data herr => exact h.of_record (fun _ => rfl) (fun q => up_after rfl q _) fun q => unclosed_snoc q _ _
  | unknown err hc => exact h.unknown htr hc err
  | @request p c c' _ hc hs =>
    refine h.of_put c' hc (i.reg.findClient_put hc hs.handle) (fun _ => rfl) (fun _ => rfl) ?_
    rw [hs.closed, hs.sendbuf]
    exact fun h1 h2 => ⟨h1, h2⟩
  | @told p c a _ hc ha =>
    have hk : keepsUp a = true := by cases a <;> first | rfl | cases ha
    have hr (b : Bool) (q : Pcb) : unclosedAfter q b a = b := by cases a <;> first | rfl | cases ha
    exact h.of_record (fun _ => rfl) (fun q => up_after hk q _) fun q => (unclosed_snoc q _ _).trans (hr _ q)
  | @setClosed p c _ hc =>
    exact h.of_put c.setClosed hc (i.reg.findClient_put hc rfl) (fun _ => rfl) (fun _ => rfl)
      fun _ h2 => ⟨rfl, h2⟩
  | kept _ hc hclosed hb herr => exact h.kept hc hclosed hb herr
  | gone _ hc hb => exact h.gone i hc
  | @acked p c sb rest len _ hc hb hlen =>
    exact h.of_queued { c with sendbuf := (sb.acknowledge len).2 :: rest } hc hb (i.reg.findClient_put hc rfl)
      (fun q => up_after rfl q _) fun q => unclosed_snoc q _ _
  | ackedNone _ _ => exact h.of_record (fun _ => rfl) (fun q => up_after rfl q _) fun q => unclosed_snoc q _ _

theorem Moves.retried {t : Turn} (ht : t.bare = false) {w' : Web} (m : Moves t w w') (i : w.Inv) (htr : w.Tracked)
    (h : w.Retried) : w'.Retried := by
  induction m with
  | refl => exact h
  | tail ms m ih => exact m.retried ht (Moves.inv ms i) (Moves.tracked ms i htr) ih

/-- A connection that is down, or has not been refused yet, asks for nothing. -/
theorem Retried.of_other {w' : Web} (h : w.Retried) {p : Pcb}
    (hp : (conn p w'.trace).up = true → unclosed p w'.trace = true → False)
    (hfind : ∀ q, q ≠ p → w'.findClient q = w.findClient q)
    (hup : ∀ q, q ≠ p → (conn q w'.trace).up = (conn q w.trace).up)
    (href : ∀ q, q ≠ p → unclosed q w'.trace = unclosed q w.trace) : w'.Retried := by
  intro q hq hr
  by_cases hqp : q = p
  · subst hqp
    exact (hp hq hr).elim
  · rw [hup q hqp] at hq
    rw [href q hqp] at hr
    rw [hfind q hqp]
    exact h q hq hr

theorem retried_step (i : w.Inv) (hf : w.fault = none) (htr : w.Tracked) (h : w.Retried) {e : Event}
    (ha : Allowed w e) (hpeer : PeerCloses W w e) (hbare : e.turn.bare = false) : (w.step W e).Retried := by
  cases step_cases (W := W) i hf ha with
  | moves m _ => exact m.retried hbare i htr h
  | @opens p _ hp0 hp hh hfind ht =>
    refine h.of_other (p := p) ?_ (fun q hq => by rw [hfind, if_neg hq]) (fun q hq => ?_) (fun q hq => ?_)
    · intro _ hr
      rw [ht, unclosed_snoc, unclosedAfter, if_pos rfl] at hr
      cases hr
    · rw [ht, conn_snoc, Conn.after, if_neg (Ne.symm hq)]
    · rw [ht, unclosed_snoc, unclosedAfter, if_neg (Ne.symm hq)]
  | @unknown p hc hfind ht =>
    refine h.of_other (p := p) ?_ (fun q _ => hfind q) (fun q hq => ?_) (fun q hq => ?_)
    · intro hup _
      rw [ht, conn_snoc, Conn.after, if_pos rfl] at hup
      cases hup
    · rw [ht, conn_snoc, Conn.after, if_neg (Ne.symm hq)]
    · rw [ht, unclosed_snoc]; rfl
  | @loses p c _ a t hc hfind ht =>
    refine h.of_other (p := p) ?_ (fun q hq => by rw [hfind, if_neg hq]) (fun q hq => ?_) (fun q hq => ?_)
    · intro hup _
      rw [ht, conn_releases, conn_snoc] at hup
      cases t with
      | err =>
        rw [Conn.after, if_pos rfl] at hup
        cases hup
      | peer =>
        rw [Conn.after, if_pos ⟨rfl, hpeer (by rw [hc]; rfl)⟩] at hup
        cases hup
    · rw [ht, conn_releases, t.other hq]
    · rw [ht, unclosed_releases, unclosed_snoc]
      cases t with
      | err => rfl
      | peer => rw [unclosedAfter, if_neg (Ne.symm hq)]

/-- A poll of a closed client with nothing queued asks lwIP again to close it. -/
theorem poll_retries (i : w.Inv) {p : Pcb} {c : Client} (hc : w.findClient p = some c) (hclosed : c.closed = true)
    (hb : c.sendbuf = []) :
    (w.tcpServerPoll W p).trace = w.trace ++ [.close p .own (W.altcpClose w.tick)] := by
  have hpcb : c.pcb ≠ p := by
    have hp0 := (i.reg.find hc).2.2.1
    rcases i.reg.find_pcb hc with ⟨-, h0⟩ | ⟨hopen, -⟩
    · rw [h0]; exact hp0.symm
    · rw [hclosed] at hopen; cases hopen
  have hq : acknowledge 0 c.setClosed.sendbuf = ([], []) := by
    show acknowledge 0 c.sendbuf = _
    rw [hb, acknowledge]
  have hput : ({ c.setClosed with sendbuf := [] } : Client) = c.setClosed := by
    show _ = { c with closed := true, pcb := 0 }
    rw [← hb]
    rfl
  unfold tcpServerPoll
  simp only [hc, if_neg hpcb]
  unfold closeClient
  simp only [hc, Bool.not_false, if_true, hq, List.isEmpty_nil, hput]
  have htrace : (((w.put c.setClosed).recordAll []).record (.close p .own (W.altcpClose w.tick))).tock.trace =
      w.trace ++ [.close p .own (W.altcpClose w.tick)] := by
    show w.trace ++ [] ++ _ = _
    rw [List.append_nil]
  split
  · have i1 : (w.put c.setClosed).Inv := (Move.setClosed (t := .on p) rfl hc).inv i
    have hreg : (((w.put c.setClosed).recordAll []).record (.close p .own (W.altcpClose w.tick))).tock.Registered :=
      ⟨i1.reg.leads, i1.reg.one, i1.reg.led⟩
    have hfind : (((w.put c.setClosed).recordAll []).record (.close p .own (W.altcpClose w.tick))).tock.findClient p =
        some c.setClosed := i.find_put hc c.setClosed rfl
    show (deleteClient (((w.put c.setClosed).recordAll []).record
      (.close p .own (W.altcpClose w.tick))).tock p).trace = _
    rw [hreg.deleteClient_eq hfind]
    show _ ++ releases p .deleted c.sendbuf = _
    rw [htrace, hb]
    exact List.append_nil _
  · exact htrace

/-- The pcbs in `clientPCB_` are the connections that lwIP has not closed and not lost. -/
def RegisteredUp (w : Web) : Prop := ∀ p : Pcb, (w.clientPCB[p]?).isSome = (conn p w.trace).up

theorem registeredUp_iff (i : w.Inv) : w.RegisteredUp ↔ w.Tracked := by
  constructor
  · intro hw p
    rw [i.reg.find_isSome]
    exact hw p
  · intro hw p
    rw [← i.reg.find_isSome]
    exact hw p

/-- **The registered pcbs are the connections that lwIP still has**, in every run in which `altcp_close` succeeds
whenever the peer of a registered connection has closed; a connection whose last close was refused is closed again by
the next poll; and at any point of any run, that condition is what a step takes. -/
theorem registered_iff_up (W : World) :
    (∀ w, Reachable W (fun w e => Allowed w e ∧ PeerCloses W w e) w → w.RegisteredUp) ∧
    (∀ w, Reachable W (fun w e => Allowed w e ∧ PeerCloses W w e ∧ e.turn.bare = false) w → w.fault = none →
      ∀ p, (conn p w.trace).up = true → unclosed p w.trace = true →
        (w.step W (.poll p)).trace = w.trace ++ [.close p .own (W.altcpClose w.tick)]) ∧
    ∀ w e, Reachable W Allowed w → w.fault = none → Allowed w e → w.RegisteredUp →
      ((w.step W e).RegisteredUp ↔ PeerCloses W w e) := by
  have tracked_step {s : Web} {e : Event} (i : s.Inv) (ht : s.Tracked) (ha : Allowed s e) (hc : PeerCloses W s e) :
      (s.step W e).Tracked := by
    cases hf : s.fault with
    | some f => rw [step_of_fault hf]; exact ht
    | none => exact (tracked_step_iff i hf ht ha).2 hc
  have tracked_init : ({} : Web).Tracked := (registeredUp_iff inv_init).1 fun p => by
    show ((∅ : ExtTreeMap Pcb ClientHandle compare)[p]?).isSome = _
    rw [ExtTreeMap.getElem?_empty]
    rfl
  refine ⟨fun w hr => ?_, fun w hr hf p hup href => ?_, fun w e hr hf ha h => ?_⟩
  · suffices h : w.Inv ∧ w.Tracked from (registeredUp_iff h.1).2 h.2
    refine History.inv_of_reach (I := fun s => s.Inv ∧ s.Tracked) ⟨inv_init, tracked_init⟩ ?_ hr
    rintro s e ⟨i, ht⟩ ⟨ha, hc⟩
    exact ⟨inv_step i ha, tracked_step i ht ha hc⟩
  · obtain ⟨i, -, h⟩ : w.Inv ∧ w.Tracked ∧ w.Retried := by
      refine History.inv_of_reach (I := fun s => s.Inv ∧ s.Tracked ∧ s.Retried) ⟨inv_init, tracked_init, nofun⟩ ?_ hr
      rintro s e ⟨i, ht, h⟩ ⟨ha, hc, hb⟩
      refine ⟨inv_step i ha, tracked_step i ht ha hc, ?_⟩
      cases hf : s.fault with
      | some f => rw [step_of_fault hf]; exact h
      | none => exact retried_step i hf ht h ha hc hb
    obtain ⟨c, hc, hclosed, hb⟩ := h p hup href
    rw [step_of_none hf]
    exact poll_retries i hc hclosed hb
  · have i := inv_reachable (fun _ _ => id) hr
    rw [registeredUp_iff (inv_step i ha)]
    exact tracked_step_iff i hf ((registeredUp_iff i).1 h) ha

/-- lwIP refuses every close. -/
def stubbornWorld : World := { pageWorld with altcpClose := fun _ => -1 }

theorem registered_iff_up_page :
    (runOf stubbornWorld pageRun).RegisteredUp ∧
    ((runOf stubbornWorld pageRun).step stubbornWorld (.poll 1)).trace =
      (runOf stubbornWorld pageRun).trace ++ [.close 1 .own (-1)] ∧
    (((runOf stubbornWorld pageRun).step stubbornWorld (.recv 1 none)).RegisteredUp ↔
      PeerCloses stubbornWorld (runOf stubbornWorld pageRun) (.recv 1 none)) := by
  have h := registered_iff_up stubbornWorld
  have hup := h.1 (runOf stubbornWorld pageRun) (runOf_reachable (by decide))
  exact ⟨hup,
    h.2.1 (runOf stubbornWorld pageRun) (runOf_reachable (by decide)) (by decide) 1 (by decide) (by decide),
    h.2.2 (runOf stubbornWorld pageRun) (.recv 1 none) (runOf_reachable (by decide)) (by decide) trivial hup⟩

/-- The peer closes while lwIP is out of memory: the pcb is forgotten, and lwIP still has it. -/
theorem forgotten_pcb : ¬ ∀ (W : World) (w : Web), Reachable W Allowed w → w.RegisteredUp := by
  intro h
  have hp := h stubbornWorld (runOf stubbornWorld [.accept 1 0, .recv 1 none]) (runOf_reachable (by decide)) 1
  exact absurd hp (by decide)

end Web
end Pico
