import Mathlib.Data.List.Nodup
import Mathlib.Data.List.Perm.Subperm
import Picolibs.Paths
/-!
# Runs — accepting, losing a connection, and the invariant of every run

The three events that are not moves: `accept` registers a new client under a handle that is free
(`newHandle_isSome`: with fewer than 2^31 clients there is one), and an error or a close by the peer deletes a client
whatever is queued for it.  With the paths of the other callbacks, `inv_reachable` is the invariant of every run.
-/
namespace Pico
namespace Web

open SendQueue
open Std (ExtTreeMap)

variable {W : World} {w : Web} {p : Pcb} {c : Client}

/-! ## A free handle -/

theorem bump_ne_zero (h : ClientHandle) : bump h ≠ 0 := by
  unfold bump
  split
  · decide
  · next hne => exact hne

/-- A handle that is given out is free and not zero. -/
theorem newHandle_free {h : ClientHandle} (hn : w.newHandle = some h) : h ≠ 0 ∧ w.findHandle h = none := by
  refine Loop.run_inv (I := fun x => x ≠ 0) (Q := fun x => x ≠ 0 ∧ w.findHandle x = none) ?_ ?_ _ _ h
    (bump_ne_zero _) hn
  · intro x x' _ hs
    unfold handlePass at hs
    split at hs
    · cases hs
      exact bump_ne_zero x
    · cases hs
  · intro x r hx hs
    unfold handlePass at hs
    split at hs
    · cases hs
    · next hfree =>
      cases hs
      exact ⟨hx, Option.not_isSome_iff_eq_none.1 hfree⟩

/-- The handles that `nextHandle` tries, from the first on. -/
def tries (h : ClientHandle) : Nat → ClientHandle
  | 0 => h
  | n + 1 => bump (tries h n)

theorem tries_bump (h : ClientHandle) : ∀ n, tries (bump h) n = tries h (n + 1)
  | 0 => rfl
  | n + 1 => by rw [tries, tries_bump h n]; rfl

theorem toNat_bump (h : ClientHandle) : (bump h).toNat = if h.toNat + 1 = 2 ^ 32 then 1000 else h.toNat + 1 := by
  have hlt := h.toNat_lt
  have hadd : (h + 1).toNat = (h.toNat + 1) % 2 ^ 32 := by rw [UInt32.toNat_add]; rfl
  unfold bump
  by_cases hw : h.toNat + 1 = 2 ^ 32
  · have h0 : h + 1 = 0 := by
      apply UInt32.toNat_inj.1
      rw [hadd, hw]
      rfl
    rw [if_pos h0, if_pos hw]
    rfl
  · have h0 : h + 1 ≠ 0 := by
      intro e
      rw [e] at hadd
      have : (0 : UInt32).toNat = 0 := rfl
      omega
    rw [if_neg h0, if_neg hw, hadd]
    omega

/-- The cycle of handles is 2^32 - 1000 long, wherever it is entered. -/
theorem toNat_tries (h : ClientHandle) : ∀ n, n < 2 ^ 32 - 1000 →
    (tries h n).toNat = if h.toNat + n < 2 ^ 32 then h.toNat + n else h.toNat + n - 2 ^ 32 + 1000
  | 0, _ => by
    have := h.toNat_lt
    rw [tries, Nat.add_zero, if_pos this]
  | n + 1, hn => by
    have hlt := h.toNat_lt
    rw [tries, toNat_bump, toNat_tries h n (by omega)]
    split <;> split <;> split <;> omega

theorem tries_inj (h : ClientHandle) {i j : Nat} (hi : i < 2 ^ 32 - 1000) (hj : j < 2 ^ 32 - 1000)
    (he : tries h i = tries h j) : i = j := by
  have hlt := h.toNat_lt
  have := congrArg UInt32.toNat he
  rw [toNat_tries h i hi, toNat_tries h j hj] at this
  split at this <;> split at this <;> omega

/-- While it finds nothing, the loop has seen a client under every handle it tried. -/
theorem taken_of_run : ∀ (n : Nat) (h : ClientHandle), Loop.run w.handlePass n h = none →
    ∀ k < n, (w.findHandle (tries h k)).isSome = true
  | 0, _, _, k, hk => absurd hk (Nat.not_lt_zero k)
  | n + 1, h, hr, k, hk => by
    have hstep : (w.findHandle h).isSome = true := by
      cases hf : (w.findHandle h).isSome with
      | true => rfl
      | false =>
        have : w.handlePass h = .leave h := by unfold handlePass; rw [hf]; rfl
        rw [Loop.run_leave this] at hr
        cases hr
    have hagain : w.handlePass h = .again (bump h) := by unfold handlePass; rw [hstep]; rfl
    rw [Loop.run_again hagain] at hr
    cases k with
    | zero => exact hstep
    | succ k =>
      rw [← tries_bump]
      exact taken_of_run n (bump h) hr k (Nat.lt_of_succ_lt_succ hk)

/-- **There is always a free handle**: the loop would have seen more clients than there are. -/
theorem newHandle_isSome (hsize : w.clientHndl.size < 2 ^ 31) : ∃ h, w.newHandle = some h := by
  cases hr : w.newHandle with
  | some h => exact ⟨h, rfl⟩
  | none =>
    exfalso
    have htaken := taken_of_run _ _ hr
    have hnodup : ((List.range (w.clientHndl.size + 1)).map (tries (bump w.nextHandle))).Nodup := by
      refine List.Nodup.map_on ?_ List.nodup_range
      intro i hi j hj he
      rw [List.mem_range] at hi hj
      exact tries_inj _ (by omega) (by omega) he
    have hsub : ((List.range (w.clientHndl.size + 1)).map (tries (bump w.nextHandle))) ⊆ w.clientHndl.keys := by
      intro x hx
      obtain ⟨k, hk, rfl⟩ := List.mem_map.1 hx
      rw [List.mem_range] at hk
      rw [ExtTreeMap.mem_keys, ExtTreeMap.mem_iff_isSome_getElem?]
      exact htaken k hk
    have hle := (hnodup.subperm hsub).length_le
    rw [List.length_map, List.length_range, ExtTreeMap.length_keys] at hle
    omega

/-! ## Accepting -/

theorem addClient_eq {h : ClientHandle} (hp : w.clientPCB[p]? = none) (hh : w.newHandle = some h) :
    w.addClient W p = { w with
      clientPCB := w.clientPCB.insertIfNew p h
      clientHndl := w.clientHndl.insertIfNew h (newClient W w p h)
      nextHandle := h
      trace := w.trace ++ [.accept p h] } := by
  unfold addClient
  simp only [hp, hh]
  rfl

theorem getElem?_insertIfNew_pcb (m : ExtTreeMap Pcb ClientHandle compare) {q : Pcb} {h : ClientHandle}
    (hq : m[q]? = none) (k : Pcb) : (m.insertIfNew q h)[k]? = if q = k then some h else m[k]? := by
  have hnot : q ∉ m := fun hm => by rw [ExtTreeMap.mem_iff_isSome_getElem?, hq] at hm; cases hm
  simp only [ExtTreeMap.getElem?_insertIfNew, Std.LawfulEqCmp.compare_eq_iff_eq]
  by_cases hk : q = k
  · rw [if_pos ⟨hk, hnot⟩, if_pos hk]
  · rw [if_neg (fun e => hk e.1), if_neg hk]

theorem getElem?_insertIfNew_handle (m : ExtTreeMap ClientHandle Client compare) {h : ClientHandle} {d : Client}
    (hh : m[h]? = none) (k : ClientHandle) : (m.insertIfNew h d)[k]? = if h = k then some d else m[k]? := by
  have hnot : h ∉ m := fun hm => by rw [ExtTreeMap.mem_iff_isSome_getElem?, hh] at hm; cases hm
  simp only [ExtTreeMap.getElem?_insertIfNew, Std.LawfulEqCmp.compare_eq_iff_eq]
  by_cases hk : h = k
  · rw [if_pos ⟨hk, hnot⟩, if_pos hk]
  · rw [if_neg (fun e => hk e.1), if_neg hk]

/-- **A new connection gets a client of its own.** -/
theorem Inv.addClient (i : w.Inv) {h : ClientHandle} (hp0 : p ≠ 0) (hp : w.findClient p = none)
    (hh : w.newHandle = some h) :
    (w.addClient W p).Inv ∧
      ∀ q, (w.addClient W p).findClient q = if q = p then some (newClient W w p h) else w.findClient q := by
  obtain ⟨hne, hfree⟩ := newHandle_free hh
  rw [findHandle] at hfree
  rw [i.reg.find_none] at hp
  have hhandle (q : Pcb) : w.clientPCB[q]? ≠ some h := by
    intro hq
    obtain ⟨-, -, d, hd, -⟩ := i.reg.leads q h hq
    rw [hfree] at hd
    cases hd
  rw [addClient_eq hp hh]
  have hfind (q : Pcb) : findClient { w with
      clientPCB := w.clientPCB.insertIfNew p h
      clientHndl := w.clientHndl.insertIfNew h (newClient W w p h)
      nextHandle := h
      trace := w.trace ++ [.accept p h] } q = if q = p then some (newClient W w p h) else w.findClient q := by
    unfold findClient findHandle
    simp only [getElem?_insertIfNew_pcb _ hp, getElem?_insertIfNew_handle _ hfree]
    by_cases hq : q = p
    · rw [if_pos hq, if_pos hq.symm, Option.bind_some, if_pos rfl]
    · rw [if_neg hq, if_neg (Ne.symm hq)]
      cases hk : w.clientPCB[q]? with
      | none => rfl
      | some k =>
        have hkh : h ≠ k := fun e => hhandle q (by rw [hk, e])
        rw [Option.bind_some, Option.bind_some, if_neg hkh]
  refine ⟨⟨⟨?_, ?_, ?_⟩, ?_⟩, hfind⟩
  · intro q k hq
    simp only [getElem?_insertIfNew_pcb _ hp] at hq
    by_cases hpq : p = q
    · rw [if_pos hpq] at hq
      cases hq
      refine ⟨hpq ▸ hp0, hne, newClient W w p h, ?_, rfl, hpq⟩
      simp only [getElem?_insertIfNew_handle _ hfree, if_true]
    · rw [if_neg hpq] at hq
      obtain ⟨hq0, hk0, d, hd, hdh⟩ := i.reg.leads q k hq
      refine ⟨hq0, hk0, d, ?_, hdh⟩
      have hkh : h ≠ k := fun e => hhandle q (by rw [hq, e])
      simp only [getElem?_insertIfNew_handle _ hfree, if_neg hkh, hd]
  · intro q q' k hq hq'
    simp only [getElem?_insertIfNew_pcb _ hp] at hq hq'
    split at hq <;> split at hq'
    · next e e' => exact e.symm.trans e'
    · cases hq
      exact absurd hq' (hhandle q')
    · cases hq'
      exact absurd hq (hhandle q)
    · exact i.reg.one q q' k hq hq'
  · intro k d hd
    simp only [getElem?_insertIfNew_handle _ hfree] at hd
    split at hd
    · next hk => exact ⟨p, by simp only [getElem?_insertIfNew_pcb _ hp, if_true, hk]⟩
    · obtain ⟨q, hq⟩ := i.reg.led k d hd
      refine ⟨q, ?_⟩
      have hpq : p ≠ q := by
        rintro rfl
        rw [hp] at hq
        cases hq
      simp only [getElem?_insertIfNew_pcb _ hp, if_neg hpq, hq]
  · intro q d hd
    rw [hfind] at hd
    show InStep (conn q (w.trace ++ [.accept p h])) d.sendbuf w.serial
    rw [conn_snoc, Conn.after]
    by_cases hq : q = p
    · rw [if_pos hq] at hd
      cases hd
      rw [if_pos hq.symm]
      exact ⟨rfl, rfl, ⟨Queue.empty, List.Forall₂.nil, Queue.holds_empty⟩, List.nodup_nil, List.forall_mem_nil _⟩
    · rw [if_neg hq] at hd
      rw [if_neg (Ne.symm hq)]
      exact i.inStep q d hd

/-- What an accepted connection is: a pcb that was not registered, and a handle. -/
theorem accept_cases (i : w.Inv) {err : Int} (ha : Allowed w (.accept p err)) :
    (w.tcpServerAccept W p err = w ∧ (err ≠ errOk ∨ p = 0)) ∨
      (err = errOk ∧ p ≠ 0 ∧ w.findClient p = none ∧ ∃ h, w.newHandle = some h ∧
        w.tcpServerAccept W p err = w.addClient W p) := by
  unfold tcpServerAccept
  by_cases hr : err ≠ errOk ∨ p = 0
  · exact Or.inl ⟨if_pos hr, hr⟩
  · right
    rw [not_or, not_not] at hr
    obtain ⟨hdown, hsize⟩ := ha hr.1
    obtain ⟨h, hh⟩ := newHandle_isSome hsize
    refine ⟨hr.1, hr.2, ?_, h, hh, if_neg (by rw [not_or, not_not]; exact hr)⟩
    cases hc : w.findClient p with
    | none => rfl
    | some c =>
      have := (i.inStep p c hc).up
      rw [hdown] at this
      cases this

/-! ## Losing a connection -/

theorem peerClose_eq (h : w.findClient p = some c) :
    w.closeClient W p true =
      (((w.put c.setClosed).record (.close p .peer (W.altcpClose w.tick))).tock).deleteClient p := by
  unfold closeClient
  rw [h]
  rfl

theorem peerClose_none (h : w.findClient p = none) : w.closeClient W p true = w := by
  unfold closeClient
  rw [h]
  rfl

/-- The trace and the clients after the peer closed a registered connection. -/
theorem Inv.peerClose (i : w.Inv) (h : w.findClient p = some c) :
    (w.closeClient W p true).Inv ∧
      (∀ q, (w.closeClient W p true).findClient q = if q = p then none else w.findClient q) ∧
      (w.closeClient W p true).trace =
        w.trace ++ [.close p .peer (W.altcpClose w.tick)] ++ releases p .deleted c.sendbuf := by
  have h1 : Moves (.on p) w (w.put c.setClosed) := Moves.one (.setClosed rfl h)
  have i1 := h1.inv i
  have hf := i.find_put h c.setClosed rfl
  have i2 : ((w.put c.setClosed).tock).Inv := (Moves.one (t := .call) (.tick _)).inv i1
  have hreg : ((w.put c.setClosed).record (.close p .peer (W.altcpClose w.tick))).tock.Registered :=
    ⟨i1.reg.leads, i1.reg.one, i1.reg.led⟩
  have hf' : ((w.put c.setClosed).record (.close p .peer (W.altcpClose w.tick))).tock.findClient p =
      some c.setClosed := hf
  rw [peerClose_eq h]
  refine ⟨?_, ?_, ?_⟩
  · refine i2.delete [.close p .peer (W.altcpClose w.tick)] hf ?_
    intro q hq
    rw [conn_snoc, Conn.after, if_neg (fun e => hq e.1.symm)]
  · intro q
    rw [hreg.findClient_deleteClient hf']
    by_cases hq : q = p
    · rw [if_pos hq, if_pos hq]
    · rw [if_neg hq, if_neg hq]
      show (w.put c.setClosed).findClient q = _
      rw [i.reg.findClient_put h (rfl : c.setClosed.handle = c.handle), if_neg hq]
  · rw [hreg.deleteClient_eq hf']
    rfl

theorem err_none (h : w.findClient p = none) : w.tcpServerErr p = w.record (.err p) := by
  have hf : (w.record (.err p)).findClient p = none := h
  unfold tcpServerErr
  simp only [hf]

/-- The trace and the clients after an error on a registered connection. -/
theorem Inv.err (i : w.Inv) (h : w.findClient p = some c) :
    (w.tcpServerErr p).Inv ∧
      (∀ q, (w.tcpServerErr p).findClient q = if q = p then none else w.findClient q) ∧
      (w.tcpServerErr p).trace = w.trace ++ [.err p] ++ releases p .deleted c.sendbuf := by
  have hreg : (w.record (.err p)).Registered := ⟨i.reg.leads, i.reg.one, i.reg.led⟩
  have hf : (w.record (.err p)).findClient p = some c := h
  have he : w.tcpServerErr p = (w.record (.err p)).deleteClient p := by
    unfold tcpServerErr
    simp only [hf]
  rw [he]
  refine ⟨?_, hreg.findClient_deleteClient hf, ?_⟩
  · refine i.delete [.err p] h ?_
    intro q hq
    rw [conn_snoc, Conn.after, if_neg (Ne.symm hq)]
  · rw [hreg.deleteClient_eq hf]
    rfl

/-! ## Steps and runs -/

end Web

def Event.turn : Event → Web.Turn
  | .accept p _ => .on p
  | .recv p _ => .on p
  | .sent p _ => .on p
  | .poll p => .on p
  | .err p => .on p
  | .app _ => .call
  | .sendBuffer p _ _ => .alone p
  | .writeNext p => .alone p

/-- The events that only move. -/
def Event.moving : Event → Bool
  | .accept _ _ => false
  | .recv _ none => false
  | .err _ => false
  | _ => true

namespace Web

variable {W : World} {w : Web}

/-- **Every other event is a sequence of moves.** -/
theorem step_moves (i : w.Inv) {e : Event} (ha : Allowed w e) (hm : e.moving = true) :
    Moves e.turn w (w.step W e) := by
  unfold step
  refine andThen_moves (Moves.refl _ _) ?_
  cases e with
  | accept p err => cases hm
  | recv p segment =>
    cases segment with
    | none => cases hm
    | some data => exact recv_moves i data.val
  | sent p len => exact sent_moves i ha
  | poll p => exact poll_moves i
  | err p => cases hm
  | app a => exact call_moves i a
  | sendBuffer p data allocated => exact sendBuffer_moves i (queueing_alone w p) _ _ _
  | writeNext p => exact writeNext_moves i (queueing_alone w p).1

theorem step_of_fault {f : Fault} (hf : w.fault = some f) (e : Event) : w.step W e = w := by
  unfold step andThen
  rw [hf]
  rfl

theorem step_of_none (hf : w.fault = none) (e : Event) : w.step W e =
    match e with
    | .accept pcb err => w.tcpServerAccept W pcb err
    | .recv pcb segment => w.tcpServerRecv W pcb (segment.map Subtype.val)
    | .sent pcb len => w.tcpServerSent W pcb len
    | .poll pcb => w.tcpServerPoll W pcb
    | .err pcb => w.tcpServerErr pcb
    | .app c => w.call W c
    | .sendBuffer pcb data allocated => w.sendBuffer W pcb data.val data.val.length allocated
    | .writeNext pcb => w.writeNext W pcb := by
  unfold step andThen
  rw [hf]
  rfl

theorem inv_init : ({} : Web).Inv := by
  refine ⟨registered_init, ?_⟩
  intro p c hc
  rw [(registered_init.find_none).2 (by simp)] at hc
  cases hc

/-- The event takes the connection `p` away, and the trace says so. -/
inductive Takes (W : World) (w : Web) (p : Pcb) : Event → Act → Prop where
  | err : Takes W w p (.err p) (.err p)
  | peer : Takes W w p (.recv p none) (.close p .peer (W.altcpClose w.tick))

theorem Takes.other {e : Event} {a : Act} (t : Takes W w p e a) {q : Pcb} (hq : q ≠ p) (l : List Act) :
    conn q (l ++ [a]) = conn q l := by
  rw [conn_snoc]
  cases t with
  | err => rw [Conn.after, if_neg (Ne.symm hq)]
  | peer => rw [Conn.after, if_neg (fun e => hq e.1.symm)]

/-- A step: moves, or a connection comes, or one that is not registered is lost, or a registered one goes. -/
inductive Stepped (W : World) (w w' : Web) : Event → Prop where
  | moves {e : Event} : Moves e.turn w w' → (∀ p, e = .recv p none → w.findClient p = none) → Stepped W w w' e
  | opens {p : Pcb} {h : ClientHandle} : p ≠ 0 → w.findClient p = none → w.newHandle = some h →
      (∀ q, w'.findClient q = if q = p then some (newClient W w p h) else w.findClient q) →
      w'.trace = w.trace ++ [.accept p h] → Stepped W w w' (.accept p errOk)
  | unknown {p : Pcb} : w.findClient p = none → (∀ q, w'.findClient q = w.findClient q) →
      w'.trace = w.trace ++ [.err p] → Stepped W w w' (.err p)
  | loses {p : Pcb} {c : Client} {e : Event} {a : Act} : Takes W w p e a → w.findClient p = some c →
      (∀ q, w'.findClient q = if q = p then none else w.findClient q) →
      w'.trace = w.trace ++ [a] ++ releases p .deleted c.sendbuf → Stepped W w w' e

/-- **What a step keeps, and what it can do.** -/
theorem step_spec (i : w.Inv) (hf : w.fault = none) {e : Event} (ha : Allowed w e) :
    (w.step W e).Inv ∧ Stepped W w (w.step W e) e := by
  cases hm : e.moving with
  | true =>
    have m := step_moves (W := W) i ha hm
    refine ⟨m.inv i, .moves m fun p he => ?_⟩
    rw [he] at hm
    cases hm
  | false =>
    rw [step_of_none hf]
    cases e with
    | accept p err =>
      rcases accept_cases (W := W) i ha with ⟨he, -⟩ | ⟨rfl, hp0, hp, h, hh, he⟩
      · simp only [he]
        exact ⟨i, .moves (Moves.refl _ _) fun _ he => by cases he⟩
      · obtain ⟨i', hfind⟩ := i.addClient (W := W) hp0 hp hh
        simp only [he]
        exact ⟨i', .opens hp0 hp hh hfind (by rw [addClient_eq (i.reg.find_none.1 hp) hh])⟩
    | recv p segment =>
      cases segment with
      | some data => cases hm
      | none =>
        show (w.closeClient W p true).Inv ∧ Stepped W w (w.closeClient W p true) _
        cases hc : w.findClient p with
        | none =>
          rw [peerClose_none hc]
          exact ⟨i, .moves (Moves.refl _ _) fun q he => by cases he; exact hc⟩
        | some c =>
          obtain ⟨i', hfind, ht⟩ := i.peerClose (W := W) hc
          exact ⟨i', .loses .peer hc hfind ht⟩
    | err p =>
      cases hc : w.findClient p with
      | none =>
        simp only [err_none hc]
        refine ⟨i.record fun q d hd => ?_, .unknown hc (fun _ => rfl) rfl⟩
        rw [Conn.after, if_neg]
        rintro rfl
        rw [hc] at hd
        cases hd
      | some c =>
        obtain ⟨i', hfind, ht⟩ := i.err hc
        exact ⟨i', .loses .err hc hfind ht⟩
    | sent p len => cases hm
    | poll p => cases hm
    | app a => cases hm
    | sendBuffer p data allocated => cases hm
    | writeNext p => cases hm

theorem inv_step (i : w.Inv) {e : Event} (ha : Allowed w e) : (w.step W e).Inv := by
  cases hfault : w.fault with
  | some f => rw [step_of_fault hfault]; exact i
  | none => exact (step_spec i hfault ha).1

theorem step_cases (i : w.Inv) (hf : w.fault = none) {e : Event} (ha : Allowed w e) : Stepped W w (w.step W e) e :=
  (step_spec i hf ha).2

/-- **The invariant of every run.** -/
theorem inv_reachable {ok : Web → Event → Prop} (hok : ∀ w e, ok w e → Allowed w e) (hr : Reachable W ok w) :
    w.Inv :=
  History.inv_of_reach inv_init (fun _ _ i h => inv_step i (hok _ _ h)) hr

end Web
end Pico
