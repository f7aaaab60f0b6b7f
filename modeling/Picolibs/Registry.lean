import Picolibs.Conn
/-!
# Registry — the two maps are one injective map from pcbs to clients

`Registered` says that `clientPCB_` and `clientHndl_` are mutually inverse, so that together they are the map
`findClient`.  What the functions do to the maps is stated once as what they do to `findClient` (`findClient_put`,
`findClient_deleteClient`); nothing later looks inside the maps again.
-/
namespace Pico
namespace Web

open Std (ExtTreeMap)

/-- Every registered pcb leads to the one client that has its handle, every client is led to by one pcb, and a client
knows its pcb until it is closed. -/
structure Registered (w : Web) : Prop where
  leads : ∀ (p : Pcb) (h : ClientHandle), w.clientPCB[p]? = some h →
    p ≠ 0 ∧ h ≠ 0 ∧ ∃ c, w.clientHndl[h]? = some c ∧ c.handle = h ∧ c.pcb = if c.closed then 0 else p
  one : ∀ (p q : Pcb) (h : ClientHandle), w.clientPCB[p]? = some h → w.clientPCB[q]? = some h → p = q
  led : ∀ (h : ClientHandle) (c : Client), w.clientHndl[h]? = some c → ∃ p : Pcb, w.clientPCB[p]? = some h

/-! ## The maps -/

theorem getElem?_insert_handle (m : ExtTreeMap ClientHandle Client compare) (h k : ClientHandle) (c : Client) :
    (m.insert h c)[k]? = if h = k then some c else m[k]? := by
  simp only [ExtTreeMap.getElem?_insert, Std.LawfulEqCmp.compare_eq_iff_eq]

theorem getElem?_erase_handle (m : ExtTreeMap ClientHandle Client compare) (h k : ClientHandle) :
    (m.erase h)[k]? = if h = k then none else m[k]? := by
  simp only [ExtTreeMap.getElem?_erase, Std.LawfulEqCmp.compare_eq_iff_eq]

theorem getElem?_erase_pcb (m : ExtTreeMap Pcb ClientHandle compare) (p q : Pcb) :
    (m.erase p)[q]? = if p = q then none else m[q]? := by
  simp only [ExtTreeMap.getElem?_erase, Std.LawfulEqCmp.compare_eq_iff_eq]

theorem findHandle_put (w : Web) (c : Client) (h : ClientHandle) :
    (w.put c).findHandle h = if c.handle = h then some c else w.findHandle h :=
  getElem?_insert_handle w.clientHndl c.handle h c

@[simp] theorem tick_put (w : Web) (c : Client) : (w.put c).tick = w.tick := rfl

@[simp] theorem tick_recordAll (w : Web) (as : List Act) : (w.recordAll as).tick = w.tick := rfl

@[simp] theorem clientPCB_put (w : Web) (c : Client) : (w.put c).clientPCB = w.clientPCB := rfl

/-- Of two writes through one reference the second stays. -/
theorem put_put (w : Web) (c c' : Client) (h : c.handle = c'.handle) : (w.put c).put c' = w.put c' := by
  have : (w.clientHndl.insert c.handle c).insert c'.handle c' = w.clientHndl.insert c'.handle c' := by
    apply ExtTreeMap.ext_getElem?
    intro k
    rw [getElem?_insert_handle, getElem?_insert_handle, getElem?_insert_handle, h]
    split <;> rfl
  unfold put
  rw [this]

/-- Writing back what is there changes nothing. -/
theorem put_self {w : Web} {c : Client} (h : w.clientHndl[c.handle]? = some c) : w.put c = w := by
  have : w.clientHndl.insert c.handle c = w.clientHndl := by
    apply ExtTreeMap.ext_getElem?
    intro k
    rw [getElem?_insert_handle]
    split
    · next hk => rw [← hk, h]
    · rfl
  unfold put
  rw [this]

/-! ## `findClient` -/

theorem findClient_eq_some {w : Web} {p : Pcb} {c : Client} :
    w.findClient p = some c ↔ ∃ h, w.clientPCB[p]? = some h ∧ w.clientHndl[h]? = some c := by
  unfold findClient findHandle
  exact Option.bind_eq_some_iff

theorem findClient_of_pcb {w : Web} {p : Pcb} {h : ClientHandle} (hp : w.clientPCB[p]? = some h) :
    w.findClient p = w.findHandle h := by
  rw [findClient, hp, Option.bind_some]

namespace Registered

variable {w : Web}

theorem find (r : w.Registered) {p : Pcb} {c : Client} (h : w.findClient p = some c) :
    w.clientPCB[p]? = some c.handle ∧ w.findHandle c.handle = some c ∧ p ≠ 0 ∧ c.handle ≠ 0 ∧
      c.pcb = if c.closed then 0 else p := by
  obtain ⟨k, hp, hk⟩ := findClient_eq_some.1 h
  obtain ⟨hp0, hk0, c', hc', hh, hpcb⟩ := r.leads p k hp
  rw [hk] at hc'
  cases hc'
  subst hh
  exact ⟨hp, hk, hp0, hk0, hpcb⟩

/-- A pcb is registered exactly when it leads to a client. -/
theorem find_isSome (r : w.Registered) (p : Pcb) : (w.findClient p).isSome = (w.clientPCB[p]?).isSome := by
  cases hp : w.clientPCB[p]? with
  | none => rw [findClient, hp]; rfl
  | some h =>
    obtain ⟨-, -, c, hc, -⟩ := r.leads p h hp
    rw [findClient_of_pcb hp, findHandle, hc]
    rfl

theorem find_none (r : w.Registered) {p : Pcb} : w.findClient p = none ↔ w.clientPCB[p]? = none := by
  have := r.find_isSome p
  cases hp : w.clientPCB[p]? <;> cases hc : w.findClient p <;> simp_all

theorem find_handle (r : w.Registered) {h : ClientHandle} {c : Client} (hc : w.findHandle h = some c) :
    c.handle = h ∧ ∃ p, w.findClient p = some c := by
  obtain ⟨p, hp⟩ := r.led h c hc
  have hf : w.findClient p = some c := by rw [findClient_of_pcb hp, hc]
  obtain ⟨hp', -⟩ := r.find hf
  rw [hp] at hp'
  exact ⟨(Option.some.inj hp').symm, p, hf⟩

/-- Two pcbs never lead to one client. -/
theorem find_inj (r : w.Registered) {p q : Pcb} {c d : Client} (hc : w.findClient p = some c)
    (hd : w.findClient q = some d) (h : c.handle = d.handle) : p = q := by
  have hp := (r.find hc).1
  have hq := (r.find hd).1
  rw [← h] at hq
  exact r.one p q c.handle hp hq

/-- The null pointer is not registered. -/
theorem find_zero (r : w.Registered) : w.findClient 0 = none := by
  cases h : w.findClient 0 with
  | none => rfl
  | some c => exact absurd rfl (r.find h).2.2.1

/-- **The pcb of a client is no pcb, or its own**, and then it is open. -/
theorem find_pcb (r : w.Registered) {p : Pcb} {c : Client} (h : w.findClient p = some c) :
    (c.closed = true ∧ c.pcb = 0) ∨ (c.closed = false ∧ c.pcb = p) := by
  have := (r.find h).2.2.2.2
  cases hc : c.closed with
  | true => left; rw [hc] at this; exact ⟨rfl, this⟩
  | false => right; rw [hc] at this; exact ⟨rfl, this⟩

/-! ## A write through a reference -/

theorem findClient_put (r : w.Registered) {p : Pcb} {c c' : Client} (h : w.findClient p = some c)
    (hh : c'.handle = c.handle) (q : Pcb) :
    (w.put c').findClient q = if q = p then some c' else w.findClient q := by
  by_cases hq : q = p
  · rw [if_pos hq, hq, findClient_of_pcb (w := w.put c') (r.find h).1, findHandle_put, if_pos hh]
  · rw [if_neg hq]
    cases hd : w.findClient q with
    | none =>
      rw [findClient, clientPCB_put, r.find_none.1 hd]
      rfl
    | some d =>
      have hne : c'.handle ≠ d.handle := fun e => hq (r.find_inj hd h (by rw [← e, hh]))
      rw [findClient_of_pcb (w := w.put c') (r.find hd).1, findHandle_put, if_neg hne, (r.find hd).2.1]

theorem put (r : w.Registered) {p : Pcb} {c c' : Client} (h : w.findClient p = some c) (hh : c'.handle = c.handle)
    (hpcb : c'.pcb = if c'.closed then 0 else p) : (w.put c').Registered := by
  constructor
  · intro q k hq
    obtain ⟨hq0, hk0, d, hd, hdh, hdp⟩ := r.leads q k hq
    refine ⟨hq0, hk0, ?_⟩
    by_cases hk : c'.handle = k
    · have hqp : q = p := by
        apply r.one q p k hq
        rw [← hk, hh]
        exact (r.find h).1
      refine ⟨c', ?_, hk, by rw [hqp]; exact hpcb⟩
      rw [Web.put, getElem?_insert_handle, if_pos hk]
    · refine ⟨d, ?_, hdh, hdp⟩
      rw [Web.put, getElem?_insert_handle, if_neg hk, hd]
  · exact r.one
  · intro k d hd
    rw [Web.put, getElem?_insert_handle] at hd
    by_cases hk : c'.handle = k
    · exact ⟨p, by rw [← hk, hh]; exact (r.find h).1⟩
    · rw [if_neg hk] at hd
      exact r.led k d hd

/-! ## Deleting a client -/

/-- What `deleteClient` does when there is a client to delete. -/
theorem deleteClient_eq (r : w.Registered) {p : Pcb} {c : Client} (h : w.findClient p = some c) :
    w.deleteClient p = { w with
      clientHndl := w.clientHndl.erase c.handle
      clientPCB := w.clientPCB.erase p
      trace := w.trace ++ releases p .deleted c.sendbuf } := by
  obtain ⟨hp, hc, -⟩ := r.find h
  unfold Web.deleteClient
  simp only [hp]
  rw [findHandle] at hc
  simp only [hc]

theorem findClient_deleteClient (r : w.Registered) {p : Pcb} {c : Client} (h : w.findClient p = some c) (q : Pcb) :
    (w.deleteClient p).findClient q = if q = p then none else w.findClient q := by
  rw [r.deleteClient_eq h]
  by_cases hq : q = p
  · rw [if_pos hq, hq, findClient]
    simp only [getElem?_erase_pcb, if_true]
    rfl
  · rw [if_neg hq]
    cases hd : w.findClient q with
    | none =>
      rw [findClient]
      simp only [getElem?_erase_pcb, if_neg (Ne.symm hq), r.find_none.1 hd]
      rfl
    | some d =>
      have hne : c.handle ≠ d.handle := fun e => hq (r.find_inj hd h e.symm)
      obtain ⟨hqd, hdh, -⟩ := r.find hd
      rw [findHandle] at hdh
      rw [findClient_eq_some]
      refine ⟨d.handle, ?_, ?_⟩
      · simp only [getElem?_erase_pcb, if_neg (Ne.symm hq), hqd]
      · simp only [getElem?_erase_handle, if_neg hne, hdh]

theorem findHandle_deleteClient (r : w.Registered) {p : Pcb} {c : Client} (h : w.findClient p = some c) :
    (w.deleteClient p).findHandle c.handle = none := by
  rw [r.deleteClient_eq h, findHandle]
  simp only [getElem?_erase_handle, if_true]

theorem deleteClient (r : w.Registered) {p : Pcb} {c : Client} (h : w.findClient p = some c) :
    (w.deleteClient p).Registered := by
  have hp := (r.find h).1
  rw [r.deleteClient_eq h]
  constructor
  · intro q k hq
    simp only [getElem?_erase_pcb] at hq
    split at hq
    · cases hq
    · next hne =>
      obtain ⟨hq0, hk0, d, hd, hdh, hdp⟩ := r.leads q k hq
      refine ⟨hq0, hk0, d, ?_, hdh, hdp⟩
      have hk : c.handle ≠ k := fun e => hne (r.one p q k (e ▸ hp) hq)
      simp only [getElem?_erase_handle, if_neg hk, hd]
  · intro q q' k hq hq'
    simp only [getElem?_erase_pcb] at hq hq'
    split at hq
    · cases hq
    · split at hq'
      · cases hq'
      · exact r.one q q' k hq hq'
  · intro k d hd
    simp only [getElem?_erase_handle] at hd
    split at hd
    · cases hd
    · next hne =>
      obtain ⟨q, hq⟩ := r.led k d hd
      refine ⟨q, ?_⟩
      have hqp : p ≠ q := by
        intro e
        rw [← e, hp] at hq
        exact hne (Option.some.inj hq)
      simp only [getElem?_erase_pcb, if_neg hqp, hq]

end Registered

theorem registered_init : ({} : Web).Registered := by
  constructor
  · intro p h hp
    simp at hp
  · intro p q h hp
    simp at hp
  · intro h c hc
    simp at hc

end Web
end Pico
