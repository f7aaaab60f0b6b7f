import Picolibs.Sends
import Picolibs.Frames
/-!
# Broadcast — what the two `broadcast_websocket` put into the queues

Each pass of either loop sends to the client it stands at where that is an open websocket, and else does nothing
(`shares`); nobody comes or goes on the way, so the loop ends with one buffer for every open websocket and none for
anybody else.  The two loops differ in the bytes: the `TXT` one copies its text for every websocket but the last, with
`strncpy`.
-/
namespace Pico
namespace Web

variable {W : World} {w w' w'' : Web} {p : Pcb} {c : Client}

def isSocket (w : Web) (h : ClientHandle) : Bool := (w.findHandle h).any Client.websocket

def openSocket (w : Web) (h : ClientHandle) : Bool := (w.findHandle h).any fun c => c.websocket && !c.closed

/-- The last websocket of a list of handles, open or closing. -/
def lastSocket (w : Web) (handles : List ClientHandle) : Option ClientHandle := (handles.filter w.isSocket).getLast?

/-- A buffer for every open websocket of a list. -/
def shares (w : Web) (handles : List ClientHandle) (f : ClientHandle → Bytes) : ClientHandle → Option Bytes :=
  fun k => if k ∈ handles ∧ w.openSocket k = true then some (f k) else none

theorem isSocket_of_open {h : ClientHandle} (ho : w.openSocket h = true) : w.isSocket h = true := by
  unfold openSocket at ho
  unfold isSocket
  cases hc : w.findHandle h with
  | none => rw [hc] at ho; exact ho
  | some c =>
    rw [hc] at ho
    simp only [Option.any_some, Bool.and_eq_true] at ho ⊢
    exact ho.1

/-! ## The state of the loop -/

namespace Queues

variable {data : ClientHandle → Option Bytes}

/-- A call leaves a client's flags alone. -/
theorem findHandle (q : Queues data w w') (r : w.Registered) (r' : w'.Registered) (h : ClientHandle) :
    (w.findHandle h = none ∧ w'.findHandle h = none) ∨
      ∃ c c', w.findHandle h = some c ∧ w'.findHandle h = some c' ∧ SameRequest c c' := by
  cases hc : w.findHandle h with
  | none =>
    left
    refine ⟨rfl, ?_⟩
    have hm := q.handles h
    rw [Std.ExtTreeMap.mem_iff_isSome_getElem?, Std.ExtTreeMap.mem_iff_isSome_getElem?] at hm
    unfold Web.findHandle at hc ⊢
    rw [hc] at hm
    exact Option.not_isSome_iff_eq_none.1 fun hs => Bool.false_ne_true (hm.1 hs)
  | some c =>
    right
    obtain ⟨hh, p, hp⟩ := r.find_handle hc
    obtain ⟨c', hp', hq⟩ := q.clients p c hp
    have hs := hq.sameRequest
    refine ⟨c, c', rfl, ?_, hs⟩
    have := (r'.find hp').2.1
    rwa [hs.handle, hh] at this

theorem isSocket (q : Queues data w w') (r : w.Registered) (r' : w'.Registered) : w'.isSocket = w.isSocket := by
  funext h
  unfold Web.isSocket
  rcases q.findHandle r r' h with ⟨h1, h2⟩ | ⟨c, c', h1, h2, hs⟩
  · rw [h1, h2]
  · rw [h1, h2, Option.any_some, Option.any_some, hs.websocket]

theorem openSocket (q : Queues data w w') (r : w.Registered) (r' : w'.Registered) : w'.openSocket = w.openSocket := by
  funext h
  unfold Web.openSocket
  rcases q.findHandle r r' h with ⟨h1, h2⟩ | ⟨c, c', h1, h2, hs⟩
  · rw [h1, h2]
  · rw [h1, h2, Option.any_some, Option.any_some, hs.websocket, hs.closed]

theorem isSome (q : Queues data w w') (r : w.Registered) (r' : w'.Registered) {h : ClientHandle}
    (hh : (w.findHandle h).isSome = true) : (w'.findHandle h).isSome = true := by
  rcases q.findHandle r r' h with ⟨h1, h2⟩ | ⟨c, c', h1, h2, hs⟩
  · rw [h1] at hh
    cases hh
  · rw [h2]
    rfl

theorem shares_nil (w : Web) (f : ClientHandle → Bytes) : Queues (shares w [] f) w w := by
  have : shares w [] f = nothing := by
    funext k
    unfold shares
    rw [if_neg fun h => nomatch h.1]
    rfl
  rw [this]
  exact rfl' w

/-- **One pass, and the passes after it.** -/
theorem shares_cons {h : ClientHandle} {rest : List ClientHandle} {f : ClientHandle → Bytes}
    (q : Queues (shares w [h] f) w w') (q' : Queues (shares w' rest f) w' w'') (r : w.Registered) (r' : w'.Registered)
    (hnot : h ∉ rest) : Queues (shares w (h :: rest) f) w w'' := by
  have hopen := q.openSocket r r'
  have hone : ∀ k, shares w [h] f k = none ∨ shares w' rest f k = none := by
    intro k
    unfold shares
    by_cases hk : k ∈ rest
    · left
      rw [if_neg]
      rintro ⟨hkh, -⟩
      rw [List.mem_singleton.1 hkh] at hk
      exact hnot hk
    · right
      rw [if_neg fun hc => hk hc.1]
  refine (q.trans q' r r' hone).congr (fun k _ => ?_) r
  unfold shares
  rw [hopen]
  by_cases hk : w.openSocket k = true
  · by_cases hkh : k = h
    · rw [if_pos ⟨List.mem_cons.2 (Or.inl hkh), hk⟩, if_pos ⟨List.mem_singleton.2 hkh, hk⟩, Option.some_or]
    · simp only [List.mem_cons, hkh, false_or, List.not_mem_nil, or_self, false_and, if_false, Option.none_or]
  · rw [if_neg fun hc => hk hc.2, if_neg fun hc => hk hc.2, if_neg fun hc => hk hc.2, Option.none_or]

/-- The bytes for who gets none do not matter. -/
theorem shares_congr {handles : List ClientHandle} {f g : ClientHandle → Bytes} (q : Queues (shares w handles f) w w')
    (r : w.Registered) (h : ∀ k ∈ handles, w.openSocket k = true → g k = f k) : Queues (shares w handles g) w w' := by
  refine q.congr (fun k _ => ?_) r
  unfold shares
  split
  · next hk => rw [h k hk.1 hk.2]
  · rfl

end Queues

theorem shares_only {h : ClientHandle} (hc : w.findHandle h = some c) (hws : c.websocket = true)
    (ho : c.closed = false) (f : ClientHandle → Bytes) : shares w [h] f = only h (f h) := by
  have hopen : w.openSocket h = true := by
    unfold openSocket
    rw [hc, Option.any_some, hws, ho]
    rfl
  funext k
  unfold shares only
  by_cases hk : k = h
  · rw [hk, if_pos ⟨List.mem_singleton_self h, hopen⟩, if_pos rfl]
  · rw [if_neg fun hm => hk (List.mem_singleton.1 hm.1), if_neg hk]

theorem shares_nothing {h : ClientHandle} (hc : w.findHandle h = some c) (hno : c.websocket = false ∨ c.closed = true)
    (f : ClientHandle → Bytes) : shares w [h] f = nothing := by
  funext k
  unfold shares nothing
  rw [if_neg]
  rintro ⟨hm, ho⟩
  rw [List.mem_singleton.1 hm, openSocket, hc, Option.any_some] at ho
  rcases hno with hno | hno
  · rw [hno] at ho
    cases ho
  · rw [hno, Bool.not_true, Bool.and_false] at ho
    cases ho

/-! ## The loop over strings -/

/-- One pass of `broadcast_websocket` of a string. -/
def broadcastPass (W : World) (txt : Bytes) (w : Web) (client : Client) : Web :=
  if client.websocket then w.sendWebsocket W client.pcb .text txt else w

theorem broadcastPass_moves (i : w.Inv) {h : ClientHandle} (hc : w.findHandle h = some c) (txt : Bytes) :
    Moves .call w (broadcastPass W txt w c) := by
  unfold broadcastPass
  split
  · exact sendWebsocket_moves i (i.queueing hc) .text txt
  · exact Moves.refl _ _

theorem broadcastPass_queues (i : w.Inv) {h : ClientHandle} (hc : w.findHandle h = some c) (txt : Bytes) :
    Queues (shares w [h] fun _ => cut (Ws.plainFrame .text txt)) w (broadcastPass W txt w c) := by
  unfold broadcastPass
  cases hws : c.websocket with
  | false =>
    rw [shares_nothing hc (Or.inl hws)]
    exact Queues.rfl' w
  | true =>
    cases hcl : c.closed with
    | true =>
      obtain ⟨-, p, hp⟩ := i.reg.find_handle hc
      have hpcb : c.pcb = 0 := by
        rcases i.reg.find_pcb hp with ⟨-, h0⟩ | ⟨hopen, -⟩
        · exact h0
        · rw [hcl] at hopen
          cases hopen
      rw [shares_nothing hc (Or.inr hcl), if_pos rfl, sendWebsocket_eq, hpcb, sendBuffer, i.reg.find_zero]
      exact Queues.rfl' w
    | false =>
      obtain ⟨hp, hh⟩ := find_of_open i hc hcl
      have hq := sendWebsocket_queues (W := W) i hp hcl .text txt
      rw [hh] at hq
      rw [shares_only hc hws hcl, if_pos rfl]
      exact hq

theorem broadcastFrom_cons {h : ClientHandle} {rest : List ClientHandle} (hf : w.fault = none)
    (hc : w.findHandle h = some c) (txt : Bytes) :
    broadcastFrom W txt (h :: rest) w = broadcastFrom W txt rest (broadcastPass W txt w c) := by
  rw [broadcastFrom, andThen_of_none hf, deref_of_some hc, broadcastPass]

theorem broadcastFrom_queues (txt : Bytes) : ∀ (handles : List ClientHandle) {w : Web}, w.Inv → w.fault = none →
    handles.Nodup → (∀ h ∈ handles, (w.findHandle h).isSome = true) →
      Queues (shares w handles fun _ => cut (Ws.plainFrame .text txt)) w (broadcastFrom W txt handles w)
  | [], w, _, _, _, _ => Queues.shares_nil w _
  | h :: rest, w, i, hf, hnd, hall => by
    obtain ⟨c, hc⟩ := Option.isSome_iff_exists.1 (hall h List.mem_cons_self)
    rw [List.nodup_cons] at hnd
    rw [broadcastFrom_cons hf hc]
    have hq := broadcastPass_queues (W := W) i hc txt
    have i' := (broadcastPass_moves (W := W) i hc txt).inv i
    refine hq.shares_cons ?_ i.reg i'.reg hnd.1
    exact broadcastFrom_queues txt rest i' (hq.fault.trans hf) hnd.2
      fun k hk => hq.isSome i.reg i'.reg (hall k (List.mem_cons_of_mem h hk))

/-! ## The loop over texts -/

/-- What the client of a handle gets of a text: the last websocket the text itself, the others a copy. -/
def shareOf (w : Web) (handles : List ClientHandle) (txt : Bytes) (h : ClientHandle) : Bytes :=
  if w.lastSocket handles = some h then txt else Txt.strncpied txt

theorem sendMessageTxt_shares (i : w.Inv) {h : ClientHandle} (hc : w.findHandle h = some c) (hws : c.websocket = true)
    {t : Txt} (ht : t.Owned) :
    Queues (shares w [h] fun _ => cut (Ws.plainFrame .text t.text)) w (w.sendMessageTxt W h t).2 := by
  cases hcl : c.closed with
  | true =>
    rw [shares_nothing hc (Or.inr hcl), sendMessageTxt, sendTo_closed i hc hcl]
    exact Queues.rfl' w
  | false =>
    rw [shares_only hc hws hcl]
    exact (sendMessageTxt_queues i hc hcl ht).2

theorem lastSocket_cons {h : ClientHandle} (rest : List ClientHandle) (hs : w.isSocket h = true) :
    w.lastSocket (h :: rest) = some ((w.lastSocket rest).getD h) := by
  unfold lastSocket
  rw [List.filter_cons, if_pos hs, List.getLast?_cons]

theorem lastSocket_cons_of_not {h : ClientHandle} (rest : List ClientHandle) (hs : w.isSocket h = false) :
    w.lastSocket (h :: rest) = w.lastSocket rest := by
  unfold lastSocket
  rw [List.filter_cons, if_neg (by rw [hs]; exact Bool.false_ne_true)]

/-- Who is in the list and a websocket makes it have a last one. -/
theorem lastSocket_of_mem {k : ClientHandle} {handles : List ClientHandle} (hk : k ∈ handles)
    (hs : w.isSocket k = true) : ∃ l, w.lastSocket handles = some l := by
  unfold lastSocket
  cases hl : (handles.filter w.isSocket).getLast? with
  | none =>
    rw [List.getLast?_eq_none_iff] at hl
    exact absurd (List.mem_filter.2 ⟨hk, hs⟩) (by rw [hl]; exact List.not_mem_nil)
  | some l => exact ⟨l, rfl⟩

theorem mem_of_lastSocket {l : ClientHandle} {handles : List ClientHandle} (h : w.lastSocket handles = some l) :
    l ∈ handles := (List.mem_filter.1 (List.mem_of_getLast? h)).1

/-- The number of websockets in a list, as the loop counts them down. -/
def socketsIn (w : Web) (handles : List ClientHandle) : Nat := (handles.filter w.isSocket).length

theorem broadcastTxtFrom_queues {txt : Txt} (ho : txt.Owned) : ∀ (handles : List ClientHandle) {w : Web}, w.Inv →
    w.fault = none → handles.Nodup → (∀ h ∈ handles, (w.findHandle h).isSome = true) →
      Queues (shares w handles fun h => cut (Ws.plainFrame .text (shareOf w handles txt.text h))) w
        (broadcastTxtFrom W txt (w.socketsIn handles) handles w)
  | [], w, _, _, _, _ => Queues.shares_nil w _
  | h :: rest, w, i, hf, hnd, hall => by
    obtain ⟨c, hc⟩ := Option.isSome_iff_exists.1 (hall h List.mem_cons_self)
    rw [List.nodup_cons] at hnd
    have hrest := fun k hk => hall k (List.mem_cons_of_mem h hk)
    rw [broadcastTxtFrom, andThen_of_none hf, deref_of_some hc]
    cases hws : c.websocket with
    | false =>
      have hs : w.isSocket h = false := by rw [isSocket, hc, Option.any_some, hws]
      have hn : w.socketsIn (h :: rest) = w.socketsIn rest := by
        rw [socketsIn, List.filter_cons, if_neg (by rw [hs]; exact Bool.false_ne_true), socketsIn]
      have hq := Queues.rfl' w
      rw [← shares_nothing hc (Or.inl hws) fun k => cut (Ws.plainFrame .text (shareOf w (h :: rest) txt.text k))] at hq
      refine hq.shares_cons ?_ i.reg i.reg hnd.1
      rw [if_neg Bool.false_ne_true, hn]
      refine (broadcastTxtFrom_queues ho rest i hf hnd.2 hrest).shares_congr i.reg fun k _ _ => ?_
      rw [shareOf, shareOf, lastSocket_cons_of_not rest hs]
    | true =>
      have hs : w.isSocket h = true := by rw [isSocket, hc, Option.any_some, hws]
      have hn : w.socketsIn (h :: rest) - 1 = w.socketsIn rest := by
        rw [socketsIn, List.filter_cons, if_pos hs, List.length_cons, Nat.add_sub_cancel, socketsIn]
      -- one message and the passes after it, whatever text goes to the client
      have pass {t : Txt} (ht : t.Owned) (hshare : shareOf w (h :: rest) txt.text h = t.text) :
          Queues (shares w (h :: rest) fun k => cut (Ws.plainFrame .text (shareOf w (h :: rest) txt.text k))) w
            (broadcastTxtFrom W txt (w.socketsIn rest) rest (w.sendMessageTxt W h t).2) := by
        have hq := sendMessageTxt_shares (W := W) i hc hws ht
        have i' := (sendMessageTxt_moves (W := W) (t := .call) i h t).inv i
        have hsock := hq.isSocket i.reg i'.reg
        have hq' := hq.shares_congr (g := fun k => cut (Ws.plainFrame .text (shareOf w (h :: rest) txt.text k))) i.reg
          fun k hk _ => by rw [List.mem_singleton.1 hk, hshare]
        refine hq'.shares_cons ?_ i.reg i'.reg hnd.1
        have ih := broadcastTxtFrom_queues ho rest i' (hq.fault.trans hf) hnd.2
          fun k hk => hq.isSome i.reg i'.reg (hrest k hk)
        rw [show (w.sendMessageTxt W h t).2.socketsIn rest = w.socketsIn rest by rw [socketsIn, hsock, socketsIn]] at ih
        refine ih.shares_congr i'.reg fun k hk hopen => ?_
        obtain ⟨l, hl⟩ := lastSocket_of_mem hk (isSocket_of_open hopen)
        have hl' : w.lastSocket rest = some l := by rw [← hl, lastSocket, lastSocket, hsock]
        rw [shareOf, shareOf, hl, lastSocket_cons rest hs, hl', Option.getD_some]
      rw [if_pos rfl, hn]
      by_cases hlast : 0 < w.socketsIn rest
      · rw [if_pos hlast]
        obtain ⟨t, ht, hto, htext⟩ := Txt.ofData_text ho
        rw [ht]
        refine pass hto ?_
        have hne : rest.filter w.isSocket ≠ [] := List.ne_nil_of_length_pos hlast
        obtain ⟨l, hl⟩ := Option.isSome_iff_exists.1 (List.getLast?_isSome.2 hne)
        rw [shareOf, lastSocket_cons rest hs, lastSocket, hl, Option.getD_some, if_neg, htext]
        intro e
        exact hnd.1 (Option.some.inj e ▸ mem_of_lastSocket hl)
      · rw [if_neg hlast]
        refine pass ho ?_
        have hnil : rest.filter w.isSocket = [] := List.eq_nil_of_length_eq_zero (Nat.eq_zero_of_not_pos hlast)
        rw [shareOf, lastSocket_cons rest hs, lastSocket, hnil, List.getLast?_nil, Option.getD_none, if_pos rfl]

/-! ## The whole broadcasts -/

/-- A buffer for every open websocket. -/
def everySocket (w : Web) (f : ClientHandle → Bytes) : ClientHandle → Option Bytes :=
  fun h => if w.openSocket h = true then some (f h) else none

theorem mem_keys_of_open {h : ClientHandle} (ho : w.openSocket h = true) : h ∈ w.clientHndl.keys := by
  rw [Std.ExtTreeMap.mem_keys, Std.ExtTreeMap.mem_iff_isSome_getElem?]
  unfold openSocket findHandle at ho
  cases hc : w.clientHndl[h]? with
  | none => rw [hc] at ho; cases ho
  | some c => rfl

theorem shares_keys (w : Web) (f : ClientHandle → Bytes) : shares w w.clientHndl.keys f = everySocket w f := by
  funext k
  unfold shares everySocket
  by_cases hk : w.openSocket k = true
  · rw [if_pos ⟨mem_keys_of_open hk, hk⟩, if_pos hk]
  · rw [if_neg fun hc => hk hc.2, if_neg hk]

theorem broadcastWebsocket_queues (i : w.Inv) (hf : w.fault = none) (txt : Bytes) :
    Queues (everySocket w fun _ => cut (Ws.plainFrame .text txt)) w (w.broadcastWebsocket W txt) := by
  have hq := broadcastFrom_queues (W := W) txt w.clientHndl.keys i hf Std.ExtTreeMap.nodup_keys
    fun _ => findHandle_of_mem_keys
  rw [shares_keys] at hq
  exact hq

theorem broadcastWebsocketTxt_queues (i : w.Inv) (hf : w.fault = none) {txt : Txt} (ho : txt.Owned) :
    Queues (everySocket w fun h => cut (Ws.plainFrame .text (shareOf w w.clientHndl.keys txt.text h))) w
      (w.broadcastWebsocketTxt W txt) := by
  have hq := broadcastTxtFrom_queues (W := W) ho w.clientHndl.keys i hf Std.ExtTreeMap.nodup_keys
    fun _ => findHandle_of_mem_keys
  rw [shares_keys] at hq
  exact hq

/-! ## Nobody comes or goes -/

def SameEntries (w w' : Web) : Prop :=
  (∀ p : Pcb, w'.clientPCB[p]? = w.clientPCB[p]?) ∧ ∀ h, h ∈ w'.clientHndl ↔ h ∈ w.clientHndl

theorem Moves.sameEntries (m : Moves .call w w') (i : w.Inv) : SameEntries w w' := by
  have i' := m.inv i
  have hpcb (p : Pcb) : w'.clientPCB[p]? = w.clientPCB[p]? := by
    cases hc : w.findClient p with
    | none =>
      cases hc' : w'.findClient p with
      | none => rw [i.reg.find_none.1 hc, i'.reg.find_none.1 hc']
      | some c' =>
        obtain ⟨c, hcc, -⟩ := m.back i hc'
        rw [hc] at hcc
        cases hcc
    | some c =>
      obtain ⟨c', hc', hs⟩ := m.keeps i nofun hc
      rw [(i.reg.find hc).1, (i'.reg.find hc').1, hs.handle]
  refine ⟨hpcb, fun h => ?_⟩
  -- a handle is in the map when some pcb leads to it
  have led {v : Web} (j : v.Inv) : h ∈ v.clientHndl ↔ ∃ p : Pcb, v.clientPCB[p]? = some h := by
    rw [Std.ExtTreeMap.mem_iff_isSome_getElem?, Option.isSome_iff_exists]
    constructor
    · rintro ⟨c, hc⟩
      exact j.reg.led h c hc
    · rintro ⟨p, hp⟩
      obtain ⟨-, -, c, hc, -⟩ := j.reg.leads p h hp
      exact ⟨c, hc⟩
  rw [led i, led i']
  simp only [hpcb]

/-- The loop over strings, from any place on. -/
theorem broadcastFrom_append (txt : Bytes) : ∀ (pre post : List ClientHandle) {w : Web}, w.Inv → w.fault = none →
    (∀ h ∈ pre, (w.findHandle h).isSome = true) →
      broadcastFrom W txt (pre ++ post) w = broadcastFrom W txt post (broadcastFrom W txt pre w)
  | [], _, _, _, _, _ => rfl
  | h :: pre, post, w, i, hf, hall => by
    obtain ⟨c, hc⟩ := Option.isSome_iff_exists.1 (hall h List.mem_cons_self)
    have hm := broadcastPass_moves (W := W) i hc txt
    have hq := broadcastPass_queues (W := W) i hc txt
    rw [List.cons_append, broadcastFrom_cons hf hc, broadcastFrom_cons hf hc]
    exact broadcastFrom_append txt pre post (hm.inv i) (hq.fault.trans hf)
      fun k hk => hm.keeps_handle i (hall k (List.mem_cons_of_mem h hk))

/-- The loop over texts, from any place on, with the websockets there still to come. -/
theorem broadcastTxtFrom_append {txt : Txt} (ho : txt.Owned) : ∀ (pre post : List ClientHandle) (n : Nat) {w : Web},
    w.Inv → w.fault = none → (∀ h ∈ pre, (w.findHandle h).isSome = true) →
      broadcastTxtFrom W txt n (pre ++ post) w =
        broadcastTxtFrom W txt (n - w.socketsIn pre) post (broadcastTxtFrom W txt n pre w)
  | [], _, _, _, _, _, _ => rfl
  | h :: pre, post, n, w, i, hf, hall => by
    obtain ⟨c, hc⟩ := Option.isSome_iff_exists.1 (hall h List.mem_cons_self)
    have hpre := fun k hk => hall k (List.mem_cons_of_mem h hk)
    rw [List.cons_append, broadcastTxtFrom, broadcastTxtFrom, andThen_of_none hf, andThen_of_none hf,
      deref_of_some hc, deref_of_some hc]
    cases hws : c.websocket with
    | false =>
      have hs : w.isSocket h = false := by rw [isSocket, hc, Option.any_some, hws]
      have hn : w.socketsIn (h :: pre) = w.socketsIn pre := by
        rw [socketsIn, List.filter_cons, if_neg (by rw [hs]; exact Bool.false_ne_true), socketsIn]
      rw [if_neg Bool.false_ne_true, if_neg Bool.false_ne_true, hn]
      exact broadcastTxtFrom_append ho pre post n i hf hpre
    | true =>
      have hs : w.isSocket h = true := by rw [isSocket, hc, Option.any_some, hws]
      have hn : n - w.socketsIn (h :: pre) = n - 1 - w.socketsIn pre := by
        rw [socketsIn, List.filter_cons, if_pos hs, List.length_cons, socketsIn]
        omega
      have pass {t : Txt} (ht : t.Owned) :
          broadcastTxtFrom W txt (n - 1) (pre ++ post) (w.sendMessageTxt W h t).2 =
            broadcastTxtFrom W txt (n - w.socketsIn (h :: pre)) post
              (broadcastTxtFrom W txt (n - 1) pre (w.sendMessageTxt W h t).2) := by
        have hm := sendMessageTxt_moves (W := W) (t := .call) i h t
        have hq := sendMessageTxt_shares (W := W) i hc hws ht
        have hsock := hq.isSocket i.reg (hm.inv i).reg
        rw [hn, show w.socketsIn pre = (w.sendMessageTxt W h t).2.socketsIn pre by rw [socketsIn, socketsIn, hsock]]
        exact broadcastTxtFrom_append ho pre post (n - 1) (hm.inv i) (hq.fault.trans hf)
          fun k hk => hm.keeps_handle i (hpre k hk)
      rw [if_pos rfl, if_pos rfl]
      split
      · obtain ⟨t, ht, hto⟩ := Txt.ofData_ok txt.data txt.datasize (txt.datasize + 16)
        rw [ht]
        exact pass hto
      · exact pass ho

/-- **A broadcast gives every open websocket one buffer and nobody else any**, and whatever lwIP answers, no client is
added to the maps or removed from them before the loop has gone through them. -/
theorem broadcast_every_socket (hr : Reachable W Allowed w) (hf : w.fault = none) :
    (∀ txt : Bytes,
      (∀ pre post, w.clientHndl.keys = pre ++ post → SameEntries w (broadcastFrom W txt pre w) ∧
        w.broadcastWebsocket W txt = broadcastFrom W txt post (broadcastFrom W txt pre w)) ∧
      ∃ f, Queues (everySocket w f) w (w.broadcastWebsocket W txt)) ∧
    ∀ txt : { t : Txt // t.Owned },
      (∀ pre post, w.clientHndl.keys = pre ++ post →
        SameEntries w (broadcastTxtFrom W txt.val (w.socketsIn w.clientHndl.keys) pre w) ∧
        w.broadcastWebsocketTxt W txt.val = broadcastTxtFrom W txt.val (w.socketsIn post) post
          (broadcastTxtFrom W txt.val (w.socketsIn w.clientHndl.keys) pre w)) ∧
      ∃ f, Queues (everySocket w f) w (w.broadcastWebsocketTxt W txt.val) := by
  have i := inv_reachable (fun _ _ => id) hr
  have hpre {pre post : List ClientHandle} (hk : w.clientHndl.keys = pre ++ post) :
      ∀ h ∈ pre, (w.findHandle h).isSome = true :=
    fun h hh => findHandle_of_mem_keys (by rw [hk]; exact List.mem_append_left post hh)
  refine ⟨fun txt => ⟨fun pre post hk => ⟨?_, ?_⟩, _, broadcastWebsocket_queues i hf txt⟩,
    fun txt => ⟨fun pre post hk => ⟨?_, ?_⟩, _, broadcastWebsocketTxt_queues i hf txt.property⟩⟩
  · exact (broadcastFrom_moves txt pre i).sameEntries i
  · rw [broadcastWebsocket, hk]
    exact broadcastFrom_append txt pre post i hf (hpre hk)
  · exact (broadcastTxtFrom_moves txt.val pre _ i).sameEntries i
  · have hn : w.socketsIn (pre ++ post) - w.socketsIn pre = w.socketsIn post := by
      rw [socketsIn, List.filter_append, List.length_append, socketsIn, socketsIn, Nat.add_sub_cancel_left]
    rw [← hn, hk, ← broadcastTxtFrom_append txt.property pre post _ i hf (hpre hk), ← hk]
    rfl

theorem broadcast_every_socket_upgraded : upgraded.fault = none ∧
    (∀ txt : Bytes,
      (∀ pre post, upgraded.clientHndl.keys = pre ++ post → SameEntries upgraded (broadcastFrom {} txt pre upgraded) ∧
        upgraded.broadcastWebsocket {} txt = broadcastFrom {} txt post (broadcastFrom {} txt pre upgraded)) ∧
      ∃ f, Queues (everySocket upgraded f) upgraded (upgraded.broadcastWebsocket {} txt)) ∧
    ∀ txt : { t : Txt // t.Owned },
      (∀ pre post, upgraded.clientHndl.keys = pre ++ post →
        SameEntries upgraded
          (broadcastTxtFrom {} txt.val (upgraded.socketsIn upgraded.clientHndl.keys) pre upgraded) ∧
        upgraded.broadcastWebsocketTxt {} txt.val = broadcastTxtFrom {} txt.val (upgraded.socketsIn post) post
          (broadcastTxtFrom {} txt.val (upgraded.socketsIn upgraded.clientHndl.keys) pre upgraded)) ∧
      ∃ f, Queues (everySocket upgraded f) upgraded (upgraded.broadcastWebsocketTxt {} txt.val) :=
  ⟨upgraded_client.1, broadcast_every_socket upgraded_reachable upgraded_client.1⟩

/-! ## The two broadcasts compared -/

/-- The bytes of a message that a 16-bit length of its frame leaves. -/
def visible (message : Bytes) : Bytes :=
  message.take ((Ws.plainFrame .text message).length % 2 ^ 16 - (Ws.plainHead .text message.length).length)

theorem cut_copy_iff (message : Bytes) :
    cut (Ws.plainFrame .text (Txt.strncpied message)) = cut (Ws.plainFrame .text message) ↔
      Txt.NulEnds (visible message) := by
  have hlen := Txt.length_strncpied message
  have hlen' : (Ws.plainFrame .text (Txt.strncpied message)).length = (Ws.plainFrame .text message).length := by
    rw [Ws.length_plainFrame, Ws.length_plainFrame, hlen]
  rw [← Txt.strncpied_eq_self_iff, visible, ← Txt.take_strncpied, cut, cut, hlen']
  generalize (Ws.plainFrame .text message).length % 2 ^ 16 = k
  rw [Ws.plainFrame, Ws.plainFrame, hlen, List.take_append, List.take_append, List.append_cancel_left_eq]

theorem agree_iff (i : w.Inv) (hf : w.fault = none) (txt : { t : Txt // t.Owned }) :
    (∀ p, queuedOn p (w.broadcastWebsocketTxt W txt.val) = queuedOn p (w.broadcastWebsocket W txt.val.text)) ↔
      Txt.NulEnds (visible txt.val.text) ∨
        ∀ h, w.openSocket h = true → w.lastSocket w.clientHndl.keys = some h := by
  have hq := broadcastWebsocket_queues (W := W) i hf txt.val.text
  have hq' := broadcastWebsocketTxt_queues (W := W) i hf txt.property
  rw [← cut_copy_iff]
  have heach (p : Pcb) : queuedOn p (w.broadcastWebsocketTxt W txt.val) =
      queuedOn p (w.broadcastWebsocket W txt.val.text) ↔ ∀ c, w.findClient p = some c → w.openSocket c.handle = true →
        cut (Ws.plainFrame .text (shareOf w w.clientHndl.keys txt.val.text c.handle)) =
          cut (Ws.plainFrame .text txt.val.text) := by
    rw [hq.queued, hq'.queued, List.append_cancel_left_eq]
    cases hc : w.findClient p with
    | none => simp
    | some c =>
      simp only [Option.bind_some, everySocket, Option.some.injEq, forall_eq']
      by_cases ho : w.openSocket c.handle = true
      · simp [ho]
      · simp [ho]
  simp only [heach]
  constructor
  · intro h
    by_cases hcopy : cut (Ws.plainFrame .text (Txt.strncpied txt.val.text)) = cut (Ws.plainFrame .text txt.val.text)
    · exact Or.inl hcopy
    · refine Or.inr fun k hk => ?_
      obtain ⟨c, hc⟩ := Option.isSome_iff_exists.1 (findHandle_of_mem_keys (mem_keys_of_open hk))
      obtain ⟨hh, p, hp⟩ := i.reg.find_handle hc
      have := h p c hp (by rw [hh]; exact hk)
      rw [hh, shareOf] at this
      split at this
      · assumption
      · exact absurd this hcopy
  · rintro (hcopy | hlast) p c hc ho
    · unfold shareOf
      split
      · rfl
      · exact hcopy
    · rw [shareOf, if_pos (hlast _ ho)]

/-- **The two broadcasts queue the same bytes** exactly where a copy of what is sent is the text itself, or nobody gets
a copy. -/
theorem broadcasts_agree_iff (hr : Reachable W Allowed w) (hf : w.fault = none) (txt : { t : Txt // t.Owned }) :
    (∀ p, queuedOn p (w.broadcastWebsocketTxt W txt.val) = queuedOn p (w.broadcastWebsocket W txt.val.text)) ↔
      Txt.NulEnds (visible txt.val.text) ∨
        ∀ h, w.openSocket h = true → w.lastSocket w.clientHndl.keys = some h :=
  agree_iff (inv_reachable (fun _ _ => id) hr) hf txt

/-! Two websockets, and a text with a NUL in the middle. -/

def upgradedTwo : Web :=
  runOf {} [.accept 1 0, .recv 1 (some upgradeRequest), .accept 2 0, .recv 2 (some upgradeRequest)]

theorem upgradedTwo_facts : Allowed upgraded (.accept 2 0) ∧ upgradedTwo.fault = none ∧
    upgradedTwo.openSocket 1000 = true ∧ upgradedTwo.lastSocket upgradedTwo.clientHndl.keys = some 1001 := by
  decide +kernel

theorem upgradedTwo_reachable : Reachable {} Allowed upgradedTwo := by
  have h := History.reach_along [Event.accept 2 0, .recv 2 (some upgradeRequest)] upgraded upgraded_reachable
    ⟨upgradedTwo_facts.1, trivial, trivial⟩
  unfold upgraded upgradeRun runOf at h
  rw [← List.foldl_append] at h
  exact h

def nulText : { t : Txt // t.Owned } :=
  ⟨{ buffer := [65, 0, 66, 0], bufsiz := 4, endptr := 3 }, rfl, by decide, rfl⟩

theorem broadcasts_agree_iff_upgraded : upgraded.fault = none ∧
    ((∀ p, queuedOn p (upgraded.broadcastWebsocketTxt {} nulText.val) =
        queuedOn p (upgraded.broadcastWebsocket {} nulText.val.text)) ↔
      Txt.NulEnds (visible nulText.val.text) ∨
        ∀ h, upgraded.openSocket h = true → upgraded.lastSocket upgraded.clientHndl.keys = some h) :=
  ⟨upgraded_client.1, broadcasts_agree_iff upgraded_reachable upgraded_client.1 nulText⟩

/-- The copy for the first of two websockets ends at the NUL. -/
theorem broadcasts_differ : ¬ ∀ (W : World) (w : Web), Reachable W Allowed w → w.fault = none →
    ∀ (txt : { t : Txt // t.Owned }) (p : Pcb),
      queuedOn p (w.broadcastWebsocketTxt W txt.val) = queuedOn p (w.broadcastWebsocket W txt.val.text) := by
  intro hall
  obtain ⟨-, hf, hopen, hlast⟩ := upgradedTwo_facts
  have h := agree_iff (W := {}) (inv_reachable (fun _ _ => id) upgradedTwo_reachable) hf nulText
  rcases h.1 (hall {} upgradedTwo upgradedTwo_reachable hf nulText) with hend | heach
  · exact absurd hend (by decide)
  · rw [heach 1000 hopen] at hlast
    exact absurd hlast (by decide)

/-! ## Whole frames -/

/-- The client gets a frame, and the whole of it. -/
def Got (w w' : Web) (c : Client) (frame : Bytes) : Prop :=
  queuedOn c.pcb w' = queuedOn c.pcb w ++ [frame] ∧
    ∃ c', w'.findClient c.pcb = some c' ∧ Queued (some frame) c c'

theorem got_iff {data : ClientHandle → Option Bytes} {d frame : Bytes} (i : w.Inv) {h : ClientHandle}
    (hc : w.findHandle h = some c) (ho : c.closed = false) (q : Queues data w w') (hd : data h = some d) :
    Got w w' c frame ↔ d = frame := by
  obtain ⟨hp, hh⟩ := find_of_open i hc ho
  have hqueued : queuedOn c.pcb w' = queuedOn c.pcb w ++ [d] := by
    rw [q.queued, hp, Option.bind_some, hh, hd]
    rfl
  constructor
  · rintro ⟨hg, -⟩
    rw [hqueued] at hg
    exact List.singleton_inj.1 (List.append_cancel_left hg)
  · rintro rfl
    obtain ⟨c', hc', hq⟩ := q.clients c.pcb c hp
    rw [hh, hd] at hq
    exact ⟨hqueued, c', hc', hq⟩

/-- A cut frame is the whole frame of a message exactly where nothing was cut and the payload is the message. -/
theorem cut_plainFrame_iff {message payload : Bytes} (hlen : payload.length = message.length) :
    cut (Ws.plainFrame .text payload) = Ws.plainFrame .text message ↔ message.length < 65532 ∧ payload = message := by
  rw [← length_textFrame_lt]
  constructor
  · intro h
    have hl : (Ws.plainFrame .text payload).length = (Ws.plainFrame .text message).length := by
      rw [Ws.length_plainFrame, Ws.length_plainFrame, hlen]
    have hshort : (Ws.plainFrame .text payload).length < 2 ^ 16 := by
      have hcut := congrArg List.length h
      rw [cut, List.length_take] at hcut
      have := Nat.mod_lt (Ws.plainFrame .text payload).length (by decide : 0 < 2 ^ 16)
      omega
    rw [(cut_eq_iff _).2 hshort, Ws.plainFrame, Ws.plainFrame, hlen] at h
    exact ⟨hl ▸ hshort, List.append_cancel_left h⟩
  · rintro ⟨hshort, rfl⟩
    exact (cut_eq_iff _).2 hshort

theorem got_sendMessage_iff (i : w.Inv) {h : ClientHandle} (hc : w.findHandle h = some c) (ho : c.closed = false)
    (message : Bytes) :
    Got w (w.sendMessage W h message).2 c (Ws.plainFrame .text message) ↔ message.length < 65532 := by
  have hq := (sendMessage_queues (W := W) i hc ho message).2
  rw [got_iff i hc ho hq (if_pos rfl), cut_plainFrame_iff rfl]
  exact and_iff_left rfl

/-- **A text message reaches an open websocket's queue as the whole frame exactly below 65532 bytes**; in a broadcast of
a `TXT` also only where the client gets the text itself, or a copy of it is the text. -/
theorem whole_frame_iff (hr : Reachable W Allowed w) (hf : w.fault = none) {h : ClientHandle}
    (hc : w.findHandle h = some c) (hws : c.websocket = true) (ho : c.closed = false) {message frame : Bytes}
    {rand size : UInt32} (hb : Ws.buildPacket .text message false rand = .ok (size, frame)) :
    (Got w (w.sendMessage W h message).2 c frame ↔ message.length < 65532) ∧
    (Got w (w.broadcastWebsocket W message) c frame ↔ message.length < 65532) ∧
    ∀ txt : { t : Txt // t.Owned }, txt.val.text = message →
      (Got w (w.sendMessageTxt W h txt.val).2 c frame ↔ message.length < 65532) ∧
      (Got w (w.broadcastWebsocketTxt W txt.val) c frame ↔
        message.length < 65532 ∧ (w.lastSocket w.clientHndl.keys = some h ∨ Txt.NulEnds message)) := by
  have i := inv_reachable (fun _ _ => id) hr
  have hopen : w.openSocket h = true := by
    unfold openSocket
    rw [hc, Option.any_some, hws, ho]
    rfl
  rw [Ws.buildPacket_plain] at hb
  cases hb
  refine ⟨got_sendMessage_iff i hc ho message, ?_, ?_⟩
  · rw [got_iff i hc ho (broadcastWebsocket_queues i hf message) (if_pos hopen), cut_plainFrame_iff rfl]
    exact and_iff_left rfl
  · rintro txt rfl
    constructor
    · have hq := (sendMessageTxt_queues (W := W) i hc ho txt.property).2
      rw [got_iff i hc ho hq (if_pos rfl), cut_plainFrame_iff rfl]
      exact and_iff_left rfl
    · have hlen : (shareOf w w.clientHndl.keys txt.val.text h).length = txt.val.text.length := by
        unfold shareOf
        split
        · rfl
        · exact Txt.length_strncpied _
      rw [got_iff i hc ho (broadcastWebsocketTxt_queues i hf txt.property) (if_pos hopen), cut_plainFrame_iff hlen]
      refine and_congr_right fun _ => ?_
      rw [← Txt.strncpied_eq_self_iff, shareOf]
      by_cases hlast : w.lastSocket w.clientHndl.keys = some h
      · simp [hlast]
      · simp [hlast]

theorem upgraded_socket : ∃ c, upgraded.findHandle 1000 = some c ∧ c.websocket = true ∧ c.closed = false := by
  obtain ⟨-, c, hc, hws, -, hopen, hh⟩ := upgraded_facts
  have hfind := ((inv_reachable (fun _ _ => id) upgraded_reachable).reg.find hc).2.1
  rw [hh] at hfind
  exact ⟨c, hfind, hws, hopen⟩

theorem whole_frame_iff_hi : ∃ h c, upgraded.findHandle h = some c ∧ c.websocket = true ∧ c.closed = false ∧
    ∃ frame, Ws.buildPacket .text (ascii "hi") false 0 = .ok (4, frame) ∧
      (Got upgraded (upgraded.sendMessage {} h (ascii "hi")).2 c frame ↔ (ascii "hi").length < 65532) ∧
      (Got upgraded (upgraded.broadcastWebsocket {} (ascii "hi")) c frame ↔ (ascii "hi").length < 65532) ∧
      ∀ txt : { t : Txt // t.Owned }, txt.val.text = ascii "hi" →
        (Got upgraded (upgraded.sendMessageTxt {} h txt.val).2 c frame ↔ (ascii "hi").length < 65532) ∧
        (Got upgraded (upgraded.broadcastWebsocketTxt {} txt.val) c frame ↔ (ascii "hi").length < 65532 ∧
          (upgraded.lastSocket upgraded.clientHndl.keys = some h ∨ Txt.NulEnds (ascii "hi"))) := by
  obtain ⟨c, hc, hws, ho⟩ := upgraded_socket
  have hb : Ws.buildPacket .text (ascii "hi") false 0 = .ok (4, [0x81, 2, 104, 105]) := by decide
  exact ⟨1000, c, hc, hws, ho, _, hb, whole_frame_iff upgraded_reachable upgraded_client.1 hc hws ho hb⟩

/-- A message of 65532 bytes has a frame of 65536, whose length in 16 bits is zero. -/
theorem frame_emptied : ¬ ∀ (W : World) (w : Web), Reachable W Allowed w → w.fault = none →
    ∀ (h : ClientHandle) (c : Client), w.findHandle h = some c → c.websocket = true → c.closed = false →
      ∀ message : Bytes, message.length < 2 ^ 32 - 14 →
        Got w (w.sendMessage W h message).2 c (Ws.plainFrame .text message) := by
  intro hall
  obtain ⟨c, hc, hws, ho⟩ := upgraded_socket
  have hlen : (List.replicate 65532 (65 : UInt8)).length = 65532 := List.length_replicate
  have h := hall {} upgraded upgraded_reachable upgraded_client.1 1000 c hc hws ho (List.replicate 65532 65)
    (by rw [hlen]; decide)
  rw [got_sendMessage_iff (inv_reachable (fun _ _ => id) upgraded_reachable) hc ho, hlen] at h
  exact absurd h (by decide)

end Web
end Pico
