import Picolibs.Dangling
import Picolibs.PostBody
/-!
# Stream — requests on one connection, however they are cut

A keep-alive connection delivers a stream of well-formed requests, cut into segments anywhere.  `requests_iff` says of
which cuts the callback is given the same requests as when each request is a segment of its own, with every call
returning: of those in which no segment ends inside the head of a request, and every POST keeps to its own body
(`Harmless`) and can be read (`Request.Read`), so that it does not depend on what the stack holds.  Any other cut loses
bytes, changes a request or hangs, and what is lost stays lost (`Lost`).
-/
namespace Pico
namespace Web

open Http (HttpRequest Request valueOf)

variable {W : World} {w : Web} {p : Pcb} {c : Client}

/-- The callback answers each request and keeps the connection. -/
def Answers (W : World) : Prop :=
  ∃ callback, W.httpCallback = some callback ∧
    ∀ tick h r text, (callback tick h r text).handled = true ∧ (callback tick h r text).close = false

/-- The request asks for no websocket, so that it goes to the callback. -/
def Plain (R : Request) : Prop := valueOf R.fields (ascii "Upgrade") ≠ some (ascii "websocket")

/-- A request for the callback that is given in this world as on the stack `ii`. -/
structure Suits (W : World) (ii : Http.Stack) (R : Request) : Prop where
  plain : Plain R
  free : ∀ f ∈ R.fields, 0 ∉ f.value
  alike : ∀ tick following, R.given (W.stackByte tick) following = R.given ii following

/-! ## One pass -/

namespace Told

variable {h : ClientHandle} {said : List Act} {w' : Web} {ii : Http.Stack} {R : Request} {following : Bytes}

theorem processHttpRqst_answers (hW : Answers W) (t : Told p h c said w w') :
    (w'.processHttpRqst W h c).2 = false ∧ ∃ d, SameRequest c d ∧
      Told p h d (said ++ [.http h c.http c.rqst]) w (w'.processHttpRqst W h c).1 := by
  obtain ⟨callback, hcb, hreply⟩ := hW
  obtain ⟨d, hs, u⟩ := t.processHttpRqst (W := W)
  have hasked : asked W c = [.http h c.http c.rqst] := by rw [asked, hcb, t.handle]; rfl
  rw [hasked] at u
  refine ⟨?_, d, hs, u⟩
  unfold Web.processHttpRqst
  rw [hcb]
  simp only [(hreply _ _ _ _).1, (hreply _ _ _ _).2, if_true]

theorem answerRqst_request (hW : Answers W) (t : Told p h c said w w') (hws : c.websocket = false)
    (hsuits : Suits W ii R) (hhttp : c.http = R.parsed) (hr : c.rqst = R.bytes ++ following) :
    (∃ f, R.given ii following = .error f ∧ (w'.answerRqst W h c).1.fault = some f) ∨
      ∃ r text d, R.given ii following = .ok (r, text) ∧ (w'.answerRqst W h c).2 = false ∧
        Told p h d (said ++ [.http h r text]) w (w'.answerRqst W h c).1 ∧ d.websocket = false ∧ d.http = r ∧
        d.rqst = text := by
  have hupgrade : c.http.header (ascii "Upgrade") = .ok ((valueOf R.fields (ascii "Upgrade")).getD []) :=
    Request.header (by rw [hhttp]; rfl) (by decide)
  have hnot : ¬ (valueOf R.fields (ascii "Upgrade")).getD [] = ascii "websocket" := by
    have hplain := hsuits.plain
    unfold Plain at hplain
    cases hv : valueOf R.fields (ascii "Upgrade") with
    | none => decide
    | some v => exact fun e => hplain (by rw [hv, ← e]; rfl)
  have htype : c.http.type = R.method := Request.type (by rw [hhttp]; rfl)
  unfold Web.answerRqst
  rw [if_pos (by rw [hws]; rfl), hupgrade]
  simp only
  rw [if_neg hnot, htype]
  by_cases hpost : R.method = ascii "POST"
  · have hparse : Http.parseRequest (W.stackByte w'.tick) c.rqst true = R.given ii following := by
      rw [← hsuits.alike w'.tick, hr, R.parseRequest_bytes, if_pos ⟨hpost, rfl⟩, Request.given, if_pos hpost]
    rw [if_pos hpost, hparse]
    cases hg : R.given ii following with
    | error f => exact Or.inl ⟨f, rfl, rfl⟩
    | ok q =>
      right
      have u : Told p h { c with http := q.1, rqst := q.2 } said w (w'.put { c with http := q.1, rqst := q.2 }) :=
        t.request ⟨rfl, rfl, rfl, rfl⟩
      obtain ⟨hclose, d, hs, v⟩ := u.processHttpRqst_answers hW
      exact ⟨q.1, q.2, d, rfl, hclose, v, hs.websocket.trans hws, hs.http, hs.rqst⟩
  · rw [if_neg hpost]
    right
    obtain ⟨hclose, d, hs, v⟩ := t.processHttpRqst_answers hW
    refine ⟨c.http, c.rqst, d, ?_, hclose, v, hs.websocket.trans hws, hs.http, hs.rqst⟩
    rw [Request.given, if_neg hpost, hhttp, hr]

/-- **A whole request is answered**: the callback is given it, and what is behind it stays in the buffer. -/
theorem recvPass_request (hW : Answers W) (t : Told p h c said w w') (hws : c.websocket = false)
    (hsuits : Suits W ii R) (hr : c.rqst = R.bytes ++ following) :
    (∃ f v, R.given ii following = .error f ∧ Web.recvPass W h w' = .leave v ∧ v.fault = some f) ∨
      ∃ r text v d, R.given ii following = .ok (r, text) ∧ Web.recvPass W h w' = .again v ∧
        Told p h d (said ++ [.http h r text]) w v ∧ d.websocket = false ∧ d.rqst = text.drop R.bytes.length := by
  have hready : c.rqstIsReady = .ok (true, { c with http := R.parsed }) := by
    unfold Client.rqstIsReady
    rw [if_pos (by rw [hws]; rfl), hr, R.parseRequest_bytes, if_neg (by simp)]
    simp only [bind, Except.bind, ← hr]
    rfl
  have u : Told p h { c with http := R.parsed } said w (w'.put { c with http := R.parsed }) :=
    t.request ⟨rfl, rfl, rfl, rfl⟩
  have hs := sameRequest_activity (W := W) (c := { c with http := R.parsed }) (w'.put { c with http := R.parsed }).tick
  have hanswer := (u.activity (W := W) (w'.put { c with http := R.parsed }).tick).answerRqst_request hW
    (hs.websocket.trans hws) hsuits hs.http (hs.rqst.trans hr)
  have hprocess := processRqst_eq (W := W) u.findHandle
  unfold Web.answer at hprocess
  have hw : (!c.websocket) = true := by rw [hws]; rfl
  unfold Web.recvPass
  rw [t.findHandle]
  simp only [hready, if_true, hw]
  rw [hprocess]
  rcases hanswer with ⟨f, hg, hfault⟩ | ⟨r, text, d, hg, hclose, v, hdws, hdhttp, hdrqst⟩
  · left
    rw [andThen_of_fault hfault, hfault]
    exact ⟨f, _, hg, rfl, hfault⟩
  · right
    have g := Request.given_ok hg
    rw [hclose, andThen_of_none v.fault, deref_of_some v.findHandle, Bool.and_false,
      if_neg Bool.false_ne_true, v.fault, v.findHandle]
    refine ⟨r, text, _, d.resetRqst, hg, rfl, v.request (resetRqst_same d), ?_, ?_⟩
    · rw [websocket_resetRqst, hdws]
    · unfold Client.resetRqst
      rw [if_pos (by rw [hdws]; rfl)]
      show (if d.http.isComplete then d.rqst.drop d.http.size else []) = _
      rw [hdhttp, hdrqst, if_pos g.complete, g.size]

/-- An empty buffer, and a head with part of its body, are left as they are. -/
theorem recvPass_rest (t : Told p h c said w w') (hws : c.websocket = false)
    (hr : c.rqst = [] ∨ ∃ (R : Request) (part : Bytes), c.rqst = R.head ++ part ∧ part.length < R.body.length) :
    ∃ v d, Web.recvPass W h w' = .leave v ∧ Told p h d said w v ∧ d.websocket = false ∧ d.rqst = c.rqst := by
  obtain ⟨http, hready⟩ : ∃ http, c.rqstIsReady = .ok (false, { c with http := http }) := by
    unfold Client.rqstIsReady
    rw [if_pos (by rw [hws]; rfl)]
    rcases hr with hr | ⟨R, part, hr, hlt⟩
    · have hparse : Http.parseRequest (fun _ => 0) c.rqst false = .ok ({}, c.rqst) := by rw [hr]; rfl
      rw [hparse]
      exact ⟨{}, rfl⟩
    · obtain ⟨r, hparse, hcomplete⟩ := R.parseRequest_part (fun _ => 0) hlt
      rw [← hr] at hparse
      rw [hparse]
      refine ⟨r, ?_⟩
      simp only [bind, Except.bind, hcomplete]
  refine ⟨w'.put { c with http := http }, { c with http := http }, ?_, t.request ⟨rfl, rfl, rfl, rfl⟩, hws, rfl⟩
  unfold Web.recvPass
  rw [t.findHandle]
  simp only [hready, Bool.false_eq_true, if_false]

/-- **Part of a head is lost**, some of it or the call with it. -/
theorem recvPass_cut (t : Told p h c said w w') (hws : c.websocket = false) (hne : c.rqst ≠ [])
    (hp : c.rqst <+: R.head) (hlt : c.rqst.length < R.head.length) :
    ∃ v, Web.recvPass W h w' = .leave v ∧
      (v.fault = none → ∃ d, Told p h d said w v ∧ d.rqst.length < c.rqst.length) := by
  have hnone := R.find_blank_part hp hlt
  rcases t.recvPass (W := W) with ⟨v, hl, -, hd⟩ | ⟨-, v, d, s, -, -, htook⟩
  · refine ⟨v, hl, fun hf => ?_⟩
    obtain ⟨d, u, hrests⟩ := hd hf
    exact ⟨d, u, Http.resync_lt hne (hrests.lost hws hnone)⟩
  · have := htook.blank hws
    rw [hnone] at this
    cases this

/-! ## What the loop takes -/

/-- **No byte is told twice**: what the loop says of requests and what it leaves were in the buffer. -/
theorem run_extent (t : Told p h c said w w') {n : Nat} {v : Web} (hrun : Loop.run (Web.recvPass W h) n w' = some v)
    (hf : v.fault = none) :
    ∃ d s, Told p h d (said ++ s) w v ∧ extent (requests h s) + d.rqst.length ≤ c.rqst.length := by
  refine Loop.run_inv
    (I := fun w1 => ∃ d s, Told p h d (said ++ s) w w1 ∧ extent (requests h s) + d.rqst.length ≤ c.rqst.length)
    (Q := fun v => v.fault = none →
      ∃ d s, Told p h d (said ++ s) w v ∧ extent (requests h s) + d.rqst.length ≤ c.rqst.length)
    ?_ ?_ n w' v ⟨c, [], by rw [List.append_nil]; exact t, Nat.le_of_eq (Nat.zero_add _)⟩ hrun hf
  · rintro w1 w2 ⟨d, s, u, hd⟩ he
    rcases u.recvPass (W := W) with ⟨v', hl, -⟩ | ⟨-, v', e, s', ha, u', htook⟩
    · rw [hl] at he
      cases he
    · rw [ha] at he
      cases he
      refine ⟨e, s ++ s', by rw [← List.append_assoc]; exact u', ?_⟩
      have := htook.extent
      rw [requests_append, extent_append]
      omega
  · rintro w1 v' ⟨d, s, u, hd⟩ he hf'
    rcases u.recvPass (W := W) with ⟨v'', hl, -, hrests⟩ | ⟨-, v'', e, s', ha, -⟩
    · rw [hl] at he
      cases he
      obtain ⟨e, u', hr⟩ := hrests hf'
      exact ⟨e, s, u', Nat.le_trans (Nat.add_le_add_left hr.shorter _) hd⟩
    · rw [ha] at he
      cases he

end Told

/-! ## What is lost stays lost -/

/-- The requests of a stream as the callback is given them when each comes alone. -/
def seenAll (ii : Http.Stack) (reqs : List Request) : List (Option (HttpRequest × Bytes)) := reqs.map (Request.seen ii)

theorem extent_seen {ii : Http.Stack} : ∀ {reqs : List Request} {got : List (HttpRequest × Bytes)},
    got.map some = seenAll ii reqs → extent got = (reqs.flatMap Request.bytes).length
  | [], [], _ => rfl
  | [], _ :: _, h => by cases h
  | _ :: _, [], h => by cases h
  | R :: reqs, q :: got, h => by
    rw [seenAll, List.map_cons, List.map_cons, List.cons.injEq] at h
    obtain ⟨hq, hgot⟩ := h
    have ih : extent got = (reqs.flatMap Request.bytes).length := extent_seen hgot
    have hsize := (Request.seen_size hq.symm).1
    rw [List.flatMap_cons, List.length_append, ← ih, ← hsize]
    rfl

/-- A request was given wrongly, or bytes of the stream are neither told nor in the buffer, or the buffer begins with a
NUL where the next request does not. -/
inductive Lost (ii : Http.Stack) (reqs : List Request) (fed : Nat) (got : List (HttpRequest × Bytes)) (c : Client) : Prop
  | wrong : ¬ got.map some <+: seenAll ii reqs → Lost ii reqs fed got c
  | short : extent got + c.rqst.length < fed → Lost ii reqs fed got c
  | overwritten {pre : List Request} {R : Request} {post : List Request} {t : Bytes} : c.websocket = false →
      reqs = pre ++ R :: post → got.map some = seenAll ii pre → c.rqst = 0 :: t →
      extent got + c.rqst.length ≤ fed → Lost ii reqs fed got c

namespace Lost

variable {ii : Http.Stack} {reqs : List Request} {fed : Nat} {got : List (HttpRequest × Bytes)}

/-- What is lost is never told. -/
theorem not_all (hl : Lost ii reqs (reqs.flatMap Request.bytes).length got c) : got.map some ≠ seenAll ii reqs := by
  intro h
  rcases hl with hwrong | hshort | ⟨-, hreqs, hgot, -, -⟩
  · exact hwrong ⟨[], by rw [List.append_nil, h]⟩
  · rw [extent_seen h] at hshort
    omega
  · rw [hgot, hreqs] at h
    have := congrArg List.length h
    simp [seenAll] at this

theorem segment (hl : Lost ii reqs fed got c) (data : Bytes) :
    Lost ii reqs (fed + data.length) got { c with rqst := c.rqst ++ data } := by
  rcases hl with hwrong | hshort | ⟨hws, hreqs, hgot, hr, hle⟩
  · exact .wrong hwrong
  · refine .short ?_
    rw [List.length_append]
    omega
  · refine .overwritten hws hreqs hgot (by rw [hr]; rfl) ?_
    rw [List.length_append]
    omega

theorem not_prefix {l l' : List (HttpRequest × Bytes)} (hl : ¬ l.map some <+: seenAll ii reqs) :
    ¬ (l ++ l').map some <+: seenAll ii reqs := by
  intro h
  rw [List.map_append] at h
  exact hl ((List.prefix_append _ _).trans h)

end Lost

/-- A text that begins with a NUL has not the header lines of a request. -/
theorem linesOf_nul (t : Bytes) (R : Request) : Http.linesOf (0 :: t) ≠ R.lines := by
  intro h
  have hfirst : ∀ l ∈ (Http.linesOf (0 :: t)).head?, l.head? = some 0 := by
    intro l hl
    rw [Http.linesOf, Http.headerLines] at hl
    split at hl
    · cases hl
    · cases hl
    · cases hl
      rfl
  have hm := hfirst R.requestLine (by rw [h]; rfl)
  obtain ⟨x, m, hx⟩ := List.exists_cons_of_ne_nil R.nonempty
  have h0 : x = 0 := by
    rw [Request.requestLine, hx] at hm
    exact Option.some.inj hm
  exact R.token 0 (by decide) (by rw [hx, h0]; exact List.mem_cons_self)

namespace Told

variable {h : ClientHandle} {said : List Act} {w' : Web} {ii : Http.Stack} {reqs : List Request} {fed : Nat}

/-- **What is lost stays lost in the loop.** -/
theorem run_lost (t : Told p h c said w w') (hl : Lost ii reqs fed (requests h said) c) {n : Nat} {v : Web}
    (hrun : Loop.run (Web.recvPass W h) n w' = some v) (hf : v.fault = none) :
    ∃ d s, Told p h d s w v ∧ Lost ii reqs fed (requests h s) d := by
  rcases hl with hwrong | hshort | ⟨hws, hreqs, hgot, hr, hle⟩
  · obtain ⟨d, s, u, -⟩ := t.run_extent hrun hf
    refine ⟨d, said ++ s, u, .wrong ?_⟩
    rw [requests_append]
    exact Lost.not_prefix hwrong
  · obtain ⟨d, s, u, hd⟩ := t.run_extent hrun hf
    refine ⟨d, said ++ s, u, .short ?_⟩
    rw [requests_append, extent_append]
    omega
  · cases n with
    | zero => cases hrun
    | succ n =>
      rcases t.recvPass (W := W) with ⟨v', hl, -, hrests⟩ | ⟨-, v', d, s, ha, u, htook⟩
      · rw [Loop.run_leave hl] at hrun
        cases hrun
        obtain ⟨d, u, hd⟩ := hrests hf
        refine ⟨d, said, u, ?_⟩
        by_cases hblank : (Text.find Text.blankLine c.rqst).isSome = true
        · have hsame := hd.found hws hblank
          exact .overwritten (hd.websocket.trans hws) hreqs hgot (hsame.trans hr) (by rw [hsame]; exact hle)
        · have hlt := Http.resync_lt (by rw [hr]; exact List.cons_ne_nil _ _)
            (hd.lost hws (Option.not_isSome_iff_eq_none.1 hblank))
          exact .short (by omega)
      · rw [Loop.run_again ha] at hrun
        obtain ⟨e, s', u', he⟩ := u.run_extent hrun hf
        refine ⟨e, said ++ s ++ s', u', ?_⟩
        rw [requests_append, requests_append]
        cases hs : requests h s with
        | nil =>
          have hlt := htook.shorter hws
          refine .short ?_
          rw [List.append_nil, extent_append]
          omega
        | cons q rest =>
          refine .wrong (Lost.not_prefix ?_)
          intro hp
          rw [List.map_append, hgot, hreqs, seenAll, seenAll, List.map_append, List.prefix_append_right_inj,
            List.map_cons, List.map_cons, List.cons_prefix_cons] at hp
          have hheaders := htook.headers hws q (by rw [hs]; exact List.mem_cons_self)
          rw [hr, (Request.seen_size hp.1.symm).2] at hheaders
          exact linesOf_nul _ _ hheaders.symm

end Told

/-! ## The condition

`fed` bytes of the stream had arrived, and with the segment `now` has arrived. -/

/-- The request that starts at `start` is not cut inside its head, and if its last byte came with the segment, what is
behind it there makes no difference. -/
def Unharmed (fed : Nat) (now : Bytes) (start : Nat) (R : Request) : Prop :=
  ¬(start < now.length ∧ now.length < start + R.head.length) ∧
    (fed < start + R.bytes.length → start + R.bytes.length ≤ now.length →
      R.Kept (now.drop (start + R.bytes.length)))

def AllUnharmed (fed : Nat) (now : Bytes) : Nat → List Request → Prop
  | _, [] => True
  | start, R :: reqs => Unharmed fed now start R ∧ AllUnharmed fed now (start + R.bytes.length) reqs

/-- Every segment leaves every request unharmed. -/
def Harmless (reqs : List Request) : Bytes → List Bytes → Prop
  | _, [] => True
  | fed, seg :: segs => AllUnharmed fed.length (fed ++ seg) 0 reqs ∧ Harmless reqs (fed ++ seg) segs

theorem four_le_bytes (R : Request) : 4 ≤ R.bytes.length := by
  have := R.four_le_head
  rw [Request.bytes, List.length_append]
  omega

section Unharmed

variable {fed : Nat} {now : Bytes}

/-- What had arrived before is past. -/
theorem allUnharmed_done {post : List Request} (hle : fed ≤ now.length) : ∀ (pre : List Request) (start : Nat),
    start + (pre.flatMap Request.bytes).length ≤ fed →
      (AllUnharmed fed now start (pre ++ post) ↔
        AllUnharmed fed now (start + (pre.flatMap Request.bytes).length) post)
  | [], start, _ => Iff.rfl
  | R :: pre, start, h => by
    rw [List.flatMap_cons, List.length_append, ← Nat.add_assoc] at h ⊢
    rw [← allUnharmed_done hle pre (start + R.bytes.length) h]
    have hhead : R.head.length ≤ R.bytes.length := by rw [Request.bytes, List.length_append]; omega
    exact and_iff_right ⟨fun hcut => by omega, fun hlt => by omega⟩

/-- What is still to come is not cut. -/
theorem allUnharmed_ahead : ∀ (post : List Request) {start : Nat}, now.length ≤ start →
    AllUnharmed fed now start post
  | [], _, _ => trivial
  | R :: post, start, h => by
    have := four_le_bytes R
    exact ⟨⟨fun hcut => by omega, fun _ hle => by omega⟩, allUnharmed_ahead post (by omega)⟩

end Unharmed

/-! ## The loop -/

/-- The requests `pre` were given rightly, and the buffer holds the rest of what has arrived. -/
structure Fine (h : ClientHandle) (ii : Http.Stack) (pre : List Request) (now : Bytes) (c : Client) (said : List Act) :
    Prop where
  websocket : c.websocket = false
  got : (requests h said).map some = seenAll ii pre
  stream : pre.flatMap Request.bytes ++ c.rqst = now

theorem Fine.extent {h : ClientHandle} {ii : Http.Stack} {pre : List Request} {now : Bytes} {said : List Act}
    (hf : Fine h ii pre now c said) : extent (requests h said) + c.rqst.length = now.length := by
  rw [extent_seen hf.got, ← List.length_append, hf.stream]

/-- A buffer that is empty or holds the head of the next request, and not all of it. -/
def Rest (buffer : Bytes) (post : List Request) : Prop :=
  buffer = [] ∨ ∃ R post', post = R :: post' ∧ R.head.length ≤ buffer.length ∧ buffer.length < R.bytes.length

theorem Rest.unharmed {fed start : Nat} {now buffer : Bytes} {post : List Request}
    (hr : Rest buffer post) (hnow : start + buffer.length = now.length) : AllUnharmed fed now start post := by
  rcases hr with rfl | ⟨R, post', rfl, hle, hlt⟩
  · exact allUnharmed_ahead post (Nat.le_of_eq hnow.symm)
  · exact ⟨⟨fun hcut => by omega, fun _ hwhole => by omega⟩, allUnharmed_ahead post' (by omega)⟩

namespace Fine

variable {h : ClientHandle} {ii : Http.Stack} {pre post reqs : List Request} {R : Request} {now following : Bytes} {d : Client}
  {said : List Act} {r : HttpRequest} {given : Bytes}

theorem length (hf : Fine h ii pre now c said) : (pre.flatMap Request.bytes).length + c.rqst.length = now.length := by
  rw [← List.length_append, hf.stream]

/-- What is behind the next request in the buffer. -/
theorem drop (hf : Fine h ii pre now c said) (hr : c.rqst = R.bytes ++ following) :
    now.drop ((pre.flatMap Request.bytes).length + R.bytes.length) = following := by
  rw [← hf.stream, hr, ← List.append_assoc]
  exact List.drop_left' (List.length_append)

theorem told (h : ClientHandle) (said : List Act) (r : HttpRequest) (given : Bytes) :
    requests h (said ++ [.http h r given]) = requests h said ++ [(r, given.take r.size)] := by
  rw [requests_append]
  simp [requests]

/-- The next request is given as when it comes alone. -/
theorem got_next (hf : Fine h ii pre now c said) (hseen : R.seen ii = some (r, given.take r.size)) :
    (requests h (said ++ [.http h r given])).map some = seenAll ii (pre ++ [R]) := by
  rw [told, List.map_append, hf.got, seenAll, seenAll, List.map_append, List.map_singleton, List.map_singleton, hseen]

/-- **The next request was given rightly**, and it alone was taken off the buffer. -/
theorem next (hf : Fine h ii pre now c said) (hr : c.rqst = R.bytes ++ following)
    (hseen : R.seen ii = some (r, given.take r.size)) (hdws : d.websocket = false) (hd : d.rqst = following) :
    Fine h ii (pre ++ [R]) now d (said ++ [.http h r given]) := by
  refine ⟨hdws, hf.got_next hseen, ?_⟩
  rw [List.flatMap_append, List.flatMap_singleton, hd, ← hf.stream, hr, List.append_assoc]

/-- **A request that is not clean is lost**: it was given wrongly, or it took bytes of what is behind it. -/
theorem lost (hf : Fine h ii pre now c said) (hreqs : reqs = pre ++ R :: post) (hr : c.rqst = R.bytes ++ following)
    {text : Bytes} (hrest : following ++ text = post.flatMap Request.bytes) (hclean : ¬ R.Clean ii following)
    (hg : R.given ii following = .ok (r, given)) (hdws : d.websocket = false)
    (hd : d.rqst = given.drop R.bytes.length) :
    Lost ii reqs now.length (requests h (said ++ [.http h r given])) d := by
  have hwrong (hne : R.seen ii ≠ some (r, given.take r.size)) :
      Lost ii reqs now.length (requests h (said ++ [.http h r given])) d := by
    refine .wrong fun hpre => hne ?_
    rw [told, List.map_append, hf.got, hreqs, seenAll, seenAll, List.map_append, List.prefix_append_right_inj,
      List.map_singleton, List.map_cons, List.cons_prefix_cons] at hpre
    exact hpre.1.symm
  rcases Request.given_of_not_clean hclean hg with hseen | ⟨x, t', hx, hdrop⟩
  · exact hwrong hseen
  · by_cases hseen : R.seen ii = some (r, given.take r.size)
    · cases post with
      | nil =>
        rw [hx, List.flatMap_nil] at hrest
        cases hrest
      | cons R' post' =>
        have hsplit : reqs = (pre ++ [R]) ++ R' :: post' := by rw [hreqs]; simp
        refine .overwritten hdws hsplit (hf.got_next hseen) (hd.trans hdrop) ?_
        have g := Request.given_ok hg
        have hext := hf.extent
        have hglen := g.length
        have hsize := g.size
        rw [hr, List.length_append] at hext
        rw [told, extent_append, hd, List.length_drop, hglen]
        show _ + (r.size + 0) + _ ≤ _
        simp only at hsize
        omega
    · exact hwrong hseen

end Fine

/-- Nothing of a request has arrived, or its head and not all of its body. -/
theorem rest_of_part {R : Request} {buffer : Bytes} (post : List Request) (hpart : buffer <+: R.bytes)
    (hlt : buffer.length < R.bytes.length) (hcut : buffer = [] ∨ R.head.length ≤ buffer.length) :
    Rest buffer (R :: post) ∧
      (buffer = [] ∨ ∃ (R : Request) (part : Bytes), buffer = R.head ++ part ∧ part.length < R.body.length) := by
  refine ⟨hcut.imp_right fun hle => ⟨R, post, rfl, hle, hlt⟩, ?_⟩
  rcases hcut with hnil | hle
  · exact Or.inl hnil
  · have hhead : R.head <+: R.bytes := ⟨R.body, rfl⟩
    obtain ⟨part, he⟩ := List.prefix_of_prefix_length_le hhead hpart hle
    refine Or.inr ⟨R, part, he.symm, ?_⟩
    rw [← he, Request.bytes, List.length_append, List.length_append] at hlt
    omega

namespace Told

variable {h : ClientHandle} {reqs : List Request} {fed : Nat} {now : Bytes}

section Loop

variable {ii : Http.Stack} {pre post : List Request} {R : Request} {n : Nat} {said : List Act} {w' : Web}

/-- What the loop comes to with `post` still to be given: every whole request in the buffer is, or something is lost. -/
def Takes (W : World) (ii : Http.Stack) (p : Pcb) (h : ClientHandle) (w : Web) (reqs : List Request) (fed : Nat)
    (now : Bytes) (pre post : List Request) (n : Nat) (w' : Web) : Prop :=
  (AllUnharmed fed now (pre.flatMap Request.bytes).length post ∧ ∃ v d s pre' post',
    reqs = pre' ++ post' ∧ Loop.run (Web.recvPass W h) n w' = some v ∧ Told p h d s w v ∧
    Fine h ii pre' now d s ∧ Rest d.rqst post') ∨
  (¬ AllUnharmed fed now (pre.flatMap Request.bytes).length post ∧
    ∀ v, Loop.run (Web.recvPass W h) n w' = some v → v.fault = none →
      ∃ d s, Told p h d s w v ∧ Lost ii reqs now.length (requests h s) d)

/-- The loop leaves what is no whole request. -/
theorem takes_rest (t : Told p h c said w w') (hf : Fine h ii pre now c said) (hreqs : reqs = pre ++ post)
    (hrest : Rest c.rqst post)
    (hpart : c.rqst = [] ∨ ∃ (R : Request) (part : Bytes), c.rqst = R.head ++ part ∧ part.length < R.body.length) :
    Takes W ii p h w reqs fed now pre post (n + 1) w' := by
  obtain ⟨v, d, hl, u, hdws, hd⟩ := t.recvPass_rest (W := W) hf.websocket hpart
  exact Or.inl ⟨hrest.unharmed hf.length, v, d, said, pre, post, hreqs, Loop.run_leave hl n, u,
    ⟨hdws, hf.got, by rw [hd]; exact hf.stream⟩, by rw [hd]; exact hrest⟩

/-- A segment that ends inside a head loses bytes of it. -/
theorem takes_cut (t : Told p h c said w w') (hf : Fine h ii pre now c said) (hne : c.rqst ≠ [])
    (hpart : c.rqst <+: R.head) (hshort : c.rqst.length < R.head.length) :
    Takes W ii p h w reqs fed now pre (R :: post) (n + 1) w' := by
  have hlen := hf.length
  have hpos := List.length_pos_iff.2 hne
  refine Or.inr ⟨fun hall => hall.1.1 ⟨by omega, by omega⟩, fun v hrun hv => ?_⟩
  obtain ⟨v', hl, hd⟩ := t.recvPass_cut (W := W) hf.websocket hne hpart hshort
  rw [Loop.run_leave hl] at hrun
  cases hrun
  obtain ⟨d, u, hd⟩ := hd hv
  refine ⟨d, said, u, .short ?_⟩
  have := hf.extent
  omega

/-- A whole request that does not keep to its own body is lost, or the call with it. -/
theorem takes_harmed (hW : Answers W) (t : Told p h c said w w') (hf : Fine h ii pre now c said)
    (hsuits : Suits W ii R) {following text : Bytes} (hreqs : reqs = pre ++ R :: post)
    (hr : c.rqst = R.bytes ++ following) (hrest : following ++ text = post.flatMap Request.bytes)
    (hclean : ¬ R.Clean ii following) {v : Web} (hrun : Loop.run (Web.recvPass W h) (n + 1) w' = some v)
    (hv : v.fault = none) : ∃ d s, Told p h d s w v ∧ Lost ii reqs now.length (requests h s) d := by
  rcases t.recvPass_request hW hf.websocket hsuits hr with
    ⟨f, v', -, hl, hfault⟩ | ⟨r, given, v', d, hg, ha, u, hdws, hd⟩
  · rw [Loop.run_leave hl] at hrun
    cases hrun
    rw [hfault] at hv
    cases hv
  · rw [Loop.run_again ha] at hrun
    exact u.run_lost (hf.lost hreqs hr hrest hclean hg hdws hd) hrun hv

/-- **A whole request is given as it is alone**, and the loop goes on with what is behind it. -/
theorem takes_next (hW : Answers W) (t : Told p h c said w w') (hf : Fine h ii pre now c said)
    (hsuits : Suits W ii R) {following : Bytes} (hr : c.rqst = R.bytes ++ following) (hclean : R.Clean ii following)
    (hnext : ∀ {d : Client} {s : List Act} {v : Web}, Told p h d s w v → Fine h ii (pre ++ [R]) now d s →
      d.rqst = following → Takes W ii p h w reqs fed now (pre ++ [R]) post n v) :
    Takes W ii p h w reqs fed now pre (R :: post) (n + 1) w' := by
  obtain ⟨r', given', hg', hseen, hdrop⟩ := hclean.given
  rcases t.recvPass_request hW hf.websocket hsuits hr with ⟨f, v, hg, -⟩ | ⟨r, given, v, d, hg, ha, u, hdws, hd⟩
  · rw [hg] at hg'
    cases hg'
  · rw [hg] at hg'
    cases hg'
    rw [hdrop] at hd
    have hflat : (pre ++ [R]).flatMap Request.bytes = pre.flatMap Request.bytes ++ R.bytes := by simp
    have hlen := hf.length
    have hhead : R.head.length ≤ R.bytes.length := by rw [Request.bytes, List.length_append]; omega
    have htakes := hnext u (hf.next hr hseen hdws hd) hd
    rw [Takes, hflat, List.length_append] at htakes
    rw [Takes, Loop.run_again ha]
    rw [hr, List.length_append] at hlen
    rcases htakes with ⟨hall, hrun⟩ | ⟨hnot, hrun⟩
    · refine Or.inl ⟨⟨⟨fun hcut => by omega, fun _ _ => ?_⟩, hall⟩, hrun⟩
      rw [hf.drop hr]
      exact (Request.clean_iff hsuits.free).1 hclean
    · exact Or.inr ⟨fun hall => hnot hall.2, hrun⟩

end Loop

/-- **The loop gives every whole request in the buffer to the callback, in order**, or what it loses is lost. -/
theorem run_requests {ii : Http.Stack} (hW : Answers W) : ∀ (post pre : List Request) (n : Nat) {c : Client}
    {said : List Act} {w' : Web}, Told p h c said w w' → Fine h ii pre now c said → reqs = pre ++ post →
    (∀ R ∈ post, Suits W ii R) → c.rqst <+: post.flatMap Request.bytes →
    (∀ R ∈ post.head?, fed < (pre.flatMap Request.bytes).length + R.bytes.length) → c.rqst.length < n →
      Takes W ii p h w reqs fed now pre post n w'
  | _, _, 0, _, _, _, _, _, _, _, _, _, hn => absurd hn (Nat.not_lt_zero _)
  | [], pre, n + 1, c, said, w', t, hf, hreqs, _, hp, _, _ =>
    have hnil : c.rqst = [] := List.prefix_nil.1 hp
    t.takes_rest hf hreqs (Or.inl hnil) (Or.inl hnil)
  | R :: post, pre, n + 1, c, said, w', t, hf, hreqs, hsuits, hp, hfed, hn => by
    obtain ⟨text, htext⟩ := hp
    rw [List.flatMap_cons] at htext
    have hlen := hf.length
    have hR := hsuits R List.mem_cons_self
    rcases Text.part_or_whole htext with ⟨hpart, hlt⟩ | ⟨following, hr, hrest⟩
    · by_cases hcut : c.rqst = [] ∨ R.head.length ≤ c.rqst.length
      · obtain ⟨hbetween, hrest⟩ := rest_of_part post hpart hlt hcut
        exact t.takes_rest hf hreqs hbetween hrest
      · rw [not_or, Nat.not_le] at hcut
        have hhead : R.head <+: R.bytes := ⟨R.body, rfl⟩
        exact t.takes_cut hf hcut.1 (List.prefix_of_prefix_length_le hpart hhead (Nat.le_of_lt hcut.2)) hcut.2
    · rw [hr, List.length_append] at hlen hn
      by_cases hc : R.Clean ii following
      · refine t.takes_next hW hf hR hr hc fun {d s v} u hfine hd => ?_
        have h4 := four_le_bytes R
        have hflat : (pre ++ [R]).flatMap Request.bytes = pre.flatMap Request.bytes ++ R.bytes := by simp
        refine run_requests hW post (pre ++ [R]) n u hfine (by rw [hreqs]; simp)
          (fun R' hR' => hsuits R' (List.mem_cons_of_mem _ hR')) (by rw [hd]; exact ⟨text, hrest⟩) (fun R' _ => ?_)
          (by rw [hd]; omega)
        have := hfed R rfl
        rw [hflat, List.length_append]
        omega
      · refine Or.inr ⟨fun hall => hc ?_, fun v hrun hv => t.takes_harmed hW hf hR hreqs hr hrest hc hrun hv⟩
        rw [Request.clean_iff hR.free, ← hf.drop hr]
        exact hall.1.2 (hfed R rfl) (by omega)

end Told

/-! ## The stream -/

/-- Segments arrive one after another on a connection. -/
def feed (W : World) (p : Pcb) : List Bytes → Web → Web
  | [], w => w
  | seg :: segs, w => feed W p segs (w.andThen fun w => w.tcpServerRecv W p (some seg))

/-- They are steps of the server, each as long as lwIP allows. -/
theorem feed_eq_foldl : ∀ (segs : List Block) (w : Web),
    feed W p (segs.map Subtype.val) w = segs.foldl (fun w seg => w.step W (.recv p (some seg))) w
  | [], _ => rfl
  | _ :: segs, _ => feed_eq_foldl segs _

theorem feed_of_fault {f : Fault} : ∀ (segs : List Bytes) {w : Web}, w.fault = some f → feed W p segs w = w
  | [], _, _ => rfl
  | _ :: segs, w, hf => by rw [feed, andThen_of_fault hf, feed_of_fault segs hf]

namespace Told

variable {h : ClientHandle} {said : List Act} {w' : Web} {reqs : List Request} {ii : Http.Stack}

theorem requests (t : Told p h c said w w') :
    Web.requests h w'.trace = Web.requests h w.trace ++ Web.requests h said := by
  rw [← requests_filter, t.told, requests_append, requests_filter]

/-- **What is lost stays lost.** -/
theorem feed_lost {fed : Nat} : ∀ (segs : List Bytes) {w' : Web},
    (w'.fault = none → ∃ c said, Told p h c said w w' ∧ Lost ii reqs fed (Web.requests h said) c) →
      (feed W p segs w').fault = none → ∃ c said, Told p h c said w (feed W p segs w') ∧
        Lost ii reqs (fed + segs.flatten.length) (Web.requests h said) c
  | [], _, hl, hf => hl hf
  | seg :: segs, w', hl, hf => by
    cases hfault : w'.fault with
    | some f =>
      rw [feed_of_fault _ hfault, hfault] at hf
      cases hf
    | none =>
      obtain ⟨c, said, t, hlost⟩ := hl hfault
      rw [feed, andThen_of_none hfault] at hf ⊢
      rw [List.flatten_cons, List.length_append, ← Nat.add_assoc]
      refine feed_lost segs (fun hseg => ?_) hf
      by_cases hempty : seg = []
      · subst hempty
        rw [t.tcpServerRecv_nil]
        exact ⟨c, said, t, hlost⟩
      · obtain ⟨u, heq⟩ := t.tcpServerRecv_eq (W := W) hempty
        rw [heq, recvLoop] at hseg ⊢
        cases hrun : Loop.run (Web.recvPass W h) ((c.rqst ++ seg).length + 1)
            (w'.put { c with rqst := c.rqst ++ seg }) with
        | none =>
          rw [hrun] at hseg
          cases hseg
        | some v =>
          rw [hrun] at hseg
          exact u.run_lost (hlost.segment seg) hrun hseg

/-- **One segment**: it leaves every request unharmed and is taken in rightly, or something is lost. -/
theorem recv_requests (hW : Answers W) (t : Told p h c said w w') {now : Bytes} {pre post : List Request}
    (hf : Fine h ii pre now c said) (hrest : Rest c.rqst post) (hreqs : reqs = pre ++ post)
    (hsuits : ∀ R ∈ reqs, Suits W ii R) {seg text : Bytes} (hstream : now ++ (seg ++ text) = reqs.flatMap Request.bytes) :
    (AllUnharmed now.length (now ++ seg) 0 reqs ∧ ∃ d s pre' post', reqs = pre' ++ post' ∧
      Told p h d s w (w'.tcpServerRecv W p (some seg)) ∧ Fine h ii pre' (now ++ seg) d s ∧
      Rest d.rqst post') ∨
    (¬ AllUnharmed now.length (now ++ seg) 0 reqs ∧
      ((w'.tcpServerRecv W p (some seg)).fault = none → ∃ d s, Told p h d s w (w'.tcpServerRecv W p (some seg)) ∧
        Lost ii reqs (now ++ seg).length (Web.requests h s) d)) := by
  have hlen : (pre.flatMap Request.bytes).length + c.rqst.length = now.length := by
    rw [← List.length_append, hf.stream]
  have hdone : AllUnharmed now.length (now ++ seg) 0 reqs ↔
      AllUnharmed now.length (now ++ seg) (pre.flatMap Request.bytes).length post := by
    have hle : now.length ≤ (now ++ seg).length := by rw [List.length_append]; omega
    rw [hreqs, allUnharmed_done hle pre 0 (by omega), Nat.zero_add]
  rw [hdone]
  by_cases hempty : seg = []
  · subst hempty
    left
    rw [t.tcpServerRecv_nil, List.append_nil]
    exact ⟨hrest.unharmed hlen, c, said, pre, post, hreqs, t, hf, hrest⟩
  · obtain ⟨u, heq⟩ := t.tcpServerRecv_eq (W := W) hempty
    have hfine : Fine h ii pre (now ++ seg) { c with rqst := c.rqst ++ seg } said :=
      ⟨hf.websocket, hf.got, by rw [← hf.stream, List.append_assoc]⟩
    have hprefix : c.rqst ++ seg <+: post.flatMap Request.bytes := by
      rw [← hf.stream, hreqs, List.flatMap_append, List.append_assoc] at hstream
      exact ⟨text, by rw [List.append_assoc]; exact List.append_cancel_left hstream⟩
    have hhead : ∀ R ∈ post.head?, now.length < (pre.flatMap Request.bytes).length + R.bytes.length := by
      intro R hR
      have h4 := four_le_bytes R
      rcases hrest with hnil | ⟨R', post', rfl, -, hlt⟩
      · rw [hnil, List.length_nil] at hlen
        omega
      · cases hR
        omega
    have hrun := u.run_requests hW post pre ((c.rqst ++ seg).length + 1) hfine hreqs
      (fun R hR => hsuits R (by rw [hreqs]; exact List.mem_append_right _ hR)) hprefix hhead (Nat.lt_succ_self _)
    rw [heq, recvLoop]
    rcases hrun with ⟨hall, v, d, s, pre', post', hsplit, hv, u', hfine', hrest'⟩ | ⟨hnot, hlost⟩
    · left
      rw [hv]
      exact ⟨hall, d, s, pre', post', hsplit, u', hfine', hrest'⟩
    · right
      refine ⟨hnot, fun hfault => ?_⟩
      cases hv : Loop.run (Web.recvPass W h) ((c.rqst ++ seg).length + 1)
          (w'.put { c with rqst := c.rqst ++ seg }) with
      | none =>
        rw [hv] at hfault
        cases hfault
      | some v =>
        rw [hv] at hfault
        exact hlost v hv hfault

/-- **All segments.** -/
theorem feed_requests (hW : Answers W) (hsuits : ∀ R ∈ reqs, Suits W ii R) : ∀ (segs : List Bytes) {c : Client}
    {said : List Act} {w' : Web} {now : Bytes} {pre post : List Request}, Told p h c said w w' →
    Fine h ii pre now c said → Rest c.rqst post → reqs = pre ++ post →
    now ++ segs.flatten = reqs.flatMap Request.bytes →
      (Harmless reqs now segs ∧ ∃ d s, Told p h d s w (feed W p segs w') ∧
        (Web.requests h s).map some = seenAll ii reqs) ∨
      (¬ Harmless reqs now segs ∧ ((feed W p segs w').fault = none →
        ∃ d s, Told p h d s w (feed W p segs w') ∧
          Lost ii reqs (reqs.flatMap Request.bytes).length (Web.requests h s) d))
  | [], c, said, w', now, pre, post, t, hf, hrest, hreqs, hstream => by
    left
    have hnil : post = [] := by
      have hlen := congrArg List.length hstream
      rw [← hf.stream, hreqs, List.flatten_nil, List.append_nil, List.flatMap_append, List.length_append,
        List.length_append] at hlen
      rcases hrest with hr | ⟨R, post', rfl, -, hlt⟩
      · cases post with
        | nil => rfl
        | cons R post' =>
          have := four_le_bytes R
          rw [hr, List.length_nil, List.flatMap_cons, List.length_append] at hlen
          omega
      · rw [List.flatMap_cons, List.length_append] at hlen
        omega
    rw [hnil, List.append_nil] at hreqs
    exact ⟨trivial, c, said, t, by rw [hreqs]; exact hf.got⟩
  | seg :: segs, c, said, w', now, pre, post, t, hf, hrest, hreqs, hstream => by
    rw [List.flatten_cons] at hstream
    have hnext : now ++ seg ++ segs.flatten = reqs.flatMap Request.bytes := by rw [List.append_assoc, hstream]
    rw [feed, andThen_of_none t.fault]
    rcases t.recv_requests hW hf hrest hreqs hsuits hstream with
      ⟨hall, d, s, pre', post', hsplit, u, hf', hrest'⟩ | ⟨hnot, hlost⟩
    · rcases feed_requests hW hsuits segs u hf' hrest' hsplit hnext with ⟨hh, hgood⟩ | ⟨hh, hbad⟩
      · exact Or.inl ⟨⟨hall, hh⟩, hgood⟩
      · exact Or.inr ⟨fun hharm => hh hharm.2, hbad⟩
    · right
      refine ⟨fun hharm => hnot hharm.1, fun hfault => ?_⟩
      have hl := feed_lost segs hlost hfault
      rw [← List.length_append, hnext] at hl
      exact hl

/-- **The condition is exact**: the requests are given as each is alone, with every call returning. -/
theorem harmless_iff (hW : Answers W) (hsuits : ∀ R ∈ reqs, Suits W ii R) (t : Told p h c [] w w)
    (hws : c.websocket = false) (hempty : c.rqst = []) {segs : List Bytes}
    (hstream : segs.flatten = reqs.flatMap Request.bytes) :
    ((feed W p segs w).fault = none ∧ ∃ got, got.map some = seenAll ii reqs ∧
      Web.requests h (feed W p segs w).trace = Web.requests h w.trace ++ got) ↔
      Harmless reqs [] segs := by
  have hf : Fine h ii [] [] c [] := ⟨hws, rfl, hempty⟩
  rcases t.feed_requests hW hsuits segs hf (Or.inl hempty) rfl hstream with ⟨hh, d, s, u, hgot⟩ | ⟨hh, hlost⟩
  · exact ⟨fun _ => hh, fun _ => ⟨u.fault, _, hgot, u.requests⟩⟩
  · refine ⟨fun ⟨hfault, got, hgot, htrace⟩ => ?_, fun hharm => absurd hharm hh⟩
    obtain ⟨d, s, u, hl⟩ := hlost hfault
    rw [u.requests, List.append_cancel_left_eq] at htrace
    rw [← htrace] at hgot
    exact absurd hgot hl.not_all

end Told

/-! ## Each request in a segment of its own -/

/-- A request that comes alone is clean, or its call does not return. -/
theorem Told.recv_whole {h : ClientHandle} {said : List Act} {w' : Web} {ii : Http.Stack} (hW : Answers W) (t : Told p h c said w w')
    (hws : c.websocket = false) (hempty : c.rqst = []) {R : Request} (hsuits : Suits W ii R)
    (hf : (w'.tcpServerRecv W p (some R.bytes)).fault = none) :
    R.Clean ii [] ∧ ∃ d s, Told p h d s w (w'.tcpServerRecv W p (some R.bytes)) ∧ d.websocket = false ∧
      d.rqst = [] := by
  have h4 := four_le_bytes R
  have hne : R.bytes ≠ [] := List.ne_nil_of_length_pos (by omega)
  obtain ⟨u, heq⟩ := t.tcpServerRecv_eq (W := W) hne
  have hlen : (c.rqst ++ R.bytes).length + 1 = R.bytes.length - 1 + 1 + 1 := by
    rw [hempty, List.nil_append]
    omega
  rw [heq, recvLoop, hlen] at hf ⊢
  have hr : c.rqst ++ R.bytes = R.bytes ++ [] := by simp [hempty]
  rcases u.recvPass_request hW hws hsuits hr with
    ⟨f, v, -, hl, hfault⟩ | ⟨r, given, v, d, hg, ha, u', hdws, hd⟩
  · rw [Loop.run_leave hl, Option.getD_some, hfault] at hf
    cases hf
  · have hnil : d.rqst = [] := by
      rw [hd, List.drop_eq_nil_iff]
      exact Nat.le_of_eq (Request.given_ok hg).length
    obtain ⟨v', e, hl, u'', hews, he⟩ := u'.recvPass_rest (W := W) hdws (Or.inl hnil)
    refine ⟨⟨(r, given), hg, by rw [List.append_nil]; exact hg⟩, ?_⟩
    rw [Loop.run_again ha, Loop.run_leave hl]
    exact ⟨e, _, u'', hews, he.trans hnil⟩

theorem Told.feed_whole {h : ClientHandle} {ii : Http.Stack} (hW : Answers W) : ∀ (reqs : List Request) {c : Client} {said : List Act}
    {w' : Web}, (∀ R ∈ reqs, Suits W ii R) → Told p h c said w w' → c.websocket = false → c.rqst = [] →
      (feed W p (reqs.map Request.bytes) w').fault = none → ∀ R ∈ reqs, R.Clean ii []
  | [], _, _, _, _, _, _, _, _ => nofun
  | R :: reqs, c, said, w', hsuits, t, hws, hempty, hf => by
    rw [List.map_cons, feed, andThen_of_none t.fault] at hf
    cases hfault : (w'.tcpServerRecv W p (some R.bytes)).fault with
    | some f =>
      rw [feed_of_fault _ hfault, hfault] at hf
      cases hf
    | none =>
      obtain ⟨hclean, d, s, u, hdws, hd⟩ := t.recv_whole hW hws hempty (hsuits R List.mem_cons_self) hfault
      have hrest := feed_whole hW reqs (fun R' hR' => hsuits R' (List.mem_cons_of_mem _ hR')) u hdws hd hf
      exact List.forall_mem_cons.2 ⟨hclean, hrest⟩

/-- Whole requests harm none. -/
theorem harmless_whole : ∀ (post pre : List Request), (∀ R ∈ post, R.Kept []) →
    Harmless (pre ++ post) (pre.flatMap Request.bytes) (post.map Request.bytes)
  | [], _, _ => trivial
  | R :: post, pre, hkept => by
    have hflat : pre.flatMap Request.bytes ++ R.bytes = (pre ++ [R]).flatMap Request.bytes := by simp
    have hlen : (pre.flatMap Request.bytes ++ R.bytes).length =
        (pre.flatMap Request.bytes).length + R.bytes.length := List.length_append
    have hhead : R.head.length ≤ R.bytes.length := by rw [Request.bytes, List.length_append]; omega
    refine ⟨?_, ?_⟩
    · rw [allUnharmed_done (by omega) pre 0 (by omega), Nat.zero_add]
      refine ⟨⟨fun hcut => by omega, fun _ _ => ?_⟩, allUnharmed_ahead post (Nat.le_of_eq hlen)⟩
      rw [List.drop_of_length_le (Nat.le_of_eq hlen)]
      exact hkept R List.mem_cons_self
    · have ih := harmless_whole post (pre ++ [R]) fun R' hR' => hkept R' (List.mem_cons_of_mem _ hR')
      rw [List.append_assoc, List.singleton_append, ← hflat] at ih
      exact ih

theorem seen_eq_some {ii : Http.Stack} {R : Request} {q : HttpRequest × Bytes} :
    R.seen ii = some q ↔ R.given ii [] = .ok q := by
  unfold Request.seen
  cases R.given ii [] with
  | ok q' => simp
  | error f => simp

section Whole

variable {h : ClientHandle} {ii : Http.Stack} {reqs : List Request}

/-- Requests that are seen alone are given so in segments of their own. -/
theorem Told.given_whole (hW : Answers W) (hsuits : ∀ R ∈ reqs, Suits W ii R) (t : Told p h c [] w w)
    (hws : c.websocket = false) (hempty : c.rqst = []) (hclean : ∀ R ∈ reqs, R.Clean ii []) :
    (feed W p (reqs.map Request.bytes) w).fault = none ∧ ∃ got, got.map some = seenAll ii reqs ∧
      Web.requests h (feed W p (reqs.map Request.bytes) w).trace = Web.requests h w.trace ++ got := by
  have hwhole : (reqs.map Request.bytes).flatten = reqs.flatMap Request.bytes := List.flatMap_def.symm
  exact (t.harmless_iff hW hsuits hws hempty hwhole).2
    (harmless_whole reqs [] fun R hR => (Request.clean_iff (hsuits R hR).free).1 (hclean R hR))

theorem clean_of_given {got : List (HttpRequest × Bytes)} (hgot : got.map some = seenAll ii reqs) :
    ∀ R ∈ reqs, R.Clean ii [] := by
  intro R hR
  have hmem : R.seen ii ∈ got.map some := by
    rw [hgot]
    exact List.mem_map_of_mem hR
  obtain ⟨q, -, hq⟩ := List.mem_map.1 hmem
  have hq := seen_eq_some.1 hq.symm
  exact ⟨q, hq, by rw [List.append_nil]; exact hq⟩

end Whole

/-- The same server, with `stack` under its calls of `uri_decode`. -/
def onStack (W : World) (stack : Nat → Http.Stack) : World := { W with stackByte := stack }

theorem suits_const {reqs : List Request} (hplain : ∀ R ∈ reqs, Plain R) (h0 : ∀ R ∈ reqs, ∀ f ∈ R.fields, 0 ∉ f.value)
    (g : UInt8) : ∀ R ∈ reqs, Suits (onStack W fun _ _ => g) (fun _ => g) R :=
  fun R hR => ⟨hplain R hR, h0 R hR, fun _ _ => rfl⟩

theorem suits_read {reqs : List Request} (hplain : ∀ R ∈ reqs, Plain R) (h0 : ∀ R ∈ reqs, ∀ f ∈ R.fields, 0 ∉ f.value)
    (hread : ∀ R ∈ reqs, R.Read) (stack : Nat → Http.Stack) : ∀ R ∈ reqs, Suits (onStack W stack) (fun _ => 0) R :=
  fun R hR => ⟨hplain R hR, h0 R hR, fun _ following => (hread R hR).given _ _ following⟩

/-- **Requests are given as when each is a segment of its own**, whatever the stack holds, exactly when no segment ends
inside the head of a request, no POST is changed by what is behind it in the buffer, nor changes it, and none is decoded
from what the stack holds. -/
theorem requests_iff (hW : Answers W) (hr : Reachable W Allowed w) (hf : w.fault = none) (hc : w.findClient p = some c)
    (hws : c.websocket = false) (hempty : c.rqst = []) {reqs : List Request} (hplain : ∀ R ∈ reqs, Plain R)
    (h0 : ∀ R ∈ reqs, ∀ f ∈ R.fields, 0 ∉ f.value) {segs : List Bytes}
    (hstream : segs.flatten = reqs.flatMap Request.bytes) :
    (∀ stack stack' : Nat → Http.Stack, (feed (onStack W stack) p segs w).fault = none ∧
      (feed (onStack W stack') p (reqs.map Request.bytes) w).fault = none ∧
      requests c.handle (feed (onStack W stack) p segs w).trace =
        requests c.handle (feed (onStack W stack') p (reqs.map Request.bytes) w).trace) ↔
      Harmless reqs [] segs ∧ ∀ R ∈ reqs, R.Read := by
  have t := Told.start (inv_reachable (fun _ _ => id) hr) hf hc
  have hW' (stack : Nat → Http.Stack) : Answers (onStack W stack) := hW
  constructor
  · intro h
    have hone (g g' : UInt8) : ∃ got, got.map some = seenAll (fun _ => g') reqs ∧
        requests c.handle (feed (onStack W fun _ _ => g) p segs w).trace = requests c.handle w.trace ++ got := by
      obtain ⟨-, h2, heq⟩ := h (fun _ _ => g) (fun _ _ => g')
      have hsuits : ∀ R ∈ reqs, Suits (onStack W fun _ _ => g') (fun _ => g') R := suits_const hplain h0 g'
      obtain ⟨-, got, hgot, htrace⟩ :=
        t.given_whole (hW' _) hsuits hws hempty (t.feed_whole (hW' _) reqs hsuits hws hempty h2)
      exact ⟨got, hgot, heq.trans htrace⟩
    refine ⟨(t.harmless_iff (hW' _) (suits_const hplain h0 0) hws hempty hstream).1
      ⟨(h (fun _ _ => 0) (fun _ _ => 0)).1, hone 0 0⟩, fun R hR => ?_⟩
    obtain ⟨got, hgot, htrace⟩ := hone 0 0
    obtain ⟨q, hq, -⟩ := clean_of_given hgot R hR
    refine Request.read_of_seen (q := q) fun g => ?_
    -- the segments are given on one stack what they are on every other
    obtain ⟨got', hgot', htrace'⟩ := hone 0 g
    rw [htrace, List.append_cancel_left_eq] at htrace'
    rw [← htrace', hgot] at hgot'
    rw [← seen_eq_some, ← List.map_inj_left.1 hgot' R hR]
    exact seen_eq_some.2 hq
  · rintro ⟨hharm, hread⟩ stack stack'
    obtain ⟨h1, got, hgot, htrace⟩ :=
      (t.harmless_iff (hW' stack) (suits_read hplain h0 hread stack) hws hempty hstream).2 hharm
    obtain ⟨h2, got', hgot', htrace'⟩ :=
      t.given_whole (hW' stack') (suits_read hplain h0 hread stack') hws hempty (clean_of_given hgot)
    have hsame : got = got' := List.map_injective_iff.2 (fun _ _ => Option.some.inj) (hgot.trans hgot'.symm)
    exact ⟨h1, h2, by rw [htrace, htrace', hsame]⟩

/-! Two requests, the second with a body, on a connection that is kept. -/

def hostField : Http.Field where
  name := ascii "Host"
  value := ascii "a"
  token := by decide
  plain := by decide
  valued := ⟨97, [], rfl, by decide⟩

def lengthField : Http.Field where
  name := ascii "Content-Length"
  value := ascii "2"
  token := by decide
  plain := by decide
  valued := ⟨50, [], rfl, by decide⟩

def pageRequest : Request where
  method := ascii "GET"
  target := ascii "/"
  version := ascii "HTTP/1.1"
  fields := [hostField]
  body := []
  token := by decide
  nonempty := by decide
  word := by decide
  number := by decide
  declared := rfl
  fits := by decide

def putRequest : Request where
  method := ascii "PUT"
  target := ascii "/"
  version := ascii "HTTP/1.1"
  fields := [hostField, lengthField]
  body := ascii "hi"
  token := by decide
  nonempty := by decide
  word := by decide
  number := by decide
  declared := ⟨by decide, by decide⟩
  fits := by decide

/-- The callback answers and keeps the connection. -/
def keepWorld : World := { httpCallback := some fun _ _ _ _ => { close := false } }

theorem keepWorld_answers : Answers keepWorld := ⟨_, rfl, fun _ _ _ _ => ⟨rfl, rfl⟩⟩

def kept : Web := runOf keepWorld [.accept 1 0]

theorem kept_reachable : Reachable keepWorld Allowed kept := runOf_reachable ⟨by decide, trivial⟩

theorem kept_client : kept.fault = none ∧ ∃ c, kept.findClient 1 = some c ∧ c.websocket = false ∧ c.rqst = [] := by
  have h : kept.fault = none ∧ (kept.findClient 1).isSome = true ∧
      ∀ c ∈ kept.findClient 1, c.websocket = false ∧ c.rqst = [] := by decide
  exact ⟨h.1, exists_client h.2.1 h.2.2⟩

/-- The first request and the second but for the last byte of its body, and that byte. -/
def keptSegments : List Bytes := [pageRequest.bytes ++ putRequest.head ++ [104], [105]]

theorem requests_iff_kept : ∃ c, kept.findClient 1 = some c ∧ ∀ stack stack' : Nat → Http.Stack,
    (feed (onStack keepWorld stack) 1 keptSegments kept).fault = none ∧
      (feed (onStack keepWorld stack') 1 ([pageRequest, putRequest].map Request.bytes) kept).fault = none ∧
      requests c.handle (feed (onStack keepWorld stack) 1 keptSegments kept).trace =
        requests c.handle (feed (onStack keepWorld stack') 1 ([pageRequest, putRequest].map Request.bytes) kept).trace := by
  obtain ⟨hf, c, hc, hws, hempty⟩ := kept_client
  have hplain : ∀ R ∈ [pageRequest, putRequest], Plain R := by
    rintro R hR
    rcases List.mem_pair.1 hR with rfl | rfl
    · unfold Plain; decide
    · unfold Plain; decide
  have hpost : ∀ R ∈ [pageRequest, putRequest], R.method ≠ ascii "POST" := by decide
  have hharmless : Harmless [pageRequest, putRequest] [] keptSegments := by
    refine ⟨⟨⟨by decide +kernel, fun _ _ => ?_⟩, ⟨by decide +kernel, fun _ _ => ?_⟩, trivial⟩,
      ⟨⟨by decide +kernel, fun _ _ => ?_⟩, ⟨by decide +kernel, fun _ _ => ?_⟩, trivial⟩, trivial⟩
    all_goals exact fun h => absurd h (by decide)
  exact ⟨c, hc, (requests_iff keepWorld_answers kept_reachable hf hc hws hempty hplain (by decide) (by decide +kernel)).2
    ⟨hharmless, fun R hR h => absurd h (hpost R hR)⟩⟩

/-- A request line in two segments. -/
theorem requests_cut : ¬ ∀ (W : World) (w : Web) (p : Pcb) (c : Client) (reqs : List Request) (segs : List Bytes),
    Answers W → Reachable W Allowed w → w.fault = none → w.findClient p = some c → c.websocket = false → c.rqst = [] →
    (∀ R ∈ reqs, Plain R) → (∀ seg ∈ segs, seg ≠ []) → segs.flatten = reqs.flatMap Request.bytes →
      (feed W p segs w).fault = none ∧
      requests c.handle (feed W p segs w).trace =
        requests c.handle (feed W p (reqs.map Request.bytes) w).trace := by
  intro h
  obtain ⟨hf, c, hc, hws, hempty⟩ := kept_client
  have hplain : ∀ R ∈ [pageRequest], Plain R := by
    intro R hR
    rw [List.mem_singleton.1 hR]
    unfold Plain
    decide
  have hcut := (h keepWorld kept 1 c [pageRequest] [pageRequest.bytes.take 8, pageRequest.bytes.drop 8]
    keepWorld_answers kept_reachable hf hc hws hempty hplain (by decide +kernel) (by decide +kernel)).1
  exact absurd hcut (by decide +kernel)

end Web
end Pico
