import Picolibs.Handshake
/-!
# LastWord — whether CLOSE is the last word on a websocket

`close_final` says of a websocket's run, from any state of it on, when CLOSE is final in both directions: exactly if
nothing is sent to the client while it is closing (`Quiet`), and no TEXT frame that the peer sends is behind a CLOSE or
nobody is told of messages (`TextsFirst`).  What the client was told follows from the stream of frames, as in `Frames`;
what was queued from one lemma about every event (`Turned`), by induction along the run.
-/
namespace Pico
namespace Web

open Ws (Frame)
open History (Along)

variable {W : World} {w w' w0 : Web} {p : Pcb} {c c0 d : Client} {h : ClientHandle}

/-! ## What a client is told -/

/-- A CLOSE frame came from the client. -/
def shuts : Act → Bool
  | .frame _ opcode _ => opcode == Ws.OpCode.close.code
  | _ => false

def messages : Act → Bool
  | .message _ _ => true
  | _ => false

/-- No message comes after a CLOSE frame. -/
def Deaf (said : List Act) : Prop := said.Pairwise fun a b => shuts a = true → messages b = false

/-- A CLOSE frame of the client was processed. -/
def closeHeard (h : ClientHandle) (w : Web) : Bool := (w.trace.filter (tells h)).any shuts

/-- Nobody is told of messages, or no TEXT frame is behind a CLOSE, of these frames or heard before. -/
def TextsFirst (W : World) (heard : Bool) (frames : List Frame) : Prop := W.messageCallback.isSome = true →
  frames.Pairwise (fun f g => f.opcode = Ws.OpCode.close.code → g.opcode ≠ Ws.OpCode.text.code) ∧
    (heard = true → ∀ g ∈ frames, g.opcode ≠ Ws.OpCode.text.code)

theorem shuts_report (W : World) (h : ClientHandle) (f : Frame) :
    (∃ a ∈ report W h f, shuts a = true) ↔ f.opcode = Ws.OpCode.close.code := by
  rw [report, List.exists_mem_cons_iff, shuts, beq_iff_eq, or_iff_left]
  rintro ⟨a, ha, hshuts⟩
  unfold heard at ha
  split at ha
  · rw [List.mem_singleton.1 ha] at hshuts
    cases hshuts
  · exact List.not_mem_nil ha

theorem messages_report (W : World) (h : ClientHandle) (f : Frame) :
    (∃ a ∈ report W h f, messages a = true) ↔ f.opcode = Ws.OpCode.text.code ∧ W.messageCallback.isSome = true := by
  have hframe : messages (.frame h f.opcode f.payload) = false := rfl
  rw [report, List.exists_mem_cons_iff, hframe, or_iff_right Bool.false_ne_true, heard]
  split
  · next htext => exact iff_of_true ⟨_, List.mem_singleton_self _, rfl⟩ htext
  · next hno =>
    refine iff_of_false ?_ hno
    rintro ⟨a, ha, -⟩
    exact List.not_mem_nil ha

/-- No message is told of the frame. -/
theorem silent_report (W : World) (h : ClientHandle) (f : Frame) : (∀ a ∈ report W h f, messages a = false) ↔
    (W.messageCallback.isSome = true → f.opcode ≠ Ws.OpCode.text.code) := by
  have hall : (∀ a ∈ report W h f, messages a = false) ↔ ¬ ∃ a ∈ report W h f, messages a = true := by
    simp only [not_exists, not_and, Bool.not_eq_true]
  rw [hall, messages_report W h f, not_and']

/-- **What frames tell is deaf to them behind a CLOSE exactly if no TEXT is there.** -/
theorem deaf_reports (W : World) (h : ClientHandle) (heard : Bool) (frames : List Frame) :
    (Deaf (frames.flatMap (report W h)) ∧
      (heard = true → ∀ a ∈ frames.flatMap (report W h), messages a = false)) ↔ TextsFirst W heard frames := by
  have hone (f : Frame) : (report W h f).Pairwise fun a b => shuts a = true → messages b = false := by
    unfold report Web.heard
    split
    · next htext =>
      refine List.pairwise_cons.2 ⟨fun b _ hshuts => ?_, List.pairwise_singleton _ _⟩
      rw [shuts, htext.1] at hshuts
      cases hshuts
    · exact List.pairwise_singleton _ _
  have htwo (f g : Frame) : (∀ a ∈ report W h f, ∀ b ∈ report W h g, shuts a = true → messages b = false) ↔
      (W.messageCallback.isSome = true → f.opcode = Ws.OpCode.close.code → g.opcode ≠ Ws.OpCode.text.code) := by
    rw [forall_comm (α := W.messageCallback.isSome = true), ← silent_report W h g, ← shuts_report W h f]
    exact ⟨fun hall ⟨a, ha, hshuts⟩ b hb => hall a ha b hb hshuts, fun hall a ha b hb hshuts => hall ⟨a, ha, hshuts⟩ b hb⟩
  have hmem : (∀ a ∈ frames.flatMap (report W h), messages a = false) ↔
      (W.messageCallback.isSome = true → ∀ g ∈ frames, g.opcode ≠ Ws.OpCode.text.code) := by
    rw [List.forall_mem_flatMap]
    simp only [silent_report]
    exact ⟨fun hall hcb g hg => hall g hg hcb, fun hall g hg hcb => hall hcb g hg⟩
  rw [Deaf, List.pairwise_flatMap, and_iff_right fun f _ => hone f, List.Pairwise.iff fun {f g} => htwo f g, hmem,
    TextsFirst]
  cases W.messageCallback.isSome with
  | false => exact iff_of_true ⟨List.pairwise_of_forall fun _ _ => nofun, fun _ => nofun⟩ nofun
  | true => simp only [forall_const]

theorem TextsFirst.of_append {heard : Bool} {done rest : List Frame} (ht : TextsFirst W heard (done ++ rest)) :
    TextsFirst W heard done := fun hcb =>
  ⟨(List.pairwise_append.1 (ht hcb).1).1, fun hh g hg => (ht hcb).2 hh g (List.mem_append_left rest hg)⟩

/-! ## The stream of frames -/

/-- What an event brings on the connection. -/
def bytesOn (p : Pcb) : Event → Bytes
  | .recv q (some data) => if q = p then data.val else []
  | _ => []

theorem bytesOn_segment (p : Pcb) (data : Block) : bytesOn p (.recv p (some data)) = data.val := if_pos rfl

theorem bytesOn_other {e : Event} (hrecv : ∀ data, e ≠ .recv p (some data)) : bytesOn p e = [] := by
  cases e with
  | recv q segment =>
    cases segment with
    | none => rfl
    | some data => exact if_neg fun he => hrecv data (by rw [he])
  | _ => rfl

def arrived (p : Pcb) (es : List Event) : Bytes := es.flatMap (bytesOn p)

/-- Of a stream of frames that ends inside `last`, `frames` are still to be taken off: the client holds less than the
next one, and `text` is still to come. -/
structure Streams (last : Frame) (part : Bytes) (c : Client) (text : Bytes) (frames : List Frame) : Prop where
  stream : c.rqst ++ text = frames.flatMap Frame.bytes ++ part
  short : c.rqst.length < (frames.head?.getD last).bytes.length

/-- What a segment makes of the buffer are whole frames, and less than one. -/
def Cut (p : Pcb) (w : Web) (e : Event) : Prop := w.fault = none → ∀ data, e = .recv p (some data) →
  ∀ c, w.findClient p = some c → ∃ (done : List Frame) (more : Bytes) (last : Frame),
    c.rqst ++ data.val = done.flatMap Frame.bytes ++ more ∧ more <+: last.bytes ∧ more.length < last.bytes.length

theorem run_of_fault {f : Fault} (hf : w.fault = some f) : ∀ es : List Event, es.foldl (step W) w = w
  | [] => rfl
  | e :: es => by rw [List.foldl_cons, step_of_fault hf e, run_of_fault hf es]

theorem cut_of_fault {f : Fault} (hf : w.fault = some f) : ∀ es : List Event, Along (step W) (Cut p) w es
  | [] => trivial
  | e :: es => by
    refine ⟨fun hnone => ?_, ?_⟩
    · rw [hf] at hnone
      cases hnone
    · rw [step_of_fault hf e]
      exact cut_of_fault hf es

section Stream

variable {part text : Bytes} {last : Frame} {frames : List Frame} {said : List Act}

theorem Streams.begins (s : Streams last part c text frames) (hpart : part <+: last.bytes) :
    c.rqst <+: (frames.head?.getD last).bytes := by
  obtain ⟨hstream, hshort⟩ := s
  cases frames with
  | nil => exact List.IsPrefix.trans ⟨text, hstream⟩ hpart
  | cons f fs =>
    rw [List.flatMap_cons, List.append_assoc] at hstream
    exact List.prefix_of_prefix_length_le ⟨text, hstream⟩ (List.prefix_append _ _) (Nat.le_of_lt hshort)

/-- Nothing is left of the stream. -/
theorem Streams.over (s : Streams last part c [] frames) : frames = [] := by
  obtain ⟨hstream, hshort⟩ := s
  cases frames with
  | nil => rfl
  | cons f fs =>
    rw [List.append_nil] at hstream
    rw [hstream, List.flatMap_cons, List.append_assoc, List.length_append] at hshort
    exact absurd hshort (Nat.not_lt.2 (Nat.le_add_right _ _))

/-- What an event comes to for a client that is given a stream of frames: a fault or the end of the connection, by which
the client is told nothing, or the next frames are told of. -/
inductive Heard (W : World) (p : Pcb) (h : ClientHandle) (last : Frame) (part text : Bytes) (frames : List Frame)
    (said : List Act) (w0 w : Web) : Prop where
  | faulted (f : Fault) : w.fault = some f → w.trace.filter (tells h) = w0.trace.filter (tells h) ++ said →
      Heard W p h last part text frames said w0 w
  | gone : w.findClient p = none → w.trace.filter (tells h) = w0.trace.filter (tells h) ++ said →
      (text = [] → frames = []) → Heard W p h last part text frames said w0 w
  | on (done rest : List Frame) (d : Client) : frames = done ++ rest →
      Told p h d (said ++ done.flatMap (report W h)) w0 w → d.websocket = true → Streams last part d text rest →
      Heard W p h last part text frames said w0 w

/-- **An event on the connection or elsewhere**, as the client hears of it. -/
theorem Told.hears (t : Told p h c said w0 w) (hws : c.websocket = true) (hpart : part <+: last.bytes)
    (hlast : part.length < last.bytes.length) {e : Event} (s : Streams last part c (bytesOn p e ++ text) frames)
    (ha : Allowed w e) (hbare : ∀ data allocated, e ≠ .sendBuffer p data allocated) :
    Cut p w e ∧ Heard W p h last part text frames said w0 (w.step W e) := by
  by_cases hsegment : ∃ data, e = .recv p (some data)
  · obtain ⟨data, rfl⟩ := hsegment
    obtain ⟨hstream, hshort⟩ := s
    rw [bytesOn_segment] at hstream
    obtain ⟨done, rest, d, hsplit, u, hdws, hd, hdshort, htaken⟩ :=
      t.recv_frames (W := W) hws hpart hlast data hstream hshort
    refine ⟨fun _ data' he c' hc' => ?_, .on done rest d hsplit u hdws ⟨hd, hdshort⟩⟩
    cases he
    rw [t.find] at hc'
    cases hc'
    exact ⟨done, d.rqst, rest.head?.getD last, htaken, Streams.begins ⟨hd, hdshort⟩ hpart, hdshort⟩
  · have hrecv : ∀ data, e ≠ .recv p (some data) := fun data he => hsegment ⟨data, he⟩
    refine ⟨fun _ data he => absurd he (hrecv data), ?_⟩
    rw [bytesOn_other hrecv, List.nil_append] at s
    have hstays {d : Client} (hd : (w.step W e).findClient p = some d) (hh : d.handle = h)
        (hdws : d.websocket = true) (hrqst : d.rqst = c.rqst)
        (htold : (w.step W e).trace.filter (tells h) = w0.trace.filter (tells h) ++ said) :
        Heard W p h last part text frames said w0 (w.step W e) := by
      cases hf : (w.step W e).fault with
      | some f => exact .faulted f hf htold
      | none =>
        refine .on [] frames d rfl ⟨inv_step t.inv ha, hf, hd, hh, ?_⟩ hdws ⟨?_, ?_⟩
        · rw [htold, List.flatMap_nil, List.append_nil]
        · rw [hrqst]
          exact s.stream
        · rw [hrqst]
          exact s.short
    by_cases hturn : e.turn.pcb = some p
    · have hkept := own_kept (W := W) t.inv t.fault t.find ha hturn hbare hrecv
      have htold := hkept.told
      rw [t.handle, t.told] at htold
      cases hd : (w.step W e).findClient p with
      | some d =>
        obtain ⟨b, -, -, -, hsame⟩ := hkept.shakes
        exact hstays hd ((hsame d hd).handle.trans t.handle) ((hsame d hd).websocket.trans hws) (hkept.rqst d hd) htold
      | none =>
        refine .gone hd htold fun hnil => ?_
        rw [hnil] at s
        exact s.over
    · obtain ⟨d, hd, hs, htold⟩ := other_keeps (W := W) t.inv t.fault t.find ha hturn
      rw [t.handle, t.told] at htold
      exact hstays hd (hs.handle.trans t.handle) (hs.websocket.trans hws) hs.rqst htold

/-- **A run on a stream of frames**: the client is told of them in order, of all if every call returns, and each segment
makes whole frames and part of one of the buffer. -/
theorem told_run (hpart : part <+: last.bytes) (hlast : part.length < last.bytes.length) : ∀ (es : List Event)
    {frames : List Frame} {said : List Act} {c : Client} {w : Web}, Told p h c said w0 w → c.websocket = true →
      Streams last part c (arrived p es) frames → Along (step W) (fun w e => Allowed w e ∧ Framed W p h w e) w es →
      Along (step W) (Cut p) w es ∧ ∃ done rest, frames = done ++ rest ∧
        (es.foldl (step W) w).trace.filter (tells h) =
          w0.trace.filter (tells h) ++ (said ++ done.flatMap (report W h)) ∧
        ((es.foldl (step W) w).fault = none → rest = [])
  | [], frames, said, c, w, t, _, s, _ =>
    ⟨trivial, [], frames, rfl, by rw [List.flatMap_nil, List.append_nil]; exact t.told, fun _ => s.over⟩
  | e :: es, frames, said, c, w, t, hws, s, ⟨⟨ha, hfr⟩, hes⟩ => by
    rw [arrived, List.flatMap_cons] at s
    obtain ⟨hcut, hheard⟩ := t.hears (W := W) hws hpart hlast s ha hfr.bare
    rw [List.foldl_cons]
    cases hheard with
    | faulted f hf htold =>
      rw [run_of_fault hf]
      refine ⟨⟨hcut, cut_of_fault hf es⟩, [], frames, rfl, by rw [List.flatMap_nil, List.append_nil]; exact htold,
        fun hnone => ?_⟩
      rw [hf] at hnone
      cases hnone
    | gone hnone htold hall =>
      cases es with
      | nil =>
        exact ⟨⟨hcut, trivial⟩, [], frames, rfl, by rw [List.flatMap_nil, List.append_nil]; exact htold,
          fun _ => hall rfl⟩
      | cons e' es =>
        have hthere := hes.1.2.there
        rw [hnone] at hthere
        cases hthere
    | on done rest d hsplit u hdws s' =>
      obtain ⟨hcuts, done', rest', hsplit', htold, hall⟩ := told_run hpart hlast es u hdws s' hes
      refine ⟨⟨hcut, hcuts⟩, done ++ done', rest', by rw [hsplit, hsplit', List.append_assoc], ?_, hall⟩
      rw [htold, List.flatMap_append, List.append_assoc]

end Stream

/-! ## What is queued in a step -/

/-- What an event makes of the queue on a websocket: a quiet one hands the closing on, and one that returns and queues
nothing for a closing client was quiet. -/
structure Turned (W : World) (p : Pcb) (c : Client) (w : Web) (e : Event) : Prop where
  inv : (w.step W e).Inv
  same : ∀ d, (w.step W e).findClient p = some d → d.handle = c.handle ∧ d.websocket = c.websocket
  grows : queuedOn p w <+: queuedOn p (w.step W e)
  closing : closing p (w.step W e) = true → closing p w = true ∨ Announced p w (w.step W e)
  shakes : Quiet W p c.handle w e → Shakes p c w (w.step W e)
  quiet : (w.step W e).fault = none → (Web.closing p w = true → queuedOn p (w.step W e) = queuedOn p w) →
    Quiet W p c.handle w e

/-- **A segment of the client.** -/
theorem turned_segment (i : w.Inv) (hf : w.fault = none) (hc : w.findClient p = some c) (hws : c.websocket = true)
    {data : Block} (hfr : Framed W p c.handle w (.recv p (some data))) (hcut : Cut p w (.recv p (some data))) :
    Turned W p c w (.recv p (some data)) := by
  obtain ⟨done, more, last, htext, hmore, hlt⟩ := hcut hf data rfl c hc
  have t := Told.start i hf hc
  by_cases hempty : data.val = []
  · have hstep := t.recv_empty (W := W) hempty
    refine ⟨by rw [hstep]; exact i, fun d hd => ?_, ⟨[], by rw [hstep, List.append_nil]⟩, fun h => Or.inl ?_,
      fun _ => ?_, fun _ _ => ⟨fun _ _ hne => absurd hempty hne, ?_⟩⟩
    · rw [hstep, hc] at hd
      cases hd
      exact ⟨rfl, rfl⟩
    · rw [hstep] at h
      exact h
    · rw [hstep]
      exact .still rfl (found hc ⟨rfl, rfl, rfl⟩)
    · intro _ data' c' he hne
      cases he
      exact absurd hempty hne
  · obtain ⟨u, hstep⟩ := t.recv_eq (W := W) hempty
    obtain ⟨done', rest, v, d, hsplit, hrun, u', hdws, hd, hlt', -, hpasses⟩ := u.run_frames (W := W) [] hmore hlt
      done ((c.rqst ++ data.val).length + 1) hws (by rw [List.append_nil]; exact htext) (Nat.lt_succ_self _)
    have hv : w.step W (.recv p (some data)) = v := by rw [hstep, recvLoop, hrun, Option.getD_some]
    have hrest : rest = [] := Streams.over ⟨hd, hlt'⟩
    rw [hrest, List.append_nil] at hsplit
    rw [← hsplit] at hpasses
    have hplain : Passes.Plain W c.handle (w.put { c with rqst := c.rqst ++ data.val }) := hfr.calls c hc hempty
    have hput : closing p (w.put { c with rqst := c.rqst ++ data.val }) = closing p w := by
      rw [closing, closing, u.find, hc]
      rfl
    have hread : Shakes p c w (w.put { c with rqst := c.rqst ++ data.val }) :=
      .still rfl (found u.find ⟨rfl, rfl, rfl⟩)
    obtain ⟨hend, hall⟩ := hpasses.closing_of hplain
    rw [hput] at hend hall
    refine ⟨by rw [hv]; exact u'.inv, fun e he => ?_, by rw [hv]; exact hpasses.grows hplain, fun h => Or.inl ?_,
      fun hq => ?_, fun _ hq => ⟨?_, ?_⟩⟩
    · rw [hv, u'.find] at he
      cases he
      exact ⟨u'.handle, hdws.trans hws.symm⟩
    · rw [hv] at h
      exact hend h
    · rw [hv]
      refine hread.trans u.find (hpasses.shakes hplain (fun hclosing =>
        ⟨fun s hs hcs a ha => hq.calls c hc hempty s hs a ha hcs, ?_⟩) _ u.find)
      rw [hput] at hclosing
      have hpings := hq.pings hclosing data c rfl hempty hc
      rw [htext, pingsBehind_iff hmore hlt] at hpings
      exact hpings
    · intro k hk _ s hs a ha hcs
      rw [hc] at hk
      cases hk
      rw [hv] at hq
      exact ((hpasses.silent_iff hplain (hput.trans (hall s hs hcs))).1 (hq (hall s hs hcs))).calls s hs hcs a ha
    · intro hclosing data' k he _ hk
      cases he
      rw [hc] at hk
      cases hk
      rw [hv] at hq
      rw [htext, pingsBehind_iff hmore hlt]
      exact ((hpasses.silent_iff hplain (hput.trans hclosing)).1 (hq hclosing)).pings

/-- **An event of the client other than a segment.** -/
theorem turned_own (i : w.Inv) (hf : w.fault = none) (hc : w.findClient p = some c) {e : Event} (ha : Allowed w e)
    (hturn : e.turn.pcb = some p) (hbare : ∀ data allocated, e ≠ .sendBuffer p data allocated)
    (hrecv : ∀ data, e ≠ .recv p (some data)) : Turned W p c w e := by
  have k := own_kept (W := W) i hf hc ha hturn hbare hrecv
  obtain ⟨b, -, -, -, hsame⟩ := k.shakes
  refine ⟨inv_step i ha, fun d hd => ⟨(hsame d hd).handle, (hsame d hd).websocket⟩, k.shakes.grows, k.closing,
    fun _ => k.shakes, fun _ _ => ⟨?_, fun _ data c' he => absurd he (hrecv data)⟩⟩
  cases e with
  | app a => cases hturn
  | recv q segment =>
    cases hturn
    cases segment with
    | none => trivial
    | some data => exact absurd rfl (hrecv data)
  | _ => trivial

/-- **An event of another connection, or a call.** -/
theorem turned_other (i : w.Inv) (hf : w.fault = none) (hc : w.findClient p = some c) (hws : c.websocket = true)
    {e : Event} (ha : Allowed w e) (hturn : e.turn.pcb ≠ some p) (hfr : Framed W p c.handle w e) :
    Turned W p c w e := by
  obtain ⟨T, hadds, hspoken, hunspoken⟩ := other_adds (W := W) i hf hc hws ha hturn hfr.calls
  obtain ⟨d, hd, hs, -⟩ := other_keeps (W := W) i hf hc ha hturn
  have hcalls := eachCall_closing (W := W) i hc hturn fun a => a.speaks c.handle = false
  refine ⟨inv_step i ha, fun d' hd' => ?_, hadds.grows, fun h => Or.inl ?_, fun hq => ?_, fun hreturns hq => ⟨?_, ?_⟩⟩
  · rw [hd] at hd'
    cases hd'
    exact ⟨hs.handle, hs.websocket⟩
  · rw [closing_same hc hd hs] at h
    exact h
  · refine .adds hadds (fun hsent hT => ?_) (found hd hs.socket)
    obtain ⟨hopen, hno⟩ := hspoken hT
    exact hno (hcalls.1 hq.calls ((closing_iff hc).2 ⟨hsent, hopen⟩))
  · refine hcalls.2 fun hclosing => hunspoken hreturns ((closing_iff hc).1 hclosing).2 ?_
    exact hadds.same_iff.1 (hq hclosing)
  · rintro - data c' rfl
    exact absurd rfl hturn

/-- **Any event.** -/
theorem turned (i : w.Inv) (hf : w.fault = none) (hc : w.findClient p = some c) (hws : c.websocket = true) {e : Event}
    (ha : Allowed w e) (hfr : Framed W p c.handle w e) (hcut : Cut p w e) : Turned W p c w e := by
  by_cases hturn : e.turn.pcb = some p
  · by_cases hsegment : ∃ data, e = .recv p (some data)
    · obtain ⟨data, rfl⟩ := hsegment
      exact turned_segment i hf hc hws hfr hcut
    · exact turned_own i hf hc ha hturn hfr.bare fun data he => hsegment ⟨data, he⟩
  · exact turned_other i hf hc hws ha hturn hfr

/-! ## What is queued in a run -/

/-- Of the frames queued since `w0` only the last may be a CLOSE, and there are none if one was sent before. -/
def LastSent (p : Pcb) (c0 : Client) (w0 w : Web) : Prop := ∃ frames, queuedOn p w = queuedOn p w0 ++ frames ∧
  CloseLast frames ∧ (c0.wsCloseSent = true → frames = [])

/-- Nothing is queued behind a CLOSE. -/
theorem LastSent.ends {w1 w2 : Web} (hl : LastSent p c0 w0 w2) (hgrows : queuedOn p w0 <+: queuedOn p w1)
    (hlater : queuedOn p w1 <+: queuedOn p w2) (hclose : c0.wsCloseSent = true ∨ Announced p w0 w1) :
    queuedOn p w2 = queuedOn p w1 := by
  obtain ⟨frames, hq, hlast, hsent⟩ := hl
  obtain ⟨more, hmore⟩ := hlater
  rcases hclose with hc0 | ⟨fs, f, hfs, hf, hisClose⟩
  · rw [hsent hc0, List.append_nil] at hq
    have hle : queuedOn p w2 <+: queuedOn p w1 := hq ▸ hgrows
    exact hle.eq_of_length_le (by rw [← hmore, List.length_append]; exact Nat.le_add_right _ _)
  · cases more with
    | nil => rw [← hmore, List.append_nil]
    | cons x xs =>
      rw [← hmore, hfs, List.append_assoc, List.append_cancel_left_eq] at hq
      have hmem : f ∈ frames.dropLast := by
        rw [← hq, List.dropLast_append_of_ne_nil (List.cons_ne_nil x xs)]
        exact List.mem_append_left _ hf
      rw [hlast f hmem] at hisClose
      cases hisClose

/-- The run goes on with the same websocket. -/
structure Stands (p : Pcb) (h : ClientHandle) (w : Web) : Prop where
  inv : w.Inv
  socket : ∀ d, w.findClient p = some d → d.handle = h ∧ d.websocket = true

/-- A step of a websocket's run. -/
structure Runs (W : World) (p : Pcb) (h : ClientHandle) (w : Web) (e : Event) : Prop where
  allowed : Allowed w e
  framed : Framed W p h w e
  cut : Cut p w e

theorem Stands.turned (s : Stands p h w) (hf : w.fault = none) {e : Event} (hr : Runs W p h w e) :
    ∃ d, w.findClient p = some d ∧ d.handle = h ∧ Turned W p d w e ∧ Stands p h (w.step W e) := by
  obtain ⟨d, hd⟩ := Option.isSome_iff_exists.1 hr.framed.there
  obtain ⟨rfl, hws⟩ := s.socket d hd
  have t := Web.turned s.inv hf hd hws hr.allowed hr.framed hr.cut
  exact ⟨d, hd, rfl, t, t.inv, fun d' hd' => ⟨(t.same d' hd').1, (t.same d' hd').2.trans hws⟩⟩

theorem Stands.grows : ∀ (es : List Event) {w : Web}, Stands p h w → Along (step W) (Runs W p h) w es →
    queuedOn p w <+: queuedOn p (es.foldl (step W) w)
  | [], _, _, _ => List.prefix_refl _
  | e :: es, w, s, ⟨hr, hes⟩ => by
    cases hf : w.fault with
    | some f => exact ⟨[], by rw [run_of_fault hf, List.append_nil]⟩
    | none =>
      obtain ⟨d, -, -, t, s'⟩ := s.turned hf hr
      exact List.IsPrefix.trans t.grows (s'.grows es hes)

/-- The run since `w0`, where the websocket's client was `c0`. -/
structure Live (p : Pcb) (c0 : Client) (w0 w : Web) : Prop where
  stands : Stands p c0.handle w
  shakes : Shakes p c0 w0 w
  announced : closing p w = true → c0.wsCloseSent = true ∨ Announced p w0 w

namespace Live

theorem start (i : w0.Inv) (hc : w0.findClient p = some c0) (hws : c0.websocket = true) : Live p c0 w0 w0 := by
  refine ⟨⟨i, fun d hd => ?_⟩, .still rfl (found hc ⟨rfl, rfl, rfl⟩), fun h => Or.inl ((closing_iff hc).1 h).1⟩
  rw [hc] at hd
  cases hd
  exact ⟨rfl, hws⟩

theorem lastSent (l : Live p c0 w0 w) : LastSent p c0 w0 w := by
  obtain ⟨b, frames, hq, hs, -⟩ := l.shakes
  exact ⟨frames, hq, hs.last, fun hsent => (hs.shut hsent).2⟩

theorem next (l : Live p c0 w0 w) (hd : w.findClient p = some d) {e : Event} (t : Turned W p d w e)
    (hq : Quiet W p d.handle w e) (s : Stands p c0.handle (w.step W e)) : Live p c0 w0 (w.step W e) := by
  refine ⟨s, l.shakes.trans hd (t.shakes hq), fun hclosing => ?_⟩
  rcases t.closing hclosing with h | ha
  · exact (l.announced h).imp_right fun ha => ha.later t.grows
  · exact Or.inr (ha.earlier l.shakes.grows)

/-- **A quiet run.** -/
theorem run : ∀ (es : List Event) {w : Web}, Live p c0 w0 w → Along (step W) (Runs W p c0.handle) w es →
    Along (step W) (Quiet W p c0.handle) w es → Live p c0 w0 (es.foldl (step W) w)
  | [], _, l, _, _ => l
  | e :: es, w, l, ⟨hr, hes⟩, ⟨hq, hqs⟩ => by
    cases hf : w.fault with
    | some f =>
      rw [run_of_fault hf]
      exact l
    | none =>
      obtain ⟨d, hd, hh, t, s⟩ := l.stands.turned hf hr
      exact run es (l.next hd t (by rw [hh]; exact hq) s) hes hqs

/-- **A run that returns with nothing behind a CLOSE was quiet.** -/
theorem quiet : ∀ (es : List Event) {w : Web}, Live p c0 w0 w → Along (step W) (Runs W p c0.handle) w es →
    (es.foldl (step W) w).fault = none → LastSent p c0 w0 (es.foldl (step W) w) →
    Along (step W) (Quiet W p c0.handle) w es
  | [], _, _, _, _, _ => trivial
  | e :: es, w, l, ⟨hr, hes⟩, hreturns, hlast => by
    have hf : w.fault = none := by
      cases hf : w.fault with
      | none => rfl
      | some f =>
        rw [run_of_fault hf, hf] at hreturns
        cases hreturns
    have hf' : (w.step W e).fault = none := by
      cases hf' : (w.step W e).fault with
      | none => rfl
      | some f =>
        rw [List.foldl_cons, run_of_fault hf', hf'] at hreturns
        cases hreturns
    obtain ⟨d, hd, hh, t, s⟩ := l.stands.turned hf hr
    have hrest := s.grows es hes
    have hq : Quiet W p c0.handle w e := by
      rw [← hh]
      refine t.quiet hf' fun hclosing => ?_
      have hends := hlast.ends l.shakes.grows (t.grows.trans hrest) (l.announced hclosing)
      rw [List.foldl_cons] at hends
      have hle : queuedOn p (w.step W e) <+: queuedOn p w := hends ▸ hrest
      exact hle.eq_of_length_le t.grows.length_le
    exact ⟨hq, quiet es (l.next hd t (by rw [hh]; exact hq) s) hes hreturns hlast⟩

end Live

/-! ## The last word -/

/-- CLOSE was final in both directions since `w0`, where the client was `c`: no frame was queued behind a CLOSE, and no
message of the client was passed on after a CLOSE frame of it. -/
structure LastWord (p : Pcb) (c : Client) (w0 w : Web) : Prop where
  queued : LastSent p c w0 w
  told : ∃ said, w.trace.filter (tells c.handle) = w0.trace.filter (tells c.handle) ++ said ∧ Deaf said ∧
    (closeHeard c.handle w0 = true → ∀ a ∈ said, messages a = false)

theorem along_runs : ∀ (es : List Event) {w : Web},
    Along (step W) (fun w e => Allowed w e ∧ Framed W p h w e) w es → Along (step W) (Cut p) w es →
      Along (step W) (Runs W p h) w es
  | [], _, _, _ => trivial
  | _ :: es, _, ⟨⟨ha, hfr⟩, hes⟩, ⟨hcut, hcuts⟩ => ⟨⟨ha, hfr, hcut⟩, along_runs es hes hcuts⟩

/-- **CLOSE is final in both directions** in a websocket's run, from any state of it on and on any stream of frames in
any segmentation, if nothing is sent to the client while it is closing and no TEXT of it is behind a CLOSE, or nobody is
told of messages; and in a run in which every call returns only then. -/
theorem close_final (hr : Reachable W Allowed w0) (hc : w0.findClient p = some c) (hws : c.websocket = true)
    (es : List Event) (ha : Along (step W) (fun w e => Allowed w e ∧ Framed W p c.handle w e) w0 es)
    (frames : List Frame) (last : Frame) {part : Bytes} (hpart : part <+: last.bytes)
    (hlast : part.length < last.bytes.length) (hs : Streams last part c (arrived p es) frames) :
    (Along (step W) (Quiet W p c.handle) w0 es ∧ TextsFirst W (closeHeard c.handle w0) frames →
      LastWord p c w0 (es.foldl (step W) w0)) ∧
    ((es.foldl (step W) w0).fault = none → LastWord p c w0 (es.foldl (step W) w0) →
      Along (step W) (Quiet W p c.handle) w0 es ∧ TextsFirst W (closeHeard c.handle w0) frames) := by
  have i := inv_reachable (fun _ _ => id) hr
  have l : Live p c w0 w0 := .start i hc hws
  cases hf : w0.fault with
  | some f =>
    rw [run_of_fault hf]
    refine ⟨fun _ => ⟨l.lastSent, [], (List.append_nil _).symm, List.Pairwise.nil, fun _ => nofun⟩, fun hnone => ?_⟩
    rw [hf] at hnone
    cases hnone
  | none =>
    obtain ⟨hcuts, done, rest, rfl, htold, hall⟩ := told_run hpart hlast es (Told.start i hf hc) hws hs ha
    rw [List.nil_append] at htold
    have hruns := along_runs es ha hcuts
    refine ⟨fun ⟨hquiet, htexts⟩ => ⟨(l.run es hruns hquiet).lastSent, _, htold, ?_⟩, fun hreturns hword => ⟨?_, ?_⟩⟩
    · exact (deaf_reports W c.handle _ done).2 htexts.of_append
    · exact l.quiet es hruns hreturns hword.queued
    · obtain ⟨said, hsaid, hdeaf⟩ := hword.told
      rw [htold, List.append_cancel_left_eq] at hsaid
      rw [← hsaid] at hdeaf
      rw [hall hreturns, List.append_nil]
      exact (deaf_reports W c.handle _ done).1 hdeaf

/-! A server that closes idle websockets, a websocket on it, and a broadcast before its poll or behind it. -/

def idleWorld : World := { wsIdleTime := 1, now := fun tick => 200000000 * tick }

def idleSocket : Web := runOf idleWorld upgradeRun

theorem idleSocket_reachable : Reachable idleWorld Allowed idleSocket := runOf_reachable ⟨by decide, trivial, trivial⟩

def sayHi : Event := .app (.broadcastWebsocket (ascii "hi"))

theorem idleSocket_client : closing 1 idleSocket = false ∧
    (∃ c, idleSocket.findClient 1 = some c ∧ c.websocket = true ∧ c.rqst = []) ∧
    ((idleSocket.step idleWorld sayHi).findClient 1).isSome = true ∧
    ((idleSocket.step idleWorld (.poll 1)).findClient 1).isSome = true ∧
    queuedOn 1 ([Event.poll 1, sayHi].foldl (step idleWorld) idleSocket) =
      queuedOn 1 idleSocket ++ [[0x88, 0], 0x81 :: 2 :: ascii "hi"] := by
  have h : closing 1 idleSocket = false ∧ ((idleSocket.findClient 1).isSome = true ∧
      ∀ c ∈ idleSocket.findClient 1, c.websocket = true ∧ c.rqst = []) ∧
      ((idleSocket.step idleWorld sayHi).findClient 1).isSome = true ∧
      ((idleSocket.step idleWorld (.poll 1)).findClient 1).isSome = true ∧
      queuedOn 1 ([Event.poll 1, sayHi].foldl (step idleWorld) idleSocket) =
        queuedOn 1 idleSocket ++ [[0x88, 0], 0x81 :: 2 :: ascii "hi"] := by decide +kernel
  exact ⟨h.1, exists_client h.2.1.1 h.2.1.2, h.2.2⟩

/-- Nothing arrives in these runs. -/
theorem streams_nothing (hempty : c.rqst = []) : Streams hiFrame [] c [] [] :=
  ⟨by rw [hempty]; rfl, by rw [hempty]; decide⟩

theorem close_final_idle : ∃ c, idleSocket.findClient 1 = some c ∧
    LastWord 1 c idleSocket ([sayHi, .poll 1].foldl (step idleWorld) idleSocket) := by
  obtain ⟨hopen, ⟨c, hc, hws, hempty⟩, hthere, -, -⟩ := idleSocket_client
  have hframed : Along (step idleWorld) (fun w e => Allowed w e ∧ Framed idleWorld 1 c.handle w e) idleSocket
      [sayHi, .poll 1] :=
    ⟨⟨trivial, by rw [hc]; rfl, nofun, rfl⟩, ⟨trivial, hthere, nofun, trivial⟩, trivial⟩
  refine ⟨c, hc, (close_final idleSocket_reachable hc hws [sayHi, .poll 1] hframed [] hiFrame List.nil_prefix (by decide)
    (streams_nothing hempty)).1 ⟨⟨?_, ?_, trivial⟩, ?_⟩⟩
  · refine ⟨fun hclosing => ?_, fun _ _ _ he => nomatch he⟩
    rw [hopen] at hclosing
    cases hclosing
  · exact ⟨trivial, fun _ _ _ he => nomatch he⟩
  · exact fun _ => ⟨List.Pairwise.nil, fun _ => nofun⟩

/-- The poll closes the websocket, and a broadcast is queued behind its CLOSE. -/
theorem broadcast_behind_close : ¬ ∀ (W : World) (w0 : Web) (p : Pcb) (c : Client), Reachable W Allowed w0 →
    w0.findClient p = some c → c.websocket = true → ∀ es, Along (step W)
      (fun w e => Allowed w e ∧ Framed W p c.handle w e) w0 es → ∀ (frames : List Frame) (last : Frame) (part : Bytes),
      part <+: last.bytes → part.length < last.bytes.length → Streams last part c (arrived p es) frames →
      LastWord p c w0 (es.foldl (step W) w0) := by
  intro hall
  obtain ⟨-, ⟨c, hc, hws, hempty⟩, -, hthere, hqueued⟩ := idleSocket_client
  obtain ⟨⟨frames, hq, hlast, -⟩, -⟩ := hall idleWorld idleSocket 1 c idleSocket_reachable hc hws [.poll 1, sayHi]
    ⟨⟨trivial, by rw [hc]; rfl, nofun, trivial⟩, ⟨trivial, hthere, nofun, rfl⟩, trivial⟩ [] hiFrame [] List.nil_prefix
    (by decide) (streams_nothing hempty)
  rw [hqueued, List.append_cancel_left_eq] at hq
  have := hlast [0x88, 0] (by rw [← hq]; exact List.mem_cons_self)
  cases this

end Web
end Pico
