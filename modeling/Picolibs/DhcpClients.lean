import Picolibs.DhcpLeases
/-!
# DhcpClients — clients that ask for what they were told (`dhcpserver.c`)

DISCOVER reserves nothing.  Still the address that it offers stays free for its client until another one is granted it
(`offer_honoured`), whatever arrives in between; and where every client asks for the address that it was told last, no
client holds two (`one_lease_each`).
-/
namespace Pico
namespace Dhcp

open Txt (readBlock)
open Tagged
open History (Reach Along inv_of_reach reach_along)

/-! ## What a client reads -/

/-- The value of an option. -/
def optRead (msg : Bytes) (cmd : UInt8) : Except Fault (Option Bytes) := do
  match ← optFind msg (optionsAt + 4) cmd with
  | none => .ok none
  | some o =>
    let len ← readByte msg (o + 1)
    let data ← readBlock msg (o + 2) len.toNat
    .ok (some data)

theorem optRead_text {front rest : Bytes} (hf : front.length = 240) {items : List Item}
    (htag : ∀ it ∈ items, it.tag ≠ optEnd) (hnodup : (items.map (·.tag)).Nodup) (hlen : (text items).length < 308)
    {it : Item} (hit : it ∈ items) :
    optRead (front ++ (text items ++ optEnd :: rest)) it.tag = .ok (some it.data) := by
  obtain ⟨pre, post, hitems⟩ := List.append_of_mem hit
  have hpre : ∀ x ∈ pre, x.tag ≠ it.tag := fun x hx heq => by
    rw [hitems, List.map_append, List.map_cons] at hnodup
    exact (List.nodup_append.1 hnodup).2.2 x.tag (List.mem_map_of_mem hx) it.tag List.mem_cons_self heq
  have hfind := optFind_text (htag it hit) front rest htag hlen
  rw [hitems, offset_eq post hpre rfl, hf] at hfind
  have hmem : front ++ (text (pre ++ it :: post) ++ optEnd :: rest) =
      (front ++ text pre) ++ (it.tag :: UInt8.ofNat it.data.length :: (it.data ++ (text post ++ optEnd :: rest))) := by
    rw [text_append, text_cons, Item.bytes]
    simp only [List.append_assoc, List.cons_append]
  have ho : 240 + (text pre).length = (front ++ text pre).length := by rw [List.length_append, hf]
  rw [Option.map_some, ho] at hfind
  rw [optRead, hitems, show optionsAt + 4 = 240 from rfl, hfind]
  simp only [bind, Except.bind]
  rw [hmem]
  generalize front ++ text pre = a
  have hbyte := readByte_at (a ++ [it.tag]) (UInt8.ofNat it.data.length) (it.data ++ (text post ++ optEnd :: rest))
  rw [List.append_assoc, List.length_append, List.singleton_append] at hbyte
  have hblock := Txt.readBlock_mid (a ++ [it.tag, UInt8.ofNat it.data.length]) it.data (text post ++ optEnd :: rest)
  rw [List.append_assoc, List.length_append] at hblock
  rw [show a.length + 1 = a.length + [it.tag].length from rfl, hbyte]
  simp only [it.toNat_length]
  exact congrArg (fun x : Except Fault Bytes => x.bind fun data => .ok (some data)) hblock

theorem discover_le (d : DhcpServer) (mac : Bytes) (clock : Nat → Nat) (h : (d.discover mac clock).2 ≠ maxIp) :
    (d.discover mac clock).2 < maxIp := by
  have hdisc := discover_discovered mac clock d.lease 0 maxIp
  obtain ⟨j, l, hj, hl, -⟩ := hdisc.chosen.resolve_left h
  have hlt := (List.getElem?_eq_some_iff.1 hl).1
  rw [hdisc.length, d.slots] at hlt
  exact Nat.lt_of_le_of_lt (Nat.le_of_eq (hj.trans (Nat.zero_add j))) hlt

/-- **What is sent is a message of 274 bytes**: the packet's own fields, an address of the server's network between
`.16` and `.23`, and options in which a client reads the type, the server, the mask, the router, the DNS and the term. -/
theorem reply_reads {d d' : DhcpServer} {clock : Nat → Nat} {stack : Stack} {p out : Bytes}
    (h : d.process clock stack p = .ok (d', some out)) : out.length = 274 ∧ ∃ type yi,
      (type = offerMsg ∨ type = ackMsg) ∧ yi < maxIp ∧ out.take yiaddrAt = offerMsg :: (p.drop 1).take 15 ∧
      (out.drop yiaddrAt).take 4 = [d.ip.a, d.ip.b, d.ip.c, baseIp + UInt8.ofNat yi] ∧
      (out.drop 20).take 220 = (p.drop 20).take 220 ∧
      ∀ it ∈ answerItems d type, optRead out it.tag = .ok (some it.data) := by
  have hreply : ∃ type yi, (type = offerMsg ∨ type = ackMsg) ∧ yi < maxIp ∧ minSize ≤ p.length ∧
      out = replyTo d p yi type := by
    generalize hs : some out = s at h
    cases process_does h with
    | ignored => cases hs
    | full _ => cases hs
    | offered hlen hyi =>
      cases hs
      exact ⟨offerMsg, _, .inl rfl, discover_le _ _ _ hyi, hlen, rfl⟩
    | acked hlen yi hyi _ =>
      cases hs
      exact ⟨ackMsg, yi, .inr rfl, hyi, hlen, rfl⟩
  obtain ⟨type, yi, htype, hyi, hlen, rfl⟩ := hreply
  obtain ⟨a, b, ha, hb, hap, hbp, heq⟩ := replyTo_eq d hlen yi type
  have h4 : [d.ip.a, d.ip.b, d.ip.c, baseIp + UInt8.ofNat yi].length = 4 := rfl
  have hitems := length_answerItems d type
  refine ⟨?_, type, yi, htype, hyi, ?_, yiaddr_replyTo d hlen clock yi type, ?_, fun it hit => ?_⟩
  · rw [heq]
    simp only [List.length_append, ha, hb, h4, hitems, List.length_singleton]
  · rw [heq, show yiaddrAt = a.length from ha.symm, List.take_left, hap]
  · have h20 : (replyTo d p yi type).drop (a.length + 4) = b ++ (text (answerItems d type) ++ [optEnd]) := by
      rw [heq, ← List.drop_drop, List.drop_left, ← h4, List.drop_left]
    rw [ha] at h20
    rw [h20, List.take_append_of_le_length (Nat.le_of_eq hb.symm), List.take_of_length_le (Nat.le_of_eq hb), hbp]
  · have htags : (answerItems d type).map (·.tag) = [53, 54, 1, 3, 6, 51] := rfl
    rw [heq, ← List.append_assoc, ← List.append_assoc]
    refine optRead_text ?_ (fun x hx => ?_) (by rw [htags]; decide) (by rw [length_answerItems]; decide) hit
    · rw [List.length_append, List.length_append, ha, hb, h4]
    · have hx' := List.mem_map_of_mem (f := (·.tag)) hx
      rw [htags] at hx'
      intro h255
      rw [h255] at hx'
      revert hx'
      decide

theorem reply_reads_ask :
    (replyTo (init apIp apMask) (askPacket 1).bytes 0 ackMsg).length = 274 ∧ ∃ type yi,
      (type = offerMsg ∨ type = ackMsg) ∧ yi < maxIp ∧
      (replyTo (init apIp apMask) (askPacket 1).bytes 0 ackMsg).take yiaddrAt =
        offerMsg :: ((askPacket 1).bytes.drop 1).take 15 ∧
      ((replyTo (init apIp apMask) (askPacket 1).bytes 0 ackMsg).drop yiaddrAt).take 4 =
        [192, 168, 4, baseIp + UInt8.ofNat yi] ∧
      ((replyTo (init apIp apMask) (askPacket 1).bytes 0 ackMsg).drop 20).take 220 =
        ((askPacket 1).bytes.drop 20).take 220 ∧
      ∀ it ∈ answerItems (init apIp apMask) type,
        optRead (replyTo (init apIp apMask) (askPacket 1).bytes 0 ackMsg) it.tag = .ok (some it.data) :=
  reply_reads process_ask

/-! ## What stood on the stack -/

/-- A packet that is not too short has whole options. -/
def WholePacket (p : Bytes) : Prop := minSize ≤ p.length → ∃ pk : Packet, pk.Whole ∧ p = pk.bytes

theorem process_stack (d : DhcpServer) (clock : Nat → Nat) (stack stack' : Stack) {p : Bytes} (hp : WholePacket p) :
    d.process clock stack p = d.process clock stack' p ∧ ∃ r, d.process clock stack p = .ok r := by
  by_cases hlen : p.length < minSize
  · unfold DhcpServer.process
    rw [if_pos hlen, if_pos hlen]
    exact ⟨rfl, _, rfl⟩
  · obtain ⟨pk, hw, rfl⟩ := hp (Nat.le_of_not_lt hlen)
    rw [process_packet d clock stack hw (Nat.le_of_not_lt hlen), process_packet d clock stack' hw (Nat.le_of_not_lt hlen)]
    exact ⟨rfl, _, rfl⟩

/-- **Nothing outside the message is read, and nothing that stood on the stack**, in a run of packets with whole
options. -/
theorem stack_unread : ∀ (es : List Event) (w : World), (∀ e ∈ es, WholePacket e.p) → w.fault = none →
    ∀ stack : Event → Stack, (es.map (fun e => { e with stack := stack e })).foldl step w = es.foldl step w ∧
      (es.foldl step w).fault = none
  | [], _, _, hf, _ => ⟨rfl, hf⟩
  | e :: es, w, hp, hf, stack => by
    obtain ⟨heq, r, hr⟩ := process_stack w.server e.clock e.stack (stack e) (hp e List.mem_cons_self)
    have hstep : step w { e with stack := stack e } = step w e := by
      simp only [step]
      rw [← heq]
      rfl
    have hok : (step w e).fault = none := by
      obtain ⟨d, out⟩ := r
      rw [step, hr]
      exact hf
    rw [List.map_cons, List.foldl_cons, List.foldl_cons, hstep]
    exact stack_unread es (step w e) (fun x hx => hp x (List.mem_cons_of_mem _ hx)) hok stack

theorem stack_unread_takeOver : (takeOver.map (fun e => { e with stack := blankStack })).foldl step (start apIp apMask) =
    takeOver.foldl step (start apIp apMask) ∧ (takeOver.foldl step (start apIp apMask)).fault = none :=
  stack_unread takeOver _ (fun e he _ => by
    rcases List.mem_cons.1 he with rfl | he
    · exact ⟨_, whole_ask 1, rfl⟩
    · rcases List.mem_cons.1 he with rfl | he
      · exact ⟨_, whole_find 2, rfl⟩
      · exact ⟨_, whole_ask 2, congrArg Event.p (List.mem_singleton.1 he)⟩) rfl _

/-! ## One step, by the lease -/

theorem step_ok {w : World} {e : Event} {d : DhcpServer} {out : Option Bytes}
    (h : w.server.process e.clock e.stack e.p = .ok (d, out)) :
    step w e = w.next e d (w.sent ++ (out.map (Sent.mk e.clock)).toList) := by
  rw [step, h]

/-- **What a step can do to a lease**: nothing, free it, or grant it. -/
theorem step_lease {w : World} {e : Event} {i : Nat} {l l' : Lease} (hl : w.server.lease[i]? = some l)
    (hl' : (step w e).server.lease[i]? = some l') :
    l' = l ∨ l' = l.freed ∨
      ∃ s, (step w e).sent = w.sent ++ [s] ∧ s.isAck = true ∧ s.slot = i ∧ l'.mac = s.mac ∧ l.admits s.mac = true := by
  cases hp : w.server.process e.clock e.stack e.p with
  | error f =>
    rw [step, hp] at hl'
    exact .inl (Option.some.inj (hl'.symm.trans hl))
  | ok r =>
    obtain ⟨d, out⟩ := r
    rw [step_ok hp] at hl' ⊢
    rw [World.next_server] at hl'
    rw [World.next_sent]
    have hkept := (discover_discovered (chaddr e.p) e.clock w.server.lease 0 maxIp).kept i l hl
    have hdisc : (w.server.discover (chaddr e.p) e.clock).1.lease[i]? = some l' → l' = l ∨ l' = l.freed := fun h => by
      rcases hkept with heq | ⟨-, -, heq⟩
      · exact .inl (Option.some.inj (h.symm.trans heq))
      · exact .inr (Option.some.inj (h.symm.trans heq))
    cases process_does hp with
    | ignored => exact .inl (Option.some.inj (hl'.symm.trans hl))
    | full _ => exact (hdisc hl').imp_right .inl
    | offered _ _ => exact (hdisc hl').imp_right .inl
    | acked hlen yi hyi hadm =>
      rw [DhcpServer.grant, List.getElem?_set] at hl'
      split at hl'
      · rename_i hi
        rw [if_pos (by rw [w.server.slots]; exact hyi)] at hl'
        have hmac := mac_replyTo w.server hlen e.clock yi ackMsg
        rw [List.getD_eq_getElem?_getD, hi, hl] at hadm
        refine .inr (.inr ⟨⟨e.clock, replyTo w.server e.p yi ackMsg⟩, rfl, ?_, ?_, ?_, ?_⟩)
        · rw [Sent.isAck, type_replyTo _ hlen]
          rfl
        · rw [slot_replyTo _ hlen _ hyi, hi]
        · rw [hmac, ← Option.some.inj hl']
        · rw [hmac]
          exact hadm
      · exact .inl (Option.some.inj (hl'.symm.trans hl))

/-- Nothing that was sent is taken back. -/
theorem sent_step (w : World) (e : Event) : ∃ t, (step w e).sent = w.sent ++ t := by
  unfold step
  split
  · exact ⟨[], (List.append_nil _).symm⟩
  · exact ⟨_, rfl⟩

theorem sent_foldl (es : List Event) : ∀ w : World, ∃ t, (es.foldl step w).sent = w.sent ++ t := by
  induction es with
  | nil => exact fun w => ⟨[], (List.append_nil _).symm⟩
  | cons e es ih =>
    intro w
    obtain ⟨t, ht⟩ := sent_step w e
    obtain ⟨u, hu⟩ := ih (step w e)
    exact ⟨t ++ u, by rw [List.foldl_cons, hu, ht, List.append_assoc]⟩

/-! ## An offer -/

/-- No lease is granted to another client than `mac`. -/
def Spares (mac : Bytes) (i : Nat) (sent : List Sent) : Prop := ∀ s ∈ acks sent, s.slot = i → s.mac = mac

theorem Spares.of_append {mac : Bytes} {i : Nat} {a b : List Sent} (h : Spares mac i (a ++ b)) :
    Spares mac i a ∧ Spares mac i b := by
  refine ⟨fun s hs => h s ?_, fun s hs => h s ?_⟩
  · rw [acks, List.filter_append]
    exact List.mem_append_left _ hs
  · rw [acks, List.filter_append]
    exact List.mem_append_right _ hs

/-- A lease stays the client's or nobody's while no other client is granted it. -/
theorem admits_step {w : World} {e : Event} {i : Nat} {mac : Bytes} {t : List Sent}
    (h : ∃ l, w.server.lease[i]? = some l ∧ l.admits mac = true) (ht : (step w e).sent = w.sent ++ t)
    (hs : Spares mac i t) : ∃ l, (step w e).server.lease[i]? = some l ∧ l.admits mac = true := by
  obtain ⟨l, hl, hadm⟩ := h
  obtain ⟨l', hl'⟩ := exists_lease (step w e).server (server_lt w.server hl)
  refine ⟨l', hl', ?_⟩
  rcases step_lease hl hl' with rfl | rfl | ⟨s, hsent, hack, hslot, hmac, -⟩
  · exact hadm
  · exact Lease.admits_iff.2 (.inr rfl)
  · rw [hsent] at ht
    have hst := List.append_cancel_left ht
    refine Lease.admits_iff.2 (.inl (hmac.trans (hs s ?_ hslot)))
    rw [← hst, acks, List.filter_singleton, hack]
    exact List.mem_singleton.2 rfl

theorem admits_foldl {i : Nat} {mac : Bytes} : ∀ (es : List Event) {w : World} {t : List Sent},
    (∃ l, w.server.lease[i]? = some l ∧ l.admits mac = true) → (es.foldl step w).sent = w.sent ++ t →
    Spares mac i t → ∃ l, (es.foldl step w).server.lease[i]? = some l ∧ l.admits mac = true
  | [], _, _, h, _, _ => h
  | e :: es, w, t, h, ht, hs => by
    obtain ⟨t1, ht1⟩ := sent_step w e
    obtain ⟨t2, ht2⟩ := sent_foldl es (step w e)
    have hsplit : t = t1 ++ t2 := by
      rw [List.foldl_cons, ht2, ht1, List.append_assoc] at ht
      exact (List.append_cancel_left ht).symm
    obtain ⟨hs1, hs2⟩ := (hsplit ▸ hs).of_append
    exact admits_foldl es (admits_step h ht1 hs1) ht2 hs2

theorem server_step (w : World) (e : Event) :
    (step w e).server.ip = w.server.ip ∧ (step w e).server.nm = w.server.nm := by
  cases hp : w.server.process e.clock e.stack e.p with
  | error f =>
    rw [step, hp]
    exact ⟨rfl, rfl⟩
  | ok r =>
    obtain ⟨d, out⟩ := r
    rw [step_ok hp, World.next_server]
    cases process_does hp with
    | ignored => exact ⟨rfl, rfl⟩
    | full _ => exact ⟨rfl, rfl⟩
    | offered _ _ => exact ⟨rfl, rfl⟩
    | acked _ _ _ _ => exact ⟨rfl, rfl⟩

theorem ip_foldl : ∀ (es : List Event) (w : World), (es.foldl step w).server.ip = w.server.ip
  | [], _ => rfl
  | e :: es, w => (ip_foldl es (step w e)).trans (server_step w e).1

/-- What an offer says, and that the lease is free for its client. -/
theorem offered_cases {w : World} {e : Event} {s : Sent} (hs : (step w e).sent = w.sent ++ [s])
    (ht : s.type = offerMsg) : s.slot < maxIp ∧
      s.yiaddr = [w.server.ip.a, w.server.ip.b, w.server.ip.c, baseIp + UInt8.ofNat s.slot] ∧
      ∃ l, (step w e).server.lease[s.slot]? = some l ∧ l.admits s.mac = true := by
  cases hp : w.server.process e.clock e.stack e.p with
  | error f =>
    rw [step, hp] at hs
    simp at hs
  | ok r =>
    obtain ⟨d, out⟩ := r
    rw [step_ok hp, World.next_sent, List.append_cancel_left_eq] at hs
    rw [step_ok hp, World.next_server]
    have hdisc := discover_discovered (chaddr e.p) e.clock w.server.lease 0 maxIp
    cases process_does hp with
    | ignored => cases hs
    | full _ => cases hs
    | acked hlen yi hyi hadm =>
      cases hs
      rw [type_replyTo _ hlen] at ht
      cases ht
    | offered hlen hyi =>
      cases hs
      obtain ⟨j, l, hj, hl, hadm⟩ := hdisc.chosen.resolve_left hyi
      have hlt := discover_le w.server (chaddr e.p) e.clock hyi
      rw [slot_replyTo _ hlen _ hlt, mac_replyTo _ hlen, yiaddr_replyTo _ hlen]
      refine ⟨hlt, rfl, l, ?_, hadm⟩
      rw [show (w.server.discover (chaddr e.p) e.clock).2 = j from hj.trans (Nat.zero_add j)]
      exact hl

theorem slotOf_yiaddr {d : DhcpServer} {i : Nat} (hi : i < maxIp) :
    d.slotOf [d.ip.a, d.ip.b, d.ip.c, baseIp + UInt8.ofNat i] = some i := by
  have hm : maxIp = 8 := rfl
  have hsub : (baseIp + UInt8.ofNat i - baseIp).toNat = i := by
    rw [UInt8.add_comm, UInt8.add_sub_cancel, UInt8.toNat_ofNat', Nat.mod_eq_of_lt (by omega)]
  have hget : [d.ip.a, d.ip.b, d.ip.c, baseIp + UInt8.ofNat i].getD 3 0 = baseIp + UInt8.ofNat i := rfl
  rw [DhcpServer.slotOf, hget, hsub, if_pos ⟨rfl, hi⟩]

/-- **An offer is honoured**: whatever arrives behind it, a client that asks for the address it was offered is granted
it, unless another client was granted it in between. -/
theorem offer_honoured {w : World} {e : Event} {s : Sent} (hs : (step w e).sent = w.sent ++ [s])
    (htype : s.type = offerMsg) (es : List Event) {t : List Sent}
    (ht : (es.foldl step (step w e)).sent = (step w e).sent ++ t) (hspares : Spares s.mac s.slot t) {e' : Event}
    {pk : Packet} (hw : pk.Whole) (hlen : minSize ≤ pk.bytes.length) (hp : e'.p = pk.bytes)
    (hmac : chaddr pk.bytes = s.mac) (hq : pk.value optMsgType = some [requestMsg])
    (hreq : pk.value optRequestedIp = some s.yiaddr) :
    ∃ s', (step (es.foldl step (step w e)) e').sent = (es.foldl step (step w e)).sent ++ [s'] ∧ s'.isAck = true ∧
      s'.yiaddr = s.yiaddr ∧ s'.mac = s.mac := by
  obtain ⟨hslot, hadr, hadm⟩ := offered_cases hs htype
  obtain ⟨l, hl, hadm⟩ := admits_foldl es hadm ht hspares
  have hip := (ip_foldl es (step w e)).trans (server_step w e).1
  generalize es.foldl step (step w e) = v at hl hip
  rw [← hip] at hadr
  have hquery : v.server.query pk = .request s.slot := by
    rw [DhcpServer.query, hq, hreq, Option.bind_some, hadr, slotOf_yiaddr hslot]
    rfl
  have hget : v.server.lease.getD s.slot ⟨[], 0⟩ = l := by
    rw [List.getD_eq_getElem?_getD, hl]
    rfl
  have hproc := process_packet v.server e'.clock e'.stack hw hlen
  rw [hquery, DhcpServer.answer, hget, hmac, if_pos hadm, ← hp] at hproc
  rw [← hp] at hlen hmac
  refine ⟨⟨e'.clock, replyTo v.server e'.p s.slot ackMsg⟩, ?_, ?_, ?_, ?_⟩
  · rw [step_ok hproc]
    rfl
  · rw [Sent.isAck, type_replyTo _ hlen]
    rfl
  · rw [yiaddr_replyTo _ hlen, hadr]
  · rw [mac_replyTo _ hlen, hmac]

set_option maxRecDepth 10000 in
/-- Another client looks for a server while the first one has an offer. -/
theorem offer_honoured_find : ∃ s',
    (step ([arrives 1 (findPacket 2)].foldl step (step (start apIp apMask) (arrives 0 (findPacket 1))))
      (arrives 2 (askPacket 1))).sent =
      ([arrives 1 (findPacket 2)].foldl step (step (start apIp apMask) (arrives 0 (findPacket 1)))).sent ++ [s'] ∧
    s'.isAck = true ∧ s'.yiaddr = [192, 168, 4, 16] ∧ s'.mac = [0, 0, 0, 0, 0, 1] :=
  offer_honoured (s := ⟨fun _ => 0, replyTo (init apIp apMask) (findPacket 1).bytes 0 offerMsg⟩)
    (t := [⟨fun _ => 1, replyTo (init apIp apMask) (findPacket 2).bytes 0 offerMsg⟩]) rfl rfl _ rfl
    (fun _ h => absurd h List.not_mem_nil) (whole_ask 1) (by decide +kernel) rfl rfl rfl rfl

/-! ## Clients that ask for what they were told -/

/-- The lease that a client was told last. -/
def told (sent : List Sent) (mac : Bytes) : Option Nat := (sent.filter (·.mac = mac)).getLast?.map (·.slot)

/-- A client asks for the address that it was told last. -/
def Obeys (w : World) (e : Event) : Prop :=
  ∃ pk : Packet, pk.Whole ∧ minSize ≤ pk.bytes.length ∧ e.p = pk.bytes ∧
    ∀ yi, w.server.query pk = .request yi → told w.sent (chaddr pk.bytes) = some yi

theorem query_lt {d : DhcpServer} {pk : Packet} {yi : Nat} (h : d.query pk = .request yi) : yi < maxIp := by
  unfold DhcpServer.query at h
  cases hv : pk.value optMsgType with
  | none =>
    rw [hv] at h
    cases h
  | some v =>
    rw [hv] at h
    dsimp only at h
    split at h
    · cases h
    · split at h
      · cases hb : (pk.value optRequestedIp).bind d.slotOf with
        | none =>
          rw [hb] at h
          cases h
        | some i =>
          rw [hb] at h
          cases h
          obtain ⟨v, -, hslot⟩ := Option.bind_eq_some_iff.1 hb
          unfold DhcpServer.slotOf at hslot
          split at hslot
          · rename_i hlt
            rw [← Option.some.inj hslot]
            exact hlt.2
          · cases hslot
      · cases h

theorem told_snoc (sent : List Sent) (s : Sent) :
    told (sent ++ [s]) = Function.update (told sent) s.mac (some s.slot) := by
  funext mac
  rw [told, List.filter_append]
  by_cases hm : s.mac = mac
  · simp [hm]
  · rw [Function.update_of_ne (Ne.symm hm), told]
    simp [hm]

/-- Who holds a lease was told of it last. -/
def Told (w : World) : Prop :=
  ∀ (i : Nat) (l : Lease), w.server.lease[i]? = some l → l.mac ≠ zeroMac → told w.sent l.mac = some i

theorem told_step {w : World} {e : Event} (h : Told w) (ho : Obeys w e) : Told (step w e) := by
  obtain ⟨pk, hw, hlen, hp, hobeys⟩ := ho
  have hproc := process_packet w.server e.clock e.stack hw hlen
  rw [← hp] at hproc hobeys hlen
  have hdisc := discover_discovered (chaddr e.p) e.clock w.server.lease 0 maxIp
  -- what DISCOVER leaves of a lease that somebody holds
  have hold : ∀ (i : Nat) (l : Lease), (w.server.discover (chaddr e.p) e.clock).1.lease[i]? = some l →
      l.mac ≠ zeroMac → w.server.lease[i]? = some l := fun i l hl hz => by
    obtain ⟨l0, hl0⟩ := exists_lease w.server (server_lt _ hl)
    rcases hdisc.kept i l0 hl0 with heq | ⟨-, -, heq⟩
    · rw [hl0, Option.some.inj (hl.symm.trans heq)]
    · exact absurd (congrArg Lease.mac (Option.some.inj (hl.symm.trans heq))) hz
  cases hquery : w.server.query pk with
  | other =>
    rw [hquery, DhcpServer.answer] at hproc
    rw [step_ok hproc]
    intro i l hl hz
    rw [World.next_sent, Option.map_none, Option.toList_none, List.append_nil]
    exact h i l hl hz
  | discover =>
    rw [hquery, DhcpServer.answer] at hproc
    rw [step_ok hproc]
    intro i l hl hz
    have hl0 := hold i l hl hz
    rw [World.next_sent]
    by_cases hfull : (w.server.discover (chaddr e.p) e.clock).2 = maxIp
    · rw [if_pos hfull, Option.map_none, Option.toList_none, List.append_nil]
      exact h i l hl0 hz
    · rw [if_neg hfull, Option.map_some, Option.toList_some, told_snoc, mac_replyTo _ hlen]
      by_cases hm : l.mac = chaddr e.p
      · obtain ⟨j, l', hj, hl', hm'⟩ := hdisc.own l (List.mem_of_getElem? hl0) hm
        have hyi : (w.server.discover (chaddr e.p) e.clock).2 = j := hj.trans (Nat.zero_add j)
        have hown := h j l' (hold j l' hl' (by rw [hm', ← hm]; exact hz)) (by rw [hm', ← hm]; exact hz)
        have hij : some i = some j := by rw [← h i l hl0 hz, ← hown, hm, hm']
        rw [hm, Function.update_self, hyi, slot_replyTo _ hlen _ (server_lt (w.server.discover _ e.clock).1 hl'), hij]
      · rw [Function.update_of_ne hm]
        exact h i l hl0 hz
  | request yi =>
    have htold := hobeys yi hquery
    rw [hquery, DhcpServer.answer] at hproc
    by_cases hadm : (w.server.lease.getD yi ⟨[], 0⟩).admits (chaddr e.p) = true
    · rw [if_pos hadm] at hproc
      have hyi := query_lt hquery
      rw [step_ok hproc]
      intro i l hl hz
      rw [World.next_server, DhcpServer.grant, List.getElem?_set] at hl
      rw [World.next_sent, Option.map_some, Option.toList_some, told_snoc, mac_replyTo _ hlen,
        slot_replyTo _ hlen _ hyi, ← htold, Function.update_eq_self]
      split at hl
      · rename_i hi
        rw [if_pos (by rw [w.server.slots]; exact hyi)] at hl
        rw [← Option.some.inj hl, htold, hi]
      · exact h i l hl hz
    · rw [if_neg hadm] at hproc
      rw [step_ok hproc]
      intro i l hl hz
      rw [World.next_sent, Option.map_none, Option.toList_none, List.append_nil]
      exact h i l hl hz

/-- **No client holds two addresses**, in a run in which every client asks for the one that it was told last. -/
theorem one_lease_each {ip nm : Ip4} {w : World} (hr : Reach (start ip nm) step Obeys w) :
    ((w.server.lease.map (·.mac)).filter (· ≠ zeroMac)).Nodup := by
  have hstart : Told (start ip nm) := fun i l hl hz => absurd (start_free hl) hz
  have htold : Told w := inv_of_reach hstart (fun _ _ h ho => told_step h ho) hr
  rw [List.Nodup, List.pairwise_filter, List.pairwise_map, List.pairwise_iff_getElem]
  intro i j hi hj hij hz hz' hm
  refine absurd (Option.some.inj ?_) (Nat.ne_of_lt hij)
  rw [← htold i _ (List.getElem?_eq_getElem hi) (of_decide_eq_true hz), hm,
    htold j _ (List.getElem?_eq_getElem hj) (of_decide_eq_true hz')]

/-- A client is offered an address and asks for it. -/
def settles : List Event := [arrives 0 (findPacket 1), arrives 5 (askPacket 1)]

theorem query_settles : (step (start apIp apMask) (arrives 0 (findPacket 1))).server.query (askPacket 1) = .request 0 := by
  decide +kernel

theorem told_settles : told (step (start apIp apMask) (arrives 0 (findPacket 1))).sent (chaddr (askPacket 1).bytes) =
    some 0 := by decide +kernel

theorem obeys_settles : Along step Obeys (start apIp apMask) settles := by
  refine ⟨⟨findPacket 1, whole_find 1, by decide +kernel, rfl, fun _ h => by cases h⟩,
    ⟨askPacket 1, whole_ask 1, by decide +kernel, rfl, fun yi h => ?_⟩, trivial⟩
  rw [query_settles] at h
  rw [told_settles, ← Query.request.inj h]

theorem one_lease_each_settles :
    (((settles.foldl step (start apIp apMask)).server.lease.map (·.mac)).filter (· ≠ zeroMac)).Nodup :=
  one_lease_each (reach_along settles _ .init obeys_settles)

end Dhcp
end Pico
