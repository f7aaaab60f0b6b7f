import Picolibs.Dhcp
/-!
# DhcpReply — what the DHCP server reads of a packet, and what it answers (`dhcpserver.c`)

`optFind_text` is `opt_find` on a text of options: it finds the first with its code and reads nothing behind the end
mark.  A reply is the packet's own first 240 bytes with the answer's address in them, and a text of options
(`reply_eq`), so that a client finds in it what the server wrote.

`process_cases` says in three cases what `dhcp_server_process` does.
-/
namespace Pico
namespace Dhcp

open Txt (readBlock writeBlock writeBlock_mid)
open Tagged
open Text (bind_eq_ok)

/-! ## Reading -/

theorem readByte_ok {msg : Bytes} {p : Nat} {b : UInt8} : readByte msg p = .ok b ↔ msg[p]? = some b := by
  unfold readByte
  cases msg[p]? with
  | none => simp
  | some c => simp

theorem readByte_at (front : Bytes) (b : UInt8) (rest : Bytes) : readByte (front ++ b :: rest) front.length = .ok b :=
  readByte_ok.2 (by rw [List.getElem?_append_right (Nat.le_refl _), Nat.sub_self]; rfl)

/-- **`opt_find` on options that end inside the message** finds the first one with the code, or nothing; `i` bytes of
them are behind it. -/
theorem optFindFrom_text (cmd : UInt8) (hcmd : cmd ≠ optEnd) (rest : Bytes) : ∀ (items : List Item) (front : Bytes)
    (n i : Nat), (∀ it ∈ items, it.tag ≠ optEnd) → i + (text items).length < 308 → 308 ≤ n + i → i ≤ front.length →
    optFindFrom (front ++ (text items ++ optEnd :: rest)) (front.length - i) cmd n i =
      .ok ((offset cmd items).map (front.length + ·)) := by
  intro items
  induction items with
  | nil =>
    intro front n i _ hlen hn hi
    obtain ⟨n, rfl⟩ : ∃ m, n = m + 1 := ⟨n - 1, by simp only [text_nil, List.length_nil] at hlen; omega⟩
    rw [text_nil, List.nil_append, optFindFrom, if_pos (by simp only [text_nil, List.length_nil] at hlen; omega),
      Nat.sub_add_cancel hi, readByte_at]
    rfl
  | cons it items ih =>
    intro front n i htag hlen hn hi
    have hsz : (text (it :: items)).length = it.data.length + 2 + (text items).length := by
      rw [text_cons, List.length_append, it.length_bytes]
    obtain ⟨n, rfl⟩ : ∃ m, n = m + 1 := ⟨n - 1, by omega⟩
    have hmem : front ++ (text (it :: items) ++ optEnd :: rest) =
        front ++ it.tag :: UInt8.ofNat it.data.length :: (it.data ++ (text items ++ optEnd :: rest)) := by
      rw [text_cons, Item.bytes, List.append_assoc]
      rfl
    have hlen2 : readByte (front ++ it.tag :: UInt8.ofNat it.data.length :: (it.data ++ (text items ++ optEnd :: rest)))
        (front.length + 1) = .ok (UInt8.ofNat it.data.length) := by
      have := readByte_at (front ++ [it.tag]) (UInt8.ofNat it.data.length) (it.data ++ (text items ++ optEnd :: rest))
      rwa [List.append_assoc, List.length_append] at this
    have hne := htag it List.mem_cons_self
    rw [hmem, optFindFrom, if_pos (by omega), Nat.sub_add_cancel hi, readByte_at, hlen2]
    by_cases ht : it.tag = cmd
    · simp [offset, ht, hcmd, bind, Except.bind]
    · have hback := ih (front ++ it.bytes) n (i + (2 + it.data.length))
        (fun x hx => htag x (List.mem_cons_of_mem _ hx)) (by omega) (by omega)
        (by rw [List.length_append, it.length_bytes]; omega)
      have hfl : (front ++ it.bytes).length = front.length + (it.data.length + 2) := List.length_append
      rw [show (front ++ it.bytes).length - (i + (2 + it.data.length)) = front.length - i by omega, List.append_assoc,
        Item.bytes, List.cons_append, List.cons_append] at hback
      have hout : (offset cmd items).map ((front ++ it.bytes).length + ·) =
          (offset cmd (it :: items)).map (front.length + ·) := by
        rw [offset, if_neg ht, Option.map_map]
        congr 1
        funext k
        rw [hfl, Function.comp_apply, it.length_bytes]
        omega
      rw [← Item.bytes, hout] at hback
      simp only [bind, Except.bind, hne, ht, if_false, it.toNat_length]
      exact hback

theorem optFind_text {cmd : UInt8} (hcmd : cmd ≠ optEnd) (front rest : Bytes) {items : List Item}
    (htag : ∀ it ∈ items, it.tag ≠ optEnd) (hlen : (text items).length < 308) :
    optFind (front ++ (text items ++ optEnd :: rest)) front.length cmd =
      .ok ((offset cmd items).map (front.length + ·)) := by
  have := optFindFrom_text cmd hcmd rest items front 308 0 htag (by omega) (by omega) (Nat.zero_le _)
  rwa [Nat.sub_zero] at this

/-! ## Writing -/

/-- An option is written behind what stands in front of the pointer. -/
theorem optWriteN_at (it : Item) (front rest : Bytes) (h : it.bytes.length ≤ rest.length) :
    optWriteN it.tag it.data (front ++ rest, front.length) =
      .ok ((front ++ it.bytes) ++ rest.drop it.bytes.length, (front ++ it.bytes).length) := by
  have hrest : rest = rest.take it.bytes.length ++ rest.drop it.bytes.length := (List.take_append_drop _ _).symm
  have hlen : it.bytes.length = (rest.take it.bytes.length).length := by
    rw [List.length_take, Nat.min_eq_left h]
  have hw := writeBlock_mid front (rest.drop it.bytes.length) hlen
  rw [← hrest] at hw
  unfold optWriteN
  rw [show it.tag :: UInt8.ofNat it.data.length :: it.data = it.bytes from rfl, hw, List.append_assoc, List.length_append,
    it.length_bytes, Nat.add_comm it.data.length]
  rfl

/-- **Options written one after another** are their text. -/
theorem optWriteN_text : ∀ (items : List Item) (front rest : Bytes), (text items).length ≤ rest.length →
    items.foldlM (fun w it => optWriteN it.tag it.data w) (front ++ rest, front.length) =
      .ok ((front ++ text items) ++ rest.drop (text items).length, (front ++ text items).length)
  | [], front, rest, _ => by
    rw [text_nil, List.append_nil]
    rfl
  | it :: items, front, rest, h => by
    rw [text_cons, List.length_append] at h
    rw [List.foldlM_cons, optWriteN_at it front rest (by omega)]
    refine (optWriteN_text items (front ++ it.bytes) (rest.drop it.bytes.length)
      (by rw [List.length_drop]; omega)).trans ?_
    simp only [List.drop_drop, text_cons, List.length_append, List.append_assoc]

theorem Ip4.length_bytes (ip : Ip4) : ip.bytes.length = 4 := rfl

/-- The options of an answer. -/
def answerItems (d : DhcpServer) (type : UInt8) : List Item :=
  [⟨optMsgType, [type], by simp⟩, ⟨optServerId, d.ip.bytes, by simp [Ip4.length_bytes]⟩,
    ⟨optSubnetMask, d.nm.bytes, by simp [Ip4.length_bytes]⟩, ⟨optRouter, d.ip.bytes, by simp [Ip4.length_bytes]⟩,
    ⟨optDns, d.ip.bytes, by simp [Ip4.length_bytes]⟩, ⟨optIpLeaseTime, beBytes leaseTimeS, by simp [beBytes]⟩]

theorem length_answerItems (d : DhcpServer) (type : UInt8) : (text (answerItems d type)).length = 33 := rfl

/-- What is sent: the message up to the magic cookie with the last byte of the address, the options and their end. -/
def replyBytes (d : DhcpServer) (msg : Bytes) (yi : Nat) (type : UInt8) : Bytes :=
  msg.take (yiaddrAt + 3) ++ ([baseIp + UInt8.ofNat yi] ++ (msg.drop (yiaddrAt + 4)).take 220) ++
    (text (answerItems d type) ++ [optEnd])

/-- **The options are written inside the message.** -/
theorem reply_eq (d : DhcpServer) {msg : Bytes} (hmsg : msg.length = msgSize) (yi : Nat) (type : UInt8) :
    d.reply msg yi type = .ok (replyBytes d msg yi type) := by
  have hsplit : msg = msg.take 19 ++ ((msg.drop 19).take 1 ++ msg.drop 20) := by
    rw [← List.drop_drop (i := 1) (j := 19), List.take_append_drop, List.take_append_drop]
  have h19 : (msg.take 19).length = 19 := by rw [List.length_take, hmsg]; rfl
  have h1 : [baseIp + UInt8.ofNat yi].length = ((msg.drop 19).take 1).length := by
    rw [List.length_take, List.length_drop, hmsg]; rfl
  have hw := writeBlock_mid (msg.take 19) (msg.drop 20) h1
  rw [← hsplit, h19] at hw
  have hfront : msg.take 19 ++ ([baseIp + UInt8.ofNat yi] ++ msg.drop 20) =
      (msg.take 19 ++ ([baseIp + UInt8.ofNat yi] ++ (msg.drop 20).take 220)) ++ msg.drop 240 := by
    rw [List.append_assoc, List.append_assoc, ← List.drop_drop (i := 220) (j := 20), List.take_append_drop]
  have hflen : (msg.take 19 ++ ([baseIp + UInt8.ofNat yi] ++ (msg.drop 20).take 220)).length = 240 := by
    rw [List.length_append, List.length_append, List.length_take, List.length_take, List.length_drop, hmsg]; rfl
  have hrlen : (msg.drop 240).length = 308 := by rw [List.length_drop, hmsg]; rfl
  unfold DhcpServer.reply replyBytes
  rw [show yiaddrAt + 3 = 19 from rfl, show yiaddrAt + 4 = 20 from rfl, hw, hfront]
  generalize msg.take 19 ++ ([baseIp + UInt8.ofNat yi] ++ (msg.drop 20).take 220) = front at hflen
  generalize msg.drop 240 = rest at hrlen
  have hitems := optWriteN_text (answerItems d type) front rest (by rw [hrlen, length_answerItems]; decide)
  have hend : [optEnd].length = ((rest.drop 33).take 1).length := by
    rw [List.length_take, List.length_drop, hrlen]; rfl
  have hlast := writeBlock_mid (front ++ text (answerItems d type)) (rest.drop 34) hend
  rw [← List.drop_drop (i := 1) (j := 33), List.take_append_drop] at hlast
  rw [length_answerItems, hflen] at hitems
  have hchain : ((Except.ok (front ++ rest) : Except Fault Bytes) >>= fun msg => do
      let w ← optWriteU8 optMsgType type (msg, optionsAt + 4)
      let w ← optWriteN optServerId d.ip.bytes w
      let w ← optWriteN optSubnetMask d.nm.bytes w
      let w ← optWriteN optRouter d.ip.bytes w
      let w ← optWriteN optDns d.ip.bytes w
      let w ← optWriteU32 optIpLeaseTime leaseTimeS w
      let msg ← writeBlock w.1 w.2 [optEnd]
      .ok (msg.take (w.2 + 1))) =
      ((answerItems d type).foldlM (fun w it => optWriteN it.tag it.data w) (front ++ rest, 240) >>= fun w => do
        let msg ← writeBlock w.1 w.2 [optEnd]
        .ok (msg.take (w.2 + 1))) := by
    simp only [answerItems, List.foldlM_cons, List.foldlM_nil, bind_assoc, pure_bind]
    rfl
  rw [hchain, hitems]
  simp only [bind, Except.bind]
  rw [hlast]
  simp only [Except.ok.injEq]
  rw [← List.append_assoc _ [optEnd], List.append_assoc front]
  exact List.take_left' (by rw [List.length_append, List.length_append, List.length_append, Nat.add_assoc]; rfl)

/-! ## The message -/

theorem length_received (stack : Stack) (p : Bytes) : (received stack p).length = msgSize := by
  have := stack.size
  have : (p.take msgSize).length ≤ msgSize := List.length_take_le _ _
  rw [received, List.length_append, List.length_drop]
  omega

/-- The message with the operation and the server's address in it. -/
def prepared (d : DhcpServer) (msg : Bytes) : Bytes :=
  offerMsg :: ((msg.drop 1).take 15 ++ (d.ip.bytes ++ msg.drop 20))

theorem prepare_eq (d : DhcpServer) {msg : Bytes} (hmsg : msg.length = msgSize) :
    (writeBlock msg opAt [offerMsg] >>= fun msg => writeBlock msg yiaddrAt d.ip.bytes) = .ok (prepared d msg) := by
  have hop : msg.take 1 ++ msg.drop 1 = msg := List.take_append_drop _ _
  have h1 : [offerMsg].length = (msg.take 1).length := by
    rw [List.length_take, hmsg]; rfl
  have hw := writeBlock_mid [] (msg.drop 1) h1
  rw [List.nil_append, List.nil_append, hop, List.length_nil] at hw
  have hsplit : msg.drop 1 = (msg.drop 1).take 15 ++ ((msg.drop 16).take 4 ++ msg.drop 20) := by
    rw [← List.drop_drop (i := 4) (j := 16), List.take_append_drop, ← List.drop_drop (i := 15) (j := 1),
      List.take_append_drop]
  have h16 : (offerMsg :: (msg.drop 1).take 15).length = 16 := by
    rw [List.length_cons, List.length_take, List.length_drop, hmsg]; rfl
  have h4 : d.ip.bytes.length = ((msg.drop 16).take 4).length := by
    rw [List.length_take, List.length_drop, hmsg]; rfl
  have hw2 := writeBlock_mid (offerMsg :: (msg.drop 1).take 15) (msg.drop 20) h4
  rw [List.cons_append, ← hsplit, h16] at hw2
  rw [show opAt = 0 from rfl, hw]
  exact hw2

theorem length_prepared (d : DhcpServer) {msg : Bytes} (hmsg : msg.length = msgSize) :
    (prepared d msg).length = msgSize := by
  have hm : msgSize = 548 := rfl
  rw [prepared, List.length_cons, List.length_append, List.length_append, List.length_take, List.length_drop,
    List.length_drop, d.ip.length_bytes]
  omega

theorem drop_prepared (d : DhcpServer) {msg : Bytes} (hmsg : msg.length = msgSize) (n : Nat) :
    (prepared d msg).drop (20 + n) = msg.drop (20 + n) := by
  have h : (offerMsg :: ((msg.drop 1).take 15 ++ d.ip.bytes)).length = 20 := by
    rw [List.length_cons, List.length_append, List.length_take, List.length_drop, hmsg]; rfl
  rw [prepared, ← List.append_assoc, ← List.cons_append, ← List.drop_drop, ← h, List.drop_left, h, List.drop_drop]

/-- What is sent in answer to a packet. -/
def replyTo (d : DhcpServer) (p : Bytes) (yi : Nat) (type : UInt8) : Bytes :=
  offerMsg :: ((p.drop 1).take 15 ++ [d.ip.a, d.ip.b, d.ip.c, baseIp + UInt8.ofNat yi] ++ (p.drop 20).take 220) ++
    (text (answerItems d type) ++ [optEnd])

/-- The parts of a reply, and how long they are. -/
theorem replyTo_eq (d : DhcpServer) {p : Bytes} (hp : minSize ≤ p.length) (yi : Nat) (type : UInt8) :
    ∃ a b, a.length = 16 ∧ b.length = 220 ∧ a = offerMsg :: (p.drop 1).take 15 ∧ b = (p.drop 20).take 220 ∧
      replyTo d p yi type = a ++ ([d.ip.a, d.ip.b, d.ip.c, baseIp + UInt8.ofNat yi] ++ (b ++
        (text (answerItems d type) ++ [optEnd]))) := by
  have hm : minSize = 243 := rfl
  refine ⟨offerMsg :: (p.drop 1).take 15, (p.drop 20).take 220, ?_, ?_, rfl, rfl, ?_⟩
  · rw [List.length_cons, List.length_take, List.length_drop]
    omega
  · rw [List.length_take, List.length_drop]
    omega
  · simp only [replyTo, List.append_assoc, List.cons_append]

theorem take_received (stack : Stack) {p : Bytes} {i n : Nat} (hp : i + n ≤ p.length) (hm : i + n ≤ msgSize) :
    ((received stack p).drop i).take n = (p.drop i).take n := by
  have h : i + n ≤ (p.take msgSize).length := by rw [List.length_take]; omega
  rw [received, List.drop_append_of_le_length (by omega), List.take_append_of_le_length (by rw [List.length_drop]; omega),
    List.drop_take, List.take_take, Nat.min_eq_left (by omega)]

theorem chaddr_prepared (d : DhcpServer) (stack : Stack) {p : Bytes} (hp : minSize ≤ p.length) :
    chaddr (prepared d (received stack p)) = chaddr p := by
  have h := drop_prepared d (length_received stack p) 8
  have hm : minSize = 243 := rfl
  rw [chaddr, chaddr, show chaddrAt = 20 + 8 from rfl, h, take_received stack _ (by decide)]
  rw [hm] at hp
  exact Nat.le_trans (by decide) hp

theorem replyBytes_prepared (d : DhcpServer) (stack : Stack) {p : Bytes} (hp : minSize ≤ p.length) (yi : Nat)
    (type : UInt8) : replyBytes d (prepared d (received stack p)) yi type = replyTo d p yi type := by
  have hm : minSize = 243 := rfl
  have hr := length_received stack p
  have hfront : (prepared d (received stack p)).take 19 =
      offerMsg :: ((p.drop 1).take 15 ++ [d.ip.a, d.ip.b, d.ip.c]) := by
    rw [prepared, take_received stack (by omega) (by decide), List.take_succ_cons, List.take_append,
      List.take_of_length_le (by rw [List.length_take]; omega), List.length_take, List.length_drop,
      Nat.min_eq_left (by omega)]
    rfl
  have hback := drop_prepared d hr 0
  rw [replyBytes, replyTo, show yiaddrAt + 3 = 19 from rfl, show yiaddrAt + 4 = 20 + 0 from rfl, hfront, hback,
    take_received stack (by omega) (by decide)]
  simp only [List.cons_append, List.append_assoc, List.nil_append]

/-- **What a packet does to the server**, and what is sent. -/
inductive Does (d : DhcpServer) (clock : Nat → Nat) (p : Bytes) : DhcpServer → Option Bytes → Prop where
  | ignored : Does d clock p d none
  | full (h : (d.discover (chaddr p) clock).2 = maxIp) : Does d clock p (d.discover (chaddr p) clock).1 none
  | offered (hp : minSize ≤ p.length) (h : (d.discover (chaddr p) clock).2 ≠ maxIp) :
    Does d clock p (d.discover (chaddr p) clock).1 (some (replyTo d p (d.discover (chaddr p) clock).2 offerMsg))
  | acked (hp : minSize ≤ p.length) (yi : Nat) (hyi : yi < maxIp) (h : (d.lease.getD yi ⟨[], 0⟩).admits (chaddr p) = true) :
    Does d clock p (d.grant (chaddr p) yi (clock yi)) (some (replyTo d p yi ackMsg))

theorem requested_lt {d : DhcpServer} {msg : Bytes} {opt yi : Nat} (h : d.requested msg opt = .ok (some yi)) :
    yi < maxIp := by
  obtain ⟨o, -, h⟩ := bind_eq_ok.1 h
  cases o with
  | none => cases h
  | some o =>
    obtain ⟨net, -, h⟩ := bind_eq_ok.1 h
    split at h
    · cases h
    · obtain ⟨b, -, h⟩ := bind_eq_ok.1 h
      have hs := Except.ok.inj h
      split at hs
      · cases hs
      · cases hs
        omega

/-- **`dhcp_server_process` in its cases.** -/
theorem process_does {d d' : DhcpServer} {clock : Nat → Nat} {stack : Stack} {p : Bytes} {out : Option Bytes}
    (h : d.process clock stack p = .ok (d', out)) : Does d clock p d' out := by
  unfold DhcpServer.process at h
  split at h
  · cases h
    exact .ignored
  · rename_i hlen
    have hp : minSize ≤ p.length := Nat.le_of_not_lt hlen
    have hr := length_received stack p
    rw [← bind_assoc, prepare_eq d hr] at h
    have hmac := chaddr_prepared d stack hp
    have hreply := fun (e : DhcpServer) (yi : Nat) (type : UInt8) => reply_eq e (length_prepared d hr) yi type
    have hout := replyBytes_prepared d stack hp
    generalize prepared d (received stack p) = msg at h hmac hreply hout
    obtain ⟨_, hmsg, h⟩ := bind_eq_ok.1 h
    cases hmsg
    obtain ⟨msgtype, -, h⟩ := bind_eq_ok.1 h
    cases msgtype with
    | none =>
      cases h
      exact .ignored
    | some m =>
      obtain ⟨type, -, h⟩ := bind_eq_ok.1 h
      rw [hmac] at h
      split at h
      · -- DISCOVER
        dsimp only at h
        split at h
        · rename_i hfull
          cases h
          exact .full hfull
        · rename_i hfull
          rw [hreply, show replyBytes (d.discover (chaddr p) clock).1 msg (d.discover (chaddr p) clock).2 offerMsg =
            replyBytes d msg (d.discover (chaddr p) clock).2 offerMsg from rfl, hout] at h
          cases h
          exact .offered hp hfull
      · split at h
        · -- REQUEST
          obtain ⟨yi, hyi, h⟩ := bind_eq_ok.1 h
          cases yi with
          | none =>
            cases h
            exact .ignored
          | some yi =>
            dsimp only at h
            split at h
            · rename_i hadm
              rw [hreply, show replyBytes (d.grant (chaddr p) yi (clock yi)) msg yi ackMsg = replyBytes d msg yi ackMsg
                from rfl, hout] at h
              cases h
              exact .acked hp yi (requested_lt hyi) hadm
            · cases h
              exact .ignored
        · cases h
          exact .ignored

/-! ## Packets with whole options -/

/-- A packet whose options end inside the message. -/
structure Packet where
  -- up to the magic cookie
  front : Bytes
  items : List Item
  rest : Bytes
  size : front.length = 240
  tags : ∀ it ∈ items, it.tag ≠ optEnd
  fits : (text items).length < 308

namespace Packet

def bytes (pk : Packet) : Bytes := pk.front ++ (text pk.items ++ optEnd :: pk.rest)

/-- What the first option with a code says. -/
def value (pk : Packet) (tag : UInt8) : Option Bytes := (pk.items.find? (·.tag = tag)).map (·.data)

/-- The options that are read have the bytes that are read. -/
structure Whole (pk : Packet) : Prop where
  msgType : ∀ v ∈ pk.value optMsgType, 1 ≤ v.length
  requestedIp : ∀ v ∈ pk.value optRequestedIp, 4 ≤ v.length

end Packet

/-- What a packet asks of a server. -/
inductive Query where
  | other
  | discover
  | request (yi : Nat)
  deriving DecidableEq

/-- The lease that a requested address stands for. -/
def DhcpServer.slotOf (d : DhcpServer) (v : Bytes) : Option Nat :=
  if v.take 3 = d.ip.bytes.take 3 ∧ (v.getD 3 0 - baseIp).toNat < maxIp then some (v.getD 3 0 - baseIp).toNat else none

def DhcpServer.query (d : DhcpServer) (pk : Packet) : Query :=
  match pk.value optMsgType with
  | none => .other
  | some v =>
    if v.getD 0 0 = discoverMsg then .discover
    else if v.getD 0 0 = requestMsg then
      match (pk.value optRequestedIp).bind d.slotOf with
      | none => .other
      | some yi => .request yi
    else .other

/-- What a query does, and what is sent. -/
def DhcpServer.answer (d : DhcpServer) (clock : Nat → Nat) (p : Bytes) : Query → DhcpServer × Option Bytes
  | .other => (d, none)
  | .discover =>
    let r := d.discover (chaddr p) clock
    (r.1, if r.2 = maxIp then none else some (replyTo d p r.2 offerMsg))
  | .request yi =>
    if (d.lease.getD yi ⟨[], 0⟩).admits (chaddr p) then
      (d.grant (chaddr p) yi (clock yi), some (replyTo d p yi ackMsg))
    else (d, none)

/-- Where the message has the value of an option. -/
theorem optFind_value {cmd : UInt8} (hcmd : cmd ≠ optEnd) {pk : Packet} {front rest : Bytes} :
    (pk.value cmd = none → optFind (front ++ (text pk.items ++ optEnd :: rest)) front.length cmd = .ok none) ∧
    ∀ v, pk.value cmd = some v → ∃ a c,
      optFind (front ++ (text pk.items ++ optEnd :: rest)) front.length cmd = .ok (some a.length) ∧
      front ++ (text pk.items ++ optEnd :: rest) = a ++ (cmd :: UInt8.ofNat v.length :: (v ++ c)) := by
  have hfind := optFind_text hcmd front rest pk.tags pk.fits
  rcases split_at_tag cmd pk.items with hnone | ⟨pre, it, post, hitems, hpre, hit⟩
  · have hv : pk.value cmd = none := by
      rw [Packet.value, List.find?_eq_none.2 (fun x hx => by simpa using hnone x hx)]
      rfl
    rw [offset_none hnone] at hfind
    exact ⟨fun _ => hfind, fun v h => by rw [hv] at h; cases h⟩
  · have hv : pk.value cmd = some it.data := by
      rw [Packet.value, hitems, List.find?_append, List.find?_eq_none.2 (fun x hx => by simpa using hpre x hx)]
      simp [hit]
    refine ⟨fun h => (by rw [hv] at h; cases h), fun v h => ?_⟩
    rw [hv] at h
    cases h
    refine ⟨front ++ text pre, text post ++ optEnd :: rest, ?_, ?_⟩
    · rw [hfind, hitems, offset_eq post hpre hit, List.length_append]
      rfl
    · rw [hitems, text_append, text_cons, Item.bytes, hit]
      simp only [List.append_assoc, List.cons_append]

/-- The message that a packet is copied into. -/
theorem prepared_packet (d : DhcpServer) (stack : Stack) (pk : Packet) : ∃ front rest, front.length = 240 ∧
    prepared d (received stack pk.bytes) = front ++ (text pk.items ++ optEnd :: rest) := by
  have hm : msgSize = 548 := rfl
  have hfits := pk.fits
  have hsize := pk.size
  have hlen : (pk.front ++ (text pk.items ++ [optEnd])).length ≤ msgSize := by
    simp only [List.length_append, List.length_singleton]
    omega
  have hb : pk.bytes = (pk.front ++ (text pk.items ++ [optEnd])) ++ pk.rest := by
    simp only [Packet.bytes, List.append_assoc, List.singleton_append]
  have hrec : ∃ rest, received stack pk.bytes = pk.front ++ (text pk.items ++ optEnd :: rest) := by
    refine ⟨pk.rest.take (msgSize - (pk.front ++ (text pk.items ++ [optEnd])).length) ++
      stack.bytes.drop (pk.bytes.take msgSize).length, ?_⟩
    rw [received, hb, List.take_append, List.take_of_length_le hlen]
    simp only [List.append_assoc, List.cons_append, List.nil_append]
  obtain ⟨rest, hrec⟩ := hrec
  refine ⟨offerMsg :: ((pk.front.drop 1).take 15 ++ (d.ip.bytes ++ pk.front.drop 20)), rest, ?_, ?_⟩
  · rw [List.length_cons, List.length_append, List.length_append, List.length_take, List.length_drop, List.length_drop,
      hsize]
    rfl
  · rw [prepared, hrec, List.drop_append_of_le_length (by omega), List.drop_append_of_le_length (by omega),
      List.take_append_of_le_length (by rw [List.length_drop]; omega)]
    simp only [List.append_assoc, List.cons_append]

theorem readByte_drop (a : Bytes) (b c : UInt8) (v rest : Bytes) {k : Nat} {x : UInt8} (h : v[k]? = some x) :
    readByte (a ++ (b :: c :: (v ++ rest))) (a.length + (2 + k)) = .ok x := by
  refine readByte_ok.2 ?_
  rw [List.getElem?_append_right (by omega), Nat.add_sub_cancel_left, Nat.add_comm 2 k, List.getElem?_cons_succ,
    List.getElem?_cons_succ, List.getElem?_append_left (List.getElem?_eq_some_iff.1 h).1, h]

theorem requested_eq (d : DhcpServer) {pk : Packet} (hw : pk.Whole) (front rest : Bytes) (hf : front.length = 240) :
    d.requested (front ++ (text pk.items ++ optEnd :: rest)) 240 =
      .ok ((pk.value optRequestedIp).bind d.slotOf) := by
  obtain ⟨hnone, hsome⟩ := @optFind_value optRequestedIp (by decide) pk front rest
  rw [hf] at hnone hsome
  cases hv : pk.value optRequestedIp with
  | none =>
    rw [DhcpServer.requested, hnone hv]
    rfl
  | some v =>
    obtain ⟨a, c, hfind, hmem⟩ := hsome v hv
    have hlen := hw.requestedIp v hv
    have hx : v[3]? = some (v.getD 3 0) := by
      rw [List.getD_eq_getElem?_getD, List.getElem?_eq_getElem (by omega)]
      rfl
    have hnet : readBlock (front ++ (text pk.items ++ optEnd :: rest)) (a.length + 2) 3 = .ok (v.take 3) := by
      rw [hmem, readBlock, if_pos (by simp only [List.length_append, List.length_cons]; omega), ← List.drop_drop,
        List.drop_left, List.drop_succ_cons, List.drop_succ_cons, List.drop_zero,
        List.take_append_of_le_length (by omega)]
    have hbyte := readByte_drop a optRequestedIp (UInt8.ofNat v.length) v c hx
    rw [← hmem] at hbyte
    rw [DhcpServer.requested, hfind]
    simp only [bind, Except.bind, hnet, Option.bind_some, DhcpServer.slotOf]
    by_cases hip : v.take 3 = d.ip.bytes.take 3
    · rw [if_neg (not_not_intro hip)]
      simp only [hbyte]
      by_cases hyi : (v.getD 3 0 - baseIp).toNat < maxIp
      · rw [if_neg (by omega), if_pos ⟨hip, hyi⟩]
      · rw [if_pos (by omega), if_neg (fun h => hyi h.2)]
    · rw [if_pos hip, if_neg (fun h => hip h.1)]

/-- **A packet with whole options** is answered as its options say: nothing outside the message is read, and nothing of
what stood on the stack before. -/
theorem process_packet (d : DhcpServer) (clock : Nat → Nat) (stack : Stack) {pk : Packet} (hw : pk.Whole)
    (hlen : minSize ≤ pk.bytes.length) :
    d.process clock stack pk.bytes = .ok (d.answer clock pk.bytes (d.query pk)) := by
  obtain ⟨front, rest, hf, hmsg⟩ := prepared_packet d stack pk
  have hr := length_received stack pk.bytes
  have hmac := chaddr_prepared d stack hlen
  have hreply := fun (e : DhcpServer) (yi : Nat) (type : UInt8) => reply_eq e (length_prepared d hr) yi type
  have hout := replyBytes_prepared d stack hlen
  have hreq := requested_eq d hw front rest hf
  obtain ⟨hnone, hsome⟩ := @optFind_value optMsgType (by decide) pk front rest
  rw [hf] at hnone hsome
  unfold DhcpServer.process DhcpServer.query
  rw [if_neg (Nat.not_lt.2 hlen), ← bind_assoc, prepare_eq d hr]
  rw [hmsg] at hmac hreply hout ⊢
  simp only [bind, Except.bind]
  rw [show optionsAt + 4 = 240 from rfl]
  cases hv : pk.value optMsgType with
  | none =>
    rw [hnone hv]
    rfl
  | some v =>
    obtain ⟨a, c, hfind, hmem⟩ := hsome v hv
    have hx : v[0]? = some (v.getD 0 0) := by
      rw [List.getD_eq_getElem?_getD, List.getElem?_eq_getElem (hw.msgType v hv)]
      rfl
    have hbyte := readByte_drop a optMsgType (UInt8.ofNat v.length) v c hx
    rw [← hmem] at hbyte
    simp only [hfind, hbyte]
    rw [hmac]
    by_cases hd : v.getD 0 0 = discoverMsg
    · rw [if_pos hd, if_pos hd]
      by_cases hfull : (d.discover (chaddr pk.bytes) clock).2 = maxIp
      · rw [if_pos hfull, DhcpServer.answer]
        simp only [hfull, if_true]
      · rw [if_neg hfull, hreply, DhcpServer.answer]
        simp only [hfull, if_false]
        rw [← hout]
        rfl
    · rw [if_neg hd, if_neg hd]
      by_cases hq : v.getD 0 0 = requestMsg
      · rw [if_pos hq, if_pos hq, hreq]
        cases hyi : (pk.value optRequestedIp).bind d.slotOf with
        | none => rfl
        | some yi =>
          simp only [DhcpServer.answer]
          split
          · rw [hreply, ← hout]
            rfl
          · rfl
      · rw [if_neg hq, if_neg hq]
        rfl

/-- A packet of the client with the hardware address `0:0:0:0:0:mac`. -/
def clientPacket (mac : UInt8) (items : List Item) (htags : ∀ it ∈ items, it.tag ≠ optEnd)
    (hfits : (text items).length < 308) : Packet where
  front := List.replicate 33 0 ++ mac :: List.replicate 206 0
  items := items
  rest := []
  size := by rw [List.length_append, List.length_replicate, List.length_cons, List.length_replicate]
  tags := htags
  fits := hfits

/-- The client looks for a server. -/
def findPacket (mac : UInt8) : Packet :=
  clientPacket mac [⟨optMsgType, [discoverMsg], by decide⟩] (by decide) (by decide)

/-- The client asks for the first address of the access point. -/
def askPacket (mac : UInt8) : Packet :=
  clientPacket mac [⟨optMsgType, [requestMsg], by decide⟩, ⟨optRequestedIp, [192, 168, 4, 16], by decide⟩] (by decide)
    (by decide)

theorem whole_find (mac : UInt8) : (findPacket mac).Whole :=
  ⟨fun _ hv => Option.some.inj hv ▸ by decide, fun _ hv => by cases hv⟩

theorem whole_ask (mac : UInt8) : (askPacket mac).Whole :=
  ⟨fun _ hv => Option.some.inj hv ▸ by decide, fun _ hv => Option.some.inj hv ▸ by decide⟩

/-- A stack of zeros. -/
def blankStack : Stack := ⟨List.replicate msgSize 0, List.length_replicate⟩

theorem process_ask : (init apIp apMask).process (fun _ => 5000) blankStack (askPacket 1).bytes =
    .ok ((init apIp apMask).answer (fun _ => 5000) (askPacket 1).bytes ((init apIp apMask).query (askPacket 1))) :=
  process_packet _ _ _ (whole_ask 1) (by decide +kernel)

end Dhcp
end Pico
