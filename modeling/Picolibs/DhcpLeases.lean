import Picolibs.DhcpReply
import Picolibs.Leasing
import Picolibs.Loop
/-!
# DhcpLeases — which clients have which addresses (`dhcpserver.c`)

A run is one packet after another, with a clock that does not go back.  What was sent tells which client was granted
which address and when; the leases are notes of that (`Inv`), and a lease that looks expired is over, so that
`Leasing.Covered` holds in every run.
-/
namespace Pico
namespace Dhcp

open Tagged
open Leasing
open History (Reach inv_of_reach reach_along)

/-! ## What DISCOVER does to the leases -/

/-- What the loop leaves of the leases from `i` on, and the lease it chose. -/
structure Discovered (mac : Bytes) (clock : Nat → Nat) (i yi : Nat) (ls ls' : List Lease) (yi' : Nat) : Prop where
  length : ls'.length = ls.length
  kept : ∀ (j : Nat) (l : Lease), ls[j]? = some l →
    ls'[j]? = some l ∨ l.expired (clock (i + j)) = true ∧ l.mac ≠ mac ∧ ls'[j]? = some l.freed
  chosen : yi' = yi ∨ ∃ (j : Nat) (l : Lease), yi' = i + j ∧ ls'[j]? = some l ∧ l.admits mac = true
  own : ∀ l ∈ ls, l.mac = mac → ∃ (j : Nat) (l' : Lease), yi' = i + j ∧ ls'[j]? = some l' ∧ l'.mac = mac
  full : yi = maxIp → yi' = maxIp → i + ls.length ≤ maxIp →
    ∀ (j : Nat) (l : Lease), ls[j]? = some l → l.admits mac = false ∧ l.expired (clock (i + j)) = false

theorem Lease.admits_iff {l : Lease} {mac : Bytes} : l.admits mac = true ↔ l.mac = mac ∨ l.mac = zeroMac := by
  rw [Lease.admits, Bool.or_eq_true, beq_iff_eq, beq_iff_eq]

/-- A lease in front of the loop's, which it left or freed. -/
theorem Discovered.cons {mac : Bytes} {clock : Nat → Nat} {i yi yi1 yi' : Nat} {ls ls' : List Lease} {l l0 : Lease}
    (h : Discovered mac clock (i + 1) yi1 ls ls' yi') (hmac : l.mac ≠ mac)
    (hl : l0 = l ∨ l.expired (clock i) = true ∧ l0 = l.freed) (hyi : yi1 = yi ∨ yi1 = i ∧ l0.mac = zeroMac)
    (hfull : yi1 ≠ i → yi1 = yi → l.admits mac = false ∧ l.expired (clock i) = false ∨ yi ≠ maxIp) :
    Discovered mac clock i yi (l :: ls) (l0 :: ls') yi' := by
  have hshift : ∀ j, i + 1 + j = i + (j + 1) := fun j => by omega
  refine ⟨congrArg (· + 1) h.length, fun j x hx => ?_, ?_, fun x hx hxm => ?_, fun h1 h2 h3 => ?_⟩
  · cases j with
    | zero =>
      cases Option.some.inj hx
      rcases hl with rfl | ⟨hexp, rfl⟩
      · exact .inl rfl
      · exact .inr ⟨hexp, hmac, rfl⟩
    | succ j =>
      rw [← hshift]
      exact h.kept j x hx
  · rcases h.chosen with rfl | ⟨j, x, hj, hx, hadm⟩
    · rcases hyi with rfl | ⟨rfl, hz⟩
      · exact .inl rfl
      · exact .inr ⟨0, l0, rfl, rfl, Lease.admits_iff.2 (.inr hz)⟩
    · exact .inr ⟨j + 1, x, by rw [hj, hshift], hx, hadm⟩
  · rcases List.mem_cons.1 hx with rfl | hx
    · exact absurd hxm hmac
    · obtain ⟨j, x', hj, hx', hm⟩ := h.own x hx hxm
      exact ⟨j + 1, x', by rw [hj, hshift], hx', hm⟩
  · rw [List.length_cons] at h3
    have hmax : yi1 = maxIp := by
      rcases h.chosen with heq | ⟨j, x, hj, hx, -⟩
      · rw [← heq, h2]
      · have hlt := (List.getElem?_eq_some_iff.1 hx).1
        rw [h.length] at hlt
        omega
    intro j x hx
    cases j with
    | zero =>
      cases Option.some.inj hx
      rcases hfull (by omega) (hmax.trans h1.symm) with hhead | hne
      · exact hhead
      · exact absurd h1 hne
    | succ j =>
      rw [← hshift]
      exact h.full hmax h2 (by omega) j x hx

/-- **The loop of DISCOVER.** -/
theorem discover_discovered (mac : Bytes) (clock : Nat → Nat) : ∀ (ls : List Lease) (i yi : Nat),
    Discovered mac clock i yi ls (discover mac clock i yi ls).1 (discover mac clock i yi ls).2
  | [], i, yi => ⟨rfl, fun _ _ h => .inl h, .inl rfl, fun _ h => absurd h List.not_mem_nil, fun _ _ _ j l h => by cases h⟩
  | l :: ls, i, yi => by
    unfold discover
    by_cases hm : l.mac = mac
    · rw [if_pos hm]
      refine ⟨rfl, fun _ _ h => .inl h, .inr ⟨0, l, rfl, rfl, Lease.admits_iff.2 (.inl hm)⟩,
        fun _ _ _ => ⟨0, l, rfl, rfl, hm⟩, fun _ h2 h3 => ?_⟩
      rw [List.length_cons] at h3
      omega
    · rw [if_neg hm]
      by_cases hy : yi = maxIp
      · rw [if_pos hy]
        dsimp only
        by_cases hexp : l.expired (clock i) = true
        · rw [if_pos hexp]
          exact (discover_discovered mac clock ls (i + 1) i).cons hm (.inr ⟨hexp, rfl⟩) (.inr ⟨rfl, rfl⟩)
            (fun hne => absurd rfl hne)
        · rw [if_neg hexp]
          by_cases hz : l.mac = zeroMac
          · rw [if_pos hz]
            exact (discover_discovered mac clock ls (i + 1) i).cons hm (.inl rfl) (.inr ⟨rfl, hz⟩)
              (fun hne => absurd rfl hne)
          · rw [if_neg hz]
            refine (discover_discovered mac clock ls (i + 1) yi).cons hm (.inl rfl) (.inl rfl) (fun _ _ => .inl ⟨?_, ?_⟩)
            · rw [← Bool.not_eq_true, Lease.admits_iff]
              exact not_or.2 ⟨hm, hz⟩
            · rwa [← Bool.not_eq_true]
      · rw [if_neg hy]
        exact (discover_discovered mac clock ls (i + 1) yi).cons hm (.inl rfl) (.inl rfl) (fun _ _ => .inr hy)

/-! ## Expiry -/

/-- The term of a lease, in milliseconds. -/
def leaseMs : Nat := leaseTimeS * 1000

/-- The last millisecond of a lease that was granted at `t`: only the high half of the expiry is stored. -/
def lastTick (t : Nat) : Nat := (t + leaseMs) / 2 ^ 16 * 2 ^ 16 + 0xffff

/-- A lease does not look expired when its last tick, modulo 2^32, is less than 2^31 ahead. -/
theorem expired_iff {l : Lease} {since t : Nat} (hl : l.expiry = expiryAt since) (ht : since ≤ t) :
    l.expired t = false ↔ ∃ k, t ≤ lastTick since + k * 2 ^ 32 ∧ lastTick since + k * 2 ^ 32 < t + 2 ^ 31 := by
  have hor : l.expiry <<< 16 ||| 0xffff = l.expiry * 65536 + 65535 := by
    rw [← Nat.shiftLeft_add_eq_or_of_lt (by decide), Nat.shiftLeft_eq]
  have hexp : expiryAt since = (since % 4294967296 + 86400000) % 4294967296 / 65536 := by
    rw [expiryAt, Nat.shiftRight_eq_div_pow]
    rfl
  have hlast : lastTick since = (since + 86400000) / 65536 * 65536 + 65535 := rfl
  unfold Lease.expired
  rw [hor, hl, hexp, hlast, decide_eq_false_iff_not, ticks]
  constructor
  · intro h
    refine ⟨(t + 2147483647 - ((since + 86400000) / 65536 * 65536 + 65535)) / 4294967296, ?_, ?_⟩
    · omega
    · omega
  · rintro ⟨k, h1, h2⟩
    omega

/-- **A lease that looks expired is over.** -/
theorem expired_over {l : Lease} {since t : Nat} (hl : l.expiry = expiryAt since) (ht : since ≤ t)
    (h : l.expired t = true) : since + leaseMs < t := by
  by_contra hlt
  have hlast : lastTick since = (since + leaseMs) / 65536 * 65536 + 65535 := rfl
  have hms : leaseMs = 86400000 := rfl
  rw [← Bool.not_eq_false, expired_iff hl ht] at h
  exact h ⟨0, by omega, by omega⟩

/-! ## Runs -/

/-- A packet arrives; `till` is when it has been dealt with. -/
structure Event where
  clock : Nat → Nat
  till : Nat
  stack : Stack
  p : Bytes

/-- What was handed to `dhcp_socket_sendto`, whatever became of it, and the clock that was read for it. -/
structure Sent where
  clock : Nat → Nat
  bytes : Bytes

structure World where
  server : DhcpServer
  now : Nat := 0
  sent : List Sent := []
  fault : Option Fault := none

/-- The packet has been dealt with. -/
def World.next (w : World) (e : Event) (d : DhcpServer) (sent : List Sent) : World :=
  { w with server := d, now := e.till, sent := sent }

section Next

variable (w : World) (e : Event) (d : DhcpServer) (sent : List Sent)

@[simp] theorem World.next_server : (w.next e d sent).server = d := rfl

@[simp] theorem World.next_now : (w.next e d sent).now = e.till := rfl

@[simp] theorem World.next_sent : (w.next e d sent).sent = sent := rfl

end Next

def step (w : World) (e : Event) : World :=
  match w.server.process e.clock e.stack e.p with
  | .error f => { w with fault := some f }
  | .ok (d, out) => w.next e d (w.sent ++ (out.map (Sent.mk e.clock)).toList)

/-- The clock does not go back, and nothing runs after a fault. -/
def Can (w : World) (e : Event) : Prop :=
  w.fault = none ∧ ∀ i < maxIp, w.now ≤ e.clock i ∧ e.clock i ≤ e.till

def start (ip nm : Ip4) : World := { server := init ip nm }

def Sent.type (s : Sent) : UInt8 := s.bytes.getD 242 0

def Sent.yiaddr (s : Sent) : Bytes := (s.bytes.drop yiaddrAt).take 4

/-- The lease of the address. -/
def Sent.slot (s : Sent) : Nat := (s.yiaddr.getD 3 0 - baseIp).toNat

def Sent.mac (s : Sent) : Bytes := chaddr s.bytes

def Sent.time (s : Sent) : Nat := s.clock s.slot

def Sent.isAck (s : Sent) : Bool := s.type == ackMsg

def Sent.grant (s : Sent) : Grant Nat Bytes := ⟨s.slot, s.mac, s.time⟩

def acks (sent : List Sent) : List Sent := sent.filter (·.isAck)

/-- When the lease was granted last. -/
def since (sent : List Sent) (i : Nat) : Nat := (((acks sent).filter (·.slot = i)).getLast?.map (·.time)).getD 0

/-- Who holds the lease, by its notes. -/
def holder (w : World) (i : Nat) : Option (Bytes × Nat) :=
  match w.server.lease[i]? with
  | none => none
  | some l => if l.mac = zeroMac then none else some (l.mac, since w.sent i)

structure Inv (w : World) : Prop where
  covered : Covered (· ≠ zeroMac) leaseMs (holder w) w.now ((acks w.sent).map (·.grant))
  noted : ∀ (i : Nat) (l : Lease), w.server.lease[i]? = some l → l.mac ≠ zeroMac →
    l.expiry = expiryAt (since w.sent i) ∧ since w.sent i ≤ w.now

/-! What a reply says. -/

section Reply

variable (d : DhcpServer) {p : Bytes} (hp : minSize ≤ p.length) (clock : Nat → Nat)

include hp

theorem yiaddr_replyTo (yi : Nat) (type : UInt8) :
    (Sent.mk clock (replyTo d p yi type)).yiaddr = [d.ip.a, d.ip.b, d.ip.c, baseIp + UInt8.ofNat yi] := by
  obtain ⟨a, b, ha, -, -, -, heq⟩ := replyTo_eq d hp yi type
  rw [Sent.yiaddr, heq, show yiaddrAt = a.length from ha.symm, List.drop_left]
  rfl

theorem slot_replyTo {yi : Nat} (hyi : yi < maxIp) (type : UInt8) :
    (Sent.mk clock (replyTo d p yi type)).slot = yi := by
  have hm : maxIp = 8 := rfl
  have hsub : baseIp + UInt8.ofNat yi - baseIp = UInt8.ofNat yi := by rw [UInt8.add_comm, UInt8.add_sub_cancel]
  rw [Sent.slot, yiaddr_replyTo d hp]
  refine (congrArg UInt8.toNat hsub).trans ?_
  rw [UInt8.toNat_ofNat', Nat.mod_eq_of_lt (by omega)]

theorem mac_replyTo (yi : Nat) (type : UInt8) : (Sent.mk clock (replyTo d p yi type)).mac = chaddr p := by
  obtain ⟨a, b, ha, hb, -, hbp, heq⟩ := replyTo_eq d hp yi type
  rw [Sent.mac, chaddr, heq, show chaddrAt = a.length + (4 + 8) by rw [ha]; rfl, ← List.drop_drop, List.drop_left,
    ← List.drop_drop, show (4 : Nat) = [d.ip.a, d.ip.b, d.ip.c, baseIp + UInt8.ofNat yi].length from rfl, List.drop_left,
    List.drop_append_of_le_length (by omega), List.take_append_of_le_length (by rw [List.length_drop, hb]; decide), hbp,
    List.drop_take, List.take_take, List.drop_drop]
  rfl

theorem type_replyTo (yi : Nat) (type : UInt8) : (Sent.mk clock (replyTo d p yi type)).type = type := by
  obtain ⟨a, b, ha, hb, -, -, heq⟩ := replyTo_eq d hp yi type
  have h4 : [d.ip.a, d.ip.b, d.ip.c, baseIp + UInt8.ofNat yi].length = 4 := rfl
  have h2 : (text (answerItems d type) ++ [optEnd])[2]? = some type := rfl
  rw [Sent.type, heq, List.getD_eq_getElem?_getD, List.getElem?_append_right (by omega),
    List.getElem?_append_right (by omega), List.getElem?_append_right (by omega),
    show 242 - a.length - [d.ip.a, d.ip.b, d.ip.c, baseIp + UInt8.ofNat yi].length - b.length = 2 by omega, h2]
  rfl

end Reply

theorem acks_snoc (sent : List Sent) (s : Sent) : acks (sent ++ [s]) = acks sent ++ if s.isAck then [s] else [] := by
  rw [acks, List.filter_append, List.filter_singleton, acks]
  cases s.isAck <;> rfl

theorem since_congr {sent sent' : List Sent} (h : acks sent' = acks sent) : since sent' = since sent := by
  funext i
  rw [since, h, since]

theorem since_snoc {sent : List Sent} {s : Sent} (h : s.isAck = true) :
    since (sent ++ [s]) = Function.update (since sent) s.slot s.time := by
  funext i
  rw [since, acks_snoc, if_pos h, List.filter_append]
  by_cases hi : s.slot = i
  · simp [hi]
  · rw [Function.update_of_ne (Ne.symm hi), since]
    simp [hi]

/-! ## The notes hold in every run -/

theorem server_lt (d : DhcpServer) {i : Nat} {l : Lease} (h : d.lease[i]? = some l) : i < maxIp := by
  have := (List.getElem?_eq_some_iff.1 h).1
  rwa [d.slots] at this

theorem exists_lease (d : DhcpServer) {i : Nat} (h : i < maxIp) : ∃ l, d.lease[i]? = some l :=
  ⟨_, List.getElem?_eq_getElem (by rw [d.slots]; exact h)⟩

/-- Leases are left as they are, or are freed when they look expired. -/
theorem Inv.freed {w : World} (h : Inv w) {e : Event} (hc : Can w e) {d : DhcpServer} {sent : List Sent}
    (hacks : acks sent = acks w.sent) (hkept : ∀ (i : Nat) (l : Lease), w.server.lease[i]? = some l →
      d.lease[i]? = some l ∨ l.expired (e.clock i) = true ∧ d.lease[i]? = some l.freed) :
    Inv (w.next e d sent) := by
  have hlater : w.now ≤ e.till := Nat.le_trans (hc.2 0 (by decide)).1 (hc.2 0 (by decide)).2
  have hsince := since_congr hacks
  refine ⟨?_, fun i l hl hz => ?_⟩
  · rw [World.next_sent, World.next_now, hacks]
    refine (h.covered.later hlater).lapse (fun i => ?_)
    by_cases hi : i < maxIp
    · obtain ⟨l, hl⟩ := exists_lease w.server hi
      rcases hkept i l hl with heq | ⟨hexp, heq⟩
      · refine .inl ?_
        simp only [holder, World.next_server, World.next_sent, hl, heq, hsince]
      · refine .inr fun c t ht => ?_
        simp only [holder, hl] at ht
        split at ht
        · cases ht
        · rename_i hz
          cases ht
          obtain ⟨hnote, hle⟩ := h.noted i l hl hz
          exact Nat.lt_of_lt_of_le (expired_over hnote (Nat.le_trans hle (hc.2 i hi).1) hexp) (hc.2 i hi).2
    · refine .inl ?_
      simp only [holder, World.next_server, List.getElem?_eq_none (Nat.le_of_not_lt (by rw [w.server.slots]; exact hi)),
        List.getElem?_eq_none (Nat.le_of_not_lt (by rw [d.slots]; exact hi))]
  · obtain ⟨l0, hl0⟩ := exists_lease w.server (server_lt d hl)
    rcases hkept i l0 hl0 with heq | ⟨-, heq⟩
    · cases Option.some.inj (heq.symm.trans hl)
      obtain ⟨hnote, hle⟩ := h.noted i l hl0 hz
      rw [World.next_sent, hsince]
      exact ⟨hnote, Nat.le_trans hle hlater⟩
    · cases Option.some.inj (heq.symm.trans hl)
      exact absurd rfl hz

/-- A client is granted a lease that is its own or nobody's. -/
theorem Inv.granted {w : World} (h : Inv w) {e : Event} (hc : Can w e) {s : Sent} (hs : s.isAck = true)
    (hslot : s.slot < maxIp) (hclock : s.clock = e.clock)
    (hadm : (w.server.lease.getD s.slot ⟨[], 0⟩).admits s.mac = true) :
    Inv (w.next e (w.server.grant s.mac s.slot (e.clock s.slot)) (w.sent ++ [s])) := by
  have htime : s.time = e.clock s.slot := by rw [Sent.time, hclock]
  obtain ⟨hfrom, htill⟩ := hc.2 s.slot hslot
  obtain ⟨l, hl⟩ := exists_lease w.server hslot
  have hadm' : l.mac = s.mac ∨ l.mac = zeroMac := by
    rw [List.getD_eq_getElem?_getD, hl] at hadm
    exact Lease.admits_iff.1 hadm
  have hlen : s.slot < w.server.lease.length := by rw [w.server.slots]; exact hslot
  have hnow : w.now ≤ s.grant.time := by rw [Sent.grant, htime]; exact hfrom
  have hnew : ∀ i, (w.server.grant s.mac s.slot (e.clock s.slot)).lease[i]? =
      if s.slot = i then some ⟨s.mac, expiryAt (e.clock s.slot)⟩ else w.server.lease[i]? := by
    intro i
    rw [DhcpServer.grant, List.getElem?_set]
    exact ite_congr rfl (fun _ => if_pos hlen) (fun _ => rfl)
  refine ⟨?_, fun i l' hl' hz => ?_⟩
  · rw [World.next_sent, World.next_now, acks_snoc, if_pos hs, List.map_append, List.map_singleton]
    have hfree : ∀ c t, holder w s.grant.address = some (c, t) → c = s.grant.client := by
      intro c t hct
      simp only [holder, Sent.grant, hl] at hct
      split at hct
      · cases hct
      · rename_i hz
        cases hct
        exact hadm'.resolve_right hz
    by_cases hz : s.mac = zeroMac
    · have hnone : holder w s.slot = none := by
        simp only [holder, hl]
        rw [if_pos (hadm'.elim (fun hm => hm.trans hz) id)]
      have hsame : holder (w.next e (w.server.grant s.mac s.slot (e.clock s.slot)) (w.sent ++ [s])) = holder w := by
        funext i
        by_cases hi : s.slot = i
        · rw [← hi, hnone]
          simp only [holder, World.next_server, hnew, if_pos, if_pos hz]
        · simp only [holder, World.next_server, World.next_sent, hnew, if_neg hi, since_snoc hs,
            Function.update_of_ne (Ne.symm hi)]
      rw [hsame]
      exact (h.covered.lend hnow hnone (fun hn => hn hz)).later (by rw [Sent.grant, htime]; exact htill)
    · have hupdate : holder (w.next e (w.server.grant s.mac s.slot (e.clock s.slot)) (w.sent ++ [s])) =
          Function.update (holder w) s.grant.address (some (s.grant.client, s.grant.time)) := by
        funext i
        by_cases hi : s.slot = i
        · rw [← hi, show s.grant.address = s.slot from rfl, Function.update_self]
          simp only [holder, World.next_server, World.next_sent, hnew, if_pos, if_neg hz, since_snoc hs,
            Function.update_self]
          rfl
        · rw [Function.update_of_ne (show i ≠ s.grant.address from Ne.symm hi)]
          simp only [holder, World.next_server, World.next_sent, hnew, if_neg hi, since_snoc hs,
            Function.update_of_ne (Ne.symm hi)]
      rw [hupdate]
      exact (h.covered.grant hnow hfree).later (by rw [Sent.grant, htime]; exact htill)
  · rw [World.next_server, hnew] at hl'
    rw [World.next_sent, since_snoc hs]
    by_cases hi : s.slot = i
    · rw [if_pos hi] at hl'
      cases Option.some.inj hl'
      rw [hi, Function.update_self, htime, ← hi]
      exact ⟨rfl, htill⟩
    · rw [if_neg hi] at hl'
      rw [Function.update_of_ne (Ne.symm hi)]
      obtain ⟨hnote, hle⟩ := h.noted i l' hl' hz
      exact ⟨hnote, Nat.le_trans hle (Nat.le_trans hfrom htill)⟩

theorem inv_step {w : World} {e : Event} (h : Inv w) (hc : Can w e) : Inv (step w e) := by
  unfold step
  cases hp : w.server.process e.clock e.stack e.p with
  | error f => exact ⟨h.covered, h.noted⟩
  | ok r =>
    obtain ⟨d, out⟩ := r
    have hdisc := discover_discovered (chaddr e.p) e.clock w.server.lease 0 maxIp
    have hkept : ∀ (i : Nat) (l : Lease), w.server.lease[i]? = some l →
        (w.server.discover (chaddr e.p) e.clock).1.lease[i]? = some l ∨
          l.expired (e.clock i) = true ∧ (w.server.discover (chaddr e.p) e.clock).1.lease[i]? = some l.freed := by
      intro i l hl
      rcases hdisc.kept i l hl with heq | ⟨hexp, -, heq⟩
      · exact .inl heq
      · exact .inr ⟨by rwa [Nat.zero_add] at hexp, heq⟩
    dsimp only
    cases process_does hp with
    | ignored => exact h.freed hc (by simp) (fun _ _ hl => .inl hl)
    | full hfull => exact h.freed hc (by simp) hkept
    | offered hlen hyi =>
      refine h.freed hc ?_ hkept
      rw [Option.map_some, Option.toList_some, acks_snoc, Sent.isAck, type_replyTo _ hlen]
      exact List.append_nil _
    | acked hlen yi hyi hadm =>
      have hslot := slot_replyTo w.server hlen e.clock hyi ackMsg
      have hmac := mac_replyTo w.server hlen e.clock yi ackMsg
      have hack : (Sent.mk e.clock (replyTo w.server e.p yi ackMsg)).isAck = true := by
        rw [Sent.isAck, type_replyTo _ hlen]
        rfl
      have := h.granted hc hack (by rw [hslot]; exact hyi) rfl (by rw [hslot, hmac]; exact hadm)
      rw [hslot, hmac] at this
      exact this

/-- At the start nobody holds a lease. -/
theorem start_free {ip nm : Ip4} {i : Nat} {l : Lease} (hl : (start ip nm).server.lease[i]? = some l) :
    l.mac = zeroMac := by
  have hl' : (List.replicate maxIp (⟨zeroMac, 0⟩ : Lease))[i]? = some l := hl
  rw [List.getElem?_replicate] at hl'
  split at hl'
  · cases hl'
    rfl
  · cases hl'

theorem inv_start (ip nm : Ip4) : Inv (start ip nm) :=
  ⟨covered_nil, fun _ _ hl hz => absurd (start_free hl) hz⟩

theorem inv_reach {ip nm : Ip4} {w : World} (hr : Reach (start ip nm) step Can w) : Inv w :=
  inv_of_reach (inv_start ip nm) (fun _ _ => inv_step) hr

/-- **Nobody is granted an address before the lease of another client is over**, in any run: the term is 24 hours of
the clock, however often it has wrapped around.  A client without a hardware address holds no lease. -/
theorem acks_apart {ip nm : Ip4} {w : World} (hr : Reach (start ip nm) step Can w) :
    (acks w.sent).Pairwise (fun s s' => s.mac ≠ zeroMac → s.yiaddr = s'.yiaddr → s.mac ≠ s'.mac →
      s.time + leaseMs < s'.time) := by
  have hp := List.pairwise_map.1 (inv_reach hr).covered.apart
  refine hp.imp (fun {s s'} h hz hadr hmac => h hz ?_ hmac)
  rw [Sent.grant, Sent.grant, Sent.slot, Sent.slot, hadr]

instance decidableCan (w : World) (e : Event) : Decidable (Can w e) :=
  inferInstanceAs (Decidable (w.fault = none ∧ ∀ i < maxIp, w.now ≤ e.clock i ∧ e.clock i ≤ e.till))

/-- A packet that is dealt with within a millisecond. -/
def arrives (t : Nat) (pk : Packet) : Event := ⟨fun _ => t, t, blankStack, pk.bytes⟩

/-- A client is granted an address; 25 hours later another one finds it and is granted it. -/
def takeOver : List Event :=
  [arrives 0 (askPacket 1), arrives 90000000 (findPacket 2), arrives 90000000 (askPacket 2)]

theorem reach_takeOver : Reach (start apIp apMask) step Can (takeOver.foldl step (start apIp apMask)) :=
  reach_along takeOver _ .init (by decide +kernel)

theorem acks_apart_takeOver : (acks (takeOver.foldl step (start apIp apMask)).sent).Pairwise (fun s s' =>
    s.mac ≠ zeroMac → s.yiaddr = s'.yiaddr → s.mac ≠ s'.mac → s.time + leaseMs < s'.time) :=
  acks_apart reach_takeOver

example : (acks (takeOver.foldl step (start apIp apMask)).sent).map (fun s => (s.slot, s.time)) =
    [(0, 0), (0, 90000000)] := by decide +kernel

/-! ## When no address is found -/

/-- What DISCOVER gets of the server, when the packet says nothing else. -/
theorem discover_refused {d : DhcpServer} {clock : Nat → Nat} {mac : Bytes} : (d.discover mac clock).2 = maxIp ↔
    ∀ (i : Nat) (l : Lease), d.lease[i]? = some l → l.admits mac = false ∧ l.expired (clock i) = false := by
  have hdisc := discover_discovered mac clock d.lease 0 maxIp
  constructor
  · intro hfull i l hl
    have := hdisc.full rfl hfull (by rw [d.slots, Nat.zero_add]) i l hl
    rwa [Nat.zero_add] at this
  · intro h
    rcases hdisc.chosen with heq | ⟨j, l, -, hl, hadm⟩
    · exact heq
    · have hlt := (List.getElem?_eq_some_iff.1 hl).1
      rw [hdisc.length] at hlt
      have hj := List.getElem?_eq_getElem hlt
      rcases hdisc.kept j _ hj with hsame | ⟨hexp, -, -⟩
      · rw [hl] at hsame
        cases hsame
        rw [(h j _ hj).1] at hadm
        cases hadm
      · rw [Nat.zero_add, (h j _ hj).2] at hexp
        cases hexp

/-- **To a DISCOVER no answer is sent** in a run exactly when every address is held by another client and its last tick,
modulo 2^32 milliseconds, is less than 2^31 ahead.  So a lease that is not renewed is free from a bit after its term
on, but only for 2^31 milliseconds of every 2^32. -/
theorem discover_unanswered_iff {ip nm : Ip4} {w : World} (hr : Reach (start ip nm) step Can w) {e : Event}
    (hc : Can w e) {pk : Packet} (hw : pk.Whole) (hlen : minSize ≤ pk.bytes.length) (hp : e.p = pk.bytes)
    (hq : pk.value optMsgType = some [discoverMsg]) :
    (step w e).sent = w.sent ↔ ∀ i < maxIp, ∃ l, w.server.lease[i]? = some l ∧ l.mac ≠ chaddr pk.bytes ∧ l.mac ≠ zeroMac ∧
      ∃ k, e.clock i ≤ lastTick (since w.sent i) + k * 2 ^ 32 ∧
        lastTick (since w.sent i) + k * 2 ^ 32 < e.clock i + 2 ^ 31 := by
  have hinv := inv_reach hr
  have hquery : w.server.query pk = .discover := by
    rw [DhcpServer.query, hq]
    rfl
  have hstep : (step w e).sent = w.sent ↔ (w.server.discover (chaddr pk.bytes) e.clock).2 = maxIp := by
    rw [step, hp, process_packet _ _ _ hw hlen, hquery, DhcpServer.answer]
    by_cases h : (w.server.discover (chaddr pk.bytes) e.clock).2 = maxIp
    · simp [h]
    · simp [h]
  rw [hstep, discover_refused]
  constructor
  · intro h i hi
    obtain ⟨l, hl⟩ := exists_lease w.server hi
    obtain ⟨hadm, hexp⟩ := h i l hl
    rw [← Bool.not_eq_true, Lease.admits_iff, not_or] at hadm
    obtain ⟨hnote, hle⟩ := hinv.noted i l hl hadm.2
    exact ⟨l, hl, hadm.1, hadm.2, (expired_iff hnote (Nat.le_trans hle (hc.2 i hi).1)).1 hexp⟩
  · intro h i l hl
    have hi := server_lt w.server hl
    obtain ⟨l', hl', hmac, hz, hk⟩ := h i hi
    cases Option.some.inj (hl.symm.trans hl')
    obtain ⟨hnote, hle⟩ := hinv.noted i l hl hz
    refine ⟨?_, (expired_iff hnote (Nat.le_trans hle (hc.2 i hi).1)).2 hk⟩
    rw [← Bool.not_eq_true, Lease.admits_iff, not_or]
    exact ⟨hmac, hz⟩

theorem discover_unanswered_iff_find : (step (start apIp apMask) (arrives 0 (findPacket 1))).sent = [] ↔
    ∀ i < maxIp, ∃ l, (start apIp apMask).server.lease[i]? = some l ∧ l.mac ≠ chaddr (findPacket 1).bytes ∧
      l.mac ≠ zeroMac ∧ ∃ k, 0 ≤ lastTick (since [] i) + k * 2 ^ 32 ∧ lastTick (since [] i) + k * 2 ^ 32 < 0 + 2 ^ 31 :=
  discover_unanswered_iff (.init : Reach _ step Can _) (by decide +kernel) (whole_find 1) (by decide +kernel) rfl rfl

end Dhcp
end Pico
