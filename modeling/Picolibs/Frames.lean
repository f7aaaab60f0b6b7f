import Picolibs.Delivery
import Picolibs.Passes
/-!
# Frames — websocket frames in any segmentation

However a stream of frames is cut into segments, `process_websocket` is called once for every frame, in order, with its
opcode and its unmasked payload, and what stays in the buffer are the raw bytes of a frame that is not whole yet
(`frames_in_order`).  A pass takes a whole frame off the buffer or leaves the buffer as it was; the rest is an induction
on the frames that are left.
-/
namespace Pico
namespace Web

open Ws (Frame)

variable {W : World} {w : Web} {p : Pcb} {c : Client}

/-- What is told of one frame. -/
def report (W : World) (h : ClientHandle) (f : Frame) : List Act :=
  .frame h f.opcode f.payload :: heard W h f.opcode f.payload

theorem two_le_bytes (f : Frame) : 2 ≤ f.bytes.length := by
  have := f.two_le_lenEnd
  rw [f.length_bytes, f.length_head]
  omega

/-- **Frames are told apart by their bytes**: what two frames begin is cut at the same place, behind the same opcode. -/
theorem bytes_begin {f g : Frame} {x y : Bytes} (h : f.bytes ++ x = g.bytes ++ y) :
    f.opcode = g.opcode ∧ f.bytes.length = g.bytes.length ∧ x = y := by
  obtain ⟨hdr, hf, hop, hstart, hlen⟩ := Ws.parsePacket_frame f {} x
  obtain ⟨hdr', hg, hop', hstart', hlen'⟩ := Ws.parsePacket_frame g {} y
  rw [h, hg] at hf
  have hsame : hdr' = hdr := congrArg (fun r => r.2.1) (Except.ok.inj hf)
  have hbytes : f.bytes.length = g.bytes.length := by
    rw [f.length_bytes, g.length_bytes, ← hstart, ← hlen, ← hstart', ← hlen', hsame]
  exact ⟨by rw [← hop, ← hop', hsame], hbytes, (List.append_inj h hbytes).2⟩

/-! ## One pass -/

/-- The passes of the loop on the client `h`: each takes a frame off the buffer, and the last finds part of one. -/
inductive Passes (W : World) (p : Pcb) (h : ClientHandle) : Web → List Frame → Web → Prop where
  | part {w : Web} {c : Client} (hdr : Ws.Header) : w.Inv → w.findClient p = some c → c.handle = h →
      c.rqstIsReady = .ok (false, { c with wshdr := hdr }) →
      recvPass W h w = .leave (w.put { c with wshdr := hdr }) → Passes W p h w [] (w.put { c with wshdr := hdr })
  | frame {w v v' : Web} {c : Client} {f : Frame} {fs : List Frame} {rest : Bytes} : w.Inv → w.fault = none →
      w.findClient p = some c → c.handle = h → c.websocket = true → c.rqst = f.bytes ++ rest →
      recvPass W h w = .again v → Passes W p h v fs v' → Passes W p h w (f :: fs) v'

/-- A whole frame is read. -/
theorem frame_ready (hws : c.websocket = true) (f : Frame) {rest : Bytes} (hr : c.rqst = f.bytes ++ rest) :
    ∃ hdr : Ws.Header, c.rqstIsReady = .ok (true, { c with wshdr := hdr, rqst := f.head ++ f.payload ++ rest }) ∧
      hdr.opcode = f.opcode ∧ hdr.start.toNat = f.head.length ∧ hdr.length.toNat = f.payload.length ∧
      Text.substr (f.head ++ f.payload ++ rest) (some hdr.start.toNat)
        (some (hdr.start.toNat + hdr.length.toNat)) = .ok f.payload := by
  obtain ⟨hdr, hparse, hop, hstart, hlen⟩ := Ws.parsePacket_frame f c.wshdr rest
  refine ⟨hdr, ?_, hop, hstart, hlen, ?_⟩
  · unfold Client.rqstIsReady
    rw [if_neg (by rw [hws]; decide), hr, hparse]
    rfl
  · rw [hstart, hlen, Text.substr, if_pos (by simp only [List.length_append]; omega), List.append_assoc,
      List.drop_left, Option.getD_some, Nat.add_sub_cancel_left, List.take_left]

/-- `resetRqst` takes the frame off the buffer, header and payload. -/
theorem rqst_resetRqst {d : Client} {f : Frame} {hdr : Ws.Header} {rest : Bytes}
    (hd : SameText { c with wshdr := hdr, rqst := f.head ++ f.payload ++ rest } d) (hws : c.websocket = true)
    (hstart : hdr.start.toNat = f.head.length) (hlen : hdr.length.toNat = f.payload.length) :
    d.resetRqst.rqst = rest := by
  have hii : (hdr.start.toUInt32 + hdr.length).toNat = (f.head ++ f.payload).length := by
    have hn := f.length_lt
    have hs := hdr.start.toNat_lt
    have hk := f.length_keyBytes
    have hh := f.length_head
    have he := f.lenEnd_le
    rw [UInt32.toNat_add, UInt8.toNat_toUInt32, hstart, hlen, List.length_append]
    split at hk <;> omega
  unfold Client.resetRqst
  rw [if_neg (by rw [hd.websocket, hws]; decide), hd.wshdr, hd.rqst]
  simp only [hii]
  split
  · exact List.drop_left
  · next hge =>
    simp only [List.length_append] at hge
    have hnil : rest.length = 0 := by omega
    exact (List.length_eq_zero_iff.1 hnil).symm

namespace Told

variable {h : ClientHandle} {said : List Act} {w' : Web}

/-- **A whole frame is taken off the buffer** and reported. -/
theorem recvPass_frame (t : Told p h c said w w') (hws : c.websocket = true) (f : Frame) {rest : Bytes}
    (hr : c.rqst = f.bytes ++ rest) :
    ∃ v d, Web.recvPass W h w' = .again v ∧ Told p h d (said ++ report W h f) w v ∧ d.websocket = true ∧
      d.rqst = rest := by
  obtain ⟨hdr, hready, hop, hstart, hlen, hsub⟩ := frame_ready hws f hr
  have u : Told p h { c with wshdr := hdr, rqst := f.head ++ f.payload ++ rest } said w
      (w'.put { c with wshdr := hdr, rqst := f.head ++ f.payload ++ rest }) := t.request ⟨rfl, rfl, rfl, rfl⟩
  obtain ⟨d, hd, v⟩ := u.processWebsocket (W := W) hsub
  refine ⟨((w'.put { c with wshdr := hdr, rqst := f.head ++ f.payload ++ rest }).processWebsocket W h).put d.resetRqst,
    d.resetRqst, ?_, ?_, ?_, ?_⟩
  · have hw : (!c.websocket) = false := by rw [hws]; rfl
    unfold Web.recvPass
    rw [t.findHandle]
    simp only [hready, if_true, hw, Bool.false_eq_true, if_false, v.fault, v.findHandle, Option.isSome_none]
  · have hv := v.request (resetRqst_same d)
    rw [hop, List.append_assoc] at hv
    exact hv
  · rw [websocket_resetRqst, hd.websocket, hws]
  · exact rqst_resetRqst hd hws hstart hlen

/-- **Part of a frame is left as it was.** -/
theorem recvPass_part (t : Told p h c said w w') (hws : c.websocket = true) {f : Frame} (hp : c.rqst <+: f.bytes)
    (hlt : c.rqst.length < f.bytes.length) :
    ∃ v d, Web.recvPass W h w' = .leave v ∧ Told p h d said w v ∧ d.websocket = true ∧ d.rqst = c.rqst ∧
      Passes W p h w' [] v := by
  obtain ⟨hdr, hparse⟩ := Ws.parsePacket_prefix f c.wshdr hp hlt
  have hready : c.rqstIsReady = .ok (false, { c with wshdr := hdr }) := by
    unfold Client.rqstIsReady
    rw [if_neg (by rw [hws]; decide), hparse]
    rfl
  have hleave : Web.recvPass W h w' = .leave (w'.put { c with wshdr := hdr }) := by
    unfold Web.recvPass
    rw [t.findHandle]
    simp only [hready, Bool.false_eq_true, if_false]
  exact ⟨w'.put { c with wshdr := hdr }, { c with wshdr := hdr }, hleave, t.request ⟨rfl, rfl, rfl, rfl⟩, hws, rfl,
    .part hdr t.inv t.find t.handle hready hleave⟩

/-! ## The loop -/

/-- **The loop reports the whole frames in the buffer**, and leaves less than the next frame behind them. -/
theorem run_frames (text : Bytes) {part : Bytes} {last : Frame} (hpart : part <+: last.bytes)
    (hlast : part.length < last.bytes.length) : ∀ (frames : List Frame) (n : Nat) {c : Client} {said : List Act}
    {w' : Web}, Told p h c said w w' → c.websocket = true → c.rqst ++ text = frames.flatMap Frame.bytes ++ part →
      c.rqst.length < n →
      ∃ done rest v d, frames = done ++ rest ∧ Loop.run (Web.recvPass W h) n w' = some v ∧
        Told p h d (said ++ done.flatMap (report W h)) w v ∧ d.websocket = true ∧
        d.rqst ++ text = rest.flatMap Frame.bytes ++ part ∧ d.rqst.length < (rest.head?.getD last).bytes.length ∧
        c.rqst = done.flatMap Frame.bytes ++ d.rqst ∧ Passes W p h w' done v
  | _, 0, _, _, _, _, _, _, hn => absurd hn (Nat.not_lt_zero _)
  | [], n + 1, c, said, w', t, hws, hstream, _ => by
    have hp : c.rqst <+: part := ⟨text, hstream⟩
    obtain ⟨v, d, hl, u, hdws, hd, hpasses⟩ := t.recvPass_part (W := W) hws (hp.trans hpart)
      (Nat.lt_of_le_of_lt hp.length_le hlast)
    exact ⟨[], [], v, d, rfl, Loop.run_leave hl n, by rw [List.flatMap_nil, List.append_nil]; exact u, hdws,
      by rw [hd]; exact hstream, by rw [hd]; exact Nat.lt_of_le_of_lt hp.length_le hlast, hd.symm, hpasses⟩
  | f :: fs, n + 1, c, said, w', t, hws, hstream, hn => by
    have hnext := hstream
    rw [List.flatMap_cons, List.append_assoc] at hnext
    rcases Text.part_or_whole hnext with ⟨hp, hlt⟩ | ⟨rest, hr, hrest⟩
    · obtain ⟨v, d, hl, u, hdws, hd, hpasses⟩ := t.recvPass_part (W := W) hws hp hlt
      exact ⟨[], f :: fs, v, d, rfl, Loop.run_leave hl n, by rw [List.flatMap_nil, List.append_nil]; exact u, hdws,
        by rw [hd]; exact hstream, by rw [hd]; exact hlt, hd.symm, hpasses⟩
    · obtain ⟨v, d, ha, u, hdws, hd⟩ := t.recvPass_frame (W := W) hws f hr
      have hshort : d.rqst.length < n := by
        have h2 := two_le_bytes f
        rw [hr, List.length_append] at hn
        rw [hd]
        omega
      obtain ⟨done, rest', v', d', hsplit, hrun, u', hws', hd', hlt, htaken, hpasses⟩ := run_frames text hpart hlast fs n
        u hdws (by rw [hd]; exact hrest) hshort
      refine ⟨f :: done, rest', v', d', by rw [hsplit, List.cons_append], ?_, ?_, hws', hd', hlt, ?_,
        .frame t.inv t.fault t.find t.handle hws hr ha hpasses⟩
      · rw [Loop.run_again ha, hrun]
      · rw [List.flatMap_cons, ← List.append_assoc]
        exact u'
      · rw [hr, ← hd, htaken, List.flatMap_cons, List.append_assoc]

/-- A segment is taken in. -/
theorem recv_frames (t : Told p h c said w w') (hws : c.websocket = true) {text part : Bytes} {last : Frame}
    (hpart : part <+: last.bytes) (hlast : part.length < last.bytes.length) {frames : List Frame} (data : Block)
    (hstream : c.rqst ++ (data.val ++ text) = frames.flatMap Frame.bytes ++ part)
    (hshort : c.rqst.length < (frames.head?.getD last).bytes.length) :
    ∃ done rest d, frames = done ++ rest ∧
      Told p h d (said ++ done.flatMap (report W h)) w (w'.step W (.recv p (some data))) ∧ d.websocket = true ∧
      d.rqst ++ text = rest.flatMap Frame.bytes ++ part ∧ d.rqst.length < (rest.head?.getD last).bytes.length ∧
      c.rqst ++ data.val = done.flatMap Frame.bytes ++ d.rqst := by
  by_cases hempty : data.val = []
  · rw [t.recv_empty hempty]
    rw [hempty, List.nil_append] at hstream
    exact ⟨[], frames, c, rfl, by rw [List.flatMap_nil, List.append_nil]; exact t, hws, hstream, hshort,
      by rw [hempty, List.append_nil]; rfl⟩
  · obtain ⟨u, hstep⟩ := t.recv_eq (W := W) hempty
    obtain ⟨done, rest, v, d, hsplit, hrun, u', hdws, hd, hlt, htaken, -⟩ := u.run_frames (W := W) text hpart hlast
      frames ((c.rqst ++ data.val).length + 1) hws (by rw [← hstream, List.append_assoc]) (Nat.lt_succ_self _)
    have hleft : w'.step W (.recv p (some data)) = v := by rw [hstep, recvLoop, hrun, Option.getD_some]
    rw [hleft]
    exact ⟨done, rest, d, hsplit, u', hdws, hd, hlt, htaken⟩

end Told

/-! ## The stream -/

/-- **A stream of frames is reported frame by frame**, from any buffer that holds less than the next one. -/
theorem Feeds.frames {h : ClientHandle} {w0 w' : Web} {text part : Bytes} {last : Frame} (hfeeds : Feeds W p w text w')
    (hpart : part <+: last.bytes) (hlast : part.length < last.bytes.length) : ∀ {frames : List Frame} {c : Client}
    {said : List Act}, Told p h c said w0 w → c.websocket = true →
      c.rqst ++ text = frames.flatMap Frame.bytes ++ part → c.rqst.length < (frames.head?.getD last).bytes.length →
      ∃ d, Told p h d (said ++ frames.flatMap (report W h)) w0 w' ∧ d.rqst = part := by
  induction hfeeds with
  | done w =>
    intro frames c said t _ hstream hshort
    rw [List.append_nil] at hstream
    cases frames with
    | nil => exact ⟨c, by rw [List.flatMap_nil, List.append_nil]; exact t, hstream⟩
    | cons f fs =>
      rw [hstream, List.flatMap_cons, List.append_assoc, List.length_append] at hshort
      exact absurd hshort (Nat.not_lt.2 (Nat.le_add_right _ _))
  | segment data _ ih =>
    intro frames c said t hws hstream hshort
    obtain ⟨done, rest, d, rfl, u, hdws, hd, hdshort, -⟩ := t.recv_frames (W := W) hws hpart hlast data hstream hshort
    rw [List.flatMap_append, ← List.append_assoc]
    exact ih u hdws hd hdshort
  | other e ha hturn hf _ ih =>
    intro frames c said t hws hstream hshort
    obtain ⟨d, hs, u⟩ := t.other ha hturn hf
    exact ih u (hs.websocket.trans hws) (by rw [hs.rqst]; exact hstream) (by rw [hs.rqst]; exact hshort)

/-- **Frames arrive in order, each once, however they are cut**: every call returns, the frames are processed with their
opcodes and unmasked payloads, and the raw bytes of an incomplete last frame stay in the buffer. -/
theorem frames_in_order {w' : Web} (hr : Reachable W Allowed w) (hf : w.fault = none) (hc : w.findClient p = some c)
    (hws : c.websocket = true) (hempty : c.rqst = []) (frames : List Frame) (last : Frame) {part : Bytes}
    (hpart : part <+: last.bytes) (hlast : part.length < last.bytes.length)
    (hfeeds : Feeds W p w (frames.flatMap Frame.bytes ++ part) w') :
    w'.fault = none ∧
    w'.trace.filter (tells c.handle) = w.trace.filter (tells c.handle) ++ frames.flatMap (report W c.handle) ∧
    ∃ d, w'.findClient p = some d ∧ d.handle = c.handle ∧ d.rqst = part := by
  have i := inv_reachable (fun _ _ => id) hr
  have hshort : c.rqst.length < (frames.head?.getD last).bytes.length := by
    rw [hempty]
    exact Nat.lt_of_lt_of_le (by decide) (two_le_bytes _)
  obtain ⟨d, t, hd⟩ := hfeeds.frames hpart hlast (Told.start i hf hc) hws (by rw [hempty]; rfl) hshort
  exact ⟨t.fault, t.told, d, t.find, t.handle, hd⟩

/-! A connection that is upgraded, and a masked text frame that arrives in two segments. -/

def upgradeRequest : Block :=
  ⟨ascii ("GET / HTTP/1.1\r\nHost: a\r\nOrigin: a\r\nConnection: Upgrade\r\nUpgrade: websocket\r\n" ++
    "Sec-WebSocket-Key: k\r\nSec-WebSocket-Version: 13\r\n\r\n"), by decide +kernel⟩

def upgradeRun : List Event := [.accept 1 0, .recv 1 (some upgradeRequest)]

def upgraded : Web := runOf {} upgradeRun

theorem upgraded_reachable : Reachable {} Allowed upgraded :=
  runOf_reachable ⟨by decide, trivial, trivial⟩

theorem upgraded_facts : upgraded.fault = none ∧ ∃ c, upgraded.findClient 1 = some c ∧ c.websocket = true ∧
    c.rqst = [] ∧ c.closed = false ∧ c.handle = 1000 := by
  have h : upgraded.fault = none ∧ (upgraded.findClient 1).isSome = true ∧ ∀ c ∈ upgraded.findClient 1,
      c.websocket = true ∧ c.rqst = [] ∧ c.closed = false ∧ c.handle = 1000 := by decide +kernel
  exact ⟨h.1, exists_client h.2.1 h.2.2⟩

theorem upgraded_client : upgraded.fault = none ∧
    ∃ c, upgraded.findClient 1 = some c ∧ c.websocket = true ∧ c.rqst = [] := by
  obtain ⟨hf, c, hc, hws, hrqst, -⟩ := upgraded_facts
  exact ⟨hf, c, hc, hws, hrqst⟩

def hiFrame : Frame where
  byte0 := 0x81
  key := some #v[1, 2, 3, 4]
  form := .byte
  payload := ascii "hi"
  fits := (by decide : 2 < 126)

def hiSegments : Block × Block := (⟨[0x81, 0x82, 1], by decide⟩, ⟨[2, 3, 4, 105, 107, 0x81], by decide⟩)

theorem frames_in_order_hi : ∃ c, upgraded.findClient 1 = some c ∧
    ((upgraded.step {} (.recv 1 (some hiSegments.1))).step {} (.recv 1 (some hiSegments.2))).trace.filter
        (tells c.handle) =
      upgraded.trace.filter (tells c.handle) ++ [hiFrame].flatMap (report {} c.handle) ∧
    ∃ d, ((upgraded.step {} (.recv 1 (some hiSegments.1))).step {} (.recv 1 (some hiSegments.2))).findClient 1 =
      some d ∧ d.rqst = [0x81] := by
  obtain ⟨hf, c, hc, hws, hempty⟩ := upgraded_client
  have htext : [hiFrame].flatMap Frame.bytes ++ [0x81] = hiSegments.1.val ++ (hiSegments.2.val ++ []) := by decide
  have hfeeds := Feeds.segment (W := {}) (w := upgraded) (p := 1) hiSegments.1 (.segment hiSegments.2 (.done _))
  rw [← htext] at hfeeds
  obtain ⟨-, htold, d, hd, -, hrest⟩ := frames_in_order (w := upgraded) upgraded_reachable hf hc hws hempty [hiFrame]
    hiFrame (by decide) (by decide) hfeeds
  exact ⟨c, hc, htold, d, hd, hrest⟩

end Web
end Pico
