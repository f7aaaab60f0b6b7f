import Mathlib.Data.List.Basic
/-!
# SendQueue — buffers handed to a transport, in order

A theory that names nothing of the repository.  A sender queues buffers; a transport accepts their bytes from the
front and acknowledges what it accepted.  The `Ledger` is what an observer writes down of that: the buffers queued,
the bytes accepted (each with the key of its buffer), and how many of these were acknowledged.

A `Queue` is what the sender keeps: a window on each buffer, of which only the front one has been started (the field
`idle`).  It `Holds` a ledger when some buffers are gone, wholly acknowledged, and the rest are the windows.  Each
operation on the queue keeps that with the ledger's own operation, and from it follow the three facts a sender is
for: the accepted bytes are a prefix of the queued ones, what is unacknowledged lies in the front buffer, and an empty
queue means that everything was accepted and acknowledged.
-/
namespace Pico
namespace SendQueue

variable {κ α : Type}

/-! ## The ledger -/

structure Ledger (κ α : Type) where
  queued : List (κ × List α) := []
  accepted : List (κ × α) := []
  acked : Nat := 0

/-- The bytes of a buffer, each with the buffer's key. -/
def tagged (b : κ × List α) : List (κ × α) := b.2.map (fun x => (b.1, x))

namespace Ledger

def stream (l : Ledger κ α) : List (κ × α) := l.queued.flatMap tagged

def unacked (l : Ledger κ α) : List (κ × α) := l.accepted.drop l.acked

def queue (l : Ledger κ α) (k : κ) (data : List α) : Ledger κ α := { l with queued := l.queued ++ [(k, data)] }

def accept (l : Ledger κ α) (k : κ) (data : List α) : Ledger κ α :=
  { l with accepted := l.accepted ++ tagged (k, data) }

def ack (l : Ledger κ α) (n : Nat) : Ledger κ α := { l with acked := l.acked + n }

/-- The bytes that were acknowledged. -/
def acknowledged (l : Ledger κ α) : List (κ × α) := l.accepted.take l.acked

/-- A buffer with the key `k` was accepted and acknowledged whole. -/
def Whole (l : Ledger κ α) (k : κ) : Prop := ∃ data, (k, data) ∈ l.queued ∧ tagged (k, data) <:+: l.acknowledged

/-- Everything that was queued was accepted, and all of it acknowledged. -/
def Drained (l : Ledger κ α) : Prop := l.accepted = l.stream ∧ l.acked = l.accepted.length

end Ledger

@[simp] theorem length_tagged (b : κ × List α) : (tagged b).length = b.2.length := List.length_map _

theorem tagged_append (k : κ) (xs ys : List α) : tagged (k, xs ++ ys) = tagged (k, xs) ++ tagged (k, ys) :=
  List.map_append

theorem drop_tagged (k : κ) (xs : List α) (n : Nat) : (tagged (k, xs)).drop n = tagged (k, xs.drop n) :=
  List.map_drop.symm

theorem fst_of_mem_tagged {k : κ} {xs : List α} {x : κ × α} (h : x ∈ tagged (k, xs)) : x.1 = k := by
  obtain ⟨a, -, rfl⟩ := List.mem_map.1 h
  rfl

/-! ## Windows and the queue -/

/-- A buffer of which `sent` bytes were accepted and `ack` of these acknowledged. -/
structure Window (κ α : Type) where
  key : κ
  data : List α
  sent : Nat
  ack : Nat
  ack_le : ack ≤ sent
  sent_le : sent ≤ data.length

namespace Window

def entry (w : Window κ α) : κ × List α := (w.key, w.data)

def fresh (k : κ) (data : List α) : Window κ α := ⟨k, data, 0, 0, Nat.le_refl 0, Nat.zero_le _⟩

def accept (w : Window κ α) (n : Nat) (h : w.sent + n ≤ w.data.length) : Window κ α :=
  { w with sent := w.sent + n, ack_le := Nat.le_add_right_of_le w.ack_le, sent_le := h }

def acknowledge (w : Window κ α) (n : Nat) (h : w.ack + n ≤ w.sent) : Window κ α :=
  { w with ack := w.ack + n, ack_le := h }

end Window

structure Queue (κ α : Type) where
  live : List (Window κ α)
  idle : ∀ w ∈ live.tail, w.sent = 0

namespace Queue

def empty : Queue κ α := ⟨[], by simp⟩

def push (q : Queue κ α) (k : κ) (data : List α) : Queue κ α where
  live := q.live ++ [Window.fresh k data]
  idle := by
    intro w hw
    have hidle := q.idle
    cases hl : q.live with
    | nil => rw [hl] at hw; simp at hw
    | cons v vs =>
      rw [hl] at hw hidle
      rcases List.mem_append.1 (show w ∈ vs ++ [Window.fresh k data] from hw) with h | h
      · exact hidle w h
      · rw [List.mem_singleton.1 h]; rfl

/-- The queue with another front window. -/
def setFront (q : Queue κ α) (w : Window κ α) : Queue κ α where
  live := w :: q.live.tail
  idle := q.idle

def pop (q : Queue κ α) : Queue κ α where
  live := q.live.tail
  idle := fun w hw => q.idle w (List.mem_of_mem_tail hw)

/-- What the transport has accepted of the live buffers. -/
def out (q : Queue κ α) : List (κ × α) :=
  match q.live with
  | [] => []
  | w :: _ => tagged (w.key, w.data.take w.sent)

/-- How much of that it has acknowledged. -/
def ackCount (q : Queue κ α) : Nat :=
  match q.live with
  | [] => 0
  | w :: _ => w.ack

/-- The queue is what the history of its connection left: the buffers `gone` were accepted and acknowledged whole. -/
def Holds (q : Queue κ α) (l : Ledger κ α) : Prop :=
  ∃ gone : List (κ × List α),
    l.queued = gone ++ q.live.map Window.entry ∧
    l.accepted = gone.flatMap tagged ++ q.out ∧
    l.acked = (gone.flatMap tagged).length + q.ackCount

theorem live_setFront {q : Queue κ α} {w : Window κ α} {ws : List (Window κ α)} (h : q.live = w :: ws)
    (v : Window κ α) : (q.setFront v).live = v :: ws := by
  show v :: q.live.tail = v :: ws
  rw [h, List.tail_cons]

theorem live_pop {q : Queue κ α} {w : Window κ α} {ws : List (Window κ α)} (h : q.live = w :: ws) :
    q.pop.live = ws := by
  show q.live.tail = ws
  rw [h, List.tail_cons]

theorem out_cons {q : Queue κ α} {w : Window κ α} {ws : List (Window κ α)} (h : q.live = w :: ws) :
    q.out = tagged (w.key, w.data.take w.sent) := by
  rw [out, h]

theorem ackCount_cons {q : Queue κ α} {w : Window κ α} {ws : List (Window κ α)} (h : q.live = w :: ws) :
    q.ackCount = w.ack := by
  rw [ackCount, h]

theorem out_of_idle {q : Queue κ α} (h : ∀ w ∈ q.live, w.sent = 0) : q.out = [] := by
  cases hl : q.live with
  | nil => rw [out, hl]
  | cons w ws => rw [out_cons hl, h w (by rw [hl]; exact List.mem_cons_self), List.take_zero]; rfl

theorem ackCount_of_idle {q : Queue κ α} (h : ∀ w ∈ q.live, w.sent = 0) : q.ackCount = 0 := by
  cases hl : q.live with
  | nil => rw [ackCount, hl]
  | cons w ws =>
    have := w.ack_le
    have := h w (by rw [hl]; exact List.mem_cons_self)
    rw [ackCount_cons hl]
    omega

/-! ## The operations keep the history -/

theorem holds_empty : (empty : Queue κ α).Holds {} := ⟨[], rfl, rfl, rfl⟩

theorem Holds.push {q : Queue κ α} {l : Ledger κ α} (h : q.Holds l) (k : κ) (data : List α) :
    (q.push k data).Holds (l.queue k data) := by
  obtain ⟨gone, hq, ha, hk⟩ := h
  have hlive : (q.push k data).live = q.live ++ [Window.fresh k data] := rfl
  have hout : (q.push k data).out = q.out ∧ (q.push k data).ackCount = q.ackCount := by
    cases hl : q.live with
    | nil =>
      rw [hl, List.nil_append] at hlive
      rw [out_cons hlive, ackCount_cons hlive, out, ackCount, hl]
      exact ⟨rfl, rfl⟩
    | cons w ws =>
      rw [hl, List.cons_append] at hlive
      rw [out_cons hlive, ackCount_cons hlive, out_cons hl, ackCount_cons hl]
      exact ⟨rfl, rfl⟩
  refine ⟨gone, ?_, ?_, ?_⟩
  · rw [hlive, List.map_append, Ledger.queue, hq, List.append_assoc]
    rfl
  · rw [hout.1]; exact ha
  · rw [hout.2]; exact hk

theorem Holds.accept {q : Queue κ α} {l : Ledger κ α} (h : q.Holds l) {w : Window κ α} {ws : List (Window κ α)}
    (hl : q.live = w :: ws) {n : Nat} (hn : w.sent + n ≤ w.data.length) :
    (q.setFront (w.accept n hn)).Holds (l.accept w.key ((w.data.drop w.sent).take n)) := by
  obtain ⟨gone, hq, ha, hk⟩ := h
  have hlive : (q.setFront (w.accept n hn)).live = w.accept n hn :: ws := live_setFront hl _
  rw [hl] at hq
  rw [out_cons hl] at ha
  rw [ackCount_cons hl] at hk
  refine ⟨gone, ?_, ?_, ?_⟩
  · rw [hlive]; exact hq
  · rw [out_cons hlive, Ledger.accept, ha]
    show _ = _ ++ tagged (w.key, w.data.take (w.sent + n))
    rw [List.take_add, tagged_append, List.append_assoc]
  · rw [ackCount_cons hlive]; exact hk

theorem Holds.ack {q : Queue κ α} {l : Ledger κ α} (h : q.Holds l) {w : Window κ α} {ws : List (Window κ α)}
    (hl : q.live = w :: ws) {n : Nat} (hn : w.ack + n ≤ w.sent) :
    (q.setFront (w.acknowledge n hn)).Holds (l.ack n) := by
  obtain ⟨gone, hq, ha, hk⟩ := h
  have hlive : (q.setFront (w.acknowledge n hn)).live = w.acknowledge n hn :: ws := live_setFront hl _
  rw [hl] at hq
  rw [out_cons hl] at ha
  rw [ackCount_cons hl] at hk
  refine ⟨gone, ?_, ?_, ?_⟩
  · rw [hlive]; exact hq
  · rw [out_cons hlive]; exact ha
  · rw [ackCount_cons hlive, Ledger.ack, hk, Nat.add_assoc]
    rfl

/-- A front buffer that was acknowledged whole may leave. -/
theorem Holds.pop {q : Queue κ α} {l : Ledger κ α} (h : q.Holds l) {w : Window κ α} {ws : List (Window κ α)}
    (hl : q.live = w :: ws) (hw : w.ack = w.data.length) : q.pop.Holds l := by
  obtain ⟨gone, hq, ha, hk⟩ := h
  have hlive : q.pop.live = ws := live_pop hl
  have hidle : ∀ v ∈ q.pop.live, v.sent = 0 := q.idle
  have hsent : w.sent = w.data.length := Nat.le_antisymm w.sent_le (hw ▸ w.ack_le)
  rw [hl] at hq
  rw [out_cons hl, hsent, List.take_length] at ha
  rw [ackCount_cons hl, hw] at hk
  have hgone : (gone ++ [w.entry]).flatMap tagged = gone.flatMap tagged ++ tagged w.entry := by simp
  refine ⟨gone ++ [w.entry], ?_, ?_, ?_⟩
  · rw [hlive, hq, List.append_assoc]; rfl
  · rw [out_of_idle hidle, List.append_nil, hgone]; exact ha
  · rw [ackCount_of_idle hidle, hgone, List.length_append, length_tagged]; exact hk

/-! ## What the queue says about the history -/

/-- **Nothing is lost, duplicated or reordered**: the transport has accepted a prefix of what was queued. -/
theorem Holds.accepted_prefix {q : Queue κ α} {l : Ledger κ α} (h : q.Holds l) : l.accepted <+: l.stream := by
  obtain ⟨gone, hq, ha, -⟩ := h
  rw [Ledger.stream, hq, ha, List.flatMap_append]
  apply (List.prefix_append_right_inj _).2
  cases hl : q.live with
  | nil => rw [out, hl]; exact List.nil_prefix
  | cons w ws =>
    rw [out_cons hl, List.map_cons, List.flatMap_cons]
    have htake : tagged (w.key, w.data.take w.sent) <+: tagged w.entry := (List.take_prefix _ _).map _
    exact htake.trans (List.prefix_append _ _)

/-- **What is in flight lies in the front buffer.** -/
theorem Holds.unacked_cons {q : Queue κ α} {l : Ledger κ α} (h : q.Holds l) {w : Window κ α}
    {ws : List (Window κ α)} (hl : q.live = w :: ws) :
    l.unacked = tagged (w.key, (w.data.take w.sent).drop w.ack) := by
  obtain ⟨gone, -, ha, hk⟩ := h
  rw [Ledger.unacked, ha, hk, out_cons hl, ackCount_cons hl, List.drop_append, drop_tagged, Nat.add_sub_cancel_left,
    List.drop_of_length_le (Nat.le_add_right _ _), List.nil_append]

theorem Holds.length_unacked {q : Queue κ α} {l : Ledger κ α} (h : q.Holds l) {w : Window κ α}
    {ws : List (Window κ α)} (hl : q.live = w :: ws) : l.unacked.length = w.sent - w.ack := by
  have := w.sent_le
  rw [h.unacked_cons hl, length_tagged, List.length_drop, List.length_take]
  omega

theorem Holds.unacked_nil {q : Queue κ α} {l : Ledger κ α} (h : q.Holds l) (hl : q.live = []) : l.unacked = [] := by
  obtain ⟨gone, -, ha, hk⟩ := h
  rw [out, hl, List.append_nil] at ha
  rw [ackCount, hl, Nat.add_zero] at hk
  rw [Ledger.unacked, ha, hk, List.drop_length]

/-- **A front buffer that is acknowledged whole was accepted whole**, and nothing is in flight. -/
theorem Holds.whole {q : Queue κ α} {l : Ledger κ α} (h : q.Holds l) {w : Window κ α} {ws : List (Window κ α)}
    (hl : q.live = w :: ws) (hw : w.ack = w.data.length) : l.unacked = [] ∧ l.Whole w.key := by
  have hsent : w.sent = w.data.length := Nat.le_antisymm w.sent_le (hw ▸ w.ack_le)
  have hun := h.unacked_cons hl
  obtain ⟨gone, hq, ha, hk⟩ := h
  rw [out_cons hl, hsent, List.take_length] at ha
  rw [ackCount_cons hl, hw] at hk
  refine ⟨?_, w.data, ?_, ?_⟩
  · rw [hun, hsent, hw, List.take_length, List.drop_length]
    rfl
  · rw [hq, hl]
    exact List.mem_append_right _ List.mem_cons_self
  · have hall : l.acked = l.accepted.length := by rw [hk, ha, List.length_append, length_tagged]
    rw [Ledger.acknowledged, hall, List.take_length, ha]
    exact (List.suffix_append _ _).isInfix

/-- **An empty queue means that everything went out and was acknowledged.** -/
theorem Holds.drained {q : Queue κ α} {l : Ledger κ α} (h : q.Holds l) (hl : q.live = []) : l.Drained := by
  obtain ⟨gone, hq, ha, hk⟩ := h
  rw [hl, List.map_nil, List.append_nil] at hq
  rw [out, hl, List.append_nil] at ha
  rw [ackCount, hl, Nat.add_zero] at hk
  exact ⟨by rw [Ledger.stream, hq, ha], by rw [ha, hk]⟩

end Queue
end SendQueue
end Pico
