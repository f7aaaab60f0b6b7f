import Picolibs.WsFrame
/-!
# Txt — the owned text buffer (`txt.h`, `txt.cpp`) and a packet built in it

A `Txt` is its buffer of `bufsiz_` bytes and the offset of its terminator; `Owned` is what the class keeps of every
object that owns a buffer.  Reads and writes are checked block by block, so an access outside the buffer is the fault
`outOfBounds`.  A new buffer holds an arbitrary byte that is not NUL, so that no terminator is there by accident.
Lengths are far below 2^32 and do not wrap.
-/
namespace Pico

structure Txt where
  buffer : Bytes
  bufsiz : Nat
  endptr : Nat
  deriving DecidableEq, Repr

namespace Txt

/-- What the class keeps: the terminator is inside the buffer. -/
structure Owned (t : Txt) : Prop where
  size : t.buffer.length = t.bufsiz
  inside : t.endptr < t.bufsiz
  ended : t.buffer[t.endptr]? = some 0

def data (t : Txt) : Bytes := t.buffer

def datasize (t : Txt) : Nat := t.endptr

def text (t : Txt) : Bytes := t.buffer.take t.endptr

def newChar (n : Nat) : Bytes := List.replicate n 0xCD

def readBlock (src : Bytes) (i n : Nat) : Except Fault Bytes :=
  if i + n ≤ src.length then .ok ((src.drop i).take n) else .error .outOfBounds

def writeBlock (dst : Bytes) (i : Nat) (bs : Bytes) : Except Fault Bytes :=
  if i + bs.length ≤ dst.length then .ok (dst.take i ++ bs ++ dst.drop (i + bs.length)) else .error .outOfBounds

/-- The bytes `strncpy` writes: up to a NUL, then NULs. -/
def strncpyBytes (data : Bytes) (n : Nat) : Bytes :=
  let s := (data.take n).takeWhile (· ≠ 0)
  s ++ List.replicate (n - s.length) 0

/-- `TXT(data, datalen, size)`. -/
def ofData (data : Bytes) (datalen size : Nat) : Except Fault Txt := do
  let size := if size ≤ datalen then (datalen + 256) / 256 * 256 else size
  let b ← writeBlock (newChar size) 0 (strncpyBytes data datalen)
  let b ← writeBlock b datalen [0]
  .ok { buffer := b, bufsiz := size, endptr := datalen }

/-- `expand`; the tail is copied from its end, so that the move may overlap. -/
def expand (t : Txt) (offset amount : Nat) : Except Fault Txt := do
  let t ←
    if t.bufsiz ≤ t.endptr + amount then do
      let newsz := (t.endptr + amount + 2048) / 2048 * 2048
      let old ← readBlock t.buffer 0 (t.endptr + 1)
      let b ← writeBlock (newChar newsz) 0 old
      .ok { t with buffer := b, bufsiz := newsz }
    else .ok t
  let tail ← readBlock t.buffer offset (t.endptr - offset)
  let b ← writeBlock t.buffer (offset + amount) tail
  let b ← writeBlock b (t.endptr + amount) [0]
  .ok { t with buffer := b, endptr := t.endptr + amount }

/-- `insert(offset, str, len)` with a length that is not zero. -/
def insert (t : Txt) (offset : Nat) (str : Bytes) : Except Fault Txt := do
  let t ← expand t offset str.length
  let b ← writeBlock t.buffer offset str
  let b ← writeBlock b t.endptr [0]
  .ok { t with buffer := b }

/-- `WS::BuildPacket` in a `TXT`: the returned size and the object it leaves.  The mask is applied to as many bytes
after the header as the whole packet has. -/
def buildPacket (opcode : Ws.OpCode) (msg : Txt) (mask : Bool) (rand : UInt32) : Except Fault (UInt32 × Txt) := do
  let n := msg.datasize
  let masked := mask && decide (0 < n)
  let payloadLen : UInt8 := if n < 126 then UInt8.ofNat n else if n < 0x10000 then 126 else 127
  let maskBytes := Ws.maskBytesOf rand
  let len : Bytes :=
    if payloadLen = 126 then [UInt8.ofNat (n >>> 8), UInt8.ofNat n]
    else if payloadLen = 127 then
      [0, 0, 0, 0, UInt8.ofNat (n >>> 24), UInt8.ofNat (n >>> 16), UInt8.ofNat (n >>> 8), UInt8.ofNat n]
    else []
  let hdr : Bytes := [0x80 ||| opcode.code, payloadLen ||| (if masked then 0x80 else 0)] ++ len ++
    (if masked then maskBytes.toList else [])
  let msg ← insert msg 0 hdr
  let b ← if masked then Ws.xorLoop maskBytes hdr.length msg.datasize 0 msg.buffer else .ok msg.buffer
  .ok (UInt32.ofNat msg.datasize, { msg with buffer := b })

/-! ## The layout of a buffer -/

theorem exists_front {l : Bytes} {n : Nat} (h : n ≤ l.length) : ∃ u v, l = u ++ v ∧ u.length = n :=
  ⟨l.take n, l.drop n, (List.take_append_drop n l).symm, List.length_take_of_le h⟩

theorem readBlock_mid (a m c : Bytes) : readBlock (a ++ (m ++ c)) a.length m.length = .ok m := by
  rw [readBlock, if_pos (by simp only [List.length_append]; omega), List.drop_left, List.take_left]

theorem writeBlock_mid (a c : Bytes) {m bs : Bytes} (h : bs.length = m.length) :
    writeBlock (a ++ (m ++ c)) a.length bs = .ok (a ++ (bs ++ c)) := by
  rw [writeBlock, if_pos (by simp only [List.length_append]; omega), List.take_left, h, ← List.length_append,
    ← List.append_assoc a m c, List.drop_left, List.append_assoc]

/-- The buffer has the text, and room for its NUL. -/
structure Room (t : Txt) (x : Bytes) : Prop where
  layout : ∃ c rest, t.buffer = x ++ (c :: rest)
  size : t.buffer.length = t.bufsiz
  endptr : t.endptr = x.length

/-- The buffer has the text, its NUL and what is behind. -/
structure Holds (t : Txt) (x : Bytes) : Prop where
  layout : ∃ rest, t.buffer = x ++ (0 :: rest)
  size : t.buffer.length = t.bufsiz
  endptr : t.endptr = x.length

theorem Holds.room {t : Txt} {x : Bytes} (h : Holds t x) : Room t x := by
  obtain ⟨rest, hb⟩ := h.layout
  exact ⟨⟨0, rest, hb⟩, h.size, h.endptr⟩

theorem Holds.text {t : Txt} {x : Bytes} (h : Holds t x) : t.text = x := by
  obtain ⟨rest, hb⟩ := h.layout
  rw [Txt.text, hb, h.endptr, List.take_left]

theorem Holds.ended {t : Txt} {x : Bytes} (h : Holds t x) : t.buffer[t.endptr]? = some 0 := by
  obtain ⟨rest, hb⟩ := h.layout
  rw [hb, h.endptr, List.getElem?_append_right (Nat.le_refl _), Nat.sub_self]
  rfl

theorem length_text {t : Txt} (h : t.Owned) : t.text.length = t.endptr := by
  have := h.size
  have := h.inside
  rw [text, List.length_take]
  omega

theorem Owned.holds {t : Txt} (h : t.Owned) : Holds t t.text := by
  have hlt : t.endptr < t.buffer.length := by
    rw [h.size]
    exact h.inside
  have h0 : t.buffer[t.endptr] = 0 := by
    have := h.ended
    rw [List.getElem?_eq_getElem hlt] at this
    exact Option.some.inj this
  refine ⟨⟨t.buffer.drop (t.endptr + 1), ?_⟩, h.size, (length_text h).symm⟩
  rw [← h0, List.getElem_cons_drop, Txt.text, List.take_append_drop]

theorem Holds.owned {t : Txt} {x : Bytes} (h : Holds t x) : t.Owned := by
  obtain ⟨rest, hb⟩ := h.layout
  have hlen := congrArg List.length hb
  rw [List.length_append, List.length_cons, h.size] at hlen
  have hend := h.endptr
  exact ⟨h.size, by omega, h.ended⟩

/-- The first part of `expand`: the buffer is made large enough. -/
def grow (t : Txt) (amount : Nat) : Except Fault Txt :=
  if t.bufsiz ≤ t.endptr + amount then do
    let newsz := (t.endptr + amount + 2048) / 2048 * 2048
    let old ← readBlock t.buffer 0 (t.endptr + 1)
    let b ← writeBlock (newChar newsz) 0 old
    .ok { t with buffer := b, bufsiz := newsz }
  else .ok t

/-- The second part: the tail is moved. -/
def shift (t : Txt) (offset amount : Nat) : Except Fault Txt := do
  let tail ← readBlock t.buffer offset (t.endptr - offset)
  let b ← writeBlock t.buffer (offset + amount) tail
  let b ← writeBlock b (t.endptr + amount) [0]
  .ok { t with buffer := b, endptr := t.endptr + amount }

theorem expand_eq (t : Txt) (offset amount : Nat) :
    expand t offset amount = (grow t amount).bind fun t => shift t offset amount := by
  unfold expand grow
  by_cases hgrow : t.bufsiz ≤ t.endptr + amount
  · simp only [if_pos hgrow, bind, Except.bind]
    cases readBlock t.buffer 0 (t.endptr + 1) with
    | error f => rfl
    | ok old =>
      simp only
      cases writeBlock (newChar ((t.endptr + amount + 2048) / 2048 * 2048)) 0 old with
      | error f => rfl
      | ok b => rfl
  · simp only [if_neg hgrow]
    rfl

/-- Room is made without a change of the text. -/
theorem grow_room {t : Txt} {x : Bytes} (h : Room t x) (amount : Nat) :
    ∃ t', grow t amount = .ok t' ∧ Room t' x ∧ t'.endptr + amount < t'.bufsiz := by
  unfold grow
  by_cases hgrow : t.bufsiz ≤ t.endptr + amount
  · obtain ⟨c, rest, hb⟩ := h.layout
    have hread : readBlock t.buffer 0 (t.endptr + 1) = .ok (x ++ [c]) := by
      have hm := readBlock_mid [] (x ++ [c]) rest
      rw [List.length_append, List.append_assoc] at hm
      rw [hb, h.endptr]
      exact hm
    have hend := h.endptr
    generalize hn : (t.endptr + amount + 2048) / 2048 * 2048 = newsz
    have hroom : t.endptr + amount < newsz := by omega
    have hnew : (newChar newsz).length = newsz := List.length_replicate
    have hlen : ((newChar newsz).take (x.length + 1)).length = x.length + 1 := by
      rw [List.length_take]
      omega
    have hsplit : newChar newsz =
        [] ++ ((newChar newsz).take (x.length + 1) ++ (newChar newsz).drop (x.length + 1)) := by
      rw [List.nil_append, List.take_append_drop]
    have hwrite : writeBlock (newChar newsz) 0 (x ++ [c]) =
        .ok ([] ++ (x ++ [c] ++ (newChar newsz).drop (x.length + 1))) := by
      conv_lhs => rw [hsplit]
      exact writeBlock_mid [] _ (by rw [hlen, List.length_append]; rfl)
    rw [if_pos hgrow]
    simp only [hread, hwrite, bind, Except.bind]
    refine ⟨_, rfl, ⟨⟨c, (newChar newsz).drop (x.length + 1), by simp⟩, ?_, hend⟩, hroom⟩
    simp only [List.nil_append, List.length_append, List.length_drop, List.length_singleton, hnew]
    omega
  · exact ⟨t, if_neg hgrow, h, by omega⟩

/-- **`expand` opens a gap in the text.** -/
theorem expand_holds {t : Txt} {a b : Bytes} (h : Room t (a ++ b)) (amount : Nat) :
    ∃ t' gap, expand t a.length amount = .ok t' ∧ gap.length = amount ∧ Holds t' (a ++ (gap ++ b)) := by
  obtain ⟨t1, hgrow, h1, hroom⟩ := grow_room h amount
  obtain ⟨c, rest, hb⟩ := h1.layout
  have hend := h1.endptr
  have hsize := h1.size
  have hlen := congrArg List.length hb
  rw [List.append_assoc] at hb
  rw [List.length_append] at hend
  simp only [List.length_append, List.length_cons] at hlen
  -- the gap, what is where the tail moves to, and what is where the new NUL is put
  obtain ⟨gap, l1, hl, hgap⟩ := exists_front (l := b ++ c :: rest) (n := amount)
    (by rw [List.length_append, List.length_cons]; omega)
  have hl1 := congrArg List.length hl
  simp only [List.length_append, List.length_cons] at hl1
  obtain ⟨old, l2, rfl, hold⟩ := exists_front (l := l1) (n := b.length) (by omega)
  rw [List.length_append] at hl1
  obtain ⟨nul, l3, rfl, hnul⟩ := exists_front (l := l2) (n := 1) (by omega)
  have hread : readBlock t1.buffer a.length (t1.endptr - a.length) = .ok b := by
    rw [hb, show t1.endptr - a.length = b.length by omega]
    exact readBlock_mid a b (c :: rest)
  have hwrite : writeBlock t1.buffer (a.length + amount) b = .ok (a ++ gap ++ (b ++ (nul ++ l3))) := by
    rw [hb, hl, ← List.append_assoc a gap, ← hgap, ← List.length_append]
    exact writeBlock_mid (a ++ gap) (nul ++ l3) hold.symm
  have hend' : t1.endptr + amount = (a ++ gap ++ b).length := by
    simp only [List.length_append]
    omega
  have hwritten : writeBlock (a ++ gap ++ (b ++ (nul ++ l3))) (t1.endptr + amount) [0] =
      .ok (a ++ gap ++ b ++ ([0] ++ l3)) := by
    rw [hend', ← List.append_assoc (a ++ gap) b]
    exact writeBlock_mid (a ++ gap ++ b) l3 hnul.symm
  refine ⟨{ t1 with buffer := a ++ gap ++ b ++ ([0] ++ l3), endptr := t1.endptr + amount }, gap, ?_, hgap, ?_⟩
  · rw [expand_eq, hgrow, Except.bind, shift]
    simp only [bind, Except.bind, hread, hwrite, hwritten]
  · rw [List.append_assoc] at hend'
    refine ⟨⟨l3, by rw [List.append_assoc a gap b]; rfl⟩, ?_, hend'⟩
    simp only [List.length_append, List.length_singleton] at hl1 ⊢
    omega

/-- Characters inside a text are overwritten. -/
theorem write_holds {t : Txt} {a m b bs : Bytes} (h : Holds t (a ++ (m ++ b))) (hbs : bs.length = m.length) :
    ∃ b', writeBlock t.buffer a.length bs = .ok b' ∧ Holds { t with buffer := b' } (a ++ (bs ++ b)) := by
  obtain ⟨rest, hb⟩ := h.layout
  have hend := h.endptr
  have hsize := h.size
  have hlen := congrArg List.length hb
  rw [List.append_assoc, List.append_assoc] at hb
  simp only [List.length_append, List.length_cons] at hend hlen
  refine ⟨a ++ (bs ++ (b ++ 0 :: rest)), by rw [hb]; exact writeBlock_mid a _ hbs, ⟨⟨rest, by simp⟩, ?_, ?_⟩⟩
  · simp only [List.length_append, List.length_cons]
    omega
  · simp only [List.length_append]
    omega

/-- The NUL is written where it is. -/
theorem end_holds {t : Txt} {x : Bytes} (h : Holds t x) :
    ∃ b', writeBlock t.buffer t.endptr [0] = .ok b' ∧ Holds { t with buffer := b' } x := by
  obtain ⟨rest, hb⟩ := h.layout
  refine ⟨t.buffer, ?_, h⟩
  rw [hb, h.endptr]
  exact writeBlock_mid x rest (show ([0] : Bytes).length = ([0] : Bytes).length from rfl)

/-- **`insert` puts a string into the text.** -/
theorem insert_holds {t : Txt} {a b : Bytes} (h : Room t (a ++ b)) (str : Bytes) :
    ∃ t', insert t a.length str = .ok t' ∧ Holds t' (a ++ (str ++ b)) := by
  obtain ⟨t1, gap, he, hgap, h1⟩ := expand_holds h str.length
  obtain ⟨b1, hw, h2⟩ := write_holds h1 hgap.symm
  obtain ⟨b2, hn, h3⟩ := end_holds h2
  refine ⟨_, ?_, h3⟩
  unfold insert
  simp only [bind, Except.bind, he, hw]
  rw [show writeBlock b1 t1.endptr [0] = .ok b2 from hn]

/-- `insert` at the front puts a string before the text. -/
theorem insert_text {t : Txt} (h : t.Owned) (str : Bytes) :
    ∃ t', insert t 0 str = .ok t' ∧ t'.text = str ++ t.text ∧ t'.datasize = str.length + t.datasize := by
  obtain ⟨t', hi, h'⟩ := insert_holds (a := []) (b := t.text) h.holds.room str
  refine ⟨t', hi, h'.text, ?_⟩
  rw [datasize, h'.endptr, List.nil_append, List.length_append, length_text h]
  rfl

/-- **An unmasked packet is always built inside the buffer.** -/
theorem buildPacket_ok {t : Txt} (h : t.Owned) (opcode : Ws.OpCode) (rand : UInt32) :
    ∃ r, buildPacket opcode t false rand = .ok r := by
  unfold buildPacket
  simp only [Bool.false_and, Bool.false_eq_true, if_false]
  obtain ⟨t', ht, -⟩ := insert_text h _
  rw [ht]
  exact ⟨_, rfl⟩

theorem length_strncpyBytes (data : Bytes) (n : Nat) : (strncpyBytes data n).length = n := by
  have hle : ((data.take n).takeWhile (· ≠ 0)).length ≤ n :=
    Nat.le_trans (List.takeWhile_sublist _).length_le (List.length_take_le _ _)
  unfold strncpyBytes
  simp only [List.length_append, List.length_replicate]
  omega

/-- **A `TXT` made of data has what `strncpy` copies.** -/
theorem ofData_holds (data : Bytes) (datalen size : Nat) :
    ∃ t, ofData data datalen size = .ok t ∧ Holds t (strncpyBytes data datalen) := by
  have hs := length_strncpyBytes data datalen
  unfold ofData
  simp only
  generalize hsz : (if size ≤ datalen then (datalen + 256) / 256 * 256 else size) = sz
  have hsz' : datalen < sz := by
    rw [← hsz]
    split
    · omega
    · omega
  have hnew : (newChar sz).length = sz := List.length_replicate
  obtain ⟨front, l1, hl, hfront⟩ := exists_front (l := newChar sz) (n := datalen) (by omega)
  have hl1 := congrArg List.length hl
  rw [List.length_append] at hl1
  obtain ⟨nul, l2, rfl, hnul⟩ := exists_front (l := l1) (n := 1) (by omega)
  rw [List.length_append] at hl1
  have hwrite : writeBlock (newChar sz) 0 (strncpyBytes data datalen) =
      .ok (strncpyBytes data datalen ++ (nul ++ l2)) := by
    rw [hl]
    exact writeBlock_mid [] (nul ++ l2) (hs.trans hfront.symm)
  have hwritten : writeBlock (strncpyBytes data datalen ++ (nul ++ l2)) datalen [0] =
      .ok (strncpyBytes data datalen ++ ([0] ++ l2)) := by
    have hm := writeBlock_mid (strncpyBytes data datalen) l2 (show ([0] : Bytes).length = nul.length from hnul.symm)
    rw [hs] at hm
    exact hm
  simp only [hwrite, hwritten, bind, Except.bind]
  refine ⟨_, rfl, ⟨l2, rfl⟩, ?_, hs.symm⟩
  simp only [List.length_append, List.length_singleton]
  omega

/-- The copy a broadcast makes of a text is owned. -/
theorem ofData_ok (data : Bytes) (datalen size : Nat) : ∃ t, ofData data datalen size = .ok t ∧ t.Owned := by
  obtain ⟨t, ht, h⟩ := ofData_holds data datalen size
  exact ⟨t, ht, h.owned⟩

/-- **A packet in a `TXT` is the packet of its text.** -/
theorem buildPacket_text {t : Txt} (h : t.Owned) (opcode : Ws.OpCode) (rand : UInt32) :
    ∃ r, buildPacket opcode t false rand = .ok r ∧ r.2.text = Ws.plainFrame opcode t.text ∧
      r.2.datasize = (Ws.plainFrame opcode t.text).length := by
  have hlen := length_text h
  obtain ⟨t', ht, htext, hsize⟩ := insert_text h (Ws.plainHead opcode t.datasize)
  unfold buildPacket
  simp only [Bool.false_and, Bool.false_eq_true, if_false, UInt8.or_zero, List.append_nil]
  unfold Ws.plainHead at ht
  simp only at ht
  rw [ht]
  refine ⟨_, rfl, ?_, ?_⟩
  · show t'.text = _
    rw [htext, Ws.plainFrame, hlen]
    rfl
  · show t'.datasize = _
    rw [hsize, Ws.plainFrame, List.length_append, hlen]
    rfl

/-- What `strncpy` copies of a text. -/
def strncpied (s : Bytes) : Bytes := strncpyBytes s s.length

theorem length_strncpied (s : Bytes) : (strncpied s).length = s.length := length_strncpyBytes s s.length

/-- The copy a broadcast makes has the text as far as `strncpy` copies it. -/
theorem ofData_text {t : Txt} (h : t.Owned) :
    ∃ t', ofData t.data t.datasize (t.datasize + 16) = .ok t' ∧ t'.Owned ∧ t'.text = strncpied t.text := by
  obtain ⟨t', ht, h'⟩ := ofData_holds t.data t.datasize (t.datasize + 16)
  refine ⟨t', ht, h'.owned, h'.text.trans ?_⟩
  have hself : t.text.take t.text.length = t.text := List.take_length
  rw [strncpied, strncpyBytes, strncpyBytes, hself, length_text h]
  rfl

/-- No byte but NUL follows a NUL. -/
def NulEnds (s : Bytes) : Prop := (s.dropWhile (· ≠ 0)).all (· == 0) = true

instance (s : Bytes) : Decidable (NulEnds s) := inferInstanceAs (Decidable (_ = _))

theorem strncpied_eq (s : Bytes) :
    strncpied s = s.takeWhile (· ≠ 0) ++ List.replicate (s.length - (s.takeWhile (· ≠ 0)).length) 0 := by
  rw [strncpied, strncpyBytes, List.take_length]

/-- **`strncpy` copies exactly the texts whose NULs are at the end.** -/
theorem strncpied_eq_self_iff (s : Bytes) : strncpied s = s ↔ NulEnds s := by
  have hsplit : s.takeWhile (· ≠ 0) ++ s.dropWhile (· ≠ 0) = s := List.takeWhile_append_dropWhile
  have hlen : s.length - (s.takeWhile (· ≠ 0)).length = (s.dropWhile (· ≠ 0)).length := by
    have := congrArg List.length hsplit
    rw [List.length_append] at this
    omega
  unfold NulEnds
  rw [strncpied_eq, hlen, List.all_eq_true]
  simp only [beq_iff_eq]
  constructor
  · intro h
    have hrep : List.replicate (s.dropWhile (· ≠ 0)).length 0 = s.dropWhile (· ≠ 0) :=
      List.append_cancel_left (h.trans hsplit.symm)
    exact (List.eq_replicate_iff.1 hrep.symm).2
  · intro h
    have hrep := List.eq_replicate_iff.2 ⟨rfl, h⟩
    exact (congrArg (s.takeWhile (· ≠ 0) ++ ·) hrep.symm).trans hsplit

theorem strncpied_cons (c : UInt8) (s : Bytes) :
    strncpied (c :: s) = if c = 0 then List.replicate (s.length + 1) 0 else c :: strncpied s := by
  rw [strncpied_eq, strncpied_eq, List.takeWhile_cons]
  by_cases hc : c = 0
  · simp [hc]
  · simp [hc]

/-- A part of the copy is the copy of the part. -/
theorem take_strncpied : ∀ (j : Nat) (s : Bytes), (strncpied s).take j = strncpied (s.take j)
  | 0, s => by rw [List.take_zero, List.take_zero]; rfl
  | j + 1, [] => rfl
  | j + 1, c :: s => by
    rw [List.take_succ_cons, strncpied_cons, strncpied_cons]
    by_cases hc : c = 0
    · rw [if_pos hc, if_pos hc, List.take_replicate, List.length_take]
      congr 1
      omega
    · rw [if_neg hc, if_neg hc, List.take_succ_cons, take_strncpied j s]

end Txt
end Pico
