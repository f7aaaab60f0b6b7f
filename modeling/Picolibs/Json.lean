import Mathlib.Data.List.Basic
/-!
# Json — JSON texts

A small theory that names nothing of the repository.

A value is its own derivation in the grammar of JSON: it keeps the white space, the escapes and the digits it is
written with, so that the well-formed texts are the `text` of the values and nothing else.  A text is bytes; from 0x80
on they stand for themselves.

`marked` is the text with what each byte is for.  Of the commas and opening brackets, those that stand between items
or open a container with items are one for every value but the root (`count_eq`); the others stand in strings or open
an empty container.
-/
namespace Pico
namespace Json

/-! ## Grammar -/

inductive Blank where
  | space
  | tab
  | lf
  | cr
  deriving DecidableEq

def Blank.byte : Blank → UInt8
  | .space => 32
  | .tab => 9
  | .lf => 10
  | .cr => 13

abbrev Ws := List Blank

def Ws.text (w : Ws) : List UInt8 := w.map Blank.byte

def isDigit (c : UInt8) : Bool := 48 ≤ c && c ≤ 57

def isHex (c : UInt8) : Bool := isDigit c || (65 ≤ c && c ≤ 70) || (97 ≤ c && c ≤ 102)

/-- A byte that may stand in a string as it is. -/
def isRaw (c : UInt8) : Bool := 32 ≤ c && c != 34 && c != 92

abbrev Digit := { c : UInt8 // isDigit c }

abbrev HexDigit := { c : UInt8 // isHex c }

inductive Esc where
  | quote
  | backslash
  | slash
  | b
  | f
  | n
  | r
  | t
  deriving DecidableEq

/-- The letter behind the backslash. -/
def Esc.letter : Esc → UInt8
  | .quote => 34
  | .backslash => 92
  | .slash => 47
  | .b => 98
  | .f => 102
  | .n => 110
  | .r => 114
  | .t => 116

def Esc.byte : Esc → UInt8
  | .quote => 34
  | .backslash => 92
  | .slash => 47
  | .b => 8
  | .f => 12
  | .n => 10
  | .r => 13
  | .t => 9

inductive Piece where
  | raw (c : { c : UInt8 // isRaw c })
  | esc (e : Esc)
  | unit (a b c d : HexDigit)

def Piece.text : Piece → List UInt8
  | .raw c => [c.1]
  | .esc e => [92, e.letter]
  | .unit a b c d => [92, 117, a.1, b.1, c.1, d.1]

def body (s : List Piece) : List UInt8 := s.flatMap Piece.text

inductive Whole where
  | zero
  | digits (first : { c : UInt8 // isDigit c ∧ c ≠ 48 }) (rest : List Digit)

def digitText (ds : List Digit) : List UInt8 := ds.map Subtype.val

def Whole.text : Whole → List UInt8
  | .zero => [48]
  | .digits first rest => first.1 :: digitText rest

inductive Sign where
  | none
  | plus
  | minus

def Sign.text : Sign → List UInt8
  | .none => []
  | .plus => [43]
  | .minus => [45]

/-- `e` or `E`, a sign and digits. -/
structure Exponent where
  upper : Bool
  sign : Sign
  first : Digit
  rest : List Digit

def Exponent.text (e : Exponent) : List UInt8 :=
  (if e.upper then 69 else 101) :: (e.sign.text ++ e.first.1 :: digitText e.rest)

structure Number where
  neg : Bool
  whole : Whole
  frac : Option (Digit × List Digit)
  exp : Option Exponent

def Number.text (n : Number) : List UInt8 :=
  (if n.neg then [45] else []) ++ n.whole.text ++ n.frac.elim [] (fun f => 46 :: f.1.1 :: digitText f.2) ++
    n.exp.elim [] Exponent.text

mutual

inductive Value where
  | null
  | false
  | true
  | num (n : Number)
  | str (s : List Piece)
  | emptyArr (w : Ws)
  | arr (es : Elems)
  | emptyObj (w : Ws)
  | obj (ms : Members)

inductive Elems where
  | last (w : Ws) (v : Value) (w' : Ws)
  | cons (w : Ws) (v : Value) (w' : Ws) (es : Elems)

inductive Members where
  | last (w : Ws) (key : List Piece) (w₁ w₂ : Ws) (v : Value) (w' : Ws)
  | cons (w : Ws) (key : List Piece) (w₁ w₂ : Ws) (v : Value) (w' : Ws) (ms : Members)

end

/-- What a byte of a text is for: the content of a string, the opening bracket of an empty container, or neither. -/
inductive Role where
  | inText
  | opensEmpty
  | plain
  deriving DecidableEq

abbrev Marked := List (Role × UInt8)

def mark (r : Role) (s : List UInt8) : Marked := s.map (fun c => (r, c))

/-- A string with its quotes. -/
def markStr (s : List Piece) : Marked := mark .plain [34] ++ mark .inText (body s) ++ mark .plain [34]

mutual

def Value.marked : Value → Marked
  | .null => mark .plain [110, 117, 108, 108]
  | .false => mark .plain [102, 97, 108, 115, 101]
  | .true => mark .plain [116, 114, 117, 101]
  | .num n => mark .plain n.text
  | .str s => markStr s
  | .emptyArr w => mark .opensEmpty [91] ++ mark .plain w.text ++ mark .plain [93]
  | .arr es => mark .plain [91] ++ es.marked ++ mark .plain [93]
  | .emptyObj w => mark .opensEmpty [123] ++ mark .plain w.text ++ mark .plain [125]
  | .obj ms => mark .plain [123] ++ ms.marked ++ mark .plain [125]

def Elems.marked : Elems → Marked
  | .last w v w' => mark .plain w.text ++ v.marked ++ mark .plain w'.text
  | .cons w v w' es => mark .plain w.text ++ v.marked ++ mark .plain w'.text ++ mark .plain [44] ++ es.marked

def Members.marked : Members → Marked
  | .last w key w₁ w₂ v w' =>
    mark .plain w.text ++ markStr key ++ mark .plain w₁.text ++ mark .plain [58] ++ mark .plain w₂.text ++ v.marked ++
      mark .plain w'.text
  | .cons w key w₁ w₂ v w' ms =>
    mark .plain w.text ++ markStr key ++ mark .plain w₁.text ++ mark .plain [58] ++ mark .plain w₂.text ++ v.marked ++
      mark .plain w'.text ++ mark .plain [44] ++ ms.marked

end

mutual

/-- The values of a document, the root and all nested ones; a key is none. -/
def Value.count : Value → Nat
  | .arr es => 1 + es.count
  | .obj ms => 1 + ms.count
  | _ => 1

def Elems.count : Elems → Nat
  | .last _ v _ => v.count
  | .cons _ v _ es => v.count + es.count

def Members.count : Members → Nat
  | .last _ _ _ _ v _ => v.count
  | .cons _ _ _ _ v _ ms => v.count + ms.count

end

def unmark (l : Marked) : List UInt8 := l.map Prod.snd

def Value.text (v : Value) : List UInt8 := unmark v.marked

def Members.text (ms : Members) : List UInt8 := unmark ms.marked

@[simp] theorem unmark_append (l l' : Marked) : unmark (l ++ l') = unmark l ++ unmark l' := List.map_append

@[simp] theorem unmark_mark (r : Role) (s : List UInt8) : unmark (mark r s) = s := by
  rw [unmark, mark, List.map_map]
  exact List.map_id s

/-! ## Counting -/

def opens (c : UInt8) : Bool := c == 123 || c == 91

def closes (c : UInt8) : Bool := c == 125 || c == 93

/-- A comma or an opening bracket. -/
def separates (c : UInt8) : Bool := c == 44 || opens c

/-- The commas between items and the opening brackets of containers with items. -/
def separators (l : Marked) : Nat := l.countP fun p => p.1 == .plain && separates p.2

/-- The other commas and opening brackets. -/
def lookalikes (l : Marked) : Nat := l.countP fun p => p.1 != .plain && separates p.2

@[simp] theorem separators_append (l l' : Marked) : separators (l ++ l') = separators l + separators l' :=
  List.countP_append

theorem countP_mark (f : Role × UInt8 → Bool) (r : Role) (s : List UInt8) :
    (mark r s).countP f = s.countP fun c => f (r, c) := List.countP_map

theorem separators_other {r : Role} (hr : r ≠ .plain) (s : List UInt8) : separators (mark r s) = 0 := by
  rw [separators, countP_mark, List.countP_eq_zero]
  intro c hc
  simp [hr]

theorem separators_plain {s : List UInt8} (h : ∀ c ∈ s, separates c = false) : separators (mark .plain s) = 0 := by
  rw [separators, countP_mark, List.countP_eq_zero]
  intro c hc
  simp [h c hc]

theorem separators_add_lookalikes (l : Marked) :
    separators l + lookalikes l = l.countP fun p => separates p.2 := by
  induction l with
  | nil => rfl
  | cons p l ih =>
    rw [separators, lookalikes] at ih ⊢
    rw [List.countP_cons, List.countP_cons, List.countP_cons, ← ih]
    rcases p with ⟨r, c⟩
    cases r <;> cases separates c <;> simp <;> omega

/-! ## Bytes of a number -/

def isNumeral (c : UInt8) : Bool := isDigit c || c == 43 || c == 45 || c == 46 || c == 69 || c == 101

theorem isNumeral_digit {c : UInt8} (h : isDigit c) : isNumeral c := by
  rw [isNumeral, h]
  rfl

theorem isNumeral_digitText (ds : List Digit) : ∀ c ∈ digitText ds, isNumeral c := by
  intro c hc
  obtain ⟨d, -, rfl⟩ := List.mem_map.1 hc
  exact isNumeral_digit d.2

theorem isNumeral_number (n : Number) : ∀ c ∈ n.text, isNumeral c := by
  obtain ⟨neg, whole, frac, exp⟩ := n
  rw [Number.text]
  simp only [List.forall_mem_append]
  refine ⟨⟨⟨?_, ?_⟩, ?_⟩, ?_⟩
  · cases neg with
    | false => exact List.forall_mem_nil _
    | true => exact List.forall_mem_singleton.2 rfl
  · cases whole with
    | zero => exact List.forall_mem_singleton.2 rfl
    | digits first rest =>
      exact List.forall_mem_cons.2 ⟨isNumeral_digit first.2.1, isNumeral_digitText rest⟩
  · cases frac with
    | none => exact List.forall_mem_nil _
    | some f =>
      exact List.forall_mem_cons.2
        ⟨rfl, List.forall_mem_cons.2 ⟨isNumeral_digit f.1.2, isNumeral_digitText f.2⟩⟩
  · cases exp with
    | none => exact List.forall_mem_nil _
    | some e =>
      refine List.forall_mem_cons.2 ⟨by cases e.upper <;> rfl, ?_⟩
      refine List.forall_mem_append.2
        ⟨?_, List.forall_mem_cons.2 ⟨isNumeral_digit e.first.2, isNumeral_digitText e.rest⟩⟩
      cases e.sign with
      | none => exact List.forall_mem_nil _
      | plus => exact List.forall_mem_singleton.2 rfl
      | minus => exact List.forall_mem_singleton.2 rfl

theorem number_ne_nil (n : Number) : n.text ≠ [] := by
  obtain ⟨neg, whole, frac, exp⟩ := n
  cases whole <;> simp [Number.text, Whole.text]

theorem numeral_no_bracket {c : UInt8} (h : isNumeral c) : opens c = false ∧ closes c = false := by
  constructor <;> rw [← Bool.not_eq_true] <;> intro hs
  · rw [opens, Bool.or_eq_true, beq_iff_eq, beq_iff_eq] at hs
    rcases hs with rfl | rfl <;> exact absurd h (by decide)
  · rw [closes, Bool.or_eq_true, beq_iff_eq, beq_iff_eq] at hs
    rcases hs with rfl | rfl <;> exact absurd h (by decide)

theorem not_separates_numeral {c : UInt8} (h : isNumeral c) : separates c = false := by
  rw [separates, (numeral_no_bracket h).1, Bool.or_false, beq_eq_false_iff_ne]
  rintro rfl
  exact absurd h (by decide)

/-! ## Counting the values -/

theorem separators_ws (w : Ws) : separators (mark .plain w.text) = 0 :=
  separators_plain fun c hc => by
    obtain ⟨b, -, rfl⟩ := List.mem_map.1 hc
    cases b <;> rfl

theorem separators_number (n : Number) : separators (mark .plain n.text) = 0 :=
  separators_plain fun c hc => not_separates_numeral (isNumeral_number n c hc)

theorem separators_str (s : List Piece) : separators (markStr s) = 0 := by
  rw [markStr, separators_append, separators_append, separators_other (r := .inText) (by decide)]
  rfl

theorem separators_comma : separators (mark .plain [44]) = 1 := rfl

theorem separators_colon : separators (mark .plain [58]) = 0 := rfl

mutual

/-- **The separators of a document are one for every value but the root.** -/
theorem count_eq : ∀ v : Value, v.count = 1 + separators v.marked
  | .null => rfl
  | .false => rfl
  | .true => rfl
  | .num n => by rw [Value.marked, separators_number]; rfl
  | .str s => by rw [Value.marked, separators_str]; rfl
  | .emptyArr w => by
    rw [Value.marked, separators_append, separators_append, separators_ws]
    rfl
  | .arr es => by
    rw [Value.marked, separators_append, separators_append, Value.count, count_elems es]
    rfl
  | .emptyObj w => by
    rw [Value.marked, separators_append, separators_append, separators_ws]
    rfl
  | .obj ms => by
    rw [Value.marked, separators_append, separators_append, Value.count, count_members ms]
    rfl

theorem count_elems : ∀ es : Elems, es.count = 1 + separators es.marked
  | .last w v w' => by
    rw [Elems.marked, separators_append, separators_append, separators_ws, separators_ws, Elems.count, count_eq v]
    omega
  | .cons w v w' es => by
    simp only [Elems.marked, separators_append, separators_ws, separators_comma]
    rw [Elems.count, count_eq v, count_elems es]
    omega

theorem count_members : ∀ ms : Members, ms.count = 1 + separators ms.marked
  | .last w key w₁ w₂ v w' => by
    simp only [Members.marked, separators_append, separators_ws, separators_str, separators_colon]
    rw [Members.count, count_eq v]
    omega
  | .cons w key w₁ w₂ v w' ms => by
    simp only [Members.marked, separators_append, separators_ws, separators_str, separators_colon, separators_comma]
    rw [Members.count, count_eq v, count_members ms]
    omega

end

/-! ## No byte is NUL -/

theorem mem_ws {w : Ws} {c : UInt8} (h : c ∈ w.text) : c = 32 ∨ c = 9 ∨ c = 10 ∨ c = 13 := by
  obtain ⟨b, -, rfl⟩ := List.mem_map.1 h
  cases b <;> decide

theorem zero_notMem_ws (w : Ws) : 0 ∉ w.text := fun h => by rcases mem_ws h with h | h | h | h <;> cases h

theorem zero_notMem_body (s : List Piece) : 0 ∉ body s := by
  intro h
  obtain ⟨p, -, hp⟩ := List.mem_flatMap.1 h
  cases p with
  | raw c => rw [Piece.text, List.mem_singleton] at hp; exact absurd c.2 (by rw [← hp]; decide)
  | esc e => cases e <;> revert hp <;> decide
  | unit a b c d =>
    have hx : ∀ x : HexDigit, (0 : UInt8) ≠ x.1 := fun x hx => absurd x.2 (by rw [← hx]; decide)
    simp only [Piece.text, List.mem_cons, List.not_mem_nil, hx, or_false] at hp
    rcases hp with hp | hp <;> cases hp

theorem zero_notMem_str (s : List Piece) : 0 ∉ unmark (markStr s) := by
  simp [markStr, zero_notMem_body]

mutual

theorem zero_notMem : ∀ v : Value, 0 ∉ v.text
  | .null => by decide
  | .false => by decide
  | .true => by decide
  | .num n => by
    rw [Value.text, Value.marked, unmark_mark]
    exact fun h => absurd (isNumeral_number n 0 h) (by decide)
  | .str s => zero_notMem_str s
  | .emptyArr w => by simp [Value.text, Value.marked, zero_notMem_ws]
  | .arr es => by simp [Value.text, Value.marked, zero_notMem_elems es]
  | .emptyObj w => by simp [Value.text, Value.marked, zero_notMem_ws]
  | .obj ms => by simp [Value.text, Value.marked, zero_notMem_members ms]

theorem zero_notMem_elems : ∀ es : Elems, 0 ∉ unmark es.marked
  | .last w v w' => by
    have hv := zero_notMem v
    rw [Value.text] at hv
    simp [Elems.marked, zero_notMem_ws, hv]
  | .cons w v w' es => by
    have hv := zero_notMem v
    rw [Value.text] at hv
    simp [Elems.marked, zero_notMem_ws, hv, zero_notMem_elems es]

theorem zero_notMem_members : ∀ ms : Members, 0 ∉ unmark ms.marked
  | .last w key w₁ w₂ v w' => by
    have hv := zero_notMem v
    rw [Value.text] at hv
    simp [Members.marked, zero_notMem_ws, zero_notMem_str, hv]
  | .cons w key w₁ w₂ v w' ms => by
    have hv := zero_notMem v
    rw [Value.text] at hv
    simp [Members.marked, zero_notMem_ws, zero_notMem_str, hv, zero_notMem_members ms]

end

/-! ## Brackets -/

/-- A text up to the byte behind which `depth` more brackets are closed than opened, and what is behind it.  What the
brackets are for is not asked. -/
def cut : Nat → Marked → Marked × Marked
  | 0, l => ([], l)
  | _ + 1, [] => ([], [])
  | d + 1, p :: l =>
    let rest := cut (if opens p.2 then d + 2 else if closes p.2 then d else d + 1) l
    (p :: rest.1, rest.2)

theorem cut_append : ∀ (d : Nat) (l : Marked), (cut d l).1 ++ (cut d l).2 = l
  | 0, l => by rw [cut, List.nil_append]
  | _ + 1, [] => rfl
  | d + 1, p :: l => by
    rw [cut, List.cons_append, cut_append]

/-- Brackets that are opened in a text are closed in it, and no others. -/
def Level (l : Marked) : Prop := ∀ d r, cut (d + 1) (l ++ r) = (l ++ (cut (d + 1) r).1, (cut (d + 1) r).2)

theorem Level.append {l l' : Marked} (h : Level l) (h' : Level l') : Level (l ++ l') := by
  intro d r
  rw [List.append_assoc, h, h', List.append_assoc]

theorem level_of_no_bracket : ∀ {l : Marked}, (∀ p ∈ l, opens p.2 = false ∧ closes p.2 = false) → Level l
  | [], _ => fun _ _ => rfl
  | p :: l, h => by
    intro d r
    rw [List.forall_mem_cons] at h
    rw [List.cons_append, cut, h.1.1, h.1.2, if_neg Bool.false_ne_true, if_neg Bool.false_ne_true,
      level_of_no_bracket h.2 d r]
    rfl

theorem Level.bracketed {l : Marked} (h : Level l) {p q : Role × UInt8} (hp : opens p.2) (hq : opens q.2 = false)
    (hq' : closes q.2) : Level (p :: (l ++ [q])) := by
  intro d r
  rw [List.cons_append, cut, if_pos hp, List.append_assoc, h, List.singleton_append, cut, hq, if_neg Bool.false_ne_true,
    if_pos hq']
  simp

theorem level_mark {r : Role} {s : List UInt8} (h : ∀ c ∈ s, opens c = false ∧ closes c = false) : Level (mark r s) :=
  level_of_no_bracket fun p hp => by
    obtain ⟨c, hc, rfl⟩ := List.mem_map.1 hp
    exact h c hc

/-- Punctuation and the names of scalars. -/
theorem level_plain {s : List UInt8} (h : s.all fun c => !opens c && !closes c) : Level (mark .plain s) :=
  level_mark fun c hc => by simpa using List.all_eq_true.1 h c hc

theorem level_ws (w : Ws) : Level (mark .plain w.text) :=
  level_mark fun c hc => by rcases mem_ws hc with rfl | rfl | rfl | rfl <;> decide

/-- No string of the text has a bracket. -/
def PlainText (l : Marked) : Prop := ∀ p ∈ l, p.1 = .inText → opens p.2 = false ∧ closes p.2 = false

theorem plainText_append {l l' : Marked} : PlainText (l ++ l') ↔ PlainText l ∧ PlainText l' := List.forall_mem_append

theorem level_str {s : List Piece} (h : PlainText (markStr s)) : Level (markStr s) := by
  rw [markStr, plainText_append, plainText_append] at h
  refine Level.append (Level.append (level_plain rfl) (level_mark fun c hc => ?_)) (level_plain rfl)
  exact h.1.2 (.inText, c) (List.mem_map_of_mem hc) rfl

mutual

/-- **A value whose strings have no bracket closes all it opens.** -/
theorem level_value : ∀ v : Value, PlainText v.marked → Level v.marked
  | .null, _ => level_plain rfl
  | .false, _ => level_plain rfl
  | .true, _ => level_plain rfl
  | .num n, _ => level_mark fun c hc => numeral_no_bracket (isNumeral_number n c hc)
  | .str s, h => level_str h
  | .emptyArr w, _ => (level_ws w).bracketed rfl rfl rfl
  | .arr es, h => by
    rw [Value.marked, plainText_append, plainText_append] at h
    exact (level_elems es h.1.2).bracketed rfl rfl rfl
  | .emptyObj w, _ => (level_ws w).bracketed rfl rfl rfl
  | .obj ms, h => by
    rw [Value.marked, plainText_append, plainText_append] at h
    exact (level_members ms h.1.2).bracketed rfl rfl rfl

theorem level_elems : ∀ es : Elems, PlainText es.marked → Level es.marked
  | .last w v w', h => by
    rw [Elems.marked, plainText_append, plainText_append] at h
    exact ((level_ws w).append (level_value v h.1.2)).append (level_ws w')
  | .cons w v w' es, h => by
    simp only [Elems.marked, plainText_append] at h
    obtain ⟨⟨⟨⟨-, hv⟩, -⟩, -⟩, hes⟩ := h
    exact ((((level_ws w).append (level_value v hv)).append (level_ws w')).append (level_plain rfl)).append
      (level_elems es hes)

theorem level_members : ∀ ms : Members, PlainText ms.marked → Level ms.marked
  | .last w key w₁ w₂ v w', h => by
    simp only [Members.marked, plainText_append] at h
    obtain ⟨⟨⟨⟨⟨⟨-, hkey⟩, -⟩, -⟩, -⟩, hv⟩, -⟩ := h
    exact ((((((level_ws w).append (level_str hkey)).append (level_ws w₁)).append (level_plain rfl)).append
      (level_ws w₂)).append (level_value v hv)).append (level_ws w')
  | .cons w key w₁ w₂ v w' ms, h => by
    simp only [Members.marked, plainText_append] at h
    obtain ⟨⟨⟨⟨⟨⟨⟨⟨-, hkey⟩, -⟩, -⟩, -⟩, hv⟩, -⟩, -⟩, hms⟩ := h
    exact ((((((((level_ws w).append (level_str hkey)).append (level_ws w₁)).append (level_plain rfl)).append
      (level_ws w₂)).append (level_value v hv)).append (level_ws w')).append (level_plain rfl)).append
      (level_members ms hms)

end

end Json
end Pico
