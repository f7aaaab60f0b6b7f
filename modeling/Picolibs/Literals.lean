import Mathlib.Data.List.Chain
/-!
# Literals — C++ string literals, as the compiler reads and joins them

A small theory that names nothing of the repository.

`denote` reads the bytes of an initializer: string literals with white space between them, up to the semicolon.  In a
literal `\x` takes every hex digit that follows it, and what a value above 255 gives is left to the compiler.  A `Piece`
is one byte as it may be written between the quotes.  A literal is the bytes its pieces mean if and only if no `\x` has
a hex digit behind it (`value_eq_iff`): a digit that is taken leaves the text shorter.
-/
namespace Pico
namespace Literal

def hexVal (c : UInt8) : Option Nat :=
  if 48 ≤ c && c ≤ 57 then some (c.toNat - 48)
  else if 97 ≤ c && c ≤ 102 then some (c.toNat - 87)
  else if 65 ≤ c && c ≤ 70 then some (c.toNat - 55)
  else none

/-- The simple escapes: the letter behind the backslash and the byte. -/
def simpleEscapes : List (UInt8 × UInt8) :=
  [(39, 39), (34, 34), (63, 63), (92, 92), (97, 7), (98, 8), (102, 12), (110, 10), (114, 13), (116, 9), (118, 11)]

def isBlank (c : UInt8) : Bool := c == 32 || (9 ≤ c && c ≤ 13)

/-! ## Reading -/

/-- Where a reader is: between literals, in one with the value of a `\x` that may still grow, behind a backslash, or
behind `\x`. -/
inductive Mode where
  | outside
  | body (pending : Option Nat)
  | escape
  | hex

/-- What a `\x` has come to behind one more character, where that is a hex digit. -/
def grow (p : Option Nat) (c : UInt8) : Option Nat := p.bind fun v => (hexVal c).map (v * 16 + ·)

/-- The byte of a `\x` that has ended, in front of what follows. -/
def flush (large : Nat → Option UInt8) : Option Nat → Option (List UInt8) → Option (List UInt8)
  | none, k => k
  | some v, k => (if v < 256 then some v.toUInt8 else large v).bind fun b => k.map (b :: ·)

/-- The bytes of an initializer.  Octal escapes and universal character names are not read. -/
def denote (large : Nat → Option UInt8) : Mode → List UInt8 → Option (List UInt8)
  | _, [] => none
  | .outside, c :: s =>
    if c = 59 then some []
    else if c = 34 then denote large (.body none) s
    else if isBlank c then denote large .outside s
    else none
  | .body p, c :: s =>
    match grow p c with
    | some v => denote large (.body (some v)) s
    | none =>
      flush large p
        (if c = 34 then denote large .outside s
        else if c = 92 then denote large .escape s
        else if c = 10 then none
        else (denote large (.body none) s).map (c :: ·))
  | .escape, c :: s =>
    if c = 120 then denote large .hex s
    else (simpleEscapes.lookup c).bind fun b => (denote large (.body none) s).map (b :: ·)
  | .hex, c :: s => (hexVal c).bind fun v => denote large (.body (some v)) s

/-! ## Writing -/

def isRaw (c : UInt8) : Bool := c != 34 && c != 92 && c != 10

/-- One byte as it may be written. -/
inductive Piece where
  | raw (c : { c : UInt8 // isRaw c })
  | esc (e : { e : UInt8 × UInt8 // simpleEscapes.lookup e.1 = some e.2 })
  | hex (b : UInt8)

/-- A lower-case hex digit. -/
def hexDigit (n : Nat) : UInt8 := (if n < 10 then 48 + n else 87 + n).toUInt8

def Piece.text : Piece → List UInt8
  | .raw c => [c.1]
  | .esc e => [92, e.1.1]
  | .hex b => [92, 120, hexDigit (b.toNat / 16), hexDigit (b.toNat % 16)]

def Piece.byte : Piece → UInt8
  | .raw c => c.1
  | .esc e => e.1.2
  | .hex b => b

def text (ps : List Piece) : List UInt8 := ps.flatMap Piece.text

/-- A `\x` in front of this piece ends there. -/
def Piece.Stops : Piece → Prop
  | .raw c => hexVal c.1 = none
  | _ => True

def Apart : Piece → Piece → Prop
  | .hex _, q => q.Stops
  | _, _ => True

/-- What a literal denotes from a `\x` that may still grow, in front of what follows the literal. -/
def value (large : Nat → Option UInt8) : Option Nat → List Piece → Option (List UInt8) → Option (List UInt8)
  | p, [], k => flush large p k
  | p, .raw c :: ps, k =>
    match grow p c.1 with
    | some v => value large (some v) ps k
    | none => flush large p ((value large none ps k).map (c.1 :: ·))
  | p, .esc e :: ps, k => flush large p ((value large none ps k).map (e.1.2 :: ·))
  | p, .hex b :: ps, k => flush large p (value large (some b.toNat) ps k)

attribute [grind] denote value

/-! ## A literal is read -/

variable {large : Nat → Option UInt8}

theorem hexVal_hexDigit {n : Nat} (h : n < 16) : hexVal (hexDigit n) = some n := by
  decide +revert

theorem denote_blank {w : List UInt8} (hw : w.all isBlank) (s : List UInt8) :
    denote large .outside (w ++ s) = denote large .outside s := by
  induction w with
  | nil => rfl
  | cons c w ih =>
    rw [List.all_cons, Bool.and_eq_true] at hw
    have h59 : c ≠ 59 := by
      rintro rfl
      exact absurd hw.1 (by decide)
    have h34 : c ≠ 34 := by
      rintro rfl
      exact absurd hw.1 (by decide)
    rw [List.cons_append, denote, if_neg h59, if_neg h34, if_pos hw.1, ih hw.2]

theorem denote_open (s : List UInt8) : denote large .outside (34 :: s) = denote large (.body none) s := by
  rw [denote, if_neg (by decide), if_pos rfl]

theorem grow_of_not_hex {c : UInt8} (h : hexVal c = none) (p : Option Nat) : grow p c = none := by
  cases p with
  | none => rfl
  | some v => rw [grow, h, Option.bind_some, Option.map_none]

theorem denote_grow {p : Option Nat} {c : UInt8} {v : Nat} (hc : grow p c = some v) (s : List UInt8) :
    denote large (.body p) (c :: s) = denote large (.body (some v)) s := by
  rw [denote, hc]

theorem denote_other {p : Option Nat} {c : UInt8} (hc : grow p c = none) (s : List UInt8) :
    denote large (.body p) (c :: s) = flush large p
      (if c = 34 then denote large .outside s
      else if c = 92 then denote large .escape s
      else if c = 10 then none
      else (denote large (.body none) s).map (c :: ·)) := by
  rw [denote, hc]

theorem denote_close (p : Option Nat) (s : List UInt8) :
    denote large (.body p) (34 :: s) = flush large p (denote large .outside s) := by
  rw [denote_other (grow_of_not_hex rfl p), if_pos rfl]

theorem denote_backslash (p : Option Nat) (s : List UInt8) :
    denote large (.body p) (92 :: s) = flush large p (denote large .escape s) := by
  rw [denote_other (grow_of_not_hex rfl p), if_neg (by decide), if_pos rfl]

theorem denote_raw {p : Option Nat} {c : UInt8} (hc : grow p c = none) (hr : isRaw c) (s : List UInt8) :
    denote large (.body p) (c :: s) = flush large p ((denote large (.body none) s).map (c :: ·)) := by
  simp only [isRaw, Bool.and_eq_true, bne_iff_ne] at hr
  rw [denote_other hc, if_neg hr.1.1, if_neg hr.1.2, if_neg hr.2]

theorem denote_esc (e : { e : UInt8 × UInt8 // simpleEscapes.lookup e.1 = some e.2 }) (s : List UInt8) :
    denote large .escape (e.1.1 :: s) = (denote large (.body none) s).map (e.1.2 :: ·) := by
  have h120 : e.1.1 ≠ 120 := by
    intro h
    have he := e.2
    rw [h] at he
    cases he
  rw [denote, if_neg h120, e.2]
  rfl

theorem denote_hex (b : UInt8) (s : List UInt8) :
    denote large .escape (120 :: hexDigit (b.toNat / 16) :: hexDigit (b.toNat % 16) :: s) =
      denote large (.body (some b.toNat)) s := by
  have hb := b.toNat_lt
  have hhi : hexVal (hexDigit (b.toNat / 16)) = some (b.toNat / 16) := hexVal_hexDigit (by omega)
  have hlo : hexVal (hexDigit (b.toNat % 16)) = some (b.toNat % 16) := hexVal_hexDigit (by omega)
  have hgrow : grow (some (b.toNat / 16)) (hexDigit (b.toNat % 16)) = some b.toNat := by
    rw [grow, hlo, Option.bind_some, Option.map_some, Nat.div_add_mod']
  rw [denote, if_pos rfl, denote, hhi, Option.bind_some, denote, hgrow]

theorem value_grow {p : Option Nat} {c : { c : UInt8 // isRaw c }} {v : Nat} (hc : grow p c.1 = some v)
    (ps : List Piece) (k : Option (List UInt8)) : value large p (.raw c :: ps) k = value large (some v) ps k := by
  rw [value, hc]

theorem value_raw {p : Option Nat} {c : { c : UInt8 // isRaw c }} (hc : grow p c.1 = none) (ps : List Piece)
    (k : Option (List UInt8)) :
    value large p (.raw c :: ps) k = flush large p ((value large none ps k).map (c.1 :: ·)) := by
  rw [value, hc]

/-- **A literal denotes its value.** -/
theorem denote_text : ∀ (ps : List Piece) (p : Option Nat) (s : List UInt8),
    denote large (.body p) (text ps ++ 34 :: s) = value large p ps (denote large .outside s)
  | [], p, s => denote_close p s
  | .raw c :: ps, p, s => by
    have ih := denote_text ps
    have ht : text (.raw c :: ps) ++ 34 :: s = c.1 :: (text ps ++ 34 :: s) := rfl
    rw [ht]
    cases hc : grow p c.1 with
    | none => rw [denote_raw hc c.2, value_raw hc, ih]
    | some v => rw [denote_grow hc, value_grow hc, ih]
  | .esc e :: ps, p, s => by
    have ht : text (.esc e :: ps) ++ 34 :: s = 92 :: e.1.1 :: (text ps ++ 34 :: s) := rfl
    rw [ht, value, denote_backslash, denote_esc, denote_text ps]
  | .hex b :: ps, p, s => by
    have ht : text (.hex b :: ps) ++ 34 :: s =
        92 :: 120 :: hexDigit (b.toNat / 16) :: hexDigit (b.toNat % 16) :: (text ps ++ 34 :: s) := rfl
    rw [ht, value, denote_backslash, denote_hex, denote_text ps]

/-- What stands behind the same pieces decides. -/
theorem value_congr {ps ps' : List Piece} {k k' : Option (List UInt8)}
    (h : ∀ p, value large p ps k = value large p ps' k') : ∀ (qs : List Piece) (p : Option Nat),
    value large p (qs ++ ps) k = value large p (qs ++ ps') k'
  | [], p => h p
  | .raw c :: qs, p => by
    rw [List.cons_append, List.cons_append]
    cases hc : grow p c.1 with
    | none => rw [value_raw hc, value_raw hc, value_congr h qs]
    | some v => rw [value_grow hc, value_grow hc, value_congr h qs]
  | .esc _ :: qs, p => by
    rw [List.cons_append, List.cons_append, value, value, value_congr h qs]
  | .hex b :: qs, p => by
    rw [List.cons_append, List.cons_append, value, value, value_congr h qs]

/-! ## What it means -/

theorem flush_byte (b : UInt8) (k : Option (List UInt8)) : flush large (some b.toNat) k = k.map (b :: ·) := by
  rw [flush, if_pos b.toNat_lt, Option.bind_some]
  simp

/-- A `\x` with no digit behind it is its byte. -/
theorem value_hex {b : UInt8} {ps : List Piece} (h : ∀ q ∈ ps.head?, q.Stops) (k : Option (List UInt8)) :
    value large (some b.toNat) ps k = (value large none ps k).map (b :: ·) := by
  cases ps with
  | nil => exact flush_byte b k
  | cons q ps =>
    have hq := h q rfl
    cases q with
    | raw c =>
      rw [value_raw (grow_of_not_hex hq _), value_raw (grow_of_not_hex hq _)]
      exact flush_byte b _
    | esc e => exact flush_byte b _
    | hex b' => exact flush_byte b _

/-- **Where no `\x` has a digit behind it, a literal is the bytes of its pieces.** -/
theorem value_of_apart (k : Option (List UInt8)) : ∀ ps : List Piece, ps.IsChain Apart →
    value large none ps k = k.map (ps.map Piece.byte ++ ·)
  | [], _ => by simp [value, flush]
  | q :: ps, h => by
    rw [List.isChain_cons] at h
    have ih := value_of_apart k ps h.2
    have key : value large none (q :: ps) k = (value large none ps k).map (q.byte :: ·) := by
      cases q with
      | raw c => rfl
      | esc e => rfl
      | hex b => exact value_hex h.1 k
    rw [key, ih, Option.map_map]
    rfl

theorem flush_eq_some {p : Option Nat} {k : Option (List UInt8)} {out : List UInt8}
    (h : flush large p k = some out) :
    ∃ pre out', k = some out' ∧ out = pre ++ out' ∧ pre.length = p.toList.length := by
  cases p with
  | none => exact ⟨[], out, h, rfl, rfl⟩
  | some v =>
    obtain ⟨b, -, hk⟩ := Option.bind_eq_some_iff.1 h
    obtain ⟨out', rfl, rfl⟩ := Option.map_eq_some_iff.1 hk
    exact ⟨[b], out', rfl, rfl, rfl⟩

/-- A byte behind what a piece before it has grown to. -/
theorem length_flush_byte {p : Option Nat} {c : UInt8} {k : Option (List UInt8)} {out : List UInt8}
    (h : flush large p (k.map (c :: ·)) = some out) :
    ∃ out', k = some out' ∧ out.length = p.toList.length + (out'.length + 1) := by
  obtain ⟨pre, out₁, h₁, rfl, hpre⟩ := flush_eq_some h
  obtain ⟨out', rfl, rfl⟩ := Option.map_eq_some_iff.1 h₁
  exact ⟨out', rfl, by rw [List.length_append, hpre, List.length_cons]⟩

theorem stops_of_grow {p : Option Nat} {c : { c : UInt8 // isRaw c }} (hc : grow p c.1 = none) (hp : p.isSome) :
    (Piece.raw c).Stops := by
  obtain ⟨v, rfl⟩ := Option.isSome_iff_exists.1 hp
  rw [grow, Option.bind_some, Option.map_eq_none_iff] at hc
  exact hc

/-- A literal has no more bytes than pieces, and as many only where no digit was taken. -/
theorem value_length (k : List UInt8) : ∀ (ps : List Piece) (p : Option Nat) (out : List UInt8),
    value large p ps (some k) = some out →
      out.length ≤ p.toList.length + ps.length + k.length ∧
        (p.toList.length + ps.length + k.length ≤ out.length →
          (p.isSome → ∀ q ∈ ps.head?, q.Stops) ∧ ps.IsChain Apart)
  | [], p, out, h => by
    obtain ⟨pre, out', hk, rfl, hpre⟩ := flush_eq_some h
    cases hk
    rw [List.length_append, hpre, List.length_nil]
    exact ⟨Nat.le_refl _, fun _ => ⟨fun _ => nofun, List.isChain_nil⟩⟩
  | .raw c :: ps, p, out, h => by
    cases hc : grow p c.1 with
    | some v =>
      rw [value_grow hc] at h
      obtain ⟨hle, -⟩ := value_length k ps _ out h
      cases p with
      | none => cases hc
      | some w =>
        rw [Option.toList_some, List.length_singleton] at hle ⊢
        rw [List.length_cons]
        exact ⟨by omega, fun hlt => absurd hlt (by omega)⟩
    | none =>
      rw [value_raw hc] at h
      obtain ⟨out', h', hlen⟩ := length_flush_byte h
      obtain ⟨hle, heq⟩ := value_length k ps _ out' h'
      rw [Option.toList_none, List.length_nil] at hle heq
      rw [hlen, List.length_cons]
      refine ⟨by omega, fun hlt => ⟨fun hp q hq => ?_, ?_⟩⟩
      · cases hq
        exact stops_of_grow hc hp
      · exact List.isChain_cons.2 ⟨fun _ _ => trivial, (heq (by omega)).2⟩
  | .esc e :: ps, p, out, h => by
    obtain ⟨out', h', hlen⟩ := length_flush_byte h
    obtain ⟨hle, heq⟩ := value_length k ps _ out' h'
    rw [Option.toList_none, List.length_nil] at hle heq
    rw [hlen, List.length_cons]
    refine ⟨by omega, fun hlt => ⟨fun hp q hq => ?_, ?_⟩⟩
    · cases hq
      trivial
    · exact List.isChain_cons.2 ⟨fun _ _ => trivial, (heq (by omega)).2⟩
  | .hex b :: ps, p, out, h => by
    obtain ⟨pre, out₁, h₁, rfl, hpre⟩ := flush_eq_some h
    obtain ⟨hle, heq⟩ := value_length k ps _ out₁ h₁
    rw [Option.toList_some, List.length_singleton] at hle heq
    rw [List.length_append, hpre, List.length_cons]
    refine ⟨by omega, fun hlt => ?_⟩
    obtain ⟨hhead, hchain⟩ := heq (by omega)
    refine ⟨fun _ q hq => ?_, List.isChain_cons.2 ⟨fun q hq => hhead rfl q hq, hchain⟩⟩
    cases hq
    trivial

/-- **A literal is the bytes of its pieces if and only if no `\x` has a digit behind it.** -/
theorem value_eq_iff (ps : List Piece) (k : List UInt8) :
    value large none ps (some k) = some (ps.map Piece.byte ++ k) ↔ ps.IsChain Apart := by
  constructor
  · intro h
    have hlen := (value_length k ps none _ h).2
    rw [List.length_append, List.length_map, Option.toList_none, List.length_nil] at hlen
    exact (hlen (by omega)).2
  · intro h
    rw [value_of_apart (some k) ps h]
    rfl

def Piece.isRawIn (P : UInt8 → Bool) : Piece → Bool
  | .raw c => P c.1
  | _ => false

/-- Bytes that no `\x` takes are all there. -/
theorem countP_le_value {P : UInt8 → Bool} (hP : ∀ c, P c = true → hexVal c = none) (k : List UInt8) :
    ∀ (ps : List Piece) (p : Option Nat) (out : List UInt8), value large p ps (some k) = some out →
      ps.countP (Piece.isRawIn P) + k.countP P ≤ out.countP P
  | [], p, out, h => by
    obtain ⟨pre, out', hk, rfl, -⟩ := flush_eq_some h
    cases hk
    rw [List.countP_append, List.countP_nil]
    omega
  | .raw c :: ps, p, out, h => by
    rw [List.countP_cons]
    cases hc : grow p c.1 with
    | some v =>
      have hcP : P c.1 = false := by
        rw [← Bool.not_eq_true]
        intro hPc
        rw [grow_of_not_hex (hP _ hPc)] at hc
        cases hc
      rw [value_grow hc] at h
      have := countP_le_value hP k ps _ out h
      rw [Piece.isRawIn, hcP]
      exact this
    | none =>
      rw [value_raw hc] at h
      obtain ⟨pre, out₁, h₁, rfl, -⟩ := flush_eq_some h
      obtain ⟨out₂, h₂, rfl⟩ := Option.map_eq_some_iff.1 h₁
      have := countP_le_value hP k ps _ out₂ h₂
      rw [List.countP_append, List.countP_cons, Piece.isRawIn]
      omega
  | .esc e :: ps, p, out, h => by
    obtain ⟨pre, out₁, h₁, rfl, -⟩ := flush_eq_some h
    obtain ⟨out₂, h₂, rfl⟩ := Option.map_eq_some_iff.1 h₁
    have := countP_le_value hP k ps _ out₂ h₂
    rw [List.countP_cons_of_neg (by simp [Piece.isRawIn]), List.countP_append, List.countP_cons]
    omega
  | .hex b :: ps, p, out, h => by
    obtain ⟨pre, out₁, h₁, rfl, -⟩ := flush_eq_some h
    have := countP_le_value hP k ps _ out₁ h₁
    rw [List.countP_cons_of_neg (by simp [Piece.isRawIn]), List.countP_append]
    omega

end Literal
end Pico
