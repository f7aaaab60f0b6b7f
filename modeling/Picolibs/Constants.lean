import Picolibs.Literals
/-!
# Constants — C++ initializers of character and integer constants

A small theory that names nothing of the repository.

`read` takes the bytes of an initializer: a brace, constants with commas between and perhaps behind them, a brace and
the semicolon, with white space anywhere outside a constant.  A constant is a character in quotes or a number of base
16, or 0, and is a byte; anything else is not read.
-/
namespace Pico
namespace Constants

open Literal (hexVal simpleEscapes isBlank hexDigit hexVal_hexDigit)

/-- Where a reader is. -/
inductive At where
  | start
  | item
  | behind
  | close
  | quoted
  | escape
  | digits (v : Option Nat)
  | unquote (b : UInt8)
  | zero
  | number (v : Option Nat)

/-- A byte that a constant comes to. -/
def emit (v : Nat) (k : Option (List UInt8)) : Option (List UInt8) :=
  if v < 256 then k.map (v.toUInt8 :: ·) else none

@[grind]
def read : At → List UInt8 → Option (List UInt8)
  | _, [] => none
  | .start, c :: s => if c = 123 then read .item s else if isBlank c then read .start s else none
  | .item, c :: s =>
    if c = 125 then read .close s
    else if c = 39 then read .quoted s
    else if c = 48 then read .zero s
    else if isBlank c then read .item s
    else none
  | .behind, c :: s =>
    if c = 44 then read .item s else if c = 125 then read .close s else if isBlank c then read .behind s else none
  | .close, c :: s => if c = 59 then some [] else if isBlank c then read .close s else none
  | .quoted, c :: s =>
    if c = 92 then read .escape s else if c = 39 ∨ c = 10 ∨ 128 ≤ c then none else read (.unquote c) s
  | .escape, c :: s =>
    if c = 120 then read (.digits none) s else (simpleEscapes.lookup c).bind fun b => read (.unquote b) s
  | .digits v, c :: s =>
    if c = 39 then v.bind fun v => emit v (read .behind s)
    else (hexVal c).bind fun d => read (.digits (some (v.getD 0 * 16 + d))) s
  | .unquote b, c :: s => if c = 39 then (read .behind s).map (b :: ·) else none
  | .zero, c :: s =>
    if c = 120 then read (.number none) s
    else emit 0 (if c = 44 then read .item s else if c = 125 then read .close s
      else if isBlank c then read .behind s else none)
  | .number v, c :: s =>
    if c = 44 then v.bind fun v => emit v (read .item s)
    else if c = 125 then v.bind fun v => emit v (read .close s)
    else if isBlank c then v.bind fun v => emit v (read .behind s)
    else (hexVal c).bind fun d => read (.number (some (v.getD 0 * 16 + d))) s

/-! ## White space -/

theorem isBlank_ne {c : UInt8} (h : isBlank c = true) : c ≠ 39 ∧ c ≠ 44 ∧ c ≠ 48 ∧ c ≠ 59 ∧ c ≠ 123 ∧ c ≠ 125 := by
  refine ⟨?_, ?_, ?_, ?_, ?_, ?_⟩ <;>
  · rintro rfl
    exact absurd h (by decide)

theorem read_blank {w : List UInt8} (hw : w.all isBlank) (s : List UInt8) : read .item (w ++ s) = read .item s := by
  induction w with
  | nil => rfl
  | cons c w ih =>
    rw [List.all_cons, Bool.and_eq_true] at hw
    obtain ⟨h39, -, h48, -, -, h125⟩ := isBlank_ne hw.1
    rw [List.cons_append, read, if_neg h125, if_neg h39, if_neg h48, if_pos hw.1, ih hw.2]

theorem read_start {w : List UInt8} (hw : w.all isBlank) (s : List UInt8) :
    read .start (w ++ 123 :: s) = read .item s := by
  induction w with
  | nil => rfl
  | cons c w ih =>
    rw [List.all_cons, Bool.and_eq_true] at hw
    obtain ⟨-, -, -, -, h123, -⟩ := isBlank_ne hw.1
    rw [List.cons_append, read, if_neg h123, if_pos hw.1, ih hw.2]

/-! ## Constants -/

/-- A byte in base 16, with the comma behind it. -/
def hexItem (b : UInt8) : List UInt8 := [48, 120, hexDigit (b.toNat / 16), hexDigit (b.toNat % 16), 44]

theorem emit_toNat (b : UInt8) (k : Option (List UInt8)) : emit b.toNat k = k.map (b :: ·) := by
  rw [emit, if_pos b.toNat_lt]
  simp

theorem read_digit {n : Nat} (h : n < 16) (v : Option Nat) (s : List UInt8) :
    read (.number v) (hexDigit n :: s) = read (.number (some (v.getD 0 * 16 + n))) s := by
  have hne : ∀ n < 16, hexDigit n ≠ 44 ∧ hexDigit n ≠ 125 ∧ isBlank (hexDigit n) = false := by decide
  obtain ⟨h44, h125, hb⟩ := hne n h
  rw [read, if_neg h44, if_neg h125, hb, if_neg Bool.false_ne_true, hexVal_hexDigit h]
  rfl

theorem read_quotedDigit {n : Nat} (h : n < 16) (v : Option Nat) (s : List UInt8) :
    read (.digits v) (hexDigit n :: s) = read (.digits (some (v.getD 0 * 16 + n))) s := by
  have hne : ∀ n < 16, hexDigit n ≠ 39 := by decide
  rw [read, if_neg (hne n h), hexVal_hexDigit h]
  rfl

theorem read_hexItem (b : UInt8) (s : List UInt8) : read .item (hexItem b ++ s) = (read .item s).map (b :: ·) := by
  have hb := b.toNat_lt
  have hnum : (some ((none : Option Nat).getD 0 * 16 + b.toNat / 16)).getD 0 * 16 + b.toNat % 16 = b.toNat := by
    rw [Option.getD_none, Option.getD_some, Nat.zero_mul, Nat.zero_add, Nat.div_add_mod']
  have hzero : read .item (hexItem b ++ s) =
      read (.number none) (hexDigit (b.toNat / 16) :: hexDigit (b.toNat % 16) :: 44 :: s) := rfl
  rw [hzero, read_digit (by omega), read_digit (by omega), hnum, read, if_pos rfl, Option.bind_some, emit_toNat]

theorem read_hexItems (s : List UInt8) : ∀ d : List UInt8,
    read .item (d.flatMap hexItem ++ s) = (read .item s).map (d ++ ·)
  | [] => by simp
  | b :: d => by
    rw [List.flatMap_cons, List.append_assoc, read_hexItem, read_hexItems s d, Option.map_map]
    rfl

/-- A character in quotes, with the comma behind it. -/
theorem read_char {c : UInt8} (h39 : c ≠ 39) (h92 : c ≠ 92) (h10 : c ≠ 10) (hc : c < 128) (s : List UInt8) :
    read .item (39 :: c :: 39 :: 44 :: s) = (read .item s).map (c :: ·) := by
  have hq : read .item (39 :: c :: 39 :: 44 :: s) = read .quoted (c :: 39 :: 44 :: s) := rfl
  rw [hq, read, if_neg h92, if_neg (by simp [h39, h10, UInt8.not_le.2 hc])]
  rfl

theorem read_escape {e b : UInt8} (he : simpleEscapes.lookup e = some b) (h120 : e ≠ 120) (s : List UInt8) :
    read .item (39 :: 92 :: e :: 39 :: 44 :: s) = (read .item s).map (b :: ·) := by
  have hq : read .item (39 :: 92 :: e :: 39 :: 44 :: s) = read .escape (e :: 39 :: 44 :: s) := rfl
  rw [hq, read, if_neg h120, he]
  rfl

theorem read_hexChar (b : UInt8) (s : List UInt8) :
    read .item (39 :: 92 :: 120 :: hexDigit (b.toNat / 16) :: hexDigit (b.toNat % 16) :: 39 :: 44 :: s) =
      (read .item s).map (b :: ·) := by
  have hb := b.toNat_lt
  have hnum : (some ((none : Option Nat).getD 0 * 16 + b.toNat / 16)).getD 0 * 16 + b.toNat % 16 = b.toNat := by
    rw [Option.getD_none, Option.getD_some, Nat.zero_mul, Nat.zero_add, Nat.div_add_mod']
  have hq : read .item (39 :: 92 :: 120 :: hexDigit (b.toNat / 16) :: hexDigit (b.toNat % 16) :: 39 :: 44 :: s) =
      read (.digits none) (hexDigit (b.toNat / 16) :: hexDigit (b.toNat % 16) :: 39 :: 44 :: s) := rfl
  rw [hq, read_quotedDigit (by omega), read_quotedDigit (by omega), hnum, read, if_pos rfl, Option.bind_some, emit_toNat]
  rfl

end Constants
end Pico
