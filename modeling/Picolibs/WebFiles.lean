import Picolibs.JsonPairs
import Picolibs.LengthHeader
import Picolibs.Literals
/-!
# WebFiles — text files as C++ string literals (`create_web_files.py`)

The script writes a text file as one string literal a line, with a response header in front.  `escape_bytes` gives a
text, which is written as UTF-8, so that a byte from 0x80 on comes to two.  A control character is written as `\x` with
two digits, and a hex digit of the file behind it is one digit more.  The literals denote the file if and only if
neither is in it (`initializer_denotes`).
-/
namespace Pico
namespace WebFiles

open Literal

/-! ## The script -/

/-- `escape_bytes`, as the code points of the text. -/
def escapeByte (b : UInt8) : List Nat :=
  if b = 0x0a then [92, 110]
  else if b = 0x0d then [92, 114]
  else if b = 0x22 then [92, 34]
  else if b = 0x5c then [92, 92]
  else if b < 0x20 then [92, 120, (hexDigit (b.toNat / 16)).toNat, (hexDigit (b.toNat % 16)).toNat]
  else [b.toNat]

def escapeBytes (d : Bytes) : List Nat := d.flatMap escapeByte

/-- `writelines` of one literal, in UTF-8. -/
def textLine (d : Bytes) : Bytes := ascii "        \"" ++ (escapeBytes d).flatMap Json.utf8 ++ ascii "\"\n"

/-- `readline` until nothing is left. -/
def readlines : Bytes → List Bytes
  | [] => []
  | c :: s =>
    if c = 10 then [c] :: readlines s
    else match readlines s with
      | [] => [[c]]
      | l :: ls => (c :: l) :: ls

def header (mime timestamp : Bytes) (size : Nat) : Bytes :=
  ascii "HTTP/1.1 200 OK\r\nContent-Type: " ++ mime ++ ascii "\r\nContent-Length: " ++ Http.digits size ++
    ascii "\r\nConnection: keep-alive\r\n" ++ ascii "Cache-Control: max-age=86400\r\nLast-Modified: " ++ timestamp ++
    ascii "\r\n\r\n"

/-- The literals of a file's content, to the semicolon. -/
def fileLines (d : Bytes) : Bytes := (readlines d).flatMap textLine ++ ascii "        \"\";\n\n"

/-- What is written behind `static char file1[] =` for a text file. -/
def initializer (mime timestamp d : Bytes) : Bytes := textLine (header mime timestamp d.length) ++ fileLines d

/-! ## The file as pieces -/

/-- A byte that is written as `\x`. -/
def isControl (b : UInt8) : Bool := b < 32 && b != 10 && b != 13

def rawPiece (c : UInt8) : Piece := if h : isRaw c then .raw ⟨c, h⟩ else .hex c

def lowPiece (b : UInt8) : Piece :=
  if b = 10 then .esc ⟨(110, 10), rfl⟩
  else if b = 13 then .esc ⟨(114, 13), rfl⟩
  else if b = 34 then .esc ⟨(34, 34), rfl⟩
  else if b = 92 then .esc ⟨(92, 92), rfl⟩
  else if b < 32 then .hex b
  else rawPiece b

/-- The pieces `escape_bytes` makes of a byte. -/
def bytePieces (b : UInt8) : List Piece := if b < 128 then [lowPiece b] else (Json.utf8 b.toNat).map rawPiece

def pieces (d : Bytes) : List Piece := d.flatMap bytePieces

/-- A file of ASCII characters where no hex digit stands behind a control character. -/
def Clean (d : Bytes) : Prop :=
  (∀ b ∈ d, b < 128) ∧ d.IsChain fun a b => isControl a = true → hexVal b = none

instance (d : Bytes) : Decidable (Clean d) :=
  decidable_of_iff (d.all (· < 128) = true ∧ d.IsChain fun a b => isControl a = true → hexVal b = none)
    (by simp [Clean])

theorem utf8_low {b : UInt8} (h : b < 128) : Json.utf8 b.toNat = [b] := by
  have hn : b.toNat < 0x80 := UInt8.lt_iff_toNat_lt.1 h
  rw [Json.utf8, if_pos hn]
  simp

/-- From 0x80 on a byte is two bytes in UTF-8, both from 0x80 on. -/
theorem utf8_high {b : UInt8} (h : ¬ b < 128) :
    ∃ hi lo, Json.utf8 b.toNat = [hi, lo] ∧ ¬ hi < 128 ∧ ¬ lo < 128 := by
  have hn : ¬ b.toNat < 0x80 := fun hb => h (UInt8.lt_iff_toNat_lt.2 hb)
  have hb := b.toNat_lt
  refine ⟨_, _, by rw [Json.utf8, if_neg hn, if_pos (by omega)], ?_, ?_⟩
  · rw [UInt8.lt_iff_toNat_lt, Nat.toUInt8_eq, UInt8.toNat_ofNat', Nat.mod_eq_of_lt (by omega)]
    exact Nat.not_lt.2 (by simp; omega)
  · rw [UInt8.lt_iff_toNat_lt, Nat.toUInt8_eq, UInt8.toNat_ofNat', Nat.mod_eq_of_lt (by omega)]
    exact Nat.not_lt.2 (by simp)

theorem isRaw_high {c : UInt8} (h : ¬ c < 128) : isRaw c = true := by
  simp only [isRaw, Bool.and_eq_true, bne_iff_ne]
  refine ⟨⟨?_, ?_⟩, ?_⟩ <;>
  · rintro rfl
    exact h (by decide)

theorem rawPiece_text {c : UInt8} (h : isRaw c = true) : (rawPiece c).text = [c] := by
  rw [rawPiece, dif_pos h, Piece.text]

@[simp] theorem rawPiece_byte (c : UInt8) : (rawPiece c).byte = c := by
  rw [rawPiece]
  split <;> rfl

theorem lowPiece_text {b : UInt8} (h : b < 128) : (escapeByte b).flatMap Json.utf8 = (lowPiece b).text := by
  unfold escapeByte lowPiece
  split_ifs with h10 h13 h34 h92 h32
  · rfl
  · rfl
  · rfl
  · rfl
  · have hdigit : ∀ n < 16, Json.utf8 (hexDigit n).toNat = [hexDigit n] := by decide
    have hb := b.toNat_lt
    have hhi := hdigit (b.toNat / 16) (by omega)
    have hlo := hdigit (b.toNat % 16) (by omega)
    simp only [List.flatMap_cons, List.flatMap_nil, hhi, hlo]
    rfl
  · have hr : isRaw b = true := by simp [isRaw, h10, h34, h92]
    rw [List.flatMap_singleton, utf8_low h, rawPiece_text hr]

theorem bytePieces_text (b : UInt8) : (escapeByte b).flatMap Json.utf8 = text (bytePieces b) := by
  rw [bytePieces]
  split
  · next h => rw [lowPiece_text h, text, List.flatMap_singleton]
  · next h =>
    have hne : ∀ c < 128, b ≠ c := by
      rintro c hc rfl
      exact h hc
    have h32 : ¬ b < 32 := fun h32 => h (UInt8.lt_trans h32 (by decide))
    obtain ⟨hi, lo, hu, hhi, hlo⟩ := utf8_high h
    rw [escapeByte, if_neg (hne _ (by decide)), if_neg (hne _ (by decide)), if_neg (hne _ (by decide)),
      if_neg (hne _ (by decide)), if_neg h32, List.flatMap_singleton, hu]
    simp [text, rawPiece_text (isRaw_high hhi), rawPiece_text (isRaw_high hlo)]

theorem escapeBytes_text (d : Bytes) : (escapeBytes d).flatMap Json.utf8 = text (pieces d) := by
  rw [escapeBytes, pieces, text, List.flatMap_assoc, List.flatMap_assoc]
  exact List.flatMap_congr fun b _ => bytePieces_text b

/-! ## Reading the lines -/

variable {large : Nat → Option UInt8}

theorem denote_textLine (d s : Bytes) :
    denote large .outside (textLine d ++ s) = value large none (pieces d) (denote large .outside s) := by
  have h : textLine d ++ s =
      [32, 32, 32, 32, 32, 32, 32, 32] ++ 34 :: (text (pieces d) ++ 34 :: ([10] ++ s)) := by
    rw [textLine, escapeBytes_text]
    simp [ascii]
  rw [h, denote_blank (by decide), denote_open, denote_text, denote_blank (by decide)]

theorem readlines_eq_nil {d : Bytes} (h : readlines d = []) : d = [] := by
  cases d with
  | nil => rfl
  | cons c s =>
    rw [readlines] at h
    split at h
    · cases h
    · split at h <;> cases h

/-- No `\x` goes on from one line into the next. -/
theorem value_lines (s : Bytes) : ∀ (d l : Bytes) (ls : List Bytes), readlines d = l :: ls → ∀ p,
    value large p (pieces l) (denote large .outside (ls.flatMap textLine ++ s)) =
      value large p (pieces d) (denote large .outside s)
  | [], _, _, h, _ => nomatch h
  | c :: d, l, ls, h, p => by
    have ih := value_lines s d
    have hcons : ∀ l, pieces (c :: l) = bytePieces c ++ pieces l := fun l => List.flatMap_cons
    rw [readlines] at h
    split at h
    · next hc =>
      cases h
      have hd : denote large .outside ((readlines d).flatMap textLine ++ s) =
          value large none (pieces d) (denote large .outside s) := by
        cases hr : readlines d with
        | nil =>
          rw [readlines_eq_nil hr]
          rfl
        | cons l' ls' => rw [List.flatMap_cons, List.append_assoc, denote_textLine, ih l' ls' hr]
      rw [hd, hc]
      rfl
    · split at h
      · next hr =>
        cases h
        rw [readlines_eq_nil hr]
        rfl
      · next l' ls' hr =>
        cases h
        rw [hcons, hcons]
        exact value_congr (ih l' _ hr) (bytePieces c) p

theorem denote_fileLines (d : Bytes) : denote large .outside (fileLines d) = value large none (pieces d) (some []) := by
  have hend : denote large .outside (ascii "        \"\";\n\n") = some [] := rfl
  rw [fileLines]
  cases hr : readlines d with
  | nil =>
    rw [readlines_eq_nil hr]
    exact hend
  | cons l ls =>
    rw [List.flatMap_cons, List.append_assoc, denote_textLine, value_lines _ d l ls hr, hend]

/-! ## What the pieces mean -/

theorem lowPiece_byte (b : UInt8) : (lowPiece b).byte = b := by
  unfold lowPiece
  split_ifs with h10 h13 h34 h92 h32
  · exact h10.symm
  · exact h13.symm
  · exact h34.symm
  · exact h92.symm
  · rfl
  · exact rawPiece_byte b

theorem hexVal_low {b : UInt8} (h : b = 10 ∨ b = 13 ∨ b = 34 ∨ b = 92 ∨ b < 32) : hexVal b = none := by
  rcases h with rfl | rfl | rfl | rfl | h
  · rfl
  · rfl
  · rfl
  · rfl
  · have hle : ∀ c, 48 ≤ c → ¬ c ≤ b := fun c hc hcb =>
      absurd (UInt8.lt_of_le_of_lt (UInt8.le_trans hc hcb) h) (by decide)
    simp [hexVal, hle]

theorem stops_lowPiece (b : UInt8) : (lowPiece b).Stops ↔ hexVal b = none := by
  unfold lowPiece
  split_ifs with h10 h13 h34 h92 h32
  · exact iff_of_true trivial (hexVal_low (.inl h10))
  · exact iff_of_true trivial (hexVal_low (.inr (.inl h13)))
  · exact iff_of_true trivial (hexVal_low (.inr (.inr (.inl h34))))
  · exact iff_of_true trivial (hexVal_low (.inr (.inr (.inr (.inl h92)))))
  · exact iff_of_true trivial (hexVal_low (.inr (.inr (.inr (.inr h32)))))
  · have hr : isRaw b = true := by simp [isRaw, h10, h34, h92]
    rw [rawPiece, dif_pos hr]
    exact Iff.rfl

theorem apart_lowPiece (a b : UInt8) :
    Apart (lowPiece a) (lowPiece b) ↔ (isControl a = true → hexVal b = none) := by
  rw [← stops_lowPiece b, lowPiece, isControl]
  split_ifs with h10 h13 h34 h92 h32
  · simp [Apart, h10]
  · simp [Apart, h13]
  · simp [Apart, h34]
  · simp [Apart, h92]
  · simp [Apart, h10, h13, h32]
  · have hr : isRaw a = true := by simp [isRaw, h10, h34, h92]
    rw [rawPiece, dif_pos hr]
    simp [Apart, h32]

theorem pieces_low {d : Bytes} (h : ∀ b ∈ d, b < 128) : pieces d = d.map lowPiece := by
  rw [pieces, List.map_eq_flatMap]
  exact List.flatMap_congr fun b hb => if_pos (h b hb)

theorem map_lowPiece_byte (d : Bytes) : (d.map lowPiece).map Piece.byte = d := by
  rw [List.map_map]
  exact List.map_id'' lowPiece_byte d

theorem value_of_clean {d : Bytes} (h : Clean d) (k : Option Bytes) :
    value large none (pieces d) k = k.map (d ++ ·) := by
  have hchain : (d.map lowPiece).IsChain Apart := by
    rw [List.isChain_map]
    exact h.2.imp fun a b => (apart_lowPiece a b).2
  rw [pieces_low h.1, value_of_apart k _ hchain, map_lowPiece_byte]

def isHigh (b : UInt8) : Bool := 128 ≤ b

theorem hexVal_isHigh {c : UInt8} (h : isHigh c = true) : hexVal c = none := by
  have hle : ∀ x < 128, ¬ c ≤ x := fun x hx hcx =>
    absurd (UInt8.lt_of_le_of_lt hcx hx) (UInt8.not_lt.2 (of_decide_eq_true h))
  simp [hexVal, hle]

/-- Every byte from 0x80 on comes to two. -/
theorem countP_isHigh : ∀ d : Bytes, 2 * d.countP isHigh ≤ (pieces d).countP (Piece.isRawIn isHigh)
  | [] => Nat.le_refl 0
  | b :: d => by
    have ih := countP_isHigh d
    have hcons : pieces (b :: d) = bytePieces b ++ pieces d := List.flatMap_cons
    rw [hcons, List.countP_append, List.countP_cons]
    by_cases hb : b < 128
    · have hh : isHigh b = false := decide_eq_false (UInt8.not_le.2 hb)
      rw [hh, if_neg Bool.false_ne_true]
      omega
    · obtain ⟨hi, lo, hu, hhi, hlo⟩ := utf8_high hb
      have hraw : ∀ c, ¬ c < 128 → (rawPiece c).isRawIn isHigh = true := fun c hc => by
        rw [rawPiece, dif_pos (isRaw_high hc)]
        exact decide_eq_true (UInt8.not_lt.1 hc)
      rw [bytePieces, if_neg hb, hu, List.map_cons, List.map_singleton, List.countP_cons_of_pos (hraw hi hhi),
        List.countP_cons_of_pos (hraw lo hlo), List.countP_nil]
      split <;> omega

/-- **The pieces of a file mean the file if and only if it is clean.** -/
theorem value_pieces_iff (d : Bytes) : value large none (pieces d) (some []) = some d ↔ Clean d := by
  constructor
  · intro h
    have hhigh : d.countP isHigh = 0 := by
      have := countP_le_value (P := isHigh) (fun _ => hexVal_isHigh) [] (pieces d) none d h
      have := countP_isHigh d
      omega
    have hlow : ∀ b ∈ d, b < 128 := fun b hb =>
      UInt8.not_le.1 fun hle => List.countP_eq_zero.1 hhigh b hb (decide_eq_true hle)
    refine ⟨hlow, ?_⟩
    have hiff : value large none (pieces d) (some []) = some ((pieces d).map Piece.byte ++ []) ↔ _ :=
      value_eq_iff (pieces d) []
    rw [pieces_low hlow, map_lowPiece_byte, List.append_nil, List.isChain_map] at hiff
    rw [pieces_low hlow] at h
    exact (hiff.1 h).imp fun a b => (apart_lowPiece a b).1
  · intro h
    rw [value_of_clean h, Option.map_some, List.append_nil]

/-! ## The header -/

/-- Printable ASCII characters. -/
def Printable (s : Bytes) : Prop := ∀ b ∈ s, 32 ≤ b ∧ b < 128

instance (s : Bytes) : Decidable (Printable s) :=
  decidable_of_iff (s.all (fun b => 32 ≤ b && b < 128) = true) (by simp [Printable])

def isPlain (b : UInt8) : Bool := b < 128 && !isControl b

theorem clean_of_plain {d : Bytes} (h : d.all isPlain) : Clean d := by
  have hb : ∀ b ∈ d, b < 128 ∧ isControl b = false := fun b hb => by
    simpa [isPlain] using List.all_eq_true.1 h b hb
  refine ⟨fun b hd => (hb b hd).1, List.Pairwise.isChain ?_⟩
  refine List.pairwise_of_forall_mem_list fun a ha b _ hc => ?_
  rw [(hb a ha).2] at hc
  cases hc

theorem all_plain_of_printable {s : Bytes} (h : Printable s) : s.all isPlain := by
  rw [List.all_eq_true]
  intro b hb
  have h32 : ¬ b < 32 := UInt8.not_lt.2 (h b hb).1
  simp [isPlain, isControl, (h b hb).2, h32]

theorem printable_digits (n : Nat) : Printable (Http.digits n) := by
  intro b hb
  have hd := List.all_eq_true.1 (Http.digits_isDigit n) b hb
  simp only [Text.isDigit, Bool.and_eq_true, decide_eq_true_eq] at hd
  exact ⟨UInt8.le_trans (by decide) hd.1, UInt8.lt_of_le_of_lt hd.2 (by decide)⟩

theorem header_plain {mime timestamp : Bytes} (hm : Printable mime) (ht : Printable timestamp) (size : Nat) :
    (header mime timestamp size).all isPlain := by
  simp only [header, List.all_append, Bool.and_eq_true]
  have hd := all_plain_of_printable (printable_digits size)
  exact ⟨⟨⟨⟨⟨⟨⟨rfl, all_plain_of_printable hm⟩, rfl⟩, hd⟩, rfl⟩, rfl⟩, all_plain_of_printable ht⟩, rfl⟩

/-- **What the compiler makes of a file's literals.**  They are the file, and with the header the whole response, if and
only if the file is clean; whatever the compiler does with a `\x` that is too large. -/
theorem initializer_denotes (large : Nat → Option UInt8) (d : Bytes) :
    (denote large .outside (fileLines d) = some d ↔ Clean d) ∧
      ∀ mime timestamp, Printable mime → Printable timestamp →
        (denote large .outside (initializer mime timestamp d) = some (header mime timestamp d.length ++ d) ↔
          Clean d) := by
  have hfile : denote large .outside (fileLines d) = some d ↔ Clean d := by
    rw [denote_fileLines]
    exact value_pieces_iff d
  refine ⟨hfile, fun mime timestamp hm ht => ?_⟩
  rw [← hfile, initializer, denote_textLine, value_of_clean (clean_of_plain (header_plain hm ht d.length))]
  rw [Option.map_eq_some_iff]
  constructor
  · rintro ⟨out, hout, h⟩
    rw [hout, List.append_cancel_left h]
  · intro h
    exact ⟨d, h, rfl⟩

theorem initializer_denotes_page :
    denote (fun _ => none) .outside (fileLines (ascii "<p>\t\"\\\"</p>\n")) = some (ascii "<p>\t\"\\\"</p>\n") ∧
      denote (fun _ => none) .outside (initializer (ascii "text/html") (ascii "GMT") (ascii "<p>\t\"\\\"</p>\n")) =
        some (header (ascii "text/html") (ascii "GMT") 12 ++ ascii "<p>\t\"\\\"</p>\n") :=
  ⟨(initializer_denotes _ _).1.2 (by decide),
    ((initializer_denotes _ _).2 (ascii "text/html") (ascii "GMT") (by decide) (by decide)).2 (by decide)⟩

/-- A tab in front of an `a` is the one byte 0x9a. -/
theorem tab_takes_digit : denote (fun _ => none) .outside (fileLines [9, 97]) ≠ some [9, 97] := by
  decide +kernel

end WebFiles
end Pico
