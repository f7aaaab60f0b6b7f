import Mathlib.Algebra.Group.Int.Defs
import Mathlib.Algebra.GroupWithZero.Nat
import Picolibs.Literals
import Picolibs.Text
/-!
# DbgFlag — debug flags that are typed in (`dbgflag.h`, `dbgflag.cpp`)

`char_avail` puts what is typed into a buffer of 32 characters and takes it for a command at a CR.  A line of text is
what that buffer is for: `edit` is a key on a line, and `obey` a line as a command.  `flags_of_lines` says that whatever
is typed, and in whatever portions it arrives, the flags are what the edited lines say, one after the other.
-/
namespace Pico
namespace Dbg

open Literal (hexVal hexDigit hexVal_hexDigit)
open Text (toLower)

structure DbgFlag where
  flags : UInt32
  bufptr : Nat
  buf : Bytes

/-- `sizeof(buf_)`. -/
def bufSize : Nat := 32

/-- `enable`; the buffer is as it was. -/
def enable (buf : Bytes) (initFlags : UInt32) : DbgFlag := ⟨initFlags, 0, buf⟩

/-- The digits of the switch; `none` is its default. -/
def digit (c : UInt8) : Option UInt32 :=
  if 48 ≤ c && c ≤ 57 then some (c - 48).toUInt32
  else if 97 ≤ c && c ≤ 102 then some (c - 97 + 10).toUInt32
  else none

/-- The loop over the digits from `ii` on, so many; `none` where it ends at an invalid character. -/
def maskFrom (buf : Bytes) : Nat → Nat → UInt32 → Option UInt32
  | 0, _, mask => some mask
  | n + 1, ii, mask =>
    match digit (toLower (buf.getD ii 0)) with
    | none => none
    | some d => maskFrom buf n (ii + 1) (mask <<< 4 ||| d)

namespace DbgFlag

/-- What `char_avail` does at a CR. -/
def command (d : DbgFlag) : DbgFlag :=
  let d :=
    if 0 < d.bufptr then
      let c := d.buf.getD 0 0
      let cmdch := if c = 61 || c = 43 || c = 45 then c else 61
      let ii := if c = 61 || c = 43 || c = 45 then 1 else 0
      match maskFrom d.buf (d.bufptr - ii) ii 0 with
      | none => d
      | some mask =>
        if cmdch = 61 then { d with flags := mask }
        else if cmdch = 43 then { d with flags := d.flags ||| mask }
        else { d with flags := d.flags &&& ~~~mask }
    else d
  { d with bufptr := 0 }

/-- `char_avail`, one character. -/
def onChar (d : DbgFlag) (ch : UInt8) : DbgFlag :=
  if ch = 13 then d.command
  else if ch = 8 then (if 0 < d.bufptr then { d with bufptr := d.bufptr - 1 } else d)
  else if d.bufptr < bufSize then { d with buf := d.buf.set d.bufptr ch, bufptr := d.bufptr + 1 }
  else d

/-- `char_avail`, with what is there to be read. -/
def charAvail (d : DbgFlag) (chars : Bytes) : DbgFlag := chars.foldl onChar d

end DbgFlag

/-! ## Lines -/

/-- A key on a line: a backspace, or a character where there is room. -/
def edit (line : Bytes) (c : UInt8) : Bytes :=
  if c = 8 then line.dropLast else if line.length < bufSize then line ++ [c] else line

/-- The line that some keys leave. -/
def edited (keys : Bytes) : Bytes := keys.foldl edit []

/-- The number that some text spells in base 16. -/
def hexNumber (text : Bytes) : Option Nat :=
  text.foldl (fun v c => v.bind fun v => (hexVal c).map (v * 16 + ·)) (some 0)

/-- What a line asks for: the flags of a number, modulo 2^32, or `+` or `−` and a number. -/
def obey (flags : UInt32) : Bytes → UInt32
  | [] => flags
  | c :: text =>
    if c = 43 then (hexNumber text).elim flags fun n => flags ||| UInt32.ofNat n
    else if c = 45 then (hexNumber text).elim flags fun n => flags &&& ~~~UInt32.ofNat n
    else if c = 61 then (hexNumber text).elim flags UInt32.ofNat
    else (hexNumber (c :: text)).elim flags UInt32.ofNat

/-- The buffer has the line. -/
structure Has (d : DbgFlag) (line : Bytes) : Prop where
  size : d.buf.length = bufSize
  inside : d.bufptr ≤ bufSize
  text : d.buf.take d.bufptr = line

theorem Has.length {d : DbgFlag} {line : Bytes} (h : Has d line) : line.length = d.bufptr := by
  have hi := h.inside
  rw [← h.text, List.length_take, h.size, Nat.min_eq_left hi]

theorem digit_toLower (c : UInt8) : digit (toLower c) = (hexVal c).map UInt32.ofNat := by
  have h : ∀ n < 256, digit (toLower (UInt8.ofNat n)) = (hexVal (UInt8.ofNat n)).map UInt32.ofNat := by decide +kernel
  have := h c.toNat c.toNat_lt
  rwa [UInt8.ofNat_toNat] at this

theorem hexVal_lt {c : UInt8} {v : Nat} (h : hexVal c = some v) : v < 16 := by
  unfold hexVal at h
  split at h
  · rename_i hc
    simp only [Bool.and_eq_true, decide_eq_true_eq, UInt8.le_iff_toNat_le] at hc
    have h57 : (57 : UInt8).toNat = 57 := rfl
    have := Option.some.inj h
    omega
  · split at h
    · rename_i hc
      simp only [Bool.and_eq_true, decide_eq_true_eq, UInt8.le_iff_toNat_le] at hc
      have h102 : (102 : UInt8).toNat = 102 := rfl
      have := Option.some.inj h
      omega
    · split at h
      · rename_i hc
        simp only [Bool.and_eq_true, decide_eq_true_eq, UInt8.le_iff_toNat_le] at hc
        have h70 : (70 : UInt8).toNat = 70 := rfl
        have := Option.some.inj h
        omega
      · cases h

/-- Shifting a digit in is arithmetic modulo 2^32. -/
theorem shift_digit (v : Nat) {d : Nat} (hd : d < 16) :
    UInt32.ofNat v <<< 4 ||| UInt32.ofNat d = UInt32.ofNat (v * 16 + d) := by
  have hshift : (UInt32.ofNat v <<< 4).toNat = (v % 2 ^ 28) <<< 4 := by
    rw [UInt32.toNat_shiftLeft, UInt32.toNat_ofNat', Nat.shiftLeft_eq, Nat.shiftLeft_eq]
    have h4 : (4 : UInt32).toNat % 32 = 4 := rfl
    rw [h4]
    omega
  refine UInt32.toNat_inj.1 ?_
  rw [UInt32.toNat_or, hshift, UInt32.toNat_ofNat', Nat.mod_eq_of_lt (Nat.lt_trans hd (by decide)),
    ← Nat.shiftLeft_add_eq_or_of_lt (Nat.lt_of_lt_of_le hd (by decide)), Nat.shiftLeft_eq, UInt32.toNat_ofNat']
  omega

/-- The number that more digits make of one. -/
def growNumber (v : Option Nat) (text : Bytes) : Option Nat :=
  text.foldl (fun v c => v.bind fun v => (hexVal c).map (v * 16 + ·)) v

theorem growNumber_none : ∀ text, growNumber none text = none
  | [] => rfl
  | _ :: text => growNumber_none text

/-- **The loop over the digits reads the number** that stands there, modulo 2^32. -/
theorem maskFrom_eq (rest : Bytes) : ∀ (text : Bytes) (v : Nat) (front : Bytes),
    maskFrom (front ++ (text ++ rest)) text.length front.length (UInt32.ofNat v) =
      (growNumber (some v) text).map UInt32.ofNat
  | [], v, _ => rfl
  | c :: text, v, front => by
    have hget : (front ++ (c :: text ++ rest)).getD front.length 0 = c := by
      rw [List.getD_eq_getElem?_getD, List.getElem?_append_right (Nat.le_refl _), Nat.sub_self]
      rfl
    rw [List.length_cons, maskFrom, hget, digit_toLower, growNumber, List.foldl_cons]
    cases hv : hexVal c with
    | none => exact (congrArg (Option.map UInt32.ofNat) (growNumber_none text)).symm
    | some d =>
      have ih := maskFrom_eq rest text (v * 16 + d) (front ++ [c])
      rw [List.append_assoc, List.length_append, List.singleton_append] at ih
      rw [Option.map_some]
      simp only []
      rw [shift_digit v (hexVal_lt hv)]
      exact ih

theorem maskFrom_line (line rest : Bytes) (ii : Nat) (hi : ii ≤ line.length) :
    maskFrom (line ++ rest) (line.length - ii) ii 0 = (hexNumber (line.drop ii)).map UInt32.ofNat := by
  have h := maskFrom_eq rest (line.drop ii) 0 (line.take ii)
  rw [← List.append_assoc, List.take_append_drop, List.length_drop, List.length_take, Nat.min_eq_left hi] at h
  exact h

/-! ## The buffer is a line -/

/-- **A CR is the end of a line.** -/
theorem Has.command {d : DbgFlag} {line : Bytes} (h : Has d line) :
    Has d.command [] ∧ d.command.flags = obey d.flags line := by
  have hlen := h.length
  have hbuf : d.buf = line ++ d.buf.drop d.bufptr := by
    conv => lhs; rw [← List.take_append_drop d.bufptr d.buf, h.text]
  cases line with
  | nil =>
    have h0 : ¬ 0 < d.bufptr := by rw [← hlen]; exact Nat.lt_irrefl 0
    unfold DbgFlag.command
    rw [if_neg h0]
    exact ⟨⟨h.size, Nat.zero_le _, rfl⟩, rfl⟩
  | cons c text =>
    have hpos : 0 < d.bufptr := by rw [← hlen]; exact Nat.succ_pos _
    have hget : d.buf.getD 0 0 = c := by rw [hbuf]; rfl
    have hmask := maskFrom_line (c :: text) (d.buf.drop d.bufptr)
    rw [← hbuf, hlen] at hmask
    unfold DbgFlag.command
    rw [if_pos hpos]
    simp only [hget]
    have hdone : ∀ f : UInt32, Has { d with flags := f, bufptr := 0 } [] := fun f => ⟨h.size, Nat.zero_le _, rfl⟩
    by_cases hsign : c = 61 ∨ c = 43 ∨ c = 45
    · have hs : (decide (c = 61) || decide (c = 43) || decide (c = 45)) = true := by
        simpa [or_assoc] using hsign
      simp only [hs, if_true, hmask 1 (by omega), List.drop_succ_cons, List.drop_zero]
      rcases hsign with rfl | rfl | rfl
      · cases hn : hexNumber text with
        | none => exact ⟨hdone _, by simp [obey, hn]⟩
        | some n => exact ⟨hdone _, by simp [obey, hn]⟩
      · cases hn : hexNumber text with
        | none => exact ⟨hdone _, by simp [obey, hn]⟩
        | some n => exact ⟨hdone _, by simp [obey, hn]⟩
      · cases hn : hexNumber text with
        | none => exact ⟨hdone _, by simp [obey, hn]⟩
        | some n => exact ⟨hdone _, by simp [obey, hn]⟩
    · obtain ⟨h61, h43, h45⟩ : c ≠ 61 ∧ c ≠ 43 ∧ c ≠ 45 := by
        simpa only [not_or] using hsign
      have h0 := hmask 0 (Nat.zero_le _)
      rw [Nat.sub_zero, List.drop_zero] at h0
      simp only [h61, h43, h45, decide_false, Bool.or_self, Bool.false_eq_true, if_false, Nat.sub_zero, h0]
      cases hn : hexNumber (c :: text) with
      | none => exact ⟨hdone _, by simp [obey, hn, h61, h43, h45]⟩
      | some n => exact ⟨hdone _, by simp [obey, hn, h61, h43, h45]⟩

theorem Has.onChar {d : DbgFlag} {line : Bytes} (h : Has d line) {c : UInt8} (hc : c ≠ 13) :
    Has (d.onChar c) (edit line c) ∧ (d.onChar c).flags = d.flags := by
  have hlen := h.length
  have hsize := h.size
  have hin := h.inside
  unfold DbgFlag.onChar edit
  rw [if_neg hc, hlen]
  by_cases h8 : c = 8
  · rw [if_pos h8, if_pos h8]
    split
    · rename_i hpos
      refine ⟨⟨hsize, by dsimp only; omega, ?_⟩, rfl⟩
      rw [List.dropLast_eq_take, hlen, ← h.text, List.take_take, Nat.min_eq_left (Nat.sub_le _ _)]
    · rename_i h0
      have hnil : line = [] := List.length_eq_zero_iff.1 (by omega)
      rw [hnil] at h ⊢
      exact ⟨h, rfl⟩
  · rw [if_neg h8, if_neg h8]
    split
    · rename_i hroom
      refine ⟨⟨by rw [List.length_set, hsize], hroom, ?_⟩, rfl⟩
      rw [List.take_add_one, List.take_set_of_le (Nat.le_refl _), h.text, List.getElem?_set_self (by omega)]
      rfl
    · exact ⟨h, rfl⟩

/-- Keys up to a CR. -/
theorem Has.keys : ∀ {keys : Bytes} {d : DbgFlag} {line : Bytes}, Has d line → 13 ∉ keys →
    Has (d.charAvail keys) (keys.foldl edit line) ∧ (d.charAvail keys).flags = d.flags
  | [], _, _, h, _ => ⟨h, rfl⟩
  | c :: keys, d, line, h, hc => by
    obtain ⟨hne, hkeys⟩ := not_or.1 (fun hm => hc (List.mem_cons.2 hm))
    obtain ⟨h1, hf1⟩ := h.onChar (Ne.symm hne)
    obtain ⟨h2, hf2⟩ := h1.keys hkeys
    exact ⟨h2, hf2.trans hf1⟩

/-- What a line and its CR do. -/
theorem Has.line {keys : Bytes} {d : DbgFlag} (h : Has d []) (hk : 13 ∉ keys) :
    Has (d.charAvail (keys ++ [13])) [] ∧ (d.charAvail (keys ++ [13])).flags = obey d.flags (edited keys) := by
  obtain ⟨h1, hf1⟩ := h.keys hk
  obtain ⟨h2, hf2⟩ := h1.command
  have heq : d.charAvail (keys ++ [13]) = (d.charAvail keys).command := by
    rw [DbgFlag.charAvail, List.foldl_append]
    rfl
  rw [heq]
  exact ⟨h2, by rw [hf2, hf1, edited]⟩

theorem Has.lines : ∀ {lines : List Bytes} {d : DbgFlag}, Has d [] → (∀ l ∈ lines, 13 ∉ l) →
    Has (d.charAvail (lines.flatMap (· ++ [13]))) [] ∧
      (d.charAvail (lines.flatMap (· ++ [13]))).flags = lines.foldl (fun flags l => obey flags (edited l)) d.flags
  | [], _, h, _ => ⟨h, rfl⟩
  | l :: lines, d, h, hl => by
    obtain ⟨h1, hf1⟩ := h.line (hl l List.mem_cons_self)
    obtain ⟨h2, hf2⟩ := h1.lines (fun x hx => hl x (List.mem_cons_of_mem _ hx))
    have heq : d.charAvail ((l :: lines).flatMap (· ++ [13])) =
        (d.charAvail (l ++ [13])).charAvail (lines.flatMap (· ++ [13])) := by
      rw [List.flatMap_cons, DbgFlag.charAvail, List.foldl_append]
      rfl
    rw [heq]
    exact ⟨h2, by rw [hf2, hf1, List.foldl_cons]⟩

/-- **The flags are what the lines say**, edited with the backspace and cut at 32 characters, whatever is typed and in
whatever portions it arrives; a line with another character than a hex digit behind the sign changes nothing. -/
theorem flags_of_lines {buf : Bytes} (hb : buf.length = bufSize) (initFlags : UInt32) {lines : List Bytes} {rest : Bytes}
    (hl : ∀ l ∈ lines, 13 ∉ l) (hr : 13 ∉ rest) {portions : List Bytes}
    (hp : portions.flatten = lines.flatMap (· ++ [13]) ++ rest) :
    (portions.foldl DbgFlag.charAvail (enable buf initFlags)).flags =
      lines.foldl (fun flags l => obey flags (edited l)) initFlags := by
  have h0 : Has (enable buf initFlags) [] := ⟨hb, Nat.zero_le _, rfl⟩
  obtain ⟨h1, hf1⟩ := h0.lines hl
  obtain ⟨-, hf2⟩ := h1.keys hr
  have heq : portions.foldl DbgFlag.charAvail (enable buf initFlags) =
      (enable buf initFlags).charAvail portions.flatten := List.foldl_flatten.symm
  rw [heq, hp, DbgFlag.charAvail, List.foldl_append]
  exact hf2.trans hf1


/-- A number is mistyped, corrected and added; another line is no number. -/
theorem flags_of_lines_typed :
    ([[43, 49, 8], [50, 48, 13, 122], [13]].foldl DbgFlag.charAvail (enable (List.replicate bufSize 0) 1)).flags =
      [[43, 49, 8, 50, 48], [122]].foldl (fun flags l => obey flags (edited l)) 1 :=
  flags_of_lines List.length_replicate 1 (by decide) (List.not_mem_nil : (13 : UInt8) ∉ []) rfl

example : [[43, 49, 8, 50, 48], [122]].foldl (fun flags l => obey flags (edited l)) 1 = 33 := by decide

/-! ## Numbers that are typed -/

/-- A number in base 16. -/
def hexText (n : Nat) : Bytes := if n < 16 then [hexDigit n] else hexText (n / 16) ++ [hexDigit (n % 16)]

theorem hexText_digits (n : Nat) : ∀ c ∈ hexText n, ∃ v < 16, c = hexDigit v := by
  fun_induction hexText n with
  | case1 n h => exact fun c hc => ⟨n, h, List.mem_singleton.1 hc⟩
  | case2 n h ih =>
    intro c hc
    rcases List.mem_append.1 hc with hc | hc
    · exact ih c hc
    · exact ⟨n % 16, Nat.mod_lt _ (by decide), List.mem_singleton.1 hc⟩

theorem hexNumber_hexText (n : Nat) : hexNumber (hexText n) = some n := by
  fun_induction hexText n with
  | case1 n h => simp [hexNumber, hexVal_hexDigit h]
  | case2 n h ih =>
    rw [hexNumber, List.foldl_append, ← hexNumber, ih]
    simp only [List.foldl_cons, List.foldl_nil, Option.bind_some, hexVal_hexDigit (Nat.mod_lt n (by decide : 0 < 16)),
      Option.map_some]
    rw [Nat.div_add_mod']

/-- A number of fewer than `16 ^ k` has at most `k` digits. -/
theorem length_hexText : ∀ (k n : Nat), n < 16 ^ (k + 1) → (hexText n).length ≤ k + 1
  | 0, n, h => by
    rw [hexText, if_pos (by simpa using h)]
    exact Nat.le_refl 1
  | k + 1, n, h => by
    rw [hexText]
    split
    · exact Nat.succ_le_succ (Nat.zero_le _)
    · rw [List.length_append]
      exact Nat.succ_le_succ (length_hexText k (n / 16) (Nat.div_lt_of_lt_mul (by rw [← Nat.pow_succ']; exact h)))

/-- Keys that neither erase nor overflow are the line. -/
theorem foldl_edit : ∀ (keys line : Bytes), 8 ∉ keys → line.length + keys.length ≤ bufSize →
    keys.foldl edit line = line ++ keys
  | [], line, _, _ => (List.append_nil line).symm
  | c :: keys, line, h8, hlen => by
    obtain ⟨hc, hk⟩ := not_or.1 (fun hm => h8 (List.mem_cons.2 hm))
    rw [List.length_cons] at hlen
    rw [List.foldl_cons, edit, if_neg (Ne.symm hc), if_pos (by omega),
      foldl_edit keys (line ++ [c]) hk (by rw [List.length_append, List.length_singleton]; omega), List.append_assoc]
    rfl

/-- **A number that is typed is the number that is set, added or removed**, behind whatever lines. -/
theorem flags_typed {buf : Bytes} (hb : buf.length = bufSize) (initFlags n : UInt32) {lines : List Bytes}
    (hl : ∀ l ∈ lines, 13 ∉ l) :
    let before := (enable buf initFlags).charAvail (lines.flatMap (· ++ [13]))
    (before.charAvail (61 :: hexText n.toNat ++ [13])).flags = n ∧
    (before.charAvail (43 :: hexText n.toNat ++ [13])).flags = before.flags ||| n ∧
    (before.charAvail (45 :: hexText n.toNat ++ [13])).flags = before.flags &&& ~~~n := by
  have h0 : Has (enable buf initFlags) [] := ⟨hb, Nat.zero_le _, rfl⟩
  obtain ⟨h, -⟩ := h0.lines hl
  have hdigits : ∀ v < 16, hexDigit v ≠ 8 ∧ hexDigit v ≠ 13 := by decide
  have hlen := length_hexText 7 n.toNat n.toNat_lt
  have hkeys : ∀ s : UInt8, s ≠ 8 → s ≠ 13 →
      13 ∉ s :: hexText n.toNat ∧ edited (s :: hexText n.toNat) = s :: hexText n.toNat := by
    intro s h8 h13
    refine ⟨fun hm => ?_, foldl_edit _ [] (fun hm => ?_) (by rw [List.length_nil, List.length_cons, bufSize]; omega)⟩
    · rcases List.mem_cons.1 hm with rfl | hm
      · exact h13 rfl
      · obtain ⟨v, hv, heq⟩ := hexText_digits _ _ hm
        exact (hdigits v hv).2 heq.symm
    · rcases List.mem_cons.1 hm with rfl | hm
      · exact h8 rfl
      · obtain ⟨v, hv, heq⟩ := hexText_digits _ _ hm
        exact (hdigits v hv).1 heq.symm
  intro before
  have hflags : ∀ s : UInt8, s ≠ 8 → s ≠ 13 →
      (before.charAvail (s :: hexText n.toNat ++ [13])).flags = obey before.flags (s :: hexText n.toNat) := by
    intro s h8 h13
    obtain ⟨hk, he⟩ := hkeys s h8 h13
    rw [(h.line hk).2, he]
  refine ⟨?_, ?_, ?_⟩
  · rw [hflags 61 (by decide) (by decide)]
    simp [obey, hexNumber_hexText]
  · rw [hflags 43 (by decide) (by decide)]
    simp [obey, hexNumber_hexText]
  · rw [hflags 45 (by decide) (by decide)]
    simp [obey, hexNumber_hexText]

theorem flags_typed_again :
    let before := (enable (List.replicate bufSize 0) 0).charAvail ([[43, 55]].flatMap (· ++ [13]))
    (before.charAvail (61 :: hexText (40 : UInt32).toNat ++ [13])).flags = 40 ∧
    (before.charAvail (43 :: hexText (40 : UInt32).toNat ++ [13])).flags = before.flags ||| 40 ∧
    (before.charAvail (45 :: hexText (40 : UInt32).toNat ++ [13])).flags = before.flags &&& ~~~40 :=
  flags_typed List.length_replicate 0 40 (by decide)

end Dbg
end Pico
