import Picolibs.Constants
import Picolibs.WebsocketJs
/-!
# StaticFiles — the files of a program and `get_file` (`create_web_files.py`)

A file that is no text is written as an array: the characters of the header as Python shows them, and the bytes of the
file in rows of twenty.  The arrays denote the response whatever the bytes are (`array_denotes_iff`), unless the header
has an apostrophe, which Python shows in other quotes.

The constructor then enters every array under the name of its file, without the directories (`served`).
-/
namespace Pico
namespace WebFiles

open Literal (denote hexDigit isRaw Piece text value denote_open denote_text)
open Constants (At read hexItem read_blank read_start read_hexItem read_hexItems read_char read_escape read_hexChar)
open WebsocketJs (Files getFile)

/-! ## The script -/

/-- `repr(chr(c))` of an ASCII character. -/
def reprChar (c : UInt8) : Bytes :=
  if c = 0x27 then ascii "\"'\""
  else if c = 0x5c then ascii "'\\\\'"
  else if c = 0x09 then ascii "'\\t'"
  else if c = 0x0a then ascii "'\\n'"
  else if c = 0x0d then ascii "'\\r'"
  else if c < 0x20 ∨ c = 0x7f then
    ascii "'\\x" ++ [hexDigit (c.toNat / 16), hexDigit (c.toNat % 16)] ++ ascii "'"
  else ascii "'" ++ [c] ++ ascii "'"

/-- The characters of the header. -/
def headerChars (hdr : Bytes) : Bytes :=
  hdr.flatMap fun c => reprChar c ++ ascii "," ++ (if c = 0x0a then ascii "\n    " else [])

/-- `read(n)` until nothing is left. -/
def reads (n : Nat) : Nat → Bytes → List Bytes
  | 0, _ => []
  | k + 1, d => if d.isEmpty then [] else d.take n :: reads n k (d.drop n)

/-- The rows of the bytes. -/
def byteRows (d : Bytes) : Bytes :=
  (reads 20 d.length d).flatMap fun row =>
    (row.flatMap fun c => ascii "0x" ++ [hexDigit (c.toNat / 16), hexDigit (c.toNat % 16)] ++ ascii ",") ++ ascii "\n    "

/-- What is written behind `static char file1[] =` for a file that is no text. -/
def arrayInitializer (mime timestamp d : Bytes) : Bytes :=
  ascii "    \x7b\n" ++ ascii "    " ++ headerChars (header mime timestamp d.length) ++ byteRows d ++ ascii "0\x7d;\n"

structure WebFile where
  path : Bytes
  mime : Bytes
  content : Bytes
  deriving DecidableEq

/-- Which files are written as literals: `ms` is the type split at the slashes. -/
def isText (mime : Bytes) : Bool :=
  let ms0 := mime.takeWhile (· ≠ 47)
  let ms1 := ((mime.dropWhile (· ≠ 47)).drop 1).takeWhile (· ≠ 47)
  ms0 == ascii "text" || (Text.find (ascii "xml") ms1).isSome || ms1 == ascii "pem-certificate-chain"

namespace WebFile

/-- `os.path.basename`. -/
def basename (f : WebFile) : Bytes := (f.path.reverse.takeWhile (· ≠ 47)).reverse

/-- The bytes of the array but the last, `sizeof - 1` of them. -/
def data (large : Nat → Option UInt8) (timestamp : Bytes) (f : WebFile) : Option Bytes :=
  if isText f.mime then denote large .outside (initializer f.mime timestamp f.content)
  else (read .start (arrayInitializer f.mime timestamp f.content)).map List.dropLast

/-- The name between the quotes of `files_["…"]`. -/
def key (large : Nat → Option UInt8) (f : WebFile) : Option Bytes :=
  denote large .outside (ascii "\"" ++ f.basename ++ ascii "\";")

end WebFile

/-- The constructor's assignments to `files_`, a later one in front. -/
def compileFiles (large : Nat → Option UInt8) (timestamp : Bytes) (fs : List WebFile) : Option Files :=
  fs.foldlM (fun files f => do
    let k ← f.key large
    let d ← f.data large timestamp
    some ((k, d) :: files)) []

/-! ## The arrays -/

/-- A character that Python shows in the quotes of C++. -/
theorem read_reprChar {c : UInt8} (h39 : c ≠ 39) (hc : c < 128) (s : Bytes) :
    read .item (reprChar c ++ ascii "," ++ s) = (read .item s).map (c :: ·) := by
  unfold reprChar
  rw [if_neg h39]
  by_cases h92 : c = 92
  · rw [if_pos h92, h92]
    exact read_escape rfl (by decide) s
  by_cases h9 : c = 9
  · rw [if_neg h92, if_pos h9, h9]
    exact read_escape rfl (by decide) s
  by_cases h10 : c = 10
  · rw [if_neg h92, if_neg h9, if_pos h10, h10]
    exact read_escape rfl (by decide) s
  by_cases h13 : c = 13
  · rw [if_neg h92, if_neg h9, if_neg h10, if_pos h13, h13]
    exact read_escape rfl (by decide) s
  rw [if_neg h92, if_neg h9, if_neg h10, if_neg h13]
  split
  · exact read_hexChar c s
  · exact read_char h39 h92 h10 hc s

theorem read_break (c : UInt8) (s : Bytes) :
    read .item ((if c = 0x0a then ascii "\n    " else []) ++ s) = read .item s := by
  split
  · exact read_blank (by decide) s
  · rfl

theorem headerChars_cons (c : UInt8) (hdr s : Bytes) : headerChars (c :: hdr) ++ s =
    reprChar c ++ ascii "," ++ ((if c = 0x0a then ascii "\n    " else []) ++ (headerChars hdr ++ s)) := by
  simp only [headerChars, List.flatMap_cons, List.append_assoc]

theorem read_headerChars (s : Bytes) : ∀ hdr : Bytes, (∀ b ∈ hdr, b < 128) → 39 ∉ hdr →
    read .item (headerChars hdr ++ s) = (read .item s).map (hdr ++ ·)
  | [], _, _ => by simp [headerChars]
  | c :: hdr, hlow, h39 => by
    obtain ⟨hc, hh⟩ := not_or.1 (fun hm => h39 (List.mem_cons.2 hm))
    rw [headerChars_cons, read_reprChar (Ne.symm hc) (hlow c List.mem_cons_self), read_break,
      read_headerChars s hdr (fun b hb => hlow b (List.mem_cons_of_mem _ hb)) hh, Option.map_map]
    rfl

/-- An apostrophe is not read. -/
theorem read_apostrophe (s : Bytes) : ∀ hdr : Bytes, (∀ b ∈ hdr, b < 128) → 39 ∈ hdr →
    read .item (headerChars hdr ++ s) = none
  | [], _, h39 => absurd h39 List.not_mem_nil
  | c :: hdr, hlow, h39 => by
    rw [headerChars_cons]
    by_cases hc : c = 39
    · rw [hc]
      rfl
    · have hh : 39 ∈ hdr := (List.mem_cons.1 h39).resolve_left (Ne.symm hc)
      rw [read_reprChar hc (hlow c List.mem_cons_self), read_break,
        read_apostrophe s hdr (fun b hb => hlow b (List.mem_cons_of_mem _ hb)) hh]
      rfl

theorem flatten_reads {n : Nat} (hn : 0 < n) : ∀ (k : Nat) (d : Bytes), d.length ≤ k → (reads n k d).flatten = d
  | 0, d, h => (List.length_eq_zero_iff.1 (Nat.le_zero.1 h)).symm
  | k + 1, [], _ => rfl
  | k + 1, b :: d, h => by
    have hdrop : ((b :: d).drop n).length ≤ k := by
      rw [List.length_drop, List.length_cons] at *
      omega
    rw [reads, List.isEmpty_cons, if_neg Bool.false_ne_true, List.flatten_cons, flatten_reads hn k _ hdrop,
      List.take_append_drop]

theorem read_rows (s : Bytes) : ∀ rows : List Bytes,
    read .item (rows.flatMap (fun row => row.flatMap hexItem ++ ascii "\n    ") ++ s) =
      (read .item s).map (rows.flatten ++ ·)
  | [] => by simp
  | row :: rows => by
    rw [List.flatMap_cons, List.append_assoc, List.append_assoc, read_hexItems, read_blank (by decide), read_rows s rows,
      Option.map_map, List.flatten_cons]
    congr 1
    funext k
    exact (List.append_assoc row rows.flatten k).symm

/-- The bytes of the file are read back. -/
theorem read_byteRows (d s : Bytes) : read .item (byteRows d ++ s) = (read .item s).map (d ++ ·) := by
  have h := read_rows s (reads 20 d.length d)
  rw [flatten_reads (by decide) d.length d (Nat.le_refl _)] at h
  exact h

theorem read_arrayInitializer (mime timestamp d : Bytes) : read .start (arrayInitializer mime timestamp d) =
    read .item (headerChars (header mime timestamp d.length) ++ (byteRows d ++ ascii "0\x7d;\n")) := by
  have h : arrayInitializer mime timestamp d = [32, 32, 32, 32] ++ 123 :: ([10, 32, 32, 32, 32] ++
      (headerChars (header mime timestamp d.length) ++ (byteRows d ++ ascii "0\x7d;\n"))) := by
    simp only [arrayInitializer, List.append_assoc]
    rfl
  rw [h, read_start (by decide), read_blank (by decide)]

theorem header_low {mime timestamp : Bytes} (hm : Printable mime) (ht : Printable timestamp) (size : Nat) :
    ∀ b ∈ header mime timestamp size, b < 128 :=
  (clean_of_plain (header_plain hm ht size)).1

theorem mem_header {mime timestamp : Bytes} {size : Nat} :
    39 ∈ header mime timestamp size ↔ 39 ∈ mime ∨ 39 ∈ timestamp := by
  have hd : 39 ∉ Http.digits size := by
    intro h
    have hdigit := List.all_eq_true.1 (Http.digits_isDigit size) 39 h
    cases hdigit
  have h1 : (39 : UInt8) ∉ ascii "HTTP/1.1 200 OK\r\nContent-Type: " := by decide
  have h2 : (39 : UInt8) ∉ ascii "\r\nContent-Length: " := by decide
  have h3 : (39 : UInt8) ∉ ascii "\r\nConnection: keep-alive\r\n" := by decide
  have h4 : (39 : UInt8) ∉ ascii "Cache-Control: max-age=86400\r\nLast-Modified: " := by decide
  have h5 : (39 : UInt8) ∉ ascii "\r\n\r\n" := by decide
  simp only [header, List.mem_append, hd, h1, h2, h3, h4, h5, or_false, false_or]

theorem read_array {mime timestamp : Bytes} (hm : Printable mime) (ht : Printable timestamp)
    (h : 39 ∉ mime ∧ 39 ∉ timestamp) (d : Bytes) :
    read .start (arrayInitializer mime timestamp d) = some (header mime timestamp d.length ++ d ++ [0]) := by
  rw [read_arrayInitializer, read_headerChars _ _ (header_low hm ht d.length)
    (fun h39 => not_or.2 h (mem_header.1 h39)), read_byteRows]
  exact congrArg some (List.append_assoc _ _ _).symm

/-- **An array denotes the response, whatever the bytes of the file are**, if and only if there is no apostrophe in
what the header says. -/
theorem array_denotes_iff {mime timestamp : Bytes} (hm : Printable mime) (ht : Printable timestamp) (d : Bytes) :
    read .start (arrayInitializer mime timestamp d) = some (header mime timestamp d.length ++ d ++ [0]) ↔
      39 ∉ mime ∧ 39 ∉ timestamp := by
  refine ⟨fun h => ?_, fun h => read_array hm ht h d⟩
  rw [← not_or]
  intro h39
  have hmem : 39 ∈ header mime timestamp d.length := mem_header.2 h39
  rw [read_arrayInitializer, read_apostrophe _ _ (header_low hm ht d.length) hmem] at h
  cases h

theorem array_denotes_iff_icon :
    read .start (arrayInitializer (ascii "image/x-icon") (ascii "GMT") (List.replicate 21 200)) =
      some (header (ascii "image/x-icon") (ascii "GMT") 21 ++ List.replicate 21 200 ++ [0]) :=
  (array_denotes_iff (by decide) (by decide) _).2 (by decide)

/-! ## The files of the program -/

namespace WebFile

/-- The response that the file is to be sent as. -/
def response (timestamp : Bytes) (f : WebFile) : Bytes := header f.mime timestamp f.content.length ++ f.content

/-- What the script can do with: a type without an apostrophe, a name that may stand in quotes, and a text that its
literals denote. -/
structure Fine (f : WebFile) : Prop where
  mime : Printable f.mime ∧ 39 ∉ f.mime
  name : ∀ b ∈ f.basename, isRaw b = true
  text : isText f.mime = true → Clean f.content

variable {large : Nat → Option UInt8} {timestamp : Bytes}

theorem value_plain (k : Option Bytes) : ∀ name : Bytes, (∀ b ∈ name, isRaw b = true) →
    value large none (name.map rawPiece) k = k.map (name ++ ·)
  | [], _ => by
    cases k with
    | none => rfl
    | some k => rfl
  | c :: name, h => by
    have hc := h c List.mem_cons_self
    have ih := value_plain k name fun b hb => h b (List.mem_cons_of_mem _ hb)
    rw [List.map_cons, rawPiece, dif_pos hc, Literal.value_raw rfl, ih, Option.map_map]
    rfl

theorem key_eq {f : WebFile} (h : f.Fine) : f.key large = some f.basename := by
  have htext : text (f.basename.map rawPiece) = f.basename := by
    rw [text, List.flatMap_map]
    exact (List.flatMap_congr fun b hb => rawPiece_text (h.name b hb)).trans (List.flatMap_singleton' _)
  have hq : f.key large = denote large .outside (34 :: (text (f.basename.map rawPiece) ++ 34 :: [59])) := by
    rw [key, htext]
    simp only [List.append_assoc]
    rfl
  rw [hq, denote_open, denote_text, value_plain _ _ h.name]
  exact congrArg some (List.append_nil _)

theorem data_eq {f : WebFile} (h : f.Fine) (ht : Printable timestamp ∧ 39 ∉ timestamp) :
    f.data large timestamp = some (f.response timestamp) := by
  rw [data]
  split
  · next htext =>
    rw [initializer, denote_textLine, denote_fileLines, value_of_clean (h.text htext),
      value_of_clean (clean_of_plain (header_plain h.mime.1 ht.1 f.content.length)), Option.map_some, Option.map_some,
      List.append_nil]
    rfl
  · rw [read_array h.mime.1 ht.1 ⟨h.mime.2, ht.2⟩, Option.map_some, List.dropLast_concat]
    rfl

end WebFile

/-- The last file of a name. -/
def lastNamed (fs : List WebFile) (name : Bytes) : Option WebFile := fs.reverse.find? (·.basename == name)

theorem compileFiles_concat (large : Nat → Option UInt8) (timestamp : Bytes) (fs : List WebFile) (f : WebFile) :
    compileFiles large timestamp (fs ++ [f]) = (compileFiles large timestamp fs).bind fun files =>
      (f.key large).bind fun k => (f.data large timestamp).bind fun d => some ((k, d) :: files) := by
  rw [compileFiles, List.foldlM_append]
  simp only [List.foldlM_cons, List.foldlM_nil, bind_pure]
  rfl

theorem compileFiles_lookup {timestamp : Bytes} (ht : Printable timestamp ∧ 39 ∉ timestamp)
    (large : Nat → Option UInt8) (fs : List WebFile) (h : ∀ f ∈ fs, f.Fine) :
    ∃ files, compileFiles large timestamp fs = some files ∧
      ∀ name, files.lookup name = (lastNamed fs name).map (·.response timestamp) := by
  induction fs using List.reverseRecOn with
  | nil => exact ⟨[], rfl, fun _ => rfl⟩
  | append_singleton fs f ih =>
    obtain ⟨files, hfiles, hlook⟩ := ih fun x hx => h x (List.mem_append_left _ hx)
    have hf := h f (List.mem_append_right _ List.mem_cons_self)
    refine ⟨(f.basename, f.response timestamp) :: files, ?_, fun name => ?_⟩
    · rw [compileFiles_concat, hfiles, Option.bind_some, WebFile.key_eq hf, Option.bind_some, WebFile.data_eq hf ht]
      rfl
    · rw [lastNamed, List.reverse_append, List.reverse_singleton, List.singleton_append, List.find?_cons,
        List.lookup_cons]
      by_cases hname : f.basename = name
      · simp [hname]
      · have h1 : (name == f.basename) = false := by simpa using Ne.symm hname
        have h2 : (f.basename == name) = false := by simpa using hname
        rw [h1, h2]
        exact hlook name

/-- **What `get_file` gives** of the files that the script was run on: of the last one of the name its whole response,
which is cut where the length does not go into 16 bits. -/
theorem served {timestamp : Bytes} (ht : Printable timestamp ∧ 39 ∉ timestamp) (large : Nat → Option UInt8)
    {fs : List WebFile} (h : ∀ f ∈ fs, f.Fine) : ∃ files, compileFiles large timestamp fs = some files ∧
      ∀ name, (getFile files name = none ↔ ∀ f ∈ fs, f.basename ≠ name) ∧
        ∀ data datalen, getFile files name = some (data, datalen) → ∃ f, lastNamed fs name = some f ∧
          data = f.response timestamp ∧ (data.take datalen = f.response timestamp ↔
            (f.response timestamp).length < 65536) := by
  obtain ⟨files, hfiles, hlook⟩ := compileFiles_lookup ht large fs h
  refine ⟨files, hfiles, fun name => ⟨?_, fun data datalen hget => ?_⟩⟩
  · rw [getFile, hlook, Option.map_eq_none_iff, Option.map_eq_none_iff, lastNamed, List.find?_eq_none]
    simp
  · rw [getFile, hlook, Option.map_map] at hget
    obtain ⟨f, hf, heq⟩ := Option.map_eq_some_iff.1 hget
    obtain ⟨rfl, rfl⟩ := Prod.mk.inj heq
    refine ⟨f, hf, rfl, ?_⟩
    have hmod := Nat.mod_lt (f.response timestamp).length (by decide : 0 < 65536)
    constructor
    · intro htake
      have hlen := congrArg List.length htake
      rw [List.length_take] at hlen
      exact Nat.lt_of_le_of_lt (Nat.le_of_eq (hlen.symm.trans (Nat.min_eq_left (Nat.mod_le _ _)))) hmod
    · intro hlt
      exact List.take_of_length_le (Nat.le_of_eq (Nat.mod_eq_of_lt hlt).symm)

instance (f : WebFile) : Decidable f.Fine :=
  decidable_of_iff ((Printable f.mime ∧ 39 ∉ f.mime) ∧ f.basename.all isRaw = true ∧
    (isText f.mime = true → Clean f.content))
    ⟨fun h => ⟨h.1, List.all_eq_true.1 h.2.1, h.2.2⟩, fun h => ⟨h.mime, List.all_eq_true.2 h.name, h.text⟩⟩

/-- A page, an icon, and a later page of the same name. -/
def siteFiles : List WebFile :=
  [⟨ascii "data/index.html", ascii "text/html", ascii "<p>\n"⟩, ⟨ascii "icon.ico", ascii "image/x-icon", [0, 39, 255]⟩,
    ⟨ascii "new/index.html", ascii "text/html", ascii "<b>\n"⟩]

theorem served_site : ∃ files, compileFiles (fun _ => none) (ascii "GMT") siteFiles = some files ∧
    ∀ name, (getFile files name = none ↔ ∀ f ∈ siteFiles, f.basename ≠ name) ∧
      ∀ data datalen, getFile files name = some (data, datalen) → ∃ f, lastNamed siteFiles name = some f ∧
        data = f.response (ascii "GMT") ∧ (data.take datalen = f.response (ascii "GMT") ↔
          (f.response (ascii "GMT")).length < 65536) :=
  served (by decide) _ (by decide +kernel)

end WebFiles
end Pico
