import Picolibs.JsonPairs
import Picolibs.Text
/-!
# JsonMap — JSON documents of any depth, and objects written from a map (`jsonmap.cpp`)

`itemCount` estimates how many values `tiny-json` needs room for; `load` allocates one more.  `quoted` is never set, so
that the scan takes the commas and brackets inside strings for real ones and ends where they are balanced: `stop` is
where it ends, and what it leaves unseen may be worth more than what it saw too many (`itemCount_room_iff`).

`fromMap` writes keys and values between quotes as they are.  What `itemCount` prints is left out, and with it the white
space it skips behind the end of the scan.
-/
namespace Pico
namespace JSONMap

open Json

/-- The loop of `itemCount`; `prev` is `str[-1]`. -/
def itemLoop : Bytes → UInt8 → Nat → Bool → Nat → Nat
  | [], _, _, _, ret => ret
  | c :: str, prev, depth, quoted, ret =>
    if c = 0 ∨ depth = 0 then ret
    else if !quoted && (c == 123 || c == 91) then itemLoop str c (depth + 1) quoted (ret + 1)
    else if !quoted && (c == 125 || c == 93) then itemLoop str c (depth - 1) quoted ret
    else if !quoted && c == 44 then itemLoop str c depth quoted (ret + 1)
    -- `quoted == true;` compares and changes nothing
    else if !quoted && c == 34 then itemLoop str c depth quoted ret
    else if quoted && c == 34 then itemLoop str c depth (if prev ≠ 92 then false else quoted) ret
    else itemLoop str c depth quoted ret

def itemCount (jsonstr : Bytes) : Nat :=
  match jsonstr with
  | [] => 0
  | startchar :: str => if startchar = 123 ∨ startchar = 91 then itemLoop str startchar 1 false 2 else 0

/-- `load`, with the result and `json_`.  `json_create` gets the text and the size of the array. -/
def load {J : Type} (json_create : Bytes → Nat → Option J) (data : Bytes) : Bool × Option J :=
  let jsz := itemCount data + 1
  match json_create data jsz with
  | some json => (true, some json)
  | none => (false, json_create (ascii "\x7b\x7d") jsz)

/-- `std::map`, in the order of its keys. -/
structure JMAP where
  entries : List (Bytes × Bytes)
  sorted : entries.Pairwise fun a b => a.1 < b.1

def fromMapLoop : List (Bytes × Bytes) → Bytes → Bytes → Bytes
  | [], _, str => str
  | it :: rest, sep, str =>
    fromMapLoop rest (ascii ",\"") (str ++ (sep ++ it.1 ++ ascii "\":\"" ++ it.2 ++ ascii "\""))

def fromMap (jmap : JMAP) : Bool × Bytes :=
  if jmap.entries.length > 0 then (true, fromMapLoop jmap.entries (ascii "\x7b\"") [] ++ ascii "\x7d")
  else (false, [])

/-! ## `itemCount` -/

theorem itemLoop_cons {c : UInt8} (hc : c ≠ 0) (str : Bytes) (prev : UInt8) (d ret : Nat) :
    itemLoop (c :: str) prev (d + 1) false ret =
      itemLoop str c (if opens c then d + 2 else if closes c then d else d + 1) false
        (ret + if separates c then 1 else 0) := by
  have ho : (!false && (c == 123 || c == 91)) = opens c := rfl
  have hcl : (!false && (c == 125 || c == 93)) = closes c := rfl
  rw [itemLoop, if_neg (by simp [hc]), ho, hcl, separates]
  by_cases h1 : opens c
  · rw [if_pos h1, if_pos h1, h1, Bool.or_true, if_pos rfl]
  · rw [Bool.not_eq_true] at h1
    rw [h1, if_neg Bool.false_ne_true, if_neg Bool.false_ne_true, Bool.or_false]
    by_cases h2 : closes c
    · have h44 : (c == 44) = false := by
        rw [beq_eq_false_iff_ne]
        rintro rfl
        cases h2
      rw [if_pos h2, if_pos h2, h44, if_neg Bool.false_ne_true]
      rfl
    · rw [if_neg h2, if_neg h2, Bool.not_false, Bool.true_and]
      by_cases h3 : c == 44
      · rw [if_pos h3, if_pos h3]
      · rw [if_neg h3, if_neg h3, Bool.false_and, if_neg Bool.false_ne_true, ite_self]
        rfl

/-- The scan counts every comma and opening bracket up to where it ends. -/
theorem itemLoop_eq : ∀ (l : Marked) (prev : UInt8) (d ret : Nat), 0 ∉ unmark l →
    itemLoop (unmark l) prev d false ret = ret + (cut d l).1.countP fun p => separates p.2
  | [], prev, d, ret, _ => by cases d <;> rfl
  | p :: l, prev, 0, ret, _ => by
    rw [unmark, List.map_cons, itemLoop, if_pos (Or.inr rfl)]
    rfl
  | p :: l, prev, d + 1, ret, h => by
    rw [unmark, List.map_cons, ← unmark, List.mem_cons, not_or] at h
    rw [unmark, List.map_cons, ← unmark, itemLoop_cons (Ne.symm h.1), itemLoop_eq l _ _ _ h.2, cut, List.countP_cons,
      Nat.add_assoc, Nat.add_comm (ite _ _ _)]

/-- A text up to where the scan ends, and what is behind it. -/
def stop : Marked → Marked × Marked
  | [] => ([], [])
  | p :: l => (p :: (cut 1 l).1, (cut 1 l).2)

/-- A document and the white space behind it. -/
def document (v : Value) (ws : Ws) : Marked := v.marked ++ mark .plain ws.text

/-- Behind the end of the scan, there is at most one more separator than the scan saw commas and opening brackets that
are none. -/
def Roomy (v : Value) (ws : Ws) : Prop :=
  separators (stop (document v ws)).2 ≤ 1 + lookalikes (stop (document v ws)).1

instance (v : Value) (ws : Ws) : Decidable (Roomy v ws) := inferInstanceAs (Decidable (_ ≤ _))

theorem stop_append (l : Marked) : (stop l).1 ++ (stop l).2 = l := by
  cases l with
  | nil => rfl
  | cons p l => rw [stop, List.cons_append, cut_append]

theorem unmark_document (v : Value) (ws : Ws) : unmark (document v ws) = v.text ++ ws.text := by
  rw [document, unmark_append, unmark_mark, Value.text]

theorem zero_notMem_document (v : Value) (ws : Ws) : 0 ∉ unmark (document v ws) := by
  rw [unmark_document, List.mem_append, not_or]
  exact ⟨zero_notMem v, zero_notMem_ws ws⟩

theorem itemCount_eq {p : Role × UInt8} {l : Marked} (hp : p.2 = 123 ∨ p.2 = 91) (h : 0 ∉ unmark (p :: l)) :
    itemCount (unmark (p :: l)) + 1 = 2 + (stop (p :: l)).1.countP fun q => separates q.2 := by
  have hsep : separates p.2 := by rcases hp with hp | hp <;> rw [hp] <;> rfl
  rw [unmark, List.map_cons, ← unmark, List.mem_cons, not_or] at h
  rw [unmark, List.map_cons, ← unmark, itemCount, if_pos hp, itemLoop_eq l _ _ _ h.2, stop, List.countP_cons,
    if_pos hsep]
  omega

theorem itemCount_document {v : Value} {ws : Ws} (h : v.text.head? = some 123 ∨ v.text.head? = some 91) :
    itemCount (v.text ++ ws.text) + 1 =
      2 + (separators (stop (document v ws)).1 + lookalikes (stop (document v ws)).1) := by
  rw [separators_add_lookalikes, ← unmark_document]
  have hnul := zero_notMem_document v ws
  have hhead : (document v ws).head?.map Prod.snd = v.text.head? := by
    rw [document, Value.text, unmark, List.head?_map]
    cases hv : v.marked with
    | nil => rw [Value.text, hv] at h; rcases h with h | h <;> cases h
    | cons p l => rfl
  cases hd : document v ws with
  | nil => rw [← hhead, hd] at h; rcases h with h | h <;> cases h
  | cons p l =>
    rw [← hhead, hd] at h
    rw [hd] at hnul
    exact itemCount_eq (h.imp Option.some.inj Option.some.inj) hnul

theorem count_document (v : Value) (ws : Ws) :
    v.count = 1 + (separators (stop (document v ws)).1 + separators (stop (document v ws)).2) := by
  rw [← separators_append, stop_append, document, separators_append, separators_ws, count_eq]
  rfl

theorem count_le_iff {v : Value} {ws : Ws} (h : v.text.head? = some 123 ∨ v.text.head? = some 91) :
    v.count ≤ itemCount (v.text ++ ws.text) + 1 ↔ Roomy v ws := by
  rw [itemCount_document h, count_document v ws, Roomy]
  omega

theorem stop_bracketed {l : Marked} (hl : Level l) (p : Role × UInt8) {q : Role × UInt8} (hq : opens q.2 = false)
    (hq' : closes q.2) (r : Marked) : stop (p :: (l ++ [q]) ++ r) = (p :: (l ++ [q]), r) := by
  rw [List.cons_append, stop, List.append_assoc, hl 0, List.singleton_append, cut, hq, if_neg Bool.false_ne_true,
    if_pos hq', cut]

/-- **Where no string has a bracket, the scan sees the whole document.** -/
theorem roomy_of_plainText {v : Value} (ws : Ws) (h : PlainText v.marked)
    (hstart : v.text.head? = some 123 ∨ v.text.head? = some 91) : Roomy v ws := by
  have key : ∀ {p q : Role × UInt8} {l : Marked}, Level l → opens q.2 = false → closes q.2 →
      v.marked = p :: (l ++ [q]) → Roomy v ws := by
    intro p q l hl hq hq' hv
    rw [Roomy, document, hv, stop_bracketed hl p hq hq', separators_ws]
    exact Nat.zero_le _
  cases v with
  | emptyArr w => exact key (level_ws w) rfl rfl rfl
  | emptyObj w => exact key (level_ws w) rfl rfl rfl
  | arr es =>
    rw [Value.marked, plainText_append, plainText_append] at h
    exact key (level_elems es h.1.2) rfl rfl rfl
  | obj ms =>
    rw [Value.marked, plainText_append, plainText_append] at h
    exact key (level_members ms h.1.2) rfl rfl rfl
  | num n =>
    have hnum : ∀ c, (Value.num n).text.head? = some c → isNumeral c := fun c hc => by
      obtain ⟨t, ht⟩ := List.head?_eq_some_iff.1 hc
      have htext : (Value.num n).text ++ [] = c :: t := by rw [List.append_nil, ht]
      exact num_inv htext
    exact absurd (hstart.imp (hnum _) (hnum _)) (by decide)
  | _ => exact absurd hstart (by simp [Value.text, Value.marked, markStr, unmark, mark])

/-- **The array that `load` allocates**: it has room for every value of a document, and a `tiny-json` that needs one
element for each accepts the document, if and only if what is behind the end of the scan has at most one more separator
than the scan saw commas and opening brackets in strings and empty containers. -/
theorem itemCount_room_iff (v : Value) (ws : Ws) (hstart : v.text.head? = some 123 ∨ v.text.head? = some 91) :
    (v.count ≤ itemCount (v.text ++ ws.text) + 1 ↔ Roomy v ws) ∧
    ∀ {J : Type} (json_create : Bytes → Nat → Option J),
      (∀ n, (json_create (v.text ++ ws.text) n).isSome ↔ v.count ≤ n) →
      ((load json_create (v.text ++ ws.text)).1 ↔ Roomy v ws) := by
  refine ⟨count_le_iff hstart, fun json_create hcreate => ?_⟩
  rw [← count_le_iff hstart, ← hcreate, load]
  cases json_create (v.text ++ ws.text) (itemCount (v.text ++ ws.text) + 1) <;> rfl

theorem itemCount_room_zero :
    (Value.arr (.last [] (.num ⟨false, .zero, none, none⟩) [])).count ≤ itemCount [91, 48, 93, 32] + 1 ∧
      (load (fun _ n => if 2 ≤ n then some () else none) [91, 48, 93, 32]).1 :=
  have h := itemCount_room_iff (.arr (.last [] (.num ⟨false, .zero, none, none⟩) [])) [.space] (Or.inr rfl)
  ⟨h.1.2 (by decide), (h.2 (fun _ n => if 2 ≤ n then some () else none) (fun n => by
    by_cases hn : 2 ≤ n <;> simp [hn, Value.count, Elems.count])).2 (by decide)⟩

/-- `["]",1,1,1]`: the scan ends in the string. -/
theorem itemCount_short : ¬ ∀ (v : Value) (ws : Ws), v.text.head? = some 123 ∨ v.text.head? = some 91 →
    v.count ≤ itemCount (v.text ++ ws.text) + 1 := by
  intro h
  let string : Value := .str [.raw ⟨93, rfl⟩]
  let one : Value := .num ⟨false, .digits ⟨49, by decide⟩ [], none, none⟩
  exact absurd (h (.arr (.cons [] string [] (.cons [] one [] (.cons [] one [] (.last [] one []))))) [] (Or.inr rfl))
    (by decide)

/-! ## `fromMap` -/

theorem fromMapLoop_eq : ∀ (l : List (Bytes × Bytes)) (str : Bytes),
    fromMapLoop l (ascii ",\"") str ++ [125] = str ++ others l
  | [], str => rfl
  | it :: l, str => by
    rw [fromMapLoop, fromMapLoop_eq l, others, member]
    simp [ascii]

theorem fromMap_eq {jmap : JMAP} (hne : jmap.entries ≠ []) : fromMap jmap = (true, compact jmap.entries) := by
  rw [fromMap, if_pos (List.length_pos_iff.2 hne)]
  obtain ⟨it, l, hl⟩ := List.exists_cons_of_ne_nil hne
  rw [hl, fromMapLoop, show ascii "\x7d" = [125] from rfl, fromMapLoop_eq, compact, member]
  simp [ascii]

/-- **`fromMap` writes a JSON object with just the pairs of the map** if and only if no key and no value has a quote, a
backslash or a control character. -/
theorem fromMap_says_iff (jmap : JMAP) (hne : jmap.entries ≠ []) :
    (fromMap jmap).1 = true ∧ (Says (fromMap jmap).2 jmap.entries ↔ ∀ it ∈ jmap.entries, Raw it) := by
  rw [fromMap_eq hne]
  exact ⟨rfl, says_compact_iff hne⟩

theorem fromMap_says_ssid :
    Says (fromMap ⟨[(ascii "ip", ascii "10.0.0.1"), (ascii "ssid", ascii "home")], by decide⟩).2
      [(ascii "ip", ascii "10.0.0.1"), (ascii "ssid", ascii "home")] :=
  (fromMap_says_iff ⟨[(ascii "ip", ascii "10.0.0.1"), (ascii "ssid", ascii "home")], by decide⟩ (by simp)).2.2
    (by decide)

/-- A password with a quote in it ends the string. -/
theorem fromMap_quote : ¬ ∀ jmap : JMAP, jmap.entries ≠ [] → (∀ it ∈ jmap.entries, 0 ∉ it.1 ∧ 0 ∉ it.2) →
    Says (fromMap jmap).2 jmap.entries := by
  intro h
  have hsays := h ⟨[(ascii "pw", ascii "a\"b")], by decide⟩ (by simp) (by decide)
  rw [fromMap_eq (by simp), says_compact_iff (by simp)] at hsays
  exact absurd hsays (by decide)

end JSONMap
end Pico
