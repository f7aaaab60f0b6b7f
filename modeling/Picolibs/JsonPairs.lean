import Mathlib.Algebra.BigOperators.Group.List.Basic
import Mathlib.Algebra.GroupWithZero.Nat
import Mathlib.Data.List.Perm.Basic
import Picolibs.Json
/-!
# JsonPairs — what a JSON object of strings says

A small theory that names nothing of the repository.

`decode` is what a string says and `pairs` are the members of an object.  `compact` writes keys and values as they are
between quotes: the text is an object that says just these pairs if and only if every byte may stand in a string as it
is (`says_compact_iff`).  An escape is longer than what it says, so that a text of this length has no room for one.
-/
namespace Pico
namespace Json

/-! ## What a text says -/

def hexValue (c : HexDigit) : Nat :=
  if c.1 ≤ 57 then c.1.toNat - 48 else if c.1 ≤ 70 then c.1.toNat - 55 else c.1.toNat - 87

def codeUnit (a b c d : HexDigit) : Nat := ((hexValue a * 16 + hexValue b) * 16 + hexValue c) * 16 + hexValue d

def utf8 (n : Nat) : List UInt8 :=
  if n < 0x80 then [n.toUInt8]
  else if n < 0x800 then [(0xC0 + n / 0x40).toUInt8, (0x80 + n % 0x40).toUInt8]
  else if n < 0x10000 then
    [(0xE0 + n / 0x1000).toUInt8, (0x80 + n / 0x40 % 0x40).toUInt8, (0x80 + n % 0x40).toUInt8]
  else
    [(0xF0 + n / 0x40000).toUInt8, (0x80 + n / 0x1000 % 0x40).toUInt8, (0x80 + n / 0x40 % 0x40).toUInt8,
      (0x80 + n % 0x40).toUInt8]

def isHigh (u : Nat) : Bool := 0xD800 ≤ u && u < 0xDC00

def isLow (u : Nat) : Bool := 0xDC00 ≤ u && u < 0xE000

/-- What a string says.  Two `\u` escapes may be one character together; half of such a pair is U+FFFD. -/
def decode : List Piece → List UInt8
  | [] => []
  | .raw c :: s => c.1 :: decode s
  | .esc e :: s => e.byte :: decode s
  | .unit a b c d :: .unit a' b' c' d' :: s =>
    let u := codeUnit a b c d
    let u' := codeUnit a' b' c' d'
    if isHigh u && isLow u' then utf8 (0x10000 + (u - 0xD800) * 0x400 + (u' - 0xDC00)) ++ decode s
    else utf8 (if isHigh u || isLow u then 0xFFFD else u) ++ decode (.unit a' b' c' d' :: s)
  | .unit a b c d :: s =>
    let u := codeUnit a b c d
    utf8 (if isHigh u || isLow u then 0xFFFD else u) ++ decode s

def Value.string : Value → Option (List UInt8)
  | .str s => some (decode s)
  | _ => none

/-- The members of an object: a key and, where the value is a string, what it says. -/
def Members.pairs : Members → List (List UInt8 × Option (List UInt8))
  | .last _ key _ _ v _ => [(decode key, v.string)]
  | .cons _ key _ _ v _ ms => (decode key, v.string) :: ms.pairs

/-- A text read as a value, with white space around it. -/
def Reads (t : List UInt8) (v : Value) : Prop := ∃ w w' : Ws, t = w.text ++ v.text ++ w'.text

/-- A key and a value between quotes, in front of `rest`. -/
def member (p : List UInt8 × List UInt8) (rest : List UInt8) : List UInt8 :=
  34 :: (p.1 ++ 34 :: 58 :: 34 :: (p.2 ++ 34 :: rest))

/-- The other members, each behind a comma, and the closing bracket. -/
def others : List (List UInt8 × List UInt8) → List UInt8
  | [] => [125]
  | p :: l => 44 :: member p (others l)

/-- The object of some keys and values, with no white space and no escapes. -/
def compact : List (List UInt8 × List UInt8) → List UInt8
  | [] => [123, 125]
  | p :: l => 123 :: member p (others l)

/-- A key and a value whose bytes may all stand in a string as they are. -/
def Raw (p : List UInt8 × List UInt8) : Prop := (∀ c ∈ p.1, isRaw c) ∧ ∀ c ∈ p.2, isRaw c

instance (p : List UInt8 × List UInt8) : Decidable (Raw p) :=
  decidable_of_iff (p.1.all isRaw ∧ p.2.all isRaw) (by rw [List.all_eq_true, List.all_eq_true, Raw])

/-- A text is a JSON object, and every reading of it has just these members. -/
def Says (t : List UInt8) (l : List (List UInt8 × List UInt8)) : Prop :=
  (∃ v, Reads t v) ∧ ∀ v, Reads t v → ∃ ms, v = .obj ms ∧ ms.pairs.Perm (l.map fun p => (p.1, some p.2))

/-! ## No room for an escape -/

theorem length_utf8_le (n : Nat) : (utf8 n).length ≤ 4 := by
  unfold utf8
  split_ifs <;> simp

theorem length_unit (a b c d : HexDigit) : (Piece.unit a b c d).text.length = 6 := rfl

theorem body_cons (p : Piece) (s : List Piece) : body (p :: s) = p.text ++ body s := List.flatMap_cons

/-- What a string says is not longer than its text, and as long only where nothing is escaped. -/
theorem decode_length : ∀ s : List Piece, (decode s).length ≤ (body s).length ∧
    ((body s).length ≤ (decode s).length → ∀ c ∈ decode s, isRaw c)
  | [] => ⟨Nat.le_refl _, fun _ => List.forall_mem_nil _⟩
  | .raw c :: s => by
    obtain ⟨hle, hraw⟩ := decode_length s
    rw [decode, body_cons, Piece.text, List.length_cons, List.length_append, List.length_singleton]
    refine ⟨by omega, fun h => List.forall_mem_cons.2 ⟨c.2, hraw (by omega)⟩⟩
  | .esc e :: s => by
    obtain ⟨hle, -⟩ := decode_length s
    rw [decode, body_cons, Piece.text, List.length_cons, List.length_append, List.length_cons, List.length_singleton]
    exact ⟨by omega, fun h => absurd h (by omega)⟩
  | .unit a b c d :: s => by
    have hs := decode_length s
    have key : (decode (.unit a b c d :: s)).length < (body (.unit a b c d :: s)).length := by
      have hone : ∀ n, (utf8 n ++ decode s).length < 6 + (body s).length := fun n => by
        rw [List.length_append]
        have := length_utf8_le n
        omega
      rw [body_cons, List.length_append, length_unit]
      cases s with
      | nil => exact hone _
      | cons p s =>
        cases p with
        | raw => exact hone _
        | esc => exact hone _
        | unit a' b' c' d' =>
          rw [decode]
          split_ifs
          · have := length_utf8_le (0x10000 + (codeUnit a b c d - 0xD800) * 0x400 + (codeUnit a' b' c' d' - 0xDC00))
            have := (decode_length s).1
            rw [List.length_append, body_cons, List.length_append, length_unit]
            omega
          · exact hone _
          · exact hone _
    exact ⟨Nat.le_of_lt key, fun h => absurd h (Nat.not_le.2 key)⟩

theorem length_str (s : List Piece) : (unmark (markStr s)).length = (body s).length + 2 := by
  simp [markStr]

theorem string_eq_some : ∀ {v : Value} {x : List UInt8}, v.string = some x → ∃ s, v = .str s ∧ x = decode s
  | .str s, _, rfl => ⟨s, rfl, rfl⟩

/-- The room a member takes at least, with the comma or bracket behind it. -/
def room (p : List UInt8 × Option (List UInt8)) : Nat := p.1.length + (p.2.getD []).length + 6

theorem member_room (key : List Piece) {v : Value} (hv : v.string.isSome) :
    room (decode key, v.string) ≤ (unmark (markStr key)).length + 1 + v.text.length + 1 ∧
      ((unmark (markStr key)).length + 1 + v.text.length + 1 ≤ room (decode key, v.string) →
        (∀ c ∈ decode key, isRaw c) ∧ ∀ c ∈ v.string.getD [], isRaw c) := by
  obtain ⟨x, hx⟩ := Option.isSome_iff_exists.1 hv
  obtain ⟨s, rfl, rfl⟩ := string_eq_some hx
  obtain ⟨hk, hkraw⟩ := decode_length key
  obtain ⟨hs, hsraw⟩ := decode_length s
  rw [Value.text, Value.marked, length_str, length_str, hx, Option.getD_some]
  have hroom : room (decode key, some (decode s)) = (decode key).length + (decode s).length + 6 := rfl
  exact ⟨by omega, fun h => ⟨hkraw (by omega), hsraw (by omega)⟩⟩

theorem members_room : ∀ ms : Members, (∀ p ∈ ms.pairs, p.2.isSome) →
    (ms.pairs.map room).sum ≤ ms.text.length + 1 ∧ (ms.text.length + 1 ≤ (ms.pairs.map room).sum →
      ∀ p ∈ ms.pairs, (∀ c ∈ p.1, isRaw c) ∧ ∀ c ∈ p.2.getD [], isRaw c)
  | .last w key w₁ w₂ v w', h => by
    obtain ⟨hle, hraw⟩ := member_room key (h _ (List.mem_singleton.2 rfl))
    have htext : (Members.last w key w₁ w₂ v w').text.length = w.text.length + (unmark (markStr key)).length +
        w₁.text.length + 1 + w₂.text.length + v.text.length + w'.text.length := by
      simp [Members.text, Members.marked, Value.text]
      omega
    rw [htext, Members.pairs, List.map_singleton, List.sum_singleton]
    exact ⟨by omega, fun hr => List.forall_mem_singleton.2 (hraw (by omega))⟩
  | .cons w key w₁ w₂ v w' ms, h => by
    rw [Members.pairs, List.forall_mem_cons] at h
    obtain ⟨hle, hraw⟩ := member_room key h.1
    obtain ⟨hle', hraw'⟩ := members_room ms h.2
    have htext : (Members.cons w key w₁ w₂ v w' ms).text.length = w.text.length + (unmark (markStr key)).length +
        w₁.text.length + 1 + w₂.text.length + v.text.length + w'.text.length + 1 + ms.text.length := by
      simp [Members.text, Members.marked, Value.text]
      omega
    rw [htext, Members.pairs, List.map_cons, List.sum_cons]
    exact ⟨by omega, fun hr => List.forall_mem_cons.2 ⟨hraw (by omega), hraw' (by omega)⟩⟩

theorem length_member (p : List UInt8 × List UInt8) (rest : List UInt8) :
    (member p rest).length + 1 = room (p.1, some p.2) + rest.length := by
  simp only [member, room, List.length_cons, List.length_append, Option.getD_some]
  omega

theorem length_others : ∀ l : List (List UInt8 × List UInt8),
    (others l).length = 1 + ((l.map fun p => (p.1, some p.2)).map room).sum
  | [] => rfl
  | p :: l => by
    have hp := length_member p (others l)
    rw [others, List.length_cons, hp, length_others l, List.map_cons, List.map_cons, List.sum_cons]
    omega

theorem length_compact (p : List UInt8 × List UInt8) (l : List (List UInt8 × List UInt8)) :
    (compact (p :: l)).length = 1 + (((p :: l).map fun p => (p.1, some p.2)).map room).sum := length_others (p :: l)

theorem obj_text (ms : Members) : (Value.obj ms).text = 123 :: (ms.text ++ [125]) := by
  simp [Value.text, Value.marked, Members.text]

theorem says_raw {p : List UInt8 × List UInt8} {l : List (List UInt8 × List UInt8)}
    (h : Says (compact (p :: l)) (p :: l)) : ∀ q ∈ p :: l, Raw q := by
  obtain ⟨⟨v, hv⟩, hall⟩ := h
  obtain ⟨ms, rfl, hperm⟩ := hall v hv
  obtain ⟨w, w', ht⟩ := hv
  have hlen := congrArg List.length ht
  rw [length_compact p l, List.length_append, List.length_append, obj_text, List.length_cons, List.length_append,
    List.length_singleton, ← (hperm.map room).sum_eq] at hlen
  have hsome : ∀ p ∈ ms.pairs, p.2.isSome := fun p hp => by
    obtain ⟨q, -, rfl⟩ := List.mem_map.1 (hperm.mem_iff.1 hp)
    rfl
  intro q hq
  exact (members_room ms hsome).2 (by omega) (q.1, some q.2)
    (hperm.mem_iff.2 (List.mem_map_of_mem (f := fun p => (p.1, some p.2)) hq))

/-! ## The only reading -/

theorem ws_inv {w : Ws} {c : UInt8} {t t' : List UInt8} (hc : c ≠ 32 ∧ c ≠ 9 ∧ c ≠ 10 ∧ c ≠ 13)
    (h : w.text ++ t = c :: t') : w = [] ∧ t = c :: t' := by
  cases w with
  | nil => exact ⟨rfl, h⟩
  | cons b w =>
    have hb : b.byte = c := (List.cons.inj h).1
    rcases mem_ws (w := [b]) (List.mem_singleton.2 hb.symm) with he | he | he | he
    · exact absurd he hc.1
    · exact absurd he hc.2.1
    · exact absurd he hc.2.2.1
    · exact absurd he hc.2.2.2

theorem body_inv {t t' : List UInt8} : ∀ (s : List Piece) (k : List UInt8), (∀ c ∈ k, isRaw c) →
    body s ++ 34 :: t = k ++ 34 :: t' → decode s = k ∧ t = t'
  | [], [], _, h => ⟨rfl, (List.cons.inj h).2⟩
  | [], c :: k, hk, h => by
    rw [← (List.cons.inj h).1] at hk
    exact absurd (hk 34 (List.mem_cons_self ..)) (by decide)
  | .raw c :: s, [], _, h => by
    have hc : c.1 = 34 := (List.cons.inj h).1
    exact absurd c.2 (by rw [hc]; decide)
  | .raw c :: s, x :: k, hk, h => by
    obtain ⟨hx, h⟩ := List.cons.inj h
    obtain ⟨hs, ht⟩ := body_inv s k (List.forall_mem_cons.1 hk).2 h
    rw [decode, hs, hx]
    exact ⟨rfl, ht⟩
  | .esc e :: s, [], _, h => absurd (List.cons.inj h).1 (by decide)
  | .esc e :: s, x :: k, hk, h => by
    rw [← (List.cons.inj h).1] at hk
    exact absurd (hk 92 (List.mem_cons_self ..)) (by decide)
  | .unit _ _ _ _ :: s, [], _, h => absurd (List.cons.inj h).1 (by decide)
  | .unit _ _ _ _ :: s, x :: k, hk, h => by
    rw [← (List.cons.inj h).1] at hk
    exact absurd (hk 92 (List.mem_cons_self ..)) (by decide)

theorem str_inv {s : List Piece} {k t t' : List UInt8} (hk : ∀ c ∈ k, isRaw c)
    (h : unmark (markStr s) ++ t = 34 :: (k ++ 34 :: t')) : decode s = k ∧ t = t' := by
  refine body_inv s k hk ?_
  simp only [markStr, unmark_append, unmark_mark, List.append_assoc] at h
  exact (List.cons.inj h).2

theorem num_inv {n : Number} {c : UInt8} {t t' : List UInt8} (h : (Value.num n).text ++ t = c :: t') :
    isNumeral c := by
  rw [Value.text, Value.marked, unmark_mark] at h
  obtain ⟨d, ds, hn⟩ := List.exists_cons_of_ne_nil (number_ne_nil n)
  rw [hn] at h
  rw [← (List.cons.inj h).1]
  exact isNumeral_number n d (by rw [hn]; exact List.mem_cons_self ..)

/-- A value that begins with a quote is a string. -/
theorem value_inv {v : Value} {t t' : List UInt8} (h : v.text ++ t = 34 :: t') : ∃ s, v = .str s := by
  cases v with
  | str s => exact ⟨s, rfl⟩
  | num n => exact absurd (num_inv h) (by decide)
  | _ => exact absurd (List.cons.inj h).1 (by decide)

theorem member_inv {w : Ws} {key : List Piece} {w₁ w₂ : Ws} {v : Value} {t t' : List UInt8}
    {p : List UInt8 × List UInt8} (hp : Raw p)
    (h : w.text ++ (unmark (markStr key) ++ (w₁.text ++ 58 :: (w₂.text ++ (v.text ++ t)))) = member p t') :
    (decode key, v.string) = (p.1, some p.2) ∧ t = t' := by
  obtain ⟨-, h⟩ := ws_inv (by decide) h
  obtain ⟨hkey, h⟩ := str_inv hp.1 h
  obtain ⟨-, h⟩ := ws_inv (by decide) h
  obtain ⟨-, h⟩ := ws_inv (by decide) (List.cons.inj h).2
  obtain ⟨s, rfl⟩ := value_inv h
  obtain ⟨hval, h⟩ := str_inv hp.2 h
  rw [hkey, Value.string, hval]
  exact ⟨rfl, h⟩

theorem members_inv {r : List UInt8} : ∀ (ms : Members) (p : List UInt8 × List UInt8)
    (l : List (List UInt8 × List UInt8)), (∀ q ∈ p :: l, Raw q) →
    ms.text ++ 125 :: r = member p (others l) → ms.pairs = (p :: l).map (fun p => (p.1, some p.2)) ∧ r = []
  | .last w key w₁ w₂ v w', p, l, hraw, h => by
    have htext : (Members.last w key w₁ w₂ v w').text ++ 125 :: r = w.text ++ (unmark (markStr key) ++
        (w₁.text ++ 58 :: (w₂.text ++ (v.text ++ (w'.text ++ 125 :: r))))) := by
      simp [Members.text, Members.marked, Value.text]
    rw [htext] at h
    obtain ⟨hpair, h⟩ := member_inv (hraw p (List.mem_cons_self ..)) h
    rw [Members.pairs, hpair]
    cases l with
    | nil =>
      obtain ⟨-, h⟩ := ws_inv (by decide) h
      exact ⟨rfl, (List.cons.inj h).2⟩
    | cons q l =>
      obtain ⟨-, h⟩ := ws_inv (by decide) h
      exact absurd (List.cons.inj h).1 (by decide)
  | .cons w key w₁ w₂ v w' ms, p, l, hraw, h => by
    have htext : (Members.cons w key w₁ w₂ v w' ms).text ++ 125 :: r = w.text ++ (unmark (markStr key) ++
        (w₁.text ++ 58 :: (w₂.text ++ (v.text ++ (w'.text ++ 44 :: (ms.text ++ 125 :: r)))))) := by
      simp [Members.text, Members.marked, Value.text]
    rw [htext] at h
    obtain ⟨hpair, h⟩ := member_inv (hraw p (List.mem_cons_self ..)) h
    rw [Members.pairs, hpair]
    cases l with
    | nil =>
      obtain ⟨-, h⟩ := ws_inv (by decide) h
      exact absurd (List.cons.inj h).1 (by decide)
    | cons q l =>
      obtain ⟨-, h⟩ := ws_inv (by decide) h
      obtain ⟨hms, hr⟩ := members_inv ms q l (List.forall_mem_cons.1 hraw).2 (List.cons.inj h).2
      rw [hms]
      exact ⟨rfl, hr⟩

/-! ## It is an object -/

theorem exists_body {k : List UInt8} (hk : ∀ c ∈ k, isRaw c) : ∃ s : List Piece, body s = k := by
  induction k with
  | nil => exact ⟨[], rfl⟩
  | cons c k ih =>
    rw [List.forall_mem_cons] at hk
    obtain ⟨s, rfl⟩ := ih hk.2
    exact ⟨.raw ⟨c, hk.1⟩ :: s, body_cons _ _⟩

theorem exists_members : ∀ (p : List UInt8 × List UInt8) (l : List (List UInt8 × List UInt8)), (∀ q ∈ p :: l, Raw q) →
    ∃ ms : Members, ms.text ++ [125] = member p (others l)
  | p, l, h => by
    obtain ⟨key, hkey⟩ := exists_body (h p (List.mem_cons_self ..)).1
    obtain ⟨val, hval⟩ := exists_body (h p (List.mem_cons_self ..)).2
    cases l with
    | nil =>
      refine ⟨.last [] key [] [] (.str val) [], ?_⟩
      simp [Members.text, Members.marked, Value.marked, markStr, hkey, hval, Ws.text, member, others]
    | cons q l =>
      obtain ⟨ms, hms⟩ := exists_members q l (List.forall_mem_cons.1 h).2
      refine ⟨.cons [] key [] [] (.str val) [] ms, ?_⟩
      rw [Members.text] at hms
      simp [Members.text, Members.marked, Value.marked, markStr, hkey, hval, Ws.text, member, others, hms]

/-- A reading of an object that begins with a key. -/
theorem object_inv {v : Value} {w w' : Ws} {p : List UInt8 × List UInt8} {l : List (List UInt8 × List UInt8)}
    (hraw : ∀ q ∈ p :: l, Raw q) (h : compact (p :: l) = w.text ++ v.text ++ w'.text) :
    ∃ ms, v = .obj ms ∧ ms.pairs = (p :: l).map (fun p => (p.1, some p.2)) := by
  rw [List.append_assoc] at h
  obtain ⟨-, h⟩ := ws_inv (by decide) h.symm
  cases v with
  | obj ms =>
    rw [obj_text, List.cons_append, List.append_assoc] at h
    exact ⟨ms, rfl, (members_inv ms p l hraw (List.cons.inj h).2).1⟩
  | emptyObj w =>
    simp only [Value.text, Value.marked, unmark_append, unmark_mark, List.append_assoc] at h
    obtain ⟨-, h⟩ := ws_inv (by decide) (List.cons.inj h).2
    exact absurd (List.cons.inj h).1 (by decide)
  | num n => exact absurd (num_inv h) (by decide)
  | _ => exact absurd (List.cons.inj h).1 (by decide)

/-- **Keys and values written between quotes as they are**: the text is an object with just these members if and only
if none of them has a quote, a backslash or a control character. -/
theorem says_compact_iff {l : List (List UInt8 × List UInt8)} (hne : l ≠ []) :
    Says (compact l) l ↔ ∀ q ∈ l, Raw q := by
  obtain ⟨p, l, rfl⟩ := List.exists_cons_of_ne_nil hne
  constructor
  · exact says_raw
  · intro hraw
    constructor
    · obtain ⟨ms, hms⟩ := exists_members p l hraw
      refine ⟨.obj ms, [], [], ?_⟩
      rw [obj_text, hms, compact]
      exact (List.append_nil _).symm
    · rintro v ⟨w, w', ht⟩
      obtain ⟨ms, hv, hpairs⟩ := object_inv hraw ht
      exact ⟨ms, hv, List.Perm.of_eq hpairs⟩

end Json
end Pico
