import Mathlib.Data.List.Basic
/-!
# Copy — loops that copy one element after the other

A small theory that names nothing of the repository.

A list is read and written one element at a time, and an index outside it is a fault.  `down` is the loop
`*--dst = *--src` and `up` the loop `*dst++ = *src++`.  Where source and destination overlap, an element must be read
before it is written over: `down` may move to the back and `up` to the front, and both are then `moved`, all elements
at once.
-/
namespace Pico
namespace Copy

variable {α ε : Type}

def load (fault : ε) (l : List α) (i : Nat) : Except ε α :=
  match l[i]? with
  | some c => .ok c
  | none => .error fault

def store (fault : ε) (l : List α) (i : Nat) (c : α) : Except ε (List α) :=
  if i < l.length then .ok (l.set i c) else .error fault

/-- `n` passes of `*--dst = *--src`. -/
def down (fault : ε) : Nat → List α → Nat → Nat → Except ε (List α)
  | 0, l, _, _ => .ok l
  | n + 1, l, src + 1, dst + 1 => do
    let c ← load fault l src
    let l ← store fault l dst c
    down fault n l src dst
  | _ + 1, _, _, _ => .error fault

/-- `n` passes of `*dst++ = *src++`. -/
def up (fault : ε) : Nat → List α → Nat → Nat → Except ε (List α)
  | 0, l, _, _ => .ok l
  | n + 1, l, src, dst => do
    let c ← load fault l src
    let l ← store fault l dst c
    up fault n l (src + 1) (dst + 1)

/-- `n` elements from `src` on, put where `dst` is. -/
def moved (l : List α) (src dst n : Nat) : List α := l.take dst ++ ((l.drop src).take n ++ l.drop (dst + n))

theorem load_ok (fault : ε) {l : List α} {i : Nat} (h : i < l.length) : load fault l i = .ok l[i] := by
  rw [load, List.getElem?_eq_getElem h]

theorem store_ok (fault : ε) {l : List α} {i : Nat} (h : i < l.length) (c : α) : store fault l i c = .ok (l.set i c) :=
  if_pos h

theorem moved_zero (l : List α) (src dst : Nat) : moved l src dst 0 = l := by
  rw [moved, List.take_zero, List.nil_append, Nat.add_zero, List.take_append_drop]

/-- The last element is moved first, to the back. -/
theorem moved_set_last {l : List α} {src dst n : Nat} (hs : src ≤ dst) (h : dst + n < l.length) :
    moved (l.set (dst + n) l[src + n]) src dst n = moved l src dst (n + 1) := by
  have htake : (l.set (dst + n) l[src + n]).take dst = l.take dst := List.take_set_of_le (Nat.le_add_right dst n)
  have hmid : ((l.set (dst + n) l[src + n]).drop src).take n = (l.drop src).take n := by
    rw [List.take_drop, List.take_drop, List.take_set_of_le (Nat.add_le_add_right hs n)]
  have hdrop : (l.set (dst + n) l[src + n]).drop (dst + n) = l[src + n] :: l.drop (dst + n + 1) := by
    rw [List.drop_eq_getElem_cons (by rw [List.length_set]; exact h), List.getElem_set_self,
      List.drop_set_of_lt (Nat.lt_succ_self _)]
  have hlast : (l.drop src).take (n + 1) = (l.drop src).take n ++ [l[src + n]] := by
    rw [List.take_add_one, List.getElem?_drop, List.getElem?_eq_getElem]
    rfl
  rw [moved, moved, htake, hmid, hdrop, hlast, List.append_assoc]
  rfl

/-- The first element is moved first, to the front. -/
theorem moved_set_first {l : List α} {src dst n : Nat} (hs : dst ≤ src) (h : src < l.length) :
    moved (l.set dst l[src]) (src + 1) (dst + 1) n = moved l src dst (n + 1) := by
  have htake : (l.set dst l[src]).take (dst + 1) = l.take dst ++ [l[src]] := by
    rw [List.take_add_one, List.take_set_of_le (Nat.le_refl dst), List.getElem?_set_self (by omega)]
    rfl
  have hmid : (l.set dst l[src]).drop (src + 1) = l.drop (src + 1) := List.drop_set_of_lt (by omega)
  have hdrop : (l.set dst l[src]).drop (dst + 1 + n) = l.drop (dst + (n + 1)) := by
    rw [List.drop_set_of_lt (by omega), Nat.add_assoc, Nat.add_comm 1 n]
  rw [moved, moved, htake, hmid, hdrop, List.drop_eq_getElem_cons h, List.take_succ_cons]
  simp only [List.append_assoc, List.cons_append, List.nil_append]

/-- **Copying down moves elements to the back**, also over themselves. -/
theorem down_eq (fault : ε) : ∀ (n : Nat) {l : List α} {src dst : Nat}, src ≤ dst → dst + n ≤ l.length →
    down fault n l (src + n) (dst + n) = .ok (moved l src dst n)
  | 0, l, src, dst, _, _ => by rw [down, moved_zero]
  | n + 1, l, src, dst, hs, h => by
    have hsrc : src + n < l.length := by omega
    have hdst : dst + n < l.length := by omega
    rw [← Nat.add_assoc, ← Nat.add_assoc, down]
    simp only [load_ok fault hsrc, store_ok fault hdst, bind, Except.bind]
    rw [down_eq fault n hs (by rw [List.length_set]; omega), moved_set_last hs hdst]

/-- **Copying up moves elements to the front**, also over themselves. -/
theorem up_eq (fault : ε) : ∀ (n : Nat) {l : List α} {src dst : Nat}, dst ≤ src → src + n ≤ l.length →
    up fault n l src dst = .ok (moved l src dst n)
  | 0, l, src, dst, _, _ => by rw [up, moved_zero]
  | n + 1, l, src, dst, hs, h => by
    have hsrc : src < l.length := by omega
    have hdst : dst < l.length := by omega
    rw [up]
    simp only [load_ok fault hsrc, store_ok fault hdst, bind, Except.bind]
    rw [up_eq fault n (Nat.succ_le_succ hs) (by rw [List.length_set]; omega), moved_set_first hs hsrc]

end Copy
end Pico
