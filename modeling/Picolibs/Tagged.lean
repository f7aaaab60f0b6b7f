import Picolibs.Text
/-!
# Tagged — items of a tag, a length and that many bytes

A small theory that names nothing of the repository.

A text of items is searched from item to item.  `offset` is where the first item with a tag begins, and `offset_eq`
says that it is the length of the items in front of it.
-/
namespace Pico
namespace Tagged

structure Item where
  tag : UInt8
  data : Bytes
  short : data.length < 256

def Item.bytes (it : Item) : Bytes := it.tag :: UInt8.ofNat it.data.length :: it.data

def text (items : List Item) : Bytes := items.flatMap Item.bytes

/-- Where the first item with the tag begins. -/
def offset (tag : UInt8) : List Item → Option Nat
  | [] => none
  | it :: items => if it.tag = tag then some 0 else (offset tag items).map (· + it.bytes.length)

theorem Item.length_bytes (it : Item) : it.bytes.length = it.data.length + 2 := rfl

/-- The length byte counts the data. -/
theorem Item.toNat_length (it : Item) : (UInt8.ofNat it.data.length).toNat = it.data.length := by
  rw [UInt8.toNat_ofNat', Nat.mod_eq_of_lt it.short]

theorem text_nil : text [] = [] := rfl

theorem text_cons (it : Item) (items : List Item) : text (it :: items) = it.bytes ++ text items := List.flatMap_cons

theorem text_append (a b : List Item) : text (a ++ b) = text a ++ text b := List.flatMap_append

theorem offset_none {tag : UInt8} : ∀ {items : List Item}, (∀ it ∈ items, it.tag ≠ tag) → offset tag items = none
  | [], _ => rfl
  | it :: items, h => by
    rw [offset, if_neg (h it List.mem_cons_self), offset_none (fun x hx => h x (List.mem_cons_of_mem _ hx))]
    rfl

/-- **The first item with a tag begins where the items in front of it end.** -/
theorem offset_eq {tag : UInt8} : ∀ {pre : List Item} {it : Item} (post : List Item), (∀ x ∈ pre, x.tag ≠ tag) →
    it.tag = tag → offset tag (pre ++ it :: post) = some (text pre).length
  | [], it, post, _, h => by rw [List.nil_append, offset, if_pos h]; rfl
  | x :: pre, it, post, hpre, h => by
    rw [List.cons_append, offset, if_neg (hpre x List.mem_cons_self),
      offset_eq post (fun y hy => hpre y (List.mem_cons_of_mem _ hy)) h, text_cons, List.length_append, Nat.add_comm]
    rfl

/-- There is an item with the tag, and a first one, or there is none. -/
theorem split_at_tag (tag : UInt8) (items : List Item) :
    (∀ it ∈ items, it.tag ≠ tag) ∨
      ∃ pre it post, items = pre ++ it :: post ∧ (∀ x ∈ pre, x.tag ≠ tag) ∧ it.tag = tag := by
  cases h : items.find? (·.tag = tag) with
  | none =>
    refine .inl fun it hit => ?_
    have := List.find?_eq_none.1 h it hit
    simpa using this
  | some it =>
    obtain ⟨ht, pre, post, hitems, hpre⟩ := List.find?_eq_some_iff_append.1 h
    exact .inr ⟨pre, it, post, hitems, fun x hx => by simpa using hpre x hx, of_decide_eq_true ht⟩

end Tagged
end Pico
