import Mathlib.Data.List.Basic

/-!
# Stores into a memory

A memory maps addresses to bytes and keeps a record of the stores: where each began, and how many bytes
it wrote. A store may be of any length, so the record tells which bounds it kept to.
-/

/-- A memory of bytes of type `β`, with the address and the length of each store, the first first. -/
structure Memory (β : Type) where
  byte : Nat → β
  stores : List (Nat × Nat)

namespace Memory

variable {β : Type} {m : Memory β} {l : List β} {b : β} {p a i n : Nat}

/-- Stores the bytes of the list from the address `p` on. -/
def store (m : Memory β) (p : Nat) (l : List β) : Memory β where
  byte a := if p ≤ a then (l[a - p]?).getD (m.byte a) else m.byte a
  stores := m.stores ++ [(p, l.length)]

/-- The `n` bytes from the address `p` on. -/
def load (m : Memory β) (p n : Nat) : List β := (List.range n).map fun i => m.byte (p + i)

theorem byte_store (hi : l[i]? = some b) : (m.store p l).byte (p + i) = b := by
  show (if p ≤ p + i then _ else _) = b
  rw [if_pos (Nat.le_add_right p i), Nat.add_sub_cancel_left, hi]
  rfl

theorem byte_store_before (ha : a < p) : (m.store p l).byte a = m.byte a :=
  if_neg (Nat.not_le.mpr ha)

theorem length_load : (m.load p n).length = n := by
  rw [load, List.length_map, List.length_range]

theorem getElem?_load (hi : i < n) : (m.load p n)[i]? = some (m.byte (p + i)) := by
  rw [load, List.getElem?_map, List.getElem?_range hi]
  rfl

/-- A memory that holds the bytes of a list loads them. -/
theorem load_eq_take (hl : ∀ i b, i < n → l[i]? = some b → m.byte (p + i) = b) (hn : n ≤ l.length) :
    m.load p n = l.take n := by
  refine List.ext_getElem? fun i => ?_
  by_cases hi : i < n
  · have hget := List.getElem?_eq_getElem (Nat.lt_of_lt_of_le hi hn)
    rw [getElem?_load hi, List.getElem?_take_of_lt hi, hget]
    exact congrArg some (hl i _ hi hget)
  · have hle : n ≤ i := Nat.not_lt.mp hi
    rw [List.getElem?_eq_none (by rw [length_load]; exact hle), List.getElem?_take_eq_none hle]

/-- It loads them first, where they are shorter than what is loaded. -/
theorem prefix_load (hl : ∀ i b, l[i]? = some b → m.byte (p + i) = b) (hn : l.length ≤ n) :
    l <+: m.load p n := by
  have hsplit : m.load p l.length = l := by
    rw [load_eq_take (fun i b _ => hl i b) (Nat.le_refl _), List.take_length]
  obtain ⟨k, rfl⟩ := Nat.exists_eq_add_of_le hn
  refine ⟨(List.range k).map fun i => m.byte (p + (l.length + i)), ?_⟩
  rw [load, List.range_add, List.map_append, List.map_map]
  exact congrArg (· ++ _) hsplit.symm

end Memory
