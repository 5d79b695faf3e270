import BafsDriver.Lib.Heap

/-!
# Heaps with some counts raised

A program that takes references to objects of a heap, one after another, raises the count of each by
the number of times it has been taken. `Raised raise l h h'` says that this is all that tells the heap
`h'` from `h`, with `l` the addresses taken; `raise n` adds `n` to the count of an object. Giving a
reference back takes its address out of the list, and with an empty list the heaps are the same.
-/

namespace Heap

variable {α : Type} {h h' : Heap α} {i : Nat} {a b : α} {l l' : List Nat} {raise : Nat → α → α}

/-- Heaps that show the same objects, and have handed out and freed the same addresses. -/
theorem ext_get (hnext : h'.next = h.next) (hfreed : h'.freed = h.freed)
    (hget : ∀ i, h'.get i = h.get i) : h' = h := by
  obtain ⟨cells, freed⟩ := h
  obtain ⟨cells', freed'⟩ := h'
  obtain rfl : freed' = freed := hfreed
  congr 1
  refine List.ext_getElem hnext fun i hi hi' => ?_
  have hi := hget i
  unfold get at hi
  rw [List.getElem?_eq_getElem (by assumption), List.getElem?_eq_getElem (by assumption)] at hi
  exact hi

/-- The counts are raised by the references to the addresses in the list. -/
structure Raised (raise : Nat → α → α) (l : List Nat) (h h' : Heap α) : Prop where
  next : h'.next = h.next
  freed : h'.freed = h.freed
  get : ∀ i, h'.get i = (h.get i).map (raise (l.count i))

namespace Raised

theorem refl (hzero : ∀ a, raise 0 a = a) (h : Heap α) : Raised raise [] h h := by
  refine ⟨rfl, rfl, fun i => ?_⟩
  cases hi : h.get i with
  | none => rfl
  | some a => rw [List.count_nil, Option.map_some, hzero]

/-- When all references have been given back the heap is as it was. -/
theorem eq (hr : Raised raise [] h h') (hzero : ∀ a, raise 0 a = a) : h' = h := by
  refine ext_get hr.next hr.freed fun i => ?_
  rw [hr.get i]
  cases hi : h.get i with
  | none => rfl
  | some a => rw [List.count_nil, Option.map_some, hzero]

theorem of_count (hr : Raised raise l h h') (hl : ∀ i, l'.count i = l.count i) :
    Raised raise l' h h' :=
  ⟨hr.next, hr.freed, fun i => by rw [hr.get i, hl i]⟩

theorem get_some (hr : Raised raise l h h') (hi : h.get i = some a) :
    h'.get i = some (raise (l.count i) a) := by
  rw [hr.get i, hi]
  rfl

/-- Writing the count that is due after one more reference, or one less. -/
theorem set {n : Nat} (hr : Raised raise l h h') (hi : h.get i = some a) (hself : l'.count i = n)
    (hother : ∀ j, j ≠ i → l'.count j = l.count j) : Raised raise l' h (h'.set i (raise n a)) := by
  refine ⟨by rw [next_set, hr.next], by rw [freed_set, hr.freed], fun j => ?_⟩
  rw [get_set (hr.get_some hi)]
  by_cases hj : j = i
  · subst hj
    rw [if_pos rfl, hi, Option.map_some, hself]
  · rw [if_neg hj, hr.get j, hother j hj]

/-- One more reference to the address `i` is taken by `f`. -/
theorem push {f : α → α} (hr : Raised raise l h h') (hi : h.get i = some a)
    (hf : ∀ n, f (raise n a) = raise (n + 1) a) :
    Raised raise (i :: l) h (h'.set i (f (raise (l.count i) a))) := by
  rw [hf]
  exact hr.set hi List.count_cons_self fun _ hj => List.count_cons_of_ne (Ne.symm hj)

/-- One reference to the address `i` is given back by `f`. -/
theorem pop {f : α → α} (hr : Raised raise (i :: l) h h') (hi : h.get i = some a)
    (hf : ∀ n, f (raise (n + 1) a) = raise n a) :
    Raised raise l h (h'.set i (f (raise ((i :: l).count i) a))) := by
  rw [List.count_cons_self, hf]
  exact hr.set hi rfl fun _ hj => (List.count_cons_of_ne (Ne.symm hj)).symm

/-- A new object has the count that it is made with. -/
theorem alloc (hr : Raised raise l h h') (hzero : ∀ a, raise 0 a = a) (hl : h.next ∉ l) :
    Raised raise l (h.alloc a) (h'.alloc a) := by
  refine ⟨by rw [next_alloc, next_alloc, hr.next], hr.freed, fun i => ?_⟩
  rw [get_alloc, get_alloc, hr.next]
  by_cases hi : i = h.next
  · rw [if_pos hi, if_pos hi, Option.map_some, hi, List.count_eq_zero.mpr hl, hzero]
  · rw [if_neg hi, if_neg hi, hr.get i]

end Raised

end Heap
