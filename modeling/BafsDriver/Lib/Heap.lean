import Mathlib.Data.List.Nodup
import Mathlib.Algebra.BigOperators.Group.List.Basic
import Mathlib.Algebra.Order.BigOperators.Group.List
import Mathlib.Tactic.Linarith

/-!
# A heap whose addresses are never handed out twice

The objects of one type, each at its own address. A freed address stays empty for ever, so an
address that is kept too long is seen to be empty instead of showing an unrelated object. What was
freed is written down, so that a second free of an address is seen too.

`Heap.sum` adds a weight over the objects that exist: with the number of references an object holds
to some target as its weight, it is the number of references to that target.
-/

/-- The objects of one type by address: `none` is an address whose object has been freed. -/
structure Heap (α : Type) where
  cells : List (Option α) := []
  /-- The addresses that were freed, the last first. -/
  freed : List Nat := []
  deriving DecidableEq

namespace Heap

variable {α : Type}

/-- The object at address `i`, if it exists. -/
def get (h : Heap α) (i : Nat) : Option α := (h.cells[i]?).join

/-- The address that the next allocation gives. -/
def next (h : Heap α) : Nat := h.cells.length

/-- A new object at the next address. -/
def alloc (h : Heap α) (a : α) : Heap α := { h with cells := h.cells ++ [some a] }

/-- Replaces the object at address `i`. -/
def set (h : Heap α) (i : Nat) (a : α) : Heap α := { h with cells := h.cells.set i (some a) }

/-- Frees the object at address `i`. -/
def free (h : Heap α) (i : Nat) : Heap α := ⟨h.cells.set i none, i :: h.freed⟩

/-- The weight `f` added over the objects that exist. -/
def sum (h : Heap α) (f : α → Nat) : Nat := (h.cells.map fun o => o.elim 0 f).sum

/-- The number of objects that satisfy `p`. -/
def count (h : Heap α) (p : α → Prop) [DecidablePred p] : Nat := h.sum fun a => if p a then 1 else 0

variable {h : Heap α} {i j : Nat} {a b : α} {f g : α → Nat}

/-! ## Reading after an update -/

theorem lt_next_of_get (hi : h.get i = some a) : i < h.next := by
  by_contra hn
  have : h.cells[i]? = none := List.getElem?_eq_none (by simpa [next] using hn)
  simp [get, this] at hi

@[simp] theorem get_next : h.get h.next = none := by simp [get, next]

theorem get_alloc : (h.alloc a).get i = if i = h.next then some a else h.get i := by
  unfold get alloc next
  rcases Nat.lt_trichotomy i h.cells.length with hi | rfl | hi
  · rw [List.getElem?_append_left hi, if_neg (by omega)]
  · simp
  · rw [if_neg (by omega), List.getElem?_eq_none (by simp; omega),
      List.getElem?_eq_none (by omega)]

theorem get_alloc_of_get (hi : h.get i = some b) : (h.alloc a).get i = some b := by
  have := lt_next_of_get hi
  rw [get_alloc, if_neg (by omega), hi]

theorem get_set (hj : h.get j = some b) : (h.set j a).get i = if i = j then some a else h.get i := by
  have hlt := lt_next_of_get hj
  unfold get set
  by_cases hij : i = j
  · subst hij
    simp [next] at hlt
    simp [hlt]
  · simp [hij, List.getElem?_set_ne (Ne.symm hij)]

/-- An object after an allocation is the new one or an old one. -/
theorem get_alloc_cases (hi : (h.alloc a).get i = some b) :
    (i = h.next ∧ b = a) ∨ h.get i = some b := by
  rw [get_alloc] at hi
  by_cases hn : i = h.next
  · rw [if_pos hn] at hi
    exact .inl ⟨hn, (Option.some.inj hi).symm⟩
  · rw [if_neg hn] at hi
    exact .inr hi

/-- An object after an update is the updated one or another one. -/
theorem get_set_cases {c : α} (hj : h.get j = some c) (hi : (h.set j a).get i = some b) :
    (i = j ∧ b = a) ∨ (i ≠ j ∧ h.get i = some b) := by
  rw [get_set hj] at hi
  by_cases hij : i = j
  · rw [if_pos hij] at hi
    exact .inl ⟨hij, (Option.some.inj hi).symm⟩
  · rw [if_neg hij] at hi
    exact .inr ⟨hij, hi⟩

theorem get_set_self (hj : h.get j = some b) : (h.set j a).get j = some a := by
  rw [get_set hj, if_pos rfl]

theorem get_set_ne (hij : i ≠ j) : (h.set j a).get i = h.get i := by
  simp [get, set, List.getElem?_set_ne (Ne.symm hij)]

theorem get_free : (h.free j).get i = if i = j then none else h.get i := by
  unfold get free
  by_cases hij : i = j
  · subst hij
    rw [if_pos rfl]
    by_cases hlt : i < h.cells.length
    · simp [hlt]
    · rw [List.getElem?_eq_none (by simpa using hlt)]; rfl
  · simp [hij, List.getElem?_set_ne (Ne.symm hij)]

@[simp] theorem get_free_self : (h.free i).get i = none := by rw [get_free, if_pos rfl]

theorem get_of_free (hi : (h.free j).get i = some a) : i ≠ j ∧ h.get i = some a := by
  rw [get_free] at hi
  by_cases hij : i = j
  · simp [hij] at hi
  · exact ⟨hij, by simpa [hij] using hi⟩

theorem set_set : (h.set i a).set i b = h.set i b := by simp [set]

theorem cells_of_get (hi : h.get i = some a) : h.cells[i]? = some (some a) := by
  unfold get at hi
  cases hc : h.cells[i]? with
  | none => simp [hc] at hi
  | some o => simpa [hc] using hi

theorem set_self (hi : h.get i = some a) : h.set i a = h := by
  obtain ⟨hlt, hget⟩ := List.getElem?_eq_some_iff.mp (cells_of_get hi)
  unfold set
  rw [← hget, List.set_getElem_self]

theorem free_set : (h.set i a).free i = h.free i := by simp [set, free]

@[simp] theorem next_alloc : (h.alloc a).next = h.next + 1 := by simp [next, alloc]

@[simp] theorem next_set : (h.set i a).next = h.next := by simp [next, set]

@[simp] theorem next_free : (h.free i).next = h.next := by simp [next, free]

@[simp] theorem freed_alloc : (h.alloc a).freed = h.freed := rfl

@[simp] theorem freed_set : (h.set i a).freed = h.freed := rfl

@[simp] theorem freed_free : (h.free i).freed = i :: h.freed := rfl

/-- Freeing the addresses of a list one after another. -/
theorem freed_foldl {l : List Nat} : (l.foldl free h).freed = l.reverse ++ h.freed := by
  induction l generalizing h with
  | nil => rfl
  | cons i l ih =>
    rw [List.foldl_cons, ih, freed_free, List.reverse_cons, List.append_assoc]
    rfl

@[simp] theorem next_foldl {l : List Nat} : (l.foldl free h).next = h.next := by
  induction l generalizing h with
  | nil => rfl
  | cons i l ih => rw [List.foldl_cons, ih, next_free]

@[simp] theorem get_empty : ({} : Heap α).get i = none := by simp [get]

/-! ## Addresses that are given back -/

/-- Every address that the second heap has handed out since the first has been freed once, and nothing
else has been freed. -/
structure Returned (h h' : Heap α) : Prop where
  next_le : h.next ≤ h'.next
  once : ∀ i, h.next ≤ i → i < h'.next → h'.freed.count i = 1
  others : ∀ i, ¬(h.next ≤ i ∧ i < h'.next) → h'.freed.count i = h.freed.count i

theorem Returned.refl (h : Heap α) : Returned h h where
  next_le := le_rfl
  once _ hle hlt := absurd hlt (not_lt.mpr hle)
  others _ _ := rfl

/-- An address that is handed out first and freed last. -/
theorem Returned.bracket {h' : Heap α} (hr : (h.alloc a).Returned h') (hold : ∀ i ∈ h.freed, i < h.next) :
    h.Returned (h'.free h.next) where
  next_le := by
    have := hr.next_le
    rw [next_alloc] at this
    rw [next_free]
    omega
  once i hle hlt := by
    rw [next_free] at hlt
    rw [freed_free, List.count_cons]
    by_cases hi : i = h.next
    · have hnew : h.freed.count i = 0 := List.count_eq_zero.mpr fun hin => by
        have := hold i hin
        omega
      have := hr.others i (by rw [next_alloc]; omega)
      rw [this, freed_alloc, hnew, hi]
      simp
    · rw [hr.once i (by rw [next_alloc]; omega) hlt, if_neg (by simpa using Ne.symm hi)]
  others i hi := by
    have hnext := hr.next_le
    rw [next_alloc] at hnext
    rw [next_free] at hi
    have hne : h.next ≠ i := fun heq => hi ⟨heq.le, by omega⟩
    rw [freed_free, List.count_cons, if_neg (by simpa using hne),
      hr.others i (by rw [next_alloc]; omega), freed_alloc, Nat.add_zero]

/-- The addresses of a list, which are the new ones, have been freed one after another. -/
theorem Returned.of_freed {h' : Heap α} {l : List Nat} (hl : l.Perm (List.range' h.next l.length))
    (hnext : h'.next = h.next + l.length) (hfreed : h'.freed = l ++ h.freed)
    (hold : ∀ i ∈ h.freed, i < h.next) : Returned h h' where
  next_le := by
    rw [hnext]
    exact Nat.le_add_right _ _
  once i hle hlt := by
    have hin : i ∈ List.range' h.next l.length := List.mem_range'_1.mpr ⟨hle, by omega⟩
    have hnew : h.freed.count i = 0 := List.count_eq_zero.mpr fun hi => by
      have := hold i hi
      omega
    rw [hfreed, List.count_append, hnew, hl.count_eq]
    exact List.count_eq_one_of_mem List.nodup_range' hin
  others i hi := by
    have hnot : i ∉ List.range' h.next l.length := fun hin => hi (by
      have := List.mem_range'_1.mp hin
      omega)
    rw [hfreed, List.count_append, hl.count_eq, List.count_eq_zero.mpr hnot, Nat.zero_add]

/-! ## Objects that keep what they are -/

/-- Every object of the second heap is one of the first, related to it by `R`, or is new. -/
structure Kept (R : α → α → Prop) (h h' : Heap α) : Prop where
  next_le : h.next ≤ h'.next
  kept : ∀ i b, h'.get i = some b → h.next ≤ i ∨ ∃ a, h.get i = some a ∧ R a b

section Kept

variable {R : α → α → Prop} {h₁ h₂ h₃ : Heap α}

theorem Kept.refl (hR : ∀ a, R a a) (h : Heap α) : Kept R h h :=
  ⟨le_rfl, fun _ b hb => .inr ⟨b, hb, hR b⟩⟩

theorem Kept.trans (hR : ∀ a b c, R a b → R b c → R a c) (h : Kept R h₁ h₂) (h' : Kept R h₂ h₃) :
    Kept R h₁ h₃ := by
  refine ⟨h.next_le.trans h'.next_le, fun i c hc => ?_⟩
  obtain hi | ⟨b, hb, hbc⟩ := h'.kept i c hc
  · exact .inl (h.next_le.trans hi)
  · obtain hi | ⟨a, ha, hab⟩ := h.kept i b hb
    · exact .inl hi
    · exact .inr ⟨a, ha, hR a b c hab hbc⟩

theorem Kept.set (hR : ∀ a, R a a) (hi : h.get i = some b) (hab : R b a) : Kept R h (h.set i a) := by
  refine ⟨(next_set ..).ge, fun j c hc => .inr ?_⟩
  obtain ⟨rfl, rfl⟩ | ⟨-, hc⟩ := get_set_cases hi hc
  · exact ⟨b, hi, hab⟩
  · exact ⟨c, hc, hR c⟩

theorem Kept.free (hR : ∀ a, R a a) : Kept R h (h.free i) :=
  ⟨(next_free ..).ge, fun _ c hc => .inr ⟨c, (get_of_free hc).2, hR c⟩⟩

theorem Kept.alloc (hR : ∀ a, R a a) : Kept R h (h.alloc a) := by
  refine ⟨by rw [next_alloc]; exact Nat.le_succ _, fun j c hc => ?_⟩
  obtain ⟨hj, -⟩ | hc := get_alloc_cases hc
  · exact .inl hj.ge
  · exact .inr ⟨c, hc, hR c⟩

end Kept

/-! ## Weights -/

@[simp] theorem sum_empty : ({} : Heap α).sum f = 0 := rfl

@[simp] theorem sum_alloc : (h.alloc a).sum f = h.sum f + f a := by
  simp [sum, alloc]

/-- Replacing one cell moves the sum by the two weights of that cell. -/
theorem sum_cells_set {l : List (Option α)} {o p : Option α} (hl : l[i]? = some o) :
    ((l.set i p).map fun o => o.elim 0 f).sum + o.elim 0 f =
      (l.map fun o => o.elim 0 f).sum + p.elim 0 f := by
  induction l generalizing i with
  | nil => simp at hl
  | cons x xs ih =>
    cases i with
    | zero =>
      simp only [List.getElem?_cons_zero, Option.some.injEq] at hl
      subst hl
      simp only [List.set_cons_zero, List.map_cons, List.sum_cons]
      omega
    | succ n =>
      have := ih (by simpa using hl)
      simp only [List.set_cons_succ, List.map_cons, List.sum_cons]
      omega

theorem sum_set (hi : h.get i = some b) : (h.set i a).sum f + f b = h.sum f + f a :=
  sum_cells_set (o := some b) (p := some a) (cells_of_get hi)

/-- An update that keeps the weight of its object keeps the sum. -/
theorem sum_set_eq (hi : h.get i = some b) (hf : f a = f b) : (h.set i a).sum f = h.sum f := by
  have := sum_set (f := f) (a := a) hi
  omega

theorem sum_free (hi : h.get i = some b) : (h.free i).sum f + f b = h.sum f :=
  sum_cells_set (o := some b) (p := none) (cells_of_get hi)

theorem le_sum (hi : h.get i = some a) : f a ≤ h.sum f := by
  have := sum_free (f := f) hi
  omega

theorem exists_of_sum_pos (hp : 0 < h.sum f) : ∃ i a, h.get i = some a ∧ 0 < f a := by
  by_contra hn
  push Not at hn
  have hz : h.sum f = 0 := by
    refine List.sum_eq_zero fun n hn' => ?_
    obtain ⟨o, ho, rfl⟩ := List.mem_map.mp hn'
    obtain ⟨i, hi⟩ := List.getElem?_of_mem ho
    cases o with
    | none => rfl
    | some a => exact Nat.le_zero.mp (hn i a (by simp [get, hi]))
  omega

theorem sum_eq_zero (hz : ∀ i a, h.get i = some a → f a = 0) : h.sum f = 0 := by
  by_contra hn
  obtain ⟨i, a, hi, hf⟩ := exists_of_sum_pos (Nat.pos_of_ne_zero hn)
  have := hz i a hi
  omega

/-- A sum of one has its weight at one address. -/
theorem eq_of_sum_le_one (hs : h.sum f ≤ 1) (hi : h.get i = some a) (hj : h.get j = some b)
    (ha : 0 < f a) (hb : 0 < f b) : i = j := by
  by_contra hij
  have hj' : (h.free i).get j = some b := by rw [get_free, if_neg (Ne.symm hij), hj]
  have hsum := sum_free (f := f) hi
  have hle := le_sum (f := f) hj'
  omega

theorem eq_zero_of_sum (hz : h.sum f = 0) (hi : h.get i = some a) : f a = 0 := by
  have := le_sum (f := f) hi
  omega

/-- The sum runs over the addresses handed out, in any range that has them all. -/
theorem sum_eq_range {n : Nat} (hn : h.next ≤ n) :
    h.sum f = ((List.range n).map fun i => (h.get i).elim 0 f).sum := by
  obtain ⟨k, rfl⟩ := Nat.exists_eq_add_of_le hn
  have hcells : h.cells.map (fun o => o.elim 0 f) =
      (List.range h.next).map fun i => (h.get i).elim 0 f := by
    refine List.ext_getElem (by simp [next]) fun i hi _ => ?_
    have hlt : i < h.cells.length := by simpa using hi
    simp [get, hlt]
  have hrest : ((List.range k).map fun i => (h.get (h.next + i)).elim 0 f).sum = 0 := by
    refine List.sum_eq_zero fun x hx => ?_
    obtain ⟨i, -, rfl⟩ := List.mem_map.mp hx
    simp [get, next]
  rw [List.range_add, List.map_append, List.sum_append, List.map_map, sum, hcells]
  exact (Nat.add_eq_left.mpr hrest).symm

/-- Two heaps with the same weight at every address have the same sum. -/
theorem sum_congr {h' : Heap α} (hf : ∀ i, (h'.get i).elim 0 f = (h.get i).elim 0 f) :
    h'.sum f = h.sum f := by
  rw [sum_eq_range (le_max_left h'.next h.next), sum_eq_range (le_max_right h'.next h.next)]
  simp only [hf]

theorem count_pos {p : α → Prop} [DecidablePred p] (hi : h.get i = some a) (hp : p a) :
    0 < h.count p := by
  have := le_sum (f := fun a => if p a then 1 else 0) hi
  simp only [hp, if_true] at this
  unfold count
  omega

theorem get_none_of_count (hz : h.count (fun _ => True) = 0) (i : Nat) : h.get i = none := by
  cases hi : h.get i with
  | none => rfl
  | some a =>
    have hpos : 0 < h.count fun _ => True := count_pos hi trivial
    omega

/-- A list that names the objects satisfying `p` once each has their number as its length. -/
theorem count_eq_length {p : α → Prop} [DecidablePred p] {l : List Nat} (hnd : l.Nodup)
    (hl : ∀ i, i ∈ l ↔ ∃ a, h.get i = some a ∧ p a) : h.count p = l.length := by
  induction l generalizing h with
  | nil =>
    refine sum_eq_zero fun i a hi => ?_
    rw [if_neg]
    intro hp
    simpa using (hl i).mpr ⟨a, hi, hp⟩
  | cons j js ih =>
    obtain ⟨hj, hjs⟩ := List.nodup_cons.mp hnd
    obtain ⟨b, hb, hpb⟩ := (hl j).mp (List.mem_cons_self ..)
    -- the list without its head names the objects that are left when `j` is freed
    have hfree : (h.free j).count p = js.length := by
      refine ih hjs fun i => ⟨fun hi => ?_, ?_⟩
      · obtain ⟨a, ha, hpa⟩ := (hl i).mp (List.mem_cons_of_mem _ hi)
        have hij : i ≠ j := fun e => hj (e ▸ hi)
        exact ⟨a, by rw [get_free, if_neg hij, ha], hpa⟩
      · rintro ⟨a, ha, hpa⟩
        obtain ⟨hij, ha'⟩ := get_of_free ha
        rcases List.mem_cons.mp ((hl i).mpr ⟨a, ha', hpa⟩) with rfl | hi
        · exact absurd rfl hij
        · exact hi
    have hsum := sum_free (f := fun a => if p a then 1 else 0) hb
    simp only [hpb, if_true] at hsum
    unfold count at hfree ⊢
    rw [List.length_cons, ← hfree, hsum]

end Heap
