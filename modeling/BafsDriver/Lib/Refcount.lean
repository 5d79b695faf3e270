import BafsDriver.Lib.Heap
import Mathlib.Algebra.Group.Pi.Basic
import Mathlib.Tactic.Abel

/-!
# Reference counts

An object of a heap stores a count of the references to it. `Counted` says that the stored count is
what is due: the references that other objects of the system hold, plus those that running code
holds for the moment. `Exact` adds that nothing refers to an object that does not exist.

What running code holds is a `Held`: a number of references for each object, where an object is
named by its kind `κ` and its address. Held references are added up (`h + tok k i`), so a rule for
one operation says which token it consumes or hands out and works inside any larger computation.
-/

/-- The references that running code holds, for each kind of object and each address. -/
abbrev Held (κ : Type) := κ → Nat → ℤ

section Tokens

variable {κ : Type} [DecidableEq κ]

/-- One reference to the object of kind `k` at address `i`. -/
def tok (k : κ) (i : Nat) : Held κ := fun k' j => if k' = k ∧ j = i then 1 else 0

@[simp] theorem tok_self (k : κ) (i : Nat) : tok k i k i = 1 := by simp [tok]

theorem tok_kind (k : κ) (i j : Nat) : tok k i k j = if j = i then 1 else 0 := by simp [tok]

theorem tok_nonneg (k k' : κ) (i j : Nat) : 0 ≤ tok k i k' j := by
  unfold tok
  split <;> omega

theorem add_tok_self (h : Held κ) (k : κ) (i : Nat) : (h + tok k i) k i = h k i + 1 := by
  show h k i + tok k i k i = h k i + 1
  rw [tok_self]

/-- A token does not show at other objects. -/
theorem add_tok_off (h : Held κ) {k k' : κ} {i j : Nat} (hn : ¬(k' = k ∧ j = i)) :
    (h + tok k i) k' j = h k' j := by
  show h k' j + tok k i k' j = h k' j
  simp [tok, hn]

theorem tok_ne {k k' : κ} (h : k' ≠ k) (i j : Nat) : tok k i k' j = 0 := by simp [tok, h]

/-- One reference for each occurrence in a list of addresses. -/
def toks (k : κ) (l : List Nat) : Held κ := fun k' j => if k' = k then (l.count j : ℤ) else 0

@[simp] theorem toks_nil (k : κ) : toks k [] = 0 := by
  funext k' j
  simp [toks]

theorem toks_cons (k : κ) (i : Nat) (l : List Nat) : toks k (i :: l) = tok k i + toks k l := by
  funext k' j
  show toks k (i :: l) k' j = tok k i k' j + toks k l k' j
  unfold toks tok
  by_cases hk : k' = k
  · by_cases hj : j = i
    · simp [hk, hj]
      omega
    · simp [hk, hj, Ne.symm hj]
  · simp [hk]

theorem toks_append (k : κ) (l l' : List Nat) : toks k (l ++ l') = toks k l + toks k l' := by
  induction l with
  | nil => simp
  | cons i l ih => rw [List.cons_append, toks_cons, toks_cons, ih, add_assoc]

theorem toks_reverse (k : κ) (l : List Nat) : toks k l.reverse = toks k l := by
  funext k' j
  simp [toks, List.count_reverse]

theorem toks_nonneg (k k' : κ) (l : List Nat) (j : Nat) : 0 ≤ toks k l k' j := by
  unfold toks
  split <;> omega

end Tokens

namespace Heap

variable {α : Type} {H : Heap α} {ref : α → Nat} {due due' : Nat → ℤ} {i : Nat} {a b : α}

/-- Every object of the heap stores the count that is due to it, and that count is not zero. -/
structure Counted (H : Heap α) (ref : α → Nat) (due : Nat → ℤ) : Prop where
  eq : ∀ i a, H.get i = some a → (ref a : ℤ) = due i
  pos : ∀ i a, H.get i = some a → 0 < ref a

namespace Counted

theorem congr (h : Counted H ref due) (hd : ∀ j, due' j = due j) : Counted H ref due' :=
  ⟨fun j x hx => by rw [h.eq j x hx, hd j], h.pos⟩

/-- One object changes; what is due changes for this object only. -/
theorem update (h : Counted H ref due) (hi : H.get i = some b) (hd : ∀ j, j ≠ i → due' j = due j)
    (hr : (ref a : ℤ) = due' i) (hp : 0 < ref a) : Counted (H.set i a) ref due' := by
  refine ⟨fun j x hx => ?_, fun j x hx => ?_⟩ <;> rw [get_set hi] at hx <;> by_cases hj : j = i
  · subst hj
    obtain rfl : a = x := by simpa using hx
    exact hr
  · rw [if_neg hj] at hx
    rw [h.eq j x hx, hd j hj]
  · subst hj
    obtain rfl : a = x := by simpa using hx
    exact hp
  · rw [if_neg hj] at hx
    exact h.pos j x hx

theorem free (h : Counted H ref due) (hd : ∀ j, j ≠ i → due' j = due j) :
    Counted (H.free i) ref due' := by
  refine ⟨fun j x hx => ?_, fun j x hx => ?_⟩ <;> obtain ⟨hj, hx'⟩ := get_of_free hx
  · rw [h.eq j x hx', hd j hj]
  · exact h.pos j x hx'

theorem alloc (h : Counted H ref due) (hd : ∀ j, j ≠ H.next → due' j = due j)
    (hr : (ref a : ℤ) = due' H.next) (hp : 0 < ref a) : Counted (H.alloc a) ref due' := by
  refine ⟨fun j x hx => ?_, fun j x hx => ?_⟩ <;> rw [get_alloc] at hx <;>
    by_cases hj : j = H.next
  · obtain rfl : a = x := by simpa [hj] using hx
    rw [hj, hr]
  · rw [if_neg hj] at hx
    rw [h.eq j x hx, hd j hj]
  · obtain rfl : a = x := by simpa [hj] using hx
    exact hp
  · rw [if_neg hj] at hx
    exact h.pos j x hx

/-- An update that keeps the stored count. -/
theorem set_same (h : Counted H ref due) (hi : H.get i = some b) (hr : ref a = ref b) :
    Counted (H.set i a) ref due :=
  h.update hi (fun _ _ => rfl) (by rw [hr]; exact h.eq i b hi) (by rw [hr]; exact h.pos i b hi)

end Counted

/-- The stored counts are what is due, and nothing is due to an object that does not exist. -/
structure Exact (H : Heap α) (ref : α → Nat) (due : Nat → ℤ) : Prop
    extends Counted H ref due where
  none : ∀ i, H.get i = none → due i = 0

namespace Exact

theorem congr (h : Exact H ref due) (hd : ∀ j, due' j = due j) : Exact H ref due' :=
  ⟨h.toCounted.congr hd, fun j hj => by rw [hd j, h.none j hj]⟩

/-- An object to which something is due exists. -/
theorem exists_of_pos (h : Exact H ref due) (hp : 0 < due i) : ∃ a, H.get i = some a := by
  cases hi : H.get i with
  | some a => exact ⟨a, rfl⟩
  | none => have := h.none i hi; omega

theorem update (h : Exact H ref due) (hi : H.get i = some b) (hd : ∀ j, j ≠ i → due' j = due j)
    (hr : (ref a : ℤ) = due' i) (hp : 0 < ref a) : Exact (H.set i a) ref due' := by
  refine ⟨h.toCounted.update hi hd hr hp, fun j hj => ?_⟩
  rw [get_set hi] at hj
  by_cases hji : j = i
  · simp [hji] at hj
  · rw [if_neg hji] at hj
    rw [hd j hji, h.none j hj]

theorem free (h : Exact H ref due) (hd : ∀ j, j ≠ i → due' j = due j) (hi : due' i = 0) :
    Exact (H.free i) ref due' := by
  refine ⟨h.toCounted.free hd, fun j hj => ?_⟩
  by_cases hji : j = i
  · rw [hji, hi]
  · rw [get_free, if_neg hji] at hj
    rw [hd j hji, h.none j hj]

theorem alloc (h : Exact H ref due) (hd : ∀ j, j ≠ H.next → due' j = due j)
    (hr : (ref a : ℤ) = due' H.next) (hp : 0 < ref a) : Exact (H.alloc a) ref due' := by
  refine ⟨h.toCounted.alloc hd hr hp, fun j hj => ?_⟩
  rw [get_alloc] at hj
  by_cases hjn : j = H.next
  · simp [hjn] at hj
  · rw [if_neg hjn] at hj
    rw [hd j hjn, h.none j hj]

theorem set_same (h : Exact H ref due) (hi : H.get i = some b) (hr : ref a = ref b) :
    Exact (H.set i a) ref due :=
  h.update hi (fun _ _ => rfl) (by rw [hr]; exact h.eq i b hi) (by rw [hr]; exact h.pos i b hi)

end Exact

/-- With `n` as the number of times each address has been freed: once if it was handed out and is
empty now, and never otherwise. -/
def FreedOnce (H : Heap α) (n : Nat → Nat) : Prop :=
  ∀ i, n i = if i < H.next ∧ H.get i = none then 1 else 0

namespace FreedOnce

variable {n n' : Nat → Nat}

theorem set (h : FreedOnce H n) (hi : H.get i = some b) : FreedOnce (H.set i a) n := by
  intro j
  rw [h j, next_set, get_set hi]
  by_cases hj : j = i
  · simp [hj, hi]
  · rw [if_neg hj]

theorem alloc (h : FreedOnce H n) : FreedOnce (H.alloc a) n := by
  intro j
  rw [h j, next_alloc, get_alloc]
  by_cases hj : j = H.next
  · simp [hj]
  · have : j < H.next ↔ j < H.next + 1 := by omega
    simp only [if_neg hj, this]

theorem free (h : FreedOnce H n) (hi : H.get i = some a)
    (hn : ∀ j, n' j = n j + if j = i then 1 else 0) : FreedOnce (H.free i) n' := by
  intro j
  have hlt := lt_next_of_get hi
  rw [hn j, h j, next_free, get_free]
  by_cases hj : j = i
  · simp [hj, hi, hlt]
  · simp [hj]

end FreedOnce

end Heap
