import BafsDriver.Lib.LowestFree
import Mathlib.Algebra.Group.Pi.Basic
import Mathlib.Data.List.Count

/-!
# Pools of numbers

A system hands out numbers from several pools, each given by the list of its numbers in use. A number
is held by the object that it was given to, and by running code from the time it is taken until it is
stored. `Issued` says that the numbers in use are those with a holder, and that none has two. Holders
are added up, so a rule for one operation works inside any larger computation.
-/

namespace NumberPool

variable {π : Type}

/-- How many hold each number of each pool. -/
abbrev Holders (π : Type) := π → Nat → Nat

section One

variable [DecidableEq π]

/-- One holder of the number `n` of the pool `p`. -/
def one (p : π) (n : Nat) : Holders π := fun q k => if q = p ∧ k = n then 1 else 0

@[simp] theorem one_self (p : π) (n : Nat) : one p n p n = 1 := by simp [one]

theorem one_pos {p q : π} {n k : Nat} (h : 0 < one p n q k) : q = p ∧ k = n := by
  unfold one at h
  split at h
  · assumption
  · omega

end One

/-- The numbers in use are those that have a holder, and each has one. -/
structure Issued (pool : π → List Nat) (held : Holders π) : Prop where
  count : ∀ p k, (pool p).count k = held p k
  once : ∀ p k, held p k ≤ 1

namespace Issued

variable {pool : π → List Nat} {held : Holders π} {p : π} {n : Nat}

theorem nodup (hi : Issued pool held) (p : π) : (pool p).Nodup := by
  rw [List.nodup_iff_count_le_one]
  intro k
  rw [hi.count]
  exact hi.once p k

theorem mem_iff (hi : Issued pool held) : n ∈ pool p ↔ 0 < held p n := by
  rw [← hi.count, List.count_pos_iff]

theorem congr {held' : Holders π} (hi : Issued pool held) (he : held' = held) :
    Issued pool held' := he ▸ hi

variable [DecidableEq π]

/-- A number that is not in use is taken. -/
theorem take (hi : Issued pool held) (hn : n ∉ pool p) :
    Issued (Function.update pool p (n :: pool p)) (held + one p n) := by
  have hzero : held p n = 0 := by
    rw [← hi.count]
    exact List.count_eq_zero.mpr hn
  have hheld : ∀ q k, (held + one p n) q k = held q k + if q = p ∧ k = n then 1 else 0 :=
    fun _ _ => rfl
  constructor
  · intro q k
    rw [hheld]
    by_cases hq : q = p
    · subst hq
      rw [Function.update_self, List.count_cons, hi.count]
      by_cases hk : k = n
      · simp [hk]
      · simp [hk, Ne.symm hk]
    · rw [Function.update_of_ne hq, hi.count, if_neg fun h => hq h.1, Nat.add_zero]
  · intro q k
    rw [hheld]
    by_cases hk : q = p ∧ k = n
    · rw [hk.1, hk.2, hzero, if_pos ⟨rfl, rfl⟩]
    · rw [if_neg hk]
      exact hi.once q k

/-- The one who holds a number gives it back. -/
theorem give (hi : Issued pool (held + one p n)) :
    Issued (Function.update pool p ((pool p).erase n)) held := by
  have hheld : ∀ q k, (held + one p n) q k = held q k + if q = p ∧ k = n then 1 else 0 :=
    fun _ _ => rfl
  constructor
  · intro q k
    have hc := hi.count q k
    rw [hheld] at hc
    by_cases hq : q = p
    · subst hq
      rw [Function.update_self, List.count_erase, hc]
      by_cases hk : k = n
      · simp [hk]
      · simp [hk, Ne.symm hk]
    · rw [Function.update_of_ne hq, hc, if_neg fun h => hq h.1, Nat.add_zero]
  · intro q k
    have ho := hi.once q k
    rw [hheld] at ho
    omega

end Issued

end NumberPool
