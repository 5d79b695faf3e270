import Mathlib.Data.List.Count
import Mathlib.Logic.Function.Basic

/-!
# Disposal

Resources are numbered in the order in which they are got. Each holder holds at most one of them. The
record says which have been disposed of. The resources are accounted for when each that was got either
has one holder and was not disposed of, or has no holder and was disposed of once.
-/

namespace Disposal

variable {κ : Type}

/-- The resources below `n`, held as `held` says, are accounted for by the record `gone`. -/
structure Once (held : κ → Option Nat) (n : Nat) (gone : List Nat) : Prop where
  got : ∀ k t, held k = some t → t < n
  unique : ∀ k k' t, held k = some t → held k' = some t → k = k'
  kept : ∀ k t, held k = some t → t ∉ gone
  only : ∀ t ∈ gone, t < n
  once : ∀ t < n, (∀ k, held k ≠ some t) → gone.count t = 1

variable [DecidableEq κ] {held : κ → Option Nat} {n : Nat} {gone : List Nat} {k : κ}

omit [DecidableEq κ] in
/-- Nothing has been got. -/
theorem Once.none (hk : ∀ k, held k = none) : Once held 0 [] := by
  have hno : ∀ k t, ¬held k = some t := fun k t h => by cases (hk k).symm.trans h
  refine ⟨fun k t h => (hno k t h).elim, fun k k' t h => (hno k t h).elim,
    fun k t h => (hno k t h).elim, fun t ht => ?_, fun t ht => ?_⟩
  · cases ht
  · exact absurd ht (Nat.not_lt_zero t)

omit [DecidableEq κ] in
/-- Nothing is disposed of twice. -/
theorem Once.count_le (ho : Once held n gone) (t : Nat) : gone.count t ≤ 1 := by
  by_cases ht : t ∈ gone
  · exact Nat.le_of_eq (ho.once t (ho.only t ht) fun k hk => ho.kept k t hk ht)
  · rw [List.count_eq_zero.mpr ht]
    exact Nat.zero_le 1

/-- A new resource is given to a holder that has none. -/
theorem Once.take (ho : Once held n gone) (hk : held k = .none) :
    Once (Function.update held k (some n)) (n + 1) gone := by
  have hcases : ∀ j t, Function.update held k (some n) j = some t →
      (j = k ∧ t = n) ∨ (j ≠ k ∧ held j = some t) := by
    intro j t hj
    by_cases hjk : j = k
    · rw [hjk, Function.update_self] at hj
      exact .inl ⟨hjk, (Option.some.inj hj).symm⟩
    · rw [Function.update_of_ne hjk] at hj
      exact .inr ⟨hjk, hj⟩
  refine ⟨fun j t hj => ?_, fun j j' t hj hj' => ?_, fun j t hj ht => ?_, fun t ht => ?_,
    fun t ht hno => ?_⟩
  · rcases hcases j t hj with ⟨-, rfl⟩ | ⟨-, hj⟩
    · exact Nat.lt_succ_self t
    · exact Nat.lt_succ_of_lt (ho.got j t hj)
  · rcases hcases j t hj with ⟨hjk, htn⟩ | ⟨-, hold⟩
    · rcases hcases j' t hj' with ⟨hjk', -⟩ | ⟨-, hold'⟩
      · rw [hjk, hjk']
      · exact absurd (ho.got j' t hold') (by omega)
    · rcases hcases j' t hj' with ⟨-, htn⟩ | ⟨-, hold'⟩
      · exact absurd (ho.got j t hold) (by omega)
      · exact ho.unique j j' t hold hold'
  · rcases hcases j t hj with ⟨-, rfl⟩ | ⟨-, hj⟩
    · exact Nat.lt_irrefl t (ho.only t ht)
    · exact ho.kept j t hj ht
  · exact Nat.lt_succ_of_lt (ho.only t ht)
  · have hne : t ≠ n := fun h => hno k (by rw [Function.update_self, h])
    refine ho.once t (by omega) fun j hj => hno j ?_
    rw [Function.update_of_ne (fun h => ?_), hj]
    rw [h, hk] at hj
    cases hj

omit [DecidableEq κ] in
/-- A new resource is disposed of at once. -/
theorem Once.lose (ho : Once held n gone) : Once held (n + 1) (n :: gone) := by
  have hnew : n ∉ gone := fun hn => Nat.lt_irrefl n (ho.only n hn)
  refine ⟨fun j t hj => Nat.lt_succ_of_lt (ho.got j t hj), ho.unique, fun j t hj ht => ?_,
    fun t ht => ?_, fun t ht hno => ?_⟩
  · rcases List.mem_cons.mp ht with rfl | ht
    · exact Nat.lt_irrefl t (ho.got j t hj)
    · exact ho.kept j t hj ht
  · rcases List.mem_cons.mp ht with rfl | ht
    · exact Nat.lt_succ_self t
    · exact Nat.lt_succ_of_lt (ho.only t ht)
  · by_cases htn : t = n
    · rw [htn, List.count_cons_self, List.count_eq_zero.mpr hnew]
    · rw [List.count_cons_of_ne (Ne.symm htn)]
      exact ho.once t (by omega) hno

/-- A holder disposes of what it holds, if anything. -/
theorem Once.give (ho : Once held n gone) :
    Once (Function.update held k .none) n ((held k).toList ++ gone) := by
  cases hk : held k with
  | none =>
    have hsame : Function.update held k .none = held := by
      rw [← hk, Function.update_eq_self]
    rw [hsame]
    exact ho
  | some u =>
    have hcases : ∀ j t, Function.update held k .none j = some t → j ≠ k ∧ held j = some t := by
      intro j t hj
      by_cases hjk : j = k
      · rw [hjk, Function.update_self] at hj
        cases hj
      · rw [Function.update_of_ne hjk] at hj
        exact ⟨hjk, hj⟩
    have hu : u ∉ gone := ho.kept k u hk
    refine ⟨fun j t hj => ho.got j t (hcases j t hj).2,
      fun j j' t hj hj' => ho.unique j j' t (hcases j t hj).2 (hcases j' t hj').2,
      fun j t hj ht => ?_, fun t ht => ?_, fun t ht hno => ?_⟩
    · obtain ⟨hjk, hj⟩ := hcases j t hj
      rcases List.mem_cons.mp ht with rfl | ht
      · exact hjk (ho.unique j k t hj hk)
      · exact ho.kept j t hj ht
    · rcases List.mem_cons.mp ht with rfl | ht
      · exact ho.got k t hk
      · exact ho.only t ht
    · show (u :: gone).count t = 1
      by_cases htu : t = u
      · rw [htu, List.count_cons_self, List.count_eq_zero.mpr hu]
      · rw [List.count_cons_of_ne (Ne.symm htu)]
        refine ho.once t ht fun j hj => hno j ?_
        rw [Function.update_of_ne (fun h => ?_), hj]
        rw [h, hk] at hj
        exact htu (Option.some.inj hj).symm

end Disposal
