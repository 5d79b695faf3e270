import Mathlib.Data.List.Perm.Subperm
import Mathlib.Data.List.Nodup
import Mathlib.Data.List.Range

/-!
# The lowest number that is not in use

Identifier allocators hand out the lowest free number. Among the first `n + 1` numbers one is not in
a list of length `n`, so a bounded search finds it.
-/

/-- The lowest number that does not occur in `used`. -/
def lowestFree (used : List Nat) : Nat :=
  ((List.range (used.length + 1)).find? fun n => n ∉ used).getD 0

theorem exists_free (used : List Nat) : ∃ n ∈ List.range (used.length + 1), n ∉ used := by
  by_contra hn
  push Not at hn
  have hle := (List.subperm_of_subset (List.nodup_range (n := used.length + 1)) hn).length_le
  rw [List.length_range] at hle
  omega

/-- The number handed out is free, and every number below it is in use. -/
theorem lowestFree_spec (used : List Nat) :
    lowestFree used ∉ used ∧ ∀ n, n < lowestFree used → n ∈ used := by
  obtain ⟨n, hn, hfree⟩ := exists_free used
  have hsome : ((List.range (used.length + 1)).find? fun n => n ∉ used).isSome := by
    rw [List.find?_isSome]
    exact ⟨n, hn, by simpa using hfree⟩
  obtain ⟨m, hm⟩ := Option.isSome_iff_exists.mp hsome
  have he : lowestFree used = m := by rw [lowestFree, hm, Option.getD_some]
  obtain ⟨hm1, -, hm2⟩ := List.find?_range_eq_some.mp hm
  rw [he]
  exact ⟨by simpa using hm1, fun n hn => by simpa using hm2 n hn⟩

theorem lowestFree_not_mem (used : List Nat) : lowestFree used ∉ used :=
  (lowestFree_spec used).1

/-- While fewer than `N` numbers are in use, all of them below `N`, the next one is below `N` too. -/
theorem lowestFree_lt_iff {used : List Nat} {N : Nat} (hnd : used.Nodup) (hlt : ∀ n ∈ used, n < N) :
    lowestFree used < N ↔ used.length < N := by
  obtain ⟨hfree, hbelow⟩ := lowestFree_spec used
  constructor
  · intro hN
    have hsub : (lowestFree used :: used) ⊆ List.range N := by
      intro n hn
      rw [List.mem_range]
      rcases List.mem_cons.mp hn with rfl | hn
      · exact hN
      · exact hlt n hn
    have hle := (List.subperm_of_subset (List.nodup_cons.mpr ⟨hfree, hnd⟩) hsub).length_le
    rw [List.length_range] at hle
    exact hle
  · intro hlen
    by_contra hge
    have hsub : List.range N ⊆ used := by
      intro n hn
      exact hbelow n (lt_of_lt_of_le (List.mem_range.mp hn) (Nat.not_lt.mp hge))
    have hle := (List.subperm_of_subset List.nodup_range hsub).length_le
    rw [List.length_range] at hle
    omega
