import Mathlib.Data.List.Basic
import Mathlib.Data.List.Count

/-!
# Ledgers

A record of events, the last first, of which some take an item out and some bring one back. The record
is balanced with the items that are out when each has been taken out once more often than brought back
for each time that it is out, and no item was ever brought back that was not out.
-/

namespace Ledger

variable {ε κ : Type}

theorem filterMap_append_of_none {p : ε → Option κ} {l : List ε} (hl : ∀ e ∈ l, p e = none)
    (l' : List ε) : (l ++ l').filterMap p = l'.filterMap p := by
  rw [List.filterMap_append, List.filterMap_eq_nil_iff.mpr hl, List.nil_append]

variable [DecidableEq κ]

/-- At no time had an item been brought back more often than taken out. -/
def InOrder (out back : ε → Option κ) (record : List ε) : Prop :=
  ∀ past, past <:+ record → ∀ k, (past.filterMap back).count k ≤ (past.filterMap out).count k

/-- The items that are out, by how often each is, are those taken out and not brought back. -/
structure Balanced (out back : ε → Option κ) (held : κ → Nat) (record : List ε) : Prop where
  exact : ∀ k, (record.filterMap out).count k = (record.filterMap back).count k + held k
  in_order : InOrder out back record

variable {out back : ε → Option κ} {held held' : κ → Nat} {record : List ε}

theorem in_order_cons {e : ε} : InOrder out back (e :: record) ↔ InOrder out back record ∧
    ∀ k, ((e :: record).filterMap back).count k ≤ ((e :: record).filterMap out).count k := by
  refine ⟨fun ho => ⟨fun past hp => ho past (hp.trans (List.suffix_cons e record)),
    ho _ (List.suffix_refl _)⟩, fun ho past hp => ?_⟩
  rcases List.suffix_cons_iff.mp hp with rfl | hp
  · exact ho.2
  · exact ho.1 past hp

theorem InOrder.here (ho : InOrder out back record) (k : κ) :
    (record.filterMap back).count k ≤ (record.filterMap out).count k :=
  ho record (List.suffix_refl record) k

/-- A call more is no call less. -/
theorem count_filterMap_cons_le (p : ε → Option κ) (e : ε) (l : List ε) (k : κ) :
    (l.filterMap p).count k ≤ ((e :: l).filterMap p).count k :=
  List.Sublist.count_le k ((List.sublist_cons_self e l).filterMap p)

/-- Events that bring nothing back may be added. -/
theorem InOrder.take {l : List ε} (ho : InOrder out back record) (hl : ∀ e ∈ l, back e = none) :
    InOrder out back (l ++ record) := by
  induction l with
  | nil => exact ho
  | cons e l ih =>
    have ih := ih fun e' he' => hl e' (List.mem_cons_of_mem _ he')
    rw [List.cons_append]
    refine in_order_cons.mpr ⟨ih, fun k => ?_⟩
    rw [List.filterMap_cons_none (hl e List.mem_cons_self)]
    exact Nat.le_trans (ih.here k) (count_filterMap_cons_le out e _ k)

/-- Events that take nothing out may be added, if they do not bring back more than is out. -/
theorem InOrder.give {l : List ε} (ho : InOrder out back record) (hl : ∀ e ∈ l, out e = none)
    (hle : ∀ k, ((l ++ record).filterMap back).count k ≤ (record.filterMap out).count k) :
    InOrder out back (l ++ record) := by
  induction l with
  | nil => exact ho
  | cons e l ih =>
    have hl' : ∀ e' ∈ l, out e' = none := fun e' he' => hl e' (List.mem_cons_of_mem _ he')
    have hout : (e :: (l ++ record)).filterMap out = record.filterMap out :=
      filterMap_append_of_none hl record
    rw [List.cons_append] at hle ⊢
    refine in_order_cons.mpr ⟨ih hl' fun k => ?_, fun k => ?_⟩
    · exact Nat.le_trans (count_filterMap_cons_le back e _ k) (hle k)
    · rw [hout]
      exact hle k

/-- The record has got events that take out and then events that bring back, and the items that are out
make up the difference. -/
def Extends (out back : ε → Option κ) (held held' : κ → Nat) (record record' : List ε) : Prop :=
  ∃ l l' : List ε, record' = l' ++ (l ++ record) ∧ (∀ e ∈ l, back e = none) ∧
    (∀ e ∈ l', out e = none) ∧
    ∀ k, (l.filterMap out).count k + held k = (l'.filterMap back).count k + held' k

/-- How much more often the item was taken out than brought back and is out. -/
def surplus (out back : ε → Option κ) (held : κ → Nat) (record : List ε) (k : κ) : Int :=
  (record.filterMap out).count k - (record.filterMap back).count k - held k

variable {record' : List ε}

theorem Extends.surplus (he : Extends out back held held' record record') (k : κ) :
    surplus out back held' record' k = surplus out back held record k := by
  obtain ⟨l, l', rfl, hl, hl', hheld⟩ := he
  have h0 := hheld k
  unfold Ledger.surplus
  rw [filterMap_append_of_none hl', List.filterMap_append, List.filterMap_append,
    filterMap_append_of_none hl, List.count_append, List.count_append]
  omega

/-- A balanced record stays balanced. -/
theorem Balanced.extend (hb : Balanced out back held record)
    (he : Extends out back held held' record record') : Balanced out back held' record' := by
  have hsurplus := he.surplus
  have hexact : ∀ k, (record'.filterMap out).count k =
      (record'.filterMap back).count k + held' k := fun k => by
    have h0 := hb.exact k
    have h1 := hsurplus k
    unfold Ledger.surplus at h1
    omega
  obtain ⟨l, l', rfl, hl, hl', -⟩ := he
  refine ⟨hexact, (hb.in_order.take hl).give hl' fun k => ?_⟩
  have h0 := hexact k
  rw [filterMap_append_of_none hl'] at h0
  omega

end Ledger
