import BafsDriver.Lib.NumberPool
import BafsDriver.Proofs.KernelProofs

/-!
# The numbers of the devices

The core device, the controllers and the groups have minors from one pool, under which their character
devices are added, and the controllers and the groups have identifiers from a pool each. What a
function that makes and releases none but groups may do to them.
-/

set_option linter.style.nameCheck false

namespace BafsDriver

open Prog NumberPool

/-- The pools of numbers, and the minors of the character devices that have been added. -/
inductive Pool where
  | minor
  | cdev
  | ctrl_id
  | group_id
  deriving DecidableEq

/-- The numbers in use. -/
def pools (s : State) : Pool → List Nat
  | .minor => s.bafs_minor_ida
  | .cdev => s.cdevs
  | .ctrl_id => s.bafs_ctrl_ida
  | .group_id => s.bafs_group_ida

def BafsCtrl.numbers (x : BafsCtrl) : Holders Pool :=
  one .ctrl_id x.ctrl_id + one .minor x.minor + one .cdev x.minor

def BafsGroup.numbers (x : BafsGroup) : Holders Pool :=
  one .group_id x.group_id + one .minor x.minor + one .cdev x.minor

/-- The core device has the first minor. -/
def core_numbers : Holders Pool := one .minor 0 + one .cdev 0

/-- The numbers that the devices hold. -/
def holders (s : State) : Holders Pool := fun p k =>
  core_numbers p k + s.ctrls.sum (fun x => x.numbers p k) + s.groups.sum fun x => x.numbers p k

/-- The numbers in use are those of the devices and those that running code holds, each held once.
Running code has no character device without its minor. -/
structure Numbered (h : Holders Pool) (s : State) : Prop where
  issued : Issued (pools s) (holders s + h)
  paired : ∀ k, h .cdev k ≤ h .minor k

variable {h : Holders Pool} {s s' : State} {c : CtrlId} {g : GroupId}

/-! ## Devices that come and go -/

/-- Two controllers with the same numbers. -/
def same_ctrl (x y : BafsCtrl) : Prop := y.minor = x.minor ∧ y.ctrl_id = x.ctrl_id

/-- Two groups that differ in the count only. -/
def same_group (x y : BafsGroup) : Prop := y = { x with ref := y.ref }

theorem same_ctrl.numbers {x y : BafsCtrl} (he : same_ctrl x y) : y.numbers = x.numbers := by
  unfold BafsCtrl.numbers
  rw [he.1, he.2]

theorem same_group.numbers {x y : BafsGroup} (he : same_group x y) : y.numbers = x.numbers := by
  rw [he]
  rfl

theorem same_group_refl (x : BafsGroup) : same_group x x := rfl

theorem same_group_trans (x y z : BafsGroup) (h : same_group x y) (h' : same_group y z) :
    same_group x z := by
  unfold same_group at h h' ⊢
  rw [h', h]

theorem holders_ctrl_set {x y : BafsCtrl} (hc : s.ctrls.get c = some x) (he : same_ctrl x y) :
    holders { s with ctrls := s.ctrls.set c y } = holders s := by
  funext p k
  have hsum := Heap.sum_set_eq (f := fun z : BafsCtrl => z.numbers p k) (a := y) hc
    (congrFun (congrFun he.numbers p) k)
  unfold holders
  rw [hsum]

theorem holders_group_set {x y : BafsGroup} (hg : s.groups.get g = some x) (he : same_group x y) :
    holders { s with groups := s.groups.set g y } = holders s := by
  funext p k
  have hsum := Heap.sum_set_eq (f := fun z : BafsGroup => z.numbers p k) (a := y) hg
    (congrFun (congrFun he.numbers p) k)
  unfold holders
  rw [hsum]

theorem holders_ctrl_alloc {x : BafsCtrl} :
    holders { s with ctrls := s.ctrls.alloc x } = holders s + x.numbers := by
  funext p k
  show core_numbers p k + (s.ctrls.alloc x).sum (fun z => z.numbers p k) +
    s.groups.sum (fun z => z.numbers p k) = holders s p k + x.numbers p k
  unfold holders
  rw [Heap.sum_alloc]
  omega

theorem holders_group_alloc {x : BafsGroup} :
    holders { s with groups := s.groups.alloc x } = holders s + x.numbers := by
  funext p k
  show core_numbers p k + s.ctrls.sum (fun z => z.numbers p k) +
    (s.groups.alloc x).sum (fun z => z.numbers p k) = holders s p k + x.numbers p k
  unfold holders
  rw [Heap.sum_alloc]
  omega

theorem holders_ctrl_free {x : BafsCtrl} (hc : s.ctrls.get c = some x) :
    holders { s with ctrls := s.ctrls.free c } + x.numbers = holders s := by
  funext p k
  have hsum := Heap.sum_free (f := fun z : BafsCtrl => z.numbers p k) hc
  show core_numbers p k + (s.ctrls.free c).sum (fun z => z.numbers p k) +
    s.groups.sum (fun z => z.numbers p k) + x.numbers p k = holders s p k
  unfold holders
  omega

theorem holders_group_free {x : BafsGroup} (hg : s.groups.get g = some x) :
    holders { s with groups := s.groups.free g } + x.numbers = holders s := by
  funext p k
  have hsum := Heap.sum_free (f := fun z : BafsGroup => z.numbers p k) hg
  show core_numbers p k + s.ctrls.sum (fun z => z.numbers p k) +
    (s.groups.free g).sum (fun z => z.numbers p k) + x.numbers p k = holders s p k
  unfold holders
  omega

theorem BafsCtrl.numbers_cdev (x : BafsCtrl) (k : Nat) : x.numbers .cdev k = x.numbers .minor k := by
  simp [BafsCtrl.numbers, one]

theorem BafsGroup.numbers_cdev (x : BafsGroup) (k : Nat) :
    x.numbers .cdev k = x.numbers .minor k := by
  simp [BafsGroup.numbers, one]

/-- The character devices of the devices are added under their minors. -/
theorem holders_cdev (s : State) (k : Nat) : holders s .cdev k = holders s .minor k := by
  have hcore : core_numbers .cdev k = core_numbers .minor k := by
    simp [core_numbers, one]
  unfold holders
  simp only [hcore, BafsCtrl.numbers_cdev, BafsGroup.numbers_cdev]

/-! ## Numbers that are taken and given back -/

/-- What the numbers depend on. -/
def State.numbering (s : State) :
    Heap BafsCtrl × Heap BafsGroup × List Nat × List Nat × List Nat × List Nat :=
  (s.ctrls, s.groups, s.bafs_minor_ida, s.cdevs, s.bafs_ctrl_ida, s.bafs_group_ida)

namespace Numbered

theorem of_eq (hn : Numbered h s) (he : s'.numbering = s.numbering) : Numbered h s' := by
  cases s
  cases s'
  simp only [State.numbering, Prod.mk.injEq] at he
  obtain ⟨rfl, rfl, rfl, rfl, rfl, rfl⟩ := he
  exact ⟨⟨hn.issued.count, hn.issued.once⟩, hn.paired⟩

theorem congr {k : Holders Pool} (hn : Numbered h s) (he : k = h) : Numbered k s := he ▸ hn

/-- A number that is not in use is taken from its pool. -/
theorem take {p : Pool} {n : Nat} (hn : Numbered h s) (hfree : n ∉ pools s p)
    (hp : pools s' = Function.update (pools s) p (n :: pools s p)) (hs : holders s' = holders s)
    (hh : ∀ k, (h + one p n) .cdev k ≤ (h + one p n) .minor k) : Numbered (h + one p n) s' := by
  refine ⟨?_, hh⟩
  rw [hp, hs]
  exact (hn.issued.take hfree).congr (add_assoc _ _ _).symm

/-- A number is put back into its pool. -/
theorem give {p : Pool} {n : Nat} (hn : Numbered (h + one p n) s)
    (hp : pools s' = Function.update (pools s) p ((pools s p).erase n))
    (hs : holders s' = holders s) (hh : ∀ k, h .cdev k ≤ h .minor k) : Numbered h s' := by
  refine ⟨?_, hh⟩
  rw [hp, hs]
  exact (hn.issued.congr (add_assoc _ _ _)).give

theorem give_minor {n : Nat} (hn : Numbered (h + one .minor n) s)
    (hh : ∀ k, h .cdev k ≤ h .minor k) :
    Numbered h { s with bafs_minor_ida := s.bafs_minor_ida.erase n } :=
  hn.give (by funext p; cases p <;> rfl) rfl hh

theorem give_cdev {n : Nat} (hn : Numbered (h + one .cdev n) s) :
    Numbered h { s with cdevs := s.cdevs.erase n } :=
  hn.give (by funext p; cases p <;> rfl) rfl fun k => le_trans (Nat.le_add_right _ _) (hn.paired k)

theorem give_ctrl_id {n : Nat} (hn : Numbered (h + one .ctrl_id n) s) :
    Numbered h { s with bafs_ctrl_ida := s.bafs_ctrl_ida.erase n } :=
  hn.give (by funext p; cases p <;> rfl) rfl fun k => hn.paired k

theorem give_group_id {n : Nat} (hn : Numbered (h + one .group_id n) s) :
    Numbered h { s with bafs_group_ida := s.bafs_group_ida.erase n } :=
  hn.give (by funext p; cases p <;> rfl) rfl fun k => hn.paired k

theorem take_ctrl_id (hn : Numbered h s) : Numbered (h + one .ctrl_id (lowestFree s.bafs_ctrl_ida))
    { s with bafs_ctrl_ida := lowestFree s.bafs_ctrl_ida :: s.bafs_ctrl_ida } :=
  hn.take (p := .ctrl_id) (lowestFree_not_mem _) (by funext p; cases p <;> rfl) rfl fun k => hn.paired k

theorem take_group_id (hn : Numbered h s) :
    Numbered (h + one .group_id (lowestFree s.bafs_group_ida))
      { s with bafs_group_ida := lowestFree s.bafs_group_ida :: s.bafs_group_ida } :=
  hn.take (p := .group_id) (lowestFree_not_mem _) (by funext p; cases p <;> rfl) rfl
    fun k => hn.paired k

theorem take_minor (hn : Numbered h s) : Numbered (h + one .minor (lowestFree s.bafs_minor_ida))
    { s with bafs_minor_ida := lowestFree s.bafs_minor_ida :: s.bafs_minor_ida } :=
  hn.take (p := .minor) (lowestFree_not_mem _) (by funext p; cases p <;> rfl) rfl
    fun k => le_trans (hn.paired k) (Nat.le_add_right _ _)

/-- The character device of a minor that was just taken is added. -/
theorem take_cdev {n : Nat} (hn : Numbered (h + one .minor n) s) (hh : ∀ k, h .cdev k ≤ h .minor k) :
    Numbered (h + one .minor n + one .cdev n) { s with cdevs := n :: s.cdevs } := by
  have hone : holders s .minor n + (h .minor n + one Pool.minor n .minor n) ≤ 1 := hn.issued.once .minor n
  rw [one_self] at hone
  have hcdev := hh n
  have hfree : n ∉ pools s .cdev := by
    rw [hn.issued.mem_iff]
    show ¬0 < holders s .cdev n + (h .cdev n + one Pool.minor n .cdev n)
    have hzero : one Pool.minor n .cdev n = 0 := by simp [one]
    rw [holders_cdev]
    omega
  refine hn.take (p := .cdev) hfree (by funext p; cases p <;> rfl) rfl fun k => ?_
  have hk := hh k
  show h .cdev k + one Pool.minor n .cdev k + one Pool.cdev n .cdev k ≤
    h .minor k + one Pool.minor n .minor k + one Pool.cdev n .minor k
  simp [one]
  omega

theorem ctrl_alloc {x : BafsCtrl} (hn : Numbered (h + x.numbers) s)
    (hh : ∀ k, h .cdev k ≤ h .minor k) : Numbered h { s with ctrls := s.ctrls.alloc x } := by
  refine ⟨(hn.issued.congr ?_ : Issued (pools s) _), hh⟩
  rw [holders_ctrl_alloc, add_assoc, add_comm x.numbers]

theorem group_alloc {x : BafsGroup} (hn : Numbered (h + x.numbers) s)
    (hh : ∀ k, h .cdev k ≤ h .minor k) : Numbered h { s with groups := s.groups.alloc x } := by
  refine ⟨(hn.issued.congr ?_ : Issued (pools s) _), hh⟩
  rw [holders_group_alloc, add_assoc, add_comm x.numbers]

theorem ctrl_free {x : BafsCtrl} (hn : Numbered h s) (hc : s.ctrls.get c = some x) :
    Numbered (h + x.numbers) { s with ctrls := s.ctrls.free c } := by
  refine ⟨(hn.issued.congr ?_ : Issued (pools s) _), fun k => ?_⟩
  · rw [← holders_ctrl_free hc, add_assoc, add_comm x.numbers]
  · exact Nat.add_le_add (hn.paired k) (x.numbers_cdev k).le

/-- A device gives its numbers back after it is gone. -/
theorem give_all {p : Pool} {n id : Nat}
    (hn : Numbered (h + (one p id + one .minor n + one .cdev n)) s) (hh : ∀ k, h .cdev k ≤ h .minor k)
    (hp : p = .ctrl_id ∨ p = .group_id) : Numbered (h + one p id)
      { s with cdevs := s.cdevs.erase n, bafs_minor_ida := s.bafs_minor_ida.erase n } := by
  have hpaired : ∀ k, (h + one p id) .cdev k ≤ (h + one p id) .minor k := by
    rcases hp with rfl | rfl
    · exact hh
    · exact hh
  have hcdev : Numbered (h + one p id + one .minor n + one .cdev n) s :=
    hn.congr (by rw [add_assoc, add_assoc, add_assoc])
  exact hcdev.give_cdev.give_minor hpaired

/-- A new device holds the numbers that were taken for it. -/
theorem take_all {p : Pool} {id : Nat} (hn : Numbered (h + one p id) s)
    (hh : ∀ k, h .cdev k ≤ h .minor k) (hp : p = .ctrl_id ∨ p = .group_id) :
    Numbered (h + (one p id + one .minor (lowestFree s.bafs_minor_ida) +
        one .cdev (lowestFree s.bafs_minor_ida)))
      { s with
        bafs_minor_ida := lowestFree s.bafs_minor_ida :: s.bafs_minor_ida
        cdevs := lowestFree s.bafs_minor_ida :: s.cdevs } := by
  have hpaired : ∀ k, (h + one p id) .cdev k ≤ (h + one p id) .minor k := by
    rcases hp with rfl | rfl
    · exact hh
    · exact hh
  refine (hn.take_minor.take_cdev hpaired).congr ?_
  rw [add_assoc, add_assoc, add_assoc]

/-- A controller is made with the lowest free numbers. -/
theorem ctrl_made {x : BafsCtrl} (hn : Numbered h s) (hid : x.ctrl_id = lowestFree s.bafs_ctrl_ida)
    (hm : x.minor = lowestFree s.bafs_minor_ida) : Numbered h { s with
      bafs_ctrl_ida := lowestFree s.bafs_ctrl_ida :: s.bafs_ctrl_ida
      bafs_minor_ida := lowestFree s.bafs_minor_ida :: s.bafs_minor_ida
      cdevs := lowestFree s.bafs_minor_ida :: s.cdevs
      ctrls := s.ctrls.alloc x } := by
  have hx : x.numbers = one .ctrl_id (lowestFree s.bafs_ctrl_ida) +
      one .minor (lowestFree s.bafs_minor_ida) + one .cdev (lowestFree s.bafs_minor_ida) := by
    rw [BafsCtrl.numbers, hid, hm]
  have htaken := hn.take_ctrl_id.take_all hn.paired (.inl rfl)
  exact ctrl_alloc (x := x) (htaken.congr (by rw [hx])) hn.paired

theorem group_free {x : BafsGroup} (hn : Numbered h s) (hg : s.groups.get g = some x) :
    Numbered (h + x.numbers) { s with groups := s.groups.free g } := by
  refine ⟨(hn.issued.congr ?_ : Issued (pools s) _), fun k => ?_⟩
  · rw [← holders_group_free hg, add_assoc, add_comm x.numbers]
  · exact Nat.add_le_add (hn.paired k) (x.numbers_cdev k).le

/-- After `bafs_init` the core device has its minor. -/
theorem init : Numbered 0 init := by
  refine ⟨⟨fun p k => ?_, fun p k => ?_⟩, fun k => le_rfl⟩
  · have hsum : (holders BafsDriver.init + 0) p k = core_numbers p k := rfl
    rw [hsum]
    cases p <;> simp [pools, BafsDriver.init, core_numbers, one, List.count_singleton, beq_iff_eq,
      eq_comm (a := k)]
  · show core_numbers p k ≤ 1
    cases p <;> simp [core_numbers, one] <;> split <;> omega

end Numbered

/-! ## What a function may do to the numbers -/

/-- Whatever numbers running code holds, the numbers in use stay those that are held. No controller
is made, and those that stay keep their numbers, as do the groups that stay. -/
structure Renumbers (s s' : State) : Prop where
  numbered : ∀ h, Numbered h s → Numbered h s'
  ctrls : ∀ c y, s'.ctrls.get c = some y → ∃ x, s.ctrls.get c = some x ∧ same_ctrl x y
  groups : s.groups.Kept same_group s'.groups

theorem Renumbers.of_eq (he : s'.numbering = s.numbering) : Renumbers s s' := by
  have hctrls : s'.ctrls = s.ctrls := congrArg (fun p => p.1) he
  have hgroups : s'.groups = s.groups := congrArg (fun p => p.2.1) he
  refine ⟨fun h hn => hn.of_eq he, fun c y hy => ⟨y, hctrls ▸ hy, rfl, rfl⟩, ?_⟩
  rw [hgroups]
  exact .refl same_group_refl _

instance : IsPreorder State Renumbers where
  refl _ := .of_eq rfl
  trans s₁ s₂ s₃ h h' := by
    refine ⟨fun k hk => h'.numbered k (h.numbered k hk), fun c z hz => ?_,
      h.groups.trans same_group_trans h'.groups⟩
    obtain ⟨y, hy, hyz⟩ := h'.ctrls c z hz
    obtain ⟨x, hx, hxy⟩ := h.ctrls c y hy
    exact ⟨x, hx, hyz.1.trans hxy.1, hyz.2.trans hxy.2⟩

theorem Renumbers.ctrl_set {x y : BafsCtrl} (hc : s.ctrls.get c = some x) (he : same_ctrl x y) :
    Renumbers s { s with ctrls := s.ctrls.set c y } := by
  refine ⟨fun h hn => ⟨?_, hn.paired⟩, fun d z hz => ?_, .refl same_group_refl _⟩
  · refine (hn.issued.congr ?_ : Issued (pools s) _)
    rw [holders_ctrl_set hc he]
  · rcases Heap.get_set_cases hc hz with ⟨rfl, rfl⟩ | ⟨-, hz⟩
    · exact ⟨x, hc, he⟩
    · exact ⟨z, hz, rfl, rfl⟩

theorem Renumbers.group_set {x y : BafsGroup} (hg : s.groups.get g = some x) (he : same_group x y) :
    Renumbers s { s with groups := s.groups.set g y } := by
  refine ⟨fun h hn => ⟨?_, hn.paired⟩, fun d z hz => ⟨z, hz, rfl, rfl⟩, .set same_group_refl hg he⟩
  refine (hn.issued.congr ?_ : Issued (pools s) _)
  rw [holders_group_set hg he]

/-- A controller is released. -/
theorem Renumbers.ctrl_release {x : BafsCtrl} (hc : s.ctrls.get c = some x) : Renumbers s { s with
    ctrls := s.ctrls.free c
    cdevs := s.cdevs.erase x.minor
    bafs_ctrl_ida := s.bafs_ctrl_ida.erase x.ctrl_id
    bafs_minor_ida := s.bafs_minor_ida.erase x.minor } := by
  refine ⟨fun h hn => ?_, fun d z hz => ⟨z, (Heap.get_of_free hz).2, rfl, rfl⟩,
    .refl same_group_refl _⟩
  have hfree : Numbered (h + x.numbers) { s with ctrls := s.ctrls.free c } := hn.ctrl_free hc
  exact (hfree.give_all hn.paired (.inl rfl)).give_ctrl_id

/-- A group is released, and with it the controllers that only it still held. -/
theorem Renumbers.group_release {x : BafsGroup} {t : State} (hg : s.groups.get g = some x)
    (ht : Renumbers { s with groups := s.groups.free g } t) : Renumbers s { t with
      cdevs := t.cdevs.erase x.minor
      bafs_group_ida := t.bafs_group_ida.erase x.group_id
      bafs_minor_ida := t.bafs_minor_ida.erase x.minor } := by
  refine ⟨fun h hn => ?_, ht.ctrls, (Heap.Kept.free same_group_refl).trans same_group_trans ht.groups⟩
  have hfree : Numbered (h + x.numbers) t := ht.numbered _ (hn.group_free hg)
  exact (hfree.give_all hn.paired (.inr rfl)).give_group_id

/-- A group is made with the lowest free numbers. -/
theorem Renumbers.group_made {x : BafsGroup} (hid : x.group_id = lowestFree s.bafs_group_ida)
    (hm : x.minor = lowestFree s.bafs_minor_ida) : Renumbers s { s with
      bafs_group_ida := lowestFree s.bafs_group_ida :: s.bafs_group_ida
      bafs_minor_ida := lowestFree s.bafs_minor_ida :: s.bafs_minor_ida
      cdevs := lowestFree s.bafs_minor_ida :: s.cdevs
      groups := s.groups.alloc x } := by
  refine ⟨fun h hn => ?_, fun d z hz => ⟨z, hz, rfl, rfl⟩, .alloc same_group_refl⟩
  have hx : x.numbers = one .group_id (lowestFree s.bafs_group_ida) +
      one .minor (lowestFree s.bafs_minor_ida) + one .cdev (lowestFree s.bafs_minor_ida) := by
    rw [BafsGroup.numbers, hid, hm]
  have htaken := hn.take_group_id.take_all hn.paired (.inr rfl)
  exact Numbered.group_alloc (x := x) (htaken.congr (by rw [hx])) hn.paired

end BafsDriver
