import BafsDriver.Module.Exit
import BafsDriver.Proofs.MinorNumbers

/-!
# Unloading the module

`bafs_exit` removes the driver from the PCI devices, which drops one reference to each controller that
is bound, and takes the core device down. It deletes no group, and what still holds a controller keeps
it.
-/

set_option linter.style.nameCheck false

namespace BafsDriver

open Prog NumberPool

variable {h : Held Kind} {v : View} {s s' : State} {E : Fault → Prop}

/-! ## The claim -/

/-- No device file is open and nothing is mapped: the kernel allows the unload. -/
def unload_allowed (s : State) : Prop :=
  (∀ f, s.files.get f = none) ∧ ∀ i, s.vmas.get i = none

/-- Nothing that the module has allocated is left. -/
structure Unloaded (s : State) : Prop where
  cdevs : s.cdevs = []
  core_device : s.core_device = false
  devices : ∀ d x, s.devices.get d = some x → x.in_tree = false
  minors : s.bafs_minor_ida = []
  ctrl_ids : s.bafs_ctrl_ida = []
  group_ids : s.bafs_group_ida = []
  ctrls : ∀ c, s.ctrls.get c = none
  groups : ∀ g, s.groups.get g = none

/-- Every group has been deleted. -/
def groups_gone (s : State) : Prop := ∀ g, s.groups.get g = none

/-- The PCI devices that are bound are all that holds a controller. -/
def ctrls_bound (s : State) : Prop := ∀ c x, s.ctrls.get c = some x → x.ref = bound_refs s c

/-- The unload leaves nothing behind exactly if every group is gone and nothing but the PCI devices
holds a controller. -/
def unloads_clean (s : State) : Prop :=
  unload_allowed s → (wp bafs_exit (fun _ => False) (fun _ s' => Unloaded s') s ↔
    groups_gone s ∧ ctrls_bound s)

/-! ## The removal of the controllers -/

/-- What holds a controller besides the PCI device that is bound to it. -/
def other_refs (s : State) (c : CtrlId) : Nat :=
  s.groups.sum (fun x => x.ctrls.count c) + s.files.sum (File.ctrl_refs c) +
    s.dmas.count fun y => y.ctrl = c

theorem ctrl_holders_eq (s : State) (c : CtrlId) :
    ctrl_holders s c = bound_refs s c + other_refs s c := by
  unfold ctrl_holders other_refs
  omega

/-- The groups show in the view as far as they hold controllers. -/
theorem group_slots_congr (hv : s'.view = s.view) (c : CtrlId) :
    s'.groups.sum (fun x => x.ctrls.count c) = s.groups.sum fun x => x.ctrls.count c := by
  apply Heap.sum_congr
  intro g
  have hg : (s'.groups.get g).map BafsGroup.ctrls = (s.groups.get g).map BafsGroup.ctrls :=
    congrFun (congrArg View.group_ctrls hv) g
  have helim : ∀ o : Option BafsGroup,
      o.elim 0 (fun x => x.ctrls.count c) = (o.map BafsGroup.ctrls).elim 0 fun l => l.count c := by
    intro o
    cases o <;> rfl
  rw [helim, helim, hg]

theorem other_refs_congr (hv : s'.view = s.view) (hd : s'.dmas = s.dmas) (c : CtrlId) :
    other_refs s' c = other_refs s c := by
  have hfiles : s'.files = s.files := congrArg View.files hv
  unfold other_refs
  rw [group_slots_congr hv, hfiles, hd]

/-- What the removal of the PCI devices that are left in `es` starts from. -/
structure Removing (h : Held Kind) (s : State) (es : List (Sigma fun _ : Nat => CtrlId))
    (s' : State) : Prop where
  at_ : At h s.view s'
  left : s'.drvdata.entries = es
  dmas : s'.dmas = s.dmas
  numbered : Numbered 0 s'

theorem bafs_ctrl_pci_remove_removing {slot : Nat} {c : CtrlId}
    {es : List (Sigma fun _ : Nat => CtrlId)} (hh : NonNeg h)
    (hr : Removing h s (⟨slot, c⟩ :: es) s') :
    wp (bafs_ctrl_pci_remove slot c) E (fun _ t => Removing h s es t) s' := by
  have hbound : s'.drvdata.lookup slot = some c := by
    unfold AList.lookup
    rw [hr.left]
    exact List.dlookup_cons_eq _ _ _
  have hat := bafs_ctrl_pci_remove_spec (E := E) hr.at_ hh hbound
  have hkeep : wp (bafs_ctrl_pci_remove slot c) (fun _ => True) (fun _ t =>
      Grows no_call { s' with drvdata := s'.drvdata.erase slot } t ∧
        t.drvdata = s'.drvdata.erase slot) s' := by
    unfold bafs_ctrl_pci_remove
    rw [wp_bind, wp_modify]
    have hkeep := (bafs_ctrl_release_handles c).comp fun p => p.2.2
    exact hkeep.wp_and (bafs_ctrl_release_adds (A := no_call) _)
  refine wp_mono (wp_and hat hkeep) fun _ t ht => ?_
  obtain ⟨hat, hgrows, hdrv⟩ := ht
  have hdmas : t.dmas = s'.dmas := congrArg Prod.fst (hgrows.still fun p hp => hp)
  refine ⟨hat, ?_, hdmas.trans hr.dmas, hgrows.numbers.numbered 0 (hr.numbered.of_eq rfl)⟩
  rw [hdrv]
  show (s'.drvdata.entries).kerase slot = es
  rw [hr.left]
  exact List.kerase_cons_eq rfl

theorem pci_unregister_driver_spec (hs : At h s.view s) (hh : NonNeg h) (hn : Numbered 0 s) :
    wp pci_unregister_driver E (fun _ t => Removing h s [] t) s := by
  unfold pci_unregister_driver
  rw [wp_bind, wp_get]
  refine wp_each (Removing h s) (fun e es t ht => ?_) ⟨hs, rfl, rfl, hn⟩
  exact bafs_ctrl_pci_remove_removing hh ht

/-! ## What is left -/

/-- After the removal, a controller is left exactly if something else holds it. -/
theorem Removing.ctrl_gone_iff (hr : Removing h s [] s') (hs : At h s.view s) {c : CtrlId} :
    s'.ctrls.get c = none ↔ ∀ x, s.ctrls.get c = some x → x.ref = bound_refs s c := by
  have hbound : bound_refs s' c = 0 := by
    unfold bound_refs
    rw [hr.left]
    rfl
  have hdue : (ctrl_holders s' c : ℤ) + h .ctrl c = other_refs s c + h .ctrl c := by
    rw [ctrl_holders_eq, hbound, other_refs_congr hr.at_.view hr.dmas, Nat.zero_add]
  constructor
  · intro hgone x hx
    have hzero := hr.at_.wf.ctrl.none c hgone
    have hcount := hs.wf.ctrl.eq c x hx
    rw [hdue] at hzero
    rw [ctrl_holders_eq] at hcount
    push_cast at hcount
    omega
  · intro hall
    cases hc : s'.ctrls.get c with
    | none => rfl
    | some y =>
      exfalso
      have hpos := hr.at_.wf.ctrl.pos c y hc
      have hcount := hr.at_.wf.ctrl.eq c y hc
      rw [hdue] at hcount
      cases hx : s.ctrls.get c with
      | none =>
        have hzero := hs.wf.ctrl.none c hx
        rw [ctrl_holders_eq] at hzero
        push_cast at hzero
        omega
      | some x =>
        have hx₁ := hs.wf.ctrl.eq c x hx
        rw [ctrl_holders_eq, hall x hx] at hx₁
        push_cast at hx₁
        omega

/-- After the removal, the groups that are left are those that were there. -/
theorem Removing.groups_gone_iff {es : List (Sigma fun _ : Nat => CtrlId)} (hr : Removing h s es s') :
    groups_gone s' ↔ groups_gone s := by
  have hview : ∀ g, (s'.groups.get g).map BafsGroup.ctrls = (s.groups.get g).map BafsGroup.ctrls :=
    fun g => congrFun (congrArg View.group_ctrls hr.at_.view) g
  unfold groups_gone
  constructor
  · intro hgone g
    have hg := hview g
    rw [hgone g] at hg
    exact Option.map_eq_none_iff.mp hg.symm
  · intro hgone g
    have hg := hview g
    rw [hgone g] at hg
    exact Option.map_eq_none_iff.mp hg

/-- What `bafs_exit` makes of the state when the controllers have been removed. -/
def exited (s : State) : State :=
  { s with
    core_device := false
    core_ref := s.core_ref - 1
    cdevs := s.cdevs.erase bafs_core_minor
    bafs_global_ctx_xa := ∅
    bafs_minor_ida := s.bafs_minor_ida.erase bafs_core_minor }

/-- A pool in which nobody but the core device has a number. -/
theorem mem_pools_core {p : Pool} (hn : Numbered 0 s) (hc : ∀ c, s.ctrls.get c = none)
    (hg : groups_gone s) (k : Nat) : k ∈ pools s p ↔ 0 < core_numbers p k := by
  have hctrls : s.ctrls.sum (fun x => x.numbers p k) = 0 :=
    Heap.sum_eq_zero fun c x hx => by
      rw [hc c] at hx
      cases hx
  have hgroups : s.groups.sum (fun x => x.numbers p k) = 0 :=
    Heap.sum_eq_zero fun g x hx => by
      rw [hg g] at hx
      cases hx
  rw [hn.issued.mem_iff]
  show 0 < core_numbers p k + s.ctrls.sum (fun x => x.numbers p k) +
    s.groups.sum (fun x => x.numbers p k) + 0 ↔ _
  rw [hctrls, hgroups]
  simp only [Nat.add_zero]

theorem erase_only {l : List Nat} (hnd : l.Nodup) (hl : ∀ k, k ∈ l ↔ k = bafs_core_minor) :
    l.erase bafs_core_minor = [] := by
  apply List.eq_nil_iff_forall_not_mem.mpr
  intro k hk
  have hne := (hnd.mem_erase_iff.mp hk).1
  exact hne ((hl k).mp (hnd.mem_erase_iff.mp hk).2)

/-- The unload leaves nothing behind exactly if no controller and no group is left after the removal. -/
theorem unloaded_iff (hs : WF h s) (hn : Numbered 0 s) :
    Unloaded (exited s) ↔ (∀ c, s.ctrls.get c = none) ∧ groups_gone s := by
  constructor
  · intro hu
    exact ⟨hu.ctrls, hu.groups⟩
  · rintro ⟨hc, hg⟩
    have hmem : ∀ p k, k ∈ pools s p ↔ 0 < core_numbers p k := fun p k => mem_pools_core hn hc hg k
    have hempty : ∀ p, (∀ k, core_numbers p k = 0) → pools s p = [] := by
      intro p hp
      apply List.eq_nil_iff_forall_not_mem.mpr
      intro k hk
      have hpos := (hmem p k).mp hk
      rw [hp k] at hpos
      exact Nat.lt_irrefl 0 hpos
    refine ⟨?_, rfl, fun d x hx => ?_, ?_, ?_, ?_, hc, hg⟩
    · refine erase_only (hn.issued.nodup .cdev) fun k => (hmem .cdev k).trans ?_
      simp [core_numbers, one, weight_pos, bafs_core_minor]
    · cases htree : x.in_tree with
      | false => rfl
      | true =>
        exfalso
        obtain ⟨o, n, -, ho, -⟩ := hs.tree.child d x hx htree
        cases o with
        | ctrl c => simp [node_of, hc c] at ho
        | group g => simp [node_of, hg g] at ho
    · refine erase_only (hn.issued.nodup .minor) fun k => (hmem .minor k).trans ?_
      simp [core_numbers, one, weight_pos, bafs_core_minor]
    · exact hempty .ctrl_id fun k => by simp [core_numbers, one]
    · exact hempty .group_id fun k => by simp [core_numbers, one]

theorem unloads_clean_of (hs : At h s.view s) (hl : Lost h) (hn : Numbered 0 s) : unloads_clean s := by
  intro _
  have hremove := pci_unregister_driver_spec (E := fun _ => False) hs hl.nonneg hn
  have hexit : wp bafs_exit (fun _ => False) (fun _ s' => ∃ t, Removing h s [] t ∧ s' = exited t) s :=
    hremove.bind fun _ t ht => ⟨t, ht, rfl⟩
  have hleft : ∀ t, Removing h s [] t → (Unloaded (exited t) ↔ groups_gone s ∧ ctrls_bound s) := by
    intro t ht
    rw [unloaded_iff ht.at_.wf ht.numbered, ht.groups_gone_iff, and_comm]
    apply and_congr_right
    intro _
    apply forall_congr'
    intro c
    exact ht.ctrl_gone_iff hs
  constructor
  · intro hw
    obtain ⟨_, s', hu, t, ht, rfl⟩ := wp_join hw hexit fun _ h => h.elim
    exact (hleft t ht).mp hu
  · intro hc
    refine wp_mono hexit fun _ s' hs' => ?_
    obtain ⟨t, ht, rfl⟩ := hs'
    exact (hleft t ht).mpr hc

/-- In every state that a run reaches in which the kernel allows the unload, it leaves nothing behind
exactly if every group has been deleted and nothing but the PCI devices holds a controller. -/
theorem clean_unload (rs : List Request) : Always step (fun _ => True) unloads_clean rs init := by
  refine always_of_step (I := fun s => Inv s ∧ Numbered 0 s) (fun s r hi => ?_) (fun s hi => ?_) rs
    ⟨inv_init, Numbered.init⟩
  · exact wp_mono (step_minors r hi.1 hi.2) fun _ s' hs' => ⟨hs'.1, hs'.2.numbered⟩
  · obtain ⟨h, hl, hs⟩ := hi.1.sane.at
    exact unloads_clean_of hs hl hi.2

/-- A group of one controller is created, and the core device is closed. -/
def group_left : List Request :=
  [.bind 0 0x100000 4096, .open_core a_task granted_ctx, .create 0 [ctrl_dev_name 0], .close 0]

/-- Whether the kernel allows the unload and a group is left after it. -/
def leaves_group (s : State) : Bool :=
  s.files.count (fun _ => True) == 0 && s.vmas.count (fun _ => True) == 0 &&
    match bafs_exit s with
    | .ok (_, s') => (s'.groups.get 0).isSome
    | .error _ => false

/-- The unload leaves the group behind, and with it the controller. -/
theorem group_outlives_module : ¬Always step (fun _ => True)
    (fun s => unload_allowed s → wp bafs_exit (fun _ => False) (fun _ s' => Unloaded s') s)
    group_left init := by
  intro ha
  obtain ⟨s, hs, hp⟩ := ha.of_ends (p := leaves_group) (by decide +kernel)
  unfold leaves_group at hp
  rw [Bool.and_eq_true, Bool.and_eq_true, beq_iff_eq, beq_iff_eq] at hp
  obtain ⟨⟨hfiles, hvmas⟩, hleft⟩ := hp
  have hu := hs ⟨Heap.get_none_of_count hfiles, Heap.get_none_of_count hvmas⟩
  cases hexit : bafs_exit s with
  | error e =>
    rw [hexit] at hleft
    cases hleft
  | ok r =>
    have hgone := (wp_ok hu hexit).groups 0
    rw [hexit] at hleft
    simp [hgone] at hleft

end BafsDriver
