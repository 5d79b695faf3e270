import BafsDriver.Proofs.RegProofs
import BafsDriver.Scenario

/-!
# What a deletion takes for a group

Controllers and groups are children of one device and are found by one lookup, which hands out their
driver data as an untyped pointer. The creation of a group checks the class of what it finds, the
deletion does not: it touches nothing but groups exactly if the name is not that of a controller.
-/

namespace BafsDriver

open Prog

variable {h : Held Kind} {v : View} {s : State} {E : Fault → Prop}

/-- A deletion drops a reference only where the name is that of a group. For any other name it fails
and leaves every group, controller and device as it was. -/
def DeletesGroupsOnly (params : BAFS_CORE_IOC_DELETE_GROUP_PARAMS) (copy : Bool) (s : State) : Prop :=
  wp (bafs_core_delete_group params copy) (fun _ => False)
    (fun ret s' => (copy = true ∧ ∃ g, group_named s params.group_name g) ∨
      (ret < 0 ∧ s'.groups = s.groups ∧ s'.ctrls = s.ctrls ∧ s'.devices = s.devices)) s

/-- Where no child is found, nothing is done. -/
theorem delete_not_found {params : BAFS_CORE_IOC_DELETE_GROUP_PARAMS} {copy : Bool}
    (hno : copy = true → ∀ d, ¬child_named s params.group_name d) :
    wp (bafs_core_delete_group params copy) E (fun ret s' => ret < 0 ∧ s' = s) s := by
  unfold bafs_core_delete_group
  refine wp_ite (fun _ => ⟨by decide, rfl⟩) fun hcopy => ?_
  have hno := hno (by simpa using hcopy)
  unfold strncpy_from_user
  cases hn : params.group_name with
  | none =>
    dsimp only
    rw [if_pos (by decide)]
    exact ⟨by decide, rfl⟩
  | some str =>
    dsimp only
    by_cases hlt : str.length < MAX_NAME_LEN
    · rw [if_pos hlt]
      dsimp only
      rw [if_neg (by omega), if_neg (by omega), device_find_child_by_name, wp_bind, wp_bind, wp_get]
      cases hd : find_child s str with
      | none => exact ⟨by decide, rfl⟩
      | some d => exact absurd ⟨str, hn, hlt, hd⟩ (hno d)
    · rw [if_neg hlt]
      dsimp only
      rw [if_neg (by decide), if_pos rfl]
      exact ⟨by decide, rfl⟩

theorem deletes_groups_only_iff {params : BAFS_CORE_IOC_DELETE_GROUP_PARAMS} {copy : Bool}
    (hs : At h v s) (hh : NonNeg h) :
    DeletesGroupsOnly params copy s ↔ (copy = true → ¬ctrl_name s params.group_name) := by
  constructor
  · intro hw hcopy hctrl
    have hspec : wp (bafs_core_delete_group params copy) (fun e => e = .wrong_type) _ s :=
      bafs_core_delete_group_spec hs hh fun _ _ => rfl
    obtain ⟨ret, s', -, h', v', hdel, -⟩ := wp_join hw hspec fun e he _ => he
    -- the deletion of a controller does not return
    cases hdel with
    | refused hno hret =>
      obtain ⟨d, w, c, hd, -⟩ := hctrl.child
      exact hno hcopy d hd
    | deleted hc hg hl => exact hg.not_ctrl hctrl
  · intro hno
    by_cases hfound : copy = true ∧ ∃ d, child_named s params.group_name d
    · obtain ⟨hcopy, d, hd⟩ := hfound
      have hspec : wp (bafs_core_delete_group params copy) (fun _ => False) _ s :=
        bafs_core_delete_group_spec hs hh fun hc hctrl => hno hc hctrl
      refine wp_mono hspec fun ret s' hs' => ?_
      obtain ⟨h', v', hdel, -⟩ := hs'
      cases hdel with
      | refused hnone hret => exact absurd hd (hnone hcopy d)
      | deleted hc hg hl => exact .inl ⟨hc, _, hg⟩
    · have hnone : copy = true → ∀ d, ¬child_named s params.group_name d :=
        fun hcopy d hd => hfound ⟨hcopy, d, hd⟩
      refine wp_mono (delete_not_found hnone) fun ret s' hs' => ?_
      obtain ⟨hret, rfl⟩ := hs'
      exact .inr ⟨hret, rfl, rfl, rfl⟩

/-- In every state that a run reaches, a deletion touches nothing but groups exactly if the name it is
given is not that of a controller. -/
theorem delete_touches_groups_only (rs : List Request) :
    Always step (fun _ => True) (fun s => ∀ params copy,
      DeletesGroupsOnly params copy s ↔ (copy = true → ¬ctrl_name s params.group_name)) rs init := by
  refine always_of_step (I := Inv) (fun s r hi => ?_) (fun s hi params copy => ?_) rs inv_init
  · obtain ⟨h, -, -, hw⟩ := step_inv r hi
    exact wp_weaken (wp_mono hw fun _ s' hs' => hs'.1) fun _ _ => trivial
  · obtain ⟨h, hl, hs⟩ := hi.sane.at
    exact deletes_groups_only_iff hs hl.nonneg

/-- A request for the deletion of the first controller. -/
def delete_ctrl : BAFS_CORE_IOC_DELETE_GROUP_PARAMS := { group_name := some (ctrl_dev_name 0) }

/-- The first controller is taken for a group. -/
theorem ctrl_deleted : ¬Always step (fun _ => True) (DeletesGroupsOnly delete_ctrl true)
    [.bind 0 0x100000 4096] init := by
  intro h
  obtain ⟨s, hs, hd⟩ := h.of_ends (p := fun s => match bafs_core_delete_group delete_ctrl true s with
    | .ok _ => false
    | .error _ => true) (by decide +kernel)
  unfold DeletesGroupsOnly wp at hs
  cases hrun : bafs_core_delete_group delete_ctrl true s with
  | ok r =>
    rw [hrun] at hd
    cases hd
  | error e =>
    rw [hrun] at hs
    exact hs

end BafsDriver
