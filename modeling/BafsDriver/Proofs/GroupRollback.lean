import BafsDriver.Proofs.GroupRelease
import BafsDriver.Scenario

/-!
# Creations of groups that fail

A request that creates a group and fails gives back all that it has taken, but for the device that it
has looked up under a name that is not that of a controller: the lookup takes a reference, and the loop
leaves at the class check without giving it back.
-/

set_option linter.style.nameCheck false

namespace BafsDriver

open Prog

variable {h : Held Kind} {v : View} {s t u w : State} {E : Fault → Prop} {names : List Name}
  {lost : List DeviceId} {ctrls dead : List CtrlId} {x : BafsGroup}

/-! ## The claim -/

/-- All but the devices is as it was in the state `s`, and every block that has been allocated since has
been freed. -/
structure OthersRestored (s t : State) : Prop where
  core_ref : t.core_ref = s.core_ref
  ctrls : ∀ c, t.ctrls.get c = s.ctrls.get c
  groups : ∀ g, t.groups.get g = s.groups.get g
  minors : t.bafs_minor_ida = s.bafs_minor_ida
  ctrl_ids : t.bafs_ctrl_ida = s.bafs_ctrl_ida
  group_ids : t.bafs_group_ida = s.bafs_group_ida
  cdevs : t.cdevs = s.cdevs
  blocks : s.blocks.Returned t.blocks

/-- In addition the devices are as they were, with their counts. -/
structure Restored (s t : State) : Prop extends OthersRestored s t where
  devices : ∀ d, t.devices.get d = s.devices.get d

/-- The request is read, the memory for the group and for its devices is there, and the first of the
names that is not that of a controller is that of another device. -/
def keeps_device (s : State) (params : BAFS_CORE_IOC_CREATE_GROUP_PARAMS) (env : CreateGroupEnv) : Prop :=
  env.copy_from_user = true ∧ env.kzalloc = true ∧
    names_readable params.ctrls params.n_ctrls.toNat ∧ env.alloc.kzalloc_group = true ∧
    env.alloc.kzalloc_ctrl_devices = true ∧
    (kept_device s (name_list params.ctrls params.n_ctrls.toNat)).isSome

/-! ## What a failed creation leaves -/

/-- All is as it was in the state `s` but for references to the devices of the list. -/
structure RestoredBut (lost : List DeviceId) (s t : State) : Prop extends OthersRestored s t where
  raised : ∀ d, t.devices.get d = (s.devices.get d).map (Device.raise (lost.count d))

theorem raise_nil {d : DeviceId} : (s.devices.get d).map (Device.raise (([] : List DeviceId).count d)) =
    s.devices.get d := by
  cases s.devices.get d <;> rfl

theorem restored_iff : Restored s t ↔ RestoredBut [] s t := by
  constructor
  · intro hr
    exact ⟨hr.toOthersRestored, fun d => (hr.devices d).trans raise_nil.symm⟩
  · intro hr
    exact ⟨hr.toOthersRestored, fun d => (hr.raised d).trans raise_nil⟩

theorem RestoredBut.refl (s : State) : RestoredBut [] s s :=
  restored_iff.mp ⟨⟨rfl, fun _ => rfl, fun _ => rfl, rfl, rfl, rfl, rfl, .refl _⟩, fun _ => rfl⟩

/-- A block that is allocated first and freed last. -/
theorem RestoredBut.free (hr : RestoredBut lost { s with blocks := s.blocks.alloc () } t)
    (hold : ∀ b ∈ s.blocks.freed, b < s.blocks.next) :
    RestoredBut lost s { t with blocks := t.blocks.free s.blocks.next } :=
  ⟨⟨hr.core_ref, hr.ctrls, hr.groups, hr.minors, hr.ctrl_ids, hr.group_ids, hr.cdevs,
    hr.blocks.bracket hold⟩, hr.raised⟩

/-- A creation that makes no group leaves all as it was but for the devices that it keeps. -/
theorem AllocFailed.restored {env : GroupAllocEnv} (hf : AllocFailed s names env t) :
    RestoredBut (kept_devices s names env) s t := by
  have heq := hf.eq
  refine ⟨⟨?_, fun c => ?_, fun g => ?_, ?_, ?_, ?_, ?_, hf.blocks⟩, hf.raised.get⟩
  all_goals rw [heq]

/-- The release of a group right after it has been made undoes the creation. -/
theorem GroupAlloced.undone {tr : List Event} (ha : GroupAlloced s names ctrls t)
    (hpos : ∀ c k, s.ctrls.get c = some k → 0 < k.ref) (hold : ∀ b ∈ s.blocks.freed, b < s.blocks.next)
    (hx : t.groups.get s.groups.next = some x)
    (hp : GroupPut s.groups.next x dead { t with trace := tr } u) : RestoredBut [] s u := by
  obtain rfl := Option.some.inj (ha.get.symm.trans hx)
  have heq := ha.eq
  have hr := ha.raised
  generalize t.ctrls = C at heq hr
  subst heq
  have hctrls : ∀ c, u.ctrls.get c = s.ctrls.get c := fun c => by
    have hc : u.ctrls.get c = (C.get c).bind fun k => less_refs k (ctrls.count c) := hp.ctrls c
    rw [hc, hr.get c]
    cases hk : s.ctrls.get c with
    | none => rfl
    | some k =>
      have hk0 := hpos c k hk
      show less_refs (BafsCtrl.raise (ctrls.count c) k) (ctrls.count c) = some k
      unfold less_refs BafsCtrl.raise
      rw [if_pos (by show ctrls.count c < k.ref + ctrls.count c; omega)]
      show some { k with ref := k.ref + ctrls.count c - ctrls.count c } = some k
      rw [Nat.add_sub_cancel]
  obtain rfl : dead = [] := by
    refine List.eq_nil_iff_forall_not_mem.mpr fun c hc => ?_
    obtain ⟨hsome, hnone⟩ := (hp.gone c).mp hc
    have hsome : (C.get c).isSome := hsome
    rw [hctrls c] at hnone
    rw [hr.get c, hnone] at hsome
    cases hsome
  refine restored_iff.mp ⟨⟨?_, hctrls, fun g => ?_, ?_, ?_, ?_, ?_, ?_⟩, fun d => ?_⟩
  · rw [hp.core_ref]
    show s.core_ref + 1 - 1 - 0 = s.core_ref
    omega
  · rw [hp.groups g]
    show (if g = s.groups.next then none else (s.groups.alloc _).get g) = _
    rw [Heap.get_alloc]
    by_cases hg : g = s.groups.next
    · rw [if_pos hg, hg, Heap.get_next]
    · rw [if_neg hg, if_neg hg]
  · rw [hp.minors]
    exact List.erase_cons_head ..
  · rw [hp.ctrl_ids]
    rfl
  · rw [hp.group_ids]
    exact List.erase_cons_head ..
  · rw [hp.cdevs]
    exact List.erase_cons_head ..
  · rw [hp.blocks]
    refine Heap.Returned.bracket (a := ()) (.of_freed (l := [s.blocks.next + 2, s.blocks.next + 1]) ?_ ?_ rfl
      fun b hb => ?_) hold
    · rw [Heap.next_alloc]
      exact List.Perm.swap ..
    · show ((((((s.blocks.alloc ()).alloc ()).alloc ()).free _).free _).next : Nat) = _
      simp only [Heap.next_free, Heap.next_alloc]
      rfl
    · rw [Heap.next_alloc]
      exact Nat.lt_succ_of_lt (hold b hb)
  · by_cases hd : d = s.devices.next
    · rw [hd, Heap.get_next]
      refine hp.freed (group_node s) ?_ rfl
      show (s.devices.alloc _).get s.devices.next = _
      rw [Heap.get_alloc, if_pos rfl]
    · have hno : d ∉ [s.devices.next] := fun hin => hd (List.mem_singleton.mp hin)
      refine (hp.devices d hno).trans ?_
      show (s.devices.alloc _).get d = _
      rw [Heap.get_alloc, if_neg hd]

theorem not_keeps_of_none {params : BAFS_CORE_IOC_CREATE_GROUP_PARAMS} {env : CreateGroupEnv}
    (hd : kept_device s (name_list params.ctrls params.n_ctrls.toNat) = none) :
    ¬keeps_device s params env := by
  rintro ⟨-, -, -, -, -, hkept⟩
  rw [hd] at hkept
  cases hkept

/-- A creation that makes no group keeps a reference to the device that it has found under a name that
is not that of a controller. -/
theorem bafs_core_create_group_restored {params : BAFS_CORE_IOC_CREATE_GROUP_PARAMS}
    {env : CreateGroupEnv} (hs : At h v s) (hh : NonNeg h) (hold : ∀ b ∈ s.blocks.freed, b < s.blocks.next) :
    wp (bafs_core_create_group params env) E (fun r t => (keeps_device s params env → r ≠ 0) ∧
      (r ≠ 0 → ∃ lost, RestoredBut lost s t ∧
        ((keeps_device s params env ∧ ∃ d w, s.devices.get d = some w ∧ lost = [d]) ∨
          (¬keeps_device s params env ∧ lost = [])))) s := by
  unfold bafs_core_create_group
  refine wp_ite (fun h1 => ?_) fun h1 => ?_
  · have hno : ¬keeps_device s params env := fun hk => by cases h1.symm.trans hk.1
    exact ⟨fun hk => absurd hk hno, fun _ => ⟨[], .refl s, .inr ⟨hno, rfl⟩⟩⟩
  rw [wp_bind, wp_kzalloc]
  cases h2 : env.kzalloc with
  | false =>
    have hno : ¬keeps_device s params env := fun hk => by cases h2.symm.trans hk.2.1
    rw [if_neg Bool.false_ne_true]
    exact ⟨fun hk => absurd hk hno, fun _ => ⟨[], .refl s, .inr ⟨hno, rfl⟩⟩⟩
  | true =>
  rw [if_pos rfl]
  have hold₁ : ∀ b ∈ (s.blocks.alloc ()).freed, b < (s.blocks.alloc ()).next := fun b hb => by
    rw [Heap.next_alloc]
    exact Nat.lt_succ_of_lt (hold b hb)
  have hs₁ : At h v { s with blocks := s.blocks.alloc () } := hs.of_eq rfl rfl
  refine (copy_names_spec hs₁).bind fun r s₂ hr => ?_
  obtain ⟨rfl, ⟨hread, rfl⟩ | ⟨hread, ret, hret, hr⟩⟩ := hr
  · refine (wp_and (bafs_group_alloc_exact hs₁ hold₁) (bafs_group_alloc_spec (E := E) hs₁ hh)).bind fun r u hr => ?_
    obtain ⟨⟨hall, rfl, ctrls, ha⟩ | ⟨-, hret, hnone, hf⟩, hmade⟩ := hr
    · obtain ⟨-, g, l, hg, -, -, hs₂⟩ | ⟨hno, -⟩ := hmade
      swap
      · exact absurd hall hno
      obtain rfl := Option.some.inj hg
      have hno : ¬keeps_device s params env := not_keeps_of_none (kept_device_none hall.2.2.1)
      obtain ⟨x, hx, hone⟩ : ∃ x, u.groups.get s.groups.next = some x ∧ x.ref = 1 := ⟨_, ha.get, rfl⟩
      obtain ⟨w, hw, -⟩ := hs₂.wf.tree.group hx
      have hundo : ∀ (tr : List Event) (ret : Int), ret ≠ 0 →
          wp (do bafs_put_group s.groups.next; kfree s.blocks.next; pure ret) E (fun r t =>
            (keeps_device s params env → r ≠ 0) ∧ (r ≠ 0 → ∃ lost, RestoredBut lost s t ∧
              ((keeps_device s params env ∧ ∃ d w, s.devices.get d = some w ∧ lost = [d]) ∨
                (¬keeps_device s params env ∧ lost = [])))) { u with trace := tr } := by
        intro tr ret hret
        have hs₃ : At (h + tok Kind.group s.groups.next) (v.add_group s.groups.next l)
            { u with trace := tr } := hs₂.of_eq rfl rfl
        obtain ⟨w', -, hlast⟩ := lastRef_of_wf hs₃.wf (hh.tok _ _) hx hone
        refine (wp_put_group_last hlast).bind fun _ t ht => ?_
        obtain ⟨dead, hp⟩ := ht
        exact ⟨fun _ => hret, fun _ => ⟨[], (ha.undone hs.wf.ctrl.pos hold₁ hx hp).free hold,
          .inr ⟨hno, rfl⟩⟩⟩
      dsimp only
      rw [wp_bind, wp_group_at hx, wp_bind, wp_device_at hw]
      refine wp_ite (fun _ => ?_) fun _ => ?_
      · exact hundo u.trace _ (by decide)
      · rw [wp_bind, wp_copy_to_user]
        refine wp_ite (fun _ => ?_) fun _ => ?_
        · exact hundo _ _ (by decide)
        · exact ⟨fun hk => absurd hk hno, fun h0 => absurd rfl h0⟩
    · obtain ⟨ret, made⟩ := r
      obtain rfl : made = none := hnone
      have hback := hf.restored.free hold
      have hne : ret ≠ 0 := Int.ne_of_lt hret
      refine ⟨fun _ => hne, fun _ => ⟨_, hback, ?_⟩⟩
      have hcopied : env.copy_from_user = true := Bool.eq_true_of_not_eq_false h1
      unfold kept_devices
      split
      · rename_i hmem
        have hsame : kept_device { s with blocks := s.blocks.alloc () }
          (name_list params.ctrls params.n_ctrls.toNat) =
            kept_device s (name_list params.ctrls params.n_ctrls.toNat) := rfl
        rw [hsame]
        cases hd : kept_device s (name_list params.ctrls params.n_ctrls.toNat) with
        | none => exact .inr ⟨not_keeps_of_none hd, rfl⟩
        | some d =>
          obtain ⟨w, hw⟩ := kept_device_live hd
          refine .inl ⟨⟨hcopied, h2, hread, hmem.1, hmem.2, ?_⟩, d, w, hw, rfl⟩
          rw [hd]
          rfl
      · rename_i hmem
        exact .inr ⟨fun hk => hmem ⟨hk.2.2.2.1, hk.2.2.2.2.1⟩, rfl⟩
  · obtain ⟨names, fail⟩ := r
    obtain rfl : fail = some ret := hr
    have hno : ¬keeps_device s params env := fun hk => hread hk.2.2.1
    exact ⟨fun hk => absurd hk hno, fun _ => ⟨[], (RestoredBut.refl _).free hold, .inr ⟨hno, rfl⟩⟩⟩

/-- In every state that a run reaches a creation that fails leaves all as it was exactly if it does not
come to a name of a device that is not a controller's. -/
theorem failed_creation_restores (rs : List Request) : Always step (fun _ => True) (fun s =>
    ∀ params env, wp (bafs_core_create_group params env) (fun _ => False)
      (fun r t => r ≠ 0 → Restored s t) s ↔ ¬keeps_device s params env) rs init := by
  refine always_of_step (I := LoanInv) (fun s r hi => hi.step r) (fun s hi params env => ?_) rs .init
  obtain ⟨h, hl, hs⟩ := hi.inv.sane.at
  have hold : ∀ b ∈ s.blocks.freed, b < s.blocks.next := fun b hb => block_freed_lt hi.loans hb
  have hspec : wp (bafs_core_create_group params env) (fun _ => False) _ s :=
    bafs_core_create_group_restored hs hl.nonneg hold
  constructor
  · intro hclean hkeeps
    obtain ⟨r, t, ⟨hne, hback⟩, hrestored⟩ := wp_join hspec hclean fun _ he _ => he
    have hne := hne hkeeps
    obtain ⟨lost, hlost, ⟨-, d, w, hw, rfl⟩ | ⟨hno, -⟩⟩ := hback hne
    · have hraised := (hlost.raised d).symm.trans ((hrestored hne).devices d)
      rw [hw, List.count_singleton_self] at hraised
      have href := congrArg Device.ref (Option.some.inj hraised)
      exact absurd href (Nat.succ_ne_self w.ref)
    · exact hno hkeeps
  · intro hno
    refine wp_mono hspec fun r t ht hne => ?_
    obtain ⟨lost, hlost, ⟨hkeeps, -⟩ | ⟨-, rfl⟩⟩ := ht.2 hne
    · exact absurd hkeeps hno
    · exact restored_iff.mpr hlost

/-- A request for a group of what the first group is named. -/
def group_of_group : BAFS_CORE_IOC_CREATE_GROUP_PARAMS where
  n_ctrls := 1
  ctrls _ := some (group_dev_name 0)
  group_name := 0

/-- Whether the request fails and leaves a reference to the second device. -/
def device_kept (s : State) : Bool :=
  match bafs_core_create_group group_of_group granted_ioctl.create_group s with
  | .ok (r, t) => r ≠ 0 && (t.devices.get 1).map Device.ref ≠ (s.devices.get 1).map Device.ref
  | .error _ => false

/-- The device of a group that is named keeps the reference of the lookup. -/
theorem group_named_keeps_device : ¬Always step (fun _ => True) (fun s =>
    ∀ params env, wp (bafs_core_create_group params env) (fun _ => False)
      (fun r t => r ≠ 0 → Restored s t) s)
    [.bind 0 0x100000 4096, .open_core a_task granted_ctx, .create 0 [ctrl_dev_name 0]] init := by
  intro hall
  obtain ⟨s, hs, hp⟩ := hall.of_ends (p := device_kept) (by decide +kernel)
  unfold device_kept at hp
  cases hcreate : bafs_core_create_group group_of_group granted_ioctl.create_group s with
  | error e =>
    rw [hcreate] at hp
    cases hp
  | ok q =>
    obtain ⟨r, t⟩ := q
    rw [hcreate] at hp
    simp only [Bool.and_eq_true, decide_eq_true_eq] at hp
    obtain ⟨hne, href⟩ := hp
    have hrestored := wp_ok (hs group_of_group granted_ioctl.create_group) hcreate hne
    rw [hrestored.devices 1] at href
    exact href rfl

end BafsDriver
