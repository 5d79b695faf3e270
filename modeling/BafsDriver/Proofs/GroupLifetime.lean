import BafsDriver.Proofs.RegProofs
import BafsDriver.Scenario

/-!
# The lifetime of a group

A group is held by its creation until it is deleted, and by the files that are open on it. The
deletion drops a reference whenever it finds the name, and the name stays in the device tree as long as
the group exists, so a second deletion takes a reference that a file holds. A registration that fails
on a group file keeps one. And `bafs_put_group` reads the count for a debug message after it has
released the group.
-/

namespace BafsDriver

open Prog

variable {h h' : Held Kind} {v v' : View} {s s' : State} {r : Request}

/-- The group has been created by a request that succeeded. -/
def group_created (s : State) (g : GroupId) : Prop := .create g ∈ s.group_log

/-- A delete request has found the group. -/
def group_deleted (s : State) (g : GroupId) : Prop := .delete g ∈ s.group_log

instance (s : State) (g : GroupId) : Decidable (group_created s g) :=
  inferInstanceAs (Decidable (_ ∈ _))

instance (s : State) (g : GroupId) : Decidable (group_deleted s g) :=
  inferInstanceAs (Decidable (_ ∈ _))

/-- Each group counts its creation, until it is deleted, and the files open on it; it is released when
neither is left, and is not read afterwards. -/
structure GroupLifetime (s : State) : Prop where
  counted : ∀ g x, s.groups.get g = some x →
    x.ref = (if group_created s g ∧ ¬group_deleted s g then 1 else 0) + group_holders s g
  released : ∀ g, group_created s g →
    (s.groups.get g = none ↔ group_deleted s g ∧ group_holders s g = 0)
  file_live : ∀ i y, s.files.get i = some (.group y) → ∃ x, s.groups.get y.group = some x
  not_read : s.stale_reads = []

/-- The request takes no reference that is not its own and leaves none behind, and it does not release
a group: the file that is closed is not the last of a group that has been deleted, no registration of a
group file fails, no creation is undone, and a deletion finds a group that has not been deleted and is
open. -/
def keeps_group (s : State) : Request → Prop
  | .close i => ∀ y, s.files.get i = some (.group y) → group_deleted s y.group →
    1 < group_holders s y.group
  | .ioctl i cmd arg env => ∀ x, s.files.get i = some x →
    match x with
    | .core _ =>
      (cmd = BAFS_CORE_IOC_CREATE_GROUP → group_made s arg.create_group env.create_group →
        name_reported s env.create_group) ∧
      (cmd = BAFS_CORE_IOC_DELETE_GROUP → env.delete_group = true →
        ¬ctrl_name s arg.delete_group.group_name ∧
        ∀ g, group_named s arg.delete_group.group_name g →
          ¬group_deleted s g ∧ 0 < group_holders s g)
    | .ctrl _ => True
    | .group y => cmd = BAFS_GROUP_IOC_REG_MEM → ∀ z, s.ctxs.get y.ctx = some z →
      ¬reg_mem_fails z.bafs_mem_xa env.reg_mem
  | _ => True

/-! ## The references of groups -/

/-- Only groups that have been created exist and are open. -/
structure GroupsMade (v : View) : Prop where
  group : ∀ g l, v.group_ctrls g = some l → 0 < v.created g
  file : ∀ i y, v.files.get i = some (.group y) → 0 < v.created y.group
  /-- As long as no group is read after its release, none has been released. -/
  kept : v.stale_reads = [] → ∀ g, 0 < v.created g → ∃ l, v.group_ctrls g = some l

/-- No group has been released, and the references of each are those of its creation, until it is
deleted. -/
structure GroupsHeld (h : Held Kind) (v : View) : Prop where
  held : ∀ g l, v.group_ctrls g = some l → h .group g = if v.deleted g = 0 then 1 else 0
  not_read : v.stale_reads = []

theorem created_iff {g : GroupId} : group_created s g ↔ 0 < s.view.created g :=
  List.count_pos_iff.symm

theorem deleted_iff {g : GroupId} : group_deleted s g ↔ 0 < s.view.deleted g :=
  List.count_pos_iff.symm

theorem group_none {g : GroupId} : s.groups.get g = none ↔ s.view.group_ctrls g = none :=
  Option.map_eq_none_iff.symm

theorem groupLifetime_iff (hs : At h s.view s) (hm : GroupsMade s.view) :
    GroupLifetime s ↔ GroupsHeld h s.view := by
  constructor
  · intro hp
    refine ⟨?_, hp.not_read⟩
    intro g l hl
    obtain ⟨x, hx, -⟩ := hs.group_live hl
    have href := hp.counted g x hx
    have heq := hs.wf.group.eq g x hx
    have hcr := created_iff.mpr (hm.group g l hl)
    by_cases hd : s.view.deleted g = 0
    · have hnd : ¬group_deleted s g := by
        rw [deleted_iff]
        omega
      rw [if_pos ⟨hcr, hnd⟩] at href
      rw [if_pos hd]
      omega
    · have hdel : group_deleted s g := deleted_iff.mpr (Nat.pos_of_ne_zero hd)
      rw [if_neg (by rintro ⟨-, hnd⟩; exact hnd hdel)] at href
      rw [if_neg hd]
      omega
  · intro hp
    have hcount : ∀ g x, s.groups.get g = some x →
        x.ref = (if group_created s g ∧ ¬group_deleted s g then 1 else 0) + group_holders s g := by
      intro g x hx
      have hl := hs.group_view hx
      have hheld := hp.held g x.ctrls hl
      have heq := hs.wf.group.eq g x hx
      have hcr := created_iff.mpr (hm.group g x.ctrls hl)
      by_cases hd : s.view.deleted g = 0
      · rw [if_pos hd] at hheld
        rw [if_pos ⟨hcr, by rw [deleted_iff]; omega⟩]
        omega
      · have hdel : group_deleted s g := deleted_iff.mpr (Nat.pos_of_ne_zero hd)
        rw [if_neg hd] at hheld
        rw [if_neg (by rintro ⟨-, hnd⟩; exact hnd hdel)]
        omega
    refine ⟨hcount, ?_, ?_, hp.not_read⟩
    · intro g hg
      obtain ⟨l, hl⟩ := hm.kept hp.not_read g (created_iff.mp hg)
      obtain ⟨x, hx, -⟩ := hs.group_live hl
      refine iff_of_false (by rw [hx]; exact Option.some_ne_none x) ?_
      rintro ⟨hdel, hz⟩
      have hpos := hs.wf.group.pos g x hx
      have href := hcount g x hx
      rw [if_neg (by rintro ⟨-, hnd⟩; exact hnd hdel)] at href
      omega
    · intro i y hy
      obtain ⟨l, hl⟩ := hm.kept hp.not_read y.group (hm.file i y hy)
      obtain ⟨x, hx, -⟩ := hs.group_live hl
      exact ⟨x, hx⟩

/-! ## What a request changes -/

theorem GroupsMade.congr (hm : GroupsMade v) (hg : v'.group_ctrls = v.group_ctrls)
    (hf : v'.files = v.files) (hc : v'.created = v.created) (hr : v'.stale_reads = v.stale_reads) :
    GroupsMade v' := by
  refine ⟨?_, ?_, ?_⟩
  · rw [hg, hc]
    exact hm.group
  · rw [hf, hc]
    exact hm.file
  · rw [hr, hc, hg]
    exact hm.kept

theorem GroupsMade.put_group (hm : GroupsMade v) (g : GroupId) : GroupsMade (v.put_group h g) := by
  unfold View.put_group
  split
  · refine ⟨?_, hm.file, fun hnil => by cases hnil⟩
    intro j l hj
    have hj : Function.update v.group_ctrls g none j = some l := hj
    by_cases hjg : j = g
    · rw [hjg, Function.update_self] at hj
      cases hj
    · rw [Function.update_of_ne hjg] at hj
      exact hm.group j l hj
  · exact hm

theorem GroupsMade.mark_delete (hm : GroupsMade v) (g : GroupId) : GroupsMade (v.mark_delete g) :=
  hm.congr rfl rfl rfl rfl

theorem GroupsMade.created {g : GroupId} {l : List CtrlId} (hm : GroupsMade v) :
    GroupsMade ((v.add_group g l).mark_create g) := by
  have hle : ∀ j, v.created j ≤ ((v.add_group g l).mark_create g).created j :=
    fun j => Nat.le_add_right ..
  have hself : 0 < ((v.add_group g l).mark_create g).created g := by
    show 0 < v.created g + if g = g then 1 else 0
    rw [if_pos rfl]
    omega
  refine ⟨?_, fun i y hy => (hm.file i y hy).trans_le (hle _), ?_⟩
  · intro j k hj
    have hj : Function.update v.group_ctrls g (some l) j = some k := hj
    by_cases hjg : j = g
    · rw [hjg]
      exact hself
    · rw [Function.update_of_ne hjg] at hj
      exact (hm.group j k hj).trans_le (hle j)
  · intro hnil j hj
    by_cases hjg : j = g
    · exact ⟨l, by rw [hjg]; exact Function.update_self ..⟩
    · have hj' : 0 < v.created j := by
        have : ((v.add_group g l).mark_create g).created j = v.created j + if j = g then 1 else 0 :=
          rfl
        rw [this, if_neg hjg] at hj
        omega
      obtain ⟨k, hk⟩ := hm.kept hnil j hj'
      exact ⟨k, (Function.update_of_ne hjg ..).trans hk⟩

theorem GroupsMade.add_stale (hm : GroupsMade v) (g : GroupId) :
    GroupsMade { v with stale_reads := g :: v.stale_reads } :=
  ⟨hm.group, hm.file, fun hnil => by cases hnil⟩

theorem GroupsMade.opened {x : File} (hm : GroupsMade v)
    (hg : ∀ g, 0 < x.group_refs g → ∃ l, v.group_ctrls g = some l) :
    GroupsMade { v with files := v.files.alloc x } := by
  refine ⟨hm.group, ?_, hm.kept⟩
  intro i y hy
  obtain ⟨-, rfl⟩ | hy := Heap.get_alloc_cases hy
  · obtain ⟨l, hl⟩ := hg y.group (by simp [File.group_refs])
    exact hm.group y.group l hl
  · exact hm.file i y hy

theorem GroupsMade.free_file (hm : GroupsMade v) (i : FileId) (c : CtxId) :
    GroupsMade ({ v with files := v.files.free i }.sweep_ctx c) :=
  ⟨hm.group, fun j y hy => hm.file j y (Heap.get_of_free hy).2, hm.kept⟩

theorem View.revoke_mem_groups {m : MemId} {f : BafsMem} :
    (v.revoke_mem m f).group_ctrls = v.group_ctrls ∧ (v.revoke_mem m f).files = v.files ∧
      (v.revoke_mem m f).created = v.created ∧ (v.revoke_mem m f).deleted = v.deleted ∧
      (v.revoke_mem m f).stale_reads = v.stale_reads := by
  unfold revoke_mem
  split <;> exact ⟨rfl, rfl, rfl, rfl, rfl⟩

/-- An mmap leaves the groups alone. -/
theorem Mmap.groups {x : File} {vma : Vma} {env : MmapEnv} {w : Option Vma}
    (hm : Mmap h v s x vma env w h' v') :
    v'.group_ctrls = v.group_ctrls ∧ v'.files = v.files ∧ v'.created = v.created ∧
      v'.deleted = v.deleted ∧ v'.stale_reads = v.stale_reads ∧ ∀ g, h' .group g = h .group g := by
  have htoks : ∀ (l : List CtrlId) g, (h + toks Kind.ctrl l) .group g = h .group g := by
    intro l g
    exact add_eq_left.mpr (if_neg (by decide))
  cases hm with
  | bars_mapped => exact ⟨rfl, rfl, rfl, rfl, rfl, htoks _⟩
  | bars_failed => exact ⟨rfl, rfl, rfl, rfl, rfl, htoks _⟩
  | pinned => exact ⟨rfl, rfl, rfl, rfl, rfl, fun _ => rfl⟩
  | unpinned => exact ⟨rfl, rfl, rfl, rfl, rfl, fun _ => rfl⟩
  | unknown => exact ⟨rfl, rfl, rfl, rfl, rfl, fun _ => rfl⟩

theorem Created.made {params : BAFS_CORE_IOC_CREATE_GROUP_PARAMS} {env : CreateGroupEnv} {ret : Int}
    (hc : Created h v s params env ret h' v') (hm : GroupsMade v) : GroupsMade v' := by
  cases hc with
  | refused => exact hm
  | undone => exact hm.add_stale _
  | created => exact hm.created

theorem Deleted.made {params : BAFS_CORE_IOC_DELETE_GROUP_PARAMS} {copy : Bool} {ret : Int}
    (hd : Deleted h v s params copy ret h' v') (hm : GroupsMade v) : GroupsMade v' := by
  cases hd with
  | refused => exact hm
  | deleted => exact (hm.mark_delete _).put_group _

theorem Effect.groups_made (he : Effect h v s r h' v') (hm : GroupsMade v) : GroupsMade v' := by
  cases he with
  | opened hr hg => exact hm.opened hg
  | @close i x hx hg =>
    cases x with
    | group y => exact (hm.free_file i y.ctx).put_group y.group
    | core c => exact hm.free_file i c
    | ctrl y => exact hm.free_file i y.ctx
  | ioctl hx hi =>
    cases hi with
    | create hx hcmd hc => exact hc.made hm
    | delete hx hcmd hd => exact hd.made hm
    | reg_mem | reg_mem_fails | dma_map => exact hm.congr rfl rfl rfl rfl
    | refused => exact hm
  | mmap hx hr hmm =>
    obtain ⟨h1, h2, h3, -, h5, -⟩ := hmm.groups
    exact hm.congr h1 h2 h3 h5
  | mmap_failed hx hr hmm =>
    obtain ⟨h1, h2, h3, -, h5, -⟩ := hmm.groups
    exact hm.congr h1 h2 h3 h5
  | @revoke t x f ht hp hmem =>
    obtain ⟨h1, h2, h3, -, h5⟩ := View.revoke_mem_groups (v := { v with tables := unpinned v.tables t })
      (m := x.data) (f := f)
    exact hm.congr h1 h2 h3 h5
  | probe | remove | not_opened | mmap_taken | no_file | split_refused | move_taken | no_vma
  | revoke_refused => exact hm
  | munmap | munmap_mem | split | move | move_mem => exact hm.congr rfl rfl rfl rfl

theorem GroupsHeld.congr (hp : GroupsHeld h v) (hh : ∀ g, h' .group g = h .group g)
    (hg : v'.group_ctrls = v.group_ctrls) (hd : v'.deleted = v.deleted)
    (hr : v'.stale_reads = v.stale_reads) : GroupsHeld h' v' := by
  refine ⟨?_, hr.trans hp.not_read⟩
  intro g l hl
  rw [hh g, hd]
  rw [hg] at hl
  exact hp.held g l hl

/-- A put that releases the group reads it afterwards. -/
theorem groupsHeld_put {g : GroupId} : GroupsHeld h (v.put_group h g) ↔
    GroupsHeld h v ∧ (v.files.sum (File.group_refs g) : ℕ) + h .group g ≠ 0 := by
  unfold View.put_group
  by_cases hz : (v.files.sum (File.group_refs g) : ℕ) + h .group g = 0
  · rw [if_pos hz]
    refine iff_of_false ?_ fun hp => hp.2 hz
    intro hp
    cases hp.not_read
  · rw [if_neg hz]
    exact (and_iff_left hz).symm

/-- The close of a group file releases the group exactly if the group has been deleted and this was its
last file. -/
theorem GroupsHeld.close_iff {i : FileId} {y : BafsGroupCtx} {l : List CtrlId}
    (hp : GroupsHeld h v) (hy : v.files.get i = some (.group y))
    (hl : v.group_ctrls y.group = some l) :
    GroupsHeld h (v.close_file h i (.group y)) ↔
      (0 < v.deleted y.group → 1 < v.files.sum (File.group_refs y.group)) := by
  have hkeep : GroupsHeld h ({ v with files := v.files.free i }.sweep_ctx y.ctx) :=
    hp.congr (fun _ => rfl) rfl rfl rfl
  refine groupsHeld_put.trans ((and_iff_right hkeep).trans ?_)
  have hsum := Heap.sum_free (f := File.group_refs y.group) hy
  have hone : (File.group y).group_refs y.group = 1 := if_pos rfl
  have hheld := hp.held y.group l hl
  show ((v.files.free i).sum (File.group_refs y.group) : ℤ) + h .group y.group ≠ 0 ↔ _
  by_cases hd : v.deleted y.group = 0
  · rw [if_pos hd] at hheld
    constructor
    · intro _ hpos
      omega
    · intro _
      omega
  · rw [if_neg hd] at hheld
    constructor
    · intro hne _
      omega
    · intro hk
      have := hk (Nat.pos_of_ne_zero hd)
      omega

/-- A deletion drops the reference of the creation and keeps the group exactly if the group has not
been deleted before and a file is open on it. -/
theorem GroupsHeld.delete_iff {g : GroupId} {l : List CtrlId} (hp : GroupsHeld h v)
    (hl : v.group_ctrls g = some l) :
    GroupsHeld (h - tok Kind.group g) ((v.mark_delete g).put_group (h - tok Kind.group g) g) ↔
      v.deleted g = 0 ∧ 0 < v.files.sum (File.group_refs g) := by
  rw [groupsHeld_put]
  have hself : (h - tok Kind.group g) .group g = h .group g - 1 := by
    rw [Pi.sub_apply, Pi.sub_apply, tok_self]
  have hother : ∀ j, j ≠ g → (h - tok Kind.group g) .group j = h .group j := by
    intro j hj
    rw [Pi.sub_apply, Pi.sub_apply, tok_kind, if_neg hj, sub_zero]
  have hdel : ∀ j, (v.mark_delete g).deleted j = v.deleted j + if j = g then 1 else 0 := fun _ => rfl
  have hfiles : (v.mark_delete g).files = v.files := rfl
  have hheld := hp.held g l hl
  rw [hfiles, hself]
  constructor
  · rintro ⟨hp', hne⟩
    have hnow := hp'.held g l hl
    rw [hself, hdel, if_pos rfl, if_neg (Nat.succ_ne_zero _)] at hnow
    by_cases hd : v.deleted g = 0
    · exact ⟨hd, by omega⟩
    · rw [if_neg hd] at hheld
      omega
  · rintro ⟨hd, hpos⟩
    rw [if_pos hd] at hheld
    refine ⟨⟨?_, hp.not_read⟩, by omega⟩
    intro j k hk
    by_cases hj : j = g
    · rw [hj, hself, hdel, if_pos rfl, if_neg (Nat.succ_ne_zero _), hheld]
      rfl
    · rw [hother j hj, hdel, if_neg hj, add_zero]
      exact hp.held j k hk

theorem GroupsHeld.created {g : GroupId} {l : List CtrlId} (hp : GroupsHeld h v)
    (hg : NewGroup h v g) : GroupsHeld (h + tok Kind.group g) ((v.add_group g l).mark_create g) := by
  refine ⟨?_, hp.not_read⟩
  have hdel : ((v.add_group g l).mark_create g).deleted = v.deleted := rfl
  intro j k hk
  have hk : Function.update v.group_ctrls g (some l) j = some k := hk
  rw [hdel]
  by_cases hj : j = g
  · rw [hj, add_tok_self, hg.held, hg.deleted]
    rfl
  · rw [Function.update_of_ne hj] at hk
    rw [add_tok_off h (by rintro ⟨-, he⟩; exact hj he)]
    exact hp.held j k hk

/-- The file that a registration fails on is one of a group that exists. -/
theorem GroupsHeld.lost_iff {i : FileId} {x : File} (hm : GroupsMade v) (hp : GroupsHeld h v)
    (hx : v.files.get i = some x) : GroupsHeld (h + x.lost) v ↔ ∀ y, x ≠ .group y := by
  constructor
  · rintro hp' y rfl
    obtain ⟨l, hl⟩ := hm.kept hp.not_read y.group (hm.file i y hx)
    have h1 := hp.held y.group l hl
    have h2 : (h + tok Kind.group y.group) .group y.group = _ := hp'.held y.group l hl
    rw [add_tok_self] at h2
    omega
  · intro hno
    refine hp.congr (fun g => ?_) rfl rfl rfl
    cases x with
    | core c => exact add_zero _
    | ctrl y => exact add_tok_off h (by simp)
    | group y => exact absurd rfl (hno y)

theorem keeps_group_of_ctrl {i cmd : Nat} {arg : IoctlArg} {env : IoctlEnv} {y : BafsCtrlCtx}
    (hx : s.files.get i = some (.ctrl y)) : keeps_group s (.ioctl i cmd arg env) := by
  intro x hx'
  obtain rfl := Option.some.inj (hx.symm.trans hx')
  trivial

/-- What an ioctl keeps. -/
theorem Ioctl.groups_iff {i : FileId} {x : File} {cmd : Nat} {arg : IoctlArg} {env : IoctlEnv}
    {reply : IoctlReply} (hi : Ioctl h s.view s x cmd arg env reply h' v')
    (hx : s.files.get i = some x) (hm : GroupsMade s.view) (hp : GroupsHeld h s.view) :
    GroupsHeld h' v' ↔ keeps_group s (.ioctl i cmd arg env) := by
  have hcreate : BAFS_CORE_IOC_REG_MEM ≠ BAFS_CORE_IOC_CREATE_GROUP := by decide
  have hdelete : BAFS_CORE_IOC_REG_MEM ≠ BAFS_CORE_IOC_DELETE_GROUP := by decide
  have hboth : BAFS_CORE_IOC_CREATE_GROUP ≠ BAFS_CORE_IOC_DELETE_GROUP := by decide
  cases hi with
  | @reg_mem y blk j hcmd hy hok hj =>
    refine iff_of_true (hp.congr (fun _ => rfl) rfl rfl rfl) ?_
    intro z hz
    obtain rfl := Option.some.inj (hx.symm.trans hz)
    cases x with
    | core c =>
      obtain rfl : cmd = BAFS_CORE_IOC_REG_MEM := hcmd
      exact ⟨fun he => absurd he hcreate, fun he => absurd he hdelete⟩
    | ctrl u => trivial
    | group u =>
      intro _ y' hy'
      obtain rfl := Option.some.inj (hy.symm.trans hy')
      exact hok
  | @reg_mem_fails y ret n hcmd hy hf hret hn =>
    have hcongr : GroupsHeld (h + x.lost) { s.view with mem_next := n } ↔
        GroupsHeld (h + x.lost) s.view :=
      ⟨fun hq => hq.congr (fun _ => rfl) rfl rfl rfl, fun hq => hq.congr (fun _ => rfl) rfl rfl rfl⟩
    rw [hcongr, hp.lost_iff hm hx]
    cases x with
    | core c =>
      obtain rfl : cmd = BAFS_CORE_IOC_REG_MEM := hcmd
      refine iff_of_true (fun _ hc => by cases hc) ?_
      intro z hz
      obtain rfl := Option.some.inj (hx.symm.trans hz)
      exact ⟨fun he => absurd he hcreate, fun he => absurd he hdelete⟩
    | ctrl u => exact iff_of_true (fun _ hc => by cases hc) (keeps_group_of_ctrl hx)
    | group u =>
      refine iff_of_false (fun hno => hno u rfl) ?_
      intro hk
      exact hk _ hx hcmd y hy hf
  | @dma_map ds D hcmd hD =>
    refine iff_of_true (hp.congr (fun _ => rfl) rfl rfl rfl) ?_
    intro z hz
    obtain rfl := Option.some.inj (hx.symm.trans hz)
    cases x with
    | core c => cases hcmd
    | ctrl u => trivial
    | group u =>
      cases hcmd
      intro hreg
      exact absurd hreg (by decide)
  | @create c ret _ _ hx' hcmd hc =>
    subst hx' hcmd
    cases hc with
    | refused hno hret =>
      refine iff_of_true (hp.congr (fun g => add_eq_left.mpr (if_neg (by decide))) rfl rfl rfl) ?_
      intro z hz
      obtain rfl := Option.some.inj (hx.symm.trans hz)
      exact ⟨fun _ hmade => absurd hmade hno, fun he => absurd he hboth⟩
    | undone hmade hno hret hg =>
      refine iff_of_false (fun hp' => by cases hp'.not_read) ?_
      intro hk
      exact hno ((hk _ hx).1 rfl hmade)
    | created hmade hr hg =>
      refine iff_of_true (hp.created hg) ?_
      intro z hz
      obtain rfl := Option.some.inj (hx.symm.trans hz)
      exact ⟨fun _ _ => hr, fun he => absurd he hboth⟩
  | @delete c ret _ _ hx' hcmd hd =>
    subst hx' hcmd
    cases hd with
    | refused hno hret =>
      refine iff_of_true hp ?_
      intro z hz
      obtain rfl := Option.some.inj (hx.symm.trans hz)
      refine ⟨fun he => absurd he.symm hboth, fun _ hcopy => ⟨?_, ?_⟩⟩
      · intro hctrl
        obtain ⟨d, w, c', hd, -⟩ := hctrl.child
        exact hno hcopy d hd
      · intro g hg
        obtain ⟨d, w, hd, -⟩ := hg.child
        exact absurd hd (hno hcopy d)
    | @deleted g l hc hg hl =>
      rw [hp.delete_iff hl]
      constructor
      · rintro ⟨hd, hpos⟩ z hz
        obtain rfl := Option.some.inj (hx.symm.trans hz)
        refine ⟨fun he => absurd he.symm hboth, fun _ _ => ⟨?_, ?_⟩⟩
        · exact hg.not_ctrl
        · intro g' hg'
          obtain rfl := hg.unique hg'
          exact ⟨fun hdel => (deleted_iff.mp hdel).ne' hd, hpos⟩
      · intro hk
        obtain ⟨hnd, hpos⟩ := ((hk _ hx).2 rfl hc).2 g hg
        exact ⟨by_contra fun hd => hnd (deleted_iff.mpr (Nat.pos_of_ne_zero hd)), hpos⟩
  | @refused ret hcmd hg hret =>
    refine iff_of_true hp ?_
    intro z hz
    obtain rfl := Option.some.inj (hx.symm.trans hz)
    cases x with
    | core c =>
      refine ⟨fun he => absurd ⟨c, rfl, .inl he⟩ hg, fun he => absurd ⟨c, rfl, .inr he⟩ hg⟩
    | ctrl u => trivial
    | group u => exact fun he => absurd he hcmd

theorem keeps_group_opens (hr : r.opens) : keeps_group s r := by
  cases r <;> trivial

theorem keeps_group_no_file {i : FileId} (hr : r.file = some i) (hx : s.files.get i = none) :
    keeps_group s r := by
  cases r with
  | close f =>
    cases hr
    intro y hy
    cases hx.symm.trans hy
  | ioctl f cmd arg env =>
    cases hr
    intro x hx'
    cases hx.symm.trans hx'
  | mmap => trivial
  | _ => cases hr

theorem keeps_group_vma {i : VmaId} (hr : r.vma = some i) : keeps_group s r := by
  cases r with
  | munmap | split | move => trivial
  | _ => cases hr

/-- No group is released and the references of each are right after the request exactly if they were
before it and the request keeps them so. -/
theorem Effect.groups_iff (he : Effect h s.view s r h' v') (hm : GroupsMade s.view)
    (hp : GroupsHeld h s.view) : GroupsHeld h' v' ↔ keeps_group s r := by
  cases he with
  | probe | remove | mmap_taken | split_refused | move_taken | revoke_refused =>
    exact iff_of_true hp trivial
  | opened hr hg => exact iff_of_true (hp.congr (fun _ => rfl) rfl rfl rfl) (keeps_group_opens hr)
  | not_opened hr => exact iff_of_true hp (keeps_group_opens hr)
  | @close i x hx hg =>
    cases x with
    | group y =>
      obtain ⟨l, hl⟩ := hm.kept hp.not_read y.group (hm.file i y hx)
      rw [hp.close_iff hx hl]
      constructor
      · intro hk z hz hdel
        cases hx.symm.trans hz
        exact hk (deleted_iff.mp hdel)
      · intro hk hdel
        exact hk y hx (deleted_iff.mpr hdel)
    | core c =>
      refine iff_of_true (hp.congr (fun _ => rfl) rfl rfl rfl) ?_
      intro z hz
      cases hx.symm.trans hz
    | ctrl y =>
      refine iff_of_true (hp.congr (fun _ => rfl) rfl rfl rfl) ?_
      intro z hz
      cases hx.symm.trans hz
  | ioctl hx hi => exact hi.groups_iff hx hm hp
  | mmap hx hr hmm =>
    obtain ⟨h1, -, -, h4, h5, h6⟩ := hmm.groups
    exact iff_of_true (hp.congr h6 h1 h4 h5) trivial
  | mmap_failed hx hr hmm =>
    obtain ⟨h1, -, -, h4, h5, h6⟩ := hmm.groups
    exact iff_of_true (hp.congr h6 h1 h4 h5) trivial
  | no_file hr hx => exact iff_of_true hp (keeps_group_no_file hr hx)
  | no_vma hr hw => exact iff_of_true hp (keeps_group_vma hr)
  | munmap | munmap_mem | split | move | move_mem =>
    exact iff_of_true (hp.congr (fun _ => rfl) rfl rfl rfl) trivial
  | @revoke t x f ht hpin hmem =>
    obtain ⟨h1, -, -, h4, h5⟩ := View.revoke_mem_groups
      (v := { s.view with tables := unpinned s.view.tables t }) (m := x.data) (f := f)
    exact iff_of_true (hp.congr (fun _ => rfl) h1 h4 h5) trivial

/-- While no group is released, a request gets stuck on a group only if it deletes a controller. -/
theorem keeps_group_of_stuck {e : Fault} (hst : Stuck s.view s r e) (hm : GroupsMade s.view)
    (hp : GroupsHeld h s.view) : e ≠ .freed_group ∧ (keeps_group s r ↔ e ≠ .wrong_type) := by
  have hcloses : ∀ {m}, closes_mem s.view s r m → keeps_group s r := by
    intro m hr
    cases r with
    | munmap | move => trivial
    | _ => exact hr.elim
  have hdma : ∀ {i cmd x arg env}, s.files.get i = some x → dma_map_cmd x = some cmd →
      keeps_group s (.ioctl i cmd arg env) := by
    intro i cmd x arg env hx hcmd z hz
    obtain rfl := Option.some.inj (hx.symm.trans hz)
    cases x with
    | core c => cases hcmd
    | ctrl y => trivial
    | group y =>
      cases hcmd
      intro hreg
      exact absurd hreg (by decide)
  cases hst with
  | table_short hr => exact ⟨by decide, iff_of_true (hcloses hr) (by decide)⟩
  | vma_freed hr => exact ⟨by decide, iff_of_true (hcloses hr) (by decide)⟩
  | table_freed => exact ⟨by decide, iff_of_true trivial (by decide)⟩
  | @group_freed r i x hr hx hg hmap =>
    cases x with
    | core c => exact hg.elim
    | ctrl y => exact hg.elim
    | group y =>
      obtain ⟨l, hl⟩ := hm.kept hp.not_read y.group (hm.file i y hx)
      cases hl.symm.trans hg
  | @wrong_type i c arg env hx hd hn =>
    refine ⟨by decide, iff_of_false ?_ fun hne => hne rfl⟩
    intro hk
    exact ((hk _ hx).2 rfl hd).1 hn
  | wrong_table hx hcmd hmem => exact ⟨by decide, iff_of_true (hdma hx hcmd) (by decide)⟩
  | null_page_table hx hcmd hmem => exact ⟨by decide, iff_of_true (hdma hx hcmd) (by decide)⟩

theorem groups_init : GroupsMade init.view ∧ GroupLifetime init := by
  have hgroup : ∀ g, init.groups.get g = none := fun g => Heap.get_empty
  have hfile : ∀ i, init.files.get i = none := fun i => Heap.get_empty
  have hm : GroupsMade init.view := by
    refine ⟨?_, ?_, ?_⟩
    · intro g l hl
      cases (group_none.mp (hgroup g)).symm.trans hl
    · intro i y hy
      cases (hfile i).symm.trans hy
    · intro _ g hg
      cases hg
  refine ⟨hm, ?_, ?_, ?_, rfl⟩
  · intro g x hx
    cases (hgroup g).symm.trans hx
  · intro g hg
    cases hg
  · intro i y hy
    cases (hfile i).symm.trans hy

/-- In every run each group counts its creation and its files and is released with the last of them, is
not read afterwards, and no request deletes anything else, exactly if every request keeps to its own
references and none releases a group. -/
theorem group_lifetime (rs : List Request) :
    Always step (fun e => e ≠ .freed_group ∧ e ≠ .wrong_type) GroupLifetime rs init ↔
      Along step keeps_group rs init := by
  obtain ⟨hmade, hinit⟩ := groups_init
  refine always_iff_along (I := fun s => Inv s ∧ GroupsMade s.view) (fun s r hi _ _ => ?_)
    (fun s r hi hp => ?_) rs ⟨inv_init, hmade⟩ hinit
  · obtain ⟨h, -, -, hw⟩ := step_inv r hi.1
    refine wp_weaken (wp_mono hw fun _ s' hs' => ?_) fun _ _ => trivial
    obtain ⟨hi', h', -, -, he⟩ := hs'
    exact ⟨hi', he.groups_made hi.2⟩
  · obtain ⟨h, -, hs, hstep⟩ := step_inv r hi.1
    have hg := (groupLifetime_iff hs hi.2).mp hp
    constructor
    · intro hw
      by_contra hk
      have hno : ∀ e, Stuck s.view s r e → e ≠ .freed_group ∧ e ≠ .wrong_type → False := by
        intro e he hne
        exact hk ((keeps_group_of_stuck he hi.2 hg).2.mpr hne.2)
      obtain ⟨-, s', ⟨-, h', -, hs', he⟩, hp'⟩ := wp_join hstep hw hno
      exact hk ((he.groups_iff hi.2 hg).mp
        ((groupLifetime_iff hs' (he.groups_made hi.2)).mp hp'))
    · intro hk
      refine wp_weaken (wp_mono hstep fun _ s' hs' => ?_) fun e he => ?_
      · obtain ⟨-, h', -, hs', he⟩ := hs'
        exact (groupLifetime_iff hs' (he.groups_made hi.2)).mpr ((he.groups_iff hi.2 hg).mpr hk)
      · obtain ⟨h1, h2⟩ := keeps_group_of_stuck he hi.2 hg
        exact ⟨h1, h2.mp hk⟩

/-- A group of one controller is created, opened, and deleted twice. -/
def deleted_twice : List Request :=
  [.bind 0 0x100000 4096, .open_core a_task granted_ctx, .create 0 [ctrl_dev_name 0],
    .open_group 0 a_task granted_open, .delete 0 (group_dev_name 0), .delete 0 (group_dev_name 0)]

/-- The second deletion takes the reference of the open file and releases the group. -/
theorem deleted_twice_dangles :
    ¬Always step (fun e => e ≠ .freed_group ∧ e ≠ .wrong_type) GroupLifetime deleted_twice init := by
  intro h
  obtain ⟨s, hs, hd⟩ := h.of_ends (p := fun s => (s.groups.get 0).isNone &&
    (s.files.get 1).any fun x => x.group_refs 0 == 1) (by decide +kernel)
  simp only [Bool.and_eq_true, Option.isNone_iff_eq_none, Option.any_eq_true] at hd
  obtain ⟨hnone, x, hx, hg⟩ := hd
  cases x with
  | group y =>
    obtain ⟨z, hz⟩ := hs.file_live 1 y hx
    have hy : y.group = 0 := by
      by_contra hne
      simp [File.group_refs, hne] at hg
    rw [hy] at hz
    cases hnone.symm.trans hz
  | core c => cases hg
  | ctrl y => cases hg

end BafsDriver
