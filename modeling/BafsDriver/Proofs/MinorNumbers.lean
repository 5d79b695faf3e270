import BafsDriver.Scenario
import BafsDriver.Proofs.GroupLifetime
import BafsDriver.Proofs.TraceProofs

/-!
# Minors

The core device, the controllers and the groups have their minors from one pool, which is not bounded
by the region of device numbers that was registered. The minors stay in the region as long as every
device is made while a minor of it is free.
-/

set_option linter.style.nameCheck false

namespace BafsDriver

open Prog NumberPool

variable {h h' : Held Kind} {v v' : View} {s s' : State} {r : Request}

/-! ## The claim -/

/-- The number of minors that `alloc_chrdev_region` registers: `1U << MINORBITS`. -/
def BAFS_MINORS : Nat := 1 <<< 20

/-- The device number of a minor under a major. -/
def MKDEV (ma mi : Nat) : Nat := ma <<< 20 ||| mi

/-- The minor of the core device, of a controller or of a group. -/
def minor_of (s : State) : Option Drvdata → Option Nat
  | none => some 0
  | some (.ctrl c) => (s.ctrls.get c).map BafsCtrl.minor
  | some (.group g) => (s.groups.get g).map BafsGroup.minor

/-- The numbers in the pool are those of the objects, and no two objects share one. -/
structure Owned {δ : Type} (pool : List Nat) (number : δ → Option Nat) : Prop where
  nodup : pool.Nodup
  mem_iff : ∀ n, n ∈ pool ↔ ∃ d, number d = some n
  unique : ∀ d e n, number d = some n → number e = some n → d = e

/-- The live devices have their numbers from the pools, where all others are free; each device that is
gone was released once. The device numbers of the live devices lie in the region that starts at the
first minor of the major. -/
structure DeviceNumbers (s : State) : Prop where
  minors : Owned s.bafs_minor_ida (minor_of s)
  ctrl_ids : Owned s.bafs_ctrl_ida fun c => (s.ctrls.get c).map BafsCtrl.ctrl_id
  group_ids : Owned s.bafs_group_ida fun g => (s.groups.get g).map BafsGroup.group_id
  ctrls_released : s.ctrls.FreedOnce fun c => s.ctrl_log.count c
  groups_released : s.groups.FreedOnce fun g => s.group_log.count (.release g)
  in_region : ∀ d mi, minor_of s d = some mi → mi < BAFS_MINORS ∧
    ∀ ma, MKDEV ma 0 ≤ MKDEV ma mi ∧ MKDEV ma mi < MKDEV ma 0 + BAFS_MINORS

/-- The request makes a controller, or a group that stays. -/
def makes_device (s : State) : Request → Prop
  | .probe pdev env => s.drvdata.lookup pdev.slot = none ∧ ctrl_made env
  | .ioctl f cmd arg env => (∃ c, s.files.get f = some (.core c)) ∧ cmd = BAFS_CORE_IOC_CREATE_GROUP ∧
    group_made s arg.create_group env.create_group ∧ name_reported s env.create_group
  | _ => False

/-- A device is made only while a minor of the region is free. -/
def room (s : State) (r : Request) : Prop :=
  makes_device s r → lowestFree s.bafs_minor_ida < BAFS_MINORS

/-! ## Numbers and their owners -/

theorem MKDEV_in_region {mi : Nat} (hmi : mi < BAFS_MINORS) (ma : Nat) :
    MKDEV ma 0 ≤ MKDEV ma mi ∧ MKDEV ma mi < MKDEV ma 0 + BAFS_MINORS := by
  have hadd : ∀ k < BAFS_MINORS, MKDEV ma k = ma <<< 20 + k := fun k hk =>
    (Nat.shiftLeft_add_eq_or_of_lt hk ma).symm
  rw [hadd mi hmi, hadd 0 (by decide)]
  omega

theorem weight_pos {P : Prop} [Decidable P] : 0 < (if P then 1 else 0) ↔ P := by
  by_cases hP : P
  · simp [hP]
  · simp [hP]

@[simp] theorem BafsCtrl.minor_numbers {x : BafsCtrl} {k : Nat} :
    0 < x.numbers .minor k ↔ k = x.minor := by
  simp [BafsCtrl.numbers, one, weight_pos]

@[simp] theorem BafsGroup.minor_numbers {x : BafsGroup} {k : Nat} :
    0 < x.numbers .minor k ↔ k = x.minor := by
  simp [BafsGroup.numbers, one, weight_pos]

@[simp] theorem BafsCtrl.ctrl_id_numbers {x : BafsCtrl} {k : Nat} :
    0 < x.numbers .ctrl_id k ↔ k = x.ctrl_id := by
  simp [BafsCtrl.numbers, one, weight_pos]

@[simp] theorem BafsGroup.group_id_numbers {x : BafsGroup} {k : Nat} :
    0 < x.numbers .group_id k ↔ k = x.group_id := by
  simp [BafsGroup.numbers, one, weight_pos]

/-- A pool whose numbers only the objects of one heap hold. -/
theorem Owned.of_heap {α : Type} {H : Heap α} {number : α → Nat} {pool : List Nat}
    (held : Nat → Nat) (weight : α → Nat → Nat) (hnd : pool.Nodup) (hmem : ∀ n, n ∈ pool ↔ 0 < held n)
    (hone : ∀ n, held n ≤ 1) (hw : ∀ a n, 0 < weight a n ↔ n = number a)
    (hheld : ∀ n, held n = H.sum fun a => weight a n) :
    Owned pool fun i => (H.get i).map number := by
  refine ⟨hnd, fun n => ?_, fun i j n hi hj => ?_⟩
  · rw [hmem, hheld]
    constructor
    · intro hpos
      obtain ⟨i, a, hi, ha⟩ := Heap.exists_of_sum_pos hpos
      exact ⟨i, by rw [hi, (hw a n).mp ha]; rfl⟩
    · rintro ⟨i, hi⟩
      obtain ⟨a, ha, rfl⟩ := Option.map_eq_some_iff.mp hi
      exact lt_of_lt_of_le ((hw a _).mpr rfl) (Heap.le_sum (f := fun a => weight a (number _)) ha)
  · obtain ⟨a, ha, hna⟩ := Option.map_eq_some_iff.mp hi
    obtain ⟨b, hb, hnb⟩ := Option.map_eq_some_iff.mp hj
    have hsum : H.sum (fun a => weight a n) ≤ 1 := by
      rw [← hheld]
      exact hone n
    exact Heap.eq_of_sum_le_one hsum ha hb ((hw a n).mpr hna.symm) ((hw b n).mpr hnb.symm)

theorem Numbered.ctrl_ids (hn : Numbered 0 s) :
    Owned s.bafs_ctrl_ida fun c => (s.ctrls.get c).map BafsCtrl.ctrl_id := by
  refine .of_heap (holders s .ctrl_id) (fun x => x.numbers .ctrl_id)
    (hn.issued.nodup .ctrl_id) (fun n => hn.issued.mem_iff (p := .ctrl_id))
    (fun n => hn.issued.once .ctrl_id n) (fun x n => x.ctrl_id_numbers) fun n => ?_
  have hcore : core_numbers .ctrl_id n = 0 := by simp [core_numbers, one]
  have hgroups : s.groups.sum (fun x => x.numbers .ctrl_id n) = 0 :=
    Heap.sum_eq_zero fun g x hx => by simp [BafsGroup.numbers, one]
  unfold holders
  rw [hcore, hgroups, Nat.zero_add, Nat.add_zero]

theorem Numbered.group_ids (hn : Numbered 0 s) :
    Owned s.bafs_group_ida fun g => (s.groups.get g).map BafsGroup.group_id := by
  refine .of_heap (holders s .group_id) (fun x => x.numbers .group_id)
    (hn.issued.nodup .group_id) (fun n => hn.issued.mem_iff (p := .group_id))
    (fun n => hn.issued.once .group_id n) (fun x n => x.group_id_numbers) fun n => ?_
  have hcore : core_numbers .group_id n = 0 := by simp [core_numbers, one]
  have hctrls : s.ctrls.sum (fun x => x.numbers .group_id n) = 0 :=
    Heap.sum_eq_zero fun g x hx => by simp [BafsCtrl.numbers, one]
  unfold holders
  rw [hcore, hctrls, Nat.zero_add]

theorem core_minor {k : Nat} : core_numbers .minor k = if k = 0 then 1 else 0 := by
  simp [core_numbers, one]

theorem Numbered.minors (hn : Numbered 0 s) : Owned s.bafs_minor_ida (minor_of s) := by
  have hmem : ∀ n, n ∈ s.bafs_minor_ida ↔ 0 < holders s .minor n := fun n =>
    hn.issued.mem_iff (p := .minor)
  have hone : ∀ n, holders s .minor n ≤ 1 := fun n => hn.issued.once .minor n
  have hheld : ∀ n, holders s .minor n = (if n = 0 then 1 else 0) +
      s.ctrls.sum (fun x => x.numbers .minor n) + s.groups.sum (fun x => x.numbers .minor n) :=
    fun n => by rw [← core_minor]; rfl
  -- each device contributes to the sum
  have hctrl : ∀ {c n}, minor_of s (some (.ctrl c)) = some n →
      0 < s.ctrls.sum fun x => x.numbers .minor n := by
    intro c n hc
    obtain ⟨x, hx, rfl⟩ := Option.map_eq_some_iff.mp hc
    exact lt_of_lt_of_le (x.minor_numbers.mpr rfl)
      (Heap.le_sum (f := fun y : BafsCtrl => y.numbers .minor x.minor) hx)
  have hgroup : ∀ {g n}, minor_of s (some (.group g)) = some n →
      0 < s.groups.sum fun x => x.numbers .minor n := by
    intro g n hg
    obtain ⟨x, hx, rfl⟩ := Option.map_eq_some_iff.mp hg
    exact lt_of_lt_of_le (x.minor_numbers.mpr rfl)
      (Heap.le_sum (f := fun y : BafsGroup => y.numbers .minor x.minor) hx)
  have hcore : ∀ {n}, minor_of s none = some n → n = 0 := fun h => (Option.some.inj h).symm
  refine ⟨hn.issued.nodup .minor, fun n => ?_, fun d e n hd he => ?_⟩
  · rw [hmem, hheld]
    constructor
    · intro hpos
      by_cases h0 : n = 0
      · exact ⟨none, by rw [h0]; rfl⟩
      rw [if_neg h0, Nat.zero_add] at hpos
      rcases Nat.add_pos_iff_pos_or_pos.mp hpos with hpos | hpos
      · obtain ⟨c, x, hx, hn⟩ := Heap.exists_of_sum_pos hpos
        refine ⟨some (.ctrl c), ?_⟩
        show (s.ctrls.get c).map BafsCtrl.minor = some n
        rw [hx, x.minor_numbers.mp hn]
        rfl
      · obtain ⟨g, x, hx, hn⟩ := Heap.exists_of_sum_pos hpos
        refine ⟨some (.group g), ?_⟩
        show (s.groups.get g).map BafsGroup.minor = some n
        rw [hx, x.minor_numbers.mp hn]
        rfl
    · rintro ⟨d, hd⟩
      rcases d with _ | c | g
      · rw [hcore hd, if_pos rfl]
        omega
      · have := hctrl hd
        omega
      · have := hgroup hd
        omega
  · have hle := hone n
    rw [hheld] at hle
    rcases d with _ | c | g <;> rcases e with _ | c' | g'
    · rfl
    · have := hctrl he
      rw [if_pos (hcore hd)] at hle
      omega
    · have := hgroup he
      rw [if_pos (hcore hd)] at hle
      omega
    · have := hctrl hd
      rw [if_pos (hcore he)] at hle
      omega
    · obtain ⟨x, hx, hxn⟩ := Option.map_eq_some_iff.mp hd
      obtain ⟨y, hy, hyn⟩ := Option.map_eq_some_iff.mp he
      have hsum : s.ctrls.sum (fun x => x.numbers .minor n) ≤ 1 := by omega
      rw [Heap.eq_of_sum_le_one hsum hx hy (x.minor_numbers.mpr hxn.symm)
        (y.minor_numbers.mpr hyn.symm)]
    · have := hctrl hd
      have := hgroup he
      omega
    · have := hgroup hd
      rw [if_pos (hcore he)] at hle
      omega
    · have := hgroup hd
      have := hctrl he
      omega
    · obtain ⟨x, hx, hxn⟩ := Option.map_eq_some_iff.mp hd
      obtain ⟨y, hy, hyn⟩ := Option.map_eq_some_iff.mp he
      have hsum : s.groups.sum (fun x => x.numbers .minor n) ≤ 1 := by omega
      rw [Heap.eq_of_sum_le_one hsum hx hy (x.minor_numbers.mpr hxn.symm)
        (y.minor_numbers.mpr hyn.symm)]

/-! ## One request -/

/-- No group is there that was not there before. -/
def NoNewGroup (v v' : View) : Prop := ∀ g, v.group_ctrls g = none → v'.group_ctrls g = none

theorem NoNewGroup.of_eq (hg : v'.group_ctrls = v.group_ctrls) : NoNewGroup v v' :=
  fun g hn => by rw [hg, hn]

theorem NoNewGroup.put_group {g : GroupId} (hv : NoNewGroup v v') : NoNewGroup v (v'.put_group h g) := by
  intro j hn
  unfold View.put_group
  split
  · show Function.update v'.group_ctrls g none j = none
    by_cases hj : j = g
    · rw [hj, Function.update_self]
    · rw [Function.update_of_ne hj]
      exact hv j hn
  · exact hv j hn

theorem Created.no_new_group {params : BAFS_CORE_IOC_CREATE_GROUP_PARAMS} {env : CreateGroupEnv}
    {ret : Int} (hc : Created h v s params env ret h' v')
    (hno : ¬(group_made s params env ∧ name_reported s env)) : NoNewGroup v v' := by
  cases hc with
  | refused => exact .of_eq rfl
  | undone => exact .of_eq rfl
  | created hm hr => exact absurd ⟨hm, hr⟩ hno

theorem Deleted.no_new_group {params : BAFS_CORE_IOC_DELETE_GROUP_PARAMS} {copy : Bool} {ret : Int}
    (hd : Deleted h v s params copy ret h' v') : NoNewGroup v v' := by
  cases hd with
  | refused => exact .of_eq rfl
  | deleted =>
    refine NoNewGroup.put_group ?_
    exact .of_eq rfl

/-- Only a request that makes a device leaves a new group. -/
theorem Effect.no_new_group (he : Effect h v s r h' v') (hv : v.files = s.files)
    (hno : ¬makes_device s r) : NoNewGroup v v' := by
  cases he with
  | @close i x hx hg =>
    have hsame : NoNewGroup v ({ v with files := v.files.free i }.sweep_ctx x.ctx) := .of_eq rfl
    cases x with
    | group y => exact hsame.put_group
    | core c => exact hsame
    | ctrl y => exact hsame
  | @ioctl i cmd x arg env reply _ _ hx hi =>
    cases hi with
    | @create c _ _ _ hc hcmd hcr =>
      refine hcr.no_new_group fun hmade => hno ?_
      rw [hc, hv] at hx
      exact ⟨⟨c, hx⟩, hcmd, hmade⟩
    | delete hx hcmd hd => exact hd.no_new_group
    | reg_mem | reg_mem_fails | dma_map | refused => exact .of_eq rfl
  | mmap hx hr hm => exact .of_eq hm.groups.1
  | mmap_failed hx hr hm => exact .of_eq hm.groups.1
  | @revoke t x f ht hp hm =>
    exact .of_eq (View.revoke_mem_groups (v := { v with tables := unpinned v.tables t })).1
  | opened | probe | remove | not_opened | mmap_taken | no_file | split_refused | move_taken | no_vma
  | revoke_refused | munmap | munmap_mem | split | move | move_mem => exact .of_eq rfl

/-- What a request does to the minors of the devices. -/
structure MinorStep (s : State) (r : Request) (s' : State) : Prop where
  numbered : Numbered 0 s'
  old : ∀ d mi, minor_of s' d = some mi → minor_of s d = some mi ∨
    (makes_device s r ∧ mi = lowestFree s.bafs_minor_ida)
  made : makes_device s r → ∃ d, minor_of s' d = some (lowestFree s.bafs_minor_ida)

theorem CtrlMade.minors {P : Prop} (hc : CtrlMade P s s') (hn : Numbered 0 s) (hr : P ↔ makes_device s r) :
    MinorStep s r s' := by
  rcases hc with ⟨hP, x, hid, hm, he⟩ | ⟨hP, he⟩
  · have hctrls : s'.ctrls = s.ctrls.alloc x := congrArg (fun p => p.1) he
    have hgroups : s'.groups = s.groups := congrArg (fun p => p.2.1) he
    have hmade : makes_device s r := hr.mp hP
    refine ⟨?_, fun d mi hd => ?_, fun _ => ⟨some (.ctrl s.ctrls.next), ?_⟩⟩
    · refine (hn.ctrl_made hid hm).of_eq (he.trans ?_)
      rw [← hid, ← hm]
      rfl
    · rcases d with _ | c | g
      · exact .inl hd
      · have hd : (s'.ctrls.get c).map BafsCtrl.minor = some mi := hd
        obtain ⟨y, hy, rfl⟩ := Option.map_eq_some_iff.mp hd
        rw [hctrls] at hy
        obtain ⟨-, rfl⟩ | hy := Heap.get_alloc_cases hy
        · exact .inr ⟨hmade, hm⟩
        · left
          show (s.ctrls.get c).map BafsCtrl.minor = _
          rw [hy]
          rfl
      · left
        have hd : (s'.groups.get g).map BafsGroup.minor = some mi := hd
        rwa [hgroups] at hd
    · show (s'.ctrls.get s.ctrls.next).map BafsCtrl.minor = _
      rw [hctrls, Heap.get_alloc, if_pos rfl, ← hm]
      rfl
  · have hctrls : s'.ctrls = s.ctrls := congrArg (fun p => p.1) he
    have hgroups : s'.groups = s.groups := congrArg (fun p => p.2.1) he
    refine ⟨hn.of_eq he, fun d mi hd => .inl ?_, fun hm => absurd (hr.mpr hm) hP⟩
    rcases d with _ | c | g
    · exact hd
    · have hd : (s'.ctrls.get c).map BafsCtrl.minor = some mi := hd
      rwa [hctrls] at hd
    · have hd : (s'.groups.get g).map BafsGroup.minor = some mi := hd
      rwa [hgroups] at hd

/-- The creation of a group as a request. -/
theorem step_create {f : FileId} {c : CtxId} {arg : IoctlArg} {env : IoctlEnv} {E : Fault → Prop}
    (hs : At h s.view s) (hh : NonNeg h) (hf : s.files.get f = some (.core c)) :
    wp (step (.ioctl f BAFS_CORE_IOC_CREATE_GROUP arg env)) E (fun _ s' => ∃ ret h' v',
      Created h s.view s arg.create_group env.create_group ret h' v' ∧ NewNumbers s.view s s' ∧
      At h' v' s') s := by
  unfold step
  rw [wp_bind, wp_get, hf]
  show wp (do let r ← bafs_core_ioctl c BAFS_CORE_IOC_CREATE_GROUP arg env; pure _) _ _ _
  unfold bafs_core_ioctl
  rw [if_neg (by decide), if_neg (by decide), if_pos rfl, wp_bind]
  refine (bafs_core_create_group_spec hs hh).bind fun ret s₁ hr => ?_
  exact wp_ite (fun _ => ⟨ret, hr⟩) fun _ => ⟨ret, hr⟩

/-- A device that was there before has kept its minor, unless it is a new group. -/
theorem Renumbers.minor_of {d : Option Drvdata} {mi : Nat} (hr : Renumbers s s')
    (hd : minor_of s' d = some mi) : minor_of s d = some mi ∨
      ∃ g x, d = some (.group g) ∧ s'.groups.get g = some x ∧ x.minor = mi ∧ s.groups.get g = none := by
  rcases d with _ | c | g
  · exact .inl hd
  · obtain ⟨y, hy, rfl⟩ := Option.map_eq_some_iff.mp hd
    obtain ⟨x, hx, hsame⟩ := hr.ctrls c y hy
    left
    show (s.ctrls.get c).map BafsCtrl.minor = _
    rw [hx, hsame.1]
    rfl
  · obtain ⟨y, hy, rfl⟩ := Option.map_eq_some_iff.mp hd
    cases hg : s.groups.get g with
    | none => exact .inr ⟨g, y, rfl, hy, rfl, hg⟩
    | some x =>
      left
      obtain hlt | ⟨x', hx', hsame⟩ := hr.groups.kept g y hy
      · exact absurd (Heap.lt_next_of_get hg) (Nat.not_lt.mpr hlt)
      · show (s.groups.get g).map BafsGroup.minor = _
        rw [hx', hsame]
        rfl

theorem step_minors (r : Request) (hi : Inv s) (hn : Numbered 0 s) :
    wp (step r) (fun _ => True) (fun _ s' => Inv s' ∧ MinorStep s r s') s := by
  obtain ⟨h, hl, hs, hw⟩ := step_inv r hi
  by_cases hp : r.probes
  · cases r with
    | probe pdev env =>
      have hmade := wp_and (step_probe_numbers (E := fun _ => True) pdev env s) hw
      exact wp_mono hmade fun _ s' hs' => ⟨hs'.2.1, hs'.1.2.2.minors hn Iff.rfl⟩
    | _ => exact hp.elim
  have hgrows := wp_and (step_adds (A := any_call) r s hp (fun _ _ => trivial) fun _ _ => trivial) hw
  by_cases hm : makes_device s r
  · -- the creation of a group that stays
    cases r with
    | probe pdev env => exact absurd trivial hp
    | ioctl f cmd arg env =>
      obtain ⟨⟨c, hf⟩, rfl, hmade⟩ := hm
      have hcreate : wp (step (.ioctl f BAFS_CORE_IOC_CREATE_GROUP arg env)) (fun _ => True) _ s :=
        step_create hs hl.nonneg hf
      refine wp_mono (wp_and hgrows hcreate) fun _ s' hs' => ?_
      obtain ⟨⟨hg, hinv, -⟩, ret, h', v', hcr, hnew, hat⟩ := hs'
      refine ⟨hinv, hg.numbers.numbered 0 hn, fun d mi hd => ?_, fun _ => ?_⟩
      · obtain hold | ⟨g, x, -, hx, rfl, hnone⟩ := hg.numbers.minor_of hd
        · exact .inl hold
        · exact .inr ⟨⟨⟨c, hf⟩, rfl, hmade⟩, (hnew g x (group_none.mp hnone) hx).2⟩
      · cases hcr with
        | refused hno => exact absurd hmade.1 hno
        | undone hm' hno => exact absurd hmade.2 hno
        | @created g l hm' hrep hng =>
          have hgl : ((s.view.add_group g l).mark_create g).group_ctrls g = some l :=
            Function.update_self ..
          obtain ⟨x, hx, -⟩ := hat.group_live hgl
          refine ⟨some (.group g), ?_⟩
          show (s'.groups.get g).map BafsGroup.minor = _
          rw [hx, ← (hnew g x hng.none hx).2]
          rfl
    | _ => exact hm.elim
  · refine wp_mono hgrows fun _ s' hs' => ?_
    obtain ⟨hg, hinv, h', -, hat, he⟩ := hs'
    refine ⟨hinv, hg.numbers.numbered 0 hn, fun d mi hd => ?_, fun hmade => absurd hmade hm⟩
    obtain hold | ⟨g, x, -, hx, -, hnone⟩ := hg.numbers.minor_of hd
    · exact .inl hold
    · have hnone' := he.no_new_group rfl hm g (group_none.mp hnone)
      rw [hat.group_view hx] at hnone'
      cases hnone'

/-- A request that makes a device does not get stuck. -/
theorem makes_device_ends (hi : Inv s) (hm : makes_device s r) :
    wp (step r) (fun _ => False) (fun _ _ => True) s := by
  obtain ⟨h, hl, hs⟩ := hi.sane.at
  cases r with
  | probe pdev env => exact wp_mono (step_probe_numbers pdev env s) fun _ _ _ => trivial
  | ioctl f cmd arg env =>
    obtain ⟨⟨c, hf⟩, rfl, -⟩ := hm
    exact wp_mono (step_create hs hl.nonneg hf) fun _ _ _ => trivial
  | _ => exact hm.elim

/-! ## The whole run -/

theorem device_numbers_iff (hi : Inv s) (hn : Numbered 0 s) : DeviceNumbers s ↔
    ∀ d mi, minor_of s d = some mi → mi < BAFS_MINORS := by
  constructor
  · intro hd d mi hmi
    exact (hd.in_region d mi hmi).1
  · intro hlt
    obtain ⟨h, -, hs⟩ := hi.sane.at
    exact ⟨hn.minors, hn.ctrl_ids, hn.group_ids, hs.wf.logs.ctrl, hs.wf.logs.group,
      fun d mi hd => ⟨hlt d mi hd, MKDEV_in_region (hlt d mi hd)⟩⟩

/-- The PCI devices in `n` slots from `k` on are bound. -/
def bind_from : Nat → Nat → List Request
  | _, 0 => []
  | k, n + 1 => .bind k 0x100000 4096 :: bind_from (k + 1) n

/-- The PCI devices in the first `k` slots are bound. -/
structure Bound (k : Nat) (s : State) : Prop where
  minors : s.bafs_minor_ida.length = k + 1
  free : ∀ slot, k ≤ slot → s.drvdata.lookup slot = none

theorem Bound.bind {k : Nat} (hb : Bound k s) :
    wp (step (.bind k 0x100000 4096)) (fun _ => False) (fun _ s' => Bound (k + 1) s') s := by
  refine wp_mono (step_probe_numbers _ _ s) fun _ s' hs' => ?_
  obtain ⟨-, hdrv, ⟨-, x, -, -, he⟩ | ⟨hno, -⟩⟩ := hs'
  · have hminors : s'.bafs_minor_ida = x.minor :: s.bafs_minor_ida := congrArg (fun p => p.2.2.1) he
    refine ⟨?_, fun slot hslot => ?_⟩
    · rw [hminors, List.length_cons, hb.minors]
    · have hne : slot ≠ k := by omega
      rw [hdrv slot hne]
      exact hb.free slot (by omega)
  · exact absurd ⟨hb.free k le_rfl, rfl, rfl, rfl, rfl, rfl, rfl, rfl⟩ hno

/-- No more than `BAFS_MINORS` devices have minors in the region. -/
theorem Bound.le {k n : Nat} (hb : Bound k s)
    (ha : Always step (fun _ => True) DeviceNumbers (bind_from k n) s) : k + n < BAFS_MINORS := by
  induction n generalizing k s with
  | zero =>
    have hin : DeviceNumbers s := ha
    have hsub : s.bafs_minor_ida ⊆ List.range BAFS_MINORS := by
      intro mi hmi
      obtain ⟨d, hd⟩ := (hin.minors.mem_iff mi).mp hmi
      exact List.mem_range.mpr (hin.in_region d mi hd).1
    have hle := (List.subperm_of_subset hin.minors.nodup hsub).length_le
    rw [hb.minors, List.length_range] at hle
    exact hle
  | succ n ih =>
    obtain ⟨_, s', hb', ha'⟩ := wp_join hb.bind ha.2 fun _ h _ => h
    have := ih hb' ha'
    omega

end BafsDriver
