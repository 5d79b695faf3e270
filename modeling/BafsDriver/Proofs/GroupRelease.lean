import BafsDriver.Proofs.GroupCreation
import BafsDriver.Proofs.GroupName
import BafsDriver.Proofs.VmaClose

/-!
# What the release of a group gives back

`__bafs_group_release` destroys the device of the group, puts each of its controllers once for each of
its slots, and gives back its numbers and the reference to the core device. A controller of which it
had the last reference goes with it, and what that controller had. The state afterwards, exactly.
-/

set_option linter.style.nameCheck false

namespace BafsDriver

open Prog

variable {h : Held Kind} {s t u w : State} {E : Fault → Prop} {c : CtrlId} {g : GroupId}
  {l dead : List CtrlId} {x : BafsGroup} {k : BafsCtrl} {name : Name} {names : List Name}

/-! ## The controllers -/

/-- A field of the controllers of a list. -/
def ctrl_fields (s : State) (f : BafsCtrl → Nat) (l : List CtrlId) : List Nat :=
  l.filterMap fun c => (s.ctrls.get c).map f

theorem ctrl_fields_append {f : BafsCtrl → Nat} (hk : s.ctrls.get c = some k) :
    ctrl_fields s f (l ++ [c]) = ctrl_fields s f l ++ [f k] := by
  unfold ctrl_fields
  rw [List.filterMap_append, List.filterMap_cons, hk]
  rfl

theorem mem_ctrl_fields {f : BafsCtrl → Nat} {n : Nat} :
    n ∈ ctrl_fields s f l ↔ ∃ c ∈ l, ∃ k, s.ctrls.get c = some k ∧ f k = n := by
  unfold ctrl_fields
  simp only [List.mem_filterMap, Option.map_eq_some_iff]

/-- The state `t` after one reference to each controller of the list has been put in the state `s`; those
of `dead` were the last ones. -/
structure CtrlsPut (l dead : List CtrlId) (s t : State) : Prop where
  ctrls : ∀ c, t.ctrls.get c = (s.ctrls.get c).bind fun k => less_refs k (l.count c)
  gone : ∀ c, c ∈ dead ↔ (s.ctrls.get c).isSome ∧ t.ctrls.get c = none
  nodup : dead.Nodup
  devices : ∀ d, d ∉ ctrl_fields s BafsCtrl.device dead → t.devices.get d = s.devices.get d
  /-- The devices of the controllers that are gone have left the tree. -/
  nodes : ∀ d ∈ ctrl_fields s BafsCtrl.device dead, ∀ w, t.devices.get d = some w → w.in_tree = false
  rest : t = { s with
    ctrls := t.ctrls
    devices := t.devices
    ctrl_log := t.ctrl_log
    core_ref := s.core_ref - dead.length
    cdevs := s.cdevs.diff (ctrl_fields s BafsCtrl.minor dead)
    bafs_minor_ida := s.bafs_minor_ida.diff (ctrl_fields s BafsCtrl.minor dead)
    bafs_ctrl_ida := s.bafs_ctrl_ida.diff (ctrl_fields s BafsCtrl.ctrl_id dead)
    blocks := (ctrl_fields s BafsCtrl.blk dead).foldl Heap.free s.blocks }

/-- Each controller has its own device. -/
structure CtrlNodes (s : State) : Prop where
  live : ∀ c k, s.ctrls.get c = some k → ∃ w, s.devices.get k.device = some w ∧ w.drvdata = some (.ctrl c)
  pos : ∀ c k, s.ctrls.get c = some k → 0 < k.ref

theorem less_refs_zero (hk : 0 < k.ref) : less_refs k 0 = some k := by
  unfold less_refs
  rw [if_pos hk]
  rfl

theorem CtrlsPut.refl (hn : CtrlNodes s) : CtrlsPut [] [] s s where
  ctrls c := by
    cases hc : s.ctrls.get c with
    | none => rfl
    | some k =>
      rw [List.count_nil, Option.bind_some, less_refs_zero (hn.pos c k hc)]
  gone c := by
    constructor
    · intro hc
      cases hc
    · rintro ⟨hsome, hnone⟩
      rw [hnone] at hsome
      cases hsome
  nodup := List.nodup_nil
  devices _ _ := rfl
  nodes _ hd := by cases hd
  rest := by
    have h0 : s.core_ref - (([] : List CtrlId).length : Int) = s.core_ref := sub_zero _
    rw [h0]
    rfl

theorem less_refs_eq {n : Nat} {k' : BafsCtrl} (hk : less_refs k n = some k') :
    n < k.ref ∧ k' = { k with ref := k.ref - n } := by
  unfold less_refs at hk
  split at hk
  · rename_i hlt
    exact ⟨hlt, (Option.some.inj hk).symm⟩
  · cases hk

/-- The state after the last reference to the controller `c`, which is `k`, has been put. -/
def State.lose_ctrl (t : State) (c : CtrlId) (k : BafsCtrl) (w : Device) : State := { t with
  ctrls := t.ctrls.free c
  ctrl_log := c :: t.ctrl_log
  devices := destroyed t.devices k.device w
  core_ref := t.core_ref - 1
  cdevs := t.cdevs.erase k.minor
  bafs_ctrl_ida := t.bafs_ctrl_ida.erase k.ctrl_id
  bafs_minor_ida := t.bafs_minor_ida.erase k.minor
  blocks := t.blocks.free k.blk }

theorem wp_ctrl_release_last {Q : Unit → State → Prop} {w : Device} (hk : t.ctrls.get c = some k)
    (hone : k.ref = 1) (hw : t.devices.get k.device = some w) :
    wp (bafs_ctrl_release c) E Q t ↔ Q () (t.lose_ctrl c k w) := by
  unfold bafs_ctrl_release __bafs_ctrl_release put_core_device cdev_del bafs_put_minor_number kfree
  rw [wp_bind, wp_ctrl_at hk, wp_bind, wp_ctrl_upd hk, if_pos hone, wp_bind,
    wp_ctrl_at (by exact Heap.get_set_self hk), wp_bind, wp_device_destroy (by exact hw)]
  simp only [wp_bind, wp_modify, Heap.free_set]
  rfl

/-- The device of a controller that is there has not been destroyed. -/
theorem CtrlsPut.device_kept (hn : CtrlNodes s) (hk : s.ctrls.get c = some k) (hc : c ∉ dead) :
    k.device ∉ ctrl_fields s BafsCtrl.device dead := by
  intro hd
  obtain ⟨c', hc', k', hk', hdev⟩ := mem_ctrl_fields.mp hd
  obtain ⟨w, hw, hdata⟩ := hn.live c k hk
  obtain ⟨w', hw', hdata'⟩ := hn.live c' k' hk'
  rw [hdev, hw] at hw'
  obtain rfl := Option.some.inj hw'
  cases hdata.symm.trans hdata'
  exact hc hc'

theorem CtrlsPut.round (hp : CtrlsPut l dead s t) (hn : CtrlNodes s) (hk : s.ctrls.get c = some k)
    (hlt : l.count c < k.ref) :
    wp (bafs_ctrl_release c) E (fun _ u => ∃ dead', CtrlsPut (l ++ [c]) dead' s u) t := by
  have hnow : t.ctrls.get c = some { k with ref := k.ref - l.count c } := by
    rw [hp.ctrls c, hk, Option.bind_some, less_refs, if_pos hlt]
  have hlive : c ∉ dead := fun hc => by
    have hnone := ((hp.gone c).mp hc).2
    rw [hnow] at hnone
    cases hnone
  have hcount : ∀ i, (l ++ [c]).count i = l.count i + if i = c then 1 else 0 := fun i => by
    rw [List.count_append]
    by_cases hi : i = c
    · rw [if_pos hi, hi, List.count_singleton_self]
    · rw [if_neg hi, List.count_eq_zero.mpr fun hin => hi (List.mem_singleton.mp hin)]
  have hless : ∀ i, (put_ctrl t.ctrls c { k with ref := k.ref - l.count c }).get i =
      (s.ctrls.get i).bind fun k => less_refs k ((l ++ [c]).count i) := fun i => by
    rw [put_ctrl_less hp.ctrls hnow i]
    simp only [hcount]
  unfold put_ctrl at hless
  by_cases hone : k.ref - l.count c = 1
  · obtain ⟨w, hw, -⟩ := hn.live c k hk
    have hkept := CtrlsPut.device_kept hn hk hlive
    have hw' : t.devices.get k.device = some w := (hp.devices _ hkept).trans hw
    have hfields : ∀ f : BafsCtrl → Nat, ctrl_fields s f (dead ++ [c]) = ctrl_fields s f dead ++ [f k] :=
      fun f => ctrl_fields_append hk
    rw [if_pos hone] at hless
    refine (wp_ctrl_release_last hnow hone hw').mpr ⟨dead ++ [c], hless, fun i => ?_, ?_,
      fun d hd => ?_, fun d hd y hy => ?_, ?_⟩
    · show i ∈ dead ++ [c] ↔ (s.ctrls.get i).isSome ∧ (t.ctrls.free c).get i = none
      rw [List.mem_append, List.mem_singleton, hp.gone i, Heap.get_free]
      by_cases hi : i = c
      · simp [hi, hk]
      · simp [hi]
    · refine List.nodup_append.mpr ⟨hp.nodup, List.nodup_singleton c, fun a ha b hb he => ?_⟩
      exact hlive (List.mem_singleton.mp hb ▸ he ▸ ha)
    · rw [hfields, List.mem_append, not_or] at hd
      have hne : d ≠ k.device := fun he => hd.2 (he ▸ List.mem_singleton_self _)
      exact (get_destroyed_ne hne).trans (hp.devices d hd.1)
    · rw [hfields, List.mem_append, List.mem_singleton] at hd
      by_cases he : d = k.device
      · subst he
        exact destroyed_in_tree hw' hy
      · exact hp.nodes d (hd.resolve_right he) y ((get_destroyed_ne he).symm.trans hy)
    · have hlen : s.core_ref - ((dead ++ [c]).length : Int) = s.core_ref - dead.length - 1 := by
        rw [List.length_append, List.length_singleton, Nat.cast_add, Nat.cast_one, sub_sub]
      rw [hlen, hfields, hfields, hfields, List.diff_append, List.diff_append, List.diff_append,
        List.foldl_append]
      simp only [List.diff_cons, List.diff_nil]
      rw [hp.rest]
      rfl
  · rw [if_neg hone] at hless
    refine (wp_ctrl_release_kept hnow hone).mpr ⟨dead, hless, fun i => ?_, hp.nodup, hp.devices,
      hp.nodes, ?_⟩
    · rw [hp.gone i]
      by_cases hi : i = c
      · rw [hi, hnow, Heap.get_set_self hnow]
        simp
      · rw [Heap.get_set_ne hi]
    · have hrest := hp.rest
      rw [hrest]

theorem each_release_put (hn : CtrlNodes s) (hl : ∀ c ∈ l, ∃ k, s.ctrls.get c = some k ∧ l.count c ≤ k.ref) :
    wp (each bafs_ctrl_release l) E (fun _ u => ∃ dead, CtrlsPut l dead s u) s := by
  refine wp_mono (wp_each (fun rest u => ∃ done dead, l = done ++ rest ∧ CtrlsPut done dead s u)
    (fun c rest u hinv => ?_) ⟨[], [], rfl, .refl hn⟩) fun _ u hu => ?_
  · obtain ⟨done, dead, hdone, hp⟩ := hinv
    obtain ⟨k, hk, hle⟩ := hl c (hdone ▸ List.mem_append_right _ List.mem_cons_self)
    have hlt : done.count c < k.ref := by
      rw [hdone, List.count_append, List.count_cons_self] at hle
      omega
    refine wp_mono (hp.round hn hk hlt) fun _ u' hu' => ?_
    obtain ⟨dead', hp'⟩ := hu'
    exact ⟨done ++ [c], dead', by rw [hdone, List.append_assoc]; rfl, hp'⟩
  · obtain ⟨done, dead, hdone, hp⟩ := hu
    rw [List.append_nil] at hdone
    exact ⟨dead, hdone ▸ hp⟩

/-! ## The group -/

/-- The state `u` after the last reference to the group `g`, which was `x`, has been put in the state `s`,
and with it the last ones to the controllers of `dead`. -/
structure GroupPut (g : GroupId) (x : BafsGroup) (dead : List CtrlId) (s u : State) : Prop where
  /-- Each controller has lost a reference for each of its slots. -/
  ctrls : ∀ c, u.ctrls.get c = (s.ctrls.get c).bind fun k => less_refs k (x.ctrls.count c)
  gone : ∀ c, c ∈ dead ↔ (s.ctrls.get c).isSome ∧ u.ctrls.get c = none
  nodup : dead.Nodup
  groups : ∀ i, u.groups.get i = if i = g then none else s.groups.get i
  core_ref : u.core_ref = s.core_ref - 1 - dead.length
  group_ids : u.bafs_group_ida = s.bafs_group_ida.erase x.group_id
  ctrl_ids : u.bafs_ctrl_ida = s.bafs_ctrl_ida.diff (ctrl_fields s BafsCtrl.ctrl_id dead)
  minors : u.bafs_minor_ida = (s.bafs_minor_ida.diff (ctrl_fields s BafsCtrl.minor dead)).erase x.minor
  cdevs : u.cdevs = (s.cdevs.diff (ctrl_fields s BafsCtrl.minor dead)).erase x.minor
  /-- The device of the group has left the tree, as have those of the controllers that are gone. -/
  nodes : ∀ d ∈ x.device :: ctrl_fields s BafsCtrl.device dead, ∀ w, u.devices.get d = some w →
    w.in_tree = false
  /-- No reference to the device of the group is left but those that others hold. -/
  freed : ∀ w, s.devices.get x.device = some w → w.ref = 1 → u.devices.get x.device = none
  devices : ∀ d, d ∉ x.device :: ctrl_fields s BafsCtrl.device dead → u.devices.get d = s.devices.get d
  blocks : u.blocks = (((ctrl_fields s BafsCtrl.blk dead).foldl Heap.free s.blocks).free
    x.ctrls_blk).free x.blk

/-- In every state that satisfies the invariant the last reference to a group can be put. -/
structure LastRef (g : GroupId) (x : BafsGroup) (w : Device) (s : State) : Prop where
  group : s.groups.get g = some x
  one : x.ref = 1
  device : s.devices.get x.device = some w
  drvdata : w.drvdata = some (.group g)
  nodes : CtrlNodes s
  held : ∀ c ∈ x.ctrls, ∃ k, s.ctrls.get c = some k ∧ x.ctrls.count c ≤ k.ref

theorem wp_put_group_last {w : Device} (hr : LastRef g x w s) :
    wp (bafs_put_group g) E (fun _ u => ∃ dead, GroupPut g x dead s u) s := by
  have hother : ∀ c k, s.ctrls.get c = some k → k.device ≠ x.device := fun c k hk he => by
    obtain ⟨w', hw', hdata⟩ := hr.nodes.live c k hk
    rw [he, hr.device] at hw'
    obtain rfl := Option.some.inj hw'
    cases hdata.symm.trans hr.drvdata
  have hnodes : CtrlNodes { s with
      groups := s.groups.free g
      devices := destroyed s.devices x.device w
      group_log := .release g :: s.group_log } := by
    refine ⟨fun c k hk => ?_, hr.nodes.pos⟩
    obtain ⟨w', hw', hdata⟩ := hr.nodes.live c k hk
    exact ⟨w', (get_destroyed_ne (hother c k hk)).trans hw', hdata⟩
  unfold bafs_put_group __bafs_group_release put_core_device cdev_del bafs_put_minor_number kfree
  rw [wp_bind, debug_group_live hr.group, wp_bind, wp_group_at hr.group, wp_bind, wp_group_upd hr.group,
    if_pos hr.one, wp_bind, wp_bind, wp_group_at (by exact Heap.get_set_self hr.group), wp_bind,
    wp_device_destroy (by exact hr.device), wp_bind, wp_modify]
  simp only [Heap.free_set]
  refine (each_release_put hnodes hr.held).bind fun _ u hu => ?_
  obtain ⟨dead, hp⟩ := hu
  have hfree : x.device ∉ ctrl_fields s BafsCtrl.device dead := fun hd => by
    obtain ⟨c, -, k, hk, he⟩ := mem_ctrl_fields.mp hd
    exact hother c k hk he
  have hgroups : u.groups = s.groups.free g := congrArg State.groups hp.rest
  simp only [wp_bind, wp_modify]
  unfold debug_group
  rw [wp_modify, hgroups, Heap.get_free_self, Option.isSome_none, if_neg Bool.false_ne_true]
  refine ⟨dead, hp.ctrls, hp.gone, hp.nodup, fun i => ?_, ?_, ?_, ?_, ?_, ?_, fun d hd y hy => ?_,
    fun y hy hone => ?_, fun d hd => ?_, ?_⟩
  · exact Heap.get_free
  · show u.core_ref - 1 = _
    rw [hp.rest, sub_right_comm]
  · show u.bafs_group_ida.erase x.group_id = _
    rw [hp.rest]
  · show u.bafs_ctrl_ida = _
    rw [hp.rest]
    rfl
  · show u.bafs_minor_ida.erase x.minor = _
    rw [hp.rest]
    rfl
  · show u.cdevs.erase x.minor = _
    rw [hp.rest]
    rfl
  · rcases List.mem_cons.mp hd with rfl | hd
    · exact destroyed_in_tree hr.device ((hp.devices _ hfree).symm.trans hy)
    · exact hp.nodes d hd y hy
  · obtain rfl := Option.some.inj (hr.device.symm.trans hy)
    refine (hp.devices _ hfree).trans ?_
    unfold destroyed
    rw [if_pos hone, Heap.get_free_self]
  · rw [List.mem_cons, not_or] at hd
    exact (hp.devices d hd.2).trans (get_destroyed_ne hd.1)
  · show (u.blocks.free x.ctrls_blk).free x.blk = _
    rw [hp.rest]
    rfl

theorem lastRef_of_wf (hw : WF h s) (hh : NonNeg h) (hx : s.groups.get g = some x) (hone : x.ref = 1) :
    ∃ w, w.in_tree = true ∧ LastRef g x w s := by
  obtain ⟨w, hdev, hin, hdata, -, -⟩ := hw.tree.group hx
  refine ⟨w, hin, hx, hone, hdev, hdata, ⟨fun c k hk => ?_, hw.ctrl.pos⟩, fun c hc => ?_⟩
  · obtain ⟨w', hw', -, hdata', -, -⟩ := hw.tree.ctrl hk
    exact ⟨w', hw', hdata'⟩
  · have hslot : x.ctrls.count c ≤ s.groups.sum fun x => x.ctrls.count c :=
      Heap.le_sum (f := fun x : BafsGroup => x.ctrls.count c) hx
    have hpos : 0 < x.ctrls.count c := List.count_pos_iff.mpr hc
    have hnonneg := hh .ctrl c (by decide)
    cases hk : s.ctrls.get c with
    | none =>
      have hdue := hw.ctrl.none c hk
      unfold ctrl_holders at hdue
      omega
    | some k =>
      have hdue := hw.ctrl.eq c k hk
      unfold ctrl_holders at hdue
      exact ⟨k, rfl, by omega⟩

/-! ## The names of the controllers -/

/-- The controller `c` is the one whose device has this name. -/
def CtrlNamed (s : State) (c : CtrlId) (name : Name) : Prop :=
  ∃ k w, s.ctrls.get c = some k ∧ s.devices.get k.device = some w ∧ w.name = name

theorem ctrlNamed_iff (hw : WF h s) : CtrlNamed s c name ↔
    ∃ k, s.ctrls.get c = some k ∧ name = ctrl_dev_name k.ctrl_id := by
  constructor
  · rintro ⟨k, w, hk, hdev, rfl⟩
    obtain ⟨w', hdev', -, -, -, hname⟩ := hw.tree.ctrl hk
    obtain rfl := Option.some.inj (hdev.symm.trans hdev')
    exact ⟨k, hk, hname⟩
  · rintro ⟨k, hk, rfl⟩
    obtain ⟨w, hdev, -, -, -, hname⟩ := hw.tree.ctrl hk
    exact ⟨k, w, hk, hdev, hname⟩

theorem ctrl_dev_name_inj {m n : Nat} (he : ctrl_dev_name m = ctrl_dev_name n) : m = n :=
  decimal_inj (List.append_cancel_left he)

theorem CtrlNamed.unique {c' : CtrlId} (hw : WF h s) (hn : Numbered 0 s) (hc : CtrlNamed s c name)
    (hc' : CtrlNamed s c' name) : c = c' := by
  obtain ⟨k, hk, rfl⟩ := (ctrlNamed_iff hw).mp hc
  obtain ⟨k', hk', hname⟩ := (ctrlNamed_iff hw).mp hc'
  have hid := ctrl_dev_name_inj hname
  refine hn.ctrl_ids.unique c c' k.ctrl_id ?_ ?_
  · rw [hk]
    rfl
  · rw [hk', hid]
    rfl

/-- The lookup finds the device of the controller with the name. -/
theorem ctrl_of_name_named (hw : WF h s) (hc : ctrl_of_name s name = some c) : CtrlNamed s c name := by
  unfold ctrl_of_name at hc
  obtain ⟨d, hd, hc⟩ := Option.bind_eq_some_iff.mp hc
  obtain ⟨w, hdev, hctrl⟩ := Option.bind_eq_some_iff.mp hc
  obtain ⟨-, w', hdev', hin, hname, -⟩ := ctrl_child_some hd
  obtain rfl := Option.some.inj (hdev.symm.trans hdev')
  obtain ⟨o, n, ho, hnode, rfl⟩ := hw.tree.child d w hdev hin
  unfold Device.ctrl at hctrl
  rw [ho] at hctrl
  cases o with
  | group g => cases hctrl
  | ctrl c' =>
    obtain rfl := Option.some.inj hctrl
    obtain ⟨k, hk, rfl⟩ := Option.map_eq_some_iff.mp hnode
    exact ⟨k, w, hk, hdev, hname⟩

/-- A controller has as many slots as it is named. -/
theorem count_slots {ctrls : List CtrlId} {w : Device} (hw : WF h s) (hn : Numbered 0 s)
    (hnamed : names.map (ctrl_of_name s) = ctrls.map some) (hk : s.ctrls.get c = some k)
    (hdev : s.devices.get k.device = some w) : ctrls.count c = names.count w.name := by
  have hsame : ∀ name ∈ names, ctrl_of_name s name = some c ↔ name = w.name := by
    intro name hname
    have hin : ctrl_of_name s name ∈ ctrls.map some := hnamed ▸ List.mem_map_of_mem hname
    obtain ⟨c', -, hc'⟩ := List.mem_map.mp hin
    have hnamed' := ctrl_of_name_named hw hc'.symm
    constructor
    · intro hc
      obtain ⟨k', w', hk', hdev', rfl⟩ := ctrl_of_name_named hw hc
      obtain rfl := Option.some.inj (hk.symm.trans hk')
      obtain rfl := Option.some.inj (hdev.symm.trans hdev')
      rfl
    · rintro rfl
      rw [← hc', hnamed'.unique hw hn ⟨k, w, hk, hdev, rfl⟩]
  calc ctrls.count c = (ctrls.map some).count (some c) :=
        (List.count_map_of_injective _ _ (Option.some_injective _) c).symm
    _ = (names.map (ctrl_of_name s)).count (some c) := by rw [hnamed]
    _ = names.countP fun name => ctrl_of_name s name == some c := by
        rw [List.count, List.countP_map]
        rfl
    _ = names.count w.name := by
        rw [List.count]
        refine List.countP_congr fun name hname => ?_
        simp only [beq_iff_eq, hsame name hname]

/-! ## The creation and its end -/

/-- `bafs_group_alloc` has made the group `g`, which is `x`, of the controllers with these names. -/
structure CreatedOf (s : State) (names : List Name) (g : GroupId) (x : BafsGroup) (t : State) : Prop where
  group : t.groups.get g = some x
  new : s.groups.get g = none
  n_ctrls : x.ctrls.length = names.length
  slots : ∀ c k w, s.ctrls.get c = some k → s.devices.get k.device = some w →
    x.ctrls.count c = names.count w.name
  /-- The controller in a slot is the one whose device has the name. -/
  slot : ∀ (i : Nat) (c : CtrlId) (name : Name), x.ctrls[i]? = some c → names[i]? = some name →
    ∀ c', CtrlNamed s c' name ↔ c' = c
  /-- Each controller has one more reference for each time that it is named. -/
  ctrls : ∀ c k w, s.ctrls.get c = some k → s.devices.get k.device = some w →
    t.ctrls.get c = some { k with ref := k.ref + names.count w.name }
  devices : ∀ d w, s.devices.get d = some w → t.devices.get d = some w
  core_ref : t.core_ref = s.core_ref + 1
  group_ids : t.bafs_group_ida = x.group_id :: s.bafs_group_ida
  minors : t.bafs_minor_ida = x.minor :: s.bafs_minor_ida
  cdevs : t.cdevs = x.minor :: s.cdevs
  node : s.devices.get x.device = none ∧ ∃ w, t.devices.get x.device = some w ∧ w.in_tree = true ∧
    w.name = group_dev_name x.group_id

theorem GroupAlloced.created {ctrls : List CtrlId} (ha : GroupAlloced s names ctrls t) (hw : WF h s)
    (hn : Numbered 0 s) : ∃ x, x.ref = 1 ∧ CreatedOf s names s.groups.next x t := by
  have heq := ha.eq
  refine ⟨new_group s s.blocks.next (s.blocks.next + 2) ctrls, rfl, ha.get, Heap.get_next, ?_,
    fun c k w hk hdev => ?_, fun i c name hc hname c' => ?_, fun c k w hk hdev => ?_, fun d w hd => ?_, ?_, ?_, ?_, ?_, ?_⟩
  · have hlen := congrArg List.length ha.named
    rw [List.length_map, List.length_map] at hlen
    exact hlen.symm
  · exact count_slots hw hn ha.named hk hdev
  · have hget := congrArg (fun l => l[i]?) ha.named
    have hc : ctrls[i]? = some c := hc
    simp only [List.getElem?_map, hname, hc, Option.map_some, Option.some.injEq] at hget
    have hnamed := ctrl_of_name_named hw hget
    exact ⟨fun hc' => hc'.unique hw hn hnamed, fun hc' => hc' ▸ hnamed⟩
  · rw [ha.raised.get c, hk, Option.map_some, count_slots hw hn ha.named hk hdev]
    rfl
  · rw [heq]
    exact Heap.get_alloc_of_get hd
  · rw [heq]
  · rw [heq]
    rfl
  · rw [heq]
    rfl
  · rw [heq]
    rfl
  · refine ⟨Heap.get_next, group_node s, ?_, rfl, rfl⟩
    rw [heq]
    show (s.devices.alloc _).get s.devices.next = _
    rw [Heap.get_alloc, if_pos rfl]

/-- A state in which a request that has started in `s` may put a group: the counts are those of the
references that are held, and it has not changed a group yet. -/
structure Amid (s u : State) : Prop where
  groups : u.groups = s.groups
  counted : ∃ h, NonNeg h ∧ WF h u

theorem run_groups_kept {rs : List Request} (hr : run step rs s = .ok t) :
    s.groups.Kept same_group t.groups := by
  have hall : Always step (fun _ => True) (fun t => s.groups.Kept same_group t.groups) rs s :=
    always_of_step (fun t r hk => wp_mono (step_groups_kept r t) fun _ _ hk' =>
      hk.trans same_group_trans hk') (fun _ hk => hk) rs (.refl same_group_refl _)
  exact (always_iff_run.mp hall rs (List.prefix_refl rs)).1 t hr

/-- Every step keeps the invariants that the creation of a group builds on. -/
theorem step_loanInv_numbered {s : State} (r : Request) (hi : LoanInv s ∧ Numbered 0 s) :
    wp (step r) (fun _ => True) (fun _ s' => LoanInv s' ∧ Numbered 0 s') s :=
  wp_mono (wp_and (hi.1.step r) (step_minors r hi.1.inv hi.2)) fun _ _ hs' => ⟨hs'.1, hs'.2.2.numbered⟩

/-- In every state that a run reaches a creation that succeeds makes its group of the controllers that
it names, each with a reference for each time that it is named; and after any requests in between, in
whatever request the last reference to the group is put, all that the creation took is given back. -/
theorem group_creation_undone (rs : List Request) : Always step (fun _ => True) (fun s =>
    ∀ names env, wp (bafs_group_alloc names env) (fun _ => False) (fun r t => ∀ g, r.2 = some g →
      ∃ x, CreatedOf s names g x t ∧ ∀ t' rs' u u' y, t'.groups = t.groups → run step rs' t' = .ok u →
        Amid u u' → u'.groups.get g = some y → y.ref = 1 →
        wp (bafs_put_group g) (fun _ => False) (fun _ w => ∃ dead, GroupPut g x dead u' w) u') s)
    rs init := by
  refine always_of_step (I := fun s => LoanInv s ∧ Numbered 0 s) (fun s r hi => step_loanInv_numbered r hi)
    (fun s hi names env => ?_) rs ⟨.init, .init⟩
  obtain ⟨hi, hn⟩ := hi
  obtain ⟨h, hl, hs⟩ := hi.inv.sane.at
  have hold : ∀ b ∈ s.blocks.freed, b < s.blocks.next := fun b hb => block_freed_lt hi.loans hb
  refine wp_mono (bafs_group_alloc_exact hs hold) fun r t ht g hg => ?_
  obtain ⟨-, rfl, ctrls, ha⟩ | ⟨-, -, hnone, -⟩ := ht
  · obtain rfl := Option.some.inj hg
    obtain ⟨x, hone, hc⟩ := ha.created hs.wf hn
    refine ⟨x, hc, fun t' rs' u u' y htt hrun hamid hy hy1 => ?_⟩
    have hkept := run_groups_kept hrun
    rw [hamid.groups] at hy
    have hx : t'.groups.get s.groups.next = some x := by
      rw [htt]
      exact hc.group
    obtain hle | ⟨x', hx', hsame⟩ := hkept.kept _ y hy
    · exact absurd (Heap.lt_next_of_get hx) (Nat.not_lt.mpr hle)
    · obtain rfl := Option.some.inj (hx.symm.trans hx')
      have hyx : y = x := by
        rw [hsame, hy1, ← hone]
      subst hyx
      obtain ⟨k, hk, hwf⟩ := hamid.counted
      rw [← hamid.groups] at hy
      obtain ⟨w, -, hlast⟩ := lastRef_of_wf hwf hk hy hy1
      exact wp_put_group_last hlast
  · rw [hnone] at hg
    cases hg

end BafsDriver
