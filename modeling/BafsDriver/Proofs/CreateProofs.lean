import BafsDriver.Proofs.GroupProofs

/-!
# Creation and deletion of groups

When a group is created, what is left of a creation that fails, and what a deletion does. Both find
their objects by name among the children of the core device.
-/

set_option linter.style.nameCheck false

namespace BafsDriver

open Prog

variable {h h' : Held Kind} {v v' : View} {s s' : State} {E : Fault → Prop}

/-! ## The children of the core device -/

/-- The devices without their counts, and the numbers of groups and of devices in use. -/
def frame (s : State) : Nat × (DeviceId → Option Device) × List Nat × List Nat :=
  (s.devices.next, fun d => (s.devices.get d).map fun w => { w with ref := 0 }, s.bafs_group_ida,
    s.bafs_minor_ida)

theorem frame_device (hf : frame s' = frame s) {d : DeviceId} {w : Device}
    (hd : s.devices.get d = some w) : ∃ n, s'.devices.get d = some { w with ref := n } := by
  have := congrFun (congrArg (fun p => p.2.1) hf) d
  simp only [frame, hd, Option.map_some] at this
  obtain ⟨w', hw', he⟩ := Option.map_eq_some_iff.mp this
  cases w
  cases w'
  simp only [Device.mk.injEq] at he
  obtain ⟨rfl, rfl, rfl, -, rfl⟩ := he
  exact ⟨_, hw'⟩

/-- The lookup of a child does not read the counts. -/
theorem frame_find_child (hf : frame s' = frame s) (name : Name) :
    find_child s' name = find_child s name := by
  have hnext : s'.devices.next = s.devices.next := congrArg (fun p => p.1) hf
  have hany : ∀ (p : Device → Bool), (∀ w n, p { w with ref := n } = p w) → ∀ d,
      (s'.devices.get d).any p = (s.devices.get d).any p := by
    intro p hp d
    cases hd : s.devices.get d with
    | none =>
      have hd' : s'.devices.get d = none := by
        have := congrFun (congrArg (fun p => p.2.1) hf) d
        simpa [frame, hd] using this
      rw [hd']
    | some w =>
      obtain ⟨n, hn⟩ := frame_device hf hd
      rw [hn, Option.any_some, Option.any_some, hp]
  unfold find_child children
  rw [hnext]
  have h1 : (fun d => (s'.devices.get d).any fun x => x.in_tree) =
      fun d => (s.devices.get d).any fun x => x.in_tree :=
    funext (hany (fun x => x.in_tree) fun _ _ => rfl)
  have h2 : (fun d => (s'.devices.get d).any fun x => decide (x.name = name)) =
      fun d => (s.devices.get d).any fun x => decide (x.name = name) :=
    funext (hany (fun x => decide (x.name = name)) fun _ _ => rfl)
  rw [h1, h2]

theorem frame_set_ref {d : DeviceId} {w : Device} {n : Nat} (hd : s.devices.get d = some w) :
    frame { s with devices := s.devices.set d { w with ref := n } } = frame s := by
  unfold frame
  rw [Heap.next_set]
  congr
  funext e
  rw [Heap.get_set hd]
  by_cases he : e = d
  · rw [if_pos he, he, hd]
    rfl
  · rw [if_neg he]

/-- A child that is found is in the tree. -/
theorem find_child_some {name : Name} {d : DeviceId} (hd : find_child s name = some d) :
    ∃ w, s.devices.get d = some w ∧ w.in_tree = true ∧ w.name = name := by
  have h1 := List.find?_some hd
  have h2 := List.mem_of_find?_eq_some hd
  obtain ⟨w, hw, hn⟩ := (Option.any_eq_true _ _).mp h1
  obtain ⟨w', hw', hin⟩ := (Option.any_eq_true _ _).mp (List.mem_filter.mp h2).2
  rw [hw] at hw'
  exact ⟨w, hw, Option.some.inj hw' ▸ hin, of_decide_eq_true hn⟩

/-- The first child with this name is the device of a controller, by its class. -/
def ctrl_named (s : State) (name : Name) : Prop :=
  ∃ d w, find_child s name = some d ∧ s.devices.get d = some w ∧
    w.cls.take BAFS_CTRL_CLASS_NAME.length = BAFS_CTRL_CLASS_NAME

theorem frame_ctrl_named (hf : frame s' = frame s) (name : Name) :
    ctrl_named s' name ↔ ctrl_named s name := by
  have hfwd : ∀ {s s' : State}, frame s' = frame s → ctrl_named s name → ctrl_named s' name := by
    rintro s s' hf ⟨d, w, hd, hw, hcls⟩
    obtain ⟨n, hn⟩ := frame_device hf hw
    exact ⟨d, _, (frame_find_child hf name).trans hd, hn, hcls⟩
  exact ⟨hfwd hf.symm, hfwd hf⟩

/-- The driver data of the device is a controller, and the device is in the tree. -/
def ctrl_device (s : State) (d : DeviceId) : Prop :=
  ∃ w c, s.devices.get d = some w ∧ w.in_tree = true ∧ w.drvdata = some (.ctrl c)

theorem frame_ctrl_device (hf : frame s' = frame s) {d : DeviceId} (hd : ctrl_device s d) :
    ctrl_device s' d := by
  obtain ⟨w, c, hw, hin, hc⟩ := hd
  obtain ⟨n, hn⟩ := frame_device hf hw
  exact ⟨_, c, hn, hin, hc⟩

/-- A child of the controller class has a controller as its driver data. -/
theorem At.class_ctrl (hs : At h v s) {d : DeviceId} {w : Device} (hd : s.devices.get d = some w)
    (hin : w.in_tree = true)
    (hcls : w.cls.take BAFS_CTRL_CLASS_NAME.length = BAFS_CTRL_CLASS_NAME) :
    ∃ c, w.drvdata = some (.ctrl c) := by
  obtain ⟨o, n, ho, hn, rfl⟩ := hs.wf.tree.child d w hd hin
  obtain ⟨w', hw', -, -, hcls', -⟩ := hs.wf.tree.node o n hn
  rw [hd] at hw'
  obtain rfl := Option.some.inj hw'
  cases o with
  | ctrl c => exact ⟨c, ho⟩
  | group g =>
    obtain ⟨x, -, rfl⟩ := Option.map_eq_some_iff.mp hn
    rw [hcls'] at hcls
    exact absurd hcls (show BAFS_GROUP_CLASS_NAME.take BAFS_CTRL_CLASS_NAME.length ≠
      BAFS_CTRL_CLASS_NAME by decide)

/-! ## References to devices -/

theorem At.device_live (hs : At h v s) {d : DeviceId} (hd : 0 < h .device d) :
    ∃ w, s.devices.get d = some w := by
  refine hs.wf.device.exists_of_pos ?_
  omega

theorem put_device_spec {d : DeviceId} (hs : At (h + tok Kind.device d) v s) (hh : NonNeg h) :
    wp (put_device d) E (fun _ s' => At h v s') s := by
  have hd := hh .device d (by decide)
  obtain ⟨w, hw⟩ := hs.device_live (d := d) (by rw [add_tok_self]; omega)
  exact (wp_put_device hw).mpr ⟨hs.wf.device_put hd hw, hs.view⟩

theorem each_put_device_spec {l : List DeviceId} (hs : At (h + toks Kind.device l) v s)
    (hh : NonNeg h) : wp (each put_device l) E (fun _ s' => At h v s') s := by
  refine wp_mono (wp_each (fun l s => At (h + toks Kind.device l) v s) (fun d l s₁ h₁ => ?_) hs)
    fun _ s' hs' => hs'.congr (by rw [toks_nil, add_zero])
  refine put_device_spec (h₁.congr ?_) (hh.toks _ _)
  rw [toks_cons]
  abel

theorem device_find_child_by_name_spec {name : Name} (hs : At h v s) :
    wp (device_find_child_by_name name) E (fun r s' => r = find_child s name ∧
      frame s' = frame s ∧ At (h + toks Kind.device r.toList) v s') s := by
  unfold device_find_child_by_name
  rw [wp_bind, wp_get]
  cases hd : find_child s name with
  | none => exact ⟨rfl, rfl, hs.congr (by simp)⟩
  | some d =>
    obtain ⟨w, hw, -⟩ := find_child_some hd
    dsimp only
    rw [wp_bind, wp_device_upd hw]
    have hs' : At (h + tok Kind.device d) v
        { s with devices := s.devices.set d { w with ref := w.ref + 1 } } :=
      ⟨hs.wf.device_get hw, hs.view⟩
    refine ⟨rfl, frame_set_ref hw, hs'.congr ?_⟩
    rw [Option.toList_some, toks_cons, toks_nil, add_zero]

/-! ## The loops of `bafs_group_alloc` -/

theorem find_ctrl_devices_spec {names : List Name} (hs : At h v s) :
    wp (find_ctrl_devices names) E (fun r s' => frame s' = frame s ∧
      match r.2 with
      | none => (∀ name ∈ names, ctrl_named s name) ∧ (∀ d ∈ r.1, ctrl_device s' d) ∧
        At (h + toks Kind.device r.1) v s'
      | some ret => ret < 0 ∧ (∃ name ∈ names, ¬ctrl_named s name) ∧
        ∃ lost, At (h + toks Kind.device lost + toks Kind.device r.1) v s') s := by
  unfold find_ctrl_devices
  refine wp_iterate (fun l devs s₁ => (∀ name ∈ names, ctrl_named s name ∨ name ∈ l) ∧
      (∀ name ∈ l, name ∈ names) ∧ frame s₁ = frame s ∧ (∀ d ∈ devs, ctrl_device s₁ d) ∧
      At (h + toks Kind.device devs) v s₁) (fun name l devs s₁ hinv => ?_) (fun devs s₁ hinv => ?_)
    ⟨fun name hn => .inr hn, fun name hn => hn, rfl, (fun d hd => by cases hd),
      hs.congr (by simp)⟩
  · obtain ⟨hnamed, hl, hf, hdevs, hs₁⟩ := hinv
    rw [wp_bind]
    refine wp_mono (device_find_child_by_name_spec hs₁) fun r s₂ hr => ?_
    obtain ⟨hr, hf₂, hs₂⟩ := hr
    rw [frame_find_child hf] at hr
    have hmem := hl name List.mem_cons_self
    cases r with
    | none =>
      refine ⟨hf₂.trans hf, by decide, ⟨name, hmem, ?_⟩, [], hs₂.congr (by simp)⟩
      rintro ⟨d, w, hd, -⟩
      rw [hd] at hr
      cases hr
    | some d =>
      obtain ⟨w, hw, hin, -⟩ := find_child_some hr.symm
      obtain ⟨n, hn⟩ := frame_device (hf₂.trans hf) hw
      dsimp only
      rw [wp_bind, wp_device_at hn]
      refine wp_ite (fun hcls => ?_) fun hcls => ?_
      · refine ⟨hf₂.trans hf, by decide, ⟨name, hmem, ?_⟩, [d], hs₂.congr ?_⟩
        · rintro ⟨d', w', hd', hw', hcls'⟩
          obtain rfl := Option.some.inj (hr.trans hd')
          rw [hw] at hw'
          exact hcls (Option.some.inj hw' ▸ hcls')
        · rw [Option.toList_some]
          abel
      · have hcls := not_not.mp hcls
        obtain ⟨c, hc⟩ := hs₂.class_ctrl hn hin hcls
        refine ⟨fun name' hn' => ?_, fun name' hn' => hl name' (List.mem_cons_of_mem _ hn'),
          hf₂.trans hf, fun d' hd' => ?_, hs₂.congr ?_⟩
        · rcases hnamed name' hn' with hn' | hn'
          · exact .inl hn'
          · rcases List.mem_cons.mp hn' with rfl | hn'
            · exact .inl ⟨d, w, hr.symm, hw, hcls⟩
            · exact .inr hn'
        · rcases List.mem_append.mp hd' with hd' | hd'
          · exact frame_ctrl_device hf₂ (hdevs d' hd')
          · obtain rfl := List.mem_singleton.mp hd'
            exact ⟨_, c, hn, hin, hc⟩
        · rw [toks_append, Option.toList_some, add_assoc]
  · obtain ⟨hnamed, -, hf, hdevs, hs₁⟩ := hinv
    exact ⟨hf, fun name hn => (hnamed name hn).resolve_right List.not_mem_nil, hdevs, hs₁⟩

theorem get_ctrls_spec {devs : List DeviceId} (hs : At h v s)
    (hd : ∀ d ∈ devs, ctrl_device s d) :
    wp (get_ctrls devs) E (fun r s' => r.2 = none ∧ frame s' = frame s ∧
      At (h + toks Kind.ctrl r.1) v s') s := by
  unfold get_ctrls
  refine wp_iterate (fun l ctrls s₁ => (∀ d ∈ l, d ∈ devs) ∧ frame s₁ = frame s ∧
      At (h + toks Kind.ctrl ctrls) v s₁) (fun d l ctrls s₁ hinv => ?_) (fun ctrls s₁ hinv => ?_)
    ⟨fun d hd => hd, rfl, hs.congr (by simp)⟩
  · obtain ⟨hl, hf, hs₁⟩ := hinv
    obtain ⟨w, c, hw, hin, hc⟩ := frame_ctrl_device hf (hd d (hl d List.mem_cons_self))
    obtain ⟨o, n, ho, hn, -⟩ := hs₁.wf.tree.child d w hw hin
    obtain rfl := Option.some.inj (hc.symm.trans ho)
    obtain ⟨x, hx, -⟩ := Option.map_eq_some_iff.mp hn
    rw [wp_bind, wp_device_at hw, hc]
    dsimp only
    rw [wp_bind, bafs_get_ctrl, wp_ctrl_upd hx]
    refine ⟨fun d' hd' => hl d' (List.mem_cons_of_mem _ hd'), hf, (hs₁.ctrl_get hx).congr ?_⟩
    rw [toks_append, toks_cons, toks_nil, add_zero, add_assoc]
  · exact ⟨rfl, hinv.2⟩

theorem out_put_devices_spec {devs : List DeviceId} {dblk gblk : BlockId}
    (hs : At (h + toks Kind.device devs) v s) (hh : NonNeg h) :
    wp (out_put_devices devs dblk gblk) E (fun _ s' => At h v s') s := by
  unfold out_put_devices
  rw [← toks_reverse] at hs
  refine (each_put_device_spec hs hh).bind fun _ s₁ hs₁ => ?_
  refine (hs₁.keep (put_core_device_quiet quiet_at)).bind fun _ s₂ hs₂ => ?_
  refine (hs₂.keep (kfree_quiet quiet_at _)).bind fun _ s₃ hs₃ => ?_
  exact hs₃.keep (kfree_quiet quiet_at _)

theorem out_free_ctrls_spec {ctrls : List CtrlId} {cblk : BlockId} {devs : List DeviceId}
    {dblk gblk : BlockId} (hs : At (h + toks Kind.device devs + toks Kind.ctrl ctrls) v s)
    (hh : NonNeg h) :
    wp (out_free_ctrls ctrls cblk devs dblk gblk) E (fun _ s' => At h v s') s := by
  unfold out_free_ctrls
  rw [← toks_reverse Kind.ctrl] at hs
  refine (each_ctrl_release_spec hs (hh.toks _ _)).bind fun _ s₁ hs₁ => ?_
  refine (hs₁.keep (kfree_quiet quiet_at _)).bind fun _ s₂ hs₂ => ?_
  exact out_put_devices_spec hs₂ hh

/-! ## The creation of a group -/

/-- The group `g` with the controllers `l` is added. -/
def View.add_group (v : View) (g : GroupId) (l : List CtrlId) : View :=
  { v with group_ctrls := Function.update v.group_ctrls g (some l) }

/-- Nothing refers to the group `g` yet. -/
structure NewGroup (h : Held Kind) (v : View) (g : GroupId) : Prop where
  none : v.group_ctrls g = none
  files : v.files.sum (File.group_refs g) = 0
  held : h .group g = 0
  created : v.created g = 0
  deleted : v.deleted g = 0

theorem At.new_group (hs : At h v s) : NewGroup h v s.groups.next := by
  obtain ⟨h1, h2⟩ := hs.wf.fresh.group s.groups.next le_rfl
  obtain ⟨h3, h4⟩ := hs.wf.logs.marked s.groups.next le_rfl
  rw [← hs.view]
  exact ⟨congrArg (Option.map BafsGroup.ctrls) Heap.get_next, h1, h2, h3, h4⟩

/-- Devices and controllers that running code holds do not matter to a group. -/
theorem NewGroup.of_held {g : GroupId} (hg : NewGroup h' v g) (he : h .group g = h' .group g) :
    NewGroup h v g := ⟨hg.none, hg.files, he.trans hg.held, hg.created, hg.deleted⟩

theorem view_alloc_group {x : BafsGroup} :
    ({ s with groups := s.groups.alloc x } : State).view =
      s.view.add_group s.groups.next x.ctrls := by
  have : (fun j => ((s.groups.alloc x).get j).map BafsGroup.ctrls) =
      Function.update (fun j => (s.groups.get j).map BafsGroup.ctrls) s.groups.next
        (some x.ctrls) := by
    funext j
    rw [Heap.get_alloc, Function.update_apply]
    by_cases hj : j = s.groups.next
    · rw [if_pos hj, if_pos hj]
      rfl
    · rw [if_neg hj, if_neg hj]
  exact congrArg (fun G => { s.view with group_ctrls := G }) this

/-- The services that `group_add` calls all succeed. -/
def added (env : GroupAllocEnv) : Prop :=
  env.group_id = none ∧ env.minor = none ∧ env.cdev_add = none ∧ env.device_create = none

theorem put_devices_groups (l : List DeviceId) :
    Preserves (fun _ => True) (each put_device l) State.groups :=
  Preserves.each (fun d s => by
    cases hd : s.devices.get d with
    | none => simp [put_device, device_at, load, hd]
    | some w => exact (wp_put_device hd).mpr rfl) l

theorem kfree_groups (b : BlockId) : Preserves (fun _ => True) (kfree b) State.groups :=
  fun _ => rfl

/-- The group has the numbers that were the lowest free ones in the state `s`. -/
def lowest_numbers (s : State) (x : BafsGroup) : Prop :=
  x.group_id = lowestFree s.bafs_group_ida ∧ x.minor = lowestFree s.bafs_minor_ida

theorem frame_lowest_numbers (hf : frame s' = frame s) (x : BafsGroup) :
    lowest_numbers s' x ↔ lowest_numbers s x := by
  have hid : s'.bafs_group_ida = s.bafs_group_ida := congrArg (fun p => p.2.2.1) hf
  have hminor : s'.bafs_minor_ida = s.bafs_minor_ida := congrArg (fun p => p.2.2.2) hf
  unfold lowest_numbers
  rw [hid, hminor]

/-- What a creation that has made its group leaves: the group with the lowest free numbers. -/
def GroupMade (h : Held Kind) (v : View) (s : State) (r : Int × Option GroupId) (s' : State) : Prop :=
  ∃ g l, r.2 = some g ∧ NewGroup h v g ∧ (∀ x, s'.groups.get g = some x → lowest_numbers s x) ∧
    At (h + tok Kind.group g) (v.add_group g l) s'

theorem GroupMade.of_frame {r : Int × Option GroupId} {t : State} (hm : GroupMade h v s' r t)
    (hf : frame s' = frame s) : GroupMade h v s r t := by
  obtain ⟨g, l, hr, hnew, hx, ht⟩ := hm
  exact ⟨g, l, hr, hnew, fun x hg => (frame_lowest_numbers hf x).mp (hx x hg), ht⟩

theorem group_add_spec {ctrls : List CtrlId} {cblk : BlockId} {devs : List DeviceId}
    {dblk gblk : BlockId} {env : GroupAllocEnv}
    (hs : At (h + toks Kind.device devs + toks Kind.ctrl ctrls) v s) (hh : NonNeg h) :
    wp (group_add ctrls cblk devs dblk gblk env) E (fun r s' =>
      (added env ∧ GroupMade h v s r s') ∨
        (¬added env ∧ r.1 < 0 ∧ r.2 = none ∧ At h v s')) s := by
  have hfail : ∀ (e : Errno) (s₁ : State), ¬added env →
      At (h + toks Kind.device devs + toks Kind.ctrl ctrls) v s₁ →
      wp (do out_free_ctrls ctrls cblk devs dblk gblk; pure (e.ret, none)) E (fun r s' =>
        (added env ∧ GroupMade h v s r s') ∨
          (¬added env ∧ r.1 < 0 ∧ r.2 = none ∧ At h v s')) s₁ := fun e s₁ hno hs₁ =>
    (out_free_ctrls_spec hs₁ hh).bind fun _ s₂ hs₂ => .inr ⟨hno, e.ret_neg, rfl, hs₂⟩
  unfold group_add ida_simple_get bafs_get_minor_number ida_simple_get
  rw [wp_bind, wp_get]
  cases h1 : env.group_id with
  | some e => exact hfail e s (fun ha => by cases h1.symm.trans ha.1) hs
  | none =>
    dsimp only
    rw [wp_bind, wp_modify, wp_bind, wp_bind, wp_get]
    cases h2 : env.minor with
    | some e =>
      dsimp only
      rw [wp_pure, wp_bind, wp_modify]
      exact hfail e _ (fun ha => by cases h2.symm.trans ha.2.1) (hs.of_eq rfl rfl)
    | none =>
      dsimp only
      rw [wp_bind, wp_modify, wp_pure]
      cases h3 : env.cdev_add with
      | some e =>
        dsimp only
        rw [bafs_put_minor_number, wp_bind, wp_modify, wp_bind, wp_modify]
        exact hfail e _ (fun ha => by cases h3.symm.trans ha.2.2.1) (hs.of_eq rfl rfl)
      | none =>
        dsimp only
        rw [cdev_add, wp_bind, wp_modify]
        cases h4 : env.device_create with
        | some e =>
          dsimp only
          rw [cdev_del, wp_bind, wp_modify, bafs_put_minor_number, wp_bind, wp_modify, wp_bind,
            wp_modify]
          exact hfail e _ (fun ha => by cases h4.symm.trans ha.2.2.2) (hs.of_eq rfl rfl)
        | none =>
          dsimp only
          unfold device_create
          rw [wp_bind, wp_get, wp_bind, wp_bind, wp_get, wp_bind, wp_modify, wp_pure, wp_bind,
            wp_modify]
          have hnew : At (h + tok Kind.group s.groups.next + toks Kind.device devs)
              (v.add_group s.groups.next ctrls) { s with
                bafs_group_ida := lowestFree s.bafs_group_ida :: s.bafs_group_ida
                bafs_minor_ida := lowestFree s.bafs_minor_ida :: s.bafs_minor_ida
                cdevs := lowestFree s.bafs_minor_ida :: s.cdevs
                devices := s.devices.alloc ⟨group_dev_name (lowestFree s.bafs_group_ida),
                  BAFS_GROUP_CLASS_NAME, some (.group s.groups.next), 1, true⟩
                groups := s.groups.alloc
                  { blk := gblk, ctrls_blk := cblk, ref := 1
                    group_id := lowestFree s.bafs_group_ida
                    minor := lowestFree s.bafs_minor_ida, device := s.devices.next, ctrls } } := by
            refine ⟨((WF.group_alloc hs.wf rfl rfl).congr (add_right_comm _ _ _)).of_objects rfl, ?_⟩
            rw [← hs.view]
            exact view_alloc_group
          refine ((put_devices_groups devs).wp_and
            (each_put_device_spec hnew (hh.tok _ _))).bind fun _ s₁ hs₁ => ?_
          obtain ⟨hs₁, hg⟩ := hs₁
          refine ((kfree_groups dblk).wp_and (hs₁.keep (kfree_quiet quiet_at dblk))).bind
            fun _ s₂ hs₂ => ?_
          refine .inl ⟨⟨h1, h2, h3, h4⟩, s.groups.next, ctrls, rfl, hs.new_group.of_held ?_, ?_, hs₂.1⟩
          · simp [toks]
          intro x hx
          rw [hs₂.2, hg, Heap.get_alloc, if_pos rfl] at hx
          rw [← Option.some.inj hx]
          exact ⟨rfl, rfl⟩

/-- A group of the controllers with these names can be made. -/
def allocatable (s : State) (names : List Name) (env : GroupAllocEnv) : Prop :=
  env.kzalloc_group = true ∧ env.kzalloc_ctrl_devices = true ∧
  (∀ name ∈ names, ctrl_named s name) ∧ env.kzalloc_ctrls = true ∧ added env

theorem kzalloc_frame (ok : Bool) : Preserves (fun _ => True) (kzalloc ok) frame := fun s => by
  cases ok <;> exact rfl

/-- A group is made, or nothing but references to devices is left behind. -/
theorem bafs_group_alloc_spec {names : List Name} {env : GroupAllocEnv} (hs : At h v s)
    (hh : NonNeg h) :
    wp (bafs_group_alloc names env) E (fun r s' =>
      (allocatable s names env ∧ GroupMade h v s r s') ∨
        (¬allocatable s names env ∧ r.1 < 0 ∧ r.2 = none ∧
          ∃ lost, At (h + toks Kind.device lost) v s')) s := by
  have hnone : ∀ s' : State, At h v s' → ∃ lost, At (h + toks Kind.device lost) v s' :=
    fun s' hs' => ⟨[], hs'.congr (by simp)⟩
  unfold bafs_group_alloc
  refine ((kzalloc_frame _).wp_and (kzalloc_spec hs _)).bind fun gblk s₁ hs₁ => ?_
  obtain ⟨⟨h1, hs₁⟩, hf₁⟩ := hs₁
  cases gblk with
  | none =>
    refine .inr ⟨fun ha => ?_, (by decide : -ENOMEM < 0), rfl, hnone _ hs₁⟩
    cases h1.symm.trans ha.1
  | some gblk =>
  refine ((kzalloc_frame _).wp_and (kzalloc_spec hs₁ _)).bind fun dblk s₂ hs₂ => ?_
  obtain ⟨⟨h2, hs₂⟩, hf₂⟩ := hs₂
  cases dblk with
  | none =>
    refine (hs₂.keep (kfree_quiet quiet_at _)).bind fun _ s₃ hs₃ => ?_
    refine .inr ⟨fun ha => ?_, (by decide : -ENOMEM < 0), rfl, hnone _ hs₃⟩
    cases h2.symm.trans ha.2.1
  | some dblk =>
  rw [get_core_device, wp_bind, wp_modify]
  have hs₃ := hs₂.of_eq (t := { s₂ with core_ref := s₂.core_ref + 1 }) rfl rfl
  have hf₃ : frame { s₂ with core_ref := s₂.core_ref + 1 } = frame s := hf₂.trans hf₁
  refine (find_ctrl_devices_spec hs₃).bind fun r s₄ hr => ?_
  obtain ⟨devs, fail⟩ := r
  obtain ⟨hf₄, hr⟩ := hr
  cases fail with
  | some ret =>
    obtain ⟨hret, ⟨name, hname, hno⟩, lost, hs₄⟩ := hr
    refine (out_put_devices_spec hs₄ (hh.toks _ _)).bind fun _ s₅ hs₅ => ?_
    exact .inr ⟨fun ha => hno ((frame_ctrl_named hf₃ name).mpr (ha.2.2.1 name hname)), hret, rfl,
      lost, hs₅⟩
  | none =>
  obtain ⟨hnamed, hdevs, hs₄⟩ := hr
  refine ((kzalloc_frame _).wp_and (kzalloc_spec hs₄ _)).bind fun cblk s₅ hs₅ => ?_
  obtain ⟨⟨h4, hs₅⟩, hf₅⟩ := hs₅
  cases cblk with
  | none =>
    refine (out_put_devices_spec hs₅ hh).bind fun _ s₆ hs₆ => ?_
    refine .inr ⟨fun ha => ?_, (by decide : -ENOMEM < 0), rfl, hnone _ hs₆⟩
    cases h4.symm.trans ha.2.2.2.1
  | some cblk =>
  refine (get_ctrls_spec hs₅ fun d hd => frame_ctrl_device hf₅ (hdevs d hd)).bind fun r s₆ hr => ?_
  obtain ⟨held, fail⟩ := r
  obtain ⟨rfl, hf₆, hs₆⟩ := hr
  have hf : frame s₆ = frame s := hf₆.trans (hf₅.trans (hf₄.trans hf₃))
  refine wp_mono (group_add_spec hs₆ hh) fun r s₇ hr => ?_
  obtain ⟨ha, hm⟩ | ⟨ha, hret, hr, hs₇⟩ := hr
  · refine .inl ⟨⟨h1, h2, fun name hn => ?_, h4, ha⟩, hm.of_frame hf⟩
    exact (frame_ctrl_named hf₃ name).mp (hnamed name hn)
  · exact .inr ⟨fun hall => ha hall.2.2.2.2, hret, hr, hnone _ hs₇⟩

/-- The names of a creation request can all be read, and are short enough. -/
def names_readable (src : Nat → Option Name) (n : Nat) : Prop :=
  ∀ i < n, ∃ str, src i = some str ∧ str.length < MAX_NAME_LEN

/-- The names of a creation request. -/
def name_list (src : Nat → Option Name) (n : Nat) : List Name :=
  (List.range n).map fun i => (src i).getD []

theorem copy_names_spec {src : Nat → Option Name} {n : Nat} (hs : At h v s) :
    wp (copy_names src n) E (fun r s' => s' = s ∧
      ((names_readable src n ∧ r = (name_list src n, none)) ∨
        (¬names_readable src n ∧ ∃ ret, ret < 0 ∧ r.2 = some ret))) s := by
  unfold copy_names
  refine wp_iterate_range (fun k names s' => s' = s ∧ names_readable src k ∧
    names = name_list src k) (fun k names s' hk hinv => ?_) (fun names s' hinv => ?_)
    ⟨rfl, (fun i hi => by omega), rfl⟩
  · obtain ⟨hs', hread, rfl⟩ := hinv
    subst hs'
    have hbad : (∀ str, src k = some str → ¬str.length < MAX_NAME_LEN) →
        ¬names_readable src n := fun hno hall => by
      obtain ⟨str, hstr, hlt⟩ := hall k hk
      exact hno str hstr hlt
    unfold strncpy_from_user
    cases hk' : src k with
    | none =>
      dsimp only
      rw [if_pos (by decide)]
      refine ⟨rfl, .inr ⟨hbad fun str hstr => ?_, _, ?_, rfl⟩⟩
      · cases hk'.symm.trans hstr
      · decide
    | some str =>
      dsimp only
      by_cases hlt : str.length < MAX_NAME_LEN
      · rw [if_pos hlt]
        dsimp only
        rw [if_neg (by omega), if_neg (by omega)]
        refine ⟨rfl, fun i hi => ?_, ?_⟩
        · rcases Nat.lt_succ_iff_lt_or_eq.mp hi with hi | rfl
          · exact hread i hi
          · exact ⟨str, hk', hlt⟩
        · unfold name_list
          rw [List.range_succ, List.map_append, List.map_singleton, hk']
          rfl
      · rw [if_neg hlt]
        dsimp only
        rw [if_neg (by decide), if_pos (le_refl _)]
        refine ⟨rfl, .inr ⟨hbad fun str' hstr => ?_, _, ?_, rfl⟩⟩
        · rw [← Option.some.inj (hk'.symm.trans hstr)]
          exact hlt
        · decide
  · obtain ⟨rfl, hread, rfl⟩ := hinv
    exact ⟨rfl, .inl ⟨hread, rfl⟩⟩

theorem snprintf_buffer_length (stack : Nat → Nat) (str : Name) :
    (snprintf_buffer stack str).length = 20 := by
  simp [snprintf_buffer, MAX_NAME_LEN]

/-! ## The requests of the core device -/

/-- The creation makes its group. -/
def group_made (s : State) (params : BAFS_CORE_IOC_CREATE_GROUP_PARAMS) (env : CreateGroupEnv) :
    Prop :=
  env.copy_from_user = true ∧ env.kzalloc = true ∧
  names_readable params.ctrls params.n_ctrls.toNat ∧
  allocatable s (name_list params.ctrls params.n_ctrls.toNat) env.alloc

/-- The name of the group that the creation makes can be written back. -/
def name_reported (s : State) (env : CreateGroupEnv) : Prop :=
  (dev_path (group_dev_name (lowestFree s.bafs_group_ida))).length < MAX_NAME_LEN ∧
  env.copy_to_user = 0

/-- The creation of the group `g` has succeeded. -/
def View.mark_create (v : View) (g : GroupId) : View :=
  { v with created := fun j => v.created j + if j = g then 1 else 0 }

/-- The deletion has found the group `g`. -/
def View.mark_delete (v : View) (g : GroupId) : View :=
  { v with deleted := fun j => v.deleted j + if j = g then 1 else 0 }

theorem count_cons_mark {l : List GroupMark} {f : GroupId → GroupMark} (hf : Function.Injective f)
    (g j : GroupId) : (f g :: l).count (f j) = l.count (f j) + if j = g then 1 else 0 := by
  rw [List.count_cons]
  by_cases hj : j = g
  · simp [hj]
  · have : f g ≠ f j := fun he => hj (hf he).symm
    simp [hj, this]

theorem At.mark_create (hs : At h v s) {g : GroupId} {l : List CtrlId}
    (hg : v.group_ctrls g = some l) :
    At h (v.mark_create g) { s with group_log := .create g :: s.group_log } := by
  obtain ⟨x, hx, -⟩ := hs.group_live hg
  refine ⟨hs.wf.mark hx (.inl rfl), ?_⟩
  have h1 := count_cons_mark (l := s.group_log) (f := GroupMark.create)
    (fun _ _ he => by injection he) g
  have h2 : ∀ j, (GroupMark.create g :: s.group_log).count (.delete j) =
      s.group_log.count (.delete j) := fun j => List.count_cons_of_ne (by simp)
  rw [← hs.view]
  simp only [State.view, View.mark_create, h1, h2]

theorem At.mark_delete (hs : At h v s) {g : GroupId} {l : List CtrlId}
    (hg : v.group_ctrls g = some l) :
    At h (v.mark_delete g) { s with group_log := .delete g :: s.group_log } := by
  obtain ⟨x, hx, -⟩ := hs.group_live hg
  refine ⟨hs.wf.mark hx (.inr rfl), ?_⟩
  have h1 := count_cons_mark (l := s.group_log) (f := GroupMark.delete)
    (fun _ _ he => by injection he) g
  have h2 : ∀ j, (GroupMark.delete g :: s.group_log).count (.create j) =
      s.group_log.count (.create j) := fun j => List.count_cons_of_ne (by simp)
  rw [← hs.view]
  simp only [State.view, View.mark_delete, h1, h2]

/-- Releasing a group that was just made leaves only the read that came too late. -/
theorem View.release_added {g : GroupId} {l : List CtrlId} (hg : v.group_ctrls g = none) :
    (v.add_group g l).release_group g = { v with stale_reads := g :: v.stale_reads } := by
  show { v with
    group_ctrls := Function.update (Function.update v.group_ctrls g (some l)) g none
    stale_reads := g :: v.stale_reads } = _
  rw [Function.update_idem, Function.update_eq_self_iff.mpr hg.symm]

/-- What a creation makes of the references and of the view, with its return code. -/
inductive Created (h : Held Kind) (v : View) (s : State) (params : BAFS_CORE_IOC_CREATE_GROUP_PARAMS)
    (env : CreateGroupEnv) : Int → Held Kind → View → Prop
  /-- No group is made; references to devices may be left. -/
  | refused {ret : Int} {l : List DeviceId} (hno : ¬group_made s params env) (hret : ret < 0) :
      Created h v s params env ret (h + toks Kind.device l) v
  /-- The group is made and released again. -/
  | undone {ret : Int} {g : GroupId} (hm : group_made s params env) (hno : ¬name_reported s env)
      (hret : ret < 0) (hg : NewGroup h v g) :
      Created h v s params env ret h { v with stale_reads := g :: v.stale_reads }
  | created {g : GroupId} {l : List CtrlId} (hm : group_made s params env)
      (hr : name_reported s env) (hg : NewGroup h v g) :
      Created h v s params env 0 (h + tok Kind.group g) ((v.add_group g l).mark_create g)

/-- A group that did not exist before has the lowest free numbers. -/
def NewNumbers (v : View) (s s' : State) : Prop :=
  ∀ g x, v.group_ctrls g = none → s'.groups.get g = some x → lowest_numbers s x

theorem At.old_numbers (hs : At h' v' s') (hg : v'.group_ctrls = v.group_ctrls) :
    NewNumbers v s s' := by
  intro g x hnone hx
  rw [← hg, hs.group_view hx] at hnone
  cases hnone

theorem copy_to_user_groups (left dst : Nat) (source : CopySource) (words : List Nat) :
    Preserves (fun _ => True) (copy_to_user left dst source words) State.groups :=
  fun _ => rfl

theorem bafs_core_create_group_spec {params : BAFS_CORE_IOC_CREATE_GROUP_PARAMS}
    {env : CreateGroupEnv} (hs : At h v s) (hh : NonNeg h) :
    wp (bafs_core_create_group params env) E (fun r s' => ∃ h' v',
      Created h v s params env r h' v' ∧ NewNumbers v s s' ∧ At h' v' s') s := by
  have hsame : At (h + toks Kind.device []) v s := hs.congr (by simp)
  unfold bafs_core_create_group
  refine wp_ite (fun h1 => ?_) fun h1 => ?_
  · exact ⟨_, _, .refused (fun hm => by cases h1.symm.trans hm.1) (by decide), hsame.old_numbers rfl, hsame⟩
  refine ((kzalloc_frame _).wp_and (kzalloc_spec hs _)).bind fun blk s₁ hs₁ => ?_
  obtain ⟨⟨h2, hs₁⟩, hf₁⟩ := hs₁
  cases blk with
  | none =>
    exact ⟨_, _, .refused (l := []) (fun hm => by cases h2.symm.trans hm.2.1) (by decide),
      hs₁.old_numbers rfl, hs₁.congr (by simp)⟩
  | some blk =>
  refine (copy_names_spec hs₁).bind fun r s₂ hr => ?_
  obtain ⟨rfl, hr⟩ := hr
  obtain ⟨hread, rfl⟩ | ⟨hread, ret, hret, hr⟩ := hr
  · refine (bafs_group_alloc_spec hs₁ hh).bind fun r s₃ hr => ?_
    obtain ⟨ret, made⟩ := r
    have hall : allocatable s₂ (name_list params.ctrls params.n_ctrls.toNat) env.alloc ↔
        allocatable s (name_list params.ctrls params.n_ctrls.toNat) env.alloc := by
      unfold allocatable
      simp only [frame_ctrl_named hf₁]
    obtain ⟨ha, g, l, hg, hnew, hid, hs₃⟩ | ⟨ha, hret, hr, lost, hs₃⟩ := hr
    · obtain rfl : made = some g := hg
      have hm : group_made s params env := ⟨by simpa using h1, h2, hread, hall.mp ha⟩
      have hgl : (v.add_group g l).group_ctrls g = some l := Function.update_self ..
      obtain ⟨x, hx, -⟩ := hs₃.group_live hgl
      obtain ⟨w, hw, -, -, -, hname⟩ := hs₃.wf.tree.group hx
      have hpath : dev_path w.name = dev_path (group_dev_name (lowestFree s.bafs_group_ida)) := by
        rw [hname, ((frame_lowest_numbers hf₁ x).mp (hid x hx)).1]
      have hundo : ∀ (s₄ : State) (ret : Int), ret < 0 → ¬name_reported s env →
          At (h + tok Kind.group g) (v.add_group g l) s₄ →
          wp (do bafs_put_group g; kfree blk; pure ret) E
            (fun r s' => ∃ h' v', Created h v s params env r h' v' ∧ NewNumbers v s s' ∧
              At h' v' s') s₄ := fun s₄ ret hret hno hs₄ => by
        refine (bafs_put_group_last hs₄ hh hgl ?_).bind fun _ s₅ hs₅ => ?_
        · have hfiles : (v.add_group g l).files.sum (File.group_refs g) = 0 := hnew.files
          rw [hfiles, hnew.held]
          rfl
        · rw [View.release_added hnew.none] at hs₅
          refine (hs₅.keep (kfree_quiet quiet_at _)).bind fun _ s₆ hs₆ => ?_
          exact ⟨_, _, .undone hm hno hret hnew, hs₆.old_numbers rfl, hs₆⟩
      dsimp only
      rw [wp_bind, wp_group_at hx, wp_bind, wp_device_at hw, hpath]
      refine wp_ite (fun hlen => ?_) fun hlen => ?_
      · exact hundo s₃ _ (by decide) (fun hr => absurd hr.1 (by omega)) hs₃
      · refine ((copy_to_user_groups _ _ _ _).wp_and
          (copy_to_user_spec hs₃ env.copy_to_user _ _ _)).bind fun left s₄ hs₄ => ?_
        obtain ⟨⟨hleft, hs₄⟩, hg₄⟩ := hs₄
        refine wp_ite (fun h0 => ?_) fun h0 => ?_
        · refine hundo s₄ _ (by decide) (fun hr => h0 ?_) hs₄
          rw [hleft, hr.2, Nat.zero_min]
        · refine ((kfree_groups _).wp_and (hs₄.keep (kfree_quiet quiet_at _))).bind fun _ s₅ hs₅ => ?_
          obtain ⟨hs₅, hg₅⟩ := hs₅
          rw [wp_bind, wp_modify]
          have hcopy : env.copy_to_user = 0 := by
            rw [not_not, hleft, snprintf_buffer_length] at h0
            omega
          refine ⟨_, _, .created hm ⟨by omega, hcopy⟩ hnew, fun g' x' hnone hx' => ?_,
            hs₅.mark_create hgl⟩
          have hx₅ : s₅.groups.get g' = some x' := hx'
          have hview := hs₅.group_view hx₅
          rw [hg₅, hg₄] at hx₅
          by_cases hgg : g' = g
          · subst hgg
            exact (frame_lowest_numbers hf₁ x').mp (hid x' hx₅)
          · have hsame : (v.add_group g l).group_ctrls g' = v.group_ctrls g' :=
              Function.update_of_ne hgg ..
            rw [hsame, hnone] at hview
            cases hview
    · obtain rfl : made = none := hr
      refine (hs₃.keep (kfree_quiet quiet_at _)).bind fun _ s₄ hs₄ => ?_
      exact ⟨_, _, .refused (fun hm => ha (hall.mpr hm.2.2.2)) hret, hs₄.old_numbers rfl, hs₄⟩
  · obtain ⟨names, fail⟩ := r
    obtain rfl : _ = some ret := hr
    refine (hs₁.keep (kfree_quiet quiet_at _)).bind fun _ s₃ hs₃ => ?_
    exact ⟨_, _, .refused (l := []) (fun hm => hread hm.2.2.1) hret, hs₃.old_numbers rfl,
      hs₃.congr (by simp)⟩

/-- The group that a deletion finds under a name. -/
def group_named (s : State) (name : Option Name) (g : GroupId) : Prop :=
  ∃ str d w, name = some str ∧ str.length < MAX_NAME_LEN ∧ find_child s str = some d ∧
    s.devices.get d = some w ∧ w.drvdata = some (.group g)

/-- The name of a deletion is that of a controller. -/
def ctrl_name (s : State) (name : Option Name) : Prop :=
  ∃ str d w c, name = some str ∧ str.length < MAX_NAME_LEN ∧ find_child s str = some d ∧
    s.devices.get d = some w ∧ w.drvdata = some (.ctrl c)

/-- The name of a deletion is that of the child `d` of the core device. -/
def child_named (s : State) (name : Option Name) (d : DeviceId) : Prop :=
  ∃ str, name = some str ∧ str.length < MAX_NAME_LEN ∧ find_child s str = some d

theorem group_named.child {name : Option Name} {g : GroupId} (hg : group_named s name g) :
    ∃ d w, child_named s name d ∧ s.devices.get d = some w ∧ w.drvdata = some (.group g) := by
  obtain ⟨str, d, w, hn, hlt, hd, hw, ho⟩ := hg
  exact ⟨d, w, ⟨str, hn, hlt, hd⟩, hw, ho⟩

theorem ctrl_name.child {name : Option Name} (hc : ctrl_name s name) :
    ∃ d w c, child_named s name d ∧ s.devices.get d = some w ∧ w.drvdata = some (.ctrl c) := by
  obtain ⟨str, d, w, c, hn, hlt, hd, hw, ho⟩ := hc
  exact ⟨d, w, c, ⟨str, hn, hlt, hd⟩, hw, ho⟩

theorem child_named.unique {name : Option Name} {d e : DeviceId} (hd : child_named s name d)
    (he : child_named s name e) : d = e := by
  obtain ⟨str, hn, -, hd⟩ := hd
  obtain ⟨str', hn', -, he⟩ := he
  obtain rfl := Option.some.inj (hn.symm.trans hn')
  exact Option.some.inj (hd.symm.trans he)

/-- A name belongs to one object. -/
theorem group_named.unique {name : Option Name} {g g' : GroupId} (hg : group_named s name g)
    (hg' : group_named s name g') : g = g' := by
  obtain ⟨d, w, hd, hw, ho⟩ := hg.child
  obtain ⟨d', w', hd', hw', ho'⟩ := hg'.child
  obtain rfl := hd.unique hd'
  obtain rfl := Option.some.inj (hw.symm.trans hw')
  cases ho.symm.trans ho'
  rfl

theorem group_named.not_ctrl {name : Option Name} {g : GroupId} (hg : group_named s name g) :
    ¬ctrl_name s name := by
  intro hc
  obtain ⟨d, w, hd, hw, ho⟩ := hg.child
  obtain ⟨d', w', c, hd', hw', ho'⟩ := hc.child
  obtain rfl := hd.unique hd'
  obtain rfl := Option.some.inj (hw.symm.trans hw')
  cases ho.symm.trans ho'

/-- What a deletion makes of the references and of the view, with its return code. -/
inductive Deleted (h : Held Kind) (v : View) (s : State) (params : BAFS_CORE_IOC_DELETE_GROUP_PARAMS)
    (copy_from_user : Bool) : Int → Held Kind → View → Prop
  | refused {ret : Int} (hno : copy_from_user = true → ∀ d, ¬child_named s params.group_name d)
      (hret : ret < 0) : Deleted h v s params copy_from_user ret h v
  | deleted {ret : Int} {g : GroupId} {l : List CtrlId} (hc : copy_from_user = true)
      (hg : group_named s params.group_name g) (hl : v.group_ctrls g = some l) :
      Deleted h v s params copy_from_user ret (h - tok Kind.group g)
        ((v.mark_delete g).put_group (h - tok Kind.group g) g)

theorem bafs_core_delete_group_spec {params : BAFS_CORE_IOC_DELETE_GROUP_PARAMS}
    {copy_from_user : Bool} (hs : At h v s) (hh : NonNeg h)
    (hE : copy_from_user = true → ctrl_name s params.group_name → E .wrong_type) :
    wp (bafs_core_delete_group params copy_from_user) E
      (fun r s' => ∃ h' v', Deleted h v s params copy_from_user r h' v' ∧ At h' v' s') s := by
  unfold bafs_core_delete_group
  refine wp_ite (fun h1 => ?_) fun h1 => ?_
  · exact ⟨_, _, .refused (fun hc => by cases hc.symm.trans h1) (by decide), hs⟩
  have hc : copy_from_user = true := by simpa using h1
  unfold strncpy_from_user
  cases hn : params.group_name with
  | none =>
    dsimp only
    rw [if_pos (by decide)]
    refine ⟨_, _, .refused (fun _ d hd => ?_) (by decide), hs⟩
    obtain ⟨str, hs', -⟩ := hd
    cases hn.symm.trans hs'
  | some str =>
  dsimp only
  by_cases hlt : str.length < MAX_NAME_LEN
  swap
  · rw [if_neg hlt]
    dsimp only
    rw [if_neg (by decide), if_pos rfl]
    refine ⟨_, _, .refused (fun _ d hd => ?_) (by decide), hs⟩
    obtain ⟨str', hs', hlt', -⟩ := hd
    obtain rfl := Option.some.inj (hn.symm.trans hs')
    exact hlt hlt'
  rw [if_pos hlt]
  dsimp only
  rw [if_neg (by omega), if_neg (by omega)]
  unfold device_find_child_by_name
  rw [wp_bind, wp_bind, wp_get]
  cases hd : find_child s str with
  | none =>
    refine ⟨_, _, .refused (fun _ d hd' => ?_) (by decide), hs⟩
    obtain ⟨str', hs', -, hd'⟩ := hd'
    obtain rfl := Option.some.inj (hn.symm.trans hs')
    cases hd.symm.trans hd'
  | some d =>
  obtain ⟨w, hw, hin, -⟩ := find_child_some hd
  obtain ⟨o, n, ho, hnode, -⟩ := hs.wf.tree.child d w hw hin
  obtain ⟨name, cls, drvdata, ref, in_tree⟩ := w
  obtain rfl : drvdata = some o := ho
  have hs₁ : At (h + tok Kind.device d) v
      { s with devices := s.devices.set d ⟨name, cls, some o, ref + 1, in_tree⟩ } :=
    ⟨hs.wf.device_get hw, hs.view⟩
  dsimp only
  rw [wp_bind, wp_device_upd hw, wp_pure]
  dsimp only
  rw [wp_bind]
  refine (wp_device_at (v := ⟨name, cls, some o, ref + 1, in_tree⟩)
    (by exact Heap.get_set_self hw)).mpr ?_
  cases o with
  | ctrl c =>
    refine (put_device_spec hs₁ hh).bind fun _ s₂ hs₂ => ?_
    exact hE hc ⟨str, d, _, c, hn, hlt, hd, hw, rfl⟩
  | group g =>
    refine (put_device_spec hs₁ hh).bind fun _ s₂ hs₂ => ?_
    obtain ⟨x, hx, -⟩ := Option.map_eq_some_iff.mp hnode
    have hl := hs.group_view hx
    have hnamed : group_named s params.group_name g := ⟨str, d, _, hn, hlt, hd, hw, rfl⟩
    rw [wp_bind, wp_modify]
    refine (bafs_put_group_any ((hs₂.mark_delete hl).congr (sub_add_cancel h _)) ?_ hl).bind
      fun _ s₃ hs₃ => ⟨_, _, .deleted hc hnamed hl, hs₃⟩
    intro k j hk
    rw [Pi.sub_apply, Pi.sub_apply, tok_ne hk, sub_zero]
    exact hh k j hk

end BafsDriver
