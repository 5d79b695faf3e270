import BafsDriver.Lib.Raised
import BafsDriver.Proofs.Ownership
import BafsDriver.Proofs.DmaMapResult

/-!
# What the creation of a group takes

`bafs_group_alloc` takes a reference to the device of each name, from each device a reference to its
controller, and the numbers and nodes of the group. It gives the devices back in any case, and all the
rest when it fails. The state after each of its loops, exactly.
-/

set_option linter.style.nameCheck false

namespace BafsDriver

open Prog

variable {h : Held Kind} {v : View} {s t : State} {E : Fault → Prop} {name : Name}
  {names : List Name} {devs : List DeviceId} {ctrls : List CtrlId} {D : Heap Device}

/-! ## Counts -/

/-- The device with `n` references more. -/
def Device.raise (n : Nat) (w : Device) : Device := { w with ref := w.ref + n }

/-- The controller with `n` references more. -/
def BafsCtrl.raise (n : Nat) (x : BafsCtrl) : BafsCtrl := { x with ref := x.ref + n }

theorem Device.raise_zero (w : Device) : Device.raise 0 w = w := rfl

theorem BafsCtrl.raise_zero (x : BafsCtrl) : BafsCtrl.raise 0 x = x := rfl

theorem wp_put_device_kept {d : DeviceId} {w : Device} {Q : Unit → State → Prop}
    (hw : s.devices.get d = some w) (hr : w.ref ≠ 1) : wp (put_device d) E Q s ↔
      Q () { s with devices := s.devices.set d { w with ref := w.ref - 1 } } := by
  unfold put_device
  rw [wp_bind, wp_device_at hw, wp_bind, wp_device_upd hw, if_neg hr, wp_pure]

/-- References to devices that are given back leave the devices as they are otherwise. -/
theorem each_put_device_exact {l rest : List DeviceId} {D₀ : Heap Device}
    (hr : Heap.Raised Device.raise (l ++ rest) D₀ t.devices)
    (hpos : ∀ d w, D₀.get d = some w → 0 < w.ref) (hl : ∀ d ∈ l, ∃ w, D₀.get d = some w) :
    wp (each put_device l) E (fun _ u => ∃ D, u = { t with devices := D } ∧
      Heap.Raised Device.raise rest D₀ D) t := by
  induction l generalizing t with
  | nil => exact ⟨t.devices, rfl, hr⟩
  | cons d l ih =>
    obtain ⟨w, hw⟩ := hl d List.mem_cons_self
    have hpop := Heap.Raised.pop (f := fun w => { w with ref := w.ref - 1 }) hr hw fun _ => rfl
    have hne : (Device.raise ((d :: (l ++ rest)).count d) w).ref ≠ 1 := by
      have hcount : (d :: (l ++ rest)).count d = (l ++ rest).count d + 1 := List.count_cons_self
      have hw0 := hpos d w hw
      show w.ref + (d :: (l ++ rest)).count d ≠ 1
      omega
    unfold each
    rw [wp_bind, wp_put_device_kept (hr.get_some hw) hne]
    exact ih hpop fun e he => hl e (List.mem_cons_of_mem _ he)

/-- References to controllers that are given back leave the controllers as they are otherwise. -/
theorem each_release_exact {l rest : List CtrlId} {C₀ : Heap BafsCtrl}
    (hr : Heap.Raised BafsCtrl.raise (l ++ rest) C₀ t.ctrls)
    (hpos : ∀ c x, C₀.get c = some x → 0 < x.ref) (hl : ∀ c ∈ l, ∃ x, C₀.get c = some x) :
    wp (each bafs_ctrl_release l) E (fun _ u => ∃ C, u = { t with ctrls := C } ∧
      Heap.Raised BafsCtrl.raise rest C₀ C) t := by
  induction l generalizing t with
  | nil => exact ⟨t.ctrls, rfl, hr⟩
  | cons c l ih =>
    obtain ⟨x, hx⟩ := hl c List.mem_cons_self
    have hpop := Heap.Raised.pop (f := fun x => { x with ref := x.ref - 1 }) hr hx fun _ => rfl
    have hne : (BafsCtrl.raise ((c :: (l ++ rest)).count c) x).ref ≠ 1 := by
      have hcount : (c :: (l ++ rest)).count c = (l ++ rest).count c + 1 := List.count_cons_self
      have hx0 := hpos c x hx
      show x.ref + (c :: (l ++ rest)).count c ≠ 1
      omega
    unfold each
    rw [wp_bind, wp_ctrl_release_kept (hr.get_some hx) hne]
    exact ih hpop fun e he => hl e (List.mem_cons_of_mem _ he)

/-! ## The devices -/

/-- The device of the controller with this name: the first child with the name, if it is of the class
of controllers. -/
def ctrl_child (s : State) (name : Name) : Option DeviceId :=
  (find_child s name).filter fun d => (s.devices.get d).any fun w =>
    w.cls.take BAFS_CTRL_CLASS_NAME.length = BAFS_CTRL_CLASS_NAME

theorem ctrl_child_some {d : DeviceId} (hd : ctrl_child s name = some d) : find_child s name = some d ∧
    ∃ w, s.devices.get d = some w ∧ w.in_tree = true ∧ w.name = name ∧
      w.cls.take BAFS_CTRL_CLASS_NAME.length = BAFS_CTRL_CLASS_NAME := by
  obtain ⟨hfind, hclass⟩ := Option.filter_eq_some_iff.mp hd
  obtain ⟨w, hw, hin, hname⟩ := find_child_some hfind
  refine ⟨hfind, w, hw, hin, hname, ?_⟩
  rw [hw] at hclass
  exact of_decide_eq_true hclass

theorem ctrl_named_iff : ctrl_named s name ↔ (ctrl_child s name).isSome := by
  rw [Option.isSome_iff_exists]
  constructor
  · rintro ⟨d, w, hd, hw, hcls⟩
    refine ⟨d, Option.filter_eq_some_iff.mpr ⟨hd, ?_⟩⟩
    rw [hw]
    exact decide_eq_true hcls
  · rintro ⟨d, hd⟩
    obtain ⟨hfind, w, hw, -, -, hcls⟩ := ctrl_child_some hd
    exact ⟨d, w, hfind, hw, hcls⟩

/-- The lookup of a name does not read the counts. -/
theorem find_child_raised (hr : Heap.Raised Device.raise devs s.devices D) :
    find_child { s with devices := D } name = find_child s name := by
  refine frame_find_child ?_ name
  unfold frame
  refine Prod.ext hr.next (Prod.ext (funext fun d => ?_) rfl)
  show (D.get d).map _ = (s.devices.get d).map _
  rw [hr.get d, Option.map_map]
  rfl

theorem device_find_child_by_name_exact (hr : Heap.Raised Device.raise devs s.devices D) :
    wp (device_find_child_by_name name) E (fun r t => r = find_child s name ∧
      ∃ D', t = { s with devices := D' } ∧ Heap.Raised Device.raise (r.toList ++ devs) s.devices D')
      { s with devices := D } := by
  unfold device_find_child_by_name
  rw [wp_bind, wp_get, find_child_raised hr]
  cases hf : find_child s name with
  | none => exact ⟨rfl, D, rfl, hr⟩
  | some d =>
    obtain ⟨w, hw, -, -⟩ := find_child_some hf
    dsimp only
    rw [wp_bind, wp_device_upd (by exact hr.get_some hw)]
    have hpush := Heap.Raised.push (f := fun w => { w with ref := w.ref + 1 }) hr hw fun _ => rfl
    exact ⟨rfl, _, rfl, hpush⟩

/-- How the loop over the names ends: with the device of each name, or at the first name that is not
that of a controller, where it keeps a reference to the device that it has found. -/
def FoundDevices (s : State) (names : List Name) (r : List DeviceId × Option Int) (D : Heap Device) : Prop :=
  match r.2 with
  | none => names.map (ctrl_child s) = r.1.map some ∧ Heap.Raised Device.raise r.1 s.devices D
  | some ret => ret < 0 ∧ ∃ done name rest, names = done ++ name :: rest ∧
      done.map (ctrl_child s) = r.1.map some ∧ ctrl_child s name = none ∧
      Heap.Raised Device.raise ((find_child s name).toList ++ r.1) s.devices D

theorem find_ctrl_devices_exact : wp (find_ctrl_devices names) E (fun r t =>
    ∃ D, t = { s with devices := D } ∧ FoundDevices s names r D) s := by
  unfold find_ctrl_devices
  refine wp_iterate (fun rest devs t => ∃ done D, names = done ++ rest ∧
    done.map (ctrl_child s) = devs.map some ∧ t = { s with devices := D } ∧
    Heap.Raised Device.raise devs s.devices D) (fun name rest devs t hinv => ?_)
    (fun devs t hinv => ?_) ⟨[], s.devices, rfl, rfl, rfl, .refl Device.raise_zero _⟩
  · obtain ⟨done, D, hnames, hdone, rfl, hr⟩ := hinv
    refine (device_find_child_by_name_exact hr).bind fun r t ht => ?_
    obtain ⟨rfl, D', rfl, hr'⟩ := ht
    cases hf : find_child s name with
    | none =>
      have hno : ctrl_child s name = none := by
        unfold ctrl_child
        rw [hf]
        rfl
      refine ⟨D', rfl, (by decide : (-EINVAL : Int) < 0), done, name, rest, hnames, hdone, hno, hr'⟩
    | some d =>
      obtain ⟨w, hw, -, -⟩ := find_child_some hf
      rw [hf] at hr'
      dsimp only
      rw [wp_bind, wp_device_at (by exact hr'.get_some hw)]
      refine wp_ite (fun hcls => ?_) fun hcls => ?_
      · have hcls : w.cls.take BAFS_CTRL_CLASS_NAME.length ≠ BAFS_CTRL_CLASS_NAME := hcls
        have hno : ctrl_child s name = none := by
          unfold ctrl_child
          rw [hf, Option.filter_some, hw]
          exact if_neg (by simpa using hcls)
        refine ⟨D', rfl, (by decide : (-EINVAL : Int) < 0), done, name, rest, hnames, hdone, hno, ?_⟩
        rw [hf]
        exact hr'
      · have hcls : w.cls.take BAFS_CTRL_CLASS_NAME.length = BAFS_CTRL_CLASS_NAME := not_not.mp hcls
        have hyes : ctrl_child s name = some d := by
          unfold ctrl_child
          rw [hf, Option.filter_some, hw]
          exact if_pos (by simpa using hcls)
        refine ⟨done ++ [name], D', ?_, ?_, rfl, hr'.of_count fun i => ?_⟩
        · rw [hnames, List.append_assoc]
          rfl
        · rw [List.map_append, List.map_append, hdone, List.map_singleton, hyes]
          rfl
        · rw [List.count_append, Nat.add_comm]
          exact List.count_append.symm
  · obtain ⟨done, D, hnames, hdone, rfl, hr⟩ := hinv
    rw [List.append_nil] at hnames
    exact ⟨D, rfl, hnames ▸ hdone, hr⟩

/-! ## The controllers -/

/-- The controller that the driver data of a device points at. -/
def Device.ctrl (w : Device) : Option CtrlId :=
  match w.drvdata with
  | some (.ctrl c) => some c
  | _ => none

/-- The controller whose device has this name. -/
def ctrl_of_name (s : State) (name : Name) : Option CtrlId :=
  (ctrl_child s name).bind fun d => (s.devices.get d).bind Device.ctrl

/-- The controller of a device. -/
def ctrl_of_device (D : Heap Device) (d : DeviceId) : Option CtrlId := (D.get d).bind Device.ctrl

theorem ctrl_of_device_raised {d : DeviceId} {D₀ : Heap Device}
    (hr : Heap.Raised Device.raise devs D₀ D) : ctrl_of_device D d = ctrl_of_device D₀ d := by
  unfold ctrl_of_device
  rw [hr.get d, Option.bind_map]
  rfl

theorem get_ctrls_exact (hd : ∀ d ∈ devs, ∃ w c x, t.devices.get d = some w ∧
      w.drvdata = some (.ctrl c) ∧ t.ctrls.get c = some x) :
    wp (get_ctrls devs) E (fun r u => r.2 = none ∧ devs.map (ctrl_of_device t.devices) = r.1.map some ∧
      ∃ C, u = { t with ctrls := C } ∧ Heap.Raised BafsCtrl.raise r.1 t.ctrls C) t := by
  unfold get_ctrls
  refine wp_iterate (fun rest ctrls u => ∃ done C, devs = done ++ rest ∧
    done.map (ctrl_of_device t.devices) = ctrls.map some ∧ u = { t with ctrls := C } ∧
    Heap.Raised BafsCtrl.raise ctrls t.ctrls C) (fun d rest ctrls u hinv => ?_)
    (fun ctrls u hinv => ?_) ⟨[], t.ctrls, rfl, rfl, rfl, .refl BafsCtrl.raise_zero _⟩
  · obtain ⟨done, C, hdevs, hdone, rfl, hr⟩ := hinv
    obtain ⟨w, c, x, hw, hdata, hx⟩ := hd d (hdevs ▸ List.mem_append_right _ List.mem_cons_self)
    have hctrl : ctrl_of_device t.devices d = some c := by
      unfold ctrl_of_device Device.ctrl
      rw [hw, Option.bind_some, hdata]
    rw [wp_bind, wp_device_at (by exact hw), hdata]
    unfold bafs_get_ctrl
    dsimp only
    rw [wp_bind, wp_ctrl_upd (by exact hr.get_some hx)]
    have hpush := Heap.Raised.push (f := fun x => { x with ref := x.ref + 1 }) hr hx fun _ => rfl
    refine ⟨done ++ [d], _, ?_, ?_, rfl, hpush.of_count fun i => ?_⟩
    · rw [hdevs, List.append_assoc]
      rfl
    · rw [List.map_append, List.map_append, hdone, List.map_singleton, hctrl]
      rfl
    · rw [List.count_append, Nat.add_comm]
      exact List.count_append.symm
  · obtain ⟨done, C, hdevs, hdone, rfl, hr⟩ := hinv
    rw [List.append_nil] at hdevs
    exact ⟨rfl, hdevs ▸ hdone, C, rfl, hr⟩

/-! ## The labels -/

section Labels

variable {D₀ : Heap Device} {C₀ : Heap BafsCtrl} {gblk dblk cblk : BlockId}
  {env : GroupAllocEnv}

theorem out_put_devices_exact (lost : List DeviceId) (hr : Heap.Raised Device.raise (lost ++ devs) D₀ t.devices)
    (hpos : ∀ d w, D₀.get d = some w → 0 < w.ref) (hl : ∀ d ∈ devs, ∃ w, D₀.get d = some w) :
    wp (out_put_devices devs dblk gblk) E (fun _ u => ∃ D, u = { t with
      devices := D
      core_ref := t.core_ref - 1
      blocks := (t.blocks.free dblk).free gblk } ∧ Heap.Raised Device.raise lost D₀ D) t := by
  unfold out_put_devices put_core_device kfree
  have hrev : Heap.Raised Device.raise (devs.reverse ++ lost) D₀ t.devices := by
    refine hr.of_count fun d => ?_
    rw [List.count_append, List.count_reverse, Nat.add_comm]
    exact List.count_append.symm
  refine (each_put_device_exact hrev hpos fun d hd => hl d (List.mem_reverse.mp hd)).bind
    fun _ u hu => ?_
  obtain ⟨D, rfl, hD⟩ := hu
  exact ⟨D, rfl, hD⟩

/-- The references that `bafs_group_alloc` holds raise the counts of the devices `D₀` and of the
controllers `C₀`. -/
structure Takings (D₀ : Heap Device) (C₀ : Heap BafsCtrl) (devs : List DeviceId) (ctrls : List CtrlId)
    (t : State) : Prop where
  raised_devices : Heap.Raised Device.raise devs D₀ t.devices
  raised_ctrls : Heap.Raised BafsCtrl.raise ctrls C₀ t.ctrls
  device_pos : ∀ d w, D₀.get d = some w → 0 < w.ref
  ctrl_pos : ∀ c x, C₀.get c = some x → 0 < x.ref
  device_live : ∀ d ∈ devs, ∃ w, D₀.get d = some w
  ctrl_live : ∀ c ∈ ctrls, ∃ x, C₀.get c = some x

theorem out_free_ctrls_exact (ht : Takings D₀ C₀ devs ctrls t) :
    wp (out_free_ctrls ctrls cblk devs dblk gblk) E (fun _ u => u = { t with
      devices := D₀
      ctrls := C₀
      core_ref := t.core_ref - 1
      blocks := ((t.blocks.free cblk).free dblk).free gblk }) t := by
  unfold out_free_ctrls
  have hrev : Heap.Raised BafsCtrl.raise (ctrls.reverse ++ []) C₀ t.ctrls := by
    refine ht.raised_ctrls.of_count fun c => ?_
    rw [List.append_nil, List.count_reverse]
  refine (each_release_exact hrev ht.ctrl_pos fun c hc => ht.ctrl_live c (List.mem_reverse.mp hc)).bind
    fun _ u hu => ?_
  obtain ⟨C, rfl, hC⟩ := hu
  obtain rfl := hC.eq BafsCtrl.raise_zero
  unfold kfree
  rw [wp_bind, wp_modify]
  refine wp_mono (out_put_devices_exact [] (by exact ht.raised_devices) ht.device_pos
    ht.device_live) fun _ u hu => ?_
  obtain ⟨D, rfl, hD⟩ := hu
  obtain rfl := hD.eq Device.raise_zero
  rfl

/-- The group that is made of the controllers. -/
def new_group (t : State) (gblk cblk : BlockId) (ctrls : List CtrlId) : BafsGroup :=
  { blk := gblk, ctrls_blk := cblk, ref := 1, group_id := lowestFree t.bafs_group_ida,
    minor := lowestFree t.bafs_minor_ida, device := t.devices.next, ctrls }

/-- The device of the group. -/
def group_node (t : State) : Device :=
  ⟨group_dev_name (lowestFree t.bafs_group_ida), BAFS_GROUP_CLASS_NAME, some (.group t.groups.next), 1,
    true⟩

theorem group_add_exact (ht : Takings D₀ C₀ devs ctrls t) :
    wp (group_add ctrls cblk devs dblk gblk env) E (fun r u =>
      (added env ∧ r = (0, some t.groups.next) ∧ u = { t with
        devices := D₀.alloc (group_node t)
        groups := t.groups.alloc (new_group t gblk cblk ctrls)
        bafs_group_ida := lowestFree t.bafs_group_ida :: t.bafs_group_ida
        bafs_minor_ida := lowestFree t.bafs_minor_ida :: t.bafs_minor_ida
        cdevs := lowestFree t.bafs_minor_ida :: t.cdevs
        blocks := t.blocks.free dblk }) ∨
      (¬added env ∧ r.1 < 0 ∧ r.2 = none ∧ u = { t with
        devices := D₀
        ctrls := C₀
        core_ref := t.core_ref - 1
        blocks := ((t.blocks.free cblk).free dblk).free gblk })) t := by
  have hnext : t.devices.next = D₀.next := ht.raised_devices.next
  -- a failure leaves the numbers as they were before the labels
  have hfail : ∀ (e : Errno) (u : State), ¬added env → u = t →
      wp (do out_free_ctrls ctrls cblk devs dblk gblk; pure (e.ret, none)) E (fun r u =>
        (added env ∧ r = (0, some t.groups.next) ∧ u = { t with
          devices := D₀.alloc (group_node t)
          groups := t.groups.alloc (new_group t gblk cblk ctrls)
          bafs_group_ida := lowestFree t.bafs_group_ida :: t.bafs_group_ida
          bafs_minor_ida := lowestFree t.bafs_minor_ida :: t.bafs_minor_ida
          cdevs := lowestFree t.bafs_minor_ida :: t.cdevs
          blocks := t.blocks.free dblk }) ∨
        (¬added env ∧ r.1 < 0 ∧ r.2 = none ∧ u = { t with
          devices := D₀
          ctrls := C₀
          core_ref := t.core_ref - 1
          blocks := ((t.blocks.free cblk).free dblk).free gblk })) u := by
    rintro e u hno rfl
    exact (out_free_ctrls_exact ht).bind fun _ u hu => .inr ⟨hno, e.ret_neg, rfl, hu⟩
  unfold group_add ida_simple_get bafs_get_minor_number ida_simple_get
  rw [wp_bind, wp_get]
  cases h1 : env.group_id with
  | some e => exact hfail e t (fun ha => by cases h1.symm.trans ha.1) rfl
  | none =>
    dsimp only
    rw [wp_bind, wp_modify, wp_bind, wp_bind, wp_get]
    cases h2 : env.minor with
    | some e =>
      dsimp only
      rw [wp_pure, wp_bind, wp_modify]
      refine hfail e _ (fun ha => by cases h2.symm.trans ha.2.1) ?_
      rw [List.erase_cons_head]
    | none =>
      dsimp only
      rw [wp_bind, wp_modify, wp_pure]
      cases h3 : env.cdev_add with
      | some e =>
        dsimp only
        rw [bafs_put_minor_number, wp_bind, wp_modify, wp_bind, wp_modify]
        refine hfail e _ (fun ha => by cases h3.symm.trans ha.2.2.1) ?_
        rw [List.erase_cons_head, List.erase_cons_head]
      | none =>
        dsimp only
        rw [cdev_add, wp_bind, wp_modify]
        cases h4 : env.device_create with
        | some e =>
          dsimp only
          rw [cdev_del, wp_bind, wp_modify, bafs_put_minor_number, wp_bind, wp_modify, wp_bind,
            wp_modify]
          refine hfail e _ (fun ha => by cases h4.symm.trans ha.2.2.2) ?_
          rw [List.erase_cons_head, List.erase_cons_head, List.erase_cons_head]
        | none =>
          dsimp only
          unfold device_create
          rw [wp_bind, wp_get, wp_bind, wp_bind, wp_get, wp_bind, wp_modify, wp_pure, wp_bind,
            wp_modify]
          have hlt : D₀.next ∉ devs := fun hin => by
            obtain ⟨w, hw⟩ := ht.device_live _ hin
            exact absurd (Heap.lt_next_of_get hw) (lt_irrefl _)
          have hnew := ht.raised_devices.alloc (a := group_node t) Device.raise_zero hlt
          have hnew_pos : ∀ d w, (D₀.alloc (group_node t)).get d = some w → 0 < w.ref := by
            intro d w hw
            rcases Heap.get_alloc_cases hw with ⟨-, rfl⟩ | hw
            · exact Nat.one_pos
            · exact ht.device_pos d w hw
          have hall : Heap.Raised Device.raise (devs ++ []) (D₀.alloc (group_node t))
              (t.devices.alloc (group_node t)) := by
            rw [List.append_nil]
            exact hnew
          refine (each_put_device_exact hall hnew_pos fun d hd => ?_).bind fun _ u hu => ?_
          · obtain ⟨w, hw⟩ := ht.device_live d hd
            exact ⟨w, Heap.get_alloc_of_get hw⟩
          · obtain ⟨D, rfl, hD⟩ := hu
            obtain rfl := hD.eq Device.raise_zero
            exact .inl ⟨⟨h1, h2, h3, h4⟩, rfl, rfl⟩

end Labels

/-! ## The whole -/

/-- The device that the lookup of the first name that is not that of a controller has found. -/
def kept_device (s : State) (names : List Name) : Option DeviceId :=
  (names.find? fun name => (ctrl_child s name).isNone).bind (find_child s)

theorem kept_device_none (hnamed : ∀ name ∈ names, ctrl_named s name) : kept_device s names = none := by
  have hskip : names.find? (fun name => (ctrl_child s name).isNone) = none := by
    refine List.find?_eq_none.mpr fun a ha => ?_
    obtain ⟨d, hd⟩ := Option.isSome_iff_exists.mp (ctrl_named_iff.mp (hnamed a ha))
    rw [hd]
    simp
  unfold kept_device
  rw [hskip]
  rfl

theorem kept_device_live {d : DeviceId} (hd : kept_device s names = some d) :
    ∃ w, s.devices.get d = some w := by
  obtain ⟨name, -, hfind⟩ := Option.bind_eq_some_iff.mp hd
  obtain ⟨w, hw, -⟩ := find_child_some hfind
  exact ⟨w, hw⟩

/-- The references to devices that a failed creation keeps. -/
def kept_devices (s : State) (names : List Name) (env : GroupAllocEnv) : List DeviceId :=
  if env.kzalloc_group = true ∧ env.kzalloc_ctrl_devices = true then (kept_device s names).toList else []

/-- The state after a creation that made its group. -/
structure GroupAlloced (s : State) (names : List Name) (ctrls : List CtrlId) (u : State) : Prop where
  named : names.map (ctrl_of_name s) = ctrls.map some
  raised : Heap.Raised BafsCtrl.raise ctrls s.ctrls u.ctrls
  eq : u = { s with
    ctrls := u.ctrls
    core_ref := s.core_ref + 1
    devices := s.devices.alloc (group_node s)
    groups := s.groups.alloc (new_group s s.blocks.next (s.blocks.next + 2) ctrls)
    bafs_group_ida := lowestFree s.bafs_group_ida :: s.bafs_group_ida
    bafs_minor_ida := lowestFree s.bafs_minor_ida :: s.bafs_minor_ida
    cdevs := lowestFree s.bafs_minor_ida :: s.cdevs
    blocks := (((s.blocks.alloc ()).alloc ()).alloc ()).free (s.blocks.next + 1) }

theorem GroupAlloced.get (ha : GroupAlloced s names ctrls t) : t.groups.get s.groups.next =
    some (new_group s s.blocks.next (s.blocks.next + 2) ctrls) := by
  rw [ha.eq]
  show (s.groups.alloc _).get s.groups.next = _
  rw [Heap.get_alloc, if_pos rfl]

/-- The state after a creation that made no group. -/
structure AllocFailed (s : State) (names : List Name) (env : GroupAllocEnv) (u : State) : Prop where
  raised : Heap.Raised Device.raise (kept_devices s names env) s.devices u.devices
  blocks : s.blocks.Returned u.blocks
  eq : u = { s with devices := u.devices, blocks := u.blocks }

/-- A device that was found by the name of a controller is that of an existing controller. -/
theorem At.ctrl_child_live (hs : At h v s) {d : DeviceId} (hd : ctrl_child s name = some d) :
    ∃ w c x, s.devices.get d = some w ∧ w.drvdata = some (.ctrl c) ∧ s.ctrls.get c = some x := by
  obtain ⟨-, w, hw, hin, -, hcls⟩ := ctrl_child_some hd
  obtain ⟨c, hc⟩ := hs.class_ctrl hw hin hcls
  obtain ⟨o, n, ho, hn, -⟩ := hs.wf.tree.child d w hw hin
  obtain rfl := Option.some.inj (hc.symm.trans ho)
  obtain ⟨x, hx, -⟩ := Option.map_eq_some_iff.mp hn
  exact ⟨w, c, x, hw, hc, hx⟩

theorem mem_of_map_some {α β : Type} {f : α → Option β} {l : List α} {l' : List β} {b : β}
    (hl : l.map f = l'.map some) (hb : b ∈ l') : ∃ a ∈ l, f a = some b := by
  have hin : some b ∈ l.map f := hl ▸ List.mem_map_of_mem hb
  exact List.mem_map.mp hin

theorem bafs_group_alloc_exact {env : GroupAllocEnv} (hs : At h v s)
    (hold : ∀ b ∈ s.blocks.freed, b < s.blocks.next) :
    wp (bafs_group_alloc names env) E (fun r u =>
      (allocatable s names env ∧ r = (0, some s.groups.next) ∧ ∃ ctrls, GroupAlloced s names ctrls u) ∨
      (¬allocatable s names env ∧ r.1 < 0 ∧ r.2 = none ∧ AllocFailed s names env u)) s := by
  have hnomem : (-ENOMEM : Int) < 0 := by decide
  unfold bafs_group_alloc
  rw [wp_bind, wp_kzalloc]
  cases hk : env.kzalloc_group with
  | false =>
    rw [if_neg (by decide)]
    have hno : ¬allocatable s names env := fun ha => by cases hk.symm.trans ha.1
    refine .inr ⟨hno, hnomem, rfl, ?_, .refl _, rfl⟩
    rw [kept_devices, if_neg (by simp [hk])]
    exact .refl Device.raise_zero _
  | true =>
  rw [if_pos rfl]
  dsimp only
  rw [wp_bind, wp_kzalloc]
  cases hk' : env.kzalloc_ctrl_devices with
  | false =>
    rw [if_neg (by decide)]
    have hno : ¬allocatable s names env := fun ha => by cases hk'.symm.trans ha.2.1
    refine .inr ⟨hno, hnomem, rfl, ?_, ?_, rfl⟩
    · rw [kept_devices, if_neg (by simp [hk'])]
      exact .refl Device.raise_zero _
    · exact (Heap.Returned.refl _).bracket hold
  | true =>
  rw [if_pos rfl]
  dsimp only
  have hold₁ : ∀ b ∈ (s.blocks.alloc ()).freed, b < (s.blocks.alloc ()).next := fun b hb => by
    rw [Heap.next_alloc]
    exact Nat.lt_succ_of_lt (hold b hb)
  have hold₂ : ∀ b ∈ ((s.blocks.alloc ()).alloc ()).freed, b < ((s.blocks.alloc ()).alloc ()).next :=
    fun b hb => by
      rw [Heap.next_alloc]
      exact Nat.lt_succ_of_lt (hold₁ b hb)
  have hkept : kept_devices s names env = (kept_device s names).toList := if_pos ⟨hk, hk'⟩
  unfold get_core_device
  rw [wp_bind, wp_modify]
  refine find_ctrl_devices_exact.bind fun r t ht => ?_
  obtain ⟨devs, fail⟩ := r
  obtain ⟨D, rfl, hfound⟩ := ht
  cases fail with
  | some ret =>
    obtain ⟨hret, done, name, rest, hnames, hdone, hno, hr⟩ :
      ret < 0 ∧ ∃ (done : List Name) (name : Name) (rest : List Name), names = done ++ name :: rest ∧
        done.map (ctrl_child s) = devs.map some ∧ ctrl_child s name = none ∧
        Heap.Raised Device.raise ((find_child s name).toList ++ devs) s.devices D := hfound
    have hfind : kept_device s names = find_child s name := by
      unfold kept_device
      have hskip : done.find? (fun name => (ctrl_child s name).isNone) = none := by
        refine List.find?_eq_none.mpr fun a ha => ?_
        have hin : ctrl_child s a ∈ devs.map some := hdone ▸ List.mem_map_of_mem ha
        obtain ⟨d, -, hd⟩ := List.mem_map.mp hin
        rw [← hd]
        simp
      rw [hnames, List.find?_append, hskip, Option.none_or, List.find?_cons_of_pos (by simpa using hno)]
      rfl
    have hnot : ¬allocatable s names env := fun ha => by
      have := ctrl_named_iff.mp (ha.2.2.1 name (hnames ▸ List.mem_append_right _ List.mem_cons_self))
      rw [hno] at this
      cases this
    refine (out_put_devices_exact (find_child s name).toList (by exact hr) hs.wf.device.pos
      fun d hd => ?_).bind fun _ u hu => ?_
    · obtain ⟨name, -, hname⟩ := mem_of_map_some hdone hd
      obtain ⟨w, -, -, hw, -⟩ := hs.ctrl_child_live hname
      exact ⟨w, hw⟩
    · obtain ⟨D', rfl, hD'⟩ := hu
      refine .inr ⟨hnot, hret, rfl, ?_, ?_, ?_⟩
      · rw [hkept, hfind]
        exact hD'
      · exact ((Heap.Returned.refl _).bracket hold₁).bracket hold
      · show ({ s with core_ref := s.core_ref + 1 - 1, devices := _, blocks := _ } : State) = _
        rw [add_sub_cancel_right]
  | none =>
    obtain ⟨hdone, hr⟩ : names.map (ctrl_child s) = devs.map some ∧
      Heap.Raised Device.raise devs s.devices D := hfound
    have hlive : ∀ d ∈ devs, ∃ w c x, s.devices.get d = some w ∧ w.drvdata = some (.ctrl c) ∧
        s.ctrls.get c = some x := fun d hd => by
      obtain ⟨name, -, hname⟩ := mem_of_map_some hdone hd
      exact hs.ctrl_child_live hname
    have hlive_dev : ∀ d ∈ devs, ∃ w, s.devices.get d = some w := fun d hd => by
      obtain ⟨w, -, -, hw, -⟩ := hlive d hd
      exact ⟨w, hw⟩
    have hnamed : ∀ name ∈ names, ctrl_named s name := fun name hname => by
      have hin : ctrl_child s name ∈ devs.map some := hdone ▸ List.mem_map_of_mem hname
      obtain ⟨d, -, hd⟩ := List.mem_map.mp hin
      rw [ctrl_named_iff, ← hd]
      rfl
    have hkept : kept_devices s names env = [] := by
      rw [hkept, kept_device_none hnamed]
      rfl
    dsimp only
    rw [wp_bind, wp_kzalloc]
    cases hk'' : env.kzalloc_ctrls with
    | false =>
      rw [if_neg (by decide)]
      have hnot : ¬allocatable s names env := fun ha => by cases hk''.symm.trans ha.2.2.2.1
      refine (out_put_devices_exact [] (by exact hr) hs.wf.device.pos hlive_dev).bind fun _ u hu => ?_
      obtain ⟨D', rfl, hD'⟩ := hu
      refine .inr ⟨hnot, hnomem, rfl, ?_, ?_, ?_⟩
      · rw [hkept]
        exact hD'
      · exact ((Heap.Returned.refl _).bracket hold₁).bracket hold
      · show ({ s with core_ref := s.core_ref + 1 - 1, devices := _, blocks := _ } : State) = _
        rw [add_sub_cancel_right]
    | true =>
    rw [if_pos rfl]
    dsimp only
    refine (get_ctrls_exact fun d hd => ?_).bind fun r t ht => ?_
    · obtain ⟨w, c, x, hw, hdata, hx⟩ := hlive d hd
      exact ⟨_, c, x, hr.get_some hw, hdata, hx⟩
    obtain ⟨ctrls, fail⟩ := r
    obtain ⟨hfail, hctrls, C, rfl, hC⟩ := ht
    obtain rfl : fail = none := hfail
    dsimp only at hctrls hC ⊢
    have hctrls : devs.map (ctrl_of_device s.devices) = ctrls.map some := by
      rw [← hctrls]
      exact List.map_congr_left fun d _ => (ctrl_of_device_raised hr).symm
    have hnames : names.map (ctrl_of_name s) = ctrls.map some := by
      calc names.map (ctrl_of_name s)
          = (names.map (ctrl_child s)).map fun o => o.bind (ctrl_of_device s.devices) := by
            rw [List.map_map]
            rfl
        _ = devs.map (ctrl_of_device s.devices) := by
            rw [hdone, List.map_map]
            rfl
        _ = ctrls.map some := hctrls
    have hctrl_live : ∀ c ∈ ctrls, ∃ x, s.ctrls.get c = some x := fun c hc => by
      obtain ⟨d, hd, hctrl⟩ := mem_of_map_some hctrls hc
      obtain ⟨w, c', x, hw, hdata, hx⟩ := hlive d hd
      unfold ctrl_of_device Device.ctrl at hctrl
      rw [hw, Option.bind_some, hdata] at hctrl
      obtain rfl := Option.some.inj hctrl
      exact ⟨x, hx⟩
    have ht : Takings s.devices s.ctrls devs ctrls { s with
        devices := D, ctrls := C, core_ref := s.core_ref + 1,
        blocks := ((s.blocks.alloc ()).alloc ()).alloc () } :=
      ⟨hr, hC, hs.wf.device.pos, hs.wf.ctrl.pos, hlive_dev, hctrl_live⟩
    refine wp_mono (group_add_exact ht) fun r u hu => ?_
    rcases hu with ⟨hadd, rfl, rfl⟩ | ⟨hadd, hret, hnil, rfl⟩
    · refine .inl ⟨⟨hk, hk', hnamed, hk'', hadd⟩, rfl, ctrls, hnames, hC, ?_⟩
      unfold new_group
      dsimp only
      rw [hr.next, Heap.next_alloc, Heap.next_alloc]
      rfl
    · refine .inr ⟨fun ha => hadd ha.2.2.2.2, hret, hnil, ?_, ?_, ?_⟩
      · rw [hkept]
        exact .refl Device.raise_zero _
      · exact (((Heap.Returned.refl _).bracket hold₂).bracket hold₁).bracket hold
      · show ({ s with core_ref := s.core_ref + 1 - 1, devices := _, blocks := _ } : State) = _
        rw [add_sub_cancel_right]

end BafsDriver
