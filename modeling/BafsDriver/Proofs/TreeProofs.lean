import BafsDriver.Proofs.ObjectProofs
import BafsDriver.Proofs.KernelProofs

/-!
# The invariant under a change of a controller, a group, a device or a file

The second half of the object lemmas: the device tree below the core device, the controllers and
groups that its devices belong to, and the open files.
-/

namespace BafsDriver

open Prog

variable {h h' : Held Kind} {s : State}

/-! ## Devices -/

/-- The devices after `device_destroy`. -/
def destroyed (D : Heap Device) (d : DeviceId) (v : Device) : Heap Device :=
  if v.ref = 1 then D.free d else D.set d { v with in_tree := false, ref := v.ref - 1 }

theorem wp_put_device {E : Fault → Prop} {d : DeviceId} {v : Device} {Q : Unit → State → Prop}
    (hd : s.devices.get d = some v) :
    wp (put_device d) E Q s ↔ Q () { s with
      devices :=
        if v.ref = 1 then s.devices.free d else s.devices.set d { v with ref := v.ref - 1 } } := by
  unfold put_device
  rw [wp_bind, wp_device_at hd, wp_bind, wp_device_upd hd]
  by_cases hr : v.ref = 1
  · rw [if_pos hr, if_pos hr, wp_modify, Heap.free_set]
  · rw [if_neg hr, if_neg hr, wp_pure]

theorem wp_device_destroy {E : Fault → Prop} {d : DeviceId} {v : Device}
    {Q : Unit → State → Prop} (hd : s.devices.get d = some v) :
    wp (device_destroy d) E Q s ↔ Q () { s with devices := destroyed s.devices d v } := by
  unfold device_destroy destroyed
  rw [wp_bind, wp_device_upd hd, wp_put_device (Heap.get_set_self hd), Heap.free_set, Heap.set_set]

theorem get_destroyed_ne {D : Heap Device} {d d' : DeviceId} {v : Device} (hne : d' ≠ d) :
    (destroyed D d v).get d' = D.get d' := by
  unfold destroyed
  split
  · rw [Heap.get_free, if_neg hne]
  · rw [Heap.get_set_ne hne]

/-- What is left of a destroyed device is not in the tree. -/
theorem destroyed_in_tree {D : Heap Device} {d : DeviceId} {v w : Device} (hd : D.get d = some v)
    (hw : (destroyed D d v).get d = some w) : w.in_tree = false := by
  unfold destroyed at hw
  split at hw
  · rw [Heap.get_free_self] at hw
    cases hw
  · rw [Heap.get_set_self hd] at hw
    rw [← Option.some.inj hw]

@[simp] theorem next_destroyed {D : Heap Device} {d : DeviceId} {v : Device} :
    (destroyed D d v).next = D.next := by
  unfold destroyed
  split <;> simp

/-- Destroying a device takes back the reference of the tree. -/
theorem exact_destroyed (hs : WF h s) {d : DeviceId} {v : Device} (hd : s.devices.get d = some v)
    (hin : v.in_tree = true) :
    (destroyed s.devices d v).Exact Device.ref fun j =>
      (tree_refs { s with devices := destroyed s.devices d v } j : ℤ) + h .device j := by
  have hoff : ∀ j, j ≠ d →
      tree_refs { s with devices := destroyed s.devices d v } j = tree_refs s j := by
    intro j hj
    simp only [tree_refs, get_destroyed_ne hj]
  have hself : tree_refs { s with devices := destroyed s.devices d v } d = 0 := by
    unfold tree_refs
    cases hw : (destroyed s.devices d v).get d with
    | none => rfl
    | some w => simp [destroyed_in_tree hd hw]
  have heq := hs.device.eq d v hd
  have hpos := hs.device.pos d v hd
  have hone : tree_refs s d = 1 := by simp [tree_refs, hd, hin]
  by_cases hr : v.ref = 1
  · rw [show destroyed s.devices d v = s.devices.free d from if_pos hr] at hoff ⊢
    refine hs.device.free (fun j hj => by rw [hoff j hj]) ?_
    rw [show destroyed s.devices d v = s.devices.free d from if_pos hr] at hself
    rw [hself]
    omega
  · rw [show destroyed s.devices d v = s.devices.set d _ from if_neg hr] at hoff hself ⊢
    refine hs.device.update hd (fun j hj => by rw [hoff j hj]) ?_ (show 0 < v.ref - 1 by omega)
    rw [hself]
    show ((v.ref - 1 : ℕ) : ℤ) = _
    omega

/-- Controllers, groups and devices change: what is left to show when the other parts stay. -/
theorem WF.with_tree (hs : WF h s) {C : Heap BafsCtrl} {G : Heap BafsGroup} {D : Heap Device}
    {cl : List CtrlId} {gl : List GroupMark}
    (hk : ∀ k j, k = .ctx ∨ k = .mem → h' k j = h k j)
    (hctrl : C.Exact BafsCtrl.ref fun c =>
      (ctrl_holders { s with ctrls := C, groups := G, devices := D } c : ℤ) + h' .ctrl c)
    (hgroup : G.Counted BafsGroup.ref fun g => (group_holders s g : ℤ) + h' .group g)
    (hdev : D.Exact Device.ref fun d =>
      (tree_refs { s with ctrls := C, groups := G, devices := D } d : ℤ) + h' .device d)
    (ht : DeviceTree { s with ctrls := C, groups := G, devices := D })
    (hfg : ∀ g, G.next ≤ g → group_holders s g = 0 ∧ h' .group g = 0)
    (hcl : C.FreedOnce fun c => cl.count c)
    (hgl : G.FreedOnce fun g => gl.count (.release g))
    (hmk : ∀ g, G.next ≤ g → gl.count (.create g) = 0 ∧ gl.count (.delete g) = 0) :
    WF h' { s with ctrls := C, groups := G, devices := D, ctrl_log := cl, group_log := gl } where
  ctx := hs.ctx.congr fun c => by rw [hk .ctx c (.inl rfl)]; rfl
  mem := hs.mem.congr fun m => by rw [hk .mem m (.inr rfl)]; rfl
  ctrl := hctrl
  group := hgroup
  device := hdev
  tables := ⟨hs.tables.1, hs.tables.2, hs.tables.3, hs.tables.4, hs.tables.5⟩
  dmas := ⟨hs.dmas.1, hs.dmas.2⟩
  tree := ⟨ht.1, ht.2⟩
  fresh := ⟨fun m hm => by rw [hk .mem m (.inr rfl)]; exact hs.fresh.1 m hm, hfg⟩
  logs := ⟨hs.logs.mem, hcl, hgl, hmk, hs.logs.ctx, hs.logs.ctx_clear⟩

theorem WF.fresh_device (hs : WF h s) : h .device s.devices.next = 0 := by
  have := hs.device.none s.devices.next Heap.get_next
  simpa [tree_refs] using this

/-- The counts of the devices change; the tree stays. -/
theorem WF.with_devices (hs : WF h s) {D : Heap Device} (hk : ∀ k j, k ≠ .device → h' k j = h k j)
    (hdev : D.Exact Device.ref fun d =>
      (tree_refs { s with devices := D } d : ℤ) + h' .device d)
    (ht : DeviceTree { s with devices := D }) :
    WF h' { s with devices := D } := by
  refine hs.with_tree (fun k j hkj => hk k j ?_) (hs.ctrl.congr fun c => ?_)
    (hs.group.congr fun g => ?_) hdev ht (fun g hg => ?_) hs.logs.ctrl hs.logs.group
    hs.logs.marked
  · rcases hkj with rfl | rfl <;> decide
  · rw [hk .ctrl c (by decide)]
    rfl
  · rw [hk .group g (by decide)]
  · rw [hk .group g (by decide)]
    exact hs.fresh.group g hg

/-- The tree does not depend on the counts of its devices and of their owners. -/
theorem DeviceTree.congr (ht : DeviceTree s) {s' : State} (hn : ∀ o, node_of s' o = node_of s o)
    (hfwd : ∀ d v, s.devices.get d = some v → v.in_tree = true → ∃ v', s'.devices.get d = some v' ∧
      v'.in_tree = v.in_tree ∧ v'.drvdata = v.drvdata ∧ v'.cls = v.cls ∧ v'.name = v.name)
    (hbwd : ∀ d v', s'.devices.get d = some v' → v'.in_tree = true → ∃ v,
      s.devices.get d = some v ∧ v.in_tree = true ∧ v'.drvdata = v.drvdata) :
    DeviceTree s' := by
  refine ⟨fun o n ho => ?_, fun d v' hd hin => ?_⟩
  · rw [hn o] at ho
    obtain ⟨v, hv, h1, h2, h3, h4⟩ := ht.node o n ho
    obtain ⟨v', hv', e1, e2, e3, e4⟩ := hfwd _ v hv h1
    exact ⟨v', hv', e1.trans h1, e2.trans h2, e3.trans h3, e4.trans h4⟩
  · obtain ⟨v, hv, h1, e⟩ := hbwd d v' hd hin
    obtain ⟨o, n, h2, h3, h4⟩ := ht.child d v hv h1
    exact ⟨o, n, e.trans h2, (hn o).trans h3, h4⟩

/-- The same devices with other owners. -/
theorem DeviceTree.same_devices (ht : DeviceTree s) {s' : State} (hn : ∀ o, node_of s' o = node_of s o)
    (hd : s'.devices = s.devices) : DeviceTree s' :=
  ht.congr hn (fun _ v hv _ => ⟨v, hd ▸ hv, rfl, rfl, rfl, rfl⟩)
    fun _ v hv hin => ⟨v, hd ▸ hv, hin, rfl⟩

theorem DeviceTree.ctrl (ht : DeviceTree s) {c : CtrlId} {x : BafsCtrl}
    (hc : s.ctrls.get c = some x) : ∃ v, s.devices.get x.device = some v ∧ v.in_tree = true ∧
      v.drvdata = some (.ctrl c) ∧ v.cls = BAFS_CTRL_CLASS_NAME ∧
      v.name = ctrl_dev_name x.ctrl_id :=
  ht.node (.ctrl c) ⟨x.device, _, _⟩ (by rw [node_of, hc]; rfl)

theorem DeviceTree.group (ht : DeviceTree s) {g : GroupId} {x : BafsGroup}
    (hg : s.groups.get g = some x) : ∃ v, s.devices.get x.device = some v ∧ v.in_tree = true ∧
      v.drvdata = some (.group g) ∧ v.cls = BAFS_GROUP_CLASS_NAME ∧
      v.name = group_dev_name x.group_id :=
  ht.node (.group g) ⟨x.device, _, _⟩ (by rw [node_of, hg]; rfl)

/-- An object gets a new device. -/
theorem DeviceTree.add (ht : DeviceTree s) {s' : State} {o : Drvdata} {n : Node}
    (hn : ∀ o', node_of s' o' = if o' = o then some n else node_of s o')
    (hnone : node_of s o = none) (hdev : n.device = s.devices.next)
    (hd : s'.devices = s.devices.alloc ⟨n.name, n.cls, some o, 1, true⟩) :
    DeviceTree s' := by
  refine ⟨fun o' n' ho => ?_, fun d v hv hin => ?_⟩
  · rw [hn o'] at ho
    rw [hd]
    by_cases he : o' = o
    · rw [if_pos he] at ho
      obtain rfl := Option.some.inj ho
      exact ⟨_, by rw [Heap.get_alloc, if_pos hdev], rfl, by rw [he], rfl, rfl⟩
    · rw [if_neg he] at ho
      obtain ⟨v, hv, hrest⟩ := ht.node o' n' ho
      exact ⟨v, Heap.get_alloc_of_get hv, hrest⟩
  · rw [hd] at hv
    rcases Heap.get_alloc_cases hv with ⟨rfl, rfl⟩ | hv
    · exact ⟨o, n, rfl, by rw [hn o, if_pos rfl], hdev⟩
    · obtain ⟨o', n', h1, h2, h3⟩ := ht.child d v hv hin
      have he : o' ≠ o := by
        rintro rfl
        rw [hnone] at h2
        cases h2
      exact ⟨o', n', h1, by rw [hn o', if_neg he, h2], h3⟩

/-- An object goes with its device. -/
theorem DeviceTree.remove (ht : DeviceTree s) {s' : State} {o : Drvdata} {n : Node} {v : Device}
    (hn : ∀ o', node_of s' o' = if o' = o then none else node_of s o')
    (ho : node_of s o = some n) (hv : s.devices.get n.device = some v)
    (hd : s'.devices = destroyed s.devices n.device v) :
    DeviceTree s' := by
  obtain ⟨v', hv', -, hvo, -⟩ := ht.node o n ho
  rw [hv] at hv'
  obtain rfl := Option.some.inj hv'
  refine ⟨fun o' n' ho' => ?_, fun d w hw hin => ?_⟩
  · rw [hn o'] at ho'
    by_cases he : o' = o
    · rw [if_pos he] at ho'
      cases ho'
    · rw [if_neg he] at ho'
      obtain ⟨w, hw, h1, h2, hrest⟩ := ht.node o' n' ho'
      have hne : n'.device ≠ n.device := by
        intro e
        rw [e, hv] at hw
        rw [← Option.some.inj hw, hvo] at h2
        exact he (Option.some.inj h2).symm
      exact ⟨w, by rw [hd, get_destroyed_ne hne, hw], h1, h2, hrest⟩
  · rw [hd] at hw
    have hne : d ≠ n.device := by
      rintro rfl
      rw [destroyed_in_tree hv hw] at hin
      cases hin
    rw [get_destroyed_ne hne] at hw
    obtain ⟨o', n', h1, h2, h3⟩ := ht.child d w hw hin
    have he : o' ≠ o := by
      rintro rfl
      rw [ho] at h2
      exact hne (by rw [← h3, Option.some.inj h2])
    exact ⟨o', n', h1, by rw [hn o', if_neg he, h2], h3⟩

/-- The count of a device changes by the tokens handed out. -/
theorem WF.device_ref (hs : WF h s) {d : DeviceId} {v : Device} {n : Nat}
    (hd : s.devices.get d = some v) (hk : ∀ k j, ¬(k = .device ∧ j = d) → h' k j = h k j)
    (hr : (n : ℤ) = v.ref + (h' .device d - h .device d)) (hp : 0 < n) :
    WF h' { s with devices := s.devices.set d { v with ref := n } } := by
  have htree : ∀ j, tree_refs { s with devices := s.devices.set d { v with ref := n } } j =
      tree_refs s j := by
    intro j
    unfold tree_refs
    rw [Heap.get_set hd]
    by_cases hj : j = d
    · rw [if_pos hj, hj, hd]
      rfl
    · rw [if_neg hj]
  refine hs.with_devices (fun k j hne => hk k j fun e => hne e.1) ?_ ?_
  · refine hs.device.update hd (fun j hj => ?_) ?_ hp
    · rw [htree j, hk .device j fun e => hj e.2]
    · rw [htree d]
      have := hs.device.eq d v hd
      show (n : ℤ) = _
      omega
  · refine hs.tree.congr (fun o => by cases o <;> rfl) (fun j w hw _ => ?_) fun j w' hw' hin => ?_
    · rw [Heap.get_set hd]
      by_cases hj : j = d
      · rw [hj, hd] at hw
        obtain rfl := Option.some.inj hw
        exact ⟨_, if_pos hj, rfl, rfl, rfl, rfl⟩
      · exact ⟨w, by rw [if_neg hj, hw], rfl, rfl, rfl, rfl⟩
    · rcases Heap.get_set_cases hd hw' with ⟨rfl, rfl⟩ | ⟨-, hw'⟩
      · exact ⟨v, hd, hin, rfl⟩
      · exact ⟨w', hw', hin, rfl⟩

/-- The lookup of a device takes a reference. -/
theorem WF.device_get (hs : WF h s) {d : DeviceId} {v : Device} (hd : s.devices.get d = some v) :
    WF (h + tok Kind.device d)
      { s with devices := s.devices.set d { v with ref := v.ref + 1 } } :=
  hs.device_ref hd (fun _ _ hn => add_tok_off h hn)
    (by rw [add_tok_self]; push_cast; omega) (Nat.succ_pos _)

/-- A reference to a device is given back; the last one frees it. -/
theorem WF.device_put {d : DeviceId} {v : Device} (hs : WF (h + tok Kind.device d) s)
    (hh : 0 ≤ h .device d) (hd : s.devices.get d = some v) :
    WF h { s with
      devices :=
        if v.ref = 1 then s.devices.free d else s.devices.set d { v with ref := v.ref - 1 } } := by
  have heq := hs.device.eq d v hd
  have hpos := hs.device.pos d v hd
  rw [add_tok_self] at heq
  by_cases hr : v.ref = 1
  · have hin : v.in_tree = false := by
      by_contra hin
      have : tree_refs s d = 1 := by simp [tree_refs, hd, hin]
      omega
    rw [if_pos hr]
    refine hs.with_devices (fun k j hne => (add_tok_off h fun e => hne e.1).symm) ?_ ?_
    · refine hs.device.free (fun j hj => ?_) ?_
      · rw [add_tok_off h fun e => hj e.2]
        simp only [tree_refs, Heap.get_free, if_neg hj]
      · simp only [tree_refs, Heap.get_free_self, Option.elim_none]
        omega
    · refine hs.tree.congr (fun o => by cases o <;> rfl) (fun j w hw hwin => ?_)
        fun j w' hw' hin' => ?_
      · have hj : j ≠ d := by
          rintro rfl
          rw [hd] at hw
          rw [← Option.some.inj hw, hin] at hwin
          cases hwin
        exact ⟨w, by rw [Heap.get_free, if_neg hj, hw], rfl, rfl, rfl, rfl⟩
      · exact ⟨w', (Heap.get_of_free hw').2, hin', rfl⟩
  · rw [if_neg hr]
    refine hs.device_ref hd (fun _ _ hn => (add_tok_off h hn).symm) ?_ (by omega)
    rw [add_tok_self]
    omega

/-! ## Controllers -/

/-- The count of a controller changes by the tokens handed out. -/
theorem WF.ctrl_ref (hs : WF h s) {c : CtrlId} {x : BafsCtrl} {n : Nat}
    (hc : s.ctrls.get c = some x) (hk : ∀ k j, ¬(k = .ctrl ∧ j = c) → h' k j = h k j)
    (hr : (n : ℤ) = x.ref + (h' .ctrl c - h .ctrl c)) (hp : 0 < n) :
    WF h' { s with ctrls := s.ctrls.set c { x with ref := n } } := by
  have hkn : ∀ k j, k ≠ .ctrl → h' k j = h k j := fun k j hne => hk k j fun e => hne e.1
  refine hs.with_tree (fun k j hkj => hkn k j ?_) (hs.ctrl.update hc (fun j hj => ?_) ?_ hp)
    (hs.group.congr fun g => ?_) (hs.device.congr fun d => ?_)
    (hs.tree.same_devices (fun o => ?_) rfl) (fun g hg => ?_)
    (hs.logs.ctrl.set hc) hs.logs.group hs.logs.marked
  · rcases hkj with rfl | rfl <;> decide
  · rw [hk .ctrl j fun e => hj e.2]
    rfl
  · have := hs.ctrl.eq c x hc
    show (n : ℤ) = ctrl_holders s c + h' .ctrl c
    omega
  · rw [hkn .group g (by decide)]
  · rw [hkn .device d (by decide)]
    rfl
  · cases o with
    | group g => rfl
    | ctrl c' =>
      show ((s.ctrls.set c _).get c').map _ = (s.ctrls.get c').map _
      rw [Heap.get_set hc]
      by_cases hcc : c' = c
      · rw [if_pos hcc, hcc, hc]
        rfl
      · rw [if_neg hcc]
  · rw [hkn .group g (by decide)]
    exact hs.fresh.group g hg

/-- A new controller with its device. -/
theorem WF.ctrl_alloc (hs : WF h s) {x : BafsCtrl} (hr : x.ref = 1)
    (hd : x.device = s.devices.next) :
    WF (h + tok Kind.ctrl s.ctrls.next) { s with
      ctrls := s.ctrls.alloc x
      devices := s.devices.alloc
        ⟨ctrl_dev_name x.ctrl_id, BAFS_CTRL_CLASS_NAME, some (.ctrl s.ctrls.next), 1, true⟩ } := by
  have hkn : ∀ k j, k ≠ .ctrl → (h + tok Kind.ctrl s.ctrls.next) k j = h k j :=
    fun k j hne => add_tok_off h fun e => hne e.1
  have hnone := hs.ctrl.none s.ctrls.next Heap.get_next
  have hfd := hs.fresh_device
  refine hs.with_tree (fun k j hkj => hkn k j ?_) (hs.ctrl.alloc (fun j hj => ?_) ?_ (by omega))
    (hs.group.congr fun g => ?_) (hs.device.alloc (fun d hd => ?_) ?_ (Nat.one_pos))
    (hs.tree.add (o := .ctrl s.ctrls.next)
      (n := ⟨x.device, BAFS_CTRL_CLASS_NAME, ctrl_dev_name x.ctrl_id⟩) (fun o => ?_) ?_ hd rfl)
    (fun g hg => ?_) hs.logs.ctrl.alloc hs.logs.group hs.logs.marked
  · rcases hkj with rfl | rfl <;> decide
  · rw [add_tok_off h fun e => hj e.2]
    rfl
  · rw [add_tok_self]
    show (x.ref : ℤ) = ctrl_holders s s.ctrls.next + (h .ctrl s.ctrls.next + 1)
    omega
  · rw [hkn .group g (by decide)]
  · rw [hkn .device d (by decide)]
    simp only [tree_refs, Heap.get_alloc, if_neg hd]
  · rw [hkn .device _ (by decide), hfd]
    simp [tree_refs, Heap.get_alloc]
  · cases o with
    | group g => rfl
    | ctrl c' =>
      show ((s.ctrls.alloc x).get c').map _ = _
      rw [Heap.get_alloc]
      by_cases hcc : c' = s.ctrls.next
      · rw [if_pos hcc, if_pos (by rw [hcc])]
        rfl
      · rw [if_neg hcc, if_neg (by simpa using hcc)]
        rfl
  · show (s.ctrls.get s.ctrls.next).map _ = _
    rw [Heap.get_next]
    rfl
  · rw [hkn .group g (by decide)]
    exact hs.fresh.group g hg

/-- A controller to which nobody refers is freed with its device. -/
theorem WF.ctrl_free (hs : WF h s) {c : CtrlId} {x : BafsCtrl} {v : Device}
    (hc : s.ctrls.get c = some x) (hv : s.devices.get x.device = some v)
    (hk : ∀ k j, ¬(k = .ctrl ∧ j = c) → h' k j = h k j) (hz : ctrl_holders s c = 0)
    (hh : h' .ctrl c = 0) :
    WF h' { s with
      ctrls := s.ctrls.free c
      devices := destroyed s.devices x.device v
      ctrl_log := c :: s.ctrl_log } := by
  have hkn : ∀ k j, k ≠ .ctrl → h' k j = h k j := fun k j hne => hk k j fun e => hne e.1
  have hnode : node_of s (.ctrl c) =
      some ⟨x.device, BAFS_CTRL_CLASS_NAME, ctrl_dev_name x.ctrl_id⟩ := by
    show (s.ctrls.get c).map _ = _
    rw [hc]
    rfl
  obtain ⟨v', hv', hin, -⟩ := hs.tree.node _ _ hnode
  obtain rfl : v = v' := Option.some.inj (hv.symm.trans hv')
  refine hs.with_tree (fun k j hkj => hkn k j ?_) (hs.ctrl.free (fun j hj => ?_) ?_)
    (hs.group.congr fun g => ?_) ((exact_destroyed hs hv hin).congr fun d => ?_)
    (hs.tree.remove (fun o => ?_) hnode hv rfl) (fun g hg => ?_)
    (hs.logs.ctrl.free hc fun j => ?_) hs.logs.group hs.logs.marked
  · rcases hkj with rfl | rfl <;> decide
  · rw [hk .ctrl j fun e => hj e.2]
    rfl
  · show (ctrl_holders s c : ℤ) + h' .ctrl c = 0
    omega
  · rw [hkn .group g (by decide)]
  · rw [hkn .device d (by decide)]
    rfl
  · cases o with
    | group g => rfl
    | ctrl c' =>
      show ((s.ctrls.free c).get c').map _ = _
      rw [Heap.get_free]
      by_cases hcc : c' = c
      · rw [if_pos hcc, if_pos (by rw [hcc])]
        rfl
      · rw [if_neg hcc, if_neg (by simpa using hcc)]
        rfl
  · rw [hkn .group g (by decide)]
    exact hs.fresh.group g hg
  · rw [List.count_cons]
    by_cases hj : j = c
    · simp [hj]
    · simp [hj, Ne.symm hj]

/-! ## Groups -/

/-- The slots of the groups decide what the groups hold. -/
theorem ctrl_holders_groups {G : Heap BafsGroup} {c : CtrlId} {n k : Nat}
    (he : G.sum (fun x => x.ctrls.count c) + n = s.groups.sum (fun x => x.ctrls.count c) + k) :
    ctrl_holders { s with groups := G } c + n = ctrl_holders s c + k := by
  simp only [ctrl_holders, bound_refs]
  omega

/-- The count of a group changes by the tokens handed out. -/
theorem WF.group_ref (hs : WF h s) {g : GroupId} {x : BafsGroup} {n : Nat}
    (hg : s.groups.get g = some x) (hk : ∀ k j, ¬(k = .group ∧ j = g) → h' k j = h k j)
    (hr : (n : ℤ) = x.ref + (h' .group g - h .group g)) (hp : 0 < n) :
    WF h' { s with groups := s.groups.set g { x with ref := n } } := by
  have hkn : ∀ k j, k ≠ .group → h' k j = h k j := fun k j hne => hk k j fun e => hne e.1
  refine hs.with_tree (fun k j hkj => hkn k j ?_) (hs.ctrl.congr fun c => ?_)
    (hs.group.update hg (fun j hj => ?_) ?_ hp) (hs.device.congr fun d => ?_)
    (hs.tree.same_devices (fun o => ?_) rfl) (fun j hj => ?_) hs.logs.ctrl
    (hs.logs.group.set hg) fun j hj => hs.logs.marked j (Heap.next_set (h := s.groups) ▸ hj)
  · rcases hkj with rfl | rfl <;> decide
  · have := ctrl_holders_groups (s := s) (c := c) (n := 0) (k := 0)
      (G := s.groups.set g { x with ref := n }) (congrArg (· + 0) (Heap.sum_set_eq hg rfl))
    rw [hkn .ctrl c (by decide)]
    exact congrArg (fun k : ℕ => (k : ℤ) + h .ctrl c) this
  · rw [hk .group j fun e => hj e.2]
  · have := hs.group.eq g x hg
    show (n : ℤ) = group_holders s g + h' .group g
    omega
  · rw [hkn .device d (by decide)]
    rfl
  · cases o with
    | ctrl c => rfl
    | group g' =>
      show ((s.groups.set g _).get g').map _ = (s.groups.get g').map _
      rw [Heap.get_set hg]
      by_cases hgg : g' = g
      · rw [if_pos hgg, hgg, hg]
        rfl
      · rw [if_neg hgg]
  · have hlt := Heap.lt_next_of_get hg
    have hj' : s.groups.next ≤ j := by simpa using hj
    have hne : j ≠ g := by omega
    rw [hk .group j fun e => hne e.2]
    exact hs.fresh.group j hj'

/-- A new group with its device takes over a reference to each of its controllers. -/
theorem WF.group_alloc {x : BafsGroup} (hs : WF (h + toks Kind.ctrl x.ctrls) s) (hr : x.ref = 1)
    (hd : x.device = s.devices.next) :
    WF (h + tok Kind.group s.groups.next) { s with
      groups := s.groups.alloc x
      devices := s.devices.alloc
        ⟨group_dev_name x.group_id, BAFS_GROUP_CLASS_NAME, some (.group s.groups.next), 1, true⟩ } := by
  have hkn : ∀ k j, k ≠ .group → k ≠ .ctrl →
      (h + tok Kind.group s.groups.next) k j = (h + toks Kind.ctrl x.ctrls) k j := by
    intro k j h1 h2
    simp [tok, toks, h1, h2]
  have hkg : ∀ j, (h + toks Kind.ctrl x.ctrls) .group j = h .group j := by
    intro j
    simp [toks]
  obtain ⟨hf1, hf2⟩ := hs.fresh.group s.groups.next le_rfl
  have hfd := hs.fresh_device
  rw [hkg] at hf2
  refine hs.with_tree (fun k j hkj => hkn k j ?_ ?_) (hs.ctrl.congr fun c => ?_)
    (hs.group.alloc (fun j hj => ?_) ?_ (by omega))
    (hs.device.alloc (fun d hd => ?_) ?_ (Nat.one_pos))
    (hs.tree.add (o := .group s.groups.next)
      (n := ⟨x.device, BAFS_GROUP_CLASS_NAME, group_dev_name x.group_id⟩) (fun o => ?_) ?_ hd rfl)
    (fun j hj => ?_) hs.logs.ctrl hs.logs.group.alloc
    fun j hj => hs.logs.marked j (by rw [Heap.next_alloc] at hj; omega)
  · rcases hkj with rfl | rfl <;> decide
  · rcases hkj with rfl | rfl <;> decide
  · have := ctrl_holders_groups (s := s) (c := c) (n := 0) (k := x.ctrls.count c)
      (G := s.groups.alloc x) (by rw [Heap.sum_alloc]; rfl)
    show ((ctrl_holders { s with groups := s.groups.alloc x } c : ℕ) : ℤ) + _ = _
    simp only [Pi.add_apply, toks, if_true, tok_ne (show Kind.ctrl ≠ .group by decide)]
    omega
  · rw [hkg, add_tok_off h fun e => hj e.2]
  · rw [add_tok_self, hf2, hf1, hr]
    rfl
  · rw [hkn .device d (by decide) (by decide)]
    simp only [tree_refs, Heap.get_alloc, if_neg hd]
  · rw [hkn .device _ (by decide) (by decide), hfd]
    simp [tree_refs, Heap.get_alloc]
  · cases o with
    | ctrl c => rfl
    | group g' =>
      show ((s.groups.alloc x).get g').map _ = _
      rw [Heap.get_alloc]
      by_cases hgg : g' = s.groups.next
      · rw [if_pos hgg, if_pos (by rw [hgg])]
        rfl
      · rw [if_neg hgg, if_neg (by simpa using hgg)]
        rfl
  · show (s.groups.get s.groups.next).map _ = _
    rw [Heap.get_next]
    rfl
  · have hj' : s.groups.next + 1 ≤ j := by simpa using hj
    have hne : j ≠ s.groups.next := by omega
    rw [add_tok_off h fun e => hne e.2, ← hkg]
    exact hs.fresh.group j (by omega)

/-- A group is given up with its device; its references to its controllers are handed out. Open
files may still point to it. -/
theorem WF.group_free {g : GroupId} {x : BafsGroup} {v : Device}
    (hs : WF (h + tok Kind.group g) s) (hg : s.groups.get g = some x)
    (hv : s.devices.get x.device = some v) :
    WF (h + toks Kind.ctrl x.ctrls) { s with
      groups := s.groups.free g
      devices := destroyed s.devices x.device v
      group_log := .release g :: s.group_log } := by
  have hkn : ∀ k j, k ≠ .group → k ≠ .ctrl →
      (h + toks Kind.ctrl x.ctrls) k j = (h + tok Kind.group g) k j := by
    intro k j h1 h2
    simp [tok, toks, h1, h2]
  have hkg : ∀ j, j ≠ g →
      (h + toks Kind.ctrl x.ctrls) .group j = (h + tok Kind.group g) .group j := by
    intro j hj
    simp [toks, tok_kind, hj]
  have hlt := Heap.lt_next_of_get hg
  have hnode : node_of s (.group g) =
      some ⟨x.device, BAFS_GROUP_CLASS_NAME, group_dev_name x.group_id⟩ := by
    show (s.groups.get g).map _ = _
    rw [hg]
    rfl
  obtain ⟨v', hv', hin, -⟩ := hs.tree.node _ _ hnode
  obtain rfl : v = v' := Option.some.inj (hv.symm.trans hv')
  refine hs.with_tree (fun k j hkj => hkn k j ?_ ?_) (hs.ctrl.congr fun c => ?_)
    (hs.group.free fun j hj => ?_) ((exact_destroyed hs hv hin).congr fun d => ?_)
    (hs.tree.remove (fun o => ?_) hnode hv rfl) (fun j hj => ?_) hs.logs.ctrl
    (hs.logs.group.free hg fun j => ?_) fun j hj => ?_
  · rcases hkj with rfl | rfl <;> decide
  · rcases hkj with rfl | rfl <;> decide
  · have := ctrl_holders_groups (s := s) (c := c) (n := x.ctrls.count c) (k := 0)
      (G := s.groups.free g) (Heap.sum_free hg)
    show ((ctrl_holders { s with groups := s.groups.free g } c : ℕ) : ℤ) + _ = _
    simp only [Pi.add_apply, toks, if_true, tok_ne (show Kind.ctrl ≠ .group by decide)]
    omega
  · rw [hkg j hj]
  · rw [hkn .device d (by decide) (by decide)]
    rfl
  · cases o with
    | ctrl c => rfl
    | group g' =>
      show ((s.groups.free g).get g').map _ = _
      rw [Heap.get_free]
      by_cases hgg : g' = g
      · rw [if_pos hgg, if_pos (by rw [hgg])]
        rfl
      · rw [if_neg hgg, if_neg (by simpa using hgg)]
        rfl
  · have hj' : s.groups.next ≤ j := by simpa using hj
    have hne : j ≠ g := by omega
    rw [hkg j hne]
    exact hs.fresh.group j hj'
  · rw [List.count_cons]
    by_cases hj : j = g
    · simp [hj]
    · simp [hj, Ne.symm hj]
  · have hj' : s.groups.next ≤ j := by simpa using hj
    rw [List.count_cons_of_ne (by simp), List.count_cons_of_ne (by simp)]
    exact hs.logs.marked j hj'

/-- A group that exists is created or deleted. -/
theorem WF.mark (hs : WF h s) {g : GroupId} {x : BafsGroup} (hg : s.groups.get g = some x)
    {k : GroupMark} (hk : k = .create g ∨ k = .delete g) :
    WF h { s with group_log := k :: s.group_log } := by
  have hlt := Heap.lt_next_of_get hg
  refine hs.with_tree (fun _ _ _ => rfl) hs.ctrl hs.group hs.device hs.tree hs.fresh.group
    hs.logs.ctrl (fun j => ?_) fun j hj => ?_
  · rw [← hs.logs.group j]
    rcases hk with rfl | rfl <;> exact List.count_cons_of_ne (by simp)
  · have hne : g ≠ j := by
      rintro rfl
      exact absurd hlt (by omega)
    rw [List.count_cons_of_ne, List.count_cons_of_ne]
    · exact hs.logs.marked j hj
    · rcases hk with rfl | rfl <;> simp [hne]
    · rcases hk with rfl | rfl <;> simp [hne]

/-! ## Bound devices and open files -/

/-- Files and bound devices change: what is left to show when the other parts stay. -/
theorem WF.with_holders (hs : WF h s) {F : Heap File} {B : AList (fun _ : Nat => CtrlId)}
    (hk : ∀ k j, k = .mem ∨ k = .device → h' k j = h k j)
    (hctx : ∀ c, (ctx_holders { s with files := F, drvdata := B } c : ℤ) + h' .ctx c =
      ctx_holders s c + h .ctx c)
    (hctrl : ∀ c, (ctrl_holders { s with files := F, drvdata := B } c : ℤ) + h' .ctrl c =
      ctrl_holders s c + h .ctrl c)
    (hgroup : ∀ g, (group_holders { s with files := F, drvdata := B } g : ℤ) + h' .group g =
      group_holders s g + h .group g)
    (hf : ∀ g, s.groups.next ≤ g →
      group_holders { s with files := F, drvdata := B } g = 0) :
    WF h' { s with files := F, drvdata := B } where
  ctx := hs.ctx.congr hctx
  mem := hs.mem.congr fun m => by rw [hk .mem m (.inl rfl)]; rfl
  ctrl := hs.ctrl.congr hctrl
  group := hs.group.congr hgroup
  device := hs.device.congr fun d => by rw [hk .device d (.inr rfl)]; rfl
  tables := ⟨hs.tables.1, hs.tables.2, hs.tables.3, hs.tables.4, hs.tables.5⟩
  dmas := ⟨hs.dmas.1, hs.dmas.2⟩
  tree := hs.tree.same_devices (fun o => by cases o <;> rfl) rfl
  fresh := by
    refine ⟨fun m hm => ?_, fun g hg => ⟨hf g hg, ?_⟩⟩
    · rw [hk .mem m (.inl rfl)]
      exact hs.fresh.mem m hm
    · have h1 := hgroup g
      obtain ⟨h2, h3⟩ := hs.fresh.group g hg
      rw [hf g hg, h2, h3] at h1
      simpa using h1
  logs := ⟨hs.logs.1, hs.logs.2, hs.logs.3, hs.logs.4, hs.logs.5, hs.logs.6⟩

/-- What an open file holds. -/
def File.held : File → Held Kind
  | .core c => tok .ctx c
  | .ctrl x => tok .ctx x.ctx + tok .ctrl x.ctrl
  | .group x => tok .ctx x.ctx + tok .group x.group

theorem File.held_ctx (f : File) (c : CtxId) : f.held .ctx c = if f.ctx = c then 1 else 0 := by
  cases f <;> simp [held, File.ctx, tok, eq_comm]

theorem File.held_ctrl (f : File) (c : CtrlId) : f.held .ctrl c = f.ctrl_refs c := by
  cases f <;> simp [held, ctrl_refs, tok, eq_comm]

theorem File.held_group (f : File) (g : GroupId) : f.held .group g = f.group_refs g := by
  cases f <;> simp [held, group_refs, tok, eq_comm]

theorem File.held_off (f : File) {k : Kind} (j : Nat) (hk : k = .mem ∨ k = .device) :
    f.held k j = 0 := by
  rcases hk with rfl | rfl <;> cases f <;> simp [held, tok]

/-- A new file takes over the references that it holds. -/
theorem WF.file_alloc {f : File} (hs : WF (h + f.held) s)
    (hf : ∀ g, s.groups.next ≤ g → f.group_refs g = 0) :
    WF h { s with files := s.files.alloc f } := by
  refine hs.with_holders (F := s.files.alloc f) (B := s.drvdata) (fun k j hkj => ?_) (fun c => ?_)
    (fun c => ?_) (fun g => ?_) fun g hg => ?_
  · simp [f.held_off j hkj]
  · simp only [ctx_holders, Heap.count, Heap.sum_alloc, Pi.add_apply, f.held_ctx]
    split
    · simp
      omega
    · simp
  · have := f.held_ctrl c
    simp only [ctrl_holders, bound_refs, Heap.sum_alloc, Pi.add_apply]
    omega
  · have := f.held_group g
    simp only [group_holders, Heap.sum_alloc, Pi.add_apply]
    omega
  · have h1 : s.files.sum (File.group_refs g) = 0 := (hs.fresh.group g hg).1
    have h2 := hf g hg
    simp only [group_holders, Heap.sum_alloc]
    omega

/-- A closed file hands out the references that it held. -/
theorem WF.file_free (hs : WF h s) {i : FileId} {f : File} (hi : s.files.get i = some f) :
    WF (h + f.held) { s with files := s.files.free i } := by
  refine hs.with_holders (F := s.files.free i) (B := s.drvdata) (fun k j hkj => ?_) (fun c => ?_)
    (fun c => ?_) (fun g => ?_) fun g hg => ?_
  · simp [f.held_off j hkj]
  · have := Heap.sum_free (f := fun f => if File.ctx f = c then 1 else 0) hi
    simp only [ctx_holders, Heap.count, Pi.add_apply, f.held_ctx]
    split at this <;> simp [*] <;> omega
  · have h1 := f.held_ctrl c
    have h2 := Heap.sum_free (f := File.ctrl_refs c) hi
    simp only [ctrl_holders, bound_refs, Pi.add_apply]
    omega
  · have h1 := f.held_group g
    have h2 := Heap.sum_free (f := File.group_refs g) hi
    simp only [group_holders, Pi.add_apply]
    omega
  · have h1 : s.files.sum (File.group_refs g) = 0 := (hs.fresh.group g hg).1
    have h2 := Heap.sum_free (f := File.group_refs g) hi
    show (s.files.free i).sum (File.group_refs g) = 0
    omega

/-- A PCI device is bound: it takes over a reference to its controller. -/
theorem WF.bind {slot : Nat} {c : CtrlId} (hs : WF (h + tok Kind.ctrl c) s)
    (hn : s.drvdata.lookup slot = none) :
    WF h { s with drvdata := s.drvdata.insert slot c } := by
  have hins : (s.drvdata.insert slot c).entries = ⟨slot, c⟩ :: s.drvdata.entries :=
    AList.entries_insert_of_notMem (AList.lookup_eq_none.mp hn)
  refine hs.with_holders (F := s.files) (fun k j hkj => ?_) (fun _ => ?_) (fun c' => ?_)
    (fun g => ?_) fun g hg => (hs.fresh.group g hg).1
  · rw [add_tok_off h]
    rintro ⟨rfl, -⟩
    rcases hkj with e | e <;> cases e
  · rw [add_tok_off h fun e => by cases e.1]
    rfl
  · simp only [ctrl_holders, bound_refs, hins, List.map_cons, List.count_cons, Pi.add_apply, tok_kind]
    by_cases hcc : c' = c
    · simp [hcc]
      omega
    · simp [hcc, Ne.symm hcc]
  · rw [add_tok_off h fun e => by cases e.1]
    rfl

/-- A PCI device is unbound: its reference to its controller is handed out. -/
theorem WF.unbind (hs : WF h s) {slot : Nat} {c : CtrlId}
    (hb : s.drvdata.lookup slot = some c) :
    WF (h + tok Kind.ctrl c) { s with drvdata := s.drvdata.erase slot } := by
  have hperm : s.drvdata.entries.Perm (⟨slot, c⟩ :: (s.drvdata.erase slot).entries) := by
    have hmem : slot ∈ s.drvdata.entries.keys :=
      List.mem_keys_of_mem (AList.mem_lookup_iff.mp hb)
    obtain ⟨b, l₁, l₂, -, h1, h2⟩ := List.exists_of_kerase hmem
    have hbc : s.drvdata.lookup slot = some b :=
      AList.mem_lookup_iff.mpr (by rw [h1]; simp)
    obtain rfl : b = c := Option.some.inj (hbc.symm.trans hb)
    show s.drvdata.entries.Perm (⟨slot, b⟩ :: s.drvdata.entries.kerase slot)
    rw [h2, h1]
    exact List.perm_middle
  refine hs.with_holders (F := s.files) (fun k j hkj => ?_) (fun _ => ?_) (fun c' => ?_)
    (fun g => ?_) fun g hg => (hs.fresh.group g hg).1
  · rw [add_tok_off h]
    rintro ⟨rfl, -⟩
    rcases hkj with e | e <;> cases e
  · rw [add_tok_off h fun e => by cases e.1]
    rfl
  · have := (hperm.map fun e => e.2).count_eq c'
    simp only [List.map_cons, List.count_cons] at this
    simp only [ctrl_holders, bound_refs, Pi.add_apply, tok_kind]
    by_cases hcc : c' = c
    · simp [hcc] at this ⊢
      omega
    · simp [hcc, Ne.symm hcc] at this ⊢
      omega
  · rw [add_tok_off h fun e => by cases e.1]
    rfl

end BafsDriver
