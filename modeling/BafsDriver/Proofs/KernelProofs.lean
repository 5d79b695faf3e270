import BafsDriver.Proofs.WellFormed

/-!
# Rules for the kernel services

Reading and updating an object that exists, and the services that leave every object of the driver
alone.
-/

namespace BafsDriver

open Prog

section Access

variable {E : Fault → Prop} {s : State}

theorem wp_load {α : Type} {h : State → Heap α} {e : Fault} {i : Nat} {a : α}
    {Q : α → State → Prop} (hi : (h s).get i = some a) : wp (load h e i) E Q s ↔ Q a s := by
  simp [load, hi]

theorem load_ok {α : Type} {h : State → Heap α} {e : Fault} {i : Nat} {a : α}
    (hi : (h s).get i = some a) : load h e i s = .ok (a, s) := by
  obtain ⟨b, s', hc, rfl, rfl⟩ := wp_ends
    ((wp_load (E := fun _ => False) (Q := fun b s' => b = a ∧ s' = s) (e := e) hi).mpr ⟨rfl, rfl⟩)
  exact hc

/-- Reading an object that may not exist. -/
theorem wp_load_of {α : Type} {h : State → Heap α} {e : Fault} {i : Nat} {Q : α → State → Prop}
    (hE : (h s).get i = none → E e) (hQ : ∀ a, (h s).get i = some a → Q a s) :
    wp (load h e i) E Q s := by
  cases hi : (h s).get i with
  | none => simpa [load, hi] using hE hi
  | some a => exact (wp_load hi).mpr (hQ a hi)

theorem wp_ctx_at {c : CtxId} {x : BafsCtx} {Q : BafsCtx → State → Prop}
    (hc : s.ctxs.get c = some x) : wp (ctx_at c) E Q s ↔ Q x s := wp_load hc

theorem wp_mem_at {m : MemId} {x : BafsMem} {Q : BafsMem → State → Prop}
    (hm : s.mems.get m = some x) : wp (mem_at m) E Q s ↔ Q x s := wp_load hm

theorem wp_dma_at {d : DmaId} {y : BafsMemDma} {Q : BafsMemDma → State → Prop}
    (hd : s.dmas.get d = some y) : wp (dma_at d) E Q s ↔ Q y s := wp_load hd

theorem wp_ctrl_at {c : CtrlId} {x : BafsCtrl} {Q : BafsCtrl → State → Prop}
    (hc : s.ctrls.get c = some x) : wp (ctrl_at c) E Q s ↔ Q x s := wp_load hc

theorem wp_group_at {g : GroupId} {x : BafsGroup} {Q : BafsGroup → State → Prop}
    (hg : s.groups.get g = some x) : wp (group_at g) E Q s ↔ Q x s := wp_load hg

theorem wp_device_at {d : DeviceId} {v : Device} {Q : Device → State → Prop}
    (hd : s.devices.get d = some v) : wp (device_at d) E Q s ↔ Q v s := wp_load hd

variable {Q : Unit → State → Prop}

theorem wp_ctx_upd {c : CtxId} {x : BafsCtx} {f : BafsCtx → BafsCtx}
    (hc : s.ctxs.get c = some x) :
    wp (ctx_upd c f) E Q s ↔ Q () { s with ctxs := s.ctxs.set c (f x) } := by
  simp [ctx_upd, wp_ctx_at hc]

theorem wp_mem_upd {m : MemId} {x : BafsMem} {f : BafsMem → BafsMem}
    (hm : s.mems.get m = some x) :
    wp (mem_upd m f) E Q s ↔ Q () { s with mems := s.mems.set m (f x) } := by
  simp [mem_upd, wp_mem_at hm]

theorem wp_ctrl_upd {c : CtrlId} {x : BafsCtrl} {f : BafsCtrl → BafsCtrl}
    (hc : s.ctrls.get c = some x) :
    wp (ctrl_upd c f) E Q s ↔ Q () { s with ctrls := s.ctrls.set c (f x) } := by
  simp [ctrl_upd, wp_ctrl_at hc]

theorem wp_group_upd {g : GroupId} {x : BafsGroup} {f : BafsGroup → BafsGroup}
    (hg : s.groups.get g = some x) :
    wp (group_upd g f) E Q s ↔ Q () { s with groups := s.groups.set g (f x) } := by
  simp [group_upd, wp_group_at hg]

theorem wp_device_upd {d : DeviceId} {v : Device} {f : Device → Device}
    (hd : s.devices.get d = some v) :
    wp (device_upd d f) E Q s ↔ Q () { s with devices := s.devices.set d (f v) } := by
  simp [device_upd, wp_device_at hd]

end Access

/-! ## Services that leave the objects alone -/

/-- The part `f` of the state does not look at the record of calls, the memory blocks, the pages, the
mappings of the NVIDIA driver, the references to `struct pid` and to the core device, the
identifiers and the character devices. -/
structure Quiet {γ : Type} (f : State → γ) : Prop where
  trace : ∀ s t, f { s with trace := t } = f s
  blocks : ∀ s b, f { s with blocks := b } = f s
  pages : ∀ s p, f { s with pages := p } = f s
  mappings : ∀ s p, f { s with mappings := p } = f s
  pids : ∀ s p, f { s with pids := p } = f s
  minors : ∀ s n, f { s with bafs_minor_ida := n } = f s
  ctrl_ids : ∀ s n, f { s with bafs_ctrl_ida := n } = f s
  group_ids : ∀ s n, f { s with bafs_group_ida := n } = f s
  cdevs : ∀ s n, f { s with cdevs := n } = f s
  core_ref : ∀ s n, f { s with core_ref := n } = f s

/-- The part `f` of the state does not look at the page tables of the NVIDIA driver either. -/
structure Silent {γ : Type} (f : State → γ) : Prop extends Quiet f where
  tables : ∀ s t, f { s with tables := t } = f s

section Services

variable {E : Fault → Prop} {γ : Type} {f : State → γ}

theorem emit_quiet (hf : Quiet f) (e : Event) : Preserves E (emit e) f :=
  Preserves.modify fun s => hf.trace s _

theorem kfree_quiet (hf : Quiet f) (b : BlockId) : Preserves E (kfree b) f :=
  Preserves.modify fun s => hf.blocks s _

theorem kzalloc_quiet (hf : Quiet f) (ok : Bool) : Preserves E (kzalloc ok) f :=
  Preserves.bind Preserves.get fun _ =>
    Preserves.ite (Preserves.bind (Preserves.modify fun s => hf.blocks s _) fun _ =>
      Preserves.pure _) (Preserves.pure _)

theorem alloc_page_quiet (hf : Quiet f) (ok : Bool) : Preserves E (alloc_page ok) f :=
  Preserves.bind Preserves.get fun _ =>
    Preserves.ite (Preserves.bind (Preserves.modify fun s => hf.pages s _) fun _ =>
      Preserves.pure _) (Preserves.pure _)

theorem free_page_quiet (hf : Quiet f) (p : PageId) : Preserves E (__free_page p) f :=
  Preserves.modify fun s => hf.pages s _

theorem copy_to_user_quiet (hf : Quiet f) (left dst : Nat) (source : CopySource) (words : List Nat) :
    Preserves E (copy_to_user left dst source words) f :=
  Preserves.bind (emit_quiet hf _) fun _ => Preserves.pure _

theorem find_get_pid_quiet (hf : Quiet f) (ok : Bool) (task : Task) :
    Preserves E (find_get_pid ok task) f :=
  Preserves.ite (Preserves.bind (Preserves.modify fun s => hf.pids s _) fun _ =>
    Preserves.pure _) (Preserves.pure _)

theorem put_pid_quiet (hf : Quiet f) (pid : Nat) : Preserves E (put_pid pid) f :=
  Preserves.modify fun s => hf.pids s _

theorem bafs_get_minor_number_quiet (hf : Quiet f) (fail : Option Errno) :
    Preserves E (bafs_get_minor_number fail) f :=
  Preserves.bind Preserves.get fun s => by
    cases ida_simple_get s.bafs_minor_ida fail with
    | error e => exact Preserves.pure _
    | ok n =>
      exact Preserves.bind (Preserves.modify fun s => hf.minors s _) fun _ => Preserves.pure _

theorem get_core_device_quiet (hf : Quiet f) : Preserves E get_core_device f :=
  Preserves.modify fun s => hf.core_ref s _

theorem put_core_device_quiet (hf : Quiet f) : Preserves E put_core_device f :=
  Preserves.modify fun s => hf.core_ref s _

theorem cdev_add_quiet (hf : Quiet f) (n : Nat) : Preserves E (cdev_add n) f :=
  Preserves.modify fun s => hf.cdevs s _

theorem cdev_del_quiet (hf : Quiet f) (n : Nat) : Preserves E (cdev_del n) f :=
  Preserves.modify fun s => hf.cdevs s _

theorem bafs_put_minor_number_quiet (hf : Quiet f) (n : Nat) :
    Preserves E (bafs_put_minor_number n) f :=
  Preserves.modify fun s => hf.minors s _

theorem vm_map_pages_zero_quiet (hf : Quiet f) (vma : Vma) (pages : List PageId)
    (fail : Option Errno) : Preserves E (vm_map_pages_zero vma pages fail) f := by
  refine Preserves.bind (emit_quiet hf _) fun _ => Preserves.ite (Preserves.pure _) ?_
  cases fail <;> exact Preserves.pure _

theorem io_remap_pfn_range_quiet (hf : Quiet f) (vma : Vma) (addr pfn size : Nat)
    (bar : Option CtrlId) (fail : Option Errno) :
    Preserves E (io_remap_pfn_range vma addr pfn size bar fail) f := by
  refine Preserves.bind (emit_quiet hf _) fun _ => ?_
  cases fail with
  | some e => exact Preserves.pure _
  | none => exact Preserves.ite (Preserves.pure _) (Preserves.pure _)

theorem unpin_silent (hf : Silent f) (t : TableId) : Preserves E (unpin t) f :=
  Preserves.modify fun s => hf.tables s _

theorem nvidia_p2p_put_pages_silent (hf : Silent f) (t : TableId) :
    Preserves E (nvidia_p2p_put_pages t) f :=
  Preserves.bind (emit_quiet hf.toQuiet _) fun _ => unpin_silent hf t

theorem nvidia_p2p_get_pages_silent (hf : Silent f) (data : MemId)
    (answer : Except Errno P2pPages) : Preserves E (nvidia_p2p_get_pages data answer) f := by
  unfold nvidia_p2p_get_pages
  cases answer with
  | error e => exact Preserves.pure _
  | ok pages =>
    exact Preserves.bind Preserves.get fun _ =>
      Preserves.bind (Preserves.modify fun s => hf.tables s _) fun _ => Preserves.pure _

theorem nvidia_p2p_dma_map_pages_quiet (hf : Quiet f) (c : CtrlId) (t : Option TableId)
    (answer : Except Errno (List Nat)) :
    Preserves E (nvidia_p2p_dma_map_pages c t answer) f := by
  refine Preserves.bind (emit_quiet hf _) fun _ => ?_
  cases t with
  | none => exact Preserves.pure _
  | some t =>
    cases answer with
    | error e => exact Preserves.pure _
    | ok addrs =>
      exact Preserves.bind Preserves.get fun _ =>
        Preserves.bind (Preserves.modify fun s => hf.mappings s _) fun _ => Preserves.pure _

theorem free_pages_quiet (hf : Quiet f) {table : List PageId} {n : Nat}
    (hE : table.length < n → E .out_of_bounds) : Preserves E (free_pages table n) f := by
  unfold free_pages
  by_cases hn : table.length < n
  · exact Preserves.each (fun i => by
      cases table[i]? with
      | some p => exact free_page_quiet hf p
      | none => exact Preserves.throw (hE hn)) _
  · refine Preserves.each_mem fun i hi => ?_
    rw [List.getElem?_eq_getElem (by have := List.mem_range.mp hi; omega)]
    exact free_page_quiet hf _

theorem unmap_addrs_quiet (hf : Quiet f) (c : CtrlId) (addrs : List Nat)
    (n_pages map_gran size : Nat) :
    Preserves E (unmap_addrs c addrs n_pages map_gran size) f :=
  Preserves.each (fun i => by
    cases addrs[i]? with
    | some a => exact emit_quiet hf _
    | none => exact emit_quiet hf _) _

theorem undo_mapping_quiet (hf : Quiet f) (y : BafsMemDma) (x : BafsMem) :
    Preserves E (undo_mapping y x) f := by
  refine Preserves.ite ?_ (Preserves.ite ?_ (Preserves.pure _))
  · cases y.addrs with
    | none => exact Preserves.pure _
    | some t =>
      exact Preserves.bind (unmap_addrs_quiet hf _ _ _ _ _) fun _ => kfree_quiet hf _
  · cases y.cuda_mapping with
    | none => exact Preserves.pure _
    | some p =>
      exact Preserves.ite (Preserves.bind (emit_quiet hf _) fun _ => emit_quiet hf _)
        (Preserves.pure _)

theorem unmap_back_quiet (hf : Quiet f) (c : CtrlId) (addrs : List Nat) (map_gran : Nat) :
    Preserves E (unmap_back c addrs map_gran) f :=
  Preserves.each (fun _ => emit_quiet hf _) _

end Services

end BafsDriver
