import BafsDriver.Module.Files

/-!
# Requests

The entry points of the module as one step function: what user space, the PCI core, the memory
management and the NVIDIA driver ask of it. A request runs to its end before the next one starts.
A request that the kernel would not pass on (a file that is not open, a range that is taken) leaves
the state as it is.
-/

namespace BafsDriver

open Prog

/-- The entry points of the module. -/
inductive Request where
  | probe (pdev : PciDev) (env : CtrlAllocEnv)
  | remove (slot : Nat)
  | open_core (task : Task) (env : CtxEnv)
  | open_ctrl (c : CtrlId) (task : Task) (env : OpenEnv)
  | open_group (g : GroupId) (task : Task) (env : OpenEnv)
  | close (f : FileId)
  | ioctl (f : FileId) (cmd : Nat) (arg : IoctlArg) (env : IoctlEnv)
  | mmap (f : FileId) (mm vm_start vm_end vm_pgoff : Nat) (env : MmapEnv)
  | munmap (v : VmaId)
  /-- A partial unmap or a change of protection cuts a VMA in two. -/
  | split (v : VmaId) (at_ : Nat)
  /-- `mremap` to another range of the same length (the VMA is `VM_DONTEXPAND`). -/
  | move (v : VmaId) (vm_start : Nat)
  /-- The NVIDIA driver revokes the pages of a page table. -/
  | revoke (t : TableId)

/-- What the caller of a request sees. -/
structure Reply where
  ret : Int
  reg_mem : Option BAFS_IOC_REG_MEM_PARAMS := none

/-- Whether `[vm_start, vm_end)` may become a VMA of the address space `mm`. -/
def range_free (s : State) (mm vm_start vm_end : Nat) : Prop :=
  vm_start < vm_end ∧ vm_end < 2 ^ 64 ∧ PAGE_SIZE ∣ vm_start ∧ PAGE_SIZE ∣ vm_end ∧
  ∀ v ∈ List.range s.vmas.next, ∀ w, s.vmas.get v = some w →
    w.mm ≠ mm ∨ w.vm_end ≤ vm_start ∨ vm_end ≤ w.vm_start

instance (s : State) (mm a b : Nat) : Decidable (range_free s mm a b) := by
  unfold range_free
  have : ∀ v, Decidable (∀ w, s.vmas.get v = some w →
      w.mm ≠ mm ∨ w.vm_end ≤ a ∨ b ≤ w.vm_start) := fun v =>
    match hv : s.vmas.get v with
    | none => isTrue (by intro w hw; cases hw)
    | some w =>
      if h : w.mm ≠ mm ∨ w.vm_end ≤ a ∨ b ≤ w.vm_start then
        isTrue (by intro w' hw'; cases hw'; exact h)
      else
        isFalse fun hall => h (hall w rfl)
  infer_instance

/-- The core device with its minor exists after `bafs_init`. -/
def init : State := { bafs_minor_ida := [0], cdevs := [0], core_ref := 1 }

/-- A file that has been opened. -/
def add_file (ret : Int) (file : Option File) : Drv Reply := do
  match file with
  | none => pure { ret }
  | some x =>
    modify fun s => { s with files := s.files.alloc x }
    pure { ret }

/-- The release function of a file, by the device it was opened on. -/
def release_file : File → Drv Unit
  | .core c => bafs_core_release c
  | .ctrl x => bafs_ctrl_file_release x
  | .group x => bafs_group_release x

/-- The mmap function of a file. -/
def mmap_file (x : File) (vma : Vma) (env : MmapEnv) : Drv (Vma × Int) :=
  match x with
  | .core c => bafs_core_mmap c vma env
  | .ctrl x => __bafs_ctrl_mmap x vma env
  | .group x => bafs_group_mmap x vma env

/-- The ioctl function of a file. -/
def ioctl_file (x : File) (cmd : Nat) (arg : IoctlArg) (env : IoctlEnv) : Drv IoctlReply :=
  match x with
  | .core c => bafs_core_ioctl c cmd arg env
  | .ctrl x => bafs_ctrl_ioctl x cmd arg env
  | .group x => bafs_group_ioctl x cmd arg env

/-- The VMA that the kernel hands to the mmap function. -/
def new_vma (mm vm_start vm_end vm_pgoff : Nat) : Vma :=
  { mm, vm_start, vm_end, vm_pgoff, vm_ops := none, vm_private_data := none, pages := [],
    remaps := [] }

/-- What lies below `at_` when a VMA is cut there. -/
def Vma.lower (w : Vma) (at_ : Nat) : Vma :=
  { w with
    vm_end := at_
    pages := w.pages.take ((at_ - w.vm_start) >>> PAGE_SHIFT)
    remaps := w.remaps.filter fun r => r.addr < at_ }

/-- What lies from `at_` on when a VMA is cut there. -/
def Vma.upper (w : Vma) (at_ : Nat) : Vma :=
  { w with
    vm_start := at_
    vm_pgoff := w.vm_pgoff + ((at_ - w.vm_start) >>> PAGE_SHIFT)
    pages := w.pages.drop ((at_ - w.vm_start) >>> PAGE_SHIFT)
    remaps := w.remaps.filter fun r => at_ ≤ r.addr ∨ at_ < r.addr + r.size }

/-- The VMA with its pages at another range. -/
def Vma.moved (w : Vma) (vm_start : Nat) : Vma :=
  { w with
    vm_start
    vm_end := vm_start + (w.vm_end - w.vm_start)
    remaps := w.remaps.map fun r => { r with addr := r.addr - w.vm_start + vm_start } }

/-- `vm_ops->open` of a VMA that was copied, where it is set. -/
def open_vma (w : Vma) : Drv Unit :=
  match w.vm_ops.bind VmOps.open with
  | some f => f w
  | none => pure ()

/-- `vm_ops->close`, where it is set. -/
def close_vma (w : Vma) : Drv Unit :=
  match w.vm_ops.bind VmOps.close with
  | some f => f w
  | none => pure ()

/-- Closes the VMA `v`; it is gone afterwards. -/
def unmap_vma (v : VmaId) (w : Vma) : Drv Unit := do
  modify fun s => { s with vmas := s.vmas.free v }
  close_vma w

/-- The request to the PCI device, the file or the VMA it names, if that exists. -/
def step : Request → Drv Reply
  | .probe pdev env => do
    if ((← get).drvdata.lookup pdev.slot).isSome then
      pure { ret := -EBUSY }
    else
      let ret ← bafs_ctrl_pci_probe pdev env
      pure { ret }
  | .remove slot => do
    match (← get).drvdata.lookup slot with
    | none => pure { ret := -EINVAL }
    | some c =>
      bafs_ctrl_pci_remove slot c
      pure { ret := 0 }
  | .open_core task env => do
    let (ret, ctx) ← bafs_core_open task env
    add_file ret (ctx.map .core)
  | .open_ctrl c task env => do
    if ((← get).ctrls.get c).isNone then
      pure { ret := -EINVAL }
    else
      let (ret, file) ← bafs_ctrl_open c task env
      add_file ret file
  | .open_group g task env => do
    if ((← get).groups.get g).isNone then
      pure { ret := -EINVAL }
    else
      let (ret, file) ← bafs_group_open g task env
      add_file ret file
  | .close f => do
    match (← get).files.get f with
    | none => pure { ret := -EBADF }
    | some x =>
      modify fun s => { s with files := s.files.free f }
      release_file x
      pure { ret := 0 }
  | .ioctl f cmd arg env => do
    match (← get).files.get f with
    | none => pure { ret := -EBADF }
    | some x =>
      let r ← ioctl_file x cmd arg env
      pure { ret := r.ret, reg_mem := r.reg_mem }
  | .mmap f mm vm_start vm_end vm_pgoff env => do
    match (← get).files.get f with
    | none => pure { ret := -EBADF }
    | some x =>
      if range_free (← get) mm vm_start vm_end then
        let (vma, ret) ← mmap_file x (new_vma mm vm_start vm_end vm_pgoff) env
        if ret < 0 then
          pure { ret }
        else
          modify fun s => { s with vmas := s.vmas.alloc vma }
          pure { ret }
      else
        pure { ret := -EINVAL }
  | .munmap v => do
    match (← get).vmas.get v with
    | none => pure { ret := -EINVAL }
    | some w =>
      unmap_vma v w
      pure { ret := 0 }
  | .split v at_ => do
    match (← get).vmas.get v with
    | none => pure { ret := -EINVAL }
    | some w =>
      if w.vm_start < at_ ∧ at_ < w.vm_end ∧ PAGE_SIZE ∣ at_ then
        modify fun s => { s with vmas := (s.vmas.set v (w.lower at_)).alloc (w.upper at_) }
        open_vma (w.upper at_)
        pure { ret := 0 }
      else
        pure { ret := -EINVAL }
  | .move v vm_start => do
    match (← get).vmas.get v with
    | none => pure { ret := -EINVAL }
    | some w =>
      if range_free (← get) w.mm vm_start (vm_start + (w.vm_end - w.vm_start)) then
        modify fun s => { s with vmas := s.vmas.alloc (w.moved vm_start) }
        open_vma (w.moved vm_start)
        unmap_vma v w
        pure { ret := 0 }
      else
        pure { ret := -EINVAL }
  | .revoke t => do
    match (← get).tables.get t with
    | none => pure { ret := -EINVAL }
    | some x =>
      if x.pinned then
        unpin t
        release_bafs_cuda_mem x.data
        pure { ret := 0 }
      else
        pure { ret := -EINVAL }

end BafsDriver
