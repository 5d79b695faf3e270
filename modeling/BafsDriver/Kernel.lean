import BafsDriver.Types
import BafsDriver.Lib.LowestFree

/-!
# Services of the kernel and of the NVIDIA driver

The calls the driver makes, by their documented effect on the part of the state that the driver can
see. Where a call may fail, the caller passes in how it is answered this time.
-/

set_option linter.style.nameCheck false

namespace BafsDriver

open Prog

/-! ## Objects -/

/-- Reads the object at address `i` of the heap `h`; a freed address is the fault `e`. -/
def load {α : Type} (h : State → Heap α) (e : Fault) (i : Nat) : Drv α := do
  match (h (← get)).get i with
  | some a => pure a
  | none => throw e

def ctx_at (c : CtxId) : Drv BafsCtx := load State.ctxs .freed_ctx c
def mem_at (m : MemId) : Drv BafsMem := load State.mems .freed_mem m
def dma_at (d : DmaId) : Drv BafsMemDma := load State.dmas .freed_dma d
def ctrl_at (c : CtrlId) : Drv BafsCtrl := load State.ctrls .freed_ctrl c
def group_at (g : GroupId) : Drv BafsGroup := load State.groups .freed_group g
def device_at (d : DeviceId) : Drv Device := load State.devices .freed_device d

def ctx_upd (c : CtxId) (f : BafsCtx → BafsCtx) : Drv Unit := do
  let x ← ctx_at c
  modify fun s => { s with ctxs := s.ctxs.set c (f x) }

def mem_upd (m : MemId) (f : BafsMem → BafsMem) : Drv Unit := do
  let x ← mem_at m
  modify fun s => { s with mems := s.mems.set m (f x) }

def ctrl_upd (c : CtrlId) (f : BafsCtrl → BafsCtrl) : Drv Unit := do
  let x ← ctrl_at c
  modify fun s => { s with ctrls := s.ctrls.set c (f x) }

def group_upd (g : GroupId) (f : BafsGroup → BafsGroup) : Drv Unit := do
  let x ← group_at g
  modify fun s => { s with groups := s.groups.set g (f x) }

def device_upd (d : DeviceId) (f : Device → Device) : Drv Unit := do
  let x ← device_at d
  modify fun s => { s with devices := s.devices.set d (f x) }

/-- Records a call. -/
def emit (e : Event) : Drv Unit := modify fun s => { s with trace := e :: s.trace }

/-! ## Memory -/

/-- `kzalloc` and `kcalloc`: a new block, unless there is no memory. What is given for no bytes
(`ZERO_SIZE_PTR`) counts as a block of its own. -/
def kzalloc (ok : Bool) : Drv (Option BlockId) := do
  let s ← get
  if ok then
    modify fun s => { s with blocks := s.blocks.alloc () }
    pure (some s.blocks.next)
  else
    pure none

def kfree (b : BlockId) : Drv Unit := modify fun s => { s with blocks := s.blocks.free b }

def alloc_page (ok : Bool) : Drv (Option PageId) := do
  let s ← get
  if ok then
    modify fun s => { s with pages := s.pages.alloc () }
    pure (some s.pages.next)
  else
    pure none

def __free_page (p : PageId) : Drv Unit := modify fun s => { s with pages := s.pages.free p }

/-- `copy_to_user` of `words` to the address `dst`, of which the last `left` cannot be written; the
result is the number of those not copied. -/
def copy_to_user (left dst : Nat) (source : CopySource) (words : List Nat) : Drv Nat := do
  emit (.copy_to_user source dst (words.take (words.length - left)))
  pure (min left words.length)

/-- `strncpy_from_user` of at most `n` bytes: minus `EFAULT`, or the length of the string, or `n`
when no NUL comes before; with the bytes copied. The string in user memory is `none` where it
cannot be read. -/
def strncpy_from_user (src : Option Name) (n : Nat) : Int × Name :=
  match src with
  | none => (-EFAULT, [])
  | some str => if str.length < n then (str.length, str) else (n, str.take n)

/-! ## Identifiers -/

/-- `ida_simple_get(ida, 0, 0)`: the lowest free number. -/
def ida_simple_get (ida : List Nat) (fail : Option Errno) : Except Errno Nat :=
  match fail with
  | some e => .error e
  | none => .ok (lowestFree ida)

/-- `xa_alloc(xa, id, entry, xa_limit_31b)`: the lowest free index up to `INT_MAX`. -/
def xa_alloc (xa : AList (fun _ : Nat => MemId)) (fail : Option Errno) : Option Nat :=
  match fail with
  | some _ => none
  | none => if lowestFree xa.keys < 2 ^ 31 then some (lowestFree xa.keys) else none

/-! ## Devices -/

def get_core_device : Drv Unit := modify fun s => { s with core_ref := s.core_ref + 1 }

def put_core_device : Drv Unit := modify fun s => { s with core_ref := s.core_ref - 1 }

/-- `device_create` below the core device. -/
def device_create (cls name : Name) (drvdata : Drvdata) : Drv DeviceId := do
  let s ← get
  modify fun s => { s with devices := s.devices.alloc ⟨name, cls, some drvdata, 1, true⟩ }
  pure s.devices.next

def put_device (d : DeviceId) : Drv Unit := do
  let x ← device_at d
  device_upd d fun x => { x with ref := x.ref - 1 }
  if x.ref = 1 then modify fun s => { s with devices := s.devices.free d } else pure ()

/-- `device_destroy(class, devt)`: the device is found by its device number, which names the one
that was created for this object. -/
def device_destroy (d : DeviceId) : Drv Unit := do
  device_upd d fun x => { x with in_tree := false }
  put_device d

/-- The children of the core device in the order in which they were added. -/
def children (s : State) : List DeviceId :=
  (List.range s.devices.next).filter fun d => (s.devices.get d).any fun x => x.in_tree

/-- The first child of the core device with this name. -/
def find_child (s : State) (name : Name) : Option DeviceId :=
  (children s).find? fun d => (s.devices.get d).any fun x => x.name = name

/-- `device_find_child_by_name(bafs_core_device, name)`, which takes a reference. -/
def device_find_child_by_name (name : Name) : Drv (Option DeviceId) := do
  match find_child (← get) name with
  | none => pure none
  | some d =>
    device_upd d fun x => { x with ref := x.ref + 1 }
    pure (some d)

def cdev_add (minor : Nat) : Drv Unit := modify fun s => { s with cdevs := minor :: s.cdevs }

def cdev_del (minor : Nat) : Drv Unit := modify fun s => { s with cdevs := s.cdevs.erase minor }

/-- The decimal digits of `n`, as `%d` prints them. -/
def decimal (n : Nat) : Name := Nat.toDigits 10 n

/-! ## Mapping into user space -/

/-- `vm_map_pages_zero`: fails when the VMA has more pages than the table, and otherwise puts the
first pages of the table behind the pages of the VMA. -/
def vm_map_pages_zero (vma : Vma) (pages : List PageId) (fail : Option Errno) :
    Drv (Vma × Int) := do
  emit (.vm_map_pages_zero vma.vm_start vma.vm_end)
  if pages.length = 0 ∨ pages.length < vma.vma_pages then
    pure (vma, - ENXIO)
  else
    match fail with
    | some e => pure (vma, e.ret)
    | none => pure ({ vma with pages := pages.take vma.vma_pages }, 0)

/-- `io_remap_pfn_range`: maps `addr + o` to `pfn * PAGE_SIZE + o` for every `o < size`. A range
that runs past the end of the address space is refused. -/
def io_remap_pfn_range (vma : Vma) (addr pfn size : Nat) (bar : Option CtrlId)
    (fail : Option Errno) : Drv (Vma × Int) := do
  emit (.io_remap_pfn_range addr pfn size)
  match fail with
  | some e => pure (vma, e.ret)
  | none =>
    if 2 ^ 64 < addr + size then
      pure (vma, -EINVAL)
    else
      pure ({ vma with remaps := vma.remaps ++ [⟨addr, pfn, size, bar⟩] }, 0)

/-! ## DMA and the NVIDIA driver -/

def dma_unmap_single (c : CtrlId) (addr len : Nat) : Drv Unit :=
  emit (.dma_unmap_single c addr len)

/-- `nvidia_p2p_get_pages`: pins the pages and registers the callback with `data`. -/
def nvidia_p2p_get_pages (data : MemId) (answer : Except Errno P2pPages) :
    Drv (Except Errno TableId) := do
  match answer with
  | .error e => pure (.error e)
  | .ok pages =>
    let s ← get
    modify fun s => { s with tables := s.tables.alloc ⟨pages, data, true⟩ }
    pure (.ok s.tables.next)

/-- The page tables when the pages of `t` are no longer pinned. -/
def unpinned (T : Heap P2pPageTable) (t : TableId) : Heap P2pPageTable :=
  match T.get t with
  | some x => T.set t { x with pinned := false }
  | none => T

/-- The pages of the table are no longer pinned, and the NVIDIA driver will not call back. -/
def unpin (t : TableId) : Drv Unit := modify fun s => { s with tables := unpinned s.tables t }

def nvidia_p2p_put_pages (t : TableId) : Drv Unit := do
  emit (.nvidia_p2p_put_pages t)
  unpin t

def nvidia_p2p_free_page_table (t : Option TableId) : Drv Unit :=
  emit (.nvidia_p2p_free_page_table t)

/-- `nvidia_p2p_dma_map_pages`, which refuses a missing page table. -/
def nvidia_p2p_dma_map_pages (c : CtrlId) (t : Option TableId)
    (answer : Except Errno (List Nat)) : Drv (Except Int MappingId) := do
  emit (.nvidia_p2p_dma_map_pages c t)
  match t, answer with
  | none, _ => pure (.error (-EINVAL))
  | some _, .error e => pure (.error e.ret)
  | some t, .ok addrs =>
    let s ← get
    modify fun s => { s with mappings := s.mappings.alloc ⟨t, c, addrs⟩ }
    pure (.ok s.mappings.next)

end BafsDriver
