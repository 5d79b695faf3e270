import BafsDriver.Lib.Prog
import BafsDriver.Lib.Heap
import Mathlib.Data.List.AList

/-!
# Data of the driver

The structures of `linux/bafs.h` and `linux/bafs/types.h`, and the state of the module: the objects
it has allocated, the tables that lead to them, and the parts of the kernel and of the NVIDIA driver
that it acts on. A pointer to an object is the address of the object in the heap of its type, so a
dangling pointer is an address at which that heap is empty.

Left out: the locks (a request runs without interruption), `rcu_head`, the unused `group_list`,
`n_addrs` and `ctx` fields, and the page protection and flags of a VMA.
-/

namespace BafsDriver

abbrev CtxId := Nat
abbrev MemId := Nat
abbrev DmaId := Nat
abbrev CtrlId := Nat
abbrev GroupId := Nat
abbrev FileId := Nat
abbrev VmaId := Nat
abbrev TableId := Nat
abbrev MappingId := Nat
abbrev DeviceId := Nat
abbrev PageId := Nat
abbrev BlockId := Nat

/-- A name without its terminating NUL. -/
abbrev Name := List Char

/-! ## Constants -/

def PAGE_SHIFT : Nat := 12
def PAGE_SIZE : Nat := 4096

def BAFS_MEM_CPU : Nat := 0
def BAFS_MEM_CUDA : Nat := 1

def MAX_NAME_LEN : Nat := 20

def BAFS_CTRL_CLASS_NAME : Name := ['b', 'a', 'f', 's', 'c']
def BAFS_GROUP_CLASS_NAME : Name := ['b', 'a', 'f', 's', 'g']

def ENXIO : Int := 6
def EBADF : Int := 9
def ENOMEM : Int := 12
def EFAULT : Int := 14
def EBUSY : Int := 16
def EINVAL : Int := 22

/-- An error code that a kernel or vendor function answers with: it returns minus this number. -/
structure Errno where
  val : Nat
  pos : 0 < val
  deriving DecidableEq

/-- What a function that failed with `e` returns. -/
def Errno.ret (e : Errno) : Int := -(e.val : Int)

theorem Errno.ret_neg (e : Errno) : e.ret < 0 := by
  have := e.pos
  unfold Errno.ret
  omega

/-! ## Machine integers -/

/-- Narrowing to `unsigned` (and to `__u32`). -/
def u32 (n : Nat) : Nat := n % 2 ^ 32

/-- Narrowing to `unsigned long`. -/
def u64 (n : Nat) : Nat := n % 2 ^ 64

/-! ## Objects of the driver -/

/-- `struct bafs_ctx` -/
structure BafsCtx where
  blk : BlockId
  bafs_mem_xa : AList (fun _ : Nat => MemId)
  mem_list : List MemId
  ref : Nat
  tgid : Nat
  tgid_struct : Nat

/-- `enum STATE` -/
inductive STATE where
  | STALE
  | LIVE
  | DEAD
  | DEAD_CB
  deriving DecidableEq

/-- `struct bafs_mem` -/
structure BafsMem where
  blk : BlockId
  ctx : CtxId
  dma_list : List DmaId
  ref : Nat
  mem_id : Nat
  loc : Nat
  state : STATE
  vaddr : Nat
  size : Nat
  page_size : Nat
  page_shift : Nat
  page_mask : Nat
  n_pages : Nat
  cuda_page_table : Option TableId
  /-- The table with its block. -/
  cpu_page_table : Option (BlockId × List PageId)

/-- `struct bafs_mem_dma` -/
structure BafsMemDma where
  blk : BlockId
  mem : MemId
  ctrl : CtrlId
  cuda_mapping : Option MappingId
  /-- The addresses with their block. -/
  addrs : Option (BlockId × List Nat)
  map_gran : Nat
  /-- The pages that `addrs` were made for, kept to speak about them only. -/
  pages : List PageId

/-- A PCI function and its BAR 0. -/
structure PciDev where
  slot : Nat
  resource_start : Nat
  resource_len : Nat
  deriving DecidableEq

/-- `struct bafs_ctrl` -/
structure BafsCtrl where
  blk : BlockId
  pdev : PciDev
  device : DeviceId
  minor : Nat
  ctrl_id : Nat
  ref : Nat

/-- `struct bafs_group`; `n_ctrls` is the length of `ctrls`. -/
structure BafsGroup where
  blk : BlockId
  ctrls_blk : BlockId
  ref : Nat
  group_id : Nat
  minor : Nat
  device : DeviceId
  ctrls : List CtrlId

/-- `struct bafs_ctrl_ctx` -/
structure BafsCtrlCtx where
  blk : BlockId
  ctrl : CtrlId
  ctx : CtxId

/-- `struct bafs_group_ctx` -/
structure BafsGroupCtx where
  blk : BlockId
  group : GroupId
  ctx : CtxId

/-- An open file with its `private_data`. -/
inductive File where
  | core (ctx : CtxId)
  | ctrl (ctrl_ctx : BafsCtrlCtx)
  | group (group_ctx : BafsGroupCtx)

/-- The context of an open file. -/
def File.ctx : File → CtxId
  | .core c => c
  | .ctrl x => x.ctx
  | .group x => x.ctx

/-! ## Objects of the kernel and of the NVIDIA driver -/

/-- What `dev_get_drvdata` points at. -/
inductive Drvdata where
  | ctrl (c : CtrlId)
  | group (g : GroupId)
  deriving DecidableEq

/-- A device below the core device. -/
structure Device where
  name : Name
  cls : Name
  drvdata : Option Drvdata
  ref : Nat
  /-- Whether it is still a child of the core device. -/
  in_tree : Bool

/-- The `vm_ops` that the driver installs. -/
inductive VmOps where
  | bafs_mem_ops
  deriving DecidableEq

/-- A range of user addresses mapped by `io_remap_pfn_range`. -/
structure Remap where
  addr : Nat
  pfn : Nat
  size : Nat
  /-- The controller whose BAR was asked for, kept for the accounting of references only. -/
  bar : Option CtrlId
  deriving DecidableEq

/-- `struct vm_area_struct` -/
structure Vma where
  /-- The address space it belongs to. -/
  mm : Nat
  vm_start : Nat
  vm_end : Nat
  vm_pgoff : Nat
  vm_ops : Option VmOps
  vm_private_data : Option MemId
  /-- The pages that `vm_map_pages_zero` put behind the first pages of the VMA. -/
  pages : List PageId
  /-- The ranges mapped by `io_remap_pfn_range`. -/
  remaps : List Remap

/-- `vma_pages` -/
def Vma.vma_pages (v : Vma) : Nat := (v.vm_end - v.vm_start) >>> PAGE_SHIFT

/-- The page sizes of the NVIDIA driver. -/
inductive P2pPageSize where
  | NVIDIA_P2P_PAGE_SIZE_4KB
  | NVIDIA_P2P_PAGE_SIZE_64KB
  | NVIDIA_P2P_PAGE_SIZE_128KB
  | other
  deriving DecidableEq

/-- What `nvidia_p2p_get_pages` fills in: `entries` is the number of pages, of which there is at
least one (a debug message reads `pages[0]` unchecked). -/
structure P2pPages where
  version_compatible : Bool
  page_size : P2pPageSize
  physical_address : List Nat
  nonempty : physical_address ≠ []

/-- `nvidia_p2p_page_table_t`, with the argument of its free callback. While it is pinned the
NVIDIA driver may call back. -/
structure P2pPageTable where
  pages : P2pPages
  data : MemId
  pinned : Bool

/-- `nvidia_p2p_dma_mapping_t`: `entries` is the number of addresses. -/
structure P2pDmaMapping where
  page_table : TableId
  ctrl : CtrlId
  dma_addresses : List Nat

/-- What the driver copies to user memory. -/
inductive CopySource where
  | params
  | group_name
  /-- The addresses of a DMA mapping. -/
  | dma_addrs
  deriving DecidableEq

/-- The calls that leave no other trace in the state. -/
inductive Event where
  | dma_map_single (c : CtrlId) (p : PageId) (addr len : Nat)
  | dma_unmap_single (c : CtrlId) (addr len : Nat)
  /-- A `dma_unmap_single` of whatever lies past the end of the addresses of a mapping. -/
  | dma_unmap_past_end (c : CtrlId) (len : Nat)
  | nvidia_p2p_put_pages (t : TableId)
  | nvidia_p2p_free_page_table (t : Option TableId)
  | nvidia_p2p_dma_map_pages (c : CtrlId) (t : Option TableId)
  | nvidia_p2p_dma_unmap_pages (c : CtrlId) (t : Option TableId) (p : MappingId)
  | nvidia_p2p_free_dma_mapping (p : MappingId)
  | vm_map_pages_zero (first last : Nat)
  | io_remap_pfn_range (addr pfn size : Nat)
  /-- A copy of what the driver keeps in `source` to `dst`: the words that could be written. -/
  | copy_to_user (source : CopySource) (dst : Nat) (words : List Nat)
  deriving DecidableEq

/-- A write of `mem->state`. -/
structure StateChange where
  mem : MemId
  old : STATE
  new : STATE
  deriving DecidableEq

/-- How a context was when it was released. -/
structure CtxRelease where
  ctx : CtxId
  mem_list : List MemId
  bafs_mem_xa : AList (fun _ : Nat => MemId)
  /-- The open files that referred to it. -/
  files : Nat

/-- A point in the life of a group. -/
inductive GroupMark where
  /-- A create request that succeeded. -/
  | create (g : GroupId)
  /-- A delete request that found the group under the name it was given. -/
  | delete (g : GroupId)
  | release (g : GroupId)
  deriving DecidableEq

/-! ## The state -/

/-- The state of the module between two requests. -/
structure State where
  ctxs : Heap BafsCtx := {}
  mems : Heap BafsMem := {}
  dmas : Heap BafsMemDma := {}
  ctrls : Heap BafsCtrl := {}
  groups : Heap BafsGroup := {}
  files : Heap File := {}
  vmas : Heap Vma := {}
  devices : Heap Device := {}
  tables : Heap P2pPageTable := {}
  mappings : Heap P2pDmaMapping := {}
  pages : Heap Unit := {}
  blocks : Heap Unit := {}
  bafs_global_ctx_xa : AList (fun _ : Nat => CtxId) := ∅
  /-- The controllers of the PCI devices bound to the driver, by slot. -/
  drvdata : AList (fun _ : Nat => CtrlId) := ∅
  bafs_minor_ida : List Nat := []
  bafs_ctrl_ida : List Nat := []
  bafs_group_ida : List Nat := []
  /-- The minors of the character devices that have been added. -/
  cdevs : List Nat := []
  /-- References to the core device. -/
  core_ref : Int := 0
  /-- Whether the core device has its node. -/
  core_device : Bool := true
  /-- The references to `struct pid` objects that the driver holds. -/
  pids : List Nat := []
  trace : List Event := []
  state_log : List StateChange := []
  ctx_log : List CtxRelease := []
  /-- The registrations freed. -/
  mem_log : List MemId := []
  /-- The controllers released. -/
  ctrl_log : List CtrlId := []
  group_log : List GroupMark := []
  /-- The groups that were read after their release. -/
  stale_reads : List GroupId := []

/-- How a request gets stuck. -/
inductive Fault where
  | freed_ctx
  | freed_mem
  | freed_dma
  | freed_ctrl
  | freed_group
  | freed_device
  /-- The private data of a device is used as an object of another type. -/
  | wrong_type
  | null_page_table
  | out_of_bounds
  deriving DecidableEq

/-- Code of the driver. -/
abbrev Drv := Prog State Fault

end BafsDriver
