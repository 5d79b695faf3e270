import BafsDriver.System

/-!
# Requests that are granted

Requests with the answers of a kernel and of an NVIDIA driver that refuse nothing. The runs on which a
property fails are put together from these.
-/

namespace BafsDriver

/-- The answers while a context is made. -/
def granted_ctx : CtxEnv := { kzalloc := true, find_get_pid := true, xa_insert := none }

/-- The answers while a file is opened. -/
def granted_open : OpenEnv := { kzalloc := true, ctx := granted_ctx }

/-- The answers while a controller is made. -/
def granted_ctrl : CtrlAllocEnv where
  kzalloc := true
  pci_request_region := none
  pci_enable_device := none
  minor := none
  ctrl_id := none
  cdev_add := none
  device_create := none

/-- The answers while memory is mapped for DMA. -/
def granted_dma : DmaMapEnv where
  kzalloc := true
  kcalloc := true
  dma_map_single i := some (4096 * i)
  nvidia_p2p_dma_map_pages := .ok [0]
  copy_to_user := 0

/-- The answers while a group is made. -/
def granted_group : GroupAllocEnv where
  kzalloc_group := true
  kzalloc_ctrl_devices := true
  kzalloc_ctrls := true
  group_id := none
  minor := none
  cdev_add := none
  device_create := none

/-- The answers during an ioctl. -/
def granted_ioctl : IoctlEnv where
  reg_mem := { copy_from_user := true, kzalloc := true, xa_alloc := none, copy_to_user := 0 }
  ctrl_dma_map_mem := { copy_from_user := true, map := granted_dma, copy_to_user := 0 }
  group_dma_map_mem :=
    { copy_from_user := true, kzalloc := true, map := fun _ => granted_dma, copy_to_user := 0 }
  create_group :=
    { copy_from_user := true, kzalloc := true, alloc := granted_group, stack := fun _ => 0
      copy_to_user := 0 }
  delete_group := true

/-- One page of the NVIDIA driver. -/
def granted_pages : P2pPages where
  version_compatible := true
  page_size := .NVIDIA_P2P_PAGE_SIZE_4KB
  physical_address := [0x10000000]
  nonempty := by decide

/-- The answers during an mmap. -/
def granted_mmap : MmapEnv where
  pin :=
    { kcalloc := true, alloc_page := fun _ => true, vm_map_pages_zero := none
      nvidia_p2p_get_pages := .ok granted_pages, io_remap_pfn_range := fun _ => none }
  bar _ := none

/-- The process that makes the requests. -/
def a_task : Task := { tgid := 1, tgid_struct := 1, mm := 1 }

/-- The parameter blocks of the ioctls, all zero. -/
def no_arg : IoctlArg where
  argp := 0
  reg_mem := { size := 0, loc := 0, handle := 0 }
  dma_map_mem := { vaddr := 0, dma_addrs := 0, n_dma_addrs := 0 }
  create_group := { n_ctrls := 0, ctrls := fun _ => none, group_name := 0 }
  delete_group := { group_name := none }

namespace Request

/-- A PCI device with its BAR 0 is bound to the driver. -/
def bind (slot start len : Nat) : Request :=
  .probe { slot, resource_start := start, resource_len := len } granted_ctrl

/-- The open file `f`, on the device `cmd` belongs to, registers `size` bytes. -/
def reg_mem (f : FileId) (cmd size loc : Nat) : Request :=
  .ioctl f cmd { no_arg with
    reg_mem := { size := BitVec.ofNat 32 size, loc := BitVec.ofNat 32 loc, handle := 0 } }
    granted_ioctl

/-- The ctrl file `f` maps the memory at `vaddr` for DMA. -/
def dma_map (f : FileId) (vaddr : Nat) : Request :=
  .ioctl f BAFS_CTRL_IOC_DMA_MAP_MEM { no_arg with
    dma_map_mem := { vaddr, dma_addrs := 0, n_dma_addrs := BitVec.ofNat 32 16 } } granted_ioctl

/-- The core file `f` creates a group of the controllers with these names. -/
def create (f : FileId) (names : List Name) : Request :=
  .ioctl f BAFS_CORE_IOC_CREATE_GROUP { no_arg with
    create_group :=
      { n_ctrls := BitVec.ofNat 32 names.length, ctrls := fun i => names[i]?, group_name := 0 } }
    granted_ioctl

/-- The core file `f` deletes the group with this name. -/
def delete (f : FileId) (name : Name) : Request :=
  .ioctl f BAFS_CORE_IOC_DELETE_GROUP { no_arg with delete_group := { group_name := some name } }
    granted_ioctl

/-- The open file `f` maps `n` pages from `vm_start` on. -/
def map (f : FileId) (vm_start n vm_pgoff : Nat) : Request :=
  .mmap f 1 vm_start (vm_start + n * PAGE_SIZE) vm_pgoff granted_mmap

end Request

end BafsDriver
