import BafsDriver.Module.Group

/-!
# Device files

The file operations of the core, ctrl and group devices: open, ioctl, mmap and release.
-/

set_option linter.style.nameCheck false

namespace BafsDriver

open Prog

/-! ## open -/

/-- How the kernel answers while a ctrl or group file is opened. -/
structure OpenEnv where
  kzalloc : Bool
  ctx : CtxEnv

def bafs_ctrl_open (c : CtrlId) (task : Task) (env : OpenEnv) : Drv (Int × Option File) := do
  bafs_get_ctrl c
  match ← kzalloc env.kzalloc with
  | none =>
    bafs_ctrl_release c
    pure (-ENOMEM, none)
  | some blk =>
    match ← bafs_get_ctx task env.ctx with
    | none =>
      kfree blk
      bafs_ctrl_release c
      pure (-EINVAL, none)
    | some ctx => pure (0, some (.ctrl { blk, ctrl := c, ctx }))

def bafs_group_open (g : GroupId) (task : Task) (env : OpenEnv) : Drv (Int × Option File) := do
  bafs_get_group g
  match ← kzalloc env.kzalloc with
  | none =>
    bafs_put_group g
    pure (-ENOMEM, none)
  | some blk =>
    match ← bafs_get_ctx task env.ctx with
    | none =>
      kfree blk
      bafs_put_group g
      pure (-EINVAL, none)
    | some ctx => pure (0, some (.group { blk, group := g, ctx }))

/-! ## release -/

/-- The loop that the three release functions share: registrations that were never mapped are taken
out of the context and freed, whatever their reference count. -/
def sweep_stale (c : CtxId) : Drv Unit := do
  let y ← ctx_at c
  each (fun m => do
    let x ← mem_at m
    if x.state = .STALE then do
      unlink_mem m x
      drop_mem m
      kfree x.blk
      bafs_put_ctx c
    else
      pure ()) y.mem_list

def bafs_core_release (c : CtxId) : Drv Unit := do
  sweep_stale c
  bafs_put_ctx c

def bafs_ctrl_file_release (x : BafsCtrlCtx) : Drv Unit := do
  sweep_stale x.ctx
  bafs_put_ctx x.ctx
  bafs_ctrl_release x.ctrl
  kfree x.blk

def bafs_group_release (x : BafsGroupCtx) : Drv Unit := do
  sweep_stale x.ctx
  bafs_put_ctx x.ctx
  bafs_put_group x.group
  kfree x.blk

/-! ## ioctl -/

/-- `_IOWR(type, nr, size)` -/
def _IOWR (type nr size : Nat) : Nat := 3 <<< 30 ||| size <<< 16 ||| type <<< 8 ||| nr

/-- `_IOC_TYPE` -/
def _IOC_TYPE (cmd : Nat) : Nat := (cmd >>> 8) &&& 0xff

def BAFS_CORE_IOCTL : Nat := 0x80
def BAFS_CTRL_IOCTL : Nat := 0x81
def BAFS_GROUP_IOCTL : Nat := 0x82

def BAFS_CORE_IOC_REG_MEM : Nat := _IOWR BAFS_CORE_IOCTL 1 12
def BAFS_CORE_IOC_CREATE_GROUP : Nat := _IOWR BAFS_CORE_IOCTL 2 24
def BAFS_CORE_IOC_DELETE_GROUP : Nat := _IOWR BAFS_CORE_IOCTL 3 8
def BAFS_CTRL_IOC_REG_MEM : Nat := _IOWR BAFS_CTRL_IOCTL 1 12
def BAFS_CTRL_IOC_DMA_MAP_MEM : Nat := _IOWR BAFS_CTRL_IOCTL 2 24
def BAFS_GROUP_IOC_REG_MEM : Nat := _IOWR BAFS_GROUP_IOCTL 1 12
def BAFS_GROUP_IOC_DMA_MAP_MEM : Nat := _IOWR BAFS_GROUP_IOCTL 2 24

/-- The argument of an ioctl: an address, and what user memory holds there as the parameter block of
each command. -/
structure IoctlArg where
  argp : Nat
  reg_mem : BAFS_IOC_REG_MEM_PARAMS
  dma_map_mem : BAFS_IOC_DMA_MAP_MEM_PARAMS
  create_group : BAFS_CORE_IOC_CREATE_GROUP_PARAMS
  delete_group : BAFS_CORE_IOC_DELETE_GROUP_PARAMS

/-- How the kernel answers during an ioctl of each command. -/
structure IoctlEnv where
  reg_mem : RegMemEnv
  ctrl_dma_map_mem : CtrlDmaMapEnv
  group_dma_map_mem : GroupDmaMapEnv
  create_group : CreateGroupEnv
  /-- The `copy_from_user` of a delete request. -/
  delete_group : Bool

/-- What the caller of an ioctl sees: the return code, and the registration block where one was
written back. -/
structure IoctlReply where
  ret : Int
  reg_mem : Option BAFS_IOC_REG_MEM_PARAMS

/-- A return code with nothing written back. -/
def IoctlReply.code (ret : Int) : IoctlReply := ⟨ret, none⟩

def bafs_core_ioctl (ctx : CtxId) (cmd : Nat) (arg : IoctlArg) (env : IoctlEnv) :
    Drv IoctlReply := do
  if _IOC_TYPE cmd ≠ BAFS_CORE_IOCTL then
    pure (.code (-EINVAL))
  else if cmd = BAFS_CORE_IOC_REG_MEM then
    let (ret, out) ← bafs_core_reg_mem arg.argp arg.reg_mem ctx env.reg_mem
    if ret < 0 then pure (.code ret) else pure ⟨0, some out⟩
  else if cmd = BAFS_CORE_IOC_CREATE_GROUP then
    let ret ← bafs_core_create_group arg.create_group env.create_group
    if ret < 0 then pure (.code ret) else pure (.code 0)
  else if cmd = BAFS_CORE_IOC_DELETE_GROUP then
    let ret ← bafs_core_delete_group arg.delete_group env.delete_group
    if ret < 0 then pure (.code ret) else pure (.code 0)
  else
    pure (.code (-EINVAL))

def bafs_ctrl_ioctl (x : BafsCtrlCtx) (cmd : Nat) (arg : IoctlArg) (env : IoctlEnv) :
    Drv IoctlReply := do
  bafs_get_ctrl x.ctrl
  if _IOC_TYPE cmd ≠ BAFS_CTRL_IOCTL then
    bafs_ctrl_release x.ctrl
    pure (.code (-EINVAL))
  else if cmd = BAFS_CTRL_IOC_REG_MEM then
    let (ret, out) ← bafs_core_reg_mem arg.argp arg.reg_mem x.ctx env.reg_mem
    if ret < 0 then
      -- `goto out`, past `out_release_ctrl`
      pure (.code ret)
    else
      bafs_ctrl_release x.ctrl
      pure ⟨0, some out⟩
  else if cmd = BAFS_CTRL_IOC_DMA_MAP_MEM then
    let ret ← __bafs_ctrl_dma_map_mem arg.argp arg.dma_map_mem x.ctrl x.ctx env.ctrl_dma_map_mem
    bafs_ctrl_release x.ctrl
    if ret < 0 then pure (.code ret) else pure (.code 0)
  else
    bafs_ctrl_release x.ctrl
    pure (.code (-EINVAL))

def bafs_group_ioctl (x : BafsGroupCtx) (cmd : Nat) (arg : IoctlArg) (env : IoctlEnv) :
    Drv IoctlReply := do
  bafs_get_group x.group
  if _IOC_TYPE cmd ≠ BAFS_GROUP_IOCTL then
    bafs_put_group x.group
    pure (.code (-EINVAL))
  else if cmd = BAFS_GROUP_IOC_REG_MEM then
    let (ret, out) ← bafs_core_reg_mem arg.argp arg.reg_mem x.ctx env.reg_mem
    if ret < 0 then
      -- `goto out`, past `out_release_group`
      pure (.code ret)
    else
      bafs_put_group x.group
      pure ⟨0, some out⟩
  else if cmd = BAFS_GROUP_IOC_DMA_MAP_MEM then
    let ret ← bafs_group_dma_map_mem arg.argp arg.dma_map_mem x.group x.ctx env.group_dma_map_mem
    bafs_put_group x.group
    if ret < 0 then pure (.code ret) else pure (.code 0)
  else
    bafs_put_group x.group
    pure (.code (-EINVAL))

/-! ## mmap -/

/-- How the kernel and the NVIDIA driver answer during an mmap: `bar i` is for the BAR of controller
`i`. -/
structure MmapEnv where
  pin : PinEnv
  bar : Nat → Option Errno

/-- Maps the BAR of a controller at `vaddr`: the VMA, the return code and `*map_size`. The reference
to the controller is kept on success. -/
def bafs_ctrl_mmap (c : CtrlId) (vma : Vma) (vaddr : Nat) (fail : Option Errno) :
    Drv (Vma × Int × Nat) := do
  bafs_get_ctrl c
  let x ← ctrl_at c
  let map_size := x.pdev.resource_len
  let (vma', ret) ←
    io_remap_pfn_range vma vaddr x.pdev.resource_start map_size (some c) fail
  if ret < 0 then
    bafs_ctrl_release c
    pure (vma', ret, map_size)
  else
    pure (vma', ret, map_size)

def bafs_core_mmap (ctx : CtxId) (vma : Vma) (env : MmapEnv) : Drv (Vma × Int) :=
  pin_bafs_mem vma ctx env.pin

def __bafs_ctrl_mmap (x : BafsCtrlCtx) (vma : Vma) (env : MmapEnv) : Drv (Vma × Int) := do
  if vma.vm_pgoff = 0 then
    let (vma', ret, _) ← bafs_ctrl_mmap x.ctrl vma vma.vm_start (env.bar 0)
    pure (vma', ret)
  else
    pin_bafs_mem vma x.ctx env.pin

/-- The loop over the controllers of a group: the VMA and `map_size` so far, and a code on
failure. -/
def group_mmap_loop (fail : Nat → Option Errno) (ctrls : List (CtrlId × Nat)) (vma : Vma) :
    Drv ((Vma × Nat) × Option Int) :=
  iterate (fun ci acc => do
    let (vma', ret, cur_map_size) ←
      bafs_ctrl_mmap ci.1 acc.1 (u64 (acc.1.vm_start + acc.2)) (fail ci.2)
    if ret < 0 then
      pure (acc, some ret)
    else
      pure ((vma', u64 (acc.2 + cur_map_size)), none)) ctrls (vma, 0)

def bafs_group_mmap (x : BafsGroupCtx) (vma : Vma) (env : MmapEnv) : Drv (Vma × Int) := do
  if vma.vm_pgoff = 0 then
    bafs_get_group x.group
    let y ← group_at x.group
    match ← group_mmap_loop env.bar y.ctrls.zipIdx vma with
    | (_, some ret) =>
      bafs_put_group x.group
      pure (vma, ret)
    | (acc, none) =>
      bafs_put_group x.group
      pure (acc.1, 0)
  else
    let (vma', ret) ← pin_bafs_mem vma x.ctx env.pin
    if ret < 0 then pure (vma', ret) else pure (vma', 0)

end BafsDriver
