import BafsDriver.Module.DmaMap

/-!
# Groups of controllers

`group.c` without its file operations: the reference count of a group, the DMA mapping for all its
controllers, and its creation; and the requests of the core device that create and delete a group
(`core.c`).
-/

set_option linter.style.nameCheck false

namespace BafsDriver

open Prog

/-- `kref_get(&group->ref)` -/
def bafs_get_group (g : GroupId) : Drv Unit := group_upd g fun x => { x with ref := x.ref + 1 }

def __bafs_group_release (g : GroupId) : Drv Unit := do
  let x ← group_at g
  device_destroy x.device
  -- nothing but what still points to the group can tell from here on that it is not freed yet
  modify fun s => { s with groups := s.groups.free g, group_log := .release g :: s.group_log }
  each bafs_ctrl_release x.ctrls
  kfree x.ctrls_blk
  put_core_device
  cdev_del x.minor
  modify fun s => { s with bafs_group_ida := s.bafs_group_ida.erase x.group_id }
  bafs_put_minor_number x.minor
  kfree x.blk

/-- `BAFS_GROUP_DEBUG` of `group_id` and `kref_read(&group->ref)`: `debug` is 1, so the group is read
whether it still exists or not. -/
def debug_group (g : GroupId) : Drv Unit :=
  modify fun s => if (s.groups.get g).isSome then s else
    { s with stale_reads := g :: s.stale_reads }

def bafs_put_group (g : GroupId) : Drv Unit := do
  debug_group g
  let x ← group_at g
  group_upd g fun x => { x with ref := x.ref - 1 }
  if x.ref = 1 then __bafs_group_release g else pure ()
  debug_group g

/-! ## DMA mapping -/

/-- How the kernel answers during a DMA-map request of a group file; `map i` is for controller
`i`. -/
structure GroupDmaMapEnv where
  copy_from_user : Bool
  kzalloc : Bool
  map : Nat → DmaMapEnv
  copy_to_user : Nat

/-- The variables of the loop of `bafs_group_dma_map_mem`. -/
structure GroupMapAcc where
  n_dma_addrs : Nat
  n_dma_addrs_per_ctrl : Nat
  dmas : List DmaId

/-- The loop over the controllers, with their indices. -/
def group_map_loop (ctx : CtxId) (vaddr dma_addrs : Nat) (env : Nat → DmaMapEnv)
    (ctrls : List (CtrlId × Nat)) (acc : GroupMapAcc) : Drv (GroupMapAcc × Option Int) :=
  iterate (fun ci acc => do
    let user := u64 (dma_addrs + 8 * (acc.n_dma_addrs_per_ctrl * ci.2))
    match ← bafs_ctrl_dma_map_mem ci.1 ctx vaddr acc.n_dma_addrs user ci.2 (env ci.2) with
    | (ret, n, none) => pure ({ acc with n_dma_addrs := n }, some ret)
    | (_, n, some d) =>
      pure ({ n_dma_addrs := n
              n_dma_addrs_per_ctrl := if ci.2 = 0 then n else acc.n_dma_addrs_per_ctrl
              dmas := acc.dmas ++ [d] }, none)) ctrls acc

/-- The label `out_unmap_mems`. -/
def unmap_mems (dmas : List DmaId) (blk : BlockId) : Drv Unit := do
  each bafs_ctrl_dma_unmap_mem dmas.reverse
  kfree blk

def bafs_group_dma_map_mem (argp : Nat) (params : BAFS_IOC_DMA_MAP_MEM_PARAMS) (g : GroupId)
    (ctx : CtxId) (env : GroupDmaMapEnv) : Drv Int := do
  if env.copy_from_user = false then
    pure (-EFAULT)
  else
    let x ← group_at g
    match ← kzalloc env.kzalloc with
    | none => pure (-ENOMEM)
    | some blk =>
      match ← group_map_loop ctx params.vaddr params.dma_addrs env.map x.ctrls.zipIdx
          ⟨params.n_dma_addrs.toNat, 0, []⟩ with
      | (acc, some ret) =>
        unmap_mems acc.dmas blk
        pure ret
      | (acc, none) =>
        let left ← copy_to_user env.copy_to_user argp .params
          [params.vaddr, params.dma_addrs, acc.n_dma_addrs]
        if left ≠ 0 then
          unmap_mems acc.dmas blk
          pure (-EFAULT)
        else
          pure 0

/-! ## Creation -/

/-- How the kernel answers while a group is made. -/
structure GroupAllocEnv where
  kzalloc_group : Bool
  kzalloc_ctrl_devices : Bool
  kzalloc_ctrls : Bool
  group_id : Option Errno
  minor : Option Errno
  cdev_add : Option Errno
  device_create : Option Errno

/-- `dev_name` of a group: `BAFS_GROUP_DEVICE_NAME` with its number. -/
def group_dev_name (group_id : Nat) : Name := BAFS_GROUP_CLASS_NAME ++ decimal group_id

/-- The loop that looks up the controller devices: the devices so far, and a code on failure. The
device that fails the class check keeps the reference that the lookup took. -/
def find_ctrl_devices (ctrls : List Name) : Drv (List DeviceId × Option Int) :=
  iterate (fun name devs => do
    match ← device_find_child_by_name name with
    | none => pure (devs, some (-EINVAL))
    | some d =>
      let x ← device_at d
      if x.cls.take BAFS_CTRL_CLASS_NAME.length ≠ BAFS_CTRL_CLASS_NAME then
        pure (devs, some (-EINVAL))
      else
        pure (devs ++ [d], none)) ctrls []

/-- The loop that takes a reference to each controller: the controllers so far, and a code on
failure. -/
def get_ctrls (devs : List DeviceId) : Drv (List CtrlId × Option Int) :=
  iterate (fun d ctrls => do
    let x ← device_at d
    match x.drvdata with
    | none => pure (ctrls, some (-EFAULT))
    | some (.group _) => throw .wrong_type
    | some (.ctrl c) =>
      bafs_get_ctrl c
      pure (ctrls ++ [c], none)) devs []

/-- The labels from `out_put_devices` on. -/
def out_put_devices (devs : List DeviceId) (dblk gblk : BlockId) : Drv Unit := do
  each put_device devs.reverse
  put_core_device
  kfree dblk
  kfree gblk

/-- The labels from `out_free_ctrls` on. -/
def out_free_ctrls (ctrls : List CtrlId) (cblk : BlockId) (devs : List DeviceId)
    (dblk gblk : BlockId) : Drv Unit := do
  each bafs_ctrl_release ctrls.reverse
  kfree cblk
  out_put_devices devs dblk gblk

/-- The part of `bafs_group_alloc` after the controllers have been taken. -/
def group_add (ctrls : List CtrlId) (cblk : BlockId) (devs : List DeviceId) (dblk gblk : BlockId)
    (env : GroupAllocEnv) : Drv (Int × Option GroupId) := do
  match ida_simple_get (← get).bafs_group_ida env.group_id with
  | .error e =>
    out_free_ctrls ctrls cblk devs dblk gblk
    pure (e.ret, none)
  | .ok group_id =>
    modify fun s => { s with bafs_group_ida := group_id :: s.bafs_group_ida }
    match ← bafs_get_minor_number env.minor with
    | .error e =>
      modify fun s => { s with bafs_group_ida := s.bafs_group_ida.erase group_id }
      out_free_ctrls ctrls cblk devs dblk gblk
      pure (e.ret, none)
    | .ok minor =>
      match env.cdev_add with
      | some e =>
        bafs_put_minor_number minor
        modify fun s => { s with bafs_group_ida := s.bafs_group_ida.erase group_id }
        out_free_ctrls ctrls cblk devs dblk gblk
        pure (e.ret, none)
      | none =>
        cdev_add minor
        match env.device_create with
        | some e =>
          cdev_del minor
          bafs_put_minor_number minor
          modify fun s => { s with bafs_group_ida := s.bafs_group_ida.erase group_id }
          out_free_ctrls ctrls cblk devs dblk gblk
          pure (e.ret, none)
        | none =>
          let g := (← get).groups.next
          let device ← device_create BAFS_GROUP_CLASS_NAME (group_dev_name group_id) (.group g)
          modify fun s => { s with
            groups := s.groups.alloc
              { blk := gblk, ctrls_blk := cblk, ref := 1, group_id, minor, device, ctrls } }
          each put_device devs
          kfree dblk
          pure (0, some g)

/-- A group of the controllers with these names: the return code, and the group on success. -/
def bafs_group_alloc (ctrls : List Name) (env : GroupAllocEnv) : Drv (Int × Option GroupId) := do
  match ← kzalloc env.kzalloc_group with
  | none => pure (-ENOMEM, none)
  | some gblk =>
    match ← kzalloc env.kzalloc_ctrl_devices with
    | none =>
      kfree gblk
      pure (-ENOMEM, none)
    | some dblk =>
      get_core_device
      match ← find_ctrl_devices ctrls with
      | (devs, some ret) =>
        out_put_devices devs dblk gblk
        pure (ret, none)
      | (devs, none) =>
        match ← kzalloc env.kzalloc_ctrls with
        | none =>
          out_put_devices devs dblk gblk
          pure (-ENOMEM, none)
        | some cblk =>
          match ← get_ctrls devs with
          | (held, some ret) =>
            out_free_ctrls held cblk devs dblk gblk
            pure (ret, none)
          | (held, none) => group_add held cblk devs dblk gblk env

/-! ## The requests of the core device -/

/-- `struct BAFS_CORE_IOC_CREATE_GROUP_PARAMS`, with what the name slots hold. -/
structure BAFS_CORE_IOC_CREATE_GROUP_PARAMS where
  n_ctrls : BitVec 32
  ctrls : Nat → Option Name
  group_name : Nat

/-- How the kernel answers while a group is created; `stack` is what the stack held where
`group_name` lies. -/
structure CreateGroupEnv where
  copy_from_user : Bool
  kzalloc : Bool
  alloc : GroupAllocEnv
  stack : Nat → Nat
  copy_to_user : Nat

/-- The loop that copies the names: the names so far, and a code on failure. -/
def copy_names (src : Nat → Option Name) (n : Nat) : Drv (List Name × Option Int) :=
  iterate (fun i names =>
    let (ret, name) := strncpy_from_user (src i) MAX_NAME_LEN
    if ret < 0 then pure (names, some ret)
    else if ret ≥ MAX_NAME_LEN then pure (names, some (-EINVAL))
    else pure (names ++ [name], none)) (List.range n) []

/-- `"/dev/%s"` -/
def dev_path (name : Name) : Name := ['/', 'd', 'e', 'v', '/'] ++ name

/-- The buffer of `MAX_NAME_LEN` bytes after `snprintf` of `str`, which fits. -/
def snprintf_buffer (stack : Nat → Nat) (str : Name) : List Nat :=
  (List.range MAX_NAME_LEN).map fun i =>
    if i = str.length then 0
    else match str[i]? with
      | some ch => ch.toNat
      | none => stack i

def bafs_core_create_group (params : BAFS_CORE_IOC_CREATE_GROUP_PARAMS) (env : CreateGroupEnv) :
    Drv Int := do
  if env.copy_from_user = false then
    pure (-EFAULT)
  else
    match ← kzalloc env.kzalloc with
    | none => pure (-ENOMEM)
    | some blk =>
      match ← copy_names params.ctrls params.n_ctrls.toNat with
      | (_, some ret) =>
        kfree blk
        pure ret
      | (names, none) =>
        match ← bafs_group_alloc names env.alloc with
        | (ret, none) =>
          kfree blk
          pure ret
        | (_, some g) =>
          let x ← group_at g
          let device ← device_at x.device
          let path := dev_path device.name
          if path.length ≥ MAX_NAME_LEN then
            bafs_put_group g
            kfree blk
            pure (-EINVAL)
          else
            let left ← copy_to_user env.copy_to_user params.group_name .group_name
              (snprintf_buffer env.stack path)
            if left ≠ 0 then
              bafs_put_group g
              kfree blk
              pure (-EFAULT)
            else
              kfree blk
              modify fun s => { s with group_log := .create g :: s.group_log }
              pure 0

/-- `struct BAFS_CORE_IOC_DELETE_GROUP_PARAMS`, with the string that `group_name` points at. -/
structure BAFS_CORE_IOC_DELETE_GROUP_PARAMS where
  group_name : Option Name

def bafs_core_delete_group (params : BAFS_CORE_IOC_DELETE_GROUP_PARAMS) (copy_from_user : Bool) :
    Drv Int := do
  if copy_from_user = false then
    pure (-EFAULT)
  else
    let (ret, group_name) := strncpy_from_user params.group_name MAX_NAME_LEN
    if ret < 0 then
      pure ret
    else if ret = MAX_NAME_LEN then
      pure (-EINVAL)
    else
      match ← device_find_child_by_name group_name with
      | none => pure (-EINVAL)
      | some d =>
        let x ← device_at d
        match x.drvdata with
        | none =>
          put_device d
          pure (-EFAULT)
        | some (.ctrl _) =>
          -- the controller is taken for a group: `bafs_put_group` counts down in a `bafs_ctrl`
          put_device d
          throw .wrong_type
        | some (.group g) =>
          put_device d
          modify fun s => { s with group_log := .delete g :: s.group_log }
          bafs_put_group g
          pure ret

end BafsDriver
