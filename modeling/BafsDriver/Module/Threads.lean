import BafsDriver.System
import BafsDriver.Lib.Script

/-!
# DMA-map requests that are interrupted

The lookup of a DMA-map request gives a reference, the pages are mapped without a lock, and the object
goes into the list of its registration at the end. In between, other requests, the close of the VMA
and the callback of the NVIDIA driver may run. Here a DMA-map request is a thread of such steps; the
close and the callback are threads of one step, since they hold the lock of the registration.
-/

set_option linter.style.nameCheck false

namespace BafsDriver

open Prog Script

/-! ## The mapping without its insertion -/

/-- `dma_map_cpu` up to `list_add`. -/
def map_cpu (c : CtrlId) (m : MemId) (x : BafsMem) (blk : BlockId) (n_dma_addrs : Nat)
    (user : Nat) (ctrl_id : Nat) (env : DmaMapEnv) : Drv (Int × Nat × Option BafsMemDma) := do
  let map_gran := u32 x.page_size
  match ← kzalloc env.kcalloc with
  | none =>
    delete_dma blk c m
    pure (-ENOMEM, n_dma_addrs, none)
  | some ablk =>
    let (mapped, fail) ← map_addrs c x map_gran env.dma_map_single
    let addrs := mapped.map (·.1)
    match fail with
    | some ret =>
      unmap_back c addrs map_gran
      delete_dma blk c m
      pure (ret, n_dma_addrs, none)
    | none =>
      let n := report_n ctrl_id n_dma_addrs x.n_pages
      let left ← copy_to_user env.copy_to_user user .dma_addrs addrs
      if left ≠ 0 then
        unmap_back c addrs map_gran
        delete_dma blk c m
        pure (-EFAULT, n, none)
      else
        pure (0, n, some { blk, mem := m, ctrl := c, cuda_mapping := none,
                           addrs := some (ablk, addrs), map_gran, pages := mapped.map (·.2) })

/-- `dma_map_cuda` up to `list_add`. -/
def map_cuda (c : CtrlId) (m : MemId) (x : BafsMem) (blk : BlockId) (n_dma_addrs : Nat)
    (user : Nat) (ctrl_id : Nat) (env : DmaMapEnv) : Drv (Int × Nat × Option BafsMemDma) := do
  match ← nvidia_p2p_dma_map_pages c x.cuda_page_table env.nvidia_p2p_dma_map_pages with
  | .error ret =>
    delete_dma blk c m
    pure (ret, n_dma_addrs, none)
  | .ok p =>
    let entries := match (← get).mappings.get p with
      | some mp => mp.dma_addresses
      | none => []
    let n := report_n ctrl_id n_dma_addrs entries.length
    let left ← copy_to_user env.copy_to_user user .dma_addrs entries
    if left ≠ 0 then
      emit (.nvidia_p2p_dma_unmap_pages c x.cuda_page_table p)
      delete_dma blk c m
      pure (-EFAULT, n, none)
    else
      pure (0, n, some { blk, mem := m, ctrl := c, cuda_mapping := some p, addrs := none,
                         map_gran := 0, pages := [] })

/-- `bafs_ctrl_dma_map_mem` from its `kzalloc` up to `list_add`. -/
def map_pages (c : CtrlId) (m : MemId) (n_dma_addrs user : Nat) (ctrl_id : Nat) (env : DmaMapEnv) :
    Drv (Int × Nat × Option BafsMemDma) := do
  match ← kzalloc env.kzalloc with
  | none =>
    bafs_mem_put m
    pure (-ENOMEM, n_dma_addrs, none)
  | some blk =>
    bafs_get_ctrl c
    let x ← mem_at m
    if x.loc = BAFS_MEM_CPU then
      map_cpu c m x blk n_dma_addrs user ctrl_id env
    else if x.loc = BAFS_MEM_CUDA then
      map_cuda c m x blk n_dma_addrs user ctrl_id env
    else
      delete_dma blk c m
      pure (-EINVAL, n_dma_addrs, none)

/-! ## Threads -/

/-- The steps that another thread can spoil. -/
inductive Mark where
  | plain
  /-- `list_add` of a mapping. -/
  | insert (y : BafsMemDma)
  /-- The mapping is taken back, as the request fails after it. -/
  | take_back (d : DmaId)
  | revoke (t : TableId)

/-- A request of one thread. -/
abbrev Thread := Script State Fault Mark

/-- A step that other threads do not spoil. -/
def free_step {α : Type} (c : Drv α) : Thread α := single .plain c

/-- `bafs_ctrl_dma_map_mem` -/
def dma_map_steps (c : CtrlId) (ctx : CtxId) (vaddr n_dma_addrs user : Nat) (ctrl_id : Nat)
    (env : DmaMapEnv) : Thread (Int × Nat × Option DmaId) := do
  match ← free_step (bafs_get_mem_with_ctx vaddr ctx) with
  | none => pure (-EINVAL, n_dma_addrs, none)
  | some m =>
    match ← free_step (map_pages c m n_dma_addrs user ctrl_id env) with
    | (ret, n, none) => pure (ret, n, none)
    | (ret, n, some y) =>
      let d ← single (.insert y) (publish_dma y)
      pure (ret, n, some d)

/-- `__bafs_ctrl_dma_map_mem` -/
def ctrl_dma_map_steps (argp : Nat) (params : BAFS_IOC_DMA_MAP_MEM_PARAMS) (c : CtrlId)
    (ctx : CtxId) (env : CtrlDmaMapEnv) : Thread Int :=
  if env.copy_from_user = false then
    pure (-EFAULT)
  else do
    match ← dma_map_steps c ctx params.vaddr params.n_dma_addrs.toNat params.dma_addrs 0 env.map with
    | (ret, _, none) => pure ret
    | (ret, n, some d) =>
      let left ← free_step (copy_to_user env.copy_to_user argp .params
        [params.vaddr, params.dma_addrs, n])
      if left ≠ 0 then do
        single (.take_back d) (bafs_ctrl_dma_unmap_mem d)
        pure (-EFAULT)
      else
        pure ret

/-- The loop over the controllers of a group. -/
def group_map_loop_steps (ctx : CtxId) (vaddr dma_addrs : Nat) (env : Nat → DmaMapEnv)
    (ctrls : List (CtrlId × Nat)) (acc : GroupMapAcc) : Thread (GroupMapAcc × Option Int) :=
  iterate (fun ci acc => do
    let user := u64 (dma_addrs + 8 * (acc.n_dma_addrs_per_ctrl * ci.2))
    match ← dma_map_steps ci.1 ctx vaddr acc.n_dma_addrs user ci.2 (env ci.2) with
    | (ret, n, none) => pure ({ acc with n_dma_addrs := n }, some ret)
    | (_, n, some d) =>
      pure ({ n_dma_addrs := n
              n_dma_addrs_per_ctrl := if ci.2 = 0 then n else acc.n_dma_addrs_per_ctrl
              dmas := acc.dmas ++ [d] }, none)) ctrls acc

/-- The label `out_unmap_mems`. -/
def unmap_mems_steps (dmas : List DmaId) (blk : BlockId) : Thread Unit := do
  each (fun d => single (.take_back d) (bafs_ctrl_dma_unmap_mem d)) dmas.reverse
  free_step (kfree blk)

/-- `bafs_group_dma_map_mem` -/
def group_dma_map_steps (argp : Nat) (params : BAFS_IOC_DMA_MAP_MEM_PARAMS) (g : GroupId)
    (ctx : CtxId) (env : GroupDmaMapEnv) : Thread Int :=
  if env.copy_from_user = false then
    pure (-EFAULT)
  else do
    let x ← free_step (group_at g)
    match ← free_step (kzalloc env.kzalloc) with
    | none => pure (-ENOMEM)
    | some blk =>
      match ← group_map_loop_steps ctx params.vaddr params.dma_addrs env.map x.ctrls.zipIdx
          ⟨params.n_dma_addrs.toNat, 0, []⟩ with
      | (acc, some ret) =>
        unmap_mems_steps acc.dmas blk
        pure ret
      | (acc, none) =>
        let left ← free_step (copy_to_user env.copy_to_user argp .params
          [params.vaddr, params.dma_addrs, acc.n_dma_addrs])
        if left ≠ 0 then do
          unmap_mems_steps acc.dmas blk
          pure (-EFAULT)
        else
          pure 0

/-- A request of a thread: a DMA map on a file that is open in the state `s`, the close of a VMA, or
the callback of the NVIDIA driver. -/
inductive Racer (s : State) where
  | ctrl_dma_map (f : FileId) (x : BafsCtrlCtx) (hf : s.files.get f = some (.ctrl x)) (arg : IoctlArg)
      (env : IoctlEnv)
  | group_dma_map (f : FileId) (x : BafsGroupCtx) (hf : s.files.get f = some (.group x))
      (arg : IoctlArg) (env : IoctlEnv)
  | munmap (v : VmaId)
  | revoke (t : TableId)

namespace Racer

variable {s : State}

/-- The request as one step. -/
def request : Racer s → Request
  | ctrl_dma_map f _ _ arg env => .ioctl f BAFS_CTRL_IOC_DMA_MAP_MEM arg env
  | group_dma_map f _ _ arg env => .ioctl f BAFS_GROUP_IOC_DMA_MAP_MEM arg env
  | munmap v => .munmap v
  | revoke t => .revoke t

/-- The request as a thread, with its return code. -/
def steps : Racer s → Thread Int
  | ctrl_dma_map _ x _ arg env => do
    free_step (bafs_get_ctrl x.ctrl)
    let ret ← ctrl_dma_map_steps arg.argp arg.dma_map_mem x.ctrl x.ctx env.ctrl_dma_map_mem
    free_step (bafs_ctrl_release x.ctrl)
    pure (if ret < 0 then ret else 0)
  | group_dma_map _ x _ arg env => do
    free_step (bafs_get_group x.group)
    let ret ← group_dma_map_steps arg.argp arg.dma_map_mem x.group x.ctx env.group_dma_map_mem
    free_step (bafs_put_group x.group)
    pure (if ret < 0 then ret else 0)
  | munmap v => free_step do
    let reply ← step (.munmap v)
    pure reply.ret
  | revoke t => single (.revoke t) do
    let reply ← step (.revoke t)
    pure reply.ret

end Racer

/-- The threads of a list of requests. -/
def race {s : State} (rs : List (Racer s)) : List (Thread Int) := rs.map Racer.steps

end BafsDriver
