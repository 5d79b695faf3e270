import BafsDriver.Module.Threads
import BafsDriver.Lib.Spinlock

/-!
# Spinlocks

The functions that take `ctx->lock`, `mem->lock` or `group->lock`, as threads that other threads may
interrupt between any two of these: a lock, an unlock, an operation on a count, and what is done between
them. `bafs_put_ctx`, `bafs_ctrl_release` and `bafs_put_group` are single steps: none of them takes one
of these locks but for the last reference to a group, which an open file holds.
-/

set_option linter.style.nameCheck false

namespace BafsDriver

open Prog Script

/-- The spinlocks of the driver. -/
inductive Lock where
  | group (g : GroupId)
  | ctx (c : CtxId)
  | mem (m : MemId)
  deriving DecidableEq

/-- The order in which they nest. -/
def Lock.rank : Lock → Nat
  | group _ => 0
  | ctx _ => 1
  | mem _ => 2

/-- What a thread does wrong. -/
inductive Hazard where
  | fault (f : Fault)
  /-- A `kref_get` where the count is zero. -/
  | resurrected (m : MemId)
  /-- A `kref_put` with `ctx->lock` or `mem->lock` held that calls `__bafs_mem_release`, which takes
  both. -/
  | release_under_lock (m : MemId)
  deriving DecidableEq

/-- The steps that other threads can spoil, and those that take or give back a lock. -/
inductive LockMark where
  | plain
  | lock (l : Lock)
  | unlock (l : Lock)
  /-- `kref_get` of a registration that was found in a table. -/
  | get (m : MemId)
  /-- `kref_put` under `ctx->lock`. -/
  | put (m : MemId)
  /-- A mapping is taken back, as the request fails after it. -/
  | back (d : DmaId)
  | back_lock (d : DmaId) (m : MemId)
  /-- The registration becomes `LIVE`. -/
  | pin (m : MemId)
  /-- A registration is taken out of its context, to be freed whatever its count. -/
  | unlink (m : MemId)
  | discard (m : MemId)

/-- What the step does with the locks. -/
def LockMark.act : LockMark → LockStep Lock
  | lock l => .lock l
  | back_lock _ m => .lock (.mem m)
  | unlock l => .unlock l
  | _ => .none

/-- The state with the locks that are taken. -/
abbrev LState := Locked State Lock

/-- A call that is interrupted between its steps. -/
abbrev LThread := Script LState Hazard LockMark

/-- Code without locks. -/
def unlocked {α : Type} (c : Drv α) : Prog LState Hazard α := fun s =>
  match c s.state with
  | .ok (a, t) => .ok (a, { s with state := t })
  | .error e => .error (.fault e)

/-- The object that the lock is in. -/
def lock_at : Lock → Drv Unit
  | .group g => do
    let _ ← group_at g
    pure ()
  | .ctx c => do
    let _ ← ctx_at c
    pure ()
  | .mem m => do
    let _ ← mem_at m
    pure ()

/-- `spin_lock`. A thread that finds the lock taken waits: no schedule lets it take this step. -/
def spin_lock (me : Nat) (l : Lock) : Prog LState Hazard Unit := do
  unlocked (lock_at l)
  modify fun s => { s with taken := (l, me) :: s.taken }

def spin_unlock (me : Nat) (l : Lock) : Prog LState Hazard Unit := do
  unlocked (lock_at l)
  modify fun s => { s with taken := s.taken.erase (l, me) }

def plainly {α : Type} (c : Drv α) : LThread α := single .plain (unlocked c)

def lock (me : Nat) (l : Lock) : LThread Unit := single (.lock l) (spin_lock me l)

def unlock (me : Nat) (l : Lock) : LThread Unit := single (.unlock l) (spin_unlock me l)

/-! ## Counts -/

/-- `kref_get(&mem->ref)` -/
def mem_ref_get (m : MemId) : Prog LState Hazard Unit := do
  let x ← unlocked (mem_at m)
  if x.ref = 0 then throw (.resurrected m) else unlocked (mem_kref_get m)

/-- The decrement of `kref_put(&mem->ref, __bafs_mem_release)`: the registration, where its count has
come to zero. -/
def mem_ref_put (m : MemId) : Drv (Option BafsMem) := do
  let x ← mem_at m
  mem_upd m fun x => { x with ref := x.ref - 1 }
  pure (if x.ref = 1 then some x else none)

/-- `kref_put(&mem->ref, __bafs_mem_release)` with a lock held that the release takes. -/
def mem_put_held (m : MemId) : Prog LState Hazard Unit := do
  match ← unlocked (mem_ref_put m) with
  | none => pure ()
  | some _ => throw (.release_under_lock m)

/-- What `__bafs_mem_release` does under `mem->lock`. -/
def release_held (m : MemId) : Drv Unit := do
  let x ← mem_at m
  if x.state ≠ .STALE then do
    release_pages x
    set_state m .DEAD
  else
    pure ()

/-- `__bafs_mem_release` -/
def mem_release_steps (me : Nat) (m : MemId) (x : BafsMem) : LThread Unit := do
  lock me (.ctx x.ctx)
  plainly (unlink_mem m x)
  unlock me (.ctx x.ctx)
  lock me (.mem m)
  plainly (release_held m)
  unlock me (.mem m)
  plainly do
    drop_mem m
    kfree x.blk
  plainly (bafs_put_ctx x.ctx)

/-- `bafs_mem_put` -/
def mem_put_steps (me : Nat) (m : MemId) : LThread Unit := do
  match ← plainly (mem_ref_put m) with
  | none => pure ()
  | some x => mem_release_steps me m x

/-! ## Lookup -/

/-- The walk over `mem_list`, which no other thread changes while `ctx->lock` is held. -/
def find_mem_steps (me : Nat) (vaddr : Nat) : List MemId → LThread (Option MemId)
  | [] => pure none
  | m :: rest => do
    single (.get m) (mem_ref_get m)
    lock me (.mem m)
    let x ← plainly (mem_at m)
    unlock me (.mem m)
    if lookup_matches vaddr x then
      pure (some m)
    else do
      single (.put m) (mem_put_held m)
      find_mem_steps me vaddr rest

/-- `bafs_get_mem_with_ctx` -/
def get_mem_steps (me : Nat) (vaddr : Nat) (c : CtxId) : LThread (Option MemId) := do
  plainly (ctx_kref_get c)
  lock me (.ctx c)
  let y ← plainly (ctx_at c)
  let m ← find_mem_steps me vaddr y.mem_list
  unlock me (.ctx c)
  plainly (bafs_put_ctx c)
  pure m

/-! ## DMA mapping -/

/-- The label `out_delete_dma`, up to `out_put_mem`. -/
def undo_dma (blk : BlockId) (c : CtrlId) : Drv Unit := do
  kfree blk
  bafs_ctrl_release c

/-- `dma_map_cpu` up to `list_add`, and up to `out_put_mem`. -/
def fill_cpu (c : CtrlId) (m : MemId) (x : BafsMem) (blk : BlockId) (n_dma_addrs : Nat)
    (user : Nat) (ctrl_id : Nat) (env : DmaMapEnv) : Drv (Int × Nat × Option BafsMemDma) := do
  let map_gran := u32 x.page_size
  match ← kzalloc env.kcalloc with
  | none =>
    undo_dma blk c
    pure (-ENOMEM, n_dma_addrs, none)
  | some ablk =>
    let (mapped, fail) ← map_addrs c x map_gran env.dma_map_single
    let addrs := mapped.map (·.1)
    match fail with
    | some ret =>
      unmap_back c addrs map_gran
      undo_dma blk c
      pure (ret, n_dma_addrs, none)
    | none =>
      let n := report_n ctrl_id n_dma_addrs x.n_pages
      let left ← copy_to_user env.copy_to_user user .dma_addrs addrs
      if left ≠ 0 then
        unmap_back c addrs map_gran
        undo_dma blk c
        pure (-EFAULT, n, none)
      else
        pure (0, n, some { blk, mem := m, ctrl := c, cuda_mapping := none,
                           addrs := some (ablk, addrs), map_gran, pages := mapped.map (·.2) })

/-- `dma_map_cuda` up to `list_add`, and up to `out_put_mem`. -/
def fill_cuda (c : CtrlId) (m : MemId) (x : BafsMem) (blk : BlockId) (n_dma_addrs : Nat)
    (user : Nat) (ctrl_id : Nat) (env : DmaMapEnv) : Drv (Int × Nat × Option BafsMemDma) := do
  match ← nvidia_p2p_dma_map_pages c x.cuda_page_table env.nvidia_p2p_dma_map_pages with
  | .error ret =>
    undo_dma blk c
    pure (ret, n_dma_addrs, none)
  | .ok p =>
    let entries := match (← get).mappings.get p with
      | some mp => mp.dma_addresses
      | none => []
    let n := report_n ctrl_id n_dma_addrs entries.length
    let left ← copy_to_user env.copy_to_user user .dma_addrs entries
    if left ≠ 0 then
      emit (.nvidia_p2p_dma_unmap_pages c x.cuda_page_table p)
      undo_dma blk c
      pure (-EFAULT, n, none)
    else
      pure (0, n, some { blk, mem := m, ctrl := c, cuda_mapping := some p, addrs := none,
                         map_gran := 0, pages := [] })

/-- `bafs_ctrl_dma_map_mem` from its `kzalloc` up to `list_add`, and up to `out_put_mem`. -/
def fill_dma (c : CtrlId) (m : MemId) (n_dma_addrs user : Nat) (ctrl_id : Nat) (env : DmaMapEnv) :
    Drv (Int × Nat × Option BafsMemDma) := do
  match ← kzalloc env.kzalloc with
  | none => pure (-ENOMEM, n_dma_addrs, none)
  | some blk =>
    bafs_get_ctrl c
    let x ← mem_at m
    if x.loc = BAFS_MEM_CPU then
      fill_cpu c m x blk n_dma_addrs user ctrl_id env
    else if x.loc = BAFS_MEM_CUDA then
      fill_cuda c m x blk n_dma_addrs user ctrl_id env
    else
      undo_dma blk c
      pure (-EINVAL, n_dma_addrs, none)

/-- `bafs_ctrl_dma_map_mem` -/
def dma_map_locks (me : Nat) (c : CtrlId) (ctx : CtxId) (vaddr n_dma_addrs user : Nat)
    (ctrl_id : Nat) (env : DmaMapEnv) : LThread (Int × Nat × Option DmaId) := do
  match ← get_mem_steps me vaddr ctx with
  | none => pure (-EINVAL, n_dma_addrs, none)
  | some m =>
    match ← plainly (fill_dma c m n_dma_addrs user ctrl_id env) with
    | (ret, n, none) =>
      mem_put_steps me m
      pure (ret, n, none)
    | (ret, n, some y) =>
      lock me (.mem m)
      let d ← plainly (publish_dma y)
      unlock me (.mem m)
      pure (ret, n, some d)

/-- `bafs_ctrl_dma_unmap_mem` -/
def dma_unmap_locks (me : Nat) (d : DmaId) : LThread Unit := do
  let y ← single (.back d) (unlocked (dma_at d))
  single (.back_lock d y.mem) (spin_lock me (.mem y.mem))
  single (.back d) (unlocked (unmap_dma d))
  unlock me (.mem y.mem)
  mem_put_steps me y.mem

/-- `__bafs_ctrl_dma_map_mem` -/
def ctrl_dma_map_locks (me : Nat) (argp : Nat) (params : BAFS_IOC_DMA_MAP_MEM_PARAMS) (c : CtrlId)
    (ctx : CtxId) (env : CtrlDmaMapEnv) : LThread Int :=
  if env.copy_from_user = false then
    pure (-EFAULT)
  else do
    match ← dma_map_locks me c ctx params.vaddr params.n_dma_addrs.toNat params.dma_addrs 0
        env.map with
    | (ret, _, none) => pure ret
    | (ret, n, some d) =>
      let left ← plainly (copy_to_user env.copy_to_user argp .params
        [params.vaddr, params.dma_addrs, n])
      if left ≠ 0 then do
        dma_unmap_locks me d
        pure (-EFAULT)
      else
        pure ret

/-- The loop over the controllers of a group. -/
def group_map_loop_locks (me : Nat) (ctx : CtxId) (vaddr dma_addrs : Nat) (env : Nat → DmaMapEnv)
    (ctrls : List (CtrlId × Nat)) (acc : GroupMapAcc) : LThread (GroupMapAcc × Option Int) :=
  iterate (fun ci acc => do
    let user := u64 (dma_addrs + 8 * (acc.n_dma_addrs_per_ctrl * ci.2))
    match ← dma_map_locks me ci.1 ctx vaddr acc.n_dma_addrs user ci.2 (env ci.2) with
    | (ret, n, none) => pure ({ acc with n_dma_addrs := n }, some ret)
    | (_, n, some d) =>
      pure ({ n_dma_addrs := n
              n_dma_addrs_per_ctrl := if ci.2 = 0 then n else acc.n_dma_addrs_per_ctrl
              dmas := acc.dmas ++ [d] }, none)) ctrls acc

/-- The label `out_unmap_mems`. -/
def unmap_mems_locks (me : Nat) (dmas : List DmaId) (blk : BlockId) : LThread Unit := do
  each (dma_unmap_locks me) dmas.reverse
  plainly (kfree blk)

/-- `bafs_group_dma_map_mem` -/
def group_dma_map_locks (me : Nat) (argp : Nat) (params : BAFS_IOC_DMA_MAP_MEM_PARAMS) (g : GroupId)
    (ctx : CtxId) (env : GroupDmaMapEnv) : LThread Int :=
  if env.copy_from_user = false then
    pure (-EFAULT)
  else do
    lock me (.group g)
    let x ← plainly (group_at g)
    match ← plainly (kzalloc env.kzalloc) with
    | none =>
      unlock me (.group g)
      pure (-ENOMEM)
    | some blk =>
      match ← group_map_loop_locks me ctx params.vaddr params.dma_addrs env.map x.ctrls.zipIdx
          ⟨params.n_dma_addrs.toNat, 0, []⟩ with
      | (acc, some ret) =>
        unmap_mems_locks me acc.dmas blk
        unlock me (.group g)
        pure ret
      | (acc, none) =>
        let left ← plainly (copy_to_user env.copy_to_user argp .params
          [params.vaddr, params.dma_addrs, acc.n_dma_addrs])
        if left ≠ 0 then do
          unmap_mems_locks me acc.dmas blk
          unlock me (.group g)
          pure (-EFAULT)
        else do
          unlock me (.group g)
          pure 0

/-! ## The close of a VMA -/

/-- What `bafs_mem_release` does first: the context of the registration, which it holds. -/
def hold_ctx (m : MemId) : Drv CtxId := do
  let x ← mem_at m
  ctx_kref_get x.ctx
  pure x.ctx

/-- `bafs_mem_release`. No other thread changes `dma_list` while `mem->lock` is held. -/
def mem_close_locks (me : Nat) (vma : Vma) : LThread Unit := do
  match vma.vm_private_data with
  | none => pure ()
  | some m =>
    let c ← plainly (hold_ctx m)
    lock me (.mem m)
    let x ← plainly (mem_at m)
    each (fun d => do
      plainly (unmap_dma d)
      single .plain (mem_put_held m)) x.dma_list
    unlock me (.mem m)
    mem_put_steps me m
    plainly (bafs_put_ctx c)

/-- The VMA is taken out of its address space. -/
def take_vma (v : VmaId) : Drv (Option Vma) := do
  match (← get).vmas.get v with
  | none => pure none
  | some w =>
    modify fun s => { s with vmas := s.vmas.free v }
    pure (some w)

/-- A munmap of the whole VMA. -/
def munmap_locks (me : Nat) (v : VmaId) : LThread Int := do
  match ← plainly (take_vma v) with
  | none => pure (-EINVAL)
  | some w =>
    match w.vm_ops with
    | none => pure 0
    | some .bafs_mem_ops =>
      mem_close_locks me w
      pure 0

/-! ## Pinning -/

/-- What `pin_bafs_mem` does under `mem->lock`, up to `LIVE`. -/
def pin_held (m : MemId) (vma : Vma) (env : PinEnv) : Drv (Vma × Int) := do
  mem_upd m fun x => { x with vaddr := vma.vm_start }
  let x ← mem_at m
  pin_by_loc m x.loc vma env

/-- `pin_bafs_mem` -/
def pin_locks (me : Nat) (vma : Vma) (c : CtxId) (env : PinEnv) : LThread (Vma × Int) := do
  plainly (ctx_kref_get c)
  lock me (.ctx c)
  let y ← plainly (ctx_at c)
  unlock me (.ctx c)
  plainly (bafs_put_ctx c)
  match pin_lookup y vma.vm_pgoff with
  | none => pure (vma, -EINVAL)
  | some m =>
    single (.get m) (mem_ref_get m)
    lock me (.mem m)
    let (vma', ret) ← plainly (pin_held m vma env)
    if ret ≠ 0 then do
      unlock me (.mem m)
      mem_put_steps me m
      pure (vma, ret)
    else do
      single (.pin m) (unlocked (set_state m .LIVE))
      unlock me (.mem m)
      mem_put_steps me m
      pure ({ vma' with vm_ops := some .bafs_mem_ops, vm_private_data := some m }, 0)

/-- The return code of the mmap function of a file that has pinned memory. -/
def File.mmap_ret (ret : Int) : File → Int
  | .group _ => if ret < 0 then ret else 0
  | _ => ret

/-- An mmap of registered memory, which gives the VMA to the address space at the end. -/
def mmap_locks (me : Nat) (x : File) (mm vm_start vm_end vm_pgoff : Nat) (env : PinEnv) :
    LThread Int := do
  let free ← plainly do
    let s ← get
    pure (decide (range_free s mm vm_start vm_end))
  if free then do
    let (vma, ret) ← pin_locks me (new_vma mm vm_start vm_end vm_pgoff) x.ctx env
    if x.mmap_ret ret < 0 then
      pure (x.mmap_ret ret)
    else do
      plainly (modify fun s => { s with vmas := s.vmas.alloc vma })
      pure (x.mmap_ret ret)
  else
    pure (-EINVAL)

/-! ## Registration -/

/-- What `bafs_core_reg_mem` does under `ctx->lock`: the registration and its `mem_id`. -/
def reg_held (blk : BlockId) (c : CtxId) (params : BAFS_IOC_REG_MEM_PARAMS) (env : RegMemEnv) :
    Drv (Option (MemId × Nat)) := do
  let y ← ctx_at c
  match xa_alloc y.bafs_mem_xa env.xa_alloc with
  | none => pure none
  | some mem_id =>
    let m ← publish_mem c (new_mem blk c mem_id params.size.toNat params.loc.toNat)
    pure (some (m, mem_id))

/-- `bafs_core_reg_mem` -/
def reg_mem_locks (me : Nat) (argp : Nat) (params : BAFS_IOC_REG_MEM_PARAMS) (c : CtxId)
    (env : RegMemEnv) : LThread (Int × BAFS_IOC_REG_MEM_PARAMS) :=
  if env.copy_from_user = false then
    pure (-EFAULT, params)
  else do
    match ← plainly (kzalloc env.kzalloc) with
    | none => pure (-ENOMEM, params)
    | some blk =>
      plainly (ctx_kref_get c)
      lock me (.ctx c)
      match ← plainly (reg_held blk c params env) with
      | none =>
        unlock me (.ctx c)
        plainly do
          bafs_put_ctx c
          kfree blk
        pure (-ENOMEM, params)
      | some (m, mem_id) =>
        unlock me (.ctx c)
        let out := { params with handle := BitVec.ofNat 32 (mem_id + 1) }
        let left ← plainly (copy_to_user env.copy_to_user argp .params
          [out.size.toNat, out.loc.toNat, out.handle.toNat])
        if left ≠ 0 then do
          lock me (.ctx c)
          single (.unlink m) (unlocked do
            let x ← mem_at m
            unlink_mem m x)
          unlock me (.ctx c)
          single (.discard m) (unlocked do
            drop_mem m
            bafs_put_ctx c
            kfree blk)
          pure (-EFAULT, params)
        else
          pure (0, out)

/-- The registration ioctl of a file. -/
def reg_ioctl_locks (me : Nat) (x : File) (arg : IoctlArg) (env : RegMemEnv) : LThread Int := do
  match x with
  | .core c =>
    let (ret, _) ← reg_mem_locks me arg.argp arg.reg_mem c env
    pure (if ret < 0 then ret else 0)
  | .ctrl y =>
    plainly (bafs_get_ctrl y.ctrl)
    let (ret, _) ← reg_mem_locks me arg.argp arg.reg_mem y.ctx env
    if ret < 0 then
      pure ret
    else do
      plainly (bafs_ctrl_release y.ctrl)
      pure 0
  | .group y =>
    plainly (bafs_get_group y.group)
    let (ret, _) ← reg_mem_locks me arg.argp arg.reg_mem y.ctx env
    if ret < 0 then
      pure ret
    else do
      plainly (bafs_put_group y.group)
      pure 0

/-! ## The close of a file -/

/-- `sweep_stale`, which holds `ctx->lock` while it walks. -/
def sweep_locks (me : Nat) (c : CtxId) : LThread Unit := do
  lock me (.ctx c)
  let y ← plainly (ctx_at c)
  each (fun m => do
    lock me (.mem m)
    let x ← plainly (mem_at m)
    if x.state = .STALE then do
      single (.unlink m) (unlocked (unlink_mem m x))
      unlock me (.mem m)
      single (.discard m) (unlocked do
        drop_mem m
        kfree x.blk)
      plainly (bafs_put_ctx c)
    else
      unlock me (.mem m)) y.mem_list
  unlock me (.ctx c)

/-- The file is taken out of the table of its process. -/
def take_file (f : FileId) : Drv (Option File) := do
  match (← get).files.get f with
  | none => pure none
  | some x =>
    modify fun s => { s with files := s.files.free f }
    pure (some x)

/-- The rest of the release function of a file, after its context has been put. -/
def release_file_rest : File → Drv Unit
  | .core _ => pure ()
  | .ctrl x => do
    bafs_ctrl_release x.ctrl
    kfree x.blk
  | .group x => do
    bafs_put_group x.group
    kfree x.blk

/-- `bafs_core_release`, `bafs_ctrl_file_release` and `bafs_group_release` -/
def close_locks (me : Nat) (f : FileId) : LThread Int := do
  match ← plainly (take_file f) with
  | none => pure (-EBADF)
  | some x =>
    sweep_locks me x.ctx
    plainly (bafs_put_ctx x.ctx)
    plainly (release_file_rest x)
    pure 0

/-! ## Calls -/

/-- The command of the registration ioctl of a file. -/
def File.reg_cmd : File → Nat
  | .core _ => BAFS_CORE_IOC_REG_MEM
  | .ctrl _ => BAFS_CTRL_IOC_REG_MEM
  | .group _ => BAFS_GROUP_IOC_REG_MEM

/-- A call of a thread that takes locks, on a file that is open in the state `s`, on a VMA or on a
file to be closed. -/
inductive Call (s : State) where
  | reg_mem (f : FileId) (x : File) (hf : s.files.get f = some x) (arg : IoctlArg) (env : IoctlEnv)
  | ctrl_dma_map (f : FileId) (x : BafsCtrlCtx) (hf : s.files.get f = some (.ctrl x)) (arg : IoctlArg)
      (env : IoctlEnv)
  | group_dma_map (f : FileId) (x : BafsGroupCtx) (hf : s.files.get f = some (.group x))
      (arg : IoctlArg) (env : IoctlEnv)
  /-- An mmap at a page offset that is not 0, the one of the BAR. -/
  | mmap (f : FileId) (x : File) (hf : s.files.get f = some x) (mm vm_start vm_end vm_pgoff : Nat)
      (hoff : vm_pgoff ≠ 0) (env : MmapEnv)
  | munmap (v : VmaId)
  | close (f : FileId)

namespace Call

variable {s : State}

/-- The call as one step. -/
def request : Call s → Request
  | reg_mem f x _ arg env => .ioctl f x.reg_cmd arg env
  | ctrl_dma_map f _ _ arg env => .ioctl f BAFS_CTRL_IOC_DMA_MAP_MEM arg env
  | group_dma_map f _ _ arg env => .ioctl f BAFS_GROUP_IOC_DMA_MAP_MEM arg env
  | mmap f _ _ mm vm_start vm_end vm_pgoff _ env => .mmap f mm vm_start vm_end vm_pgoff env
  | munmap v => .munmap v
  | close f => .close f

/-- The call as the thread `me`, with its return code. -/
def steps (me : Nat) : Call s → LThread Int
  | reg_mem _ x _ arg env => reg_ioctl_locks me x arg env.reg_mem
  | ctrl_dma_map _ x _ arg env => do
    plainly (bafs_get_ctrl x.ctrl)
    let ret ← ctrl_dma_map_locks me arg.argp arg.dma_map_mem x.ctrl x.ctx env.ctrl_dma_map_mem
    plainly (bafs_ctrl_release x.ctrl)
    pure (if ret < 0 then ret else 0)
  | group_dma_map _ x _ arg env => do
    plainly (bafs_get_group x.group)
    let ret ← group_dma_map_locks me arg.argp arg.dma_map_mem x.group x.ctx env.group_dma_map_mem
    plainly (bafs_put_group x.group)
    pure (if ret < 0 then ret else 0)
  | mmap _ x _ mm vm_start vm_end vm_pgoff _ env =>
    mmap_locks me x mm vm_start vm_end vm_pgoff env.pin
  | munmap v => munmap_locks me v
  | close f => close_locks me f

/-- The file that the call works on. -/
def uses : Call s → Option FileId
  | reg_mem f .. | ctrl_dma_map f .. | group_dma_map f .. | mmap f .. => some f
  | munmap _ | close _ => none

/-- The file that the call closes. -/
def closes : Call s → Option FileId
  | close f => some f
  | _ => none

end Call

/-- The threads of a list of calls. -/
def call_threads {s : State} (cs : List (Call s)) : List (LThread Int) :=
  cs.zipIdx.map fun c => c.1.steps c.2

/-- The lock is free. -/
def spins : LockMark → LState → Prop
  | p, s => ∀ l, p.act = .lock l → ∀ i, (l, i) ∉ s.taken

end BafsDriver
