import BafsDriver.Module.Context
import BafsDriver.Module.Ctrl

/-!
# Registered memory

`mem.c`: registration, pinning, the teardown of DMA mappings, the close of a VMA and the callback of
the NVIDIA driver.
-/

set_option linter.style.nameCheck false

namespace BafsDriver

open Prog

/-- `kref_get(&mem->ref)` -/
def mem_kref_get (m : MemId) : Drv Unit := mem_upd m fun x => { x with ref := x.ref + 1 }

/-- A write of `mem->state`. -/
def set_state (m : MemId) (st : STATE) : Drv Unit := do
  let x ← mem_at m
  modify fun s => { s with state_log := ⟨m, x.state, st⟩ :: s.state_log }
  mem_upd m fun x => { x with state := st }

/-! ## Release -/

/-- Takes the registration out of `mem_list` and `bafs_mem_xa` of its context. -/
def unlink_mem (m : MemId) (x : BafsMem) : Drv Unit :=
  ctx_upd x.ctx fun y => { y with
    mem_list := y.mem_list.erase m
    bafs_mem_xa := y.bafs_mem_xa.erase x.mem_id }

/-- The registration is given up: what still points to it dangles. -/
def drop_mem (m : MemId) : Drv Unit :=
  modify fun s => { s with mems := s.mems.free m, mem_log := m :: s.mem_log }

/-- Frees the first `n` pages of a table. -/
def free_pages (table : List PageId) (n : Nat) : Drv Unit :=
  each (fun i => match table[i]? with
    | some p => __free_page p
    | none => throw .out_of_bounds) (List.range n)

/-- What `__bafs_mem_release` does with the pages. -/
def release_pages (x : BafsMem) : Drv Unit :=
  if x.loc = BAFS_MEM_CPU then
    match x.cpu_page_table with
    | some (blk, table) => do
      free_pages table x.n_pages
      kfree blk
    | none => pure ()
  else if x.loc = BAFS_MEM_CUDA then
    match x.cuda_page_table with
    | some t =>
      if x.state ≠ .DEAD_CB then do
        nvidia_p2p_put_pages t
        nvidia_p2p_free_page_table (some t)
      else
        pure ()
    | none => pure ()
  else
    pure ()

def __bafs_mem_release (m : MemId) : Drv Unit := do
  let x ← mem_at m
  unlink_mem m x
  if x.state ≠ .STALE then do
    release_pages x
    set_state m .DEAD
  else
    pure ()
  drop_mem m
  kfree x.blk
  bafs_put_ctx x.ctx

/-- `kref_put(&mem->ref, __bafs_mem_release)` -/
def bafs_mem_put (m : MemId) : Drv Unit := do
  let x ← mem_at m
  mem_upd m fun x => { x with ref := x.ref - 1 }
  if x.ref = 1 then __bafs_mem_release m else pure ()

/-! ## Registration -/

/-- `struct BAFS_IOC_REG_MEM_PARAMS` -/
structure BAFS_IOC_REG_MEM_PARAMS where
  size : BitVec 32
  loc : BitVec 32
  handle : BitVec 32
  deriving DecidableEq

/-- How the kernel answers while memory is registered. -/
structure RegMemEnv where
  copy_from_user : Bool
  kzalloc : Bool
  xa_alloc : Option Errno
  copy_to_user : Nat

/-- The fields of a new registration. -/
def new_mem (blk : BlockId) (c : CtxId) (mem_id size loc : Nat) : BafsMem :=
  { blk, ctx := c, dma_list := [], ref := 1, mem_id, loc, state := .STALE, vaddr := 0, size,
    page_size := 0, page_shift := 0, page_mask := 0, n_pages := 0, cuda_page_table := none,
    cpu_page_table := none }

/-- Puts a new registration into `bafs_mem_xa` and at the head of `mem_list`. -/
def publish_mem (c : CtxId) (x : BafsMem) : Drv MemId := do
  let m := (← get).mems.next
  modify fun s => { s with mems := s.mems.alloc x }
  ctx_upd c fun y => { y with
    bafs_mem_xa := y.bafs_mem_xa.insert x.mem_id m
    mem_list := m :: y.mem_list }
  pure m

/-- `argp` is the address of the parameter block and `params` what it holds; the result is the
return code and what the block holds afterwards. -/
def bafs_core_reg_mem (argp : Nat) (params : BAFS_IOC_REG_MEM_PARAMS) (c : CtxId)
    (env : RegMemEnv) : Drv (Int × BAFS_IOC_REG_MEM_PARAMS) := do
  if env.copy_from_user = false then
    pure (-EFAULT, params)
  else
    match ← kzalloc env.kzalloc with
    | none => pure (-ENOMEM, params)
    | some blk =>
      ctx_kref_get c
      let y ← ctx_at c
      match xa_alloc y.bafs_mem_xa env.xa_alloc with
      | none =>
        bafs_put_ctx c
        kfree blk
        pure (-ENOMEM, params)
      | some mem_id =>
        let m ← publish_mem c (new_mem blk c mem_id params.size.toNat params.loc.toNat)
        let out := { params with handle := BitVec.ofNat 32 (mem_id + 1) }
        let left ← copy_to_user env.copy_to_user argp .params
          [out.size.toNat, out.loc.toNat, out.handle.toNat]
        if left ≠ 0 then
          let x ← mem_at m
          unlink_mem m x
          drop_mem m
          bafs_put_ctx c
          kfree blk
          pure (-EFAULT, params)
        else
          pure (0, out)

/-! ## Teardown of a DMA mapping -/

/-- The length of chunk `i` of a registration of `size` bytes cut into chunks of `map_gran` bytes,
computed in `unsigned` and `unsigned long` as in the three loops of the source. -/
def chunk_len (i map_gran size : Nat) : Nat :=
  if u32 (i * map_gran) > size then
    u32 (map_gran + 2 ^ 64 - (u32 (i * map_gran) - size))
  else
    map_gran

/-- The loop of `unmap_dma` over the addresses of a CPU mapping. It runs over the pages that the
registration has now: these may be more than when it was mapped, and then it reads on past the end of
the addresses. -/
def unmap_addrs (c : CtrlId) (addrs : List Nat) (n_pages map_gran size : Nat) : Drv Unit :=
  each (fun i => match addrs[i]? with
    | some addr => dma_unmap_single c addr (chunk_len i map_gran size)
    | none => emit (.dma_unmap_past_end c (chunk_len i map_gran size))) (List.range n_pages)

/-- What `unmap_dma` undoes of the mapping `y` of the registration `x`. -/
def undo_mapping (y : BafsMemDma) (x : BafsMem) : Drv Unit :=
  if x.loc = BAFS_MEM_CPU then
    match y.addrs with
    | some (blk, addrs) => do
      unmap_addrs y.ctrl addrs x.n_pages y.map_gran x.size
      kfree blk
    | none => pure ()
  else if x.loc = BAFS_MEM_CUDA then
    match y.cuda_mapping with
    | some p =>
      if x.state ≠ .DEAD_CB then do
        emit (.nvidia_p2p_dma_unmap_pages y.ctrl x.cuda_page_table p)
        emit (.nvidia_p2p_free_dma_mapping p)
      else
        pure ()
    | none => pure ()
  else
    pure ()

def unmap_dma (d : DmaId) : Drv Unit := do
  let y ← dma_at d
  let x ← mem_at y.mem
  mem_upd y.mem fun x => { x with dma_list := x.dma_list.erase d }
  undo_mapping y x
  modify fun s => { s with dmas := s.dmas.free d }
  kfree y.blk
  bafs_ctrl_release y.ctrl

/-! ## Callbacks -/

/-- `vm_ops->close` -/
def bafs_mem_release (vma : Vma) : Drv Unit := do
  match vma.vm_private_data with
  | none => pure ()
  | some m =>
    let x ← mem_at m
    ctx_kref_get x.ctx
    each (fun d => do
      unmap_dma d
      bafs_mem_put m) x.dma_list
    bafs_mem_put m
    bafs_put_ctx x.ctx

/-- `bafs_mem_ops.open`, which is not set. -/
def VmOps.open : VmOps → Option (Vma → Drv Unit)
  | .bafs_mem_ops => none

/-- `bafs_mem_ops.close` -/
def VmOps.close : VmOps → Option (Vma → Drv Unit)
  | .bafs_mem_ops => some bafs_mem_release

/-- The callback of the NVIDIA driver: the pages of the registration are revoked. -/
def release_bafs_cuda_mem (m : MemId) : Drv Unit := do
  let x ← mem_at m
  if x.state ≠ .DEAD then do
    each (fun d => do
      let y ← dma_at d
      match y.cuda_mapping with
      | some p =>
        emit (.nvidia_p2p_free_dma_mapping p)
        modify fun s => { s with dmas := s.dmas.set d { y with cuda_mapping := none } }
      | none => pure ()) x.dma_list
    set_state m .DEAD_CB
    nvidia_p2p_free_page_table x.cuda_page_table
    mem_upd m fun x => { x with cuda_page_table := none }
  else
    pure ()

/-! ## Pinning -/

/-- How the kernel and the NVIDIA driver answer while a registration is pinned. -/
structure PinEnv where
  kcalloc : Bool
  alloc_page : Nat → Bool
  vm_map_pages_zero : Option Errno
  nvidia_p2p_get_pages : Except Errno P2pPages
  io_remap_pfn_range : Nat → Option Errno

/-- The number of pages that hold `size` bytes. -/
def pages_for (size page_size page_shift : Nat) : Nat := u64 (size + page_size - 1) >>> page_shift

/-- `~(page_size - 1)` -/
def mask_for (page_size : Nat) : Nat := 2 ^ 64 - 1 - (page_size - 1)

/-- The loop that allocates the pages of the table: the pages so far, and a code on failure. -/
def alloc_pages (ok : Nat → Bool) (n : Nat) : Drv (List PageId × Option Int) :=
  iterate (fun i pages => do
    match ← alloc_page (ok i) with
    | some p => pure (pages ++ [p], none)
    | none => pure (pages, some (-ENOMEM))) (List.range n) []

/-- The label `out_clean_page_table`. -/
def clean_page_table (m : MemId) (blk : BlockId) (pages : List PageId) : Drv Unit := do
  each __free_page pages.reverse
  kfree blk
  mem_upd m fun x => { x with cpu_page_table := none }

def pin_bafs_cpu_mem (m : MemId) (vma : Vma) (env : PinEnv) : Drv (Vma × Int) := do
  mem_upd m fun x => { x with
    page_size := PAGE_SIZE
    page_shift := PAGE_SHIFT
    n_pages := pages_for x.size PAGE_SIZE PAGE_SHIFT
    page_mask := mask_for PAGE_SIZE }
  let x ← mem_at m
  if x.vaddr &&& x.page_mask ≠ x.vaddr then
    pure (vma, -EINVAL)
  else
    match ← kzalloc env.kcalloc with
    | none =>
      mem_upd m fun x => { x with cpu_page_table := none }
      pure (vma, -ENOMEM)
    | some blk =>
      let (pages, fail) ← alloc_pages env.alloc_page x.n_pages
      mem_upd m fun x => { x with cpu_page_table := some (blk, pages) }
      match fail with
      | some ret =>
        clean_page_table m blk pages
        pure (vma, ret)
      | none =>
        let (vma', ret) ← vm_map_pages_zero vma pages env.vm_map_pages_zero
        if ret ≠ 0 then
          clean_page_table m blk pages
          pure (vma, -ENOMEM)
        else
          pure (vma', 0)

/-- The `switch` over the page size of the NVIDIA driver: `page_size` and `page_shift`. -/
def cuda_page_size : P2pPageSize → Option (Nat × Nat)
  | .NVIDIA_P2P_PAGE_SIZE_4KB => some (4 * 1024, 12)
  | .NVIDIA_P2P_PAGE_SIZE_64KB => some (64 * 1024, 16)
  | .NVIDIA_P2P_PAGE_SIZE_128KB => some (128 * 1024, 17)
  | .other => none

/-- The length of chunk `i` in the loop that maps CUDA pages. -/
def remap_len (i page_size size : Nat) : Nat :=
  if u64 (i * page_size) > size then
    u32 (u32 page_size + 2 ^ 64 - (u64 (i * page_size) - size))
  else
    u32 page_size

/-- The loop that maps the pages of the NVIDIA page table. -/
def remap_pages (x : BafsMem) (pages : List Nat) (fail : Nat → Option Errno) (vma : Vma) :
    Drv (Vma × Option Int) :=
  iterate (fun i vma => do
    match pages[i]? with
    | none => throw .out_of_bounds
    | some phys =>
      let (vma', ret) ← io_remap_pfn_range vma (u64 (x.vaddr + u64 (i * x.page_size)))
        (phys >>> PAGE_SHIFT) (remap_len i x.page_size x.size) none (fail i)
      pure (vma', if ret ≠ 0 then some ret else none)) (List.range x.n_pages) vma

/-- The label `out_delete_page_table`. -/
def delete_page_table (m : MemId) (t : TableId) : Drv Unit := do
  nvidia_p2p_put_pages t
  mem_upd m fun x => { x with cuda_page_table := none }

def pin_bafs_cuda_mem (m : MemId) (vma : Vma) (env : PinEnv) : Drv (Vma × Int) := do
  match ← nvidia_p2p_get_pages m env.nvidia_p2p_get_pages with
  | .error e => pure (vma, e.ret)
  | .ok t =>
    mem_upd m fun x => { x with cuda_page_table := some t }
    match env.nvidia_p2p_get_pages with
    | .error e => pure (vma, e.ret)
    | .ok table =>
      if table.version_compatible = false then
        delete_page_table m t
        pure (vma, -EFAULT)
      else
        match cuda_page_size table.page_size with
        | none =>
          delete_page_table m t
          pure (vma, -EINVAL)
        | some (page_size, page_shift) =>
          mem_upd m fun x => { x with page_size, page_shift, page_mask := mask_for page_size }
          let x ← mem_at m
          if x.vaddr &&& x.page_mask ≠ x.vaddr then
            delete_page_table m t
            pure (vma, -EINVAL)
          else
            mem_upd m fun x => { x with n_pages := pages_for x.size x.page_size x.page_shift }
            let x ← mem_at m
            if x.n_pages ≠ table.physical_address.length then
              delete_page_table m t
              pure (vma, -ENOMEM)
            else
              match ← remap_pages x table.physical_address env.io_remap_pfn_range vma with
              | (_, some ret) =>
                delete_page_table m t
                pure (vma, ret)
              | (vma', none) => pure (vma', 0)

/-- The index of `pin_bafs_mem` for a page offset: the offset less one, narrowed to
`bafs_mem_hnd_t`. -/
def pin_id (vm_pgoff : Nat) : Nat := u32 (u64 (vm_pgoff + 2 ^ 64 - 1))

/-- The registration that `pin_bafs_mem` finds for a page offset. -/
def pin_lookup (y : BafsCtx) (vm_pgoff : Nat) : Option MemId :=
  y.bafs_mem_xa.lookup (pin_id vm_pgoff)

/-- The `switch` of `pin_bafs_mem` over the location. -/
def pin_by_loc (m : MemId) (loc : Nat) (vma : Vma) (env : PinEnv) : Drv (Vma × Int) :=
  if loc = BAFS_MEM_CPU then pin_bafs_cpu_mem m vma env
  else if loc = BAFS_MEM_CUDA then pin_bafs_cuda_mem m vma env
  else pure (vma, -EINVAL)

/-- Maps the registration whose handle is the page offset of the VMA; on success the VMA as the
driver leaves it. -/
def pin_bafs_mem (vma : Vma) (c : CtxId) (env : PinEnv) : Drv (Vma × Int) := do
  ctx_kref_get c
  let y ← ctx_at c
  bafs_put_ctx c
  match pin_lookup y vma.vm_pgoff with
  | none => pure (vma, -EINVAL)
  | some m =>
    mem_kref_get m
    mem_upd m fun x => { x with vaddr := vma.vm_start }
    let x ← mem_at m
    let (vma', ret) ← pin_by_loc m x.loc vma env
    if ret ≠ 0 then
      bafs_mem_put m
      pure (vma, ret)
    else
      set_state m .LIVE
      bafs_mem_put m
      pure ({ vma' with vm_ops := some .bafs_mem_ops, vm_private_data := some m }, 0)

end BafsDriver
