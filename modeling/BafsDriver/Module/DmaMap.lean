import BafsDriver.Module.Mem

/-!
# DMA mapping

The lookup of a registration by address (`core.c`) and the mapping of its pages for one controller
(`ctrl.c`).
-/

set_option linter.style.nameCheck false

namespace BafsDriver

open Prog

/-- The test of the lookup. -/
def lookup_matches (vaddr : Nat) (x : BafsMem) : Prop :=
  x.vaddr = vaddr ∧ x.state ≠ .DEAD ∧ x.state ≠ .DEAD_CB

instance (vaddr : Nat) (x : BafsMem) : Decidable (lookup_matches vaddr x) :=
  inferInstanceAs (Decidable (_ ∧ _ ∧ _))

/-- The walk of the lookup over `mem_list`: the registration found keeps the reference taken. -/
def find_mem (vaddr : Nat) : List MemId → Drv (Option MemId)
  | [] => pure none
  | m :: rest => do
    mem_kref_get m
    let x ← mem_at m
    if lookup_matches vaddr x then
      pure (some m)
    else
      bafs_mem_put m
      find_mem vaddr rest

def bafs_get_mem_with_ctx (vaddr : Nat) (c : CtxId) : Drv (Option MemId) := do
  ctx_kref_get c
  let y ← ctx_at c
  let m ← find_mem vaddr y.mem_list
  bafs_put_ctx c
  pure m

/-- How the kernel and the NVIDIA driver answer while a registration is mapped for a controller. -/
structure DmaMapEnv where
  kzalloc : Bool
  kcalloc : Bool
  dma_map_single : Nat → Option Nat
  nvidia_p2p_dma_map_pages : Except Errno (List Nat)
  copy_to_user : Nat

/-- One `dma_map_single`: the bus address, unless `dma_mapping_error`. -/
def dma_map_single (c : CtrlId) (p : PageId) (len : Nat) (answer : Option Nat) :
    Drv (Option Nat) := do
  match answer with
  | none => pure none
  | some addr =>
    emit (.dma_map_single c p addr len)
    pure (some addr)

/-- The loop that maps the pages of a CPU registration: the addresses so far, each with its page, and a
code on failure. -/
def map_addrs (c : CtrlId) (x : BafsMem) (map_gran : Nat) (answer : Nat → Option Nat) :
    Drv (List (Nat × PageId) × Option Int) :=
  iterate (fun i addrs => do
    match x.cpu_page_table with
    | none => throw .null_page_table
    | some (_, table) =>
      match table[i]? with
      | none => throw .out_of_bounds
      | some p =>
        match ← dma_map_single c p (chunk_len i map_gran x.size) (answer i) with
        | some addr => pure (addrs ++ [(addr, p)], none)
        | none => pure (addrs, some (-EFAULT))) (List.range x.n_pages) []

/-- The part of the label `out_unmap` for CPU memory. -/
def unmap_back (c : CtrlId) (addrs : List Nat) (map_gran : Nat) : Drv Unit :=
  each (fun addr => dma_unmap_single c addr map_gran) addrs.reverse

/-- The count reported to the user: set by the first controller, increased by the others. -/
def report_n (ctrl_id n_dma_addrs entries : Nat) : Nat :=
  if ctrl_id = 0 then u32 entries else u32 (n_dma_addrs + entries)

/-- `list_add(&dma->dma_list, &mem->dma_list)` of a filled `bafs_mem_dma`. -/
def publish_dma (y : BafsMemDma) : Drv DmaId := do
  let d := (← get).dmas.next
  modify fun s => { s with dmas := s.dmas.alloc y }
  mem_upd y.mem fun x => { x with dma_list := d :: x.dma_list }
  pure d

/-- The labels `out_delete_dma` and `out_put_mem`. -/
def delete_dma (blk : BlockId) (c : CtrlId) (m : MemId) : Drv Unit := do
  kfree blk
  bafs_ctrl_release c
  bafs_mem_put m

/-- The `BAFS_MEM_CPU` case. The result is the return code, the count and the new object. -/
def dma_map_cpu (c : CtrlId) (m : MemId) (x : BafsMem) (blk : BlockId) (n_dma_addrs : Nat)
    (user : Nat) (ctrl_id : Nat) (env : DmaMapEnv) : Drv (Int × Nat × Option DmaId) := do
  let map_gran := u32 x.page_size
  match ← kzalloc env.kcalloc with
  | none =>
    delete_dma blk c m
    pure (-ENOMEM, n_dma_addrs, none)
  | some ablk =>
    let (mapped, fail) ← map_addrs c x map_gran env.dma_map_single
    let addrs := mapped.map (·.1)
    match fail with
    | some ret =>
      unmap_back c addrs map_gran
      delete_dma blk c m
      pure (ret, n_dma_addrs, none)
    | none =>
      let n := report_n ctrl_id n_dma_addrs x.n_pages
      let left ← copy_to_user env.copy_to_user user .dma_addrs addrs
      if left ≠ 0 then
        unmap_back c addrs map_gran
        delete_dma blk c m
        pure (-EFAULT, n, none)
      else
        let d ← publish_dma { blk, mem := m, ctrl := c, cuda_mapping := none,
                              addrs := some (ablk, addrs), map_gran, pages := mapped.map (·.2) }
        pure (0, n, some d)

/-- The `BAFS_MEM_CUDA` case. -/
def dma_map_cuda (c : CtrlId) (m : MemId) (x : BafsMem) (blk : BlockId) (n_dma_addrs : Nat)
    (user : Nat) (ctrl_id : Nat) (env : DmaMapEnv) : Drv (Int × Nat × Option DmaId) := do
  match ← nvidia_p2p_dma_map_pages c x.cuda_page_table env.nvidia_p2p_dma_map_pages with
  | .error ret =>
    delete_dma blk c m
    pure (ret, n_dma_addrs, none)
  | .ok p =>
    let entries := match (← get).mappings.get p with
      | some mp => mp.dma_addresses
      | none => []
    let n := report_n ctrl_id n_dma_addrs entries.length
    let left ← copy_to_user env.copy_to_user user .dma_addrs entries
    if left ≠ 0 then
      emit (.nvidia_p2p_dma_unmap_pages c x.cuda_page_table p)
      delete_dma blk c m
      pure (-EFAULT, n, none)
    else
      let d ← publish_dma { blk, mem := m, ctrl := c, cuda_mapping := some p, addrs := none,
                            map_gran := 0, pages := [] }
      pure (0, n, some d)

/-- Maps the registration at `vaddr` for the controller `c`: the return code, the count
`*n_dma_addrs` and the new `bafs_mem_dma`. -/
def bafs_ctrl_dma_map_mem (c : CtrlId) (ctx : CtxId) (vaddr n_dma_addrs user : Nat)
    (ctrl_id : Nat) (env : DmaMapEnv) : Drv (Int × Nat × Option DmaId) := do
  match ← bafs_get_mem_with_ctx vaddr ctx with
  | none => pure (-EINVAL, n_dma_addrs, none)
  | some m =>
    match ← kzalloc env.kzalloc with
    | none =>
      bafs_mem_put m
      pure (-ENOMEM, n_dma_addrs, none)
    | some blk =>
      bafs_get_ctrl c
      let x ← mem_at m
      if x.loc = BAFS_MEM_CPU then
        dma_map_cpu c m x blk n_dma_addrs user ctrl_id env
      else if x.loc = BAFS_MEM_CUDA then
        dma_map_cuda c m x blk n_dma_addrs user ctrl_id env
      else
        delete_dma blk c m
        pure (-EINVAL, n_dma_addrs, none)

def bafs_ctrl_dma_unmap_mem (d : DmaId) : Drv Unit := do
  let y ← dma_at d
  unmap_dma d
  bafs_mem_put y.mem

/-- `struct BAFS_IOC_DMA_MAP_MEM_PARAMS` -/
structure BAFS_IOC_DMA_MAP_MEM_PARAMS where
  vaddr : Nat
  dma_addrs : Nat
  n_dma_addrs : BitVec 32
  deriving DecidableEq

/-- How the kernel answers during a DMA-map request of a ctrl file. -/
structure CtrlDmaMapEnv where
  copy_from_user : Bool
  map : DmaMapEnv
  copy_to_user : Nat

def __bafs_ctrl_dma_map_mem (argp : Nat) (params : BAFS_IOC_DMA_MAP_MEM_PARAMS) (c : CtrlId)
    (ctx : CtxId) (env : CtrlDmaMapEnv) : Drv Int := do
  if env.copy_from_user = false then
    pure (-EFAULT)
  else
    match ← bafs_ctrl_dma_map_mem c ctx params.vaddr params.n_dma_addrs.toNat params.dma_addrs 0
        env.map with
    | (ret, _, none) => pure ret
    | (ret, n, some d) =>
      let left ← copy_to_user env.copy_to_user argp .params [params.vaddr, params.dma_addrs, n]
      if left ≠ 0 then
        bafs_ctrl_dma_unmap_mem d
        pure (-EFAULT)
      else
        pure ret

end BafsDriver
