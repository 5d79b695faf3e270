import BafsDriver.Module.Threads
import BafsDriver.Proofs.StackBytes

/-!
# Threads that are not interrupted

A thread that is not interrupted does what its request does as one step.
-/

set_option linter.style.nameCheck false

namespace BafsDriver

open Prog Script

/-- A mapping is filled and then inserted, where it is not refused. -/
def then_publish (c : Drv (Int × Nat × Option BafsMemDma)) : Drv (Int × Nat × Option DmaId) := do
  match ← c with
  | (ret, n, none) => pure (ret, n, none)
  | (ret, n, some y) =>
    let d ← publish_dma y
    pure (ret, n, some d)

@[simp] theorem then_publish_none (ret : Int) (n : Nat) :
    then_publish (pure (ret, n, none)) = pure (ret, n, none) := rfl

@[simp] theorem then_publish_some (ret : Int) (n : Nat) (y : BafsMemDma) :
    then_publish (pure (ret, n, some y)) = (do
      let d ← publish_dma y
      pure (ret, n, some d)) := rfl

@[simp] theorem then_publish_bind {α : Type} (c : Drv α) (k : α → Drv (Int × Nat × Option BafsMemDma)) :
    then_publish (c >>= k) = c >>= fun a => then_publish (k a) := by
  unfold then_publish
  rw [bind_assoc]

@[simp] theorem then_publish_ite {b : Prop} [Decidable b] (c c' : Drv (Int × Nat × Option BafsMemDma)) :
    then_publish (if b then c else c') = if b then then_publish c else then_publish c' := by
  by_cases hb : b
  · rw [if_pos hb, if_pos hb]
  · rw [if_neg hb, if_neg hb]

theorem dma_map_cpu_eq (c : CtrlId) (m : MemId) (x : BafsMem) (blk : BlockId)
    (n_dma_addrs user ctrl_id : Nat) (env : DmaMapEnv) :
    dma_map_cpu c m x blk n_dma_addrs user ctrl_id env =
      then_publish (map_cpu c m x blk n_dma_addrs user ctrl_id env) := by
  unfold dma_map_cpu map_cpu
  rw [then_publish_bind]
  refine bind_congr fun b => ?_
  cases b with
  | none => simp only [then_publish_bind, then_publish_none]
  | some ablk =>
    dsimp only
    rw [then_publish_bind]
    refine bind_congr fun r => ?_
    obtain ⟨mapped, fail⟩ := r
    cases fail with
    | some ret => simp only [then_publish_bind, then_publish_none]
    | none => simp only [then_publish_bind, then_publish_none, then_publish_some, then_publish_ite]

theorem dma_map_cuda_eq (c : CtrlId) (m : MemId) (x : BafsMem) (blk : BlockId)
    (n_dma_addrs user ctrl_id : Nat) (env : DmaMapEnv) :
    dma_map_cuda c m x blk n_dma_addrs user ctrl_id env =
      then_publish (map_cuda c m x blk n_dma_addrs user ctrl_id env) := by
  unfold dma_map_cuda map_cuda
  rw [then_publish_bind]
  refine bind_congr fun r => ?_
  cases r with
  | error ret => simp only [then_publish_bind, then_publish_none]
  | ok p =>
    rw [then_publish_bind]
    refine bind_congr fun s => ?_
    rw [then_publish_bind]
    refine bind_congr fun left => ?_
    rw [then_publish_ite]
    refine ite_congr rfl (fun _ => ?_) fun _ => ?_
    · rw [then_publish_bind]
      refine bind_congr fun _ => ?_
      rw [then_publish_bind]
      exact bind_congr fun _ => (then_publish_none _ _).symm
    · exact (then_publish_some _ _ _).symm

theorem dma_map_steps_whole (c : CtrlId) (ctx : CtxId) (vaddr n_dma_addrs user ctrl_id : Nat)
    (env : DmaMapEnv) : (dma_map_steps c ctx vaddr n_dma_addrs user ctrl_id env).whole =
      bafs_ctrl_dma_map_mem c ctx vaddr n_dma_addrs user ctrl_id env := by
  unfold dma_map_steps bafs_ctrl_dma_map_mem free_step
  rw [whole_bind, whole_single]
  refine bind_congr fun r => ?_
  cases r with
  | none => rfl
  | some m =>
    dsimp only
    rw [whole_bind, whole_single]
    -- the pages are mapped, and then the mapping is inserted
    refine Eq.trans (b := then_publish (map_pages c m n_dma_addrs user ctrl_id env)) ?_ ?_
    · refine bind_congr fun r => ?_
      obtain ⟨ret, n, y⟩ := r
      cases y with
      | none => rfl
      | some y =>
        dsimp only
        rw [whole_bind, whole_single]
        rfl
    · unfold map_pages
      rw [then_publish_bind]
      refine bind_congr fun b => ?_
      cases b with
      | none => simp only [then_publish_bind, then_publish_none]
      | some blk =>
        simp only [then_publish_bind, then_publish_none, then_publish_ite, dma_map_cpu_eq,
          dma_map_cuda_eq]

theorem ctrl_dma_map_steps_whole (argp : Nat) (params : BAFS_IOC_DMA_MAP_MEM_PARAMS) (c : CtrlId)
    (ctx : CtxId) (env : CtrlDmaMapEnv) : (ctrl_dma_map_steps argp params c ctx env).whole =
      __bafs_ctrl_dma_map_mem argp params c ctx env := by
  unfold ctrl_dma_map_steps __bafs_ctrl_dma_map_mem
  rw [whole_ite]
  by_cases hc : env.copy_from_user = false
  · rw [if_pos hc, if_pos hc]
    rfl
  rw [if_neg hc, if_neg hc, whole_bind, dma_map_steps_whole]
  refine bind_congr fun r => ?_
  obtain ⟨ret, n, d⟩ := r
  cases d with
  | none => rfl
  | some d =>
    dsimp only
    unfold free_step
    rw [whole_bind, whole_single]
    refine bind_congr fun left => ?_
    rw [whole_ite, whole_bind, whole_single]
    rfl

theorem group_map_loop_steps_whole (ctx : CtxId) (vaddr dma_addrs : Nat) (env : Nat → DmaMapEnv)
    (ctrls : List (CtrlId × Nat)) (acc : GroupMapAcc) :
    (group_map_loop_steps ctx vaddr dma_addrs env ctrls acc).whole =
      group_map_loop ctx vaddr dma_addrs env ctrls acc := by
  refine whole_iterate (fun ci acc => ?_) ctrls acc
  rw [whole_bind, dma_map_steps_whole]
  refine bind_congr fun r => ?_
  obtain ⟨ret, n, d⟩ := r
  cases d with
  | none => rfl
  | some d => rfl

theorem unmap_mems_steps_whole (dmas : List DmaId) (blk : BlockId) :
    (unmap_mems_steps dmas blk).whole = unmap_mems dmas blk := by
  unfold unmap_mems_steps unmap_mems free_step
  rw [whole_bind, whole_single, whole_each fun d => whole_single (Mark.take_back d) (bafs_ctrl_dma_unmap_mem d)]

theorem group_dma_map_steps_whole (argp : Nat) (params : BAFS_IOC_DMA_MAP_MEM_PARAMS) (g : GroupId)
    (ctx : CtxId) (env : GroupDmaMapEnv) : (group_dma_map_steps argp params g ctx env).whole =
      bafs_group_dma_map_mem argp params g ctx env := by
  unfold group_dma_map_steps bafs_group_dma_map_mem free_step
  rw [whole_ite]
  by_cases hc : env.copy_from_user = false
  · rw [if_pos hc, if_pos hc]
    rfl
  rw [if_neg hc, if_neg hc, whole_bind, whole_single]
  refine bind_congr fun x => ?_
  rw [whole_bind, whole_single]
  refine bind_congr fun b => ?_
  cases b with
  | none => rfl
  | some blk =>
    dsimp only
    rw [whole_bind, group_map_loop_steps_whole]
    refine bind_congr fun r => ?_
    obtain ⟨acc, ret⟩ := r
    cases ret with
    | some ret =>
      dsimp only
      rw [whole_bind, unmap_mems_steps_whole]
      rfl
    | none =>
      dsimp only
      rw [whole_bind, whole_single]
      refine bind_congr fun left => ?_
      rw [whole_ite, whole_bind, unmap_mems_steps_whole]
      rfl

/-- The DMA-map request on a ctrl file. -/
theorem bafs_ctrl_ioctl_dma_map (x : BafsCtrlCtx) (arg : IoctlArg) (env : IoctlEnv) :
    bafs_ctrl_ioctl x BAFS_CTRL_IOC_DMA_MAP_MEM arg env = (do
      bafs_get_ctrl x.ctrl
      let ret ← __bafs_ctrl_dma_map_mem arg.argp arg.dma_map_mem x.ctrl x.ctx env.ctrl_dma_map_mem
      bafs_ctrl_release x.ctrl
      if ret < 0 then pure (.code ret) else pure (.code 0)) := by
  unfold bafs_ctrl_ioctl
  refine bind_congr fun _ => ?_
  rw [if_neg (by decide), if_neg (by decide), if_pos rfl]

/-- The DMA-map request on a group file. -/
theorem bafs_group_ioctl_dma_map (x : BafsGroupCtx) (arg : IoctlArg) (env : IoctlEnv) :
    bafs_group_ioctl x BAFS_GROUP_IOC_DMA_MAP_MEM arg env = (do
      bafs_get_group x.group
      let ret ← bafs_group_dma_map_mem arg.argp arg.dma_map_mem x.group x.ctx env.group_dma_map_mem
      bafs_put_group x.group
      if ret < 0 then pure (.code ret) else pure (.code 0)) := by
  unfold bafs_group_ioctl
  refine bind_congr fun _ => ?_
  rw [if_neg (by decide), if_neg (by decide), if_pos rfl]

/-- A return code is what the caller of the ioctl sees. -/
theorem code_ret (ret : Int) :
    ((if ret < 0 then pure (.code ret) else pure (.code 0) : Drv IoctlReply) >>= fun r =>
      pure r.ret) = pure (if ret < 0 then ret else 0) := by
  by_cases hret : ret < 0
  · rw [if_pos hret, if_pos hret]
    rfl
  · rw [if_neg hret, if_neg hret]
    rfl

end BafsDriver
