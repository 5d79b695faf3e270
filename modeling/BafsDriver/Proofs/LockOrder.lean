import BafsDriver.Module.Locks

/-!
# The order of the locks

Every call takes `group->lock` before `ctx->lock` before `mem->lock`, takes none of them twice, and
gives back what it took.
-/

set_option linter.style.nameCheck false

namespace BafsDriver

open Prog Script

/-- The script takes locks in their order and ends with the locks `ls` that it began with. -/
abbrev Paired {α : Type} (me : Nat) (t : LThread α) (ls : List Lock) : Prop :=
  Orderly LockMark.act Lock.rank me (fun _ ls' => ls' = ls) t ls

section Steps

variable {α : Type} {me : Nat} {ls : List Lock} {l : Lock}

theorem paired_single {p : LockMark} {c : Prog LState Hazard α} (hp : p.act = .none)
    (hc : Preserves (fun _ => True) c Locked.taken) : Paired me (single p c) ls := by
  refine ⟨by rw [hp]; trivial, fun s => wp_mono (hc s) fun a s' hs => ?_⟩
  rw [hp]
  exact ⟨hs, rfl⟩

theorem unlocked_taken (d : Drv α) : Preserves (fun _ => True) (unlocked d) Locked.taken := by
  intro s
  unfold wp unlocked
  cases d s.state with
  | error e => trivial
  | ok r => rfl

theorem plainly_paired (d : Drv α) : Paired me (plainly d) ls :=
  paired_single rfl (unlocked_taken d)

theorem spin_lock_taken {p : LockMark} (hp : p.act = .lock l)
    (habove : ∀ l' ∈ ls, l'.rank < l.rank) :
    Orderly LockMark.act Lock.rank me (fun _ ls' => ls' = l :: ls) (single p (spin_lock me l)) ls := by
  refine ⟨by rw [hp]; exact habove, fun s => ?_⟩
  refine (unlocked_taken (lock_at l) s).bind fun _ t ht => ?_
  rw [hp]
  exact ⟨congrArg ((l, me) :: ·) ht, rfl⟩

theorem lock_taken (habove : ∀ l' ∈ ls, l'.rank < l.rank) :
    Orderly LockMark.act Lock.rank me (fun _ ls' => ls' = l :: ls) (lock me l) ls :=
  spin_lock_taken rfl habove

theorem unlock_given : Orderly LockMark.act Lock.rank me (fun _ ls' => ls' = ls) (unlock me l) (l :: ls) := by
  refine ⟨List.mem_cons_self, fun s => ?_⟩
  refine (unlocked_taken (lock_at l) s).bind fun _ t ht => ?_
  exact ⟨congrArg (List.erase · (l, me)) ht, List.erase_cons_head l ls⟩

theorem mem_ref_get_taken {m : MemId} : Preserves (fun _ => True) (mem_ref_get m) Locked.taken :=
  (unlocked_taken _).bind fun _ => .ite (.throw trivial) (unlocked_taken _)

theorem mem_put_held_taken {m : MemId} : Preserves (fun _ => True) (mem_put_held m) Locked.taken := by
  refine (unlocked_taken _).bind fun o => ?_
  cases o with
  | none => exact .pure ()
  | some x => exact .throw trivial

end Steps

/-- No lock but locks of groups is held. -/
def no_ctx_lock (ls : List Lock) : Prop := ∀ l ∈ ls, l.rank < 1

section Functions

variable {me : Nat} {ls : List Lock} {m : MemId} {c : CtxId}

theorem no_ctx_lock.below_ctx (hls : no_ctx_lock ls) : ∀ l ∈ ls, l.rank < (Lock.ctx c).rank := hls

theorem no_ctx_lock.below_mem (hls : no_ctx_lock ls) : ∀ l ∈ ls, l.rank < (Lock.mem m).rank :=
  fun l hl => (hls l hl).trans Nat.one_lt_two

theorem no_ctx_lock.under_ctx (hls : no_ctx_lock ls) :
    ∀ l ∈ Lock.ctx c :: ls, l.rank < (Lock.mem m).rank := by
  intro l hl
  obtain rfl | hl := List.mem_cons.mp hl
  · exact Nat.one_lt_two
  · exact hls.below_mem l hl

theorem mem_release_paired {x : BafsMem} (hls : no_ctx_lock ls) :
    Paired me (mem_release_steps me m x) ls := by
  refine .seq (lock_taken hls.below_ctx) fun _ => .seq (plainly_paired _) fun _ => ?_
  refine .seq unlock_given fun _ => .seq (lock_taken hls.below_mem) fun _ => ?_
  refine .seq (plainly_paired _) fun _ => .seq unlock_given fun _ => ?_
  exact .seq (plainly_paired _) fun _ => plainly_paired _

theorem mem_put_paired (hls : no_ctx_lock ls) : Paired me (mem_put_steps me m) ls := by
  refine .seq (plainly_paired _) fun o => ?_
  cases o with
  | none => exact orderly_pure rfl
  | some x => exact mem_release_paired hls

theorem find_mem_paired {vaddr : Nat} (hls : ∀ l ∈ ls, l.rank < 2) (l : List MemId) :
    Paired me (find_mem_steps me vaddr l) ls := by
  induction l with
  | nil => exact orderly_pure rfl
  | cons m rest ih =>
    refine .seq (paired_single rfl mem_ref_get_taken) fun _ => .seq (lock_taken hls) fun _ => ?_
    refine .seq (plainly_paired _) fun x => .seq unlock_given fun _ => ?_
    refine orderly_ite (fun _ => orderly_pure rfl) fun _ => ?_
    exact .seq (paired_single rfl mem_put_held_taken) fun _ => ih

theorem get_mem_paired {vaddr : Nat} (hls : no_ctx_lock ls) :
    Paired me (get_mem_steps me vaddr c) ls := by
  refine .seq (plainly_paired _) fun _ => .seq (lock_taken hls.below_ctx) fun _ => ?_
  refine .seq (plainly_paired _) fun y => .seq (find_mem_paired (hls.under_ctx (m := 0)) _) fun o => ?_
  exact .seq unlock_given fun _ => .seq (plainly_paired _) fun _ => orderly_pure rfl

theorem dma_map_paired {k : CtrlId} {vaddr n_dma_addrs user ctrl_id : Nat} {env : DmaMapEnv}
    (hls : no_ctx_lock ls) :
    Paired me (dma_map_locks me k c vaddr n_dma_addrs user ctrl_id env) ls := by
  refine .seq (get_mem_paired hls) fun o => ?_
  cases o with
  | none => exact orderly_pure rfl
  | some m =>
    refine .seq (plainly_paired _) fun r => ?_
    obtain ⟨ret, n, y⟩ := r
    cases y with
    | none => exact .seq (mem_put_paired hls) fun _ => orderly_pure rfl
    | some y =>
      refine .seq (lock_taken hls.below_mem) fun _ => .seq (plainly_paired _) fun d => ?_
      exact .seq unlock_given fun _ => orderly_pure rfl

theorem dma_unmap_paired {d : DmaId} (hls : no_ctx_lock ls) :
    Paired me (dma_unmap_locks me d) ls := by
  refine .seq (paired_single rfl (unlocked_taken _)) fun y => ?_
  refine .seq (spin_lock_taken rfl hls.below_mem) fun _ => ?_
  refine .seq (paired_single rfl (unlocked_taken _)) fun _ => .seq unlock_given fun _ => ?_
  exact mem_put_paired hls

theorem ctrl_dma_map_paired {argp : Nat} {params : BAFS_IOC_DMA_MAP_MEM_PARAMS} {k : CtrlId}
    {env : CtrlDmaMapEnv} (hls : no_ctx_lock ls) :
    Paired me (ctrl_dma_map_locks me argp params k c env) ls := by
  refine orderly_ite (fun _ => orderly_pure rfl) fun _ => .seq (dma_map_paired hls) fun r => ?_
  obtain ⟨ret, n, d⟩ := r
  cases d with
  | none => exact orderly_pure rfl
  | some d =>
    refine .seq (plainly_paired _) fun left => orderly_ite (fun _ => ?_) fun _ => orderly_pure rfl
    exact .seq (dma_unmap_paired hls) fun _ => orderly_pure rfl

theorem group_map_loop_paired {vaddr dma_addrs : Nat} {env : Nat → DmaMapEnv}
    {ctrls : List (CtrlId × Nat)} {acc : GroupMapAcc} (hls : no_ctx_lock ls) :
    Paired me (group_map_loop_locks me c vaddr dma_addrs env ctrls acc) ls := by
  refine orderly_iterate (fun ci acc => .seq (dma_map_paired hls) fun r => ?_) _ _
  obtain ⟨ret, n, d⟩ := r
  cases d with
  | none => exact orderly_pure rfl
  | some d => exact orderly_pure rfl

theorem unmap_mems_paired {dmas : List DmaId} {blk : BlockId} (hls : no_ctx_lock ls) :
    Paired me (unmap_mems_locks me dmas blk) ls :=
  .seq (orderly_each (fun _ => dma_unmap_paired hls) _) fun _ => plainly_paired _

theorem group_dma_map_paired {argp : Nat} {params : BAFS_IOC_DMA_MAP_MEM_PARAMS} {g : GroupId}
    {env : GroupDmaMapEnv} : Paired me (group_dma_map_locks me argp params g c env) [] := by
  have hls : no_ctx_lock [Lock.group g] := by
    intro l hl
    rw [List.mem_singleton.mp hl]
    exact Nat.zero_lt_one
  refine orderly_ite (fun _ => orderly_pure rfl) fun _ => ?_
  refine .seq (lock_taken (by simp)) fun _ => .seq (plainly_paired _) fun x => ?_
  refine .seq (plainly_paired _) fun b => ?_
  cases b with
  | none => exact .seq unlock_given fun _ => orderly_pure rfl
  | some blk =>
    refine .seq (group_map_loop_paired hls) fun r => ?_
    obtain ⟨acc, fail⟩ := r
    cases fail with
    | some ret =>
      refine .seq (unmap_mems_paired hls) fun _ => .seq unlock_given fun _ => orderly_pure rfl
    | none =>
      refine .seq (plainly_paired _) fun left => orderly_ite (fun _ => ?_) fun _ => ?_
      · exact .seq (unmap_mems_paired hls) fun _ => .seq unlock_given fun _ => orderly_pure rfl
      · exact .seq unlock_given fun _ => orderly_pure rfl

theorem nil_no_ctx_lock : no_ctx_lock [] := by
  intro l hl
  cases hl

theorem mem_close_paired {w : Vma} : Paired me (mem_close_locks me w) [] := by
  unfold mem_close_locks
  cases w.vm_private_data with
  | none => exact orderly_pure rfl
  | some m =>
    refine .seq (plainly_paired _) fun k => .seq (lock_taken nil_no_ctx_lock.below_mem) fun _ => ?_
    refine .seq (plainly_paired _) fun x => .seq (orderly_each (fun d => ?_) _) fun _ => ?_
    · exact .seq (plainly_paired _) fun _ => paired_single rfl mem_put_held_taken
    · refine .seq unlock_given fun _ => .seq (mem_put_paired nil_no_ctx_lock) fun _ => ?_
      exact plainly_paired _

theorem munmap_paired {v : VmaId} : Paired me (munmap_locks me v) [] := by
  refine .seq (plainly_paired _) fun o => ?_
  cases o with
  | none => exact orderly_pure rfl
  | some w =>
    cases hops : w.vm_ops with
    | none =>
      simp only [hops]
      exact orderly_pure rfl
    | some ops =>
      cases ops
      simp only [hops]
      exact .seq mem_close_paired fun _ => orderly_pure rfl

theorem pin_paired {vma : Vma} {env : PinEnv} : Paired me (pin_locks me vma c env) [] := by
  refine .seq (plainly_paired _) fun _ => .seq (lock_taken nil_no_ctx_lock.below_ctx) fun _ => ?_
  refine .seq (plainly_paired _) fun y => .seq unlock_given fun _ => ?_
  refine .seq (plainly_paired _) fun _ => ?_
  cases pin_lookup y vma.vm_pgoff with
  | none => exact orderly_pure rfl
  | some m =>
    refine .seq (paired_single rfl mem_ref_get_taken) fun _ => ?_
    refine .seq (lock_taken nil_no_ctx_lock.below_mem) fun _ => .seq (plainly_paired _) fun r => ?_
    refine orderly_ite (fun _ => ?_) fun _ => ?_
    · refine .seq unlock_given fun _ => .seq (mem_put_paired nil_no_ctx_lock) fun _ => ?_
      exact orderly_pure rfl
    · refine .seq (paired_single rfl (unlocked_taken _)) fun _ => .seq unlock_given fun _ => ?_
      exact .seq (mem_put_paired nil_no_ctx_lock) fun _ => orderly_pure rfl

theorem mmap_paired {x : File} {mm vm_start vm_end vm_pgoff : Nat} {env : PinEnv} :
    Paired me (mmap_locks me x mm vm_start vm_end vm_pgoff env) [] := by
  refine .seq (plainly_paired _) fun free => orderly_ite (fun _ => ?_) fun _ => orderly_pure rfl
  refine .seq pin_paired fun r => orderly_ite (fun _ => orderly_pure rfl) fun _ => ?_
  exact .seq (plainly_paired _) fun _ => orderly_pure rfl

theorem reg_mem_paired {argp : Nat} {params : BAFS_IOC_REG_MEM_PARAMS} {env : RegMemEnv} :
    Paired me (reg_mem_locks me argp params c env) [] := by
  refine orderly_ite (fun _ => orderly_pure rfl) fun _ => .seq (plainly_paired _) fun b => ?_
  cases b with
  | none => exact orderly_pure rfl
  | some blk =>
    refine .seq (plainly_paired _) fun _ => .seq (lock_taken nil_no_ctx_lock.below_ctx) fun _ => ?_
    refine .seq (plainly_paired _) fun o => ?_
    cases o with
    | none => exact .seq unlock_given fun _ => .seq (plainly_paired _) fun _ => orderly_pure rfl
    | some r =>
      refine .seq unlock_given fun _ => .seq (plainly_paired _) fun left => ?_
      refine orderly_ite (fun _ => ?_) fun _ => orderly_pure rfl
      refine .seq (lock_taken nil_no_ctx_lock.below_ctx) fun _ => ?_
      refine .seq (paired_single rfl (unlocked_taken _)) fun _ => .seq unlock_given fun _ => ?_
      exact .seq (paired_single rfl (unlocked_taken _)) fun _ => orderly_pure rfl

theorem reg_ioctl_paired {x : File} {arg : IoctlArg} {env : RegMemEnv} :
    Paired me (reg_ioctl_locks me x arg env) [] := by
  cases x with
  | core k => exact .seq reg_mem_paired fun _ => orderly_pure rfl
  | ctrl y =>
    refine .seq (plainly_paired _) fun _ => .seq reg_mem_paired fun r => ?_
    refine orderly_ite (fun _ => orderly_pure rfl) fun _ => ?_
    exact .seq (plainly_paired _) fun _ => orderly_pure rfl
  | group y =>
    refine .seq (plainly_paired _) fun _ => .seq reg_mem_paired fun r => ?_
    refine orderly_ite (fun _ => orderly_pure rfl) fun _ => ?_
    exact .seq (plainly_paired _) fun _ => orderly_pure rfl

theorem sweep_paired : Paired me (sweep_locks me c) [] := by
  refine .seq (lock_taken nil_no_ctx_lock.below_ctx) fun _ => .seq (plainly_paired _) fun y => ?_
  refine .seq (orderly_each (fun m => ?_) _) fun _ => unlock_given
  refine .seq (lock_taken nil_no_ctx_lock.under_ctx) fun _ => .seq (plainly_paired _) fun x => ?_
  refine orderly_ite (fun _ => ?_) fun _ => unlock_given
  refine .seq (paired_single rfl (unlocked_taken _)) fun _ => .seq unlock_given fun _ => ?_
  exact .seq (paired_single rfl (unlocked_taken _)) fun _ => plainly_paired _

theorem close_paired {f : FileId} : Paired me (close_locks me f) [] := by
  refine .seq (plainly_paired _) fun o => ?_
  cases o with
  | none => exact orderly_pure rfl
  | some x =>
    refine .seq sweep_paired fun _ => .seq (plainly_paired _) fun _ => ?_
    exact .seq (plainly_paired _) fun _ => orderly_pure rfl

theorem call_paired {s : State} (k : Call s) : Paired me (k.steps me) [] := by
  cases k with
  | reg_mem f x hf arg env => exact reg_ioctl_paired
  | ctrl_dma_map f x hf arg env =>
    refine .seq (plainly_paired _) fun _ => .seq (ctrl_dma_map_paired nil_no_ctx_lock) fun _ => ?_
    exact .seq (plainly_paired _) fun _ => orderly_pure rfl
  | group_dma_map f x hf arg env =>
    refine .seq (plainly_paired _) fun _ => .seq group_dma_map_paired fun _ => ?_
    exact .seq (plainly_paired _) fun _ => orderly_pure rfl
  | mmap f x hf mm vm_start vm_end vm_pgoff hoff env => exact mmap_paired
  | munmap v => exact munmap_paired
  | close f => exact close_paired

end Functions

/-- Whatever the calls, the state they start in and the schedule: no thread asks for a lock that it
holds, or for one that comes before it in the order, some thread can always go on, and no lock is taken
once all are done. -/
theorem lock_order {s : State} (cs : List (Call s)) (sched : List Nat) (start : State) :
    Throughout (fun _ => True) (Ordered LockMark.act Lock.rank) sched (call_threads cs)
      ⟨start, []⟩ := by
  refine (all_orderly_start (fun i t ht => ?_) rfl).throughout
  unfold call_threads at ht
  rw [List.getElem?_map, Option.map_eq_some_iff] at ht
  obtain ⟨k, hk, rfl⟩ := ht
  rw [List.getElem?_zipIdx, Option.map_eq_some_iff] at hk
  obtain ⟨k, -, rfl⟩ := hk
  rw [Nat.zero_add]
  exact call_paired k

end BafsDriver
