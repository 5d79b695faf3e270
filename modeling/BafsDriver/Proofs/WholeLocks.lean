import BafsDriver.Module.Locks
import BafsDriver.Proofs.FileClose
import BafsDriver.Proofs.WholeStartup
import BafsDriver.Proofs.WholeThreads

/-!
# Calls that are not interrupted, with their locks

A call that is not interrupted, and comes to its end, has done what its request does as one step, and
has given back the locks that it took.
-/

set_option linter.style.nameCheck false

namespace BafsDriver

open Prog Script

/-- With the table of locks `ts`, where `c` ends, `d` ends in the same state, and the table is `ts'`. -/
def Refines {α : Type} (ts : List (Lock × Nat)) (c : Prog LState Hazard α) (d : Drv α)
    (ts' : List (Lock × Nat)) : Prop :=
  ∀ s a t, s.taken = ts → c s = .ok (a, t) → d s.state = .ok (a, t.state) ∧ t.taken = ts'

section Refines

variable {α β γ ρ : Type} {ts ts' ts'' : List (Lock × Nat)} {me : Nat} {l : Lock}

theorem bind_ok_iff {σ ε : Type} {c : Prog σ ε β} {k : β → Prog σ ε α} {s u : σ} {a : α} :
    (c >>= k) s = .ok (a, u) ↔ ∃ b t, c s = .ok (b, t) ∧ k b t = .ok (a, u) := by
  show (c s >>= fun r => k r.1 r.2) = _ ↔ _
  cases c s with
  | error e =>
    constructor
    · intro h
      cases h
    · rintro ⟨b, t, h, -⟩
      cases h
  | ok r =>
    obtain ⟨b, t⟩ := r
    constructor
    · intro h
      exact ⟨b, t, rfl, h⟩
    · rintro ⟨b', t', h, h'⟩
      cases h
      exact h'

theorem refines_unlocked (d : Drv α) : Refines ts (unlocked d) d ts := by
  intro s a t hs h
  unfold unlocked at h
  cases hd : d s.state with
  | error e =>
    rw [hd] at h
    cases h
  | ok r =>
    rw [hd] at h
    cases h
    exact ⟨rfl, hs⟩

theorem refines_pure (a : α) : Refines ts (pure a) (pure a) ts := by
  intro s b t hs h
  cases h
  exact ⟨rfl, hs⟩

theorem refines_throw {e : Hazard} {d : Drv α} : Refines ts (throw e) d ts' := by
  intro s a t _ h
  cases h

theorem Refines.bind {c : Prog LState Hazard β} {d : Drv β} {k : β → Prog LState Hazard α}
    {k' : β → Drv α} (hc : Refines ts c d ts') (hk : ∀ b, Refines ts' (k b) (k' b) ts'') :
    Refines ts (c >>= k) (d >>= k') ts'' := by
  intro s a u hs h
  obtain ⟨b, t, hb, ha⟩ := bind_ok_iff.mp h
  obtain ⟨hd, ht⟩ := hc s b t hs hb
  obtain ⟨hd', hu⟩ := hk b t a u ht ha
  exact ⟨bind_ok_iff.mpr ⟨b, t.state, hd, hd'⟩, hu⟩

/-- A step that has no part in the other program. -/
theorem Refines.skip {c : Prog LState Hazard Unit} {k : Unit → Prog LState Hazard α} {d : Drv α}
    (hc : Refines ts c (pure ()) ts') (hk : Refines ts' (k ()) d ts'') :
    Refines ts (c >>= k) d ts'' := by
  intro s a u hs h
  obtain ⟨b, t, hb, ha⟩ := bind_ok_iff.mp h
  obtain ⟨hd, ht⟩ := hc s b t hs hb
  have heq : s.state = t.state := congrArg Prod.snd (Except.ok.inj hd)
  rw [heq]
  exact hk t a u ht ha

theorem Refines.of_start {c : Prog LState Hazard α} {d : Drv α} {s : State} {a : α} {t : LState}
    (hc : Refines ts c d ts') (h : c ⟨s, ts⟩ = .ok (a, t)) : d s = .ok (a, t.state) ∧ t.taken = ts' :=
  hc ⟨s, ts⟩ a t rfl h

theorem refines_ite {b : Prop} [Decidable b] {c c' : Prog LState Hazard α} {d d' : Drv α}
    (h : Refines ts c d ts') (h' : Refines ts c' d' ts') :
    Refines ts (if b then c else c') (if b then d else d') ts' := by
  by_cases hb : b
  · rw [if_pos hb, if_pos hb]
    exact h
  · rw [if_neg hb, if_neg hb]
    exact h'

theorem refines_each {body : β → LThread Unit} {body' : β → Drv Unit}
    (h : ∀ b, Refines ts (body b).whole (body' b) ts) (bs : List β) :
    Refines ts (Script.each body bs).whole (Prog.each body' bs) ts := by
  induction bs with
  | nil => exact refines_pure ()
  | cons b bs ih =>
    rw [Script.each, whole_bind]
    exact (h b).bind fun _ => ih

theorem refines_iterate {body : β → γ → LThread (γ × Option ρ)} {body' : β → γ → Drv (γ × Option ρ)}
    (h : ∀ b a, Refines ts (body b a).whole (body' b a) ts) (bs : List β) (a : γ) :
    Refines ts (Script.iterate body bs a).whole (Prog.iterate body' bs a) ts := by
  induction bs generalizing a with
  | nil => exact refines_pure _
  | cons b bs ih =>
    rw [Script.iterate, whole_bind]
    refine (h b a).bind fun r => ?_
    obtain ⟨a', o⟩ := r
    cases o with
    | none => exact ih a'
    | some e => exact refines_pure _

@[simp] theorem unlocked_bind (d : Drv β) (k : β → Drv α) :
    unlocked (d >>= k) = unlocked d >>= fun b => unlocked (k b) := by
  funext s
  show unlocked (d >>= k) s = (unlocked d s >>= fun r => unlocked (k r.1) r.2)
  unfold unlocked
  cases hd : d s.state with
  | error e => rw [bind_error hd]; rfl
  | ok r =>
    obtain ⟨b, t⟩ := r
    rw [bind_ok hd]
    rfl

@[simp] theorem unlocked_pure (a : α) : unlocked (pure a : Drv α) = pure a := rfl

@[simp] theorem whole_plainly (d : Drv α) : (plainly d).whole = unlocked d := whole_single _ _

/-- A read that the other program does not make. -/
theorem Refines.load {δ : Type} {H : State → Heap δ} {e : Fault} {i : Nat}
    {k : δ → Prog LState Hazard α} {d : Drv α} (hk : ∀ x, Refines ts (k x) d ts') :
    Refines ts (unlocked (load H e i) >>= k) d ts' := by
  intro s a u hs h
  obtain ⟨x, t, hx, ha⟩ := bind_ok_iff.mp h
  obtain ⟨hd, ht⟩ := refines_unlocked (BafsDriver.load H e i) s x t hs hx
  have hstate : t.state = s.state := wp_ok (load_preserves (f := id) s.state) hd
  have hsame : t = s := by
    obtain ⟨st, tk⟩ := s
    obtain ⟨st', tk'⟩ := t
    cases hstate
    cases hs
    cases ht
    rfl
  rw [hsame] at ha
  exact hk x s a u hs ha

theorem refines_lock_at : Refines ts (unlocked (lock_at l)) (pure ()) ts := by
  cases l with
  | group g => exact (unlocked_bind _ _).symm ▸ .load fun _ => refines_pure ()
  | ctx c => exact (unlocked_bind _ _).symm ▸ .load fun _ => refines_pure ()
  | mem m => exact (unlocked_bind _ _).symm ▸ .load fun _ => refines_pure ()

theorem refines_lock : Refines ts (spin_lock me l) (pure ()) ((l, me) :: ts) := by
  refine refines_lock_at.skip ?_
  intro s a t hs h
  cases h
  exact ⟨rfl, congrArg ((l, me) :: ·) hs⟩

theorem refines_unlock : Refines ((l, me) :: ts) (spin_unlock me l) (pure ()) ts := by
  refine refines_lock_at.skip ?_
  intro s a t hs h
  cases h
  refine ⟨rfl, ?_⟩
  show s.taken.erase (l, me) = ts
  rw [hs, List.erase_cons_head]

end Refines

/-! ## Counts -/

section Counts

variable {ts : List (Lock × Nat)} {me : Nat} {m : MemId}

theorem mem_ref_get_refines : Refines ts (mem_ref_get m) (mem_kref_get m) ts := by
  refine .load fun x => ?_
  by_cases hx : x.ref = 0
  · rw [if_pos hx]
    exact refines_throw
  · rw [if_neg hx]
    exact refines_unlocked _

theorem mem_put_held_refines : Refines ts (mem_put_held m) (bafs_mem_put m) ts := by
  unfold mem_put_held mem_ref_put bafs_mem_put
  simp only [unlocked_bind, unlocked_pure, bind_assoc, pure_bind]
  refine (refines_unlocked _).bind fun x => (refines_unlocked _).bind fun _ => ?_
  by_cases hx : x.ref = 1
  · rw [if_pos hx]
    exact refines_throw
  · rw [if_neg hx, if_neg hx]
    exact refines_pure ()

/-- Programs that do the same after what the first step leaves. -/
theorem bind_congr_ok {σ ε α β : Type} {c : Prog σ ε β} {k k' : β → Prog σ ε α} {s : σ}
    (h : ∀ b t, c s = .ok (b, t) → k b t = k' b t) : (c >>= k) s = (c >>= k') s := by
  cases hc : c s with
  | error e => rw [bind_error hc, bind_error hc]
  | ok r => rw [bind_ok hc, bind_ok hc, h r.1 r.2 hc]

/-- `__bafs_mem_release` of the registration `x`, whose count has changed since. -/
theorem release_eq {x x' : BafsMem} {s : State} (hx : s.mems.get m = some x') (hctx : x'.ctx = x.ctx)
    (hid : x'.mem_id = x.mem_id) (hblk : x'.blk = x.blk) : __bafs_mem_release m s = (do
      unlink_mem m x
      release_held m
      drop_mem m
      kfree x.blk
      bafs_put_ctx x.ctx) s := by
  have hunlink : unlink_mem m x' = unlink_mem m x := by
    unfold unlink_mem
    rw [hctx, hid]
  unfold __bafs_mem_release
  rw [show mem_at m = load State.mems .freed_mem m from rfl, bind_ok (load_ok hx), hunlink, hblk, hctx]
  refine bind_congr_ok fun b t ht => ?_
  have hkeep : Preserves (fun _ => True) (unlink_mem m x) State.mems :=
    load_preserves.bind fun _ => .modify fun _ => rfl
  have ht' : t.mems.get m = some x' := by rw [wp_ok (hkeep s) ht, hx]
  unfold release_held
  rw [show mem_at m = load State.mems .freed_mem m from rfl, bind_assoc, bind_ok (load_ok ht')]
  by_cases hst : x'.state ≠ .STALE
  · rw [if_pos hst, if_pos hst]
    simp only [bind_assoc]
  · rw [if_neg hst, if_neg hst]
    rfl

theorem mem_release_steps_refines (x : BafsMem) : Refines ts (mem_release_steps me m x).whole (do
    unlink_mem m x
    release_held m
    drop_mem m
    kfree x.blk
    bafs_put_ctx x.ctx) ts := by
  unfold mem_release_steps lock unlock
  simp only [whole_bind, whole_single, whole_plainly, unlocked_bind, bind_assoc]
  refine refines_lock.skip ((refines_unlocked _).bind fun _ => refines_unlock.skip ?_)
  refine refines_lock.skip ((refines_unlocked _).bind fun _ => refines_unlock.skip ?_)
  exact (refines_unlocked _).bind fun _ => (refines_unlocked _).bind fun _ => refines_unlocked _

theorem mem_put_steps_refines : Refines ts (mem_put_steps me m).whole (bafs_mem_put m) ts := by
  intro s a u hs h
  unfold mem_put_steps at h
  rw [whole_bind, whole_plainly] at h
  obtain ⟨o, t, hput, h⟩ := bind_ok_iff.mp h
  obtain ⟨hput, ht⟩ := refines_unlocked (mem_ref_put m) s o t hs hput
  unfold mem_ref_put at hput
  obtain ⟨x, s₁, hx, hput⟩ := bind_ok_iff.mp hput
  cases hm : s.state.mems.get m with
  | none =>
    rw [show mem_at m = load State.mems .freed_mem m from rfl, load_error hm] at hx
    cases hx
  | some y =>
    rw [show mem_at m = load State.mems .freed_mem m from rfl, load_ok hm] at hx
    obtain ⟨rfl, rfl⟩ := Prod.mk.inj (Except.ok.inj hx)
    obtain ⟨_, s₂, hupd, hput⟩ := bind_ok_iff.mp hput
    obtain ⟨rfl, hs₂⟩ := Prod.mk.inj (Except.ok.inj hput)
    unfold bafs_mem_put
    rw [show mem_at m = load State.mems .freed_mem m from rfl, bind_ok (load_ok hm), bind_ok hupd]
    by_cases hone : y.ref = 1
    · rw [if_pos hone] at h ⊢
      have hmem : s₂.mems.get m = some { y with ref := y.ref - 1 } := by
        unfold mem_upd at hupd
        rw [show mem_at m = load State.mems .freed_mem m from rfl, bind_ok (load_ok hm)] at hupd
        obtain ⟨-, rfl⟩ := Prod.mk.inj (Except.ok.inj hupd)
        exact Heap.get_set_self hm
      rw [release_eq (x := y) hmem rfl rfl rfl, hs₂]
      exact mem_release_steps_refines y t a u ht h
    · rw [if_neg hone] at h ⊢
      cases h
      exact ⟨by rw [hs₂]; rfl, ht⟩

end Counts

/-! ## Lookup and DMA mapping -/

section DmaMap

variable {ts : List (Lock × Nat)} {me : Nat}

theorem find_mem_steps_refines {vaddr : Nat} (l : List MemId) :
    Refines ts (find_mem_steps me vaddr l).whole (find_mem vaddr l) ts := by
  induction l with
  | nil => exact refines_pure _
  | cons m rest ih =>
    unfold find_mem_steps find_mem lock unlock
    simp only [whole_bind, whole_single, whole_plainly, whole_ite]
    refine mem_ref_get_refines.bind fun _ => refines_lock.skip ?_
    refine (refines_unlocked _).bind fun x => refines_unlock.skip ?_
    exact refines_ite (refines_pure _) (mem_put_held_refines.bind fun _ => ih)

theorem get_mem_steps_refines {vaddr : Nat} {c : CtxId} :
    Refines ts (get_mem_steps me vaddr c).whole (bafs_get_mem_with_ctx vaddr c) ts := by
  unfold get_mem_steps bafs_get_mem_with_ctx lock unlock
  simp only [whole_bind, whole_single, whole_plainly, whole_pure]
  refine (refines_unlocked _).bind fun _ => refines_lock.skip ?_
  refine (refines_unlocked _).bind fun y => (find_mem_steps_refines _).bind fun o => ?_
  exact refines_unlock.skip ((refines_unlocked _).bind fun _ => refines_pure o)

/-- A mapping is filled; where it is refused, the registration is put. -/
def then_put (m : MemId) (c : Drv (Int × Nat × Option BafsMemDma)) :
    Drv (Int × Nat × Option BafsMemDma) := do
  let r ← c
  match r.2.2 with
  | none =>
    bafs_mem_put m
    pure r
  | some _ => pure r

@[simp] theorem then_put_none (m : MemId) (ret : Int) (n : Nat) : then_put m (pure (ret, n, none)) =
    (do bafs_mem_put m; pure (ret, n, none)) := rfl

@[simp] theorem then_put_some (m : MemId) (ret : Int) (n : Nat) (y : BafsMemDma) :
    then_put m (pure (ret, n, some y)) = pure (ret, n, some y) := rfl

@[simp] theorem then_put_bind {α : Type} (m : MemId) (c : Drv α)
    (k : α → Drv (Int × Nat × Option BafsMemDma)) :
    then_put m (c >>= k) = c >>= fun a => then_put m (k a) := by
  unfold then_put
  rw [bind_assoc]

@[simp] theorem then_put_ite {b : Prop} [Decidable b] (m : MemId)
    (c c' : Drv (Int × Nat × Option BafsMemDma)) :
    then_put m (if b then c else c') = if b then then_put m c else then_put m c' := by
  by_cases hb : b
  · rw [if_pos hb, if_pos hb]
  · rw [if_neg hb, if_neg hb]

theorem map_cpu_eq (c : CtrlId) (m : MemId) (x : BafsMem) (blk : BlockId)
    (n_dma_addrs user ctrl_id : Nat) (env : DmaMapEnv) :
    map_cpu c m x blk n_dma_addrs user ctrl_id env =
      then_put m (fill_cpu c m x blk n_dma_addrs user ctrl_id env) := by
  unfold map_cpu fill_cpu delete_dma undo_dma
  rw [then_put_bind]
  refine bind_congr fun b => ?_
  cases b with
  | none => simp only [then_put_bind, then_put_none, bind_assoc]
  | some ablk =>
    dsimp only
    rw [then_put_bind]
    refine bind_congr fun r => ?_
    obtain ⟨mapped, fail⟩ := r
    cases fail with
    | some ret => simp only [then_put_bind, then_put_none, bind_assoc]
    | none => simp only [then_put_bind, then_put_none, then_put_some, then_put_ite, bind_assoc]

theorem map_cuda_eq (c : CtrlId) (m : MemId) (x : BafsMem) (blk : BlockId)
    (n_dma_addrs user ctrl_id : Nat) (env : DmaMapEnv) :
    map_cuda c m x blk n_dma_addrs user ctrl_id env =
      then_put m (fill_cuda c m x blk n_dma_addrs user ctrl_id env) := by
  have hfail : ∀ {e : Event} {k n : Nat}, k = n → (do
      emit e
      kfree blk
      bafs_ctrl_release c
      bafs_mem_put m
      pure (-EFAULT, k, none) : Drv (Int × Nat × Option BafsMemDma)) = then_put m (do
      emit e
      kfree blk
      bafs_ctrl_release c
      pure (-EFAULT, n, none)) := by
    rintro e k n rfl
    simp only [then_put_bind, then_put_none]
  unfold map_cuda fill_cuda delete_dma undo_dma
  simp only [bind_assoc]
  rw [then_put_bind]
  refine bind_congr fun r => ?_
  cases r with
  | error ret => simp only [then_put_bind, then_put_none]
  | ok p =>
    simp only [then_put_bind]
    refine bind_congr fun s => bind_congr fun left => ?_
    rw [then_put_ite]
    refine ite_congr rfl (fun _ => ?_) fun _ => ?_
    · exact hfail rfl
    · rfl

theorem map_pages_eq (c : CtrlId) (m : MemId) (n_dma_addrs user ctrl_id : Nat) (env : DmaMapEnv) :
    map_pages c m n_dma_addrs user ctrl_id env =
      then_put m (fill_dma c m n_dma_addrs user ctrl_id env) := by
  unfold map_pages fill_dma
  rw [then_put_bind]
  refine bind_congr fun b => ?_
  cases b with
  | none => rfl
  | some blk =>
    simp only [then_put_bind, then_put_none, then_put_ite, map_cpu_eq, map_cuda_eq, delete_dma,
      undo_dma, bind_assoc]

theorem dma_map_locks_refines {c : CtrlId} {ctx : CtxId} {vaddr n_dma_addrs user ctrl_id : Nat}
    {env : DmaMapEnv} : Refines ts (dma_map_locks me c ctx vaddr n_dma_addrs user ctrl_id env).whole
      (bafs_ctrl_dma_map_mem c ctx vaddr n_dma_addrs user ctrl_id env) ts := by
  rw [← dma_map_steps_whole]
  unfold dma_map_locks dma_map_steps free_step lock unlock
  rw [whole_bind, whole_bind, whole_single]
  refine get_mem_steps_refines.bind fun o => ?_
  cases o with
  | none => exact refines_pure _
  | some m =>
    dsimp only
    rw [whole_bind, whole_bind, whole_plainly, whole_single, map_pages_eq]
    unfold then_put
    rw [bind_assoc]
    refine (refines_unlocked _).bind fun r => ?_
    obtain ⟨ret, n, y⟩ := r
    cases y with
    | none =>
      simp only [whole_bind, whole_pure, bind_assoc, pure_bind]
      exact mem_put_steps_refines.bind fun _ => refines_pure _
    | some y =>
      simp only [whole_bind, whole_single, whole_plainly, whole_pure, pure_bind]
      refine refines_lock.skip ((refines_unlocked _).bind fun d => refines_unlock.skip ?_)
      exact refines_pure _

theorem dma_unmap_locks_refines {d : DmaId} :
    Refines ts (dma_unmap_locks me d).whole (bafs_ctrl_dma_unmap_mem d) ts := by
  unfold dma_unmap_locks bafs_ctrl_dma_unmap_mem unlock
  simp only [whole_bind, whole_single]
  refine (refines_unlocked _).bind fun y => refines_lock.skip ?_
  refine (refines_unlocked _).bind fun _ => refines_unlock.skip ?_
  exact mem_put_steps_refines

theorem ctrl_dma_map_locks_refines {argp : Nat} {params : BAFS_IOC_DMA_MAP_MEM_PARAMS} {c : CtrlId}
    {ctx : CtxId} {env : CtrlDmaMapEnv} : Refines ts
      (ctrl_dma_map_locks me argp params c ctx env).whole
      (__bafs_ctrl_dma_map_mem argp params c ctx env) ts := by
  unfold ctrl_dma_map_locks __bafs_ctrl_dma_map_mem
  rw [whole_ite]
  refine refines_ite (refines_pure _) ?_
  rw [whole_bind]
  refine dma_map_locks_refines.bind fun r => ?_
  obtain ⟨ret, n, o⟩ := r
  cases o with
  | none => exact refines_pure _
  | some d =>
    simp only [whole_bind, whole_plainly, whole_ite]
    refine (refines_unlocked _).bind fun left => refines_ite ?_ (refines_pure _)
    exact dma_unmap_locks_refines.bind fun _ => refines_pure _

theorem group_map_loop_locks_refines {ctx : CtxId} {vaddr dma_addrs : Nat} {env : Nat → DmaMapEnv}
    {ctrls : List (CtrlId × Nat)} {acc : GroupMapAcc} : Refines ts
      (group_map_loop_locks me ctx vaddr dma_addrs env ctrls acc).whole
      (group_map_loop ctx vaddr dma_addrs env ctrls acc) ts := by
  refine refines_iterate (fun ci acc => ?_) _ _
  rw [whole_bind]
  refine dma_map_locks_refines.bind fun r => ?_
  obtain ⟨ret, n, o⟩ := r
  cases o with
  | none => exact refines_pure _
  | some d => exact refines_pure _

theorem unmap_mems_locks_refines {dmas : List DmaId} {blk : BlockId} :
    Refines ts (unmap_mems_locks me dmas blk).whole (unmap_mems dmas blk) ts := by
  unfold unmap_mems_locks unmap_mems
  rw [whole_bind, whole_plainly]
  exact (refines_each (fun _ => dma_unmap_locks_refines) _).bind fun _ => refines_unlocked _

theorem group_dma_map_locks_refines {argp : Nat} {params : BAFS_IOC_DMA_MAP_MEM_PARAMS} {g : GroupId}
    {ctx : CtxId} {env : GroupDmaMapEnv} : Refines ts
      (group_dma_map_locks me argp params g ctx env).whole
      (bafs_group_dma_map_mem argp params g ctx env) ts := by
  unfold group_dma_map_locks bafs_group_dma_map_mem lock unlock
  rw [whole_ite]
  refine refines_ite (refines_pure _) ?_
  simp only [whole_bind, whole_single, whole_plainly]
  refine refines_lock.skip ((refines_unlocked _).bind fun x => (refines_unlocked _).bind fun b => ?_)
  cases b with
  | none =>
    rw [whole_bind, whole_single]
    exact refines_unlock.skip (refines_pure _)
  | some blk =>
    dsimp only
    rw [whole_bind]
    refine group_map_loop_locks_refines.bind fun r => ?_
    obtain ⟨acc, fail⟩ := r
    cases fail with
    | some ret =>
      simp only [whole_bind, whole_single]
      exact unmap_mems_locks_refines.bind fun _ => refines_unlock.skip (refines_pure _)
    | none =>
      simp only [whole_bind, whole_single, whole_plainly, whole_ite]
      refine (refines_unlocked _).bind fun left => refines_ite ?_ ?_
      · exact unmap_mems_locks_refines.bind fun _ => refines_unlock.skip (refines_pure _)
      · exact refines_unlock.skip (refines_pure _)

end DmaMap

/-! ## The close of a VMA -/

section Vmas

variable {ts : List (Lock × Nat)} {me : Nat}

/-- The registration is the same after its context has been held. -/
theorem bafs_mem_release_held {w : Vma} {m : MemId} (hw : w.vm_private_data = some m) (s : State) :
    bafs_mem_release w s = (do
      let c ← hold_ctx m
      let x ← mem_at m
      Prog.each (fun d => do
        unmap_dma d
        bafs_mem_put m) x.dma_list
      bafs_mem_put m
      bafs_put_ctx c) s := by
  unfold bafs_mem_release hold_ctx
  rw [hw]
  simp only [bind_assoc, pure_bind]
  refine bind_congr_ok fun x t hx => bind_congr_ok fun _ u hu => ?_
  have hkeep : Preserves (fun _ => True) (ctx_kref_get x.ctx) State.mems :=
    load_preserves.bind fun _ => .modify fun _ => rfl
  have hmem : t.mems.get m = some x := by
    cases hm : s.mems.get m with
    | none =>
      rw [show mem_at m = load State.mems .freed_mem m from rfl, load_error hm] at hx
      cases hx
    | some y =>
      rw [show mem_at m = load State.mems .freed_mem m from rfl, load_ok hm] at hx
      obtain ⟨rfl, rfl⟩ := Prod.mk.inj (Except.ok.inj hx)
      exact hm
  have hmem' : u.mems.get m = some x := by rw [wp_ok (hkeep t) hu, hmem]
  rw [bind_ok (show mem_at m u = .ok (x, u) from load_ok hmem')]

theorem mem_close_locks_refines {w : Vma} :
    Refines ts (mem_close_locks me w).whole (bafs_mem_release w) ts := by
  cases hw : w.vm_private_data with
  | none =>
    unfold mem_close_locks bafs_mem_release
    rw [hw]
    exact refines_pure ()
  | some m =>
    rw [show bafs_mem_release w = _ from funext (bafs_mem_release_held hw)]
    unfold mem_close_locks lock unlock
    rw [hw]
    simp only [whole_bind, whole_single, whole_plainly]
    refine (refines_unlocked _).bind fun c => refines_lock.skip ?_
    refine (refines_unlocked _).bind fun x => Refines.bind (refines_each (fun d => ?_) _) fun _ => ?_
    · rw [whole_bind, whole_single, whole_plainly]
      exact (refines_unlocked _).bind fun _ => mem_put_held_refines
    · exact refines_unlock.skip (mem_put_steps_refines.bind fun _ => refines_unlocked _)

/-- The return code of a request. -/
def answer (r : Request) : Drv Int := do
  let reply ← step r
  pure reply.ret

/-- The munmap request, with its VMA taken first. -/
def munmap_answer (v : VmaId) : Drv Int := do
  match ← take_vma v with
  | none => pure (-EINVAL)
  | some w =>
    close_vma w
    pure 0

theorem munmap_locks_refines {v : VmaId} :
    Refines ts (munmap_locks me v).whole (answer (.munmap v)) ts := by
  have hstep : answer (.munmap v) = munmap_answer v := by
    unfold answer step munmap_answer take_vma unmap_vma
    funext s
    cases hv : s.vmas.get v with
    | none => simp only [bind_assoc, bind_ok (show (get : Drv State) s = .ok (s, s) from rfl), hv]; rfl
    | some w => simp only [bind_assoc, bind_ok (show (get : Drv State) s = .ok (s, s) from rfl), hv]; rfl
  rw [hstep]
  unfold munmap_locks munmap_answer
  rw [whole_bind, whole_plainly]
  refine (refines_unlocked _).bind fun o => ?_
  cases o with
  | none => exact refines_pure _
  | some w =>
    cases hops : w.vm_ops with
    | none =>
      simp only [close_vma, hops]
      exact refines_pure _
    | some ops =>
      cases ops
      simp only [close_vma, hops]
      rw [whole_bind]
      exact mem_close_locks_refines.bind fun _ => refines_pure _

end Vmas

/-! ## Pinning and registration -/

section Tables

variable {ts : List (Lock × Nat)} {me : Nat}

theorem pin_locks_refines {vma : Vma} {c : CtxId} {env : PinEnv} :
    Refines ts (pin_locks me vma c env).whole (pin_bafs_mem vma c env) ts := by
  unfold pin_locks pin_bafs_mem lock unlock
  simp only [whole_bind, whole_single, whole_plainly]
  refine (refines_unlocked _).bind fun _ => refines_lock.skip ?_
  refine (refines_unlocked _).bind fun y => refines_unlock.skip ((refines_unlocked _).bind fun _ => ?_)
  cases pin_lookup y vma.vm_pgoff with
  | none => exact refines_pure _
  | some m =>
    simp only [whole_bind, whole_single, whole_plainly, pin_held, unlocked_bind, bind_assoc]
    refine mem_ref_get_refines.bind fun _ => refines_lock.skip ((refines_unlocked _).bind fun _ => ?_)
    refine (refines_unlocked _).bind fun x => (refines_unlocked _).bind fun r => ?_
    rw [whole_ite]
    simp only [whole_bind, whole_single]
    refine refines_ite ?_ ?_
    · exact refines_unlock.skip (mem_put_steps_refines.bind fun _ => refines_pure _)
    · refine (refines_unlocked _).bind fun _ => refines_unlock.skip ?_
      exact mem_put_steps_refines.bind fun _ => refines_pure _

theorem reg_mem_locks_refines {argp : Nat} {params : BAFS_IOC_REG_MEM_PARAMS} {c : CtxId}
    {env : RegMemEnv} : Refines ts (reg_mem_locks me argp params c env).whole
      (bafs_core_reg_mem argp params c env) ts := by
  unfold reg_mem_locks bafs_core_reg_mem lock unlock
  rw [whole_ite]
  refine refines_ite (refines_pure _) ?_
  rw [whole_bind, whole_plainly]
  refine (refines_unlocked _).bind fun b => ?_
  cases b with
  | none => exact refines_pure _
  | some blk =>
    simp only [whole_bind, whole_single, whole_plainly, reg_held, unlocked_bind, bind_assoc]
    refine (refines_unlocked _).bind fun _ => refines_lock.skip ((refines_unlocked _).bind fun y => ?_)
    cases xa_alloc y.bafs_mem_xa env.xa_alloc with
    | none =>
      simp only [unlocked_pure, pure_bind, whole_bind, whole_single, whole_plainly, unlocked_bind,
        bind_assoc]
      refine refines_unlock.skip ((refines_unlocked _).bind fun _ => ?_)
      exact (refines_unlocked _).bind fun _ => refines_pure _
    | some mem_id =>
      simp only [unlocked_pure, unlocked_bind, bind_assoc, pure_bind, whole_bind, whole_single,
        whole_plainly, whole_ite]
      refine (refines_unlocked _).bind fun m => refines_unlock.skip ?_
      refine (refines_unlocked _).bind fun left => refines_ite ?_ (refines_pure _)
      refine refines_lock.skip ((refines_unlocked _).bind fun x => (refines_unlocked _).bind fun _ => ?_)
      refine refines_unlock.skip ((refines_unlocked _).bind fun _ => (refines_unlocked _).bind fun _ => ?_)
      exact (refines_unlocked _).bind fun _ => refines_pure _

/-- The registration ioctl of a file, with its return code. -/
def reg_ioctl (x : File) (arg : IoctlArg) (env : RegMemEnv) : Drv Int :=
  match x with
  | .core c => do
    let r ← bafs_core_reg_mem arg.argp arg.reg_mem c env
    pure (if r.1 < 0 then r.1 else 0)
  | .ctrl y => do
    bafs_get_ctrl y.ctrl
    let r ← bafs_core_reg_mem arg.argp arg.reg_mem y.ctx env
    if r.1 < 0 then
      pure r.1
    else
      bafs_ctrl_release y.ctrl
      pure 0
  | .group y => do
    bafs_get_group y.group
    let r ← bafs_core_reg_mem arg.argp arg.reg_mem y.ctx env
    if r.1 < 0 then
      pure r.1
    else
      bafs_put_group y.group
      pure 0

theorem ioctl_file_reg (x : File) (arg : IoctlArg) (env : IoctlEnv) :
    (do let r ← ioctl_file x x.reg_cmd arg env; pure r.ret) = reg_ioctl x arg env.reg_mem := by
  unfold reg_ioctl
  cases x with
  | core c =>
    unfold ioctl_file File.reg_cmd bafs_core_ioctl
    dsimp only
    rw [if_neg (by decide), if_pos rfl, bind_assoc]
    refine bind_congr fun r => ?_
    by_cases hr : r.1 < 0
    · rw [if_pos hr, if_pos hr]
      rfl
    · rw [if_neg hr, if_neg hr]
      rfl
  | ctrl y =>
    unfold ioctl_file File.reg_cmd bafs_ctrl_ioctl
    dsimp only
    rw [bind_assoc]
    refine bind_congr fun _ => ?_
    rw [if_neg (by decide), if_pos rfl, bind_assoc]
    refine bind_congr fun r => ?_
    by_cases hr : r.1 < 0
    · rw [if_pos hr, if_pos hr]
      rfl
    · rw [if_neg hr, if_neg hr, bind_assoc]
      rfl
  | group y =>
    unfold ioctl_file File.reg_cmd bafs_group_ioctl
    dsimp only
    rw [bind_assoc]
    refine bind_congr fun _ => ?_
    rw [if_neg (by decide), if_pos rfl, bind_assoc]
    refine bind_congr fun r => ?_
    by_cases hr : r.1 < 0
    · rw [if_pos hr, if_pos hr]
      rfl
    · rw [if_neg hr, if_neg hr, bind_assoc]
      rfl

theorem reg_ioctl_locks_refines {x : File} {arg : IoctlArg} {env : IoctlEnv} :
    Refines ts (reg_ioctl_locks me x arg env.reg_mem).whole
      (do let r ← ioctl_file x x.reg_cmd arg env; pure r.ret) ts := by
  rw [ioctl_file_reg]
  unfold reg_ioctl_locks reg_ioctl
  cases x with
  | core c =>
    dsimp only
    rw [whole_bind]
    exact reg_mem_locks_refines.bind fun r => refines_pure _
  | ctrl y =>
    simp only [whole_bind, whole_plainly, whole_ite, whole_pure]
    refine (refines_unlocked _).bind fun _ => reg_mem_locks_refines.bind fun r => ?_
    exact refines_ite (refines_pure _) ((refines_unlocked _).bind fun _ => refines_pure _)
  | group y =>
    simp only [whole_bind, whole_plainly, whole_ite, whole_pure]
    refine (refines_unlocked _).bind fun _ => reg_mem_locks_refines.bind fun r => ?_
    exact refines_ite (refines_pure _) ((refines_unlocked _).bind fun _ => refines_pure _)

end Tables

/-! ## The close of a file -/

section Files

variable {ts : List (Lock × Nat)} {me : Nat}

theorem sweep_locks_refines {c : CtxId} :
    Refines ts (sweep_locks me c).whole (sweep_stale c) ts := by
  have hend : sweep_stale c = (do sweep_stale c; pure ()) := (bind_pure _).symm
  rw [hend]
  unfold sweep_locks sweep_stale lock unlock
  simp only [whole_bind, whole_single, whole_plainly, bind_assoc]
  refine refines_lock.skip ((refines_unlocked _).bind fun y => ?_)
  refine (refines_each (fun m => ?_) y.mem_list).bind fun _ => refines_unlock
  simp only [whole_bind, whole_single, whole_plainly, whole_ite, unlocked_bind, bind_assoc]
  refine refines_lock.skip ((refines_unlocked _).bind fun x => refines_ite ?_ refines_unlock)
  refine (refines_unlocked _).bind fun _ => refines_unlock.skip ?_
  exact (refines_unlocked _).bind fun _ => (refines_unlocked _).bind fun _ => refines_unlocked _

theorem release_file_rest_eq (x : File) : release_file_rest x = release_rest x := by
  cases x with
  | core c => rfl
  | ctrl y => rfl
  | group y => rfl

/-- The close of a file, which is taken out of its table first. -/
def close_answer (f : FileId) : Drv Int := do
  match ← take_file f with
  | none => pure (-EBADF)
  | some x =>
    release_file x
    pure 0

theorem close_locks_refines {f : FileId} :
    Refines ts (close_locks me f).whole (answer (.close f)) ts := by
  have hstep : answer (.close f) = close_answer f := by
    unfold answer step close_answer take_file
    funext s
    cases hf : s.files.get f with
    | none => simp only [bind_assoc, bind_ok (show (get : Drv State) s = .ok (s, s) from rfl), hf]; rfl
    | some x => simp only [bind_assoc, bind_ok (show (get : Drv State) s = .ok (s, s) from rfl), hf]; rfl
  rw [hstep]
  unfold close_locks close_answer
  rw [whole_bind, whole_plainly]
  refine (refines_unlocked _).bind fun o => ?_
  cases o with
  | none => exact refines_pure _
  | some x =>
    simp only [whole_bind, whole_plainly, release_file_eq, release_file_rest_eq, bind_assoc]
    refine sweep_locks_refines.bind fun _ => (refines_unlocked _).bind fun _ => ?_
    exact (refines_unlocked _).bind fun _ => refines_pure _

end Files

/-! ## Calls -/

section Calls

variable {s : State} {me : Nat}

/-- The return code of an ioctl on an open file. -/
theorem answer_ioctl {f : FileId} {x : File} {cmd : Nat} {arg : IoctlArg} {env : IoctlEnv}
    (hf : s.files.get f = some x) : answer (.ioctl f cmd arg env) s = (do
      let r ← ioctl_file x cmd arg env
      pure r.ret : Drv Int) s := by
  have hioctl : step (.ioctl f cmd arg env) s = _ := step_ioctl hf
  refine (bind_congr_at (k := fun reply : Reply => (pure reply.ret : Drv Int)) hioctl).trans ?_
  rw [bind_assoc]
  rfl

/-- The mmap function of a file where the VMA is not one of the BAR. -/
theorem mmap_file_pinned (x : File) {vma : Vma} (hoff : vma.vm_pgoff ≠ 0) (env : MmapEnv) :
    mmap_file x vma env = (do
      let r ← pin_bafs_mem vma x.ctx env.pin
      pure (r.1, x.mmap_ret r.2)) := by
  cases x with
  | core c => exact (bind_pure _).symm
  | ctrl y =>
    unfold mmap_file __bafs_ctrl_mmap
    dsimp only
    rw [if_neg hoff]
    exact (bind_pure _).symm
  | group y =>
    unfold mmap_file bafs_group_mmap
    dsimp only
    rw [if_neg hoff]
    refine bind_congr fun r => ?_
    unfold File.mmap_ret
    by_cases hr : r.2 < 0
    · rw [if_pos hr, if_pos hr]
    · rw [if_neg hr, if_neg hr]

/-- The return code of an mmap of registered memory. -/
theorem answer_mmap {f : FileId} {x : File} {mm vm_start vm_end vm_pgoff : Nat} {env : MmapEnv}
    (hf : s.files.get f = some x) (hoff : vm_pgoff ≠ 0) :
    answer (.mmap f mm vm_start vm_end vm_pgoff env) s = (do
      let t ← get
      if range_free t mm vm_start vm_end then
        let r ← pin_bafs_mem (new_vma mm vm_start vm_end vm_pgoff) x.ctx env.pin
        if x.mmap_ret r.2 < 0 then
          pure (x.mmap_ret r.2)
        else
          modify fun s => { s with vmas := s.vmas.alloc r.1 }
          pure (x.mmap_ret r.2)
      else
        pure (-EINVAL) : Drv Int) s := by
  have hget : (get : Drv State) s = .ok (s, s) := rfl
  simp only [answer, step, bind_assoc, bind_ok hget, hf]
  by_cases hr : range_free s mm vm_start vm_end
  · rw [if_pos hr, if_pos hr, mmap_file_pinned x (show (new_vma mm vm_start vm_end vm_pgoff).vm_pgoff ≠ 0
      from hoff)]
    simp only [bind_assoc, pure_bind]
    refine bind_congr_ok fun r t _ => ?_
    by_cases hret : x.mmap_ret r.2 < 0
    · rw [if_pos hret, if_pos hret]
      rfl
    · rw [if_neg hret, if_neg hret]
      rfl
  · rw [if_neg hr, if_neg hr]
    rfl

theorem mmap_locks_refines {ts : List (Lock × Nat)} {x : File}
    {mm vm_start vm_end vm_pgoff : Nat} {env : PinEnv} :
    Refines ts (mmap_locks me x mm vm_start vm_end vm_pgoff env).whole (do
      let t ← get
      if range_free t mm vm_start vm_end then
        let r ← pin_bafs_mem (new_vma mm vm_start vm_end vm_pgoff) x.ctx env
        if x.mmap_ret r.2 < 0 then
          pure (x.mmap_ret r.2)
        else
          modify fun s => { s with vmas := s.vmas.alloc r.1 }
          pure (x.mmap_ret r.2)
      else
        pure (-EINVAL)) ts := by
  unfold mmap_locks
  simp only [whole_bind, whole_plainly, unlocked_bind, unlocked_pure, bind_assoc, pure_bind,
    decide_eq_true_eq]
  refine (refines_unlocked _).bind fun t => ?_
  rw [whole_ite]
  refine refines_ite ?_ (refines_pure _)
  rw [whole_bind]
  refine pin_locks_refines.bind fun r => ?_
  rw [whole_ite, whole_bind, whole_plainly]
  exact refines_ite (refines_pure _) ((refines_unlocked _).bind fun _ => refines_pure _)

/-- A call that is not interrupted, and comes to its end, has done what its request does, and has given
its locks back. -/
theorem call_whole (c : Call s) (taken : List (Lock × Nat)) {ret : Int} {t : LState}
    (h : (c.steps me).whole ⟨s, taken⟩ = .ok (ret, t)) :
    t.taken = taken ∧ ∃ reply, step c.request s = .ok (reply, t.state) ∧ reply.ret = ret := by
  suffices hans : answer c.request s = .ok (ret, t.state) ∧ t.taken = taken by
    obtain ⟨reply, u, hstep, hret⟩ := bind_ok_iff.mp hans.1
    obtain ⟨rfl, rfl⟩ := Prod.mk.inj (Except.ok.inj hret)
    exact ⟨hans.2, reply, hstep, rfl⟩
  cases c with
  | reg_mem f x hf arg env =>
    rw [Call.request, answer_ioctl hf]
    exact Refines.of_start reg_ioctl_locks_refines h
  | ctrl_dma_map f x hf arg env =>
    rw [Call.request, answer_ioctl hf]
    unfold ioctl_file
    dsimp only
    rw [bafs_ctrl_ioctl_dma_map]
    simp only [bind_assoc, code_ret]
    refine Refines.of_start ?_ h
    unfold Call.steps
    simp only [whole_bind, whole_plainly, whole_pure]
    exact (refines_unlocked _).bind fun _ => ctrl_dma_map_locks_refines.bind fun _ =>
      (refines_unlocked _).bind fun _ => refines_pure _
  | group_dma_map f x hf arg env =>
    rw [Call.request, answer_ioctl hf]
    unfold ioctl_file
    dsimp only
    rw [bafs_group_ioctl_dma_map]
    simp only [bind_assoc, code_ret]
    refine Refines.of_start ?_ h
    unfold Call.steps
    simp only [whole_bind, whole_plainly, whole_pure]
    exact (refines_unlocked _).bind fun _ => group_dma_map_locks_refines.bind fun _ =>
      (refines_unlocked _).bind fun _ => refines_pure _
  | mmap f x hf mm vm_start vm_end vm_pgoff hoff env =>
    rw [Call.request, answer_mmap hf hoff]
    exact Refines.of_start mmap_locks_refines h
  | munmap v => exact Refines.of_start munmap_locks_refines h
  | close f => exact Refines.of_start close_locks_refines h

end Calls

end BafsDriver
