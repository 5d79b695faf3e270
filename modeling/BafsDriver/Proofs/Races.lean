import BafsDriver.Proofs.RaceInvariant
import BafsDriver.Scenario

/-!
# DMA maps against closes and revocations

Any number of DMA-map requests, closes of VMAs and callbacks of the NVIDIA driver run at the same time.
The object of a mapping goes into the list of its registration after the pages have been mapped, without
a second look at the registration. The races that this opens are those where a step meets a state that
it does not expect: a mapping is taken back that the close of the VMA has taken already, or inserted
into a registration whose VMA is closed, or whose pages are revoked. Nothing else goes wrong.
-/

set_option linter.style.nameCheck false

namespace BafsDriver

open Prog Script

/-- The mapping that is taken back is still there. -/
def unspoiled : Mark → State → Prop
  | .take_back d, s => ∃ y, s.dmas.get d = some y
  | _, _ => True

/-- A property of states that the threads keep, where every step meets its condition. -/
structure Rides (K : Mark → State → Prop) (J : State → Prop) : Prop where
  fewer : ∀ s s', J s → Below s.view s'.view → Fewer s s' → J s'
  insert : ∀ s s' y, J s → K (.insert y) s → s'.dmas = s.dmas.alloc y → s'.vmas = s.vmas →
    s'.view.mems = s.view.mems → J s'
  revoke : ∀ s s' m, J s → Fewer s s' → Revoked s.view s'.view m s' → J s'

/-- The invariant of all threads, which hold `T`. -/
def Raced (s₀ : State) (J : State → Prop) (T : Holding) (s : State) : Prop :=
  (∃ h, Racing s₀ h T s.view s) ∧ J s

/-- The script keeps the invariant at each step and never gets stuck. -/
abbrev Goes {α : Type} (s₀ : State) (K : Mark → State → Prop) (J : State → Prop)
    (Q : α → Holding → Prop) (t : Thread α) (T : Holding) : Prop :=
  Safe (Raced s₀ J) K (fun _ => False) Q t T

section Threads

variable {α β : Type} {s₀ : State} {K : Mark → State → Prop} {J : State → Prop}
  {Q : α → Holding → Prop} {T : Holding}

/-- A step that adds nothing. -/
theorem goes_single {p : Mark} {c : Drv β} {k : β → Thread α} {R : β → Holding → Prop}
    (hJ : Rides K J) (hf : Evolves Fewer c)
    (hc : ∀ h H v s, Racing s₀ h (H + T) v s → K p s → wp c (fun _ => False) (fun b s' =>
      ∃ h' T', Leaves s₀ h' (H + T') v s' ∧ R b T') s)
    (hk : ∀ b T', R b T' → Goes s₀ K J Q (k b) T') : Goes s₀ K J Q (single p c >>= k) T := by
  refine Safe.bind (Q := R) (safe_single fun H s hI hp => ?_) hk
  obtain ⟨⟨h, hr⟩, hj⟩ := hI
  refine wp_mono (wp_and (hc h H _ s hr hp) (hf s)) fun b s' hs' => ?_
  obtain ⟨⟨h', T', ⟨v', hr', hb⟩, hR⟩, hfew⟩ := hs'
  obtain rfl := hr'.at_view.view
  exact ⟨T', ⟨⟨h', hr'⟩, hJ.fewer s s' hj hb hfew⟩, hR⟩

/-- A step that changes nothing of what the invariant reads. -/
theorem goes_quiet {c : Drv β} {k : β → Thread α} (hJ : Rides K J) (hf : Evolves Fewer c)
    (hc : Preserves (fun _ => False) c fun s => (s.objects, s.view))
    (hk : ∀ b, Goes s₀ K J Q (k b) T) : Goes s₀ K J Q (free_step c >>= k) T :=
  goes_single (R := fun _ T' => T' = T) hJ hf (fun h _ _ _ hr _ =>
    wp_mono (hr.keep hc) fun _ _ hr' => ⟨h, T, hr'.leaves, rfl⟩) fun b _ hT => hT ▸ hk b

theorem kzalloc_goes {ok : Bool} {k : Option BlockId → Thread α} (hJ : Rides K J)
    (hk : ∀ b, Goes s₀ K J Q (k b) T) : Goes s₀ K J Q (free_step (kzalloc ok) >>= k) T :=
  goes_quiet hJ (fewer_of_quiet (kzalloc_quiet quiet_dma_heap _)) (kzalloc_quiet quiet_at _) hk

theorem copy_to_user_goes {left dst : Nat} {source : CopySource} {words : List Nat}
    {k : Nat → Thread α} (hJ : Rides K J) (hk : ∀ b, Goes s₀ K J Q (k b) T) :
    Goes s₀ K J Q (free_step (copy_to_user left dst source words) >>= k) T :=
  goes_quiet hJ (fewer_of_quiet (copy_to_user_quiet quiet_dma_heap _ _ _ _))
    (copy_to_user_quiet quiet_at _ _ _ _) hk

/-- A mapping is taken back that is still there. -/
theorem take_back_goes {d : DmaId} (hJ : Rides K J) (hK : ∀ p s, K p s → unspoiled p s) :
    Goes s₀ K J (fun _ T' => T' = T) (single (.take_back d) (bafs_ctrl_dma_unmap_mem d)) T := by
  have hgoes : Goes s₀ K J (fun _ T' => T' = T)
      (single (.take_back d) (bafs_ctrl_dma_unmap_mem d) >>= pure) T := by
    refine goes_single (R := fun _ T' => T' = T) hJ bafs_ctrl_dma_unmap_mem_fewer
      (fun h H v s hr hp => ?_) fun b T' hT => safe_pure hT
    obtain ⟨y, hy⟩ : ∃ y, s.dmas.get d = some y := hK _ _ hp
    exact wp_mono (racing_unmap hr (hr.at_view.dma_view hy)) fun _ _ hl => ⟨h, T, hl, rfl⟩
  exact hgoes

section DmaMap

variable {c : CtrlId} {m : MemId} {i : FileId} {x : File} {vaddr n_dma_addrs user ctrl_id : Nat}
  {env : DmaMapEnv}

theorem publish_dma_alloc {E : Fault → Prop} {s : State} {y : BafsMemDma}
    (hy : E .freed_mem) : wp (publish_dma y) E (fun _ s' => s'.dmas = s.dmas.alloc y ∧
      s'.vmas = s.vmas ∧ s'.view.mems = s.view.mems) s := by
  unfold publish_dma mem_upd mem_at
  rw [wp_bind, wp_get, wp_bind, wp_modify, wp_bind, wp_bind]
  refine wp_load_of (fun _ => hy) fun x hx => ⟨rfl, rfl, ?_⟩
  funext n
  show ((s.mems.set y.mem _).get n).map _ = (s.mems.get n).map _
  rw [Heap.get_set (by exact hx)]
  by_cases hn : n = y.mem
  · rw [if_pos hn, hn, show s.mems.get y.mem = some x from hx]
    rfl
  · rw [if_neg hn]

/-- The mapping takes over the references of the thread. -/
theorem insert_goes {y : BafsMemDma} (hJ : Rides K J) :
    Goes s₀ K J (fun _ T' => T' = T) (single (.insert y) (publish_dma y))
      (T + one_ref .mem y.mem + one_ref .ctrl y.ctrl) := by
  refine safe_single fun H s hI hp => ?_
  obtain ⟨⟨h, hr⟩, hj⟩ := hI
  rw [← add_assoc, ← add_assoc] at hr
  refine wp_mono (wp_and (racing_publish hr) (publish_dma_alloc (E := fun _ => True) trivial))
    fun d s' hs' => ?_
  obtain ⟨hr', hd, hv, hm⟩ := hs'
  obtain heq := hr'.at_view.view
  rw [← heq] at hr'
  exact ⟨T, ⟨⟨h, hr'⟩, hJ.insert s s' y hj hp hd hv hm⟩, rfl⟩

/-- A DMA mapping gives back what it has taken, or leaves it to the new mapping. -/
theorem dma_map_steps_goes (hJ : Rides K J) (hx : s₀.files.get i = some x) (hc : ctrl_known s₀ c) :
    Goes s₀ K J (fun _ T' => T' = T) (dma_map_steps c x.ctx vaddr n_dma_addrs user ctrl_id env) T := by
  refine goes_single (R := fun r T' => T' = T + r.elim 0 (one_ref .mem)) hJ
    (fewer_of_adds bafs_get_mem_with_ctx_adds table_call_frees_none) (fun h H v s hr _ => ?_)
    fun r T' hT => ?_
  · refine wp_mono (racing_lookup hr hx) fun r s' hs' => ⟨h, _, ?_, rfl⟩
    rw [← add_assoc]
    exact hs'
  subst hT
  cases r with
  | none => exact safe_pure (add_zero T)
  | some m =>
    refine goes_single (R := fun r T' => (r.2.2 = none ∧ T' = T) ∨ ∃ z, r.2.2 = some z ∧ z.mem = m ∧
      z.ctrl = c ∧ T' = T + one_ref .mem m + one_ref .ctrl c) hJ map_pages_fewer
      (fun h H v s hr _ => ?_) fun r T' hT => ?_
    · have hr : Racing s₀ h (H + T + one_ref .mem m) v s := by
        rw [add_assoc]
        exact hr
      refine wp_mono (racing_map_pages hr hc) fun r s' hs' => ?_
      obtain ⟨hn, hl⟩ | ⟨z, hz, hzm, hzc, hr'⟩ := hs'
      · exact ⟨h, T, hl, .inl ⟨hn, rfl⟩⟩
      · refine ⟨h, _, ?_, .inr ⟨z, hz, hzm, hzc, rfl⟩⟩
        rw [← add_assoc, ← add_assoc]
        exact hr'.leaves
    · obtain ⟨ret, n, y⟩ := r
      obtain ⟨hy, rfl⟩ | ⟨z, hz, rfl, rfl, rfl⟩ := hT
      · obtain rfl : y = none := hy
        exact safe_pure rfl
      · obtain rfl : y = some z := hz
        exact (insert_goes hJ).bind fun d T' hT => safe_pure hT

theorem ctrl_dma_map_steps_goes {argp : Nat} {params : BAFS_IOC_DMA_MAP_MEM_PARAMS}
    {env : CtrlDmaMapEnv} (hJ : Rides K J) (hK : ∀ p s, K p s → unspoiled p s)
    (hx : s₀.files.get i = some x) (hc : ctrl_known s₀ c) :
    Goes s₀ K J (fun _ T' => T' = T) (ctrl_dma_map_steps argp params c x.ctx env) T := by
  refine safe_ite (fun _ => safe_pure rfl) fun _ => ?_
  refine (dma_map_steps_goes hJ hx hc).bind fun r T' hT => ?_
  obtain rfl := hT
  obtain ⟨ret, n, d⟩ := r
  cases d with
  | none => exact safe_pure rfl
  | some d =>
    refine copy_to_user_goes hJ fun left => safe_ite (fun _ => ?_) fun _ => safe_pure rfl
    exact (take_back_goes hJ hK).bind fun _ T' hT => safe_pure hT

theorem group_map_loop_steps_goes {dma_addrs : Nat} {env : Nat → DmaMapEnv}
    {ctrls : List (CtrlId × Nat)} {acc : GroupMapAcc} (hJ : Rides K J)
    (hx : s₀.files.get i = some x) (hc : ∀ ci ∈ ctrls, ctrl_known s₀ ci.1) :
    Goes s₀ K J (fun _ T' => T' = T) (group_map_loop_steps x.ctx vaddr dma_addrs env ctrls acc) T := by
  refine safe_iterate (fun cs _ T' => (∀ ci ∈ cs, ctrl_known s₀ ci.1) ∧ T' = T)
    (fun ci cs acc T' hT => ?_) (fun _ _ hT => hT.2) ⟨hc, rfl⟩
  obtain ⟨hcs, rfl⟩ := hT
  refine (dma_map_steps_goes hJ hx (hcs ci List.mem_cons_self)).bind fun r T' hT => ?_
  obtain rfl := hT
  have hrest : ∀ ci ∈ cs, ctrl_known s₀ ci.1 := fun ci hci => hcs ci (List.mem_cons_of_mem _ hci)
  obtain ⟨ret, n, d⟩ := r
  cases d with
  | none => exact safe_pure ⟨fun _ => ⟨hrest, rfl⟩, fun _ => rfl⟩
  | some d => exact safe_pure ⟨fun _ => ⟨hrest, rfl⟩, fun _ => rfl⟩

theorem unmap_mems_steps_goes {dmas : List DmaId} {blk : BlockId} (hJ : Rides K J)
    (hK : ∀ p s, K p s → unspoiled p s) :
    Goes s₀ K J (fun _ T' => T' = T) (unmap_mems_steps dmas blk) T := by
  refine Safe.bind (Q := fun _ T' => T' = T) (safe_each (fun _ T' => T' = T)
    (fun d ds T' hT => ?_) rfl) fun _ T' hT => ?_
  · obtain rfl := hT
    exact take_back_goes hJ hK
  · obtain rfl := hT
    exact goes_quiet (k := pure) hJ (fewer_of_quiet (kfree_quiet quiet_dma_heap _))
      (kfree_quiet quiet_at _) fun _ => safe_pure rfl

theorem group_dma_map_steps_goes {argp : Nat} {params : BAFS_IOC_DMA_MAP_MEM_PARAMS} {g : GroupId}
    {l : List CtrlId} {env : GroupDmaMapEnv} (hJ : Rides K J) (hK : ∀ p s, K p s → unspoiled p s)
    (hx : s₀.files.get i = some x) (hg : s₀.view.group_ctrls g = some l) :
    Goes s₀ K J (fun _ T' => T' = T) (group_dma_map_steps argp params g x.ctx env) T := by
  refine safe_ite (fun _ => safe_pure rfl) fun _ => ?_
  refine goes_single (R := fun r T' => r.ctrls = l ∧ T' = T) hJ fewer_load (fun h H v s hr _ => ?_)
    fun r T' hT => ?_
  · obtain ⟨z, hz, hl⟩ := hr.at_view.group_live ((congrFun hr.ground.group_ctrls g).trans hg)
    exact (wp_group_at hz).mpr ⟨h, T, hr.leaves, hl, rfl⟩
  obtain ⟨rfl, rfl⟩ := hT
  have hknown : ∀ ci ∈ r.ctrls.zipIdx, ctrl_known s₀ ci.1 := fun ci hci =>
    .inr ⟨g, _, hg, (List.mem_zipIdx' hci).2 ▸ List.getElem_mem _⟩
  refine kzalloc_goes hJ fun b => ?_
  cases b with
  | none => exact safe_pure rfl
  | some blk =>
    refine (group_map_loop_steps_goes hJ hx hknown).bind fun r T' hT => ?_
    obtain rfl := hT
    obtain ⟨acc, ret⟩ := r
    cases ret with
    | some ret => exact (unmap_mems_steps_goes hJ hK).bind fun _ T' hT => safe_pure hT
    | none =>
      refine copy_to_user_goes hJ fun left => safe_ite (fun _ => ?_) fun _ => safe_pure rfl
      exact (unmap_mems_steps_goes hJ hK).bind fun _ T' hT => safe_pure hT

end DmaMap

/-- Every thread keeps the invariant and holds nothing at its end. -/
theorem racer_goes (ht : Tame s₀) (hJ : Rides K J) (hK : ∀ p s, K p s → unspoiled p s)
    (r : Racer s₀) : Goes s₀ K J (fun _ T' => T' = 0) r.steps 0 := by
  cases r with
  | ctrl_dma_map f x hf arg env =>
    have hc : ctrl_known s₀ x.ctrl := .inl ⟨f, x, hf, rfl⟩
    refine goes_single (R := fun _ T' => T' = one_ref .ctrl x.ctrl) hJ
      (fewer_of_adds (A := no_call) bafs_get_ctrl_adds fun _ he => he) (fun h H v s hr _ => ?_)
      fun _ T' hT => ?_
    · exact wp_mono (racing_ctrl_get hr hc) fun _ _ hr' => ⟨h, _, by simpa using hr'.leaves, rfl⟩
    obtain rfl := hT
    refine (ctrl_dma_map_steps_goes hJ hK hf hc).bind fun ret T' hT => ?_
    obtain rfl := hT
    refine goes_single (R := fun _ T' => T' = 0) hJ
      (fewer_of_adds (A := no_call) bafs_ctrl_release_adds fun _ he => he) (fun h H v s hr _ => ?_)
      fun _ T' hT => safe_pure hT
    exact wp_mono (racing_ctrl_put hr) fun _ _ hr' => ⟨h, 0, by simpa using hr'.leaves, rfl⟩
  | group_dma_map f x hf arg env =>
    obtain ⟨l, hl⟩ := ht.groups f x hf
    refine goes_single (R := fun _ T' => T' = one_ref .group x.group) hJ
      (fewer_of_adds (A := no_call) bafs_get_group_adds fun _ he => he) (fun h H v s hr _ => ?_)
      fun _ T' hT => ?_
    · exact wp_mono (racing_group_get hr hl) fun _ _ hr' => ⟨h, _, by simpa using hr'.leaves, rfl⟩
    obtain rfl := hT
    refine (group_dma_map_steps_goes hJ hK hf hl).bind fun ret T' hT => ?_
    obtain rfl := hT
    refine goes_single (R := fun _ T' => T' = 0) hJ
      (fewer_of_adds (A := no_call) bafs_put_group_adds fun _ he => he) (fun h H v s hr _ => ?_)
      fun _ T' hT => safe_pure hT
    exact wp_mono (racing_group_put hr hl) fun _ _ hr' => ⟨h, 0, by simpa using hr'.leaves, rfl⟩
  | munmap v =>
    have hgoes : Goes s₀ K J (fun _ T' => T' = 0) (free_step (do
        let reply ← step (.munmap v)
        pure reply.ret) >>= pure) 0 := by
      refine goes_single (R := fun _ T' => T' = 0) hJ (.bind munmap_fewer fun _ => .pure _)
        (fun h H u s hr _ => ?_) fun _ T' hT => safe_pure hT
      exact (racing_munmap ht hr).bind fun _ _ hl => hl.imp fun h' hl => ⟨0, hl, rfl⟩
    exact hgoes
  | revoke t =>
    refine safe_single fun H s hI hp => ?_
    obtain ⟨⟨h, hr⟩, hj⟩ := hI
    refine (wp_and (racing_revoke hr) (revoke_fewer s)).bind fun _ s' hs' => ?_
    obtain ⟨rfl | ⟨m, v', hr', hrev⟩, hfew⟩ := hs'
    · exact ⟨0, ⟨⟨h, hr⟩, hj⟩, rfl⟩
    · obtain rfl := hr'.at_view.view
      exact ⟨0, ⟨⟨h, hr'⟩, hJ.revoke s s' m hj hfew hrev⟩, rfl⟩

end Threads

/-! ## All threads -/

section All

variable {s₀ : State} {K : Mark → State → Prop} {J : State → Prop}

/-- A reachable state in which threads may start. -/
theorem race_start (hi : Inv s₀) (ht : Tame s₀) : ∃ h, Racing s₀ h 0 s₀.view s₀ := by
  obtain ⟨h, hl, hs⟩ := hi.sane.at
  refine ⟨h, ⟨hs.congr ?_, ?_, fun m hm => absurd hm (Nat.lt_irrefl 0)⟩⟩
  · rw [refs_held_zero, add_zero]
  exact ⟨fun k i hk _ => hl.nonneg k i hk, fun m _ _ _ => hl.mem m, fun m _ _ hc => absurd hc.1 hc.2,
    fun _ _ hw => hw, rfl, rfl, fun g l hg => hs.group_pos hg, ht.pointers,
    fun m f hm => ⟨hi.tidy.fits m f hm, ht.tables m f hm, hi.tidy.alive m f hm⟩⟩

/-- In every schedule whose steps meet their conditions the threads keep the invariant, and none of
them gets stuck. -/
theorem race_throughout (hi : Inv s₀) (ht : Tame s₀) (hJ : Rides K J)
    (hK : ∀ p s, K p s → unspoiled p s) (hj : J s₀) {sched : List Nat} {rs : List (Racer s₀)}
    (hm : Meets K sched (race rs) s₀) : Throughout (fun _ => False)
      (AllSafe (Raced s₀ J) K (fun _ => False) fun _ _ T => T = 0) sched (race rs) s₀ := by
  refine AllSafe.throughout ⟨List.replicate rs.length 0, ?_, fun i t T hti hTi => ?_, ?_⟩ hm
  · rw [List.length_replicate, race, List.length_map]
  · obtain ⟨r, -, rfl⟩ := List.getElem?_map.symm.trans hti |> Option.map_eq_some_iff.mp
    obtain rfl := List.eq_of_mem_replicate (List.mem_of_getElem? hTi)
    exact racer_goes ht hJ hK r
  · rw [List.sum_replicate, nsmul_zero]
    exact ⟨race_start hi ht, hj⟩

/-- All threads are done. -/
def all_done (ts : List (Thread Int)) : Prop := ∀ t ∈ ts, ∃ ret, t = .done ret

theorem all_raced {ts : List (Thread Int)} {s : State}
    (hts : AllSafe (Raced s₀ J) K (fun _ => False) (fun _ _ T => T = 0) ts s) :
    (∃ h T, Racing s₀ h T s.view s) ∧ J s := by
  obtain ⟨hs, -, -, ⟨h, hr⟩, hj⟩ := hts
  exact ⟨⟨h, _, hr⟩, hj⟩

/-- The steps do what their marks say. -/
structure Truthful (β : Type) (p : Mark) (c : Drv β) : Prop where
  take_back : ∀ d, p = .take_back d → ∀ s, s.dmas.get d = none →
    ¬wp c (fun _ => False) (fun _ _ => True) s
  insert : ∀ y, p = .insert y → ∀ s, wp c (fun _ => True) (fun _ s' => s'.dmas = s.dmas.alloc y ∧
    s'.vmas = s.vmas ∧ s'.view.mems = s.view.mems) s

theorem truthful_plain {β : Type} {c : Drv β} : Truthful β .plain c :=
  ⟨(fun _ hp => by cases hp), fun _ hp => by cases hp⟩

theorem each_step_free {β : Type} {c : Drv β} : EachStep Truthful (free_step c) :=
  each_step_single truthful_plain

theorem each_step_take_back {d : DmaId} :
    EachStep Truthful (single (.take_back d) (bafs_ctrl_dma_unmap_mem d)) := by
  refine each_step_single ⟨fun e he s hn hwp => ?_, fun _ hp => by cases hp⟩
  obtain rfl := Mark.take_back.inj he
  unfold bafs_ctrl_dma_unmap_mem dma_at load at hwp
  rw [wp_bind, wp_bind, wp_get, hn] at hwp
  exact hwp

theorem dma_map_steps_truthful {c : CtrlId} {ctx : CtxId} {vaddr n_dma_addrs user ctrl_id : Nat}
    {env : DmaMapEnv} :
    EachStep Truthful (dma_map_steps c ctx vaddr n_dma_addrs user ctrl_id env) := by
  refine each_step_free.bind fun r => ?_
  cases r with
  | none => exact each_step_pure _
  | some m =>
    refine each_step_free.bind fun r => ?_
    obtain ⟨ret, n, y⟩ := r
    cases y with
    | none => exact each_step_pure _
    | some y =>
      refine EachStep.bind (each_step_single ⟨(fun _ hp => by cases hp), fun z hz s => ?_⟩) fun d =>
        each_step_pure _
      obtain rfl := Mark.insert.inj hz
      exact publish_dma_alloc trivial

theorem unmap_mems_steps_truthful {dmas : List DmaId} {blk : BlockId} :
    EachStep Truthful (unmap_mems_steps dmas blk) :=
  (each_step_each (fun _ => each_step_take_back) _).bind fun _ => each_step_free

theorem racer_truthful (r : Racer s₀) : EachStep Truthful r.steps := by
  cases r with
  | ctrl_dma_map f x hf arg env =>
    refine each_step_free.bind fun _ => EachStep.bind ?_ fun ret => each_step_free.bind fun _ =>
      each_step_pure _
    refine each_step_ite (each_step_pure _) (dma_map_steps_truthful.bind fun r => ?_)
    obtain ⟨ret, n, d⟩ := r
    cases d with
    | none => exact each_step_pure _
    | some d =>
      exact each_step_free.bind fun left => each_step_ite
        (each_step_take_back.bind fun _ => each_step_pure _) (each_step_pure _)
  | group_dma_map f x hf arg env =>
    refine each_step_free.bind fun _ => EachStep.bind ?_ fun ret => each_step_free.bind fun _ =>
      each_step_pure _
    refine each_step_ite (each_step_pure _) (each_step_free.bind fun y => each_step_free.bind fun b => ?_)
    cases b with
    | none => exact each_step_pure _
    | some blk =>
      refine EachStep.bind (each_step_iterate (fun ci acc => ?_) _ _) fun r => ?_
      · refine dma_map_steps_truthful.bind fun r => ?_
        obtain ⟨ret, n, d⟩ := r
        cases d with
        | none => exact each_step_pure _
        | some d => exact each_step_pure _
      · obtain ⟨acc, ret⟩ := r
        cases ret with
        | some ret => exact unmap_mems_steps_truthful.bind fun _ => each_step_pure _
        | none =>
          exact each_step_free.bind fun left => each_step_ite
            (unmap_mems_steps_truthful.bind fun _ => each_step_pure _) (each_step_pure _)
  | munmap v => exact each_step_free
  | revoke t => exact each_step_single ⟨(fun _ hp => by cases hp), fun _ hp => by cases hp⟩

/-- A schedule that keeps a property keeps to the condition that a step breaks it without. -/
theorem race_meets {P : State → Prop} {sched : List Nat} {rs : List (Racer s₀)}
    (hback : ∀ d s, (∃ y, s.dmas.get d = some y) → K (.take_back d) s)
    (hinsert : ∀ y s s', P s → P s' → s'.dmas = s.dmas.alloc y → s'.vmas = s.vmas →
      s'.view.mems = s.view.mems → K (.insert y) s)
    (hplain : ∀ s, K .plain s) (hrevoke : ∀ t s, K (.revoke t) s)
    (h : Throughout (fun _ => False) (fun _ => P) sched (race rs) s₀) :
    Meets K sched (race rs) s₀ := by
  refine h.meets (S := Truthful) (fun β p c s hS hP hc => ?_) fun t ht => ?_
  · cases p with
    | plain => exact hplain s
    | revoke t => exact hrevoke t s
    | take_back d =>
      refine hback d s (Option.ne_none_iff_exists'.mp fun hn => ?_)
      exact hS.take_back d rfl s hn (wp_mono hc fun _ _ _ => trivial)
    | insert y =>
      obtain ⟨b, s', -, hP', hd, hv, hm⟩ := wp_ends (wp_and hc (hS.insert y rfl s))
      exact hinsert y s s' hP hP' hd hv hm
  · obtain ⟨r, -, rfl⟩ := List.mem_map.mp ht
    exact racer_truthful r

end All

/-! ## What goes wrong, and when -/

/-! ### A state to start in -/

instance (x : BafsMem) : Decidable (missing_table x) :=
  inferInstanceAs (Decidable (_ ∧ _ ∧ _))

/-- Whether every object of the heap passes a test. -/
def passes {α : Type} (h : Heap α) (p : Nat → α → Bool) : Bool :=
  (List.range h.next).all fun i => (h.get i).all (p i)

theorem passes_get {α : Type} {h : Heap α} {p : Nat → α → Bool} (hp : passes h p = true) {i : Nat}
    {a : α} (hi : h.get i = some a) : p i a = true := by
  have hall := List.all_eq_true.mp hp i (List.mem_range.mpr (Heap.lt_next_of_get hi))
  rw [hi] at hall
  exact hall

/-- Whether threads may start in the state. -/
def tame (s : State) : Bool :=
  passes s.vmas (fun i w => w.closes.all fun m => (s.mems.get m).isSome &&
    passes s.vmas fun j u => decide (u.closes = some m → i = j)) &&
  passes s.dmas (fun _ y => (s.mems.get y.mem).isSome) &&
  passes s.tables (fun t x => !x.pinned || (s.mems.get x.data).any fun y =>
    decide (y.loc = BAFS_MEM_CUDA ∧ y.cuda_page_table = some t ∧ y.state ≠ .DEAD_CB ∧
      y.state ≠ .STALE)) &&
  passes s.mems (fun _ x => decide ¬missing_table x) &&
  passes s.files fun _ f => match f with
    | .group x => (s.groups.get x.group).isSome
    | _ => true

theorem tame_of_test {s : State} (ht : tame s = true) : Tame s := by
  unfold tame at ht
  simp only [Bool.and_eq_true] at ht
  obtain ⟨⟨⟨⟨hv, hd⟩, ht⟩, hm⟩, hf⟩ := ht
  have hmem : ∀ m, (s.mems.get m).isSome = true → ∃ f, s.view.mems m = some f := fun m h =>
    view_mem_iff.mpr (Option.isSome_iff_exists.mp h)
  have hvma : ∀ i w m, s.vmas.get i = some w → w.closes = some m → (s.mems.get m).isSome = true ∧
      passes s.vmas (fun j u => decide (u.closes = some m → i = j)) = true := by
    intro i w m hw hc
    have h := passes_get hv hw
    rw [hc] at h
    exact Bool.and_eq_true_iff.mp h
  refine ⟨⟨fun i w m hw hc => hmem m (hvma i w m hw hc).1, fun d m c hdm => ?_, fun t x hx hp => ?_⟩,
    fun i j w u m hw hu hc hc' => ?_, fun m f hmf => ?_, fun i x hx => ?_⟩
  · obtain ⟨y, hy, hym⟩ := Option.map_eq_some_iff.mp hdm
    obtain ⟨rfl, -⟩ := Prod.mk.inj hym
    exact hmem y.mem (passes_get hd hy)
  · have h := passes_get ht hx
    rw [hp] at h
    obtain ⟨y, hy, hyp⟩ := (Option.any_eq_true _ _).mp h
    exact ⟨y.fields, congrArg (Option.map _) hy, of_decide_eq_true hyp⟩
  · exact of_decide_eq_true (passes_get (hvma i w m hw hc).2 hu) hc'
  · obtain ⟨x, hx, rfl⟩ := Option.map_eq_some_iff.mp hmf
    have h := passes_get hm hx
    exact of_decide_eq_true h
  · have h := passes_get hf hx
    obtain ⟨y, hy⟩ := Option.isSome_iff_exists.mp h
    exact ⟨y.ctrls, congrArg (Option.map _) hy⟩

/-- A process has mapped CUDA memory and opened a controller. -/
def mapped_cuda : List Request :=
  [.bind 0 0x10000000 0x4000, .open_ctrl 0 a_task granted_open,
    .reg_mem 0 BAFS_CTRL_IOC_REG_MEM 4096 BAFS_MEM_CUDA, .map 0 0x1000 1 1]

def cuda_start : State := final step mapped_cuda init

theorem cuda_start_run : run step mapped_cuda init = .ok cuda_start :=
  (run_final (p := fun _ => true) (by decide +kernel)).1

theorem cuda_start_tame : Tame cuda_start := tame_of_test (by decide +kernel)

deriving instance DecidableEq for BafsCtrlCtx, BafsGroupCtx, File

/-- The memory is mapped for DMA, its VMA is closed, and its pages are revoked. -/
def cuda_racers : List (Racer cuda_start) :=
  [.ctrl_dma_map 0 { blk := 1, ctrl := 0, ctx := 0 } (by decide +kernel) { no_arg with
      dma_map_mem := { vaddr := 0x1000, dma_addrs := 0, n_dma_addrs := 16 } } granted_ioctl,
    .munmap 0, .revoke 0]

/-- Whether the threads have returned this, and the state is as wanted. -/
def ends_with (rets : List (Option Int)) (q : State → Bool) (rets' : List (Option Int)) (s : State) :
    Bool := decide (rets' = rets) && q s

theorem ends_with_iff {rets rets' : List (Option Int)} {q : State → Bool} {s : State} :
    ends_with rets q rets' s = true ↔ rets' = rets ∧ q s = true := by
  simp [ends_with]

section Results

variable {s₀ : State} {rs : List Request}

/-- Nothing points to a registration that has been freed. When no thread runs any more, the count of a
registration is that of its DMA mappings, and one more until its VMA is closed. -/
structure Sound (s₀ : State) (ts : List (Thread Int)) (s : State) : Prop where
  pointers : Pointers s.view
  counted : all_done ts → ∀ m x, s.mems.get m = some x →
    (vma_closed s₀ s.view m → x.ref = dma_holders s m) ∧
    (¬vma_closed s₀ s.view m → x.ref = 1 + dma_holders s m)

/-- Whether the mapping that is taken back is still there. -/
def still_there : Mark → State → Bool
  | .take_back d, s => (s.dmas.get d).isSome
  | _, _ => true

theorem unspoiled_of_test {p : Mark} {s : State} (hp : still_there p s = true) : unspoiled p s := by
  cases p with
  | take_back d => exact Option.isSome_iff_exists.mp hp
  | _ => trivial

/-- A mapping goes into the list of a registration before the VMA of this is closed. -/
def in_time (s₀ : State) : Mark → State → Prop
  | .insert y, s => ¬vma_closed s₀ s.view y.mem
  | p, s => unspoiled p s

/-- A registration whose VMA has been closed has no DMA mapping, and when no thread runs any more it has
been freed. -/
structure Cleared (s₀ : State) (ts : List (Thread Int)) (s : State) : Prop where
  bare : ∀ m, vma_closed s₀ s.view m → ∀ d y, s.dmas.get d = some y → y.mem ≠ m
  released : all_done ts → ∀ m, vma_closed s₀ s.view m → s.mems.get m = none

/-- Whether the VMA of the registration is open when the mapping is inserted. -/
def inserted_open : Mark → State → Bool
  | .insert y, s => (List.range s.vmas.next).any fun i =>
    (s.vmas.get i).any fun w => decide (w.closes = some y.mem)
  | p, s => still_there p s

theorem in_time_of_test {p : Mark} {s : State} (hp : inserted_open p s = true) : in_time s₀ p s := by
  cases p with
  | insert y =>
    obtain ⟨i, -, hi⟩ := List.any_eq_true.mp hp
    obtain ⟨w, hw, hc⟩ := (Option.any_eq_true _ _).mp hi
    exact fun hcl => hcl.2 ⟨i, w, hw, of_decide_eq_true hc⟩
  | take_back d => exact Option.isSome_iff_exists.mp hp
  | _ => trivial

/-- A mapping that is inserted after the close stays. -/
example : ends (ends_with [some 0, some 0, none] fun s =>
    decide ((s.dmas.get 0).map BafsMemDma.mem = some 0)) [0, 0, 0, 1, 0, 0, 0] (race cuda_racers)
      cuda_start = true := by
  decide +kernel

/-- A mapping of the NVIDIA driver goes into the list of a registration before the pages of this are
revoked. -/
def before_revoke : Mark → State → Prop
  | .insert y, s => ∀ x, s.mems.get y.mem = some x → x.state = .DEAD_CB → y.cuda_mapping = none
  | p, s => unspoiled p s

/-- A registration whose pages have been revoked has no page table, and none of its DMA mappings has a
mapping of the NVIDIA driver. -/
def Stripped (s : State) : Prop := ∀ m x, s.mems.get m = some x → x.state = .DEAD_CB →
  x.cuda_page_table = none ∧ ∀ d y, s.dmas.get d = some y → y.mem = m → y.cuda_mapping = none

/-- Whether the pages are there when a mapping of the NVIDIA driver is inserted. -/
def inserted_live : Mark → State → Bool
  | .insert y, s => (s.mems.get y.mem).all fun x =>
    decide (x.state = .DEAD_CB → y.cuda_mapping = none)
  | p, s => still_there p s

theorem before_revoke_of_test {p : Mark} {s : State} (hp : inserted_live p s = true) :
    before_revoke p s := by
  cases p with
  | insert y => exact fun x hx => of_decide_eq_true ((Option.all_eq_true _ _).mp hp x hx)
  | take_back d => exact Option.isSome_iff_exists.mp hp
  | _ => trivial

theorem stripped_of_test {s : State} (hp : passes s.mems (fun _ x => decide (x.state ≠ .DEAD_CB)) = true) :
    Stripped s := fun _ _ hx hst => absurd hst (of_decide_eq_true (passes_get hp hx))

/-- A mapping of the NVIDIA driver that is inserted after the callback stays. -/
example : ends (ends_with [some 0, none, some 0] fun s =>
    decide ((s.mems.get 0).map BafsMem.state = some .DEAD_CB ∧
      (s.dmas.get 0).map BafsMemDma.cuda_mapping = some (some 0))) [0, 0, 0, 2, 0, 0, 0]
        (race cuda_racers) cuda_start = true := by
  decide +kernel

end Results

end BafsDriver
