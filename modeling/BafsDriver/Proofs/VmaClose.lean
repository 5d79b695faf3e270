import BafsDriver.Proofs.DmaOrigin
import BafsDriver.Proofs.Ownership
import BafsDriver.Scenario

/-!
# The close of a VMA

`bafs_mem_release` unmaps the DMA mappings of its registration one after another while it holds the lock
of the registration, and then drops the reference of the registration itself. How the state is after
any number of rounds, and after the whole.
-/

set_option linter.style.nameCheck false

namespace BafsDriver

open Prog

variable {h : Held Kind} {v : View} {s t : State} {E : Fault → Prop} {m : MemId} {d : DmaId}
  {c : CtrlId} {x : BafsMem} {y : BafsMemDma} {k : BafsCtrl} {l done : List DmaId}

/-! ## A reference to a controller -/

/-- The controllers after a reference to the controller `c`, which is `k`, has been dropped. -/
def put_ctrl (C : Heap BafsCtrl) (c : CtrlId) (k : BafsCtrl) : Heap BafsCtrl :=
  if k.ref = 1 then C.free c else C.set c { k with ref := k.ref - 1 }

/-- What `bafs_ctrl_release` leaves alone. -/
abbrev State.besides_ctrls (s : State) :=
  (s.ctxs, s.mems, s.dmas, s.groups, s.files, s.vmas, s.tables, s.mappings, s.pages, s.trace,
    s.mem_log, s.state_log)

/-- A reference to the controller `c`, which is `k`, is dropped. -/
structure CtrlPut (c : CtrlId) (k : BafsCtrl) (s t : State) : Prop where
  ctrls : t.ctrls = put_ctrl s.ctrls c k
  freed : ∀ b ∈ s.blocks.freed, b ∈ t.blocks.freed
  rest : t.besides_ctrls = s.besides_ctrls

theorem bafs_ctrl_release_effect (hk : s.ctrls.get c = some k) :
    wp (bafs_ctrl_release c) (fun _ => True) (fun _ t => CtrlPut c k s t) s := by
  unfold bafs_ctrl_release
  rw [wp_bind, wp_ctrl_at hk, wp_bind, wp_ctrl_upd hk]
  refine wp_ite (fun hr => ?_) fun hr => ?_
  · unfold __bafs_ctrl_release put_core_device cdev_del bafs_put_minor_number kfree
    rw [wp_bind, wp_ctrl_at (by exact Heap.get_set_self hk)]
    refine (device_destroy_keeps (f := fun s : State => (s.ctrls, s.blocks, s.besides_ctrls))
      (fun _ _ => rfl) _ _).bind fun _ s₁ hs₁ => ?_
    obtain ⟨hctrls, hs₁⟩ := Prod.mk.inj hs₁
    obtain ⟨hblocks, hrest⟩ := Prod.mk.inj hs₁
    simp only [wp_bind, wp_modify]
    refine ⟨?_, fun b hb => ?_, hrest⟩
    · rw [put_ctrl, if_pos hr]
      show s₁.ctrls.free c = _
      rw [hctrls, Heap.free_set]
    · show b ∈ (s₁.blocks.free _).freed
      rw [hblocks]
      exact List.mem_cons_of_mem _ hb
  · refine ⟨?_, fun b hb => hb, rfl⟩
    rw [put_ctrl, if_neg hr]

/-! ## A DMA mapping is unmapped -/

/-- What the unmapping leaves alone. -/
abbrev State.besides_dmas (s : State) :=
  (s.ctxs, s.groups, s.files, s.vmas, s.tables, s.mappings, s.pages, s.mem_log, s.state_log)

/-- The blocks that the unmapping of `y` frees, for the registration `x`. -/
def undone_blks (y : BafsMemDma) (x : BafsMem) : List BlockId :=
  y.blk :: if x.loc = BAFS_MEM_CPU then y.addr_blks else []

theorem undone_blocks_freed {B : Heap Unit} :
    ((undone_blocks y x B).free y.blk).freed = undone_blks y x ++ B.freed := by
  unfold undone_blocks undone_blks BafsMemDma.addr_blks
  rw [Heap.freed_free]
  split
  · cases y.addrs <;> rfl
  · rfl

/-- The DMA mapping `d`, which is `y`, of the registration `x` is unmapped. -/
structure Unmapped (d : DmaId) (y : BafsMemDma) (x : BafsMem) (k : BafsCtrl) (s t : State) :
    Prop where
  mems : t.mems = s.mems.set y.mem { x with dma_list := x.dma_list.erase d }
  dmas : t.dmas = s.dmas.free d
  ctrls : t.ctrls = put_ctrl s.ctrls y.ctrl k
  trace : t.trace = undo_calls y x ++ s.trace
  freed : ∀ b ∈ undone_blks y x ++ s.blocks.freed, b ∈ t.blocks.freed
  rest : t.besides_dmas = s.besides_dmas

theorem unmap_dma_effect (hy : s.dmas.get d = some y) (hx : s.mems.get y.mem = some x)
    (hk : s.ctrls.get y.ctrl = some k) :
    wp (unmap_dma d) (fun _ => True) (fun _ t => Unmapped d y x k s t) s := by
  unfold unmap_dma
  rw [wp_bind, wp_dma_at hy, wp_bind, wp_mem_at hx, wp_bind]
  refine (wp_mem_upd (by exact hx)).mpr ?_
  refine undo_mapping_exact.bind fun _ s₁ hs₁ => ?_
  subst hs₁
  unfold kfree
  rw [wp_bind, wp_modify, wp_bind, wp_modify]
  refine wp_mono (bafs_ctrl_release_effect (by exact hk)) fun _ t ht => ?_
  have hrest := ht.rest
  simp only [State.besides_ctrls, Prod.mk.injEq] at hrest
  obtain ⟨hctxs, hmems, hdmas, hgroups, hfiles, hvmas, htables, hmaps, hpages, htrace, hlog, hst⟩ := hrest
  refine ⟨hmems, hdmas, ht.ctrls, htrace, fun b hb => ht.freed b ?_, ?_⟩
  · show b ∈ ((undone_blocks y x s.blocks).free y.blk).freed
    rw [undone_blocks_freed]
    exact hb
  · simp only [State.besides_dmas, hctxs, hgroups, hfiles, hvmas, htables, hmaps, hpages, hlog, hst]

/-! ## The loop of the close -/

/-- How many of the DMA mappings in the list are for the controller `c`. -/
def entries_of (s : State) (l : List DmaId) (c : CtrlId) : Nat :=
  l.countP fun d => (s.dmas.get d).any fun y => y.ctrl = c

/-- What is left of a controller after `n` of its references have been dropped. -/
def less_refs (k : BafsCtrl) (n : Nat) : Option BafsCtrl :=
  if n < k.ref then some { k with ref := k.ref - n } else none

/-- The calls that undo the DMA mappings of the list, in order. -/
def undone_calls (s : State) (x : BafsMem) (l : List DmaId) : List Event :=
  l.flatMap fun d => (s.dmas.get d).elim [] fun y => (undo_calls y x).reverse

/-- The state `t` after the DMA mappings `done` of the registration `m`, which was `x` in the state `s`,
have been unmapped one after another, and those of the list `l` have not. -/
structure Emptied (m : MemId) (x : BafsMem) (s : State) (done l : List DmaId) (t : State) : Prop where
  mems : t.mems = s.mems.set m { x with dma_list := l, ref := 1 + l.length }
  dmas : ∀ d, t.dmas.get d = if d ∈ done then none else s.dmas.get d
  dmas_freed : t.dmas.freed = done.reverse ++ s.dmas.freed
  ctrls : ∀ c, t.ctrls.get c = (s.ctrls.get c).bind fun k => less_refs k (entries_of s done c)
  trace : t.trace = (undone_calls s x done).reverse ++ s.trace
  freed : ∀ b, (b ∈ s.blocks.freed ∨ ∃ d ∈ done, ∃ y, s.dmas.get d = some y ∧ b ∈ undone_blks y x) →
    b ∈ t.blocks.freed
  rest : t.besides_dmas = s.besides_dmas

/-- Dropping one more reference to the controller `c`. -/
theorem put_ctrl_less {C D : Heap BafsCtrl} {n : CtrlId → Nat} {k' : BafsCtrl}
    (hC : ∀ c, C.get c = (D.get c).bind fun k => less_refs k (n c)) (hk : C.get c = some k') (i : CtrlId) :
    (put_ctrl C c k').get i = (D.get i).bind fun k => less_refs k (n i + if i = c then 1 else 0) := by
  unfold put_ctrl
  by_cases hi : i = c
  · subst hi
    rw [if_pos rfl]
    have hi := (hC i).symm.trans hk
    cases hD : D.get i with
    | none =>
      rw [hD] at hi
      cases hi
    | some k =>
      rw [hD] at hi
      have hi : less_refs k (n i) = some k' := hi
      unfold less_refs at hi
      split at hi
      · rename_i hlt
        obtain rfl := Option.some.inj hi
        show _ = less_refs k (n i + 1)
        unfold less_refs
        by_cases hone : k.ref - n i = 1
        · rw [if_pos hone, Heap.get_free_self, if_neg (by omega)]
        · rw [if_neg hone, Heap.get_set_self hk, if_pos (by omega)]
          congr 2
      · cases hi
  · rw [if_neg hi, Nat.add_zero, ← hC i]
    split
    · rw [Heap.get_free, if_neg hi]
    · rw [Heap.get_set_ne hi]

theorem undone_calls_append {l' : List DmaId} :
    undone_calls s x (l ++ l') = undone_calls s x l ++ undone_calls s x l' := List.flatMap_append

theorem undone_calls_single (hy : s.dmas.get d = some y) :
    undone_calls s x [d] = (undo_calls y x).reverse := by
  unfold undone_calls
  rw [List.flatMap_singleton, hy, Option.elim_some]

theorem entries_of_append (hy : s.dmas.get d = some y) (c : CtrlId) :
    entries_of s (done ++ [d]) c = entries_of s done c + if c = y.ctrl then 1 else 0 := by
  unfold entries_of
  rw [List.countP_append, List.countP_singleton, hy]
  simp only [Option.any_some, decide_eq_true_eq, eq_comm (a := y.ctrl)]

/-- One round of the loop. -/
theorem Emptied.round {x₀ : BafsMem} (he : Emptied m x s done (d :: l) t)
    (hm : s.mems.get m = some x₀) (hy : s.dmas.get d = some y) (hym : y.mem = m) (hd : d ∉ done)
    (hk : t.ctrls.get y.ctrl = some k) :
    wp (do unmap_dma d; bafs_mem_put m) (fun _ => True)
      (fun _ t' => Emptied m x s (done ++ [d]) l t') t := by
  subst hym
  have hyt : t.dmas.get d = some y := by rw [he.dmas, if_neg hd, hy]
  have hxt : t.mems.get y.mem =
      some { x with dma_list := d :: l, ref := 1 + (d :: l).length } := by
    rw [he.mems, Heap.get_set_self hm]
  refine (unmap_dma_effect hyt hxt hk).bind fun _ t₁ ht₁ => ?_
  have hx₁ : t₁.mems.get y.mem = some { x with dma_list := l, ref := 1 + (d :: l).length } := by
    rw [ht₁.mems, Heap.get_set_self hxt, List.erase_cons_head]
  refine (wp_mem_put_kept hx₁ (by simp)).mpr ⟨?_, fun e => ?_, ?_, fun c => ?_, ?_, ?_, ?_⟩
  · show t₁.mems.set y.mem _ = _
    rw [ht₁.mems, he.mems, Heap.set_set, Heap.set_set]
    congr 2
  · show t₁.dmas.get e = _
    rw [ht₁.dmas, Heap.get_free, he.dmas]
    by_cases hed : e = d
    · rw [if_pos hed, if_pos (by simp [hed])]
    · rw [if_neg hed]
      simp only [List.mem_append, List.mem_singleton, hed, or_false]
  · show t₁.dmas.freed = _
    rw [ht₁.dmas, Heap.freed_free, he.dmas_freed, List.reverse_append]
    rfl
  · show t₁.ctrls.get c = _
    rw [ht₁.ctrls, entries_of_append hy]
    exact put_ctrl_less he.ctrls hk c
  · show t₁.trace = _
    rw [ht₁.trace, he.trace, undone_calls_append, undone_calls_single hy, List.reverse_append,
      List.reverse_reverse, List.append_assoc]
    rfl
  · intro b hb
    refine ht₁.freed b (List.mem_append.mpr ?_)
    obtain hb | ⟨e, he', z, hz, hb⟩ := hb
    · exact .inr (he.freed b (.inl hb))
    · rcases List.mem_append.mp he' with he' | he'
      · exact .inr (he.freed b (.inr ⟨e, he', z, hz, hb⟩))
      · rw [List.mem_singleton.mp he', hy] at hz
        obtain rfl := Option.some.inj hz
        exact .inl hb
  · exact ht₁.rest.trans he.rest

theorem At.dma_ctrl (hs : At h v s) (hh : NonNeg h) (hy : s.dmas.get d = some y) :
    ∃ k, s.ctrls.get y.ctrl = some k := by
  refine hs.wf.ctrl.exists_of_pos ?_
  have hn := hh .ctrl y.ctrl (by decide)
  have hpos := Heap.count_pos (p := fun z : BafsMemDma => z.ctrl = y.ctrl) hy rfl
  unfold ctrl_holders
  push_cast
  omega

/-- The loop of the close unmaps all DMA mappings of the registration. -/
theorem close_loop (hs : At h v s) (hh : NonNeg h) (hx : s.mems.get m = some x)
    (hr : x.ref = 1 + x.dma_list.length) :
    wp (each (fun d => do unmap_dma d; bafs_mem_put m) x.dma_list) E
      (fun _ t => Emptied m x s x.dma_list [] t) s := by
  have h0 : Emptied m x s [] x.dma_list s := by
    refine ⟨?_, fun d => (if_neg List.not_mem_nil).symm, rfl, fun c => ?_, rfl, fun b hb => ?_, rfl⟩
    · rw [← hr, Heap.set_self hx]
    · cases hk : s.ctrls.get c with
      | none => rfl
      | some k => exact (if_pos (hs.wf.ctrl.pos c k hk)).symm
    · obtain hb | ⟨d, hd, -⟩ := hb
      · exact hb
      · cases hd
  refine wp_mono (wp_each (fun l t => Closing h m x.fields (v.drop_dmas x.dma_list) l t ∧
    ∃ done, x.dma_list = done ++ l ∧ Emptied m x s done l t) (fun d l t hinv => ?_)
    ⟨hs.closing hx, [], rfl, h0⟩) fun _ t hinv => ?_
  · obtain ⟨hc, done, hl, he⟩ := hinv
    have hnodup := hs.wf.dmas.nodup m x hx
    rw [hl] at hnodup
    have hd : d ∉ done := fun hd => (List.nodup_append.mp hnodup).2.2 d hd d List.mem_cons_self rfl
    obtain ⟨y, hy, hym⟩ := (hs.wf.dmas.listed m x d hx).mp (hl ▸ List.mem_append_right _ List.mem_cons_self)
    have hyt : t.dmas.get d = some y := by rw [he.dmas, if_neg hd, hy]
    obtain ⟨k, hk⟩ : ∃ k, t.ctrls.get y.ctrl = some k := by
      obtain ⟨w, ht, -⟩ := hc
      exact ht.dma_ctrl hh hyt
    refine wp_mono (wp_and (hc.round hh) (he.round hx hy hym hd hk)) fun _ t' ht' => ⟨ht'.1, _, ?_, ht'.2⟩
    rw [hl, List.append_assoc]
    rfl
  · obtain ⟨-, done, hl, he⟩ := hinv
    rw [List.append_nil] at hl
    rw [hl]
    exact he

/-! ## The release of a registration -/

/-- The contexts after a reference to the context `c`, which is `z`, has been dropped. -/
def put_ctx (C : Heap BafsCtx) (c : CtxId) (z : BafsCtx) : Heap BafsCtx :=
  if z.ref = 1 then C.free c else C.set c { z with ref := z.ref - 1 }

/-- What `bafs_put_ctx` leaves alone. -/
abbrev State.besides_ctxs (s : State) :=
  (s.mems, s.dmas, s.ctrls, s.groups, s.files, s.vmas, s.tables, s.mappings, s.pages, s.trace,
    s.mem_log, s.state_log)

/-- A reference to the context `c`, which is `z`, is dropped. -/
structure CtxPut (c : CtxId) (z : BafsCtx) (s t : State) : Prop where
  ctxs : t.ctxs = put_ctx s.ctxs c z
  freed : ∀ b ∈ s.blocks.freed, b ∈ t.blocks.freed
  rest : t.besides_ctxs = s.besides_ctxs

theorem bafs_put_ctx_effect {c : CtxId} {z : BafsCtx} (hz : s.ctxs.get c = some z) :
    wp (bafs_put_ctx c) E (fun _ t => CtxPut c z s t) s := by
  unfold bafs_put_ctx
  rw [wp_bind, wp_ctx_at hz, wp_bind, wp_ctx_upd hz]
  refine wp_ite (fun hr => ?_) fun hr => ?_
  · unfold __bafs_core_ctx_release put_pid kfree
    rw [wp_bind, wp_ctx_at (by exact Heap.get_set_self hz)]
    simp only [wp_bind, wp_modify, Heap.free_set]
    refine ⟨?_, fun b hb => List.mem_cons_of_mem _ hb, rfl⟩
    rw [put_ctx, if_pos hr]
  · refine ⟨?_, fun b hb => hb, rfl⟩
    rw [put_ctx, if_neg hr]

/-- The pages that the release of the registration frees. -/
def released_pages (x : BafsMem) : List PageId :=
  if x.loc = BAFS_MEM_CPU then x.table_pages.take x.n_pages else []

/-- The blocks that the release of the registration frees with its pages. -/
def released_blks (x : BafsMem) : List BlockId :=
  if x.loc = BAFS_MEM_CPU then (x.cpu_page_table.map (·.1)).toList else []

/-- The calls that the release of the registration makes, in order. -/
def release_calls (x : BafsMem) : List Event :=
  if x.loc ≠ BAFS_MEM_CPU ∧ x.loc = BAFS_MEM_CUDA ∧ x.state ≠ .DEAD_CB then
    x.cuda_page_table.elim [] fun t => [.nvidia_p2p_put_pages t, .nvidia_p2p_free_page_table (some t)]
  else []

/-- What the release of the pages leaves alone. -/
abbrev State.besides_pages (s : State) :=
  (s.ctxs, s.mems, s.dmas, s.ctrls, s.groups, s.files, s.vmas, s.mappings, s.mem_log)

/-- The pages of the registration are released. -/
structure PagesReleased (x : BafsMem) (s t : State) : Prop where
  pages : t.pages = (released_pages x).foldl Heap.free s.pages
  freed : t.blocks.freed = released_blks x ++ s.blocks.freed
  trace : t.trace = (release_calls x).reverse ++ s.trace
  rest : t.besides_pages = s.besides_pages

theorem release_pages_effect (hf : table_fits x) :
    wp (release_pages x) E (fun _ t => PagesReleased x s t) s := by
  unfold release_pages
  refine wp_ite (fun hcpu => ?_) fun hcpu => ?_
  · have hcalls : release_calls x = [] := if_neg fun hne => hne.1 hcpu
    cases ht : x.cpu_page_table with
    | none =>
      refine ⟨?_, ?_, by rw [hcalls]; rfl, rfl⟩
      · rw [released_pages, if_pos hcpu, BafsMem.table_pages, ht, Option.elim_none, List.take_nil]
        rfl
      · rw [released_blks, if_pos hcpu, ht]
        rfl
    | some p =>
      obtain ⟨blk, table⟩ := p
      have hlen := (hf hcpu _ ht).1
      refine (free_pages_exact fun hlt => absurd hlt (by rw [hlen]; exact lt_irrefl _)).bind
        fun _ s₁ hs₁ => ?_
      subst hs₁
      refine ⟨?_, ?_, by rw [hcalls]; rfl, rfl⟩
      · rw [released_pages, if_pos hcpu, BafsMem.table_pages, ht]
        rfl
      · rw [released_blks, if_pos hcpu, ht]
        rfl
  · have hpages : released_pages x = [] := if_neg hcpu
    have hblks : released_blks x = [] := if_neg hcpu
    have hnone : ∀ {t : State}, release_calls x = [] → t = s → PagesReleased x s t := by
      rintro t hcalls rfl
      exact ⟨by rw [hpages]; rfl, by rw [hblks]; rfl, by rw [hcalls]; rfl, rfl⟩
    refine wp_ite (fun hcuda => ?_) fun hcuda => hnone (if_neg fun hne => hcuda hne.2.1) rfl
    cases ht : x.cuda_page_table with
    | none =>
      refine hnone ?_ rfl
      rw [release_calls, ht]
      split <;> rfl
    | some t =>
      refine wp_ite (fun hst => ?_) fun hst => hnone (if_neg fun hne => hst hne.2.2) rfl
      unfold nvidia_p2p_put_pages unpin nvidia_p2p_free_page_table emit
      simp only [wp_bind, wp_modify]
      refine ⟨by rw [hpages]; rfl, by rw [hblks]; rfl, ?_, rfl⟩
      rw [release_calls, if_pos ⟨hcpu, hcuda, hst⟩, ht]
      rfl

/-- What is left of the context `z` when the registration `m`, which is `x`, has been released. -/
def without_mem (z : BafsCtx) (m : MemId) (x : BafsMem) : BafsCtx :=
  { z with mem_list := z.mem_list.erase m, bafs_mem_xa := z.bafs_mem_xa.erase x.mem_id }

/-- What the release of a registration leaves alone. -/
abbrev State.besides_mems (s : State) :=
  (s.dmas, s.ctrls, s.groups, s.files, s.vmas, s.mappings)

/-- The registration `m`, which is `x`, of the context `z` is released. -/
structure Released (m : MemId) (x : BafsMem) (z : BafsCtx) (s t : State) : Prop where
  mems : t.mems = s.mems.free m
  mem_log : t.mem_log = m :: s.mem_log
  ctxs : t.ctxs = put_ctx (s.ctxs.set x.ctx (without_mem z m x)) x.ctx (without_mem z m x)
  pages : t.pages = (released_pages x).foldl Heap.free s.pages
  freed : ∀ b ∈ x.blk :: released_blks x ++ s.blocks.freed, b ∈ t.blocks.freed
  trace : t.trace = (release_calls x).reverse ++ s.trace
  rest : t.besides_mems = s.besides_mems

theorem __bafs_mem_release_effect {z : BafsCtx} (hx : s.mems.get m = some x)
    (hz : s.ctxs.get x.ctx = some z) (hst : x.state ≠ .STALE) (hf : table_fits x) :
    wp (__bafs_mem_release m) E (fun _ t => Released m x z s t) s := by
  unfold __bafs_mem_release unlink_mem
  rw [wp_bind, wp_mem_at hx, wp_bind, wp_ctx_upd hz]
  refine wp_ite (fun _ => ?_) fun hstale => absurd hst hstale
  refine (release_pages_effect hf).bind fun _ s₁ hs₁ => ?_
  have hrest := hs₁.rest
  simp only [State.besides_pages, Prod.mk.injEq] at hrest
  obtain ⟨hctxs, hmems, hdmas, hctrls, hgroups, hfiles, hvmas, hmaps, hlog⟩ := hrest
  have hx₁ : s₁.mems.get m = some x := (congrArg (Heap.get · m) hmems).trans hx
  have hz₁ : s₁.ctxs.get x.ctx = some (without_mem z m x) :=
    (congrArg (Heap.get · x.ctx) hctxs).trans (Heap.get_set_self hz)
  unfold set_state drop_mem kfree
  rw [wp_bind, wp_bind, wp_mem_at hx₁, wp_bind, wp_modify]
  refine (wp_mem_upd (by exact hx₁)).mpr ?_
  rw [wp_bind, wp_modify, wp_bind, wp_modify]
  refine wp_mono (bafs_put_ctx_effect (by exact hz₁)) fun _ t ht => ?_
  have hrest := ht.rest
  simp only [State.besides_ctxs, Prod.mk.injEq] at hrest
  obtain ⟨hmems₂, hdmas₂, hctrls₂, hgroups₂, hfiles₂, hvmas₂, -, hmaps₂, hpages₂, htrace₂, hlog₂, -⟩ :=
    hrest
  refine ⟨?_, ?_, ?_, hpages₂.trans hs₁.pages, fun b hb => ht.freed b ?_, htrace₂.trans hs₁.trace, ?_⟩
  · rw [hmems₂]
    show (s₁.mems.set m _).free m = _
    rw [Heap.free_set, hmems]
  · rw [hlog₂, hlog]
  · rw [ht.ctxs]
    show put_ctx s₁.ctxs x.ctx _ = _
    rw [hctxs]
    rfl
  · show b ∈ x.blk :: s₁.blocks.freed
    rw [hs₁.freed]
    exact hb
  · simp only [State.besides_mems, hdmas₂, hctrls₂, hgroups₂, hfiles₂, hvmas₂, hmaps₂, hdmas, hctrls,
      hgroups, hfiles, hvmas, hmaps]

/-- The last reference to a registration is dropped. -/
theorem bafs_mem_put_effect {z : BafsCtx} (hx : s.mems.get m = some x) (hr : x.ref = 1)
    (hz : s.ctxs.get x.ctx = some z) (hst : x.state ≠ .STALE) (hf : table_fits x) :
    wp (bafs_mem_put m) E (fun _ t => Released m x z s t) s := by
  unfold bafs_mem_put
  rw [wp_bind, wp_mem_at hx, wp_bind, wp_mem_upd hx, if_pos hr]
  refine wp_mono (__bafs_mem_release_effect (x := { x with ref := x.ref - 1 }) (z := z)
    (by exact Heap.get_set_self hx) (by exact hz) (by exact hst) (by exact hf)) fun _ t ht => ⟨?_, ht.mem_log, ht.ctxs, ht.pages, ht.freed, ht.trace, ht.rest⟩
  rw [ht.mems]
  exact Heap.free_set

/-! ## The whole -/

/-- What `bafs_mem_release` does while it holds `mem->lock`. -/
def bafs_mem_release_locked (m : MemId) : List DmaId → Drv Unit :=
  each fun d => do
    unmap_dma d
    bafs_mem_put m

/-- The calls that undo the mapping `y` for its device: each page is unmapped for a registration of CPU
memory, and the mapping of the NVIDIA driver, if it has not been revoked, for one of CUDA memory. -/
def device_calls (y : BafsMemDma) (x : BafsMem) : List Event :=
  if x.loc = BAFS_MEM_CPU then y.singles.map fun p => .dma_unmap_single p.ctrl p.addr p.len
  else if x.loc = BAFS_MEM_CUDA ∧ x.state ≠ .DEAD_CB then y.cuda_mapping.elim [] fun p =>
    [.nvidia_p2p_dma_unmap_pages y.ctrl x.cuda_page_table p, .nvidia_p2p_free_dma_mapping p]
  else []

/-- Everything of the registration `m`, which was `x` in the state `s`, has been torn down once, and
nothing else. -/
structure TornDown (m : MemId) (x : BafsMem) (s t : State) : Prop where
  /-- Each entry of the list has been removed and freed once. -/
  entries : ∀ d, t.dmas.get d = if d ∈ x.dma_list then none else s.dmas.get d
  entries_freed : t.dmas.freed = x.dma_list.reverse ++ s.dmas.freed
  entries_once : x.dma_list.Nodup ∧ ∀ d ∈ x.dma_list, ∃ y, s.dmas.get d = some y ∧
    s.blocks.freed.count y.blk = 0 ∧ t.blocks.freed.count y.blk = 1
  /-- Each device mapping has been undone once, before the pages are given up. -/
  calls : t.trace = (x.dma_list.flatMap (fun d => (s.dmas.get d).elim [] fun y => device_calls y x) ++
    release_calls x).reverse ++ s.trace
  ctrls : ∀ c, t.ctrls.get c = (s.ctrls.get c).bind fun k => less_refs k (entries_of s x.dma_list c)
  /-- `__bafs_mem_release` has run once. -/
  released : t.mem_log = m :: s.mem_log
  mems : ∀ i, t.mems.get i = if i = m then none else s.mems.get i
  /-- Each page has been freed once. -/
  pages_freed : t.pages.freed = (released_pages x).reverse ++ s.pages.freed
  pages_once : ∀ p ∈ released_pages x, s.pages.freed.count p = 0 ∧ t.pages.freed.count p = 1
  /-- The registration has left the list and the table of its context, which has one reference less. -/
  ctx : ∃ z, s.ctxs.get x.ctx = some z ∧ m ∈ z.mem_list ∧ z.bafs_mem_xa.lookup x.mem_id = some m ∧
    t.ctxs.get x.ctx = if z.ref = 1 then none else some { without_mem z m x with ref := z.ref - 1 }
  ctxs : ∀ c, c ≠ x.ctx → t.ctxs.get c = s.ctxs.get c

theorem bafs_mem_release_eq {vma : Vma} (hvma : vma.vm_private_data = some m) :
    bafs_mem_release vma = (do
      let x ← mem_at m
      ctx_kref_get x.ctx
      bafs_mem_release_locked m x.dma_list
      bafs_mem_put m
      bafs_put_ctx x.ctx) := by
  unfold bafs_mem_release
  rw [hvma]
  rfl

/-- Where the mapping has an address for each page, each is unmapped. -/
theorem Undoable.device_calls (hu : Undoable x y)
    (hn : x.loc = BAFS_MEM_CPU → y.singles.length = x.n_pages) :
    (undo_calls y x).reverse = BafsDriver.device_calls y x := by
  unfold BafsDriver.device_calls
  by_cases hcpu : x.loc = BAFS_MEM_CPU
  · rw [if_pos hcpu, hu.calls hcpu, hn hcpu, Nat.sub_self, List.range_zero, List.map_nil,
      List.append_nil, List.reverse_reverse]
  · unfold undo_calls
    rw [if_neg hcpu, if_neg hcpu]
    by_cases hcuda : x.loc = BAFS_MEM_CUDA
    · rw [if_pos hcuda]
      by_cases hst : x.state ≠ .DEAD_CB
      · rw [if_pos ⟨hcuda, hst⟩]
        cases y.cuda_mapping with
        | none => rfl
        | some p =>
          dsimp only
          rw [if_pos hst]
          rfl
      · rw [if_neg fun hc => hst hc.2]
        cases y.cuda_mapping with
        | none => rfl
        | some p =>
          dsimp only
          rw [if_neg hst]
          rfl
    · rw [if_neg hcuda, if_neg fun hc => hcuda hc.1]
      rfl

/-- The state `t` after the VMA of the registration `m`, which was `x` in the state `s`, has been
closed. -/
structure Gone (m : MemId) (x : BafsMem) (s t : State) : Prop where
  dmas : ∀ d, t.dmas.get d = if d ∈ x.dma_list then none else s.dmas.get d
  dmas_freed : t.dmas.freed = x.dma_list.reverse ++ s.dmas.freed
  trace : t.trace = (undone_calls s x x.dma_list ++ release_calls x).reverse ++ s.trace
  ctrls : ∀ c, t.ctrls.get c = (s.ctrls.get c).bind fun k => less_refs k (entries_of s x.dma_list c)
  mem_log : t.mem_log = m :: s.mem_log
  mems : ∀ i, t.mems.get i = if i = m then none else s.mems.get i
  pages : t.pages = (released_pages x).foldl Heap.free s.pages
  ctx : ∀ z, s.ctxs.get x.ctx = some z → t.ctxs.get x.ctx =
    if z.ref = 1 then none else some { without_mem z m x with ref := z.ref - 1 }
  ctxs : ∀ c, c ≠ x.ctx → t.ctxs.get c = s.ctxs.get c
  freed : ∀ b, (b ∈ x.blk :: released_blks x ++ s.blocks.freed ∨
    ∃ d ∈ x.dma_list, ∃ y, s.dmas.get d = some y ∧ b ∈ undone_blks y x) → b ∈ t.blocks.freed

/-- The context of the registration is left with one reference less. -/
theorem put_ctx_twice {C : Heap BafsCtx} {c i : CtxId} {z : BafsCtx} (hz : C.get c = some z)
    (hr : 0 < z.ref) : (put_ctx (put_ctx (C.set c { z with ref := z.ref + 1 }) c
      { z with ref := z.ref + 1 }) c z).get i =
        if i = c then (if z.ref = 1 then none else some { z with ref := z.ref - 1 }) else C.get i := by
  have hkept : put_ctx (C.set c { z with ref := z.ref + 1 }) c { z with ref := z.ref + 1 } = C := by
    rw [put_ctx, if_neg (by show z.ref + 1 ≠ 1; omega), Heap.set_set]
    exact Heap.set_self hz
  rw [hkept, put_ctx]
  by_cases hi : i = c
  · subst hi
    rw [if_pos rfl]
    split
    · exact Heap.get_free_self
    · exact Heap.get_set_self hz
  · rw [if_neg hi]
    split
    · rw [Heap.get_free, if_neg hi]
    · exact Heap.get_set_ne hi

theorem bafs_mem_release_effect {vma : Vma} (hs : At h v s) (hh : NonNeg h)
    (hvma : vma.vm_private_data = some m) (hx : s.mems.get m = some x)
    (hr : x.ref = 1 + x.dma_list.length) (hst : x.state ≠ .STALE) (hf : table_fits x) :
    wp (bafs_mem_release vma) E (fun _ t => Gone m x s t) s := by
  obtain ⟨z, hz, -⟩ := hs.wf.tables.mem_listed m x hx
  have hzr := hs.wf.ctx.pos x.ctx z hz
  rw [bafs_mem_release_eq hvma, wp_bind, wp_mem_at hx, wp_bind, ctx_kref_get, wp_ctx_upd hz]
  refine (close_loop (hs.ctx_get hz) (hh.tok _ _) hx hr).bind fun _ u he => ?_
  have hrest := he.rest
  simp only [State.besides_dmas, Prod.mk.injEq] at hrest
  obtain ⟨hctxs, -, -, -, -, -, hpages, hlog, -⟩ := hrest
  have hxu : u.mems.get m = some { x with dma_list := [], ref := 1 } := by
    rw [he.mems]
    exact Heap.get_set_self hx
  have hzu : u.ctxs.get x.ctx = some { z with ref := z.ref + 1 } := by
    rw [hctxs]
    exact Heap.get_set_self hz
  refine (bafs_mem_put_effect (x := { x with dma_list := [], ref := 1 }) hxu rfl hzu hst hf).bind
    fun _ t₁ ht₁ => ?_
  have hrest := ht₁.rest
  simp only [State.besides_mems, Prod.mk.injEq] at hrest
  obtain ⟨hdmas₁, hctrls₁, -⟩ := hrest
  have hzt : t₁.ctxs.get x.ctx = some (without_mem z m x) := by
    rw [ht₁.ctxs, put_ctx, if_neg (by show z.ref + 1 ≠ 1; omega), Heap.set_set]
    exact Heap.get_set_self hzu
  refine wp_mono (bafs_put_ctx_effect hzt) fun _ t ht => ?_
  have hrest := ht.rest
  simp only [State.besides_ctxs, Prod.mk.injEq] at hrest
  obtain ⟨hmems₂, hdmas₂, hctrls₂, -, -, -, -, -, hpages₂, htrace₂, hlog₂, -⟩ := hrest
  have hctx : ∀ i, t.ctxs.get i = if i = x.ctx then
      (if z.ref = 1 then none else some { without_mem z m x with ref := z.ref - 1 })
      else s.ctxs.get i := by
    intro i
    have htwice := put_ctx_twice (C := s.ctxs.set x.ctx (without_mem z m x)) (i := i)
      (Heap.get_set_self hz) hzr
    rw [Heap.set_set] at htwice
    rw [ht.ctxs, ht₁.ctxs, hctxs]
    show (put_ctx (put_ctx ((s.ctxs.set x.ctx _).set x.ctx _) x.ctx _) x.ctx _).get i = _
    rw [Heap.set_set]
    refine htwice.trans ?_
    by_cases hi : i = x.ctx
    · rw [if_pos hi, if_pos hi]
      rfl
    · rw [if_neg hi, if_neg hi, Heap.get_set_ne hi]
  refine ⟨?_, ?_, ?_, ?_, ?_, ?_, ?_, ?_, ?_, ?_⟩
  · rw [hdmas₂, hdmas₁]
    exact he.dmas
  · rw [hdmas₂, hdmas₁]
    exact he.dmas_freed
  · rw [htrace₂, ht₁.trace, he.trace, List.reverse_append, List.append_assoc]
    rfl
  · rw [hctrls₂, hctrls₁]
    exact he.ctrls
  · rw [hlog₂, ht₁.mem_log, hlog]
  · intro i
    rw [hmems₂, ht₁.mems, he.mems, Heap.free_set, Heap.get_free]
  · rw [hpages₂, ht₁.pages, hpages]
    rfl
  · intro z' hz'
    obtain rfl := Option.some.inj (hz.symm.trans hz')
    rw [hctx, if_pos rfl]
  · intro i hi
    rw [hctx, if_neg hi]
  · intro b hb
    refine ht.freed b (ht₁.freed b ?_)
    rcases hb with hb | hb
    · rcases List.mem_append.mp hb with hb | hb
      · exact List.mem_append_left _ hb
      · exact List.mem_append_right _ (he.freed b (.inl hb))
    · exact List.mem_append_right _ (he.freed b (.inr hb))

/-! ## The request -/

/-- Between two requests the count of a registration is that of its DMA mappings and of itself. -/
theorem Inv.mem_ref (hi : Inv s) (hx : s.mems.get m = some x) : x.ref = 1 + x.dma_list.length := by
  obtain ⟨h, hlost, hs⟩ := hi.sane.at
  have hdue := hs.wf.mem.eq m x hx
  rw [hlost.mem m, dma_holders, Heap.count_eq_length (hs.wf.dmas.nodup m x hx)
    fun d => hs.wf.dmas.listed m x d hx] at hdue
  omega

theorem Inv.close_vma_gone {w : Vma} {V : Heap Vma} {i : VmaId} (hi : Inv s)
    (hw : s.vmas.get i = some w) (hc : w.closes = some m) (hx : s.mems.get m = some x) :
    wp (close_vma w) E (fun _ t => Gone m x { s with vmas := V } t) { s with vmas := V } := by
  obtain ⟨h, hlost, hs⟩ := hi.sane.at
  have hprivate : w.vm_private_data = some m := (hi.tidy.closes i w hw).symm.trans hc
  have hxv : s.view.mems m = some x.fields := hs.mem_view hx
  have hst : x.state ≠ .STALE := hi.tidy.pinned i w m x.fields hw hprivate hxv
  have hfits : table_fits x := hi.tidy.fits m x.fields hxv
  unfold close_vma
  unfold Vma.closes at hc
  cases hops : w.vm_ops with
  | none =>
    rw [hops] at hc
    cases hc
  | some o =>
    cases o
    exact bafs_mem_release_effect (hs.with_vmas V) hlost.nonneg hprivate (by exact hx) (hi.mem_ref hx)
      hst hfits

/-- The request that closes a VMA of the registration `m`, which is `x`, tears it down. -/
theorem Inv.close_gone {r : Request} (hi : Inv s) (hr : closes_mem s.view s r m)
    (hx : s.mems.get m = some x) :
    wp (step r) E (fun _ t => ∃ V, Gone m x { s with vmas := V } t) s := by
  cases r with
  | munmap i =>
    obtain ⟨w, hw, hc⟩ := hr
    have hw : s.vmas.get i = some w := hw
    unfold step
    rw [wp_bind, wp_get, hw]
    dsimp only [unmap_vma]
    rw [wp_bind, wp_bind, wp_modify]
    exact wp_mono (hi.close_vma_gone hw hc hx) fun _ t hg => ⟨_, hg⟩
  | move i a =>
    obtain ⟨w, hw, hc, hfree⟩ := hr
    have hw : s.vmas.get i = some w := hw
    unfold step
    rw [wp_bind, wp_get, hw]
    dsimp only [unmap_vma]
    rw [wp_bind, wp_get, if_pos hfree, wp_bind, wp_modify, open_vma_eq, wp_bind, wp_pure, wp_bind,
      wp_bind, wp_modify]
    exact wp_mono (hi.close_vma_gone hw hc hx) fun _ t hg => ⟨_, hg⟩
  | _ => exact hr.elim

theorem mem_released_pages {p : PageId} (hp : p ∈ released_pages x) : p ∈ x.table_pages := by
  unfold released_pages at hp
  split at hp
  · exact List.mem_of_mem_take hp
  · cases hp

theorem page_owners_pos {p : PageId} (hx : s.mems.get m = some x) (hp : p ∈ x.table_pages) :
    0 < page_owners s p :=
  lt_of_lt_of_le (List.count_pos_iff.mpr hp)
    (Heap.le_sum (f := fun x : BafsMem => x.table_pages.count p) hx)

theorem block_owners_dma {b : BlockId} (hy : s.dmas.get d = some y) (hb : b ∈ y.blocks) :
    0 < block_owners s b := by
  have hle := Heap.le_sum (f := fun y : BafsMemDma => y.blocks.count b) hy
  have hpos := List.count_pos_iff.mpr hb
  unfold block_owners
  omega

theorem block_owners_mem {b : BlockId} (hx : s.mems.get m = some x) (hb : b ∈ x.blocks) :
    0 < block_owners s b := by
  have hle := Heap.le_sum (f := fun x : BafsMem => x.blocks.count b) hx
  have hpos := List.count_pos_iff.mpr hb
  unfold block_owners
  omega

/-- What has gone has been torn down once, if each DMA mapping has an address for each page. -/
theorem Gone.torn_down (hg : Gone m x s t) (hi : DmaInv s) (hl : 0 ≤ loose s) (hlt : 0 ≤ loose t)
    (hx : s.mems.get m = some x) (ha : ∀ d ∈ x.dma_list, ∀ y, s.dmas.get d = some y → AllPages s.view y) :
    TornDown m x s t := by
  obtain ⟨h, hlost, hs⟩ := hi.inv.sane.at
  obtain ⟨z, hz, hin, hstored⟩ := hs.wf.tables.mem_listed m x hx
  have hxv : s.view.mems m = some x.fields := congrArg (Option.map BafsMem.fields) hx
  have hlisted := fun d => hs.wf.dmas.listed m x d hx
  refine ⟨hg.dmas, hg.dmas_freed, ⟨hs.wf.dmas.nodup m x hx, fun d hd => ?_⟩, ?_, hg.ctrls, hg.mem_log,
    hg.mems, ?_, fun p hp => ?_, ⟨z, hz, hin, hstored, hg.ctx z hz⟩, hg.ctxs⟩
  · obtain ⟨y, hy, -⟩ := (hlisted d).mp hd
    have hfreed := hg.freed y.blk (.inr ⟨d, hd, y, hy, List.mem_cons_self⟩)
    exact ⟨y, hy, block_not_freed hl (block_owners_dma hy List.mem_cons_self),
      block_freed_once hlt hfreed⟩
  · rw [hg.trace]
    congr 3
    refine List.flatMap_congr fun d hd => ?_
    obtain ⟨y, hy, rfl⟩ := (hlisted d).mp hd
    rw [hy, Option.elim_some, Option.elim_some]
    have hu : Undoable x y := (hi.chunked.undoable (hi.inv.tidy.paged hxv) hy hxv)
    exact hu.device_calls fun hloc => (ha d hd y hy x.fields hxv hloc).1
  · rw [hg.pages]
    exact Heap.freed_foldl
  · refine ⟨page_not_freed hl (page_owners_pos hx (mem_released_pages hp)), page_freed_once hlt ?_⟩
    rw [hg.pages, Heap.freed_foldl]
    exact List.mem_append_left _ (List.mem_reverse.mpr hp)

/-- The close of a VMA, in any state that a run reaches: its registration is live or has been revoked,
counts its DMA mappings, and each of them was made while it was live. Everything is torn down once, and
`__bafs_mem_release` does not run while `mem->lock` is held. -/
theorem vma_close_tears_down {rs : List Request} (hr : run step rs init = .ok s)
    (hx : s.mems.get m = some x) (hst : x.state = .LIVE ∨ x.state = .DEAD_CB)
    (href : x.ref = 1 + x.dma_list.length)
    (hlive : ∀ d ∈ x.dma_list, Along step (made_live d) rs init) {vma : Vma}
    (hvma : vma.vm_private_data = some m) :
    wp (bafs_mem_release vma) (fun _ => False) (fun _ t => TornDown m x s t) s ∧
    bafs_mem_release vma s = (do
      ctx_kref_get x.ctx
      bafs_mem_release_locked m x.dma_list
      bafs_mem_put m
      bafs_put_ctx x.ctx) s ∧
    wp (do ctx_kref_get x.ctx; bafs_mem_release_locked m x.dma_list) (fun _ => False)
      (fun _ u => u.mem_log = s.mem_log) s := by
  have hi := run_dmaInv hr
  have hloan := run_loanInv hr
  obtain ⟨h, hlost, hs⟩ := hi.inv.sane.at
  have hxv : s.view.mems m = some x.fields := congrArg (Option.map BafsMem.fields) hx
  have hstale : x.state ≠ .STALE := by
    rcases hst with hst | hst <;> rw [hst] <;> decide
  have hfits : table_fits x := hi.inv.tidy.fits m x.fields hxv
  refine ⟨?_, ?_, ?_⟩
  · refine wp_mono (wp_and (bafs_mem_release_effect hs hlost.nonneg hvma hx href hstale hfits)
      (bafs_mem_release_loosens vma s)) fun _ t ht => ?_
    exact ht.1.torn_down hi hloan.loans (le_trans hloan.loans ht.2) hx fun d hd y hy =>
      run_all_pages hr (hlive d hd) hy
  · rw [bafs_mem_release_eq hvma]
    exact bind_ok (load_ok hx)
  · obtain ⟨z, hz, -⟩ := hs.wf.tables.mem_listed m x hx
    rw [wp_bind, ctx_kref_get, wp_ctx_upd hz]
    refine wp_mono (close_loop (hs.ctx_get hz) (hlost.nonneg.tok _ _) hx href) fun _ u hu => ?_
    have hrest := hu.rest
    simp only [State.besides_dmas, Prod.mk.injEq] at hrest
    exact hrest.2.2.2.2.2.2.2.1

/-- A registration of one page is mapped for DMA twice. -/
def two_maps : List Request :=
  [.bind 0 0x100000 4096, .open_ctrl 0 a_task granted_open,
    .reg_mem 0 BAFS_CTRL_IOC_REG_MEM 4096 BAFS_MEM_CPU, .map 0 0x10000 1 1, .dma_map 0 0x10000,
    .dma_map 0 0x10000]

/-- Whether each DMA mapping that a request makes is of a live registration. -/
def made_live_test (s : State) (r : Request) : Bool :=
  match step r s with
  | .error _ => true
  | .ok (_, s') => (List.range s'.dmas.next).all fun d =>
    (s'.dmas.get d).all fun y => (s.dmas.get d).isSome || (s.mems.get y.mem).any fun x => x.state = .LIVE

theorem made_live_of_test {r : Request} (ht : made_live_test s r = true) (d : DmaId) :
    made_live d s r := by
  intro hd
  unfold made_live_test at ht
  unfold wp
  cases hc : step r s with
  | error e => trivial
  | ok p =>
    rw [hc] at ht
    intro y hy
    have hall := List.all_eq_true.mp ht d (List.mem_range.mpr (Heap.lt_next_of_get hy))
    simp only [hy, hd, Option.all_some, Option.isSome_none, Bool.false_or, Option.any_eq_true,
      decide_eq_true_eq] at hall
    exact hall

/-- The close of its VMA tears both down. -/
theorem two_maps_torn_down : ∃ s x, run step two_maps init = .ok s ∧ s.mems.get 0 = some x ∧
    x.dma_list.length = 2 ∧ ∀ vma : Vma, vma.vm_private_data = some 0 →
      wp (bafs_mem_release vma) (fun _ => False) (fun _ t => TornDown 0 x s t) s := by
  have hend : ends step (fun s => (s.mems.get 0).any fun x =>
      x.state = .LIVE ∧ x.ref = 1 + x.dma_list.length ∧ x.dma_list.length = 2) two_maps init = true := by
    decide +kernel
  obtain ⟨hr, hp⟩ := run_final hend
  obtain ⟨x, hx, hp⟩ := (Option.any_eq_true ..).mp hp
  obtain ⟨hst, href, hlen⟩ := of_decide_eq_true hp
  refine ⟨_, x, hr, hx, hlen, fun vma hvma => ?_⟩
  exact (vma_close_tears_down hr hx (.inl hst) href (fun d _ =>
    along_of_tests (fun _ _ ht => made_live_of_test ht d) (by decide +kernel)) hvma).1

end BafsDriver
