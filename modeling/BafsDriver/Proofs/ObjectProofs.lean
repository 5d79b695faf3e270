import BafsDriver.Proofs.WellFormed

/-!
# The invariant under a change of one object

For each kind of object, what an update, a new object or a freed one does to `WF`. The tokens of
`h'` and `h` differ at that object only.
-/

namespace BafsDriver

open Prog

variable {h h' : Held Kind} {s : State}

theorem dma_holders_pos {d : DmaId} {y : BafsMemDma} {m : MemId} (hd : s.dmas.get d = some y)
    (hm : y.mem = m) : 0 < dma_holders s m :=
  Heap.count_pos (p := fun y : BafsMemDma => y.mem = m) hd hm

/-! ## Contexts -/

/-- A table without entries. -/
theorem alist_eq_empty {xa : AList (fun _ : Nat => MemId)} (h : ∀ i, xa.lookup i = none) : xa = ∅ := by
  refine AList.ext ?_
  refine List.eq_nil_iff_forall_not_mem.mpr fun e he => ?_
  have := AList.mem_lookup_iff.mpr he
  rw [h e.1] at this
  cases this

/-- Contexts, the global table and the contexts released change, nothing else. -/
theorem WF.with_ctxs (hs : WF h s) {X : Heap BafsCtx} {G : AList (fun _ : Nat => CtxId)}
    {L : List CtxRelease} (hk : ∀ k j, k ≠ .ctx → h' k j = h k j)
    (hctx : X.Exact BafsCtx.ref fun c => ctx_holders s c + h' .ctx c)
    (ht : CtxTables { s with ctxs := X, bafs_global_ctx_xa := G })
    (hlog : X.FreedOnce fun c => (L.map CtxRelease.ctx).count c)
    (hclear : ∀ e ∈ L, e.mem_list = [] ∧ e.bafs_mem_xa = ∅ ∧ e.files = 0) :
    WF h' { s with ctxs := X, bafs_global_ctx_xa := G, ctx_log := L } where
  ctx := hctx
  mem := hs.mem.congr fun m => by rw [hk .mem m (by decide)]; rfl
  ctrl := hs.ctrl.congr fun c => by rw [hk .ctrl c (by decide)]; rfl
  group := hs.group.congr fun g => by rw [hk .group g (by decide)]; rfl
  device := hs.device.congr fun d => by rw [hk .device d (by decide)]; rfl
  tables := ⟨ht.1, ht.2, ht.3, ht.4, ht.5⟩
  dmas := ⟨hs.dmas.1, hs.dmas.2⟩
  tree := ⟨hs.tree.1, hs.tree.2⟩
  fresh := ⟨fun m hm => by rw [hk .mem m (by decide)]; exact hs.fresh.1 m hm,
    fun g hg => by rw [hk .group g (by decide)]; exact hs.fresh.2 g hg⟩
  logs := ⟨hs.logs.1, hs.logs.2, hs.logs.3, hs.logs.4, hlog, hclear⟩

theorem CtxTables.set_ref (ht : CtxTables s) {c : CtxId} {x x' : BafsCtx}
    (hc : s.ctxs.get c = some x) (hl : x'.mem_list = x.mem_list)
    (hxa : x'.bafs_mem_xa = x.bafs_mem_xa) (hg : x'.tgid = x.tgid) :
    CtxTables { s with ctxs := s.ctxs.set c x' } := by
  -- a context of the new state is one of the old state up to its count
  have hget : ∀ c' y, (s.ctxs.set c x').get c' = some y → ∃ y₀, s.ctxs.get c' = some y₀ ∧
      y.mem_list = y₀.mem_list ∧ y.bafs_mem_xa = y₀.bafs_mem_xa ∧ y.tgid = y₀.tgid := by
    intro c' y hy
    rcases Heap.get_set_cases hc hy with ⟨rfl, rfl⟩ | ⟨-, hy⟩
    · exact ⟨x, hc, hl, hxa, hg⟩
    · exact ⟨y, hy, rfl, rfl, rfl⟩
  have hback : ∀ c' y₀, s.ctxs.get c' = some y₀ → ∃ y, (s.ctxs.set c x').get c' = some y ∧
      y.mem_list = y₀.mem_list ∧ y.bafs_mem_xa = y₀.bafs_mem_xa ∧ y.tgid = y₀.tgid := by
    intro c' y₀ hy
    rw [Heap.get_set hc]
    by_cases hcc : c' = c
    · rw [hcc, hc] at hy
      obtain rfl : x = y₀ := by simpa using hy
      exact ⟨x', by rw [if_pos hcc], hl, hxa, hg⟩
    · exact ⟨y₀, by rw [if_neg hcc, hy], rfl, rfl, rfl⟩
  refine ⟨fun t c' => ?_, fun m y hm => ?_, fun c' y hy => ?_, fun c' y m hy hm => ?_,
    fun c' y i m hy hi => ?_⟩
  · refine (ht.global t c').trans ⟨?_, ?_⟩
    · rintro ⟨y₀, hy₀, rfl⟩
      obtain ⟨y, hy, -, -, hyt⟩ := hback c' y₀ hy₀
      exact ⟨y, hy, hyt⟩
    · rintro ⟨y, hy, rfl⟩
      obtain ⟨y₀, hy₀, -, -, hyt⟩ := hget c' y hy
      exact ⟨y₀, hy₀, hyt.symm⟩
  · obtain ⟨y₀, hy₀, h1, h2⟩ := ht.mem_listed m y hm
    obtain ⟨y', hy', hyl, hyx, -⟩ := hback _ y₀ hy₀
    exact ⟨y', hy', by rw [hyl]; exact h1, by rw [hyx]; exact h2⟩
  · obtain ⟨y₀, hy₀, hyl, -, -⟩ := hget c' y hy
    rw [hyl]
    exact ht.newest_first c' y₀ hy₀
  · obtain ⟨y₀, hy₀, hyl, -, -⟩ := hget c' y hy
    exact ht.listed c' y₀ m hy₀ (hyl ▸ hm)
  · obtain ⟨y₀, hy₀, -, hyx, -⟩ := hget c' y hy
    exact ht.stored c' y₀ i m hy₀ (hyx ▸ hi)

/-- The count of a context changes by the tokens handed out. -/
theorem WF.ctx_ref (hs : WF h s) {c : CtxId} {x x' : BafsCtx} (hc : s.ctxs.get c = some x)
    (hl : x'.mem_list = x.mem_list) (hxa : x'.bafs_mem_xa = x.bafs_mem_xa) (ht : x'.tgid = x.tgid)
    (hk : ∀ k j, ¬(k = .ctx ∧ j = c) → h' k j = h k j)
    (hr : (x'.ref : ℤ) = x.ref + (h' .ctx c - h .ctx c)) (hp : 0 < x'.ref) :
    WF h' { s with ctxs := s.ctxs.set c x' } := by
  refine hs.with_ctxs (fun k j hne => hk k j fun e => hne e.1) ?_
    (hs.tables.set_ref hc hl hxa ht) (hs.logs.ctx.set hc) hs.logs.ctx_clear
  refine hs.ctx.update hc (fun j hj => by rw [hk .ctx j fun e => hj e.2]) ?_ hp
  have := hs.ctx.eq c x hc
  omega

/-- A context to which nobody refers is freed and leaves the global table. -/
theorem WF.ctx_free (hs : WF h s) {c : CtxId} {x : BafsCtx} (hc : s.ctxs.get c = some x)
    (hk : ∀ k j, ¬(k = .ctx ∧ j = c) → h' k j = h k j) (hz : ctx_holders s c = 0)
    (hh : h' .ctx c = 0) :
    WF h' { s with
      ctxs := s.ctxs.free c
      bafs_global_ctx_xa := s.bafs_global_ctx_xa.erase x.tgid
      ctx_log := ⟨c, x.mem_list, x.bafs_mem_xa, s.files.count fun f => f.ctx = c⟩ :: s.ctx_log } := by
  have hmem : ∀ m y, s.mems.get m = some y → y.ctx ≠ c := by
    intro m y hm hy
    have := Heap.count_pos (p := fun y => y.ctx = c) hm hy
    unfold ctx_holders at hz
    omega
  refine hs.with_ctxs (fun k j hne => hk k j fun e => hne e.1) ?_ ?_ (hs.logs.ctx.free hc fun j => ?_)
    fun e he => ?_
  · exact hs.ctx.free (fun j hj => by rw [hk .ctx j fun e => hj e.2]) (by rw [hz, hh]; rfl)
  · refine ⟨fun t c' => ?_, fun m y hm => ?_, fun c' y hy => ?_, fun c' y m hy hm => ?_,
      fun c' y i m hy hi => ?_⟩
    · by_cases ht : t = x.tgid
      · subst ht
        constructor
        · intro hl
          rw [AList.lookup_erase] at hl
          cases hl
        · rintro ⟨y, hy, hyt⟩
          obtain ⟨hcc, hy'⟩ := Heap.get_of_free hy
          have h1 := (hs.tables.global x.tgid c').mpr ⟨y, hy', hyt⟩
          have h2 := (hs.tables.global x.tgid c).mpr ⟨x, hc, rfl⟩
          rw [h1] at h2
          exact absurd (Option.some.inj h2) hcc
      · rw [AList.lookup_erase_ne ht, hs.tables.global t c']
        constructor
        · rintro ⟨y, hy, hyt⟩
          have hcc : c' ≠ c := by
            rintro rfl
            rw [hc] at hy
            exact ht (by rw [← hyt, Option.some.inj hy])
          exact ⟨y, by rw [Heap.get_free, if_neg hcc, hy], hyt⟩
        · rintro ⟨y, hy, hyt⟩
          exact ⟨y, (Heap.get_of_free hy).2, hyt⟩
    · obtain ⟨y', hy', h1, h2⟩ := hs.tables.mem_listed m y hm
      exact ⟨y', by rw [Heap.get_free, if_neg (hmem m y hm), hy'], h1, h2⟩
    · exact hs.tables.newest_first c' y (Heap.get_of_free hy).2
    · exact hs.tables.listed c' y m (Heap.get_of_free hy).2 hm
    · exact hs.tables.stored c' y i m (Heap.get_of_free hy).2 hi
  · rw [List.map_cons, List.count_cons]
    simp only [beq_iff_eq, eq_comm (a := c)]
  · rcases List.mem_cons.mp he with rfl | he
    · refine ⟨List.eq_nil_iff_forall_not_mem.mpr fun m hm => ?_, ?_, ?_⟩
      · obtain ⟨y, hy, hyc⟩ := hs.tables.listed c x m hc hm
        exact hmem m y hy hyc
      · refine alist_eq_empty fun i => ?_
        cases hi : x.bafs_mem_xa.lookup i with
        | none => rfl
        | some m =>
          obtain ⟨-, y, hy, hyc, -⟩ := hs.tables.stored c x i m hc hi
          exact absurd hyc (hmem m y hy)
      · show s.files.count _ = 0
        unfold ctx_holders at hz
        omega
    · exact hs.logs.ctx_clear e he

/-- A new context without registrations, under an index of the global table that is free. -/
theorem WF.ctx_alloc (hs : WF h s) {x : BafsCtx} (hx : x.ref = 1) (hl : x.mem_list = [])
    (hxa : x.bafs_mem_xa = ∅) (ht : s.bafs_global_ctx_xa.lookup x.tgid = none) :
    WF (h + tok Kind.ctx s.ctxs.next)
      { s with ctxs := s.ctxs.alloc x
               bafs_global_ctx_xa := s.bafs_global_ctx_xa.insert x.tgid s.ctxs.next } := by
  have hnone := hs.ctx.none s.ctxs.next Heap.get_next
  refine hs.with_ctxs (fun k j hne => add_tok_off h fun e => hne e.1) ?_ ?_ hs.logs.ctx.alloc
    hs.logs.ctx_clear
  · refine hs.ctx.alloc (fun j hj => by rw [add_tok_off h fun e => hj e.2]) ?_ (by omega)
    rw [add_tok_self]
    omega
  · refine ⟨fun t c' => ?_, fun m y hm => ?_, fun c' y hy => ?_, fun c' y m hy hm => ?_,
      fun c' y i m hy hi => ?_⟩
    · by_cases htt : t = x.tgid
      · subst htt
        rw [AList.lookup_insert]
        constructor
        · intro e
          obtain rfl : s.ctxs.next = c' := by simpa using e
          exact ⟨x, by rw [Heap.get_alloc, if_pos rfl], rfl⟩
        · rintro ⟨y, hy, hyt⟩
          rcases Heap.get_alloc_cases hy with ⟨hcc, -⟩ | hy
          · rw [hcc]
          · rw [(hs.tables.global x.tgid c').mpr ⟨y, hy, hyt⟩] at ht
            cases ht
      · rw [AList.lookup_insert_ne htt, hs.tables.global t c']
        constructor
        · rintro ⟨y, hy, hyt⟩
          exact ⟨y, Heap.get_alloc_of_get hy, hyt⟩
        · rintro ⟨y, hy, hyt⟩
          rcases Heap.get_alloc_cases hy with ⟨-, rfl⟩ | hy
          · exact absurd hyt.symm htt
          · exact ⟨y, hy, hyt⟩
    · obtain ⟨y', hy', h1, h2⟩ := hs.tables.mem_listed m y hm
      exact ⟨y', Heap.get_alloc_of_get hy', h1, h2⟩
    · rcases Heap.get_alloc_cases hy with ⟨-, rfl⟩ | hy
      · rw [hl]
        exact List.Pairwise.nil
      · exact hs.tables.newest_first c' y hy
    · rcases Heap.get_alloc_cases hy with ⟨-, rfl⟩ | hy
      · rw [hl] at hm
        cases hm
      · exact hs.tables.listed c' y m hy hm
    · rcases Heap.get_alloc_cases hy with ⟨-, rfl⟩ | hy
      · rw [hxa] at hi
        cases hi
      · exact hs.tables.stored c' y i m hy hi

/-! ## Registrations -/

/-- A registration of the new heap is one of the old heap up to the fields that the tables of the
contexts do not depend on. -/
structure SameMems (M M' : Heap BafsMem) : Prop where
  fwd : ∀ m x, M.get m = some x → ∃ x', M'.get m = some x' ∧ x'.ctx = x.ctx ∧ x'.mem_id = x.mem_id
  bwd : ∀ m x', M'.get m = some x' → ∃ x, M.get m = some x ∧ x'.ctx = x.ctx ∧ x'.mem_id = x.mem_id

theorem SameMems.set {M : Heap BafsMem} {m : MemId} {x x' : BafsMem} (hm : M.get m = some x)
    (hc : x'.ctx = x.ctx) (hi : x'.mem_id = x.mem_id) : SameMems M (M.set m x') := by
  refine ⟨fun n z hz => ?_, fun n z hz => ?_⟩
  · rw [Heap.get_set hm]
    by_cases hn : n = m
    · rw [hn, hm] at hz
      obtain rfl := Option.some.inj hz
      exact ⟨x', by rw [if_pos hn], hc, hi⟩
    · exact ⟨z, by rw [if_neg hn, hz], rfl, rfl⟩
  · rcases Heap.get_set_cases hm hz with ⟨rfl, rfl⟩ | ⟨-, hz⟩
    · exact ⟨x, hm, hc, hi⟩
    · exact ⟨z, hz, rfl, rfl⟩

theorem CtxTables.same_mems (ht : CtxTables s) {s' : State} (hM : SameMems s.mems s'.mems)
    (hc : s'.ctxs = s.ctxs) (hg : s'.bafs_global_ctx_xa = s.bafs_global_ctx_xa) :
    CtxTables s' := by
  refine ⟨?_, fun m x hm => ?_, ?_, fun c y m hy hl => ?_, fun c y i m hy hi => ?_⟩
  · rw [hc, hg]
    exact ht.global
  · obtain ⟨x₀, hx₀, e1, e2⟩ := hM.bwd m x hm
    rw [hc, e1, e2]
    exact ht.mem_listed m x₀ hx₀
  · rw [hc]
    exact ht.newest_first
  · rw [hc] at hy
    obtain ⟨x, hx, hxc⟩ := ht.listed c y m hy hl
    obtain ⟨x', hx', e1, -⟩ := hM.fwd m x hx
    exact ⟨x', hx', e1.trans hxc⟩
  · rw [hc] at hy
    obtain ⟨h1, x, hx, hxc, hxi⟩ := ht.stored c y i m hy hi
    obtain ⟨x', hx', e1, e2⟩ := hM.fwd m x hx
    exact ⟨h1, x', hx', e1.trans hxc, e2.trans hxi⟩

theorem DmaLists.set_mem (hd : DmaLists s) {m : MemId} {x x' : BafsMem}
    (hm : s.mems.get m = some x) (hl : x'.dma_list = x.dma_list) :
    DmaLists { s with mems := s.mems.set m x' } := by
  refine ⟨fun n z hz => ?_, fun n z d hz => ?_⟩ <;>
    rcases Heap.get_set_cases hm hz with ⟨rfl, rfl⟩ | ⟨-, hz⟩
  · rw [hl]
    exact hd.nodup _ x hm
  · exact hd.nodup n z hz
  · rw [hl]
    exact hd.listed _ x d hm
  · exact hd.listed n z d hz

/-- Fields of a registration change that the tables do not depend on; its count changes by the tokens
handed out. -/
theorem WF.mem_set (hs : WF h s) {m : MemId} {x x' : BafsMem} (hm : s.mems.get m = some x)
    (hc : x'.ctx = x.ctx) (hi : x'.mem_id = x.mem_id) (hd : x'.dma_list = x.dma_list)
    (hk : ∀ k j, ¬(k = .mem ∧ j = m) → h' k j = h k j)
    (hr : (x'.ref : ℤ) = x.ref + (h' .mem m - h .mem m)) (hp : 0 < x'.ref) :
    WF h' { s with mems := s.mems.set m x' } := by
  have hkn : ∀ k j, k ≠ .mem → h' k j = h k j := fun k j hne => hk k j fun e => hne e.1
  have hcount : ∀ c, ctx_holders { s with mems := s.mems.set m x' } c = ctx_holders s c := by
    intro c
    have : (s.mems.set m x').count (fun x => x.ctx = c) = s.mems.count fun x => x.ctx = c :=
      Heap.sum_set_eq hm (by simp only [hc])
    exact congrArg (s.files.count (fun f => f.ctx = c) + ·) this
  refine
    { ctx := hs.ctx.congr fun c => by rw [hkn .ctx c (by decide), hcount c]
      mem := ?_
      ctrl := hs.ctrl.congr fun c => by rw [hkn .ctrl c (by decide)]; rfl
      group := hs.group.congr fun g => by rw [hkn .group g (by decide)]; rfl
      device := hs.device.congr fun d => by rw [hkn .device d (by decide)]; rfl
      tables := hs.tables.same_mems (SameMems.set hm hc hi) rfl rfl
      dmas := hs.dmas.set_mem hm hd
      tree := ⟨hs.tree.1, hs.tree.2⟩
      fresh := ?_
      logs := ⟨hs.logs.mem.set hm, hs.logs.2, hs.logs.3, hs.logs.4, hs.logs.5, hs.logs.6⟩ }
  · refine hs.mem.update hm (fun j hj => by rw [hk .mem j fun e => hj e.2]; rfl) ?_ hp
    have := hs.mem.eq m x hm
    show (x'.ref : ℤ) = 1 + dma_holders s m + h' .mem m
    omega
  · refine ⟨fun n hn => ?_, fun g hg => ?_⟩
    · have hn' : s.mems.next ≤ n := by simpa using hn
      have hne : n ≠ m := fun e => by
        have := Heap.lt_next_of_get hm
        omega
      rw [hk .mem n fun e => hne e.2]
      exact hs.fresh.mem n hn'
    · rw [hkn .group g (by decide)]
      exact hs.fresh.group g hg

/-- Fields of a registration change that neither the tables nor the counts depend on. -/
theorem WF.mem_fields (hs : WF h s) {m : MemId} {x x' : BafsMem} (hm : s.mems.get m = some x)
    (hc : x'.ctx = x.ctx) (hi : x'.mem_id = x.mem_id) (hd : x'.dma_list = x.dma_list)
    (hr : x'.ref = x.ref) : WF h { s with mems := s.mems.set m x' } :=
  hs.mem_set hm hc hi hd (fun _ _ _ => rfl) (by rw [hr]; omega)
    (by rw [hr]; exact hs.mem.pos m x hm)

/-- A new registration is entered in the tables of its context, whose reference it takes over. -/
theorem WF.mem_alloc {c : CtxId} (hs : WF (h + tok Kind.ctx c) s) {y : BafsCtx} {x : BafsMem}
    (hc : s.ctxs.get c = some y) (hxc : x.ctx = c) (hxr : x.ref = 1) (hxd : x.dma_list = [])
    (hxi : y.bafs_mem_xa.lookup x.mem_id = none) (hlt : x.mem_id < 2 ^ 31) :
    WF h { s with
      mems := s.mems.alloc x
      ctxs := s.ctxs.set c { y with
        bafs_mem_xa := y.bafs_mem_xa.insert x.mem_id s.mems.next
        mem_list := s.mems.next :: y.mem_list } } := by
  have hkn : ∀ k j, k ≠ .ctx → h k j = (h + tok Kind.ctx c) k j := fun k j hne =>
    (add_tok_off h fun e => hne e.1).symm
  obtain ⟨hf1, hf2⟩ := hs.fresh.mem s.mems.next le_rfl
  have hdue : ∀ j, ((s.files.count fun f => f.ctx = j) + (s.mems.alloc x).count fun x => x.ctx = j
      : ℕ) + h .ctx j = (ctx_holders s j : ℤ) + (h + tok Kind.ctx c) .ctx j := by
    intro j
    unfold Heap.count
    rw [Heap.sum_alloc]
    by_cases hj : j = c
    · subst hj
      rw [add_tok_self, if_pos hxc]
      simp only [ctx_holders, Heap.count]
      omega
    · rw [add_tok_off h fun e => hj e.2, if_neg fun e => hj (e.symm.trans hxc)]
      simp only [ctx_holders, Heap.count]
      omega
  have hfresh : ∀ c' y' i, s.ctxs.get c' = some y' → s.mems.next ∉ y'.mem_list ∧
      y'.bafs_mem_xa.lookup i ≠ some s.mems.next := by
    intro c' y' i hy'
    refine ⟨fun hm => ?_, fun hm => ?_⟩
    · obtain ⟨z, hz, -⟩ := hs.tables.listed c' y' _ hy' hm
      rw [Heap.get_next] at hz
      cases hz
    · obtain ⟨-, z, hz, -⟩ := hs.tables.stored c' y' i _ hy' hm
      rw [Heap.get_next] at hz
      cases hz
  refine
    { ctx := (hs.ctx.congr hdue).set_same hc rfl
      mem := ?_
      ctrl := hs.ctrl.congr fun c => by rw [hkn .ctrl c (by decide)]; rfl
      group := hs.group.congr fun g => by rw [hkn .group g (by decide)]; rfl
      device := hs.device.congr fun d => by rw [hkn .device d (by decide)]; rfl
      tables := ?_
      dmas := ?_
      tree := ⟨hs.tree.1, hs.tree.2⟩
      fresh := ?_
      logs := ⟨hs.logs.mem.alloc, hs.logs.2, hs.logs.3, hs.logs.4, hs.logs.ctx.set hc, hs.logs.6⟩ }
  · refine hs.mem.alloc (fun j _ => by rw [hkn .mem j (by decide)]; rfl) ?_ (by omega)
    show (x.ref : ℤ) = 1 + dma_holders s s.mems.next + h .mem s.mems.next
    rw [hkn .mem _ (by decide)]
    omega
  · refine ⟨fun t c' => ?_, fun m z hm => ?_, fun c' y' hy' => ?_, fun c' y' m hy' hm => ?_,
      fun c' y' i m hy' hi => ?_⟩
    · refine (hs.tables.global t c').trans ⟨?_, ?_⟩
      · rintro ⟨z, hz, hzt⟩
        show ∃ z, (s.ctxs.set c _).get c' = some z ∧ _
        rw [Heap.get_set hc]
        by_cases hcc : c' = c
        · rw [hcc, hc] at hz
          exact ⟨_, if_pos hcc, by rw [← hzt, ← Option.some.inj hz]⟩
        · exact ⟨z, by rw [if_neg hcc, hz], hzt⟩
      · rintro ⟨z, hz, hzt⟩
        rcases Heap.get_set_cases hc hz with ⟨rfl, rfl⟩ | ⟨-, hz⟩
        · exact ⟨y, hc, hzt⟩
        · exact ⟨z, hz, hzt⟩
    · show ∃ y', (s.ctxs.set c _).get z.ctx = some y' ∧ _
      rcases Heap.get_alloc_cases hm with ⟨rfl, rfl⟩ | hm
      · rw [hxc, Heap.get_set_self hc]
        exact ⟨_, rfl, List.mem_cons_self .., AList.lookup_insert _⟩
      · obtain ⟨y', hy', h1, h2⟩ := hs.tables.mem_listed m z hm
        rw [Heap.get_set hc]
        by_cases hcc : z.ctx = c
        · rw [hcc, hc] at hy'
          obtain rfl := Option.some.inj hy'
          refine ⟨_, if_pos hcc, List.mem_cons_of_mem _ h1, ?_⟩
          rw [AList.lookup_insert_ne (fun e => by rw [e, hxi] at h2; cases h2)]
          exact h2
        · exact ⟨y', by rw [if_neg hcc, hy'], h1, h2⟩
    · rcases Heap.get_set_cases hc hy' with ⟨rfl, rfl⟩ | ⟨-, hy'⟩
      · refine List.pairwise_cons.mpr ⟨fun n hn => ?_, hs.tables.newest_first c' y hc⟩
        obtain ⟨z, hz, -⟩ := hs.tables.listed c' y n hc hn
        exact Heap.lt_next_of_get hz
      · exact hs.tables.newest_first c' y' hy'
    · show ∃ z, (s.mems.alloc x).get m = some z ∧ _
      rcases Heap.get_set_cases hc hy' with ⟨rfl, rfl⟩ | ⟨-, hy'⟩
      · rcases List.mem_cons.mp hm with rfl | hm
        · exact ⟨x, by rw [Heap.get_alloc, if_pos rfl], hxc⟩
        · obtain ⟨z, hz, hzc⟩ := hs.tables.listed c' y m hc hm
          exact ⟨z, Heap.get_alloc_of_get hz, hzc⟩
      · obtain ⟨z, hz, hzc⟩ := hs.tables.listed c' y' m hy' hm
        exact ⟨z, Heap.get_alloc_of_get hz, hzc⟩
    · show i < 2 ^ 31 ∧ ∃ z, (s.mems.alloc x).get m = some z ∧ _
      have hold : ∀ y'', s.ctxs.get c' = some y'' → y''.bafs_mem_xa.lookup i = some m →
          i < 2 ^ 31 ∧ ∃ z, (s.mems.alloc x).get m = some z ∧ z.ctx = c' ∧ z.mem_id = i := by
        intro y'' hy'' hi'
        obtain ⟨h1, z, hz, hzc, hzi⟩ := hs.tables.stored c' y'' i m hy'' hi'
        exact ⟨h1, z, Heap.get_alloc_of_get hz, hzc, hzi⟩
      rcases Heap.get_set_cases hc hy' with ⟨rfl, rfl⟩ | ⟨-, hy'⟩
      · by_cases hii : i = x.mem_id
        · subst hii
          rw [AList.lookup_insert] at hi
          obtain rfl : s.mems.next = m := by simpa using hi
          exact ⟨hlt, x, by rw [Heap.get_alloc, if_pos rfl], hxc, rfl⟩
        · rw [AList.lookup_insert_ne hii] at hi
          exact hold y hc hi
      · exact hold y' hy' hi
  · refine ⟨fun m z hm => ?_, fun m z d hm => ?_⟩ <;>
      rcases Heap.get_alloc_cases hm with ⟨rfl, rfl⟩ | hm
    · rw [hxd]
      exact List.nodup_nil
    · exact hs.dmas.nodup m z hm
    · rw [hxd]
      constructor
      · intro hd
        cases hd
      · rintro ⟨w, hw, hwm⟩
        have := dma_holders_pos (s := s) hw hwm
        omega
    · exact hs.dmas.listed m z d hm
  · refine ⟨fun n hn => ?_, fun g hg => ?_⟩
    · rw [hkn .mem n (by decide)]
      refine hs.fresh.mem n ?_
      have : s.mems.next + 1 ≤ n := by simpa using hn
      omega
    · rw [hkn .group g (by decide)]
      exact hs.fresh.group g hg

/-- A registration leaves the tables of its context and is given up; its reference to the context is
handed out. DMA mappings may still point to it. -/
theorem WF.mem_free (hs : WF h s) {m : MemId} {x : BafsMem} {y : BafsCtx}
    (hm : s.mems.get m = some x) (hc : s.ctxs.get x.ctx = some y) :
    WF (h + tok Kind.ctx x.ctx) { s with
      mems := s.mems.free m
      mem_log := m :: s.mem_log
      ctxs := s.ctxs.set x.ctx { y with
        mem_list := y.mem_list.erase m
        bafs_mem_xa := y.bafs_mem_xa.erase x.mem_id } } := by
  have hkn : ∀ k j, k ≠ .ctx → (h + tok Kind.ctx x.ctx) k j = h k j := fun k j hne =>
    add_tok_off h fun e => hne e.1
  have hdue : ∀ j, ((s.files.count fun f => f.ctx = j) + (s.mems.free m).count fun z => z.ctx = j
      : ℕ) + (h + tok Kind.ctx x.ctx) .ctx j = (ctx_holders s j : ℤ) + h .ctx j := by
    intro j
    have hsum := Heap.sum_free (f := fun z => if z.ctx = j then 1 else 0) hm
    by_cases hj : j = x.ctx
    · subst hj
      rw [add_tok_self]
      simp only [ctx_holders, Heap.count] at hsum ⊢
      simp only [if_true] at hsum
      omega
    · rw [add_tok_off h fun e => hj e.2]
      rw [if_neg (Ne.symm hj)] at hsum
      simp only [ctx_holders, Heap.count]
      omega
  -- another registration of this context is stored under another index
  have hother : ∀ n z, s.mems.get n = some z → n ≠ m → z.ctx = x.ctx → z.mem_id ≠ x.mem_id := by
    intro n z hz hne hzc hzi
    obtain ⟨y₁, hy₁, -, h1⟩ := hs.tables.mem_listed n z hz
    obtain ⟨y₂, hy₂, -, h2⟩ := hs.tables.mem_listed m x hm
    rw [hzc, hy₂] at hy₁
    rw [← Option.some.inj hy₁, hzi, h2] at h1
    exact hne (Option.some.inj h1).symm
  have hnd := hs.tables.list_nodup hc
  refine
    { ctx := (hs.ctx.congr hdue).set_same hc rfl
      mem := hs.mem.free fun j _ => by rw [hkn .mem j (by decide)]; rfl
      ctrl := hs.ctrl.congr fun c => by rw [hkn .ctrl c (by decide)]; rfl
      group := hs.group.congr fun g => by rw [hkn .group g (by decide)]; rfl
      device := hs.device.congr fun d => by rw [hkn .device d (by decide)]; rfl
      tables := ?_
      dmas := ⟨fun n z hz => hs.dmas.nodup n z (Heap.get_of_free hz).2,
        fun n z d hz => hs.dmas.listed n z d (Heap.get_of_free hz).2⟩
      tree := ⟨hs.tree.1, hs.tree.2⟩
      fresh := ?_
      logs := ⟨hs.logs.mem.free hm fun j => ?_, hs.logs.2, hs.logs.3, hs.logs.4, hs.logs.ctx.set hc,
        hs.logs.6⟩ }
  · refine ⟨fun t c' => ?_, fun n z hz => ?_, fun c' y' hy' => ?_, fun c' y' n hy' hn => ?_,
      fun c' y' i n hy' hi => ?_⟩
    · refine (hs.tables.global t c').trans ⟨?_, ?_⟩
      · rintro ⟨z, hz, hzt⟩
        show ∃ z, (s.ctxs.set x.ctx _).get c' = some z ∧ _
        rw [Heap.get_set hc]
        by_cases hcc : c' = x.ctx
        · rw [hcc, hc] at hz
          exact ⟨_, if_pos hcc, by rw [← hzt, ← Option.some.inj hz]⟩
        · exact ⟨z, by rw [if_neg hcc, hz], hzt⟩
      · rintro ⟨z, hz, hzt⟩
        rcases Heap.get_set_cases hc hz with ⟨rfl, rfl⟩ | ⟨-, hz⟩
        · exact ⟨y, hc, hzt⟩
        · exact ⟨z, hz, hzt⟩
    · obtain ⟨hne, hz⟩ := Heap.get_of_free hz
      obtain ⟨y', hy', h1, h2⟩ := hs.tables.mem_listed n z hz
      show ∃ y', (s.ctxs.set x.ctx _).get z.ctx = some y' ∧ _
      rw [Heap.get_set hc]
      by_cases hcc : z.ctx = x.ctx
      · rw [hcc, hc] at hy'
        obtain rfl := Option.some.inj hy'
        refine ⟨_, if_pos hcc, (List.mem_erase_of_ne hne).mpr h1, ?_⟩
        rw [AList.lookup_erase_ne (hother n z hz hne hcc)]
        exact h2
      · exact ⟨y', by rw [if_neg hcc, hy'], h1, h2⟩
    · rcases Heap.get_set_cases hc hy' with ⟨rfl, rfl⟩ | ⟨-, hy'⟩
      · exact (hs.tables.newest_first x.ctx y hc).sublist List.erase_sublist
      · exact hs.tables.newest_first c' y' hy'
    · show ∃ z, (s.mems.free m).get n = some z ∧ _
      rcases Heap.get_set_cases hc hy' with ⟨rfl, rfl⟩ | ⟨hcc, hy'⟩
      · obtain ⟨hne, hn⟩ := hnd.mem_erase_iff.mp hn
        obtain ⟨z, hz, hzc⟩ := hs.tables.listed _ y n hc hn
        exact ⟨z, by rw [Heap.get_free, if_neg hne, hz], hzc⟩
      · obtain ⟨z, hz, hzc⟩ := hs.tables.listed c' y' n hy' hn
        have hne : n ≠ m := by
          rintro rfl
          rw [hm] at hz
          exact hcc (by rw [← hzc, ← Option.some.inj hz])
        exact ⟨z, by rw [Heap.get_free, if_neg hne, hz], hzc⟩
    · show i < 2 ^ 31 ∧ ∃ z, (s.mems.free m).get n = some z ∧ _
      rcases Heap.get_set_cases hc hy' with ⟨rfl, rfl⟩ | ⟨hcc, hy'⟩
      · have hii : i ≠ x.mem_id := by
          rintro rfl
          rw [AList.lookup_erase] at hi
          cases hi
        rw [AList.lookup_erase_ne hii] at hi
        obtain ⟨h1, z, hz, hzc, hzi⟩ := hs.tables.stored _ y i n hc hi
        have hne : n ≠ m := by
          rintro rfl
          rw [hm] at hz
          exact hii (by rw [← hzi, ← Option.some.inj hz])
        exact ⟨h1, z, by rw [Heap.get_free, if_neg hne, hz], hzc, hzi⟩
      · obtain ⟨h1, z, hz, hzc, hzi⟩ := hs.tables.stored c' y' i n hy' hi
        have hne : n ≠ m := by
          rintro rfl
          rw [hm] at hz
          exact hcc (by rw [← hzc, ← Option.some.inj hz])
        exact ⟨h1, z, by rw [Heap.get_free, if_neg hne, hz], hzc, hzi⟩
  · refine ⟨fun n hn => ?_, fun g hg => ?_⟩
    · rw [hkn .mem n (by decide)]
      exact hs.fresh.mem n (by simpa using hn)
    · rw [hkn .group g (by decide)]
      exact hs.fresh.group g hg
  · rw [List.count_cons]
    by_cases hj : j = m
    · simp [hj]
    · simp [hj, Ne.symm hj]

/-! ## DMA mappings -/

/-- The mappings and one registration change: what is left to show when the other parts stay. -/
theorem WF.with_dmas (hs : WF h s) {m : MemId} {x x' : BafsMem} {D : Heap BafsMemDma}
    (hm : s.mems.get m = some x) (hc : x'.ctx = x.ctx) (hi : x'.mem_id = x.mem_id)
    (hr : x'.ref = x.ref) (hk : ∀ k j, k ≠ .mem → k ≠ .ctrl → h' k j = h k j)
    (hmem : ∀ n, (D.count fun y => y.mem = n : ℕ) + h' .mem n = (dma_holders s n : ℤ) + h .mem n)
    (hctrl : ∀ c, (D.count fun y => y.ctrl = c : ℕ) + h' .ctrl c =
      ((s.dmas.count fun y => y.ctrl = c : ℕ) : ℤ) + h .ctrl c)
    (hd : DmaLists { s with dmas := D, mems := s.mems.set m x' })
    (hf : ∀ n, s.mems.next ≤ n → D.count (fun y => y.mem = n) = 0) :
    WF h' { s with dmas := D, mems := s.mems.set m x' } := by
  refine
    { ctx := hs.ctx.congr fun c => ?_
      mem := (hs.mem.congr fun n => ?_).set_same hm hr
      ctrl := hs.ctrl.congr fun c => ?_
      group := hs.group.congr fun g => by rw [hk .group g (by decide) (by decide)]; rfl
      device := hs.device.congr fun d => by rw [hk .device d (by decide) (by decide)]; rfl
      tables := hs.tables.same_mems (SameMems.set hm hc hi) rfl rfl
      dmas := hd
      tree := ⟨hs.tree.1, hs.tree.2⟩
      fresh := ⟨fun n hn => ?_, fun g hg => ?_⟩
      logs := ⟨hs.logs.mem.set hm, hs.logs.2, hs.logs.3, hs.logs.4, hs.logs.5, hs.logs.6⟩ }
  · have hsum : (s.mems.set m x').count (fun x => x.ctx = c) = s.mems.count fun x => x.ctx = c :=
      Heap.sum_set_eq hm (by simp only [hc])
    have : ctx_holders { s with dmas := D, mems := s.mems.set m x' } c = ctx_holders s c :=
      congrArg (s.files.count (fun f => f.ctx = c) + ·) hsum
    rw [this, hk .ctx c (by decide) (by decide)]
  · have := hmem n
    show 1 + ((D.count fun y => y.mem = n : ℕ) : ℤ) + h' .mem n = 1 + dma_holders s n + h .mem n
    omega
  · have := hctrl c
    simp only [ctrl_holders, bound_refs]
    omega
  · have hn' : s.mems.next ≤ n := by simpa using hn
    have h1 := hmem n
    have h2 := hf n hn'
    obtain ⟨h3, h4⟩ := hs.fresh.mem n hn'
    refine ⟨h2, ?_⟩
    rw [h2, h3, h4] at h1
    simpa using h1
  · rw [hk .group g (by decide) (by decide)]
    exact hs.fresh.group g hg

/-- A new mapping takes over a reference to its registration and one to its controller. -/
theorem WF.dma_alloc {y : BafsMemDma} {x : BafsMem}
    (hs : WF (h + tok Kind.mem y.mem + tok Kind.ctrl y.ctrl) s)
    (hm : s.mems.get y.mem = some x) :
    WF h { s with
      dmas := s.dmas.alloc y
      mems := s.mems.set y.mem { x with dma_list := s.dmas.next :: x.dma_list } } := by
  refine hs.with_dmas hm rfl rfl rfl (fun k j h1 h2 => ?_) (fun n => ?_) (fun c => ?_) ⟨?_, ?_⟩
    fun n hn => ?_
  · simp [tok, h1, h2]
  · simp only [Heap.count, Heap.sum_alloc, dma_holders, Pi.add_apply, tok_kind,
      tok_ne (show Kind.mem ≠ .ctrl by decide), @eq_comm _ n]
    split <;> simp [add_assoc, add_comm]
  · simp only [Heap.count, Heap.sum_alloc, Pi.add_apply, tok_kind,
      tok_ne (show Kind.ctrl ≠ .mem by decide), @eq_comm _ c]
    split <;> simp [add_assoc, add_comm]
  · intro n z hz
    rcases Heap.get_set_cases hm hz with ⟨rfl, rfl⟩ | ⟨-, hz⟩
    · refine List.nodup_cons.mpr ⟨fun hd => ?_, hs.dmas.nodup _ x hm⟩
      obtain ⟨w, hw, -⟩ := (hs.dmas.listed _ x _ hm).mp hd
      rw [Heap.get_next] at hw
      cases hw
    · exact hs.dmas.nodup n z hz
  · intro n z d hz
    show _ ↔ ∃ w, (s.dmas.alloc y).get d = some w ∧ w.mem = n
    rw [Heap.get_alloc]
    rcases Heap.get_set_cases hm hz with ⟨rfl, rfl⟩ | ⟨hne, hz⟩
    · rw [List.mem_cons, hs.dmas.listed _ x d hm]
      by_cases hd : d = s.dmas.next
      · simp [hd]
      · simp [hd]
    · rw [hs.dmas.listed n z d hz]
      by_cases hd : d = s.dmas.next
      · simp [hd, Ne.symm hne]
      · simp [hd]
  · have h1 := (hs.fresh.mem n hn).1
    have hne : y.mem ≠ n := Nat.ne_of_lt (Nat.lt_of_lt_of_le (Heap.lt_next_of_get hm) hn)
    simp only [Heap.count, Heap.sum_alloc, if_neg hne]
    exact h1

/-- A mapping leaves the list of its registration and is given up; its two references are handed
out. -/
theorem WF.dma_free (hs : WF h s) {d : DmaId} {y : BafsMemDma} {x : BafsMem}
    (hd : s.dmas.get d = some y) (hm : s.mems.get y.mem = some x) :
    WF (h + tok Kind.mem y.mem + tok Kind.ctrl y.ctrl) { s with
      dmas := s.dmas.free d
      mems := s.mems.set y.mem { x with dma_list := x.dma_list.erase d } } := by
  refine hs.with_dmas hm rfl rfl rfl (fun k j h1 h2 => ?_) (fun n => ?_) (fun c => ?_) ⟨?_, ?_⟩
    fun n hn => ?_
  · simp [tok, h1, h2]
  · have := Heap.sum_free (f := fun y => if y.mem = n then 1 else 0) hd
    simp only [Heap.count, dma_holders, Pi.add_apply, tok_kind,
      tok_ne (show Kind.mem ≠ .ctrl by decide), @eq_comm _ n]
    split at this <;> simp [*] <;> omega
  · have := Heap.sum_free (f := fun y => if y.ctrl = c then 1 else 0) hd
    simp only [Heap.count, Pi.add_apply, tok_kind,
      tok_ne (show Kind.ctrl ≠ .mem by decide), @eq_comm _ c]
    split at this <;> simp [*] <;> omega
  · intro n z hz
    rcases Heap.get_set_cases hm hz with ⟨rfl, rfl⟩ | ⟨-, hz⟩
    · exact (hs.dmas.nodup _ x hm).erase d
    · exact hs.dmas.nodup n z hz
  · intro n z d' hz
    show _ ↔ ∃ w, (s.dmas.free d).get d' = some w ∧ w.mem = n
    rw [Heap.get_free]
    rcases Heap.get_set_cases hm hz with ⟨rfl, rfl⟩ | ⟨hne, hz⟩
    · rw [(hs.dmas.nodup _ x hm).mem_erase_iff, hs.dmas.listed _ x d' hm]
      by_cases hdd : d' = d
      · simp [hdd]
      · simp [hdd]
    · rw [hs.dmas.listed n z d' hz]
      by_cases hdd : d' = d
      · subst hdd
        simp [hd, Ne.symm hne]
      · simp [hdd]
  · have := Heap.sum_free (f := fun y => if y.mem = n then 1 else 0) hd
    have h1 : (s.dmas.sum fun y => if y.mem = n then 1 else 0) = 0 := (hs.fresh.mem n hn).1
    have h2 : ((s.dmas.free d).sum fun y => if y.mem = n then 1 else 0) = 0 := by omega
    exact h2

/-- Fields of a mapping change that the counts do not depend on. -/
theorem WF.dma_set (hs : WF h s) {d : DmaId} {y y' : BafsMemDma} (hd : s.dmas.get d = some y)
    (hm : y'.mem = y.mem) (hc : y'.ctrl = y.ctrl) :
    WF h { s with dmas := s.dmas.set d y' } := by
  have hmem : ∀ n, dma_holders { s with dmas := s.dmas.set d y' } n = dma_holders s n :=
    fun n => Heap.sum_set_eq hd (by simp only [hm])
  have hctrl : ∀ c, ctrl_holders { s with dmas := s.dmas.set d y' } c = ctrl_holders s c :=
    fun c => congrArg (_ + ·) (Heap.sum_set_eq hd (by simp only [hc]))
  refine
    { ctx := hs.ctx
      mem := hs.mem.congr fun n => by rw [hmem n]
      ctrl := hs.ctrl.congr fun c => by rw [hctrl c]
      group := hs.group
      device := hs.device
      tables := ⟨hs.tables.1, hs.tables.2, hs.tables.3, hs.tables.4, hs.tables.5⟩
      dmas := ⟨hs.dmas.nodup, fun n x d' hn => ?_⟩
      tree := ⟨hs.tree.1, hs.tree.2⟩
      fresh := ⟨fun n hn => by rw [hmem n]; exact hs.fresh.mem n hn, hs.fresh.2⟩
      logs := ⟨hs.logs.1, hs.logs.2, hs.logs.3, hs.logs.4, hs.logs.5, hs.logs.6⟩ }
  rw [hs.dmas.listed n x d' hn]
  show _ ↔ ∃ w, (s.dmas.set d y').get d' = some w ∧ w.mem = n
  rw [Heap.get_set hd]
  by_cases hdd : d' = d
  · subst hdd
    simp [hd, hm]
  · simp [hdd]

end BafsDriver
