import BafsDriver.Proofs.NvidiaObjects

/-!
# What becomes of the objects of the NVIDIA driver

The close of a VMA, the callback and the pin, each with the page tables and the mappings that it gets
and destroys.
-/

set_option linter.style.nameCheck false

namespace BafsDriver

open Prog Disposal

variable {h : Held Kind} {v : View} {s s' t : State} {E : Fault → Prop} {X : Reading}

/-! ## The close of a VMA -/

/-- What makes no call leaves what has been called. -/
theorem calls_kept {α β : Type} {c : Drv α} {p : Event → Option β} (hc : Adds no_call c) (s : State) :
    wp c (fun _ => True) (fun _ s' => calls p s' = calls p s) s :=
  wp_mono (hc s) fun _ _ hg => hg.calls fun _ he => he.elim

section Close

variable {m : MemId} {x : BafsMem} {w : Vma}

/-- The release destroys the page table once, where only the free functions do or there is none. -/
theorem release_pages_tables
    (hl : ∀ t, x.cuda_page_table = some t → x.loc = BAFS_MEM_CUDA ∧ x.state = .LIVE)
    (hX : X = .release_destroys → x.cuda_page_table = none) :
    wp (release_pages x) (fun _ => True)
      (fun _ s' => calls X.table_of s' = x.cuda_page_table.toList ++ calls X.table_of s) s := by
  unfold release_pages
  cases ht : x.cuda_page_table with
  | none =>
    refine wp_ite (fun _ => ?_) fun _ => wp_ite (fun _ => rfl) fun _ => rfl
    cases x.cpu_page_table with
    | none => rfl
    | some p => exact calls_kept (.bind free_pages_adds fun _ => kfree_adds) s
  | some t =>
    obtain ⟨hloc, hst⟩ := hl t ht
    have hB : X = .free_destroys := by
      cases X with
      | release_destroys => cases ht.symm.trans (hX rfl)
      | free_destroys => rfl
    subst hB
    rw [if_neg (by rw [hloc]; decide), if_pos hloc]
    exact wp_ite (fun _ => rfl) fun hn => absurd (by rw [hst]; decide) hn

/-- The release of a registration destroys its page table once. -/
theorem bafs_mem_put_last_tables (hx : s.mems.get m = some x) (hr : x.ref = 1)
    (hl : ∀ t, x.cuda_page_table = some t → x.loc = BAFS_MEM_CUDA ∧ x.state = .LIVE)
    (hX : X = .release_destroys → x.cuda_page_table = none) :
    wp (bafs_mem_put m) (fun _ => True)
      (fun _ s' => calls X.table_of s' = x.cuda_page_table.toList ++ calls X.table_of s) s := by
  have hdrop : Adds no_call (do drop_mem m; kfree x.blk; bafs_put_ctx x.ctx) :=
    .bind (Adds.modify fun _ => rfl) fun _ => .bind kfree_adds fun _ => bafs_put_ctx_adds
  unfold bafs_mem_put
  rw [wp_bind, wp_mem_at hx, wp_bind, wp_mem_upd hx, if_pos hr]
  unfold __bafs_mem_release
  rw [wp_bind, wp_mem_at (Heap.get_set_self hx)]
  refine (calls_kept (p := X.table_of) unlink_mem_adds _).bind fun _ s₁ h₁ => ?_
  refine wp_ite (fun _ => ?_) fun hst => ?_
  · refine (release_pages_tables (x := { x with ref := x.ref - 1 }) hl hX).bind fun _ s₂ h₂ => ?_
    refine (calls_kept (p := X.table_of) set_state_adds s₂).bind fun _ s₃ h₃ => ?_
    refine wp_mono (calls_kept (p := X.table_of) hdrop s₃) fun _ s₄ h₄ => ?_
    rw [h₄, h₃, h₂, h₁]
    rfl
  · have hnone : x.cuda_page_table = none := by
      cases ht : x.cuda_page_table with
      | none => rfl
      | some t => exact absurd (by rw [(hl t ht).2]; decide) hst
    refine wp_mono (calls_kept (p := X.table_of) hdrop s₁) fun _ s₂ h₂ => ?_
    rw [h₂, h₁, hnone]
    rfl

/-- One round of the loop of the close keeps the account. -/
theorem Closing.round_accounted {f : BafsMem} {u : View} {d : DmaId} {l : List DmaId}
    (hc : Closing h m f u (d :: l) s) (hh : NonNeg h) (hf : ¬(X = .release_destroys ∧
      f.loc = BAFS_MEM_CUDA ∧ f.state = .LIVE)) (ha : Accounted X u s) :
    wp (do unmap_dma d; bafs_mem_put m) (fun _ => True) (fun _ s' => Accounted X u s') s := by
  obtain ⟨w, hs, hwm, -, hlist, hw⟩ := hc
  obtain ⟨c, hd⟩ := hlist d List.mem_cons_self
  obtain ⟨y, hy, rfl, rfl⟩ := hs.dma_live hd
  obtain ⟨x, hx, rfl⟩ := hs.mem_live hwm
  have hmems : w.mems = u.mems := by
    rw [← hw]
    rfl
  have htables : w.tables = u.tables := by
    rw [← hw]
    rfl
  have haw : Accounted X w s := ha.of_view hmems htables
  have hbare : X = .release_destroys → y.cuda_mapping = none := by
    intro hA
    cases hp : y.cuda_mapping with
    | none => rfl
    | some p =>
      obtain ⟨f, hf', hloc, hst⟩ := haw.live.mappings d y p hy hp
      obtain rfl := Option.some.inj (hf'.symm.trans hwm)
      exact absurd ⟨hA, hloc, hst⟩ hf
  refine (unmap_dma_destroyed hs hh hy hx haw.live (hs.destroyed_once haw) hbare).bind
    fun _ s₁ hs₁ => ?_
  obtain ⟨ho₁, hd₁, hs₁⟩ := hs₁
  have ha₁ := hs₁.accounted ho₁ (haw.live.free hd₁)
  refine wp_mono (wp_and (bafs_mem_put_spec (E := fun _ => True) hs₁ hh hwm)
    (bafs_mem_put_shared (E := fun _ => True) hs₁ hh hwm)) fun _ s₂ hs₂ => ?_
  obtain ⟨hs₂, x₁, hx₁, hput⟩ := hs₂
  have hd₂ : s₂.dmas = s₁.dmas := by rw [hput]
  have ha₂ := hs₂.accounted (ho₁.put hx₁ hput) (ha₁.live.keep hd₂)
  exact ha₂.of_view hmems.symm htables.symm

theorem unpinned_next {T : Heap P2pPageTable} {t : TableId} : (unpinned T t).next = T.next := by
  unfold unpinned
  cases T.get t with
  | none => rfl
  | some x => exact Heap.next_set

theorem released_tables_next {T : Heap P2pPageTable} : (released_tables T x).next = T.next := by
  unfold released_tables
  split
  · rfl
  · split
    · exact unpinned_next
    · rfl

/-- The release of a registration that is not mapped keeps the account. -/
theorem Accounted.release {f : BafsMem} (ha : Accounted X v s) (hm : v.mems m = some f)
    (hd : s'.dmas = s.dmas) (hp : s'.mappings = s.mappings)
    (hdm : ∀ d y, s.dmas.get d = some y → y.mem ≠ m)
    (htables : calls X.table_of s' = f.cuda_page_table.toList ++ calls X.table_of s)
    (hmappings : calls X.mapping_of s' = calls X.mapping_of s) :
    Accounted X (v.release_mem m f) s' := by
  have hheld : (fun n => ((v.release_mem m f).mems n).bind BafsMem.cuda_page_table) =
      Function.update (fun n => (v.mems n).bind BafsMem.cuda_page_table) m none := by
    funext n
    show (Function.update v.mems m none n).bind _ = _
    rw [Function.update_apply, Function.update_apply]
    by_cases hn : n = m
    · rw [if_pos hn, if_pos hn]
      rfl
    · rw [if_neg hn, if_neg hn]
  have hold : (fun n => (v.mems n).bind BafsMem.cuda_page_table) m = f.cuda_page_table := by
    show (v.mems m).bind _ = _
    rw [hm]
    rfl
  refine ⟨?_, ?_, ⟨fun n g t hn ht => ?_, fun d y p hy hyp => ?_⟩⟩
  · rw [hheld, htables, ← hold]
    show Once _ (released_tables v.tables f).next _
    rw [released_tables_next]
    exact ha.tables.give
  · rw [mapping_held_congr hd, hp, hmappings]
    exact ha.mappings
  · have hn : Function.update v.mems m none n = some g := hn
    by_cases hnm : n = m
    · rw [hnm, Function.update_self] at hn
      cases hn
    · rw [Function.update_of_ne hnm] at hn
      exact ha.live.tables n g t hn ht
  · rw [hd] at hy
    obtain ⟨g, hg, hr⟩ := ha.live.mappings d y p hy hyp
    exact ⟨g, (Function.update_of_ne (hdm d y hy) _ _).trans hg, hr⟩

/-- The close of a VMA keeps the account, unless it gives up live CUDA memory and the put and the
unmapping destroy too. -/
theorem bafs_mem_release_accounted (hs : At h v s) (hh : NonNeg h) (hz : h .mem m = 0)
    (hw : w.vm_private_data = some m) (hx : s.mems.get m = some x)
    (hf : ¬(X = .release_destroys ∧ x.loc = BAFS_MEM_CUDA ∧ x.state = .LIVE))
    (ha : Accounted X v s) : wp (bafs_mem_release w) (fun _ => True)
      (fun _ s' => Accounted X (v.close_mem m x.fields) s') s := by
  obtain ⟨y, hy, -⟩ := hs.wf.tables.mem_listed m x hx
  have hs₁ := hs.ctx_get hy
  have hh₁ := hh.tok .ctx x.ctx
  unfold bafs_mem_release
  rw [hw, wp_bind, wp_mem_at hx, wp_bind, ctx_kref_get, wp_ctx_upd hy, wp_bind]
  have ha₁ : Accounted X (v.drop_dmas x.dma_list)
      { s with ctxs := s.ctxs.set x.ctx { y with ref := y.ref + 1 } } :=
    ⟨ha.tables, ha.mappings, ha.live.keep rfl⟩
  refine wp_mono (wp_each (fun l t => Closing (h + tok Kind.ctx x.ctx) m x.fields
    (v.drop_dmas x.dma_list) l t ∧ Accounted X (v.drop_dmas x.dma_list) t) ?_
    ⟨hs₁.closing hx, ha₁⟩) ?_
  · rintro d l s₂ ⟨hc, ha₂⟩
    exact wp_and (hc.round hh₁) (hc.round_accounted hh₁ hf ha₂)
  · rintro _ s₂ ⟨hc, ha₂⟩
    obtain ⟨hs₂, x', hx', hf', hone⟩ := hc.last hs hx (by rw [add_tok_off h (by simp), hz])
    have htab : x'.fields.cuda_page_table = x.fields.cuda_page_table := by rw [hf']
    have hlive : ∀ t, x'.cuda_page_table = some t → x'.loc = BAFS_MEM_CUDA ∧ x'.state = .LIVE :=
      fun t ht => ha₂.live.tables m x'.fields t (hs₂.mem_view hx') ht
    have hbare : X = .release_destroys → x'.cuda_page_table = none := by
      intro hA
      cases ht : x'.cuda_page_table with
      | none => rfl
      | some t =>
        obtain ⟨hloc, hst⟩ := ha.live.tables m x.fields t (hs.mem_view hx) (htab ▸ ht)
        exact absurd ⟨hA, hloc, hst⟩ hf
    refine (wp_and (bafs_mem_put_last (E := fun _ => True) hs₂ hh₁ (fun _ => trivial) hx' hone)
      (wp_and (bafs_mem_put_last_tables hx' hone hlive hbare) (bafs_mem_put_adds s₂))).bind
      fun _ s₃ hs₃ => ?_
    obtain ⟨hs₃, htables, hg₃⟩ := hs₃
    rw [hf', hs.drop_dmas hx] at hs₃
    obtain ⟨hd, hp⟩ := Prod.mk.inj (hg₃.still fun _ he => he)
    have ha₃ : Accounted X (v.close_mem m x.fields) s₃ := by
      rw [← hs.drop_dmas hx]
      refine ha₂.release (hf' ▸ hs₂.mem_view hx') hd hp (fun d z hz hzm => ?_) (htab ▸ htables)
        (hg₃.calls fun _ => table_call_destroys)
      have hview := hs₃.dma_view (hd ▸ hz)
      obtain ⟨-, hne⟩ := Option.filter_eq_some_iff.mp hview
      exact absurd hzm (of_decide_eq_true hne)
    exact wp_mono (bafs_put_ctx_adds (A := no_call) s₃) fun _ s₄ hg₄ =>
      ha₃.recorded hg₄.toRecorded fun _ he => he.elim

end Close

/-! ## The callback -/

section Revoke

variable {m : MemId} {x : BafsMem} {d : DmaId} {y z : BafsMemDma}

theorem mapping_held_set (hy : s.dmas.get d = some y) (hd : s'.dmas = s.dmas.set d z) :
    mapping_held s' = Function.update (mapping_held s) d z.cuda_mapping := by
  funext e
  unfold mapping_held
  rw [hd, Heap.get_set hy, Function.update_apply]
  by_cases he : e = d
  · rw [if_pos he, if_pos he, Option.bind_some]
  · rw [if_neg he, if_neg he]

/-- How the loop of the callback stands before the DMA mappings `l`: those of the registration that it
has left behind have no mapping of the NVIDIA driver. -/
structure Revoking (X : Reading) (h : Held Kind) (v : View) (m : MemId) (l : List DmaId)
    (s : State) : Prop where
  at_view : At h v s
  account : Accounted X v s
  rest : ∀ d ∈ l, ∃ c, v.dmas d = some (m, c)
  bare : ∀ d y, s.dmas.get d = some y → y.mem = m → d ∈ l ∨ y.cuda_mapping = none

theorem Revoking.round {l : List DmaId} (hr : Revoking X h v m (d :: l) s) :
    wp (do
      let y ← dma_at d
      match y.cuda_mapping with
      | some p =>
        emit (.nvidia_p2p_free_dma_mapping p)
        modify fun s => { s with dmas := s.dmas.set d { y with cuda_mapping := none } }
      | none => pure ()) E (fun _ s' => Revoking X h v m l s') s := by
  obtain ⟨hs, ha, hrest, hbare⟩ := hr
  obtain ⟨c, hc⟩ := hrest d List.mem_cons_self
  obtain ⟨y, hy, hym, -⟩ := hs.dma_live hc
  have hrest' : ∀ e ∈ l, ∃ c, v.dmas e = some (m, c) :=
    fun e he => hrest e (List.mem_cons_of_mem _ he)
  rw [wp_bind, wp_dma_at hy]
  cases hp : y.cuda_mapping with
  | none =>
    refine ⟨hs, ha, hrest', fun e z hz hzm => ?_⟩
    rcases hbare e z hz hzm with he | hn
    · rcases List.mem_cons.mp he with rfl | he
      · obtain rfl := Option.some.inj (hy.symm.trans hz)
        exact .inr hp
      · exact .inl he
    · exact .inr hn
  | some p =>
    dsimp only
    rw [wp_bind, emit, wp_modify, wp_modify]
    have hheld : mapping_held s d = some p := by
      unfold mapping_held
      rw [hy]
      exact hp
    refine ⟨(hs.set_dma (z := { y with cuda_mapping := none }) hy rfl rfl).of_eq rfl rfl,
      ⟨ha.tables, ?_, ha.live.tables, fun e z q hz hq => ?_⟩, hrest', fun e z hz hzm => ?_⟩
    · rw [mapping_held_set (z := { y with cuda_mapping := none }) hy rfl]
      have hgive := ha.mappings.give (k := d)
      rw [hheld] at hgive
      exact hgive
    · obtain ⟨-, rfl⟩ | ⟨-, hz⟩ := Heap.get_set_cases hy hz
      · cases hq
      · exact ha.live.mappings e z q hz hq
    · obtain ⟨-, rfl⟩ | ⟨hne, hz⟩ := Heap.get_set_cases hy hz
      · exact .inr rfl
      · rcases hbare e z hz hzm with he | hn
        · rcases List.mem_cons.mp he with rfl | he
          · exact absurd rfl hne
          · exact .inl he
        · exact .inr hn

/-- The callback destroys what its registration holds, under either reading. -/
theorem release_bafs_cuda_mem_accounted (hs : At h v s) (hx : s.mems.get m = some x)
    (hst : x.state ≠ .DEAD) (ha : Accounted X v s) : wp (release_bafs_cuda_mem m) (fun _ => True)
      (fun _ s' => Accounted X (v.revoke_mem m x.fields) s') s := by
  have hmems : (v.revoke_mem m x.fields).mems = Function.update v.mems m
      (some { x.fields with state := .DEAD_CB, cuda_page_table := none }) := by
    rw [View.revoke_mem, if_neg (by exact hst)]
    exact Function.update_idem ..
  have htab : (v.revoke_mem m x.fields).tables = v.tables := by
    rw [View.revoke_mem, if_neg (by exact hst)]
    rfl
  have hheld : (fun n => ((v.revoke_mem m x.fields).mems n).bind BafsMem.cuda_page_table) =
      Function.update (fun n => (v.mems n).bind BafsMem.cuda_page_table) m none := by
    funext n
    rw [hmems, Function.update_apply, Function.update_apply]
    by_cases hn : n = m
    · rw [if_pos hn, if_pos hn]
      rfl
    · rw [if_neg hn, if_neg hn]
  have hold : (fun n => (v.mems n).bind BafsMem.cuda_page_table) m = x.cuda_page_table := by
    show (v.mems m).bind _ = _
    rw [hs.mem_view hx]
    rfl
  have hinit : Revoking X h v m x.dma_list s := by
    refine ⟨hs, ha, fun d hd => ?_, fun d y hy hym => .inl ?_⟩
    · obtain ⟨y, hy, hym⟩ := (hs.wf.dmas.listed m x d hx).mp hd
      exact ⟨y.ctrl, by rw [hs.dma_view hy, hym]⟩
    · exact (hs.wf.dmas.listed m x d hx).mpr ⟨y, hy, hym⟩
  unfold release_bafs_cuda_mem
  rw [wp_bind, wp_mem_at hx, if_pos hst, wp_bind]
  refine wp_mono (wp_each (fun l t => Revoking X h v m l t) (fun d l t hr => hr.round) hinit) ?_
  rintro _ s₁ ⟨hs₁, ha₁, -, hbare⟩
  refine (wp_and (calls_kept (p := X.table_of) set_state_adds s₁)
    (set_state_adds (A := no_call) s₁)).bind fun _ s₂ hs₂ => ?_
  obtain ⟨h₂, hg₂⟩ := hs₂
  rw [wp_bind, nvidia_p2p_free_page_table, emit, wp_modify]
  refine wp_mono (mem_upd_adds (A := no_call) _) fun _ s₃ hg₃ => ?_
  have ha₂ := ha₁.recorded hg₂.toRecorded fun _ he => he.elim
  obtain ⟨hd₂, -⟩ := Prod.mk.inj (hg₂.still fun _ he => he)
  obtain ⟨hd₃, hp₃⟩ := Prod.mk.inj (hg₃.still fun _ he => he)
  have hcalls : calls X.table_of s₃ = x.cuda_page_table.toList ++ calls X.table_of s₂ := by
    rw [hg₃.calls fun _ he => he.elim]
    unfold calls Reading.table_of
    cases x.cuda_page_table <;> rfl
  refine ⟨?_, ?_, fun n g t hn ht => ?_, fun e z q hz hq => ?_⟩
  · rw [hheld, htab, hcalls, ← hold]
    exact ha₂.tables.give
  · rw [mapping_held_congr hd₃, hp₃, hg₃.calls fun _ he => he.elim]
    exact ha₂.mappings
  · rw [hmems] at hn
    by_cases hnm : n = m
    · rw [hnm, Function.update_self] at hn
      rw [← Option.some.inj hn] at ht
      cases ht
    · rw [Function.update_of_ne hnm] at hn
      exact ha₁.live.tables n g t hn ht
  · have hz : s₁.dmas.get e = some z := by
      rw [hd₃] at hz
      rw [← hd₂]
      exact hz
    obtain ⟨g, hg, hr⟩ := ha₁.live.mappings e z q hz hq
    have hne : z.mem ≠ m := fun hzm => by
      rcases hbare e z hz hzm with he | hn
      · cases he
      · cases hq.symm.trans hn
    exact ⟨g, by rw [hmems, Function.update_of_ne hne]; exact hg, hr⟩

end Revoke

/-! ## Pinning -/

/-- The account of the page tables of the state `s`, with the registrations and the page tables of the
view `v`. -/
def Tabled (X : Reading) (v : View) (s : State) : Prop :=
  Once (fun m => (v.mems m).bind BafsMem.cuda_page_table) v.tables.next (calls X.table_of s)

section Pin

variable {m : MemId} {f f' : BafsMem} {T : Heap P2pPageTable} {vma : Vma} {env : PinEnv}

theorem Tabled.kept (ht : Tabled X v s) (hg : Grows no_call s s') : Tabled X v s' := by
  unfold Tabled
  rw [hg.calls fun _ he => he.elim]
  exact ht

/-- The page tables of the registrations, when `m` gets the fields `f'`. -/
theorem tables_set_mem :
    (fun n => ((v.set_mem m f').mems n).bind BafsMem.cuda_page_table) =
      Function.update (fun n => (v.mems n).bind BafsMem.cuda_page_table) m f'.cuda_page_table := by
  funext n
  show (Function.update v.mems m (some f') n).bind _ = _
  rw [Function.update_apply, Function.update_apply]
  by_cases hn : n = m
  · rw [if_pos hn, if_pos hn]
    rfl
  · rw [if_neg hn, if_neg hn]

/-- Fields other than the page table do not matter. -/
theorem Tabled.set_mem (ht : Tabled X v s) (hm : v.mems m = some f)
    (hc : f'.cuda_page_table = f.cuda_page_table) : Tabled X (v.set_mem m f') s := by
  have hold : (fun n => (v.mems n).bind BafsMem.cuda_page_table) m = f'.cuda_page_table := by
    show (v.mems m).bind _ = _
    rw [hm, hc]
    rfl
  unfold Tabled
  rw [tables_set_mem, ← hold, Function.update_eq_self]
  exact ht

/-- A page table that is got goes to a registration that has none. -/
theorem Tabled.got {x : P2pPageTable} (ht : Tabled X v s) (hm : v.mems m = some f)
    (hc : f.cuda_page_table = none) (hf' : f'.cuda_page_table = some v.tables.next) :
    Tabled X ({ v with tables := v.tables.alloc x }.set_mem m f') s := by
  unfold Tabled
  rw [tables_set_mem, hf']
  show Once _ (v.tables.alloc x).next _
  rw [Heap.next_alloc]
  refine ht.take ?_
  show (v.mems m).bind _ = none
  rw [hm]
  exact hc

/-- A page table that is got and given back at once. -/
theorem Tabled.lost {x : P2pPageTable} (ht : Tabled X v s) (hm : v.mems m = some f)
    (hc : f.cuda_page_table = none) (hf' : f'.cuda_page_table = none)
    (hs : calls X.table_of s' = v.tables.next :: calls X.table_of s) :
    Tabled X ({ v with
      tables := unpinned (v.tables.alloc x) v.tables.next }.set_mem m f') s' := by
  have hold : (fun n => (v.mems n).bind BafsMem.cuda_page_table) m = none := by
    show (v.mems m).bind _ = _
    rw [hm]
    exact hc
  unfold Tabled
  rw [tables_set_mem, hf', hs]
  show Once (Function.update (fun n => (v.mems n).bind BafsMem.cuda_page_table) m none)
    (unpinned (v.tables.alloc x) v.tables.next).next _
  rw [← hold, Function.update_eq_self, unpinned_next, Heap.next_alloc]
  exact ht.lose

/-- A pin of CPU memory leaves the page tables of the NVIDIA driver alone. -/
theorem pin_bafs_cpu_mem_tables : Preserves (fun _ => True) (pin_bafs_cpu_mem m vma env)
    fun s => (table_held s, s.tables) := by
  have hq : Quiet fun s => (table_held s, s.tables) := by constructor <;> intros <;> rfl
  have hupd : ∀ {g : BafsMem → BafsMem}, (∀ x, (g x).cuda_page_table = x.cuda_page_table) →
      Preserves (fun _ => True) (mem_upd m g) fun s => (table_held s, s.tables) := by
    intro g hg s
    unfold mem_upd
    rw [wp_bind]
    refine wp_load_of (fun _ => trivial) fun x hx => ?_
    exact congrArg (·, s.tables) (table_held_set (z := g x) hx (hg x) rfl)
  have hclean : ∀ {blk : BlockId} {pages : List PageId}, Preserves (fun _ => True)
      (clean_page_table m blk pages) fun s => (table_held s, s.tables) := fun {blk pages} =>
    .bind (.each (fun p => free_page_quiet hq p) _) fun _ =>
      .bind (kfree_quiet hq blk) fun _ => hupd fun _ => rfl
  have hat : Preserves (fun _ => True) (mem_at m) fun s => (table_held s, s.tables) := fun s =>
    wp_load_of (fun _ => trivial) fun _ _ => rfl
  unfold pin_bafs_cpu_mem
  refine .bind (hupd fun _ => rfl) fun _ => .bind hat fun x => .ite (.pure _) ?_
  refine .bind (kzalloc_quiet hq _) fun r => ?_
  cases r with
  | none => exact .bind (hupd fun _ => rfl) fun _ => .pure _
  | some blk =>
    refine .bind (alloc_pages_quiet hq) fun r => .bind (hupd fun _ => rfl) fun _ => ?_
    obtain ⟨pages, fail⟩ := r
    cases fail with
    | some ret => exact .bind hclean fun _ => .pure _
    | none =>
      refine .bind (vm_map_pages_zero_quiet hq _ _ _) fun r => .ite ?_ (.pure _)
      exact .bind hclean fun _ => .pure _

/-- The pin of `m` has got a page table with these pages, and the registration has the fields `f`. -/
structure TableGot (X : Reading) (h : Held Kind) (v : View) (s : State) (m : MemId) (pages : P2pPages)
    (f : BafsMem) (s' : State) : Prop where
  at_view : At h ({ v with tables := v.tables.alloc ⟨pages, m, true⟩ }.set_mem m f) s'
  same_calls : calls X.table_of s' = calls X.table_of s
  table : f.cuda_page_table = some v.tables.next

namespace TableGot

variable {pages : P2pPages} {g : BafsMem} {ret : Int}

theorem upd (hg : TableGot X h v s m pages g s') {k : BafsMem → BafsMem}
    (hk : ∀ x, (k x).cuda_page_table = x.cuda_page_table := by intro _; rfl)
    (hf : Fieldwise k := by constructor <;> intro _ <;> rfl) :
    wp (mem_upd m k) (fun _ => True) (fun _ s' => TableGot X h v s m pages (k g) s') s' := by
  refine wp_mono (wp_and (mem_upd_spec (E := fun _ => True) hg.at_view View.set_mem_self hf)
    (calls_kept (p := X.table_of) mem_upd_adds s')) fun _ s₂ hs₂ => ?_
  obtain ⟨hs₂, hcalls⟩ := hs₂
  rw [View.set_mem_set_mem] at hs₂
  exact ⟨hs₂, hcalls.trans hg.same_calls, (hk g).trans hg.table⟩

theorem read (hg : TableGot X h v s m pages g s') :
    wp (mem_at m) E (fun x s₁ => x.fields = g ∧ TableGot X h v s m pages g s₁) s' := by
  obtain ⟨x, hx, hf⟩ := hg.at_view.mem_live View.set_mem_self
  exact (wp_mem_at hx).mpr ⟨hf, hg⟩

/-- The page table is given back. -/
theorem back (hg : TableGot X h v s m pages g s') (hm : v.mems m = some f)
    (hc : f.cuda_page_table = none) (ht : Tabled X v s) :
    wp (delete_page_table m v.tables.next) (fun _ => True)
      (fun _ s₁ => X = .release_destroys → Tabled X s₁.view s₁) s' := by
  have hcalls : wp (delete_page_table m v.tables.next) (fun _ => True)
      (fun _ s₁ => X = .release_destroys →
        calls X.table_of s₁ = v.tables.next :: calls X.table_of s') s' := by
    unfold delete_page_table nvidia_p2p_put_pages emit unpin
    rw [wp_bind, wp_bind, wp_modify, wp_modify]
    refine wp_mono (calls_kept (p := X.table_of) mem_upd_adds _) fun _ s₁ h₁ hA => ?_
    rw [h₁, hA]
    rfl
  refine wp_mono (wp_and (delete_page_table_spec (E := fun _ => True) hg.at_view View.set_mem_self _)
    hcalls) fun _ s₁ hs₁ hA => ?_
  obtain ⟨hs₁, h₁⟩ := hs₁
  rw [hs₁.view]
  have hnone : BafsMem.cuda_page_table { g with cuda_page_table := none } = none := rfl
  have hlost := ht.lost (x := ⟨pages, m, true⟩) hm hc hnone ((h₁ hA).trans (by rw [hg.same_calls]))
  rw [← View.set_mem_set_mem (f := g)] at hlost
  exact hlost

/-- The page table is kept. -/
theorem done (hg : TableGot X h v s m pages g s') (hm : v.mems m = some f)
    (hc : f.cuda_page_table = none) (ht : Tabled X v s) : Tabled X s'.view s' := by
  have hgot := ht.got (x := ⟨pages, m, true⟩) hm hc hg.table
  rw [hg.at_view.view]
  unfold Tabled at hgot ⊢
  rw [hg.same_calls]
  exact hgot

end TableGot

/-- A pin of CUDA memory keeps the page table that it gets, or gives it back: this destroys it unless
only the free functions do. -/
theorem pin_bafs_cuda_mem_tabled (hs : At h v s) (hm : v.mems m = some f)
    (hc : f.cuda_page_table = none) (hre : vma.remaps = []) (ht : Tabled X v s) :
    wp (pin_bafs_cuda_mem m vma env) (fun _ => True) (fun r s' =>
      (X = .release_destroys ∨ r.2 = 0 ∨ ∃ e, env.nvidia_p2p_get_pages = .error e) →
        Tabled X s'.view s') s := by
  unfold pin_bafs_cuda_mem nvidia_p2p_get_pages
  cases hget : env.nvidia_p2p_get_pages with
  | error e =>
    intro _
    rw [hs.view]
    exact ht
  | ok table =>
  dsimp only
  rw [wp_bind, wp_bind, wp_get, wp_bind, wp_modify, wp_pure]
  have hs₁ : At h { v with tables := v.tables.alloc ⟨table, m, true⟩ }
      { s with tables := v.tables.alloc ⟨table, m, true⟩ } := by
    refine ⟨hs.wf.of_objects rfl, ?_⟩
    rw [← hs.view]
    rfl
  rw [hs.tables_eq]
  have hfail : ∀ {g : BafsMem} {s₁ : State} {ret : Int}, TableGot X h v s m table g s₁ → ret ≠ 0 →
      wp (do delete_page_table m v.tables.next; pure (vma, ret)) (fun _ => True) (fun r s' =>
        (X = .release_destroys ∨ r.2 = 0 ∨ ∃ e, .ok table = (.error e : Except Errno P2pPages)) →
          Tabled X s'.view s') s₁ := by
    intro g s₁ ret hg hret
    refine (hg.back hm hc ht).bind fun _ s₂ h₂ hX => ?_
    rcases hX with hA | hz | ⟨e, he⟩
    · exact h₂ hA
    · exact absurd hz hret
    · cases he
  refine (wp_and (mem_upd_spec (E := fun _ => True) hs₁ hm)
    (calls_kept (p := X.table_of) mem_upd_adds _)).bind fun _ s₂ hs₂ => ?_
  have hg₂ : TableGot X h v s m table { f with cuda_page_table := some v.tables.next } s₂ :=
    ⟨hs₂.1, hs₂.2, rfl⟩
  refine wp_ite (fun _ => hfail hg₂ (by decide)) fun _ => ?_
  cases cuda_page_size table.page_size with
  | none => exact hfail hg₂ (by decide)
  | some p =>
  obtain ⟨page_size, page_shift⟩ := p
  dsimp only
  refine hg₂.upd.bind fun _ s₃ hg₃ => ?_
  refine hg₃.read.bind fun x s₄ hx => ?_
  refine wp_ite (fun _ => hfail hx.2 (by decide)) fun _ => ?_
  refine hx.2.upd.bind fun _ s₅ hg₅ => ?_
  refine hg₅.read.bind fun x s₆ hx => ?_
  obtain ⟨-, hg₆⟩ := hx
  refine wp_ite (fun _ => hfail hg₆ (by decide)) fun hlen => ?_
  refine (wp_and (remap_pages_spec (E := fun _ => True) hg₆.at_view x _ _ vma (not_not.mp hlen) hre)
    (remap_pages_adds s₆)).bind fun r s₇ hs₇ => ?_
  obtain ⟨⟨hs₇, hr⟩, hgrows⟩ := hs₇
  have hcalls := hgrows.calls (p := X.table_of) fun e he =>
    (harmless_destroys (plain_call_harmless he)).1
  have hg₇ : TableGot X h v s m table _ s₇ := ⟨hs₇, hcalls.trans hg₆.same_calls, hg₆.table⟩
  obtain ⟨w, fail⟩ := r
  cases fail with
  | some ret => exact hfail hg₇ (ne_of_lt hr.1)
  | none => exact fun _ => hg₇.done hm hc ht

theorem pin_by_loc_tabled (hs : At h v s) (hm : v.mems m = some f) (hva : f.vaddr = vma.vm_start)
    (hre : vma.remaps = []) (ht : Tabled X v s)
    (hc : f.loc = BAFS_MEM_CUDA → f.cuda_page_table = none)
    (hX : X = .free_destroys → f.loc = BAFS_MEM_CUDA →
      ∀ table, env.nvidia_p2p_get_pages = .ok table → cuda_pinnable f.size vma env) :
    wp (pin_by_loc m f.loc vma env) (fun _ => True) (fun _ s' => Tabled X s'.view s') s := by
  unfold pin_by_loc
  refine wp_ite (fun _ => ?_) fun _ => wp_ite (fun h1 => ?_) fun _ => ?_
  · refine wp_mono (wp_and (pin_bafs_cpu_mem_tables s) (pin_bafs_cpu_mem_adds s)) fun _ s' hs' => ?_
    obtain ⟨heq, hg⟩ := hs'
    obtain ⟨hheld, htab⟩ := Prod.mk.inj heq
    unfold Tabled
    rw [← table_held_view, hheld, hs.table_held, show s'.view.tables = v.tables from
      htab.trans hs.tables_eq, hg.calls fun e he => (harmless_destroys (plain_call_harmless he)).1]
    exact ht
  · refine wp_mono (wp_and (pin_bafs_cuda_mem_spec (E := fun _ => True) hs hm h1 hva hre)
      (pin_bafs_cuda_mem_tabled hs hm (hc h1) hre ht)) fun r s' hs' => hs'.2 ?_
    cases X with
    | release_destroys => exact .inl rfl
    | free_destroys =>
      cases hget : env.nvidia_p2p_get_pages with
      | error e => exact .inr (.inr ⟨e, rfl⟩)
      | ok table =>
        rcases hs'.1 with ⟨-, hret, -⟩ | ⟨hno, -⟩
        · exact .inr (.inl hret)
        · exact absurd (hX rfl h1 table hget) hno
  · show Tabled X s.view s
    rw [hs.view]
    exact ht

/-- What the put of a reference that is not the last one leaves. -/
theorem Tabled.put (hs : At (h + tok Kind.mem m) v s) (hh : NonNeg h) (hm : v.mems m = some f)
    (ht : Tabled X v s) : wp (bafs_mem_put m) E (fun _ s' => Tabled X s'.view s') s := by
  refine wp_mono (wp_and (bafs_mem_put_spec hs hh hm) (bafs_mem_put_shared (E := E) hs hh hm))
    fun _ s' hs' => ?_
  obtain ⟨hs', x, -, rfl⟩ := hs'
  rw [hs'.view]
  exact ht

/-- A pin keeps the account of the page tables, where only the free functions destroy if it succeeds
once it has got one. -/
theorem pin_bafs_mem_tabled {c : CtxId} (hs : At h v s) (hh : NonNeg h) (hc : CtxHeld h v c)
    (hre : vma.remaps = []) (ht : Tabled X v s)
    (hnone : ∀ m f, Selects v c vma.vm_pgoff m → v.mems m = some f → f.loc = BAFS_MEM_CUDA →
      f.cuda_page_table = none)
    (hX : X = .free_destroys → ∀ m f, Selects v c vma.vm_pgoff m → v.mems m = some f →
      f.loc = BAFS_MEM_CUDA → ∀ table, env.nvidia_p2p_get_pages = .ok table →
        cuda_pinnable f.size vma env) :
    wp (pin_bafs_mem vma c env) (fun _ => True) (fun _ s' => Tabled X s'.view s') s := by
  obtain ⟨y, hy⟩ := hs.ctx_live hc
  unfold pin_bafs_mem
  rw [wp_bind, ctx_kref_get, wp_ctx_upd hy, wp_bind, wp_ctx_at (Heap.get_set_self hy)]
  refine (wp_and (bafs_put_ctx_spec (E := fun _ => True) (hs.ctx_get hy) hh)
    (bafs_put_ctx_adds (A := no_call) _)).bind fun _ s₁ hs₁ => ?_
  obtain ⟨hs₁, hg₁⟩ := hs₁
  have ht₁ : Tabled X v s₁ := Tabled.kept (s := { s with
    ctxs := s.ctxs.set c { y with ref := y.ref + 1 } }) ht hg₁
  cases hm : pin_lookup { y with ref := y.ref + 1 } vma.vm_pgoff with
  | none =>
    show Tabled X s₁.view s₁
    rw [hs₁.view]
    exact ht₁
  | some m =>
    obtain ⟨-, x, hx, -⟩ := hs.wf.tables.stored c y _ m hy hm
    have hf := hs.mem_view hx
    have hsel : Selects v c vma.vm_pgoff m := (hs.mem_xa_iff hy).mp hm
    refine (wp_and (mem_kref_get_spec (E := fun _ => True) hs₁ hf)
      (mem_kref_get_adds (A := no_call) s₁)).bind fun _ s₂ hs₂ => ?_
    refine (wp_and (mem_upd_spec (E := fun _ => True) hs₂.1 hf)
      (mem_upd_adds (A := no_call) s₂)).bind fun _ s₃ hs₃ => ?_
    have ht₃ : Tabled X (v.set_mem m { x.fields with vaddr := vma.vm_start }) s₃ :=
      ((ht₁.kept hs₂.2).kept hs₃.2).set_mem hf rfl
    obtain ⟨x', hx', hf'⟩ := hs₃.1.mem_live View.set_mem_self
    have hloc : x'.loc = x.loc := by
      show x'.fields.loc = x.loc
      rw [hf']
      rfl
    rw [wp_bind, wp_mem_at hx', hloc]
    refine (wp_and (pin_by_loc_spec (E := fun _ => True) (w := vma) hs₃.1 View.set_mem_self rfl hre)
      (pin_by_loc_tabled hs₃.1 View.set_mem_self rfl hre ht₃ (hnone m x.fields hsel hf)
        fun hB => hX hB m x.fields hsel hf)).bind fun r s₅ hr => ?_
    obtain ⟨vma', ret⟩ := r
    obtain ⟨ho, ht₅⟩ := hr
    obtain ⟨-, hret, -, f', T', -, hs₅⟩ | ⟨-, hret, f', T', -, hs₅⟩ := ho.of_set
    · have hret : ret = 0 := hret
      rw [hs₅.view] at ht₅
      dsimp only
      rw [if_neg (not_not.mpr hret)]
      refine (wp_and (set_state_spec (E := fun _ => True) hs₅ View.set_mem_self .LIVE)
        (set_state_adds (A := no_call) s₅)).bind fun _ s₆ hs₆ => ?_
      have hsame : BafsMem.cuda_page_table { f' with state := .LIVE } = f'.cuda_page_table := rfl
      have ht₆ := (ht₅.kept hs₆.2).set_mem View.set_mem_self hsame
      exact (Tabled.put hs₆.1 hh View.set_mem_self ht₆).bind fun _ s₇ ht₇ => ht₇
    · have hret : ret < 0 := hret
      rw [hs₅.view] at ht₅
      dsimp only
      rw [if_pos (ne_of_lt hret)]
      exact (Tabled.put hs₅ hh View.set_mem_self ht₅).bind fun _ s₆ ht₆ => ht₆

end Pin

end BafsDriver
