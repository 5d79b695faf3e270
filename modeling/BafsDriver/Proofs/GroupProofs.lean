import BafsDriver.Proofs.DmaMapProofs

/-!
# Groups

What the DMA mapping through a group, its creation and its deletion do to the state.
-/

set_option linter.style.nameCheck false

namespace BafsDriver

open Prog

variable {h h' : Held Kind} {v : View} {s : State} {E : Fault → Prop}

/-! ## DMA mapping -/

/-- The DMA mappings `D` are those of `v` with the new ones `ds`, all of a registration that the
lookup finds. -/
structure Mapped (v : View) (ctx : CtxId) (vaddr : Nat) (ds : List DmaId)
    (D : DmaId → Option (MemId × CtrlId)) : Prop where
  nodup : ds.Nodup
  new : ∀ d ∈ ds, v.dmas d = none ∧ ∃ m c, D d = some (m, c) ∧ Found v ctx vaddr m
  old : ∀ d, d ∉ ds → D d = v.dmas d

theorem Mapped.nil {ctx : CtxId} {vaddr : Nat} : Mapped v ctx vaddr [] v.dmas :=
  ⟨List.nodup_nil, (fun d hd => by cases hd), fun d _ => rfl⟩

theorem Mapped.eq_of_nil {ctx : CtxId} {vaddr : Nat} {D : DmaId → Option (MemId × CtrlId)}
    (hD : Mapped v ctx vaddr [] D) : D = v.dmas := funext fun d => hD.old d List.not_mem_nil

theorem Mapped.add {ctx : CtxId} {vaddr : Nat} {ds : List DmaId}
    {D : DmaId → Option (MemId × CtrlId)} (hD : Mapped v ctx vaddr ds D) {d : DmaId} {m : MemId}
    (hd : D d = none) (hm : Found v ctx vaddr m) (c : CtrlId) :
    Mapped v ctx vaddr (ds ++ [d]) (Function.update D d (some (m, c))) := by
  have hnew : d ∉ ds := fun hmem => by
    obtain ⟨-, m', c', he, -⟩ := hD.new d hmem
    rw [hd] at he
    cases he
  refine ⟨List.nodup_append.mpr ⟨hD.nodup, List.nodup_singleton d, ?_⟩, fun e he => ?_, fun e he => ?_⟩
  · rintro a ha b hb rfl
    exact hnew (List.mem_singleton.mp hb ▸ ha)
  · rcases List.mem_append.mp he with he | he
    · have hne : e ≠ d := fun h => hnew (h ▸ he)
      rw [Function.update_of_ne hne]
      exact hD.new e he
    · obtain rfl := List.mem_singleton.mp he
      exact ⟨(hD.old e hnew).symm.trans hd, m, c, Function.update_self .., hm⟩
  · rw [List.mem_append, List.mem_singleton, not_or] at he
    rw [Function.update_of_ne he.2, hD.old e he.1]

theorem Mapped.drop {ctx : CtxId} {vaddr : Nat} {d : DmaId} {ds : List DmaId}
    {D : DmaId → Option (MemId × CtrlId)} (hD : Mapped v ctx vaddr (d :: ds) D) :
    Mapped v ctx vaddr ds (Function.update D d none) := by
  obtain ⟨hd, hnd⟩ := List.nodup_cons.mp hD.nodup
  refine ⟨hnd, fun e he => ?_, fun e he => ?_⟩
  · have hne : e ≠ d := fun h => hd (h ▸ he)
    rw [Function.update_of_ne hne]
    exact hD.new e (List.mem_cons_of_mem _ he)
  · by_cases hed : e = d
    · rw [hed, Function.update_self, (hD.new d List.mem_cons_self).1]
    · rw [Function.update_of_ne hed]
      exact hD.old e fun hmem => (List.mem_cons.mp hmem).elim hed he

theorem Mapped.reverse {ctx : CtxId} {vaddr : Nat} {ds : List DmaId}
    {D : DmaId → Option (MemId × CtrlId)} (hD : Mapped v ctx vaddr ds D) :
    Mapped v ctx vaddr ds.reverse D :=
  ⟨List.nodup_reverse.mpr hD.nodup, fun d hd => hD.new d (List.mem_reverse.mp hd),
    fun d hd => hD.old d (mt List.mem_reverse.mpr hd)⟩

theorem group_map_loop_spec {ctx : CtxId} {vaddr dma_addrs : Nat} {env : Nat → DmaMapEnv}
    {ctrls : List (CtrlId × Nat)} {n : Nat} (hs : At h v s) (hh : NonNeg h)
    (hx : CtxHeld h v ctx) (hc : ∀ ci ∈ ctrls, CtrlHeld h v ci.1)
    (hb : ∀ m f, Found v ctx vaddr m → v.mems m = some f → ¬table_fits f → E .out_of_bounds)
    (hnull : ∀ m f, Found v ctx vaddr m → v.mems m = some f → missing_table f →
      E .null_page_table) :
    wp (group_map_loop ctx vaddr dma_addrs env ctrls ⟨n, 0, []⟩) E
      (fun r s' => (∀ ret, r.2 = some ret → ret < 0) ∧
        ∃ D, Mapped v ctx vaddr r.1.dmas D ∧ At h { v with dmas := D } s') s := by
  unfold group_map_loop
  refine wp_iterate (fun l acc s => (∀ ci ∈ l, ci ∈ ctrls) ∧
      ∃ D, Mapped v ctx vaddr acc.dmas D ∧ At h { v with dmas := D } s)
    (fun ci l acc s₁ hinv => ?_) (fun acc s₁ hinv => ⟨(fun ret hr => by cases hr), hinv.2⟩)
    ⟨fun ci hci => hci, v.dmas, .nil, hs⟩
  obtain ⟨hl, D, hD, hs₁⟩ := hinv
  refine (bafs_ctrl_dma_map_mem_spec hs₁ hh hx (hc ci (hl ci List.mem_cons_self)) hb hnull).bind
    fun r s₂ hr => ?_
  obtain ⟨ret, n, d⟩ := r
  obtain ⟨hret, hd, hs₂⟩ | ⟨m, d, hm, hret, hd, hfree, hs₂⟩ := hr
  · obtain rfl : _ = none := hd
    refine ⟨fun ret' hr => ?_, D, hD, hs₂⟩
    obtain rfl := Option.some.inj hr
    exact hret
  · obtain rfl : _ = some d := hd
    exact ⟨fun ci hci => hl ci (List.mem_cons_of_mem _ hci), _, hD.add hfree hm ci.1, hs₂⟩

theorem unmap_mems_spec {ctx : CtxId} {vaddr : Nat} {ds : List DmaId} {blk : BlockId}
    {D : DmaId → Option (MemId × CtrlId)} (hD : Mapped v ctx vaddr ds D)
    (hs : At h { v with dmas := D } s) (hh : NonNeg h) :
    wp (unmap_mems ds blk) E (fun _ s' => At h v s') s := by
  unfold unmap_mems
  refine (wp_each (fun l s => ∃ D, Mapped v ctx vaddr l D ∧ At h { v with dmas := D } s) ?_
    ⟨D, hD.reverse, hs⟩).bind ?_
  · rintro d l s₁ ⟨D, hD, hs₁⟩
    obtain ⟨-, m, c, hd, ⟨f, hf, -⟩, -⟩ := hD.new d List.mem_cons_self
    refine wp_mono (bafs_ctrl_dma_unmap_mem_spec hs₁ hh hd hf) fun _ s₂ hs₂ => ?_
    exact ⟨_, hD.drop, hs₂⟩
  · rintro _ s₁ ⟨D, hD, hs₁⟩
    rw [hD.eq_of_nil] at hs₁
    exact hs₁.keep (kfree_quiet quiet_at _)

/-- A mapping for all controllers of a group is made completely or not at all. -/
theorem bafs_group_dma_map_mem_spec {argp : Nat} {params : BAFS_IOC_DMA_MAP_MEM_PARAMS}
    {g : GroupId} {l : List CtrlId} {ctx : CtxId} {env : GroupDmaMapEnv} (hs : At h v s)
    (hh : NonNeg h) (hg : v.group_ctrls g = some l) (hx : CtxHeld h v ctx)
    (hb : ∀ m f, Found v ctx params.vaddr m → v.mems m = some f → ¬table_fits f →
      E .out_of_bounds)
    (hnull : ∀ m f, Found v ctx params.vaddr m → v.mems m = some f → missing_table f →
      E .null_page_table) :
    wp (bafs_group_dma_map_mem argp params g ctx env) E (fun r s' => (r < 0 ∧ At h v s') ∨
      r = 0 ∧ ∃ ds D, Mapped v ctx params.vaddr ds D ∧ At h { v with dmas := D } s') s := by
  unfold bafs_group_dma_map_mem
  refine wp_ite (fun _ => .inl ⟨(by decide : -EFAULT < 0), hs⟩) fun _ => ?_
  obtain ⟨x, hgx, rfl⟩ := hs.group_live hg
  rw [wp_bind, wp_group_at hgx]
  refine (kzalloc_spec hs env.kzalloc).bind fun r s₁ hs₁ => ?_
  obtain ⟨-, hs₁⟩ := hs₁
  cases r with
  | none => exact .inl ⟨(by decide : -ENOMEM < 0), hs₁⟩
  | some blk =>
    have hc : ∀ ci ∈ x.ctrls.zipIdx, CtrlHeld h v ci.1 := fun ci hci =>
      .inr ⟨g, x.ctrls, hg, (List.of_mem_zip (List.zipIdx_eq_zip_range' ▸ hci)).1⟩
    refine (group_map_loop_spec hs₁ hh hx hc hb hnull).bind fun r s₂ hr => ?_
    obtain ⟨acc, fail⟩ := r
    obtain ⟨hfail, D, hD, hs₂⟩ := hr
    cases fail with
    | some ret =>
      exact (unmap_mems_spec hD hs₂ hh).bind fun _ s₃ hs₃ => .inl ⟨hfail ret rfl, hs₃⟩
    | none =>
      refine (copy_to_user_spec hs₂ env.copy_to_user _ _ _).bind fun left s₃ hs₃ => ?_
      refine wp_ite (fun _ => ?_) fun _ => .inr ⟨rfl, _, D, hD, hs₃.2⟩
      exact (unmap_mems_spec hD hs₃.2 hh).bind fun _ s₄ hs₄ =>
        .inl ⟨(by decide : -EFAULT < 0), hs₄⟩

end BafsDriver
