import BafsDriver.Proofs.GroupLifetime

/-!
# Memory errors

The requests that use what has been freed, take a controller for a group or read a page table that
is not there, and with which of these errors. There are no others: no request of any run uses a
context, a controller, a DMA mapping or a device that has been freed, or reads past the end of a
page table.
-/

set_option linter.style.nameCheck false

namespace BafsDriver

open Prog

variable {h h' : Held Kind} {v v' : View} {s s' : State} {r : Request} {E : Fault → Prop}

/-! ## The list -/

/-- The kernel grants the memory that a mapping needs before it reads the pages. -/
def DmaMapEnv.grants (env : DmaMapEnv) : Prop := env.kzalloc = true ∧ env.kcalloc = true

/-- A DMA-map request on the file comes as far as the pages of the registration it finds. -/
def comes_to_pages (v : View) (env : IoctlEnv) : File → Prop
  | .core _ => False
  | .ctrl _ => env.ctrl_dma_map_mem.copy_from_user = true ∧ env.ctrl_dma_map_mem.map.grants
  | .group y => env.group_dma_map_mem.copy_from_user = true ∧
    env.group_dma_map_mem.kzalloc = true ∧ (env.group_dma_map_mem.map 0).grants ∧
    ∃ c l, v.group_ctrls y.group = some (c :: l)

/-- The request makes this error. -/
inductive Faults (s : State) : Request → Fault → Prop
  /-- A VMA is closed whose registration has been freed. -/
  | vma_freed {r : Request} {m : MemId} (hr : closes_mem s.view s r m) (hm : s.mems.get m = none) :
      Faults s r .freed_mem
  /-- The NVIDIA driver revokes the pages of a registration that has been freed. -/
  | table_freed {t : TableId} {x : P2pPageTable} (ht : s.tables.get t = some x)
      (hp : x.pinned = true) (hm : s.mems.get x.data = none) : Faults s (.revoke t) .freed_mem
  /-- The file of a group that has been released is closed, -/
  | close_freed {i : FileId} {y : BafsGroupCtx} (hx : s.files.get i = some (.group y))
      (hg : s.groups.get y.group = none) : Faults s (.close i) .freed_group
  /-- or gets an ioctl, -/
  | ioctl_freed {i cmd : Nat} {arg : IoctlArg} {env : IoctlEnv} {y : BafsGroupCtx}
      (hx : s.files.get i = some (.group y)) (hg : s.groups.get y.group = none) :
      Faults s (.ioctl i cmd arg env) .freed_group
  /-- or its BARs are mapped. -/
  | mmap_freed {i mm a b : Nat} {env : MmapEnv} {y : BafsGroupCtx}
      (hx : s.files.get i = some (.group y)) (hg : s.groups.get y.group = none)
      (hr : range_free s mm a b) : Faults s (.mmap i mm a b 0 env) .freed_group
  /-- The group to be deleted is a controller. -/
  | wrong_type {i : FileId} {c : CtxId} {arg : IoctlArg} {env : IoctlEnv}
      (hx : s.files.get i = some (.core c)) (hd : env.delete_group = true)
      (hn : ctrl_name s arg.delete_group.group_name) :
      Faults s (.ioctl i BAFS_CORE_IOC_DELETE_GROUP arg env) .wrong_type
  /-- A registration of CPU memory is mapped after its page table has been given back. -/
  | null_page_table {i cmd : Nat} {x : File} {arg : IoctlArg} {env : IoctlEnv}
      (hx : s.files.get i = some x) (hcmd : dma_map_cmd x = some cmd)
      (hm : reads_missing_table s.view x.ctx arg.dma_map_mem.vaddr)
      (hg : comes_to_pages s.view env x) : Faults s (.ioctl i cmd arg env) .null_page_table

/-! ## A page table that is not there -/

section Missing

variable {c : CtrlId} {m : MemId} {f x : BafsMem} {ctx : CtxId} {vaddr : Nat} {env : DmaMapEnv}

theorem missing_map_addrs {map_gran : Nat} {answer : Nat → Option Nat}
    (ht : x.cpu_page_table = none) (hn : x.n_pages ≠ 0) (hE : E .null_page_table)
    {Q : List (Nat × PageId) × Option Int → State → Prop} :
    wp (map_addrs c x map_gran answer) E Q s := by
  unfold map_addrs
  obtain ⟨n, hn⟩ := Nat.exists_eq_succ_of_ne_zero hn
  rw [hn, List.range_succ_eq_map]
  simp only [iterate, ht]
  rw [wp_bind]
  exact hE

theorem missing_cpu {blk : BlockId} {n_dma_addrs user ctrl_id : Nat}
    (hs : At (h + tok Kind.mem m + tok Kind.ctrl c) v s) (hh : NonNeg h) (hm : v.mems m = some f)
    (ht : x.cpu_page_table = none) (hn : x.n_pages ≠ 0)
    (hE : env.kcalloc = true → E .null_page_table) :
    wp (dma_map_cpu c m x blk n_dma_addrs user ctrl_id env) E
      (fun r s' => env.kcalloc = false ∧ r.2.2 = none ∧ At h v s') s := by
  unfold dma_map_cpu
  refine (kzalloc_spec hs env.kcalloc).bind fun r s₁ hs₁ => ?_
  obtain ⟨hr, hs₁⟩ := hs₁
  cases r with
  | none => exact (delete_dma_spec hs₁ hh hm).bind fun _ s₂ hs₂ => ⟨hr, rfl, hs₂⟩
  | some ablk =>
    rw [wp_bind]
    exact missing_map_addrs ht hn (hE hr)

/-- The mapping of a registration without its page table: nothing is mapped, and the error is made
exactly if the kernel grants the memory. -/
theorem missing_map {n_dma_addrs user ctrl_id : Nat} (hs : At h v s) (hh : NonNeg h)
    (hx : CtxHeld h v ctx) (hc : CtrlHeld h v c) (hm : Found v ctx vaddr m)
    (hf : v.mems m = some f) (ht : missing_table f) (hE : env.grants → E .null_page_table) :
    wp (bafs_ctrl_dma_map_mem c ctx vaddr n_dma_addrs user ctrl_id env) E
      (fun r s' => ¬env.grants ∧ r.2.2 = none ∧ At h v s') s := by
  unfold bafs_ctrl_dma_map_mem
  obtain ⟨y, hy⟩ := hs.ctx_live hx
  refine (bafs_get_mem_with_ctx_spec hs hh hy).bind fun r s₁ hr => ?_
  obtain ⟨hr, hs₁⟩ := hr
  obtain rfl := (hr m).mpr hm
  refine (kzalloc_spec hs₁ env.kzalloc).bind fun r s₂ hs₂ => ?_
  obtain ⟨hk, hs₂⟩ := hs₂
  cases r with
  | none =>
    refine (bafs_mem_put_spec hs₂ hh hf).bind fun _ s₃ hs₃ => ⟨fun hg => ?_, rfl, hs₃⟩
    cases hg.1.symm.trans hk
  | some blk =>
    refine (bafs_get_ctrl_spec hs₂ (hh.tok _ _) (hc.add _ _)).bind fun _ s₃ hs₃ => ?_
    refine (mem_at_spec hs₃ hf).bind fun x s₄ hx => ?_
    obtain ⟨hxf, -, hs₄⟩ := hx
    obtain ⟨h0, htable, hn⟩ : missing_table x.fields := hxf ▸ ht
    refine wp_ite (fun _ => ?_) fun hno => absurd h0 hno
    refine wp_mono (missing_cpu hs₄ hh hf htable hn fun hk' => hE ⟨hk, hk'⟩) fun r s₅ hr => ?_
    obtain ⟨hno, hd, hs₅⟩ := hr
    refine ⟨fun hg => ?_, hd, hs₅⟩
    cases hg.2.symm.trans hno

end Missing

theorem unmap_none {blk : BlockId} (hs : At h v s) :
    wp (unmap_mems [] blk) E (fun _ s' => At h v s') s :=
  hs.keep (kfree_quiet quiet_at _)

/-- The loop over the controllers of a group ends with the first. -/
theorem missing_group_loop {ctx : CtxId} {vaddr dma_addrs : Nat} {env : Nat → DmaMapEnv}
    {c : CtrlId} {l : List (CtrlId × Nat)} {acc : GroupMapAcc} {m : MemId} {f : BafsMem}
    (hs : At h v s)
    (hh : NonNeg h) (hx : CtxHeld h v ctx) (hc : CtrlHeld h v c) (hm : Found v ctx vaddr m)
    (hf : v.mems m = some f) (ht : missing_table f) (hE : (env 0).grants → E .null_page_table) :
    wp (group_map_loop ctx vaddr dma_addrs env ((c, 0) :: l) acc) E
      (fun r s' => ¬(env 0).grants ∧ r.1.dmas = acc.dmas ∧ r.2.isSome ∧ At h v s') s := by
  rw [group_map_loop, iterate]
  refine wp.bind (R := fun r s' => ¬(env 0).grants ∧ r.1.dmas = acc.dmas ∧ r.2.isSome ∧ At h v s')
    ((missing_map hs hh hx hc hm hf ht hE).bind fun r s₁ hr => ?_) fun r s₁ hr => ?_
  · obtain ⟨ret, n, d⟩ := r
    obtain ⟨hno, hd, hs₁⟩ := hr
    obtain rfl : d = none := hd
    exact ⟨hno, rfl, rfl, hs₁⟩
  · obtain ⟨acc', fail⟩ := r
    cases fail with
    | none => cases hr.2.2.1
    | some ret => exact hr

/-- The first controller of the group decides. -/
theorem missing_group_map {argp : Nat} {params : BAFS_IOC_DMA_MAP_MEM_PARAMS} {g : GroupId}
    {l : List CtrlId} {ctx : CtxId} {m : MemId} {f : BafsMem} {env : GroupDmaMapEnv} (hs : At h v s)
    (hh : NonNeg h) (hg : v.group_ctrls g = some l) (hx : CtxHeld h v ctx)
    (hm : Found v ctx params.vaddr m) (hf : v.mems m = some f) (ht : missing_table f)
    (hE : env.copy_from_user = true → env.kzalloc = true → (env.map 0).grants → l ≠ [] →
      E .null_page_table) :
    wp (bafs_group_dma_map_mem argp params g ctx env) E (fun _ s' =>
      ¬(env.copy_from_user = true ∧ env.kzalloc = true ∧ (env.map 0).grants ∧ l ≠ []) ∧
        At h v s') s := by
  unfold bafs_group_dma_map_mem
  refine wp_ite (fun hno => ⟨fun hg => ?_, hs⟩) fun hcopy => ?_
  · cases hg.1.symm.trans hno
  have hcopy : env.copy_from_user = true := by simpa using hcopy
  obtain ⟨x, hgx, rfl⟩ := hs.group_live hg
  rw [wp_bind, wp_group_at hgx]
  refine (kzalloc_spec hs env.kzalloc).bind fun r s₁ hs₁ => ?_
  obtain ⟨hk, hs₁⟩ := hs₁
  cases r with
  | none =>
    refine ⟨fun hg => ?_, hs₁⟩
    cases hg.2.1.symm.trans hk
  | some blk =>
    cases hl : x.ctrls with
    | nil =>
      -- nothing is mapped, and there is nothing to take back
      refine wp.bind (R := fun r s' => r = (⟨params.n_dma_addrs.toNat, 0, []⟩, none) ∧ At h v s')
        ⟨rfl, hs₁⟩ ?_
      rintro r s₂ ⟨rfl, hs₂⟩
      refine (copy_to_user_spec hs₂ env.copy_to_user _ _ _).bind fun left s₃ hs₃ => ?_
      refine wp_ite (fun _ => ?_) fun _ => ⟨fun hg => hg.2.2.2 rfl, hs₃.2⟩
      refine (unmap_none hs₃.2).bind fun _ s₄ hs₄ => ?_
      exact ⟨fun hg => hg.2.2.2 rfl, hs₄⟩
    | cons c l =>
      have hc : CtrlHeld h v c := .inr ⟨g, x.ctrls, hg, hl ▸ List.mem_cons_self⟩
      rw [List.zipIdx_cons]
      refine (missing_group_loop hs₁ hh hx hc hm hf ht fun hgr => ?_).bind fun r s₂ hr => ?_
      · exact hE hcopy hk hgr (hl ▸ List.cons_ne_nil c l)
      obtain ⟨⟨n, per, ds⟩, fail⟩ := r
      obtain ⟨hno, hd, hfail, hs₂⟩ := hr
      obtain rfl : ds = [] := hd
      cases fail with
      | none => cases hfail
      | some ret => exact (unmap_none hs₂).bind fun _ s₃ hs₃ => ⟨fun hg => hno hg.2.2.1, hs₃⟩

/-- A DMA-map request that finds a registration without its page table. -/
theorem missing_ioctl {i cmd : Nat} {x : File} {arg : IoctlArg} {env : IoctlEnv} (hs : At h v s)
    (hl : Lost h) (hx : v.files.get i = some x) (hcmd : dma_map_cmd x = some cmd)
    (hgone : ¬group_gone v x) (hm : reads_missing_table v x.ctx arg.dma_map_mem.vaddr)
    (hE : comes_to_pages v env x → E .null_page_table) :
    wp (step (.ioctl i cmd arg env)) E (fun _ _ => ¬comes_to_pages v env x) s := by
  have hh := hl.nonneg
  have hctx := CtxHeld.of_file hh hx
  obtain ⟨m, f, hm, hf, ht⟩ := hm
  unfold step
  rw [wp_bind, wp_get, hs.files_eq, hx]
  dsimp only
  refine wp.bind (R := fun _ _ => ¬comes_to_pages v env x) ?_ fun _ _ hr => hr
  cases x with
  | core c => cases hcmd
  | ctrl y =>
    obtain rfl := Option.some.inj hcmd
    have hctrl := CtrlHeld.of_file hh hx
    obtain ⟨z, hz⟩ := hs.ctrl_live hh hctrl
    unfold ioctl_file bafs_ctrl_ioctl
    rw [wp_bind, bafs_get_ctrl, wp_ctrl_upd hz, if_neg (by decide), if_neg (by decide), if_pos rfl]
    have hs₀ := hs.ctrl_get hz
    unfold __bafs_ctrl_dma_map_mem
    refine wp.bind
      (R := fun _ s' => ¬comes_to_pages v env (.ctrl y) ∧ At (h + tok .ctrl y.ctrl) v s')
      (wp_ite (fun hno => ⟨fun hg => ?_, hs₀⟩) fun hcopy => ?_) fun ret s₁ hr => ?_
    · cases hg.1.symm.trans hno
    · refine (missing_map hs₀ (hh.tok _ _) (hctx.add _ _) (hctrl.add _ _) hm hf ht fun hg =>
        hE ⟨by simpa using hcopy, hg⟩).bind fun r s₁ hr => ?_
      obtain ⟨ret, n, d⟩ := r
      obtain ⟨hno, hd, hs₁⟩ := hr
      obtain rfl : d = none := hd
      exact ⟨fun hg => hno hg.2, hs₁⟩
    · refine (bafs_ctrl_release_spec hr.2 hh).bind fun _ s₂ _ => ?_
      exact wp_ite (fun _ => hr.1) fun _ => hr.1
  | group y =>
    obtain rfl := Option.some.inj hcmd
    obtain ⟨l, hl⟩ := Option.ne_none_iff_exists'.mp (show v.group_ctrls y.group ≠ none from hgone)
    have hpages : comes_to_pages v env (.group y) ↔ env.group_dma_map_mem.copy_from_user = true ∧
        env.group_dma_map_mem.kzalloc = true ∧ (env.group_dma_map_mem.map 0).grants ∧ l ≠ [] := by
      simp [comes_to_pages, hl, List.ne_nil_iff_exists_cons]
    rw [hpages] at hE ⊢
    obtain ⟨z, hz, -⟩ := hs.group_live hl
    unfold ioctl_file bafs_group_ioctl
    rw [wp_bind, bafs_get_group, wp_group_upd hz, if_neg (by decide), if_neg (by decide),
      if_pos rfl]
    refine (missing_group_map (hs.group_get hz) (hh.tok _ _) hl (hctx.add _ _) hm hf ht
      fun h1 h2 h3 h4 => hE ⟨h1, h2, h3, h4⟩).bind fun ret s₁ hr => ?_
    refine (bafs_put_group_spec hr.2 hl (hs.group_pos hl)).bind fun _ s₂ _ => ?_
    exact wp_ite (fun _ => hr.1) fun _ => hr.1

/-! ## A group that has been released -/

theorem gone_ioctl {i cmd : Nat} {y : BafsGroupCtx} {arg : IoctlArg} {env : IoctlEnv}
    (hx : s.files.get i = some (.group y)) (hg : s.groups.get y.group = none) :
    wp (step (.ioctl i cmd arg env)) (· = .freed_group) (fun _ _ => False) s := by
  unfold step
  rw [wp_bind, wp_get, hx]
  unfold ioctl_file bafs_group_ioctl
  rw [wp_bind, wp_bind, bafs_get_group, group_upd, wp_bind]
  exact wp_load_of (fun _ => rfl) fun z hz => by cases hg.symm.trans hz

theorem group_gone.file {x : File} (hg : group_gone v x) : ∃ y, x = .group y := by
  cases x with
  | group y => exact ⟨y, rfl⟩
  | core c => exact hg.elim
  | ctrl y => exact hg.elim

/-! ## One request -/

theorem view_mem_none {m : MemId} : s.view.mems m = none ↔ s.mems.get m = none :=
  Option.map_eq_none_iff

theorem closes_mem.unique {m n : MemId} (hm : closes_mem v s r m) (hn : closes_mem v s r n) :
    m = n := by
  cases r with
  | munmap i =>
    obtain ⟨w, hw, hc⟩ := hm
    obtain ⟨w', hw', hc'⟩ := hn
    obtain rfl := Option.some.inj (hw.symm.trans hw')
    exact Option.some.inj (hc.symm.trans hc')
  | move i a =>
    obtain ⟨w, hw, hc, -⟩ := hm
    obtain ⟨w', hw', hc', -⟩ := hn
    obtain rfl := Option.some.inj (hw.symm.trans hw')
    exact Option.some.inj (hc.symm.trans hc')
  | _ => exact hm.elim

/-- A request that may get stuck does, unless it finds the range taken that it is to map, or a
registration without its page table. -/
theorem Stuck.faults {e : Fault} (hst : Stuck s.view s r e) (ht : Tidy s.view)
    (hnull : ∀ i cmd x arg env, r = .ioctl i cmd arg env → s.files.get i = some x →
      dma_map_cmd x = some cmd → ¬reads_missing_table s.view x.ctx arg.dma_map_mem.vaddr)
    (hfree : ∀ i mm a b pgoff env, r = .mmap i mm a b pgoff env → range_free s mm a b) :
    Faults s r e := by
  cases hst with
  | table_short hr hm hf => exact absurd (ht.fits _ _ hm) hf
  | vma_freed hr hm => exact .vma_freed hr (view_mem_none.mp hm)
  | table_freed ht' hp hm => exact .table_freed ht' hp (view_mem_none.mp hm)
  | @group_freed r i x hr hx hg hp =>
    obtain ⟨y, rfl⟩ := hg.file
    have hnone := group_none.mpr hg
    cases r with
    | close j =>
      obtain rfl := Option.some.inj hr
      exact .close_freed hx hnone
    | ioctl j cmd arg env =>
      obtain rfl := Option.some.inj hr
      exact .ioctl_freed hx hnone
    | mmap j mm a b pgoff env =>
      obtain rfl := Option.some.inj hr
      obtain rfl : pgoff = 0 := hp mm a b pgoff env rfl
      exact .mmap_freed hx hnone (hfree j mm a b 0 env rfl)
    | _ => cases hr
  | wrong_type hx hd hn => exact .wrong_type hx hd hn
  | wrong_table hx hcmd hm =>
    obtain ⟨m, f, -, hf, hno⟩ := hm
    exact absurd (ht.fits m f hf) hno
  | null_page_table hx hcmd hm => exact absurd hm (hnull _ _ _ _ _ rfl hx hcmd)

/-- A request makes no error but those listed. -/
theorem step_faults_only (r : Request) (hi : Inv s) :
    wp (step r) (Faults s r) (fun _ _ => True) s := by
  obtain ⟨h, hl, hs, hstep⟩ := step_inv r hi
  have hstuck := fun hnull hfree => wp_weaken (wp_mono hstep fun _ _ _ => trivial)
    fun e (he : Stuck s.view s r e) => he.faults hi.tidy hnull hfree
  cases r with
  | ioctl i cmd arg env =>
    by_cases hmiss : ∃ x, s.files.get i = some x ∧ dma_map_cmd x = some cmd ∧
        reads_missing_table s.view x.ctx arg.dma_map_mem.vaddr
    · obtain ⟨x, hx, hcmd, hm⟩ := hmiss
      by_cases hgone : group_gone s.view x
      · obtain ⟨y, rfl⟩ := hgone.file
        have hnone := group_none.mpr hgone
        refine wp_weaken (wp_mono (gone_ioctl hx hnone) fun _ _ hno => hno.elim) ?_
        rintro e rfl
        exact .ioctl_freed hx hnone
      · exact wp_mono (missing_ioctl hs hl hx hcmd hgone hm (.null_page_table hx hcmd hm))
          fun _ _ _ => trivial
    · refine hstuck (fun j cmd' x arg' env' hr hx hcmd hm => ?_) fun _ _ _ _ _ _ hr => by cases hr
      cases hr
      exact hmiss ⟨x, hx, hcmd, hm⟩
  | mmap i mm a b pgoff env =>
    by_cases hfree : range_free s mm a b
    · refine hstuck (fun _ _ _ _ _ hr => by cases hr) fun _ _ _ _ _ _ hr => ?_
      cases hr
      exact hfree
    · unfold step
      rw [wp_bind, wp_get]
      cases s.files.get i with
      | none => trivial
      | some x =>
        dsimp only
        rw [wp_bind, wp_get]
        exact wp_ite (fun hyes => absurd hyes hfree) fun _ => trivial
  | _ =>
    exact hstuck (fun _ _ _ _ _ hr => by cases hr) fun _ _ _ _ _ _ hr => by cases hr

/-- Closing a VMA whose registration has been freed. -/
theorem Stuck.freed_closed {m : MemId} {e : Fault} (hst : Stuck v s r e) (hr : closes_mem v s r m)
    (hm : v.mems m = none) : e = .freed_mem := by
  have hsame : ∀ {n}, closes_mem v s r n → n = m := fun hn => hn.unique hr
  cases hst with
  | vma_freed => rfl
  | table_freed => exact hr.elim
  | table_short hr' hm' =>
    obtain rfl := hsame hr'
    cases hm.symm.trans hm'
  | @group_freed r i x hf =>
    cases r with
    | munmap j => cases hf
    | move j a => cases hf
    | _ => exact hr.elim
  | wrong_type => exact hr.elim
  | wrong_table => exact hr.elim
  | null_page_table => exact hr.elim

theorem Effect.not_closed {m : MemId} (he : Effect h v s r h' v') (hr : closes_mem v s r m)
    (hm : v.mems m = none) : False := by
  have hsame : ∀ {n}, closes_mem v s r n → v.mems n = none := fun hn => hn.unique hr ▸ hm
  cases r with
  | munmap i =>
    have ⟨w, hw, hc⟩ := hr
    cases he with
    | opened hr => exact hr
    | not_opened hr => exact hr
    | no_file hr => cases hr
    | munmap hw' hc' =>
      obtain rfl := Option.some.inj (hw.symm.trans hw')
      cases hc.symm.trans hc'
    | munmap_mem hw' hc' hm' => cases (hsame ⟨_, hw', hc'⟩).symm.trans hm'
    | no_vma hr hw' =>
      obtain rfl := Option.some.inj hr
      cases hw.symm.trans hw'
  | move i a =>
    have ⟨w, hw, hc, hfree⟩ := hr
    cases he with
    | opened hr => exact hr
    | not_opened hr => exact hr
    | no_file hr => cases hr
    | move hw' _ hc' =>
      obtain rfl := Option.some.inj (hw.symm.trans hw')
      cases hc.symm.trans hc'
    | move_mem hw' hfree' hc' hm' => cases (hsame ⟨_, hw', hc', hfree'⟩).symm.trans hm'
    | move_taken hw' hno =>
      obtain rfl := Option.some.inj (hw.symm.trans hw')
      exact hno hfree
    | no_vma hr hw' =>
      obtain rfl := Option.some.inj hr
      cases hw.symm.trans hw'
  | _ => exact hr

/-- A deletion that goes through is not of a controller. -/
theorem Ioctl.not_ctrl_name {c : CtxId} {arg : IoctlArg} {env : IoctlEnv} {reply : IoctlReply}
    (hi : Ioctl h v s (.core c) BAFS_CORE_IOC_DELETE_GROUP arg env reply h' v')
    (hd : env.delete_group = true) (hn : ctrl_name s arg.delete_group.group_name) : False := by
  have hreg : BAFS_CORE_IOC_DELETE_GROUP ≠ BAFS_CORE_IOC_REG_MEM := by decide
  cases hi with
  | reg_mem hcmd => exact hreg hcmd
  | reg_mem_fails hcmd => exact hreg hcmd
  | dma_map hcmd => cases hcmd
  | create hx hcmd => exact absurd hcmd (by decide)
  | refused hcmd hg => exact hg ⟨c, rfl, .inr rfl⟩
  | delete hx hcmd hdel =>
    obtain ⟨d, w, c', hchild, -⟩ := hn.child
    cases hdel with
    | refused hno => exact hno hd d hchild
    | deleted hc hg => exact hg.not_ctrl hn

/-- A request makes the error that is listed for it. -/
theorem step_faults {e : Fault} (hf : Faults s r e) (hi : Inv s) :
    wp (step r) (· = e) (fun _ _ => False) s := by
  obtain ⟨h, hl, hs, hstep⟩ := step_inv r hi
  have hno : (∀ e', Stuck s.view s r e' → e' = e) → (∀ h' v', ¬Effect h s.view s r h' v') →
      wp (step r) (· = e) (fun _ _ => False) s := by
    intro hst hef
    refine wp_weaken (wp_mono hstep fun _ s' hs' => ?_) hst
    obtain ⟨-, h', -, -, he⟩ := hs'
    exact hef h' _ he
  cases hf with
  | @vma_freed r m hr hm =>
    have hm := view_mem_none.mpr hm
    exact hno (fun e' he => he.freed_closed hr hm) fun h' v' he => he.not_closed hr hm
  | @table_freed t x ht hp hm =>
    have hm := view_mem_none.mpr hm
    refine hno (fun e' he => ?_) fun h' v' he => ?_
    · cases he with
      | table_freed => rfl
      | group_freed hr => cases hr
      | table_short hr => exact hr.elim
      | vma_freed hr => exact hr.elim
    · cases he with
      | opened hr => exact hr.elim
      | not_opened hr => exact hr.elim
      | no_file hr => cases hr
      | no_vma hr => cases hr
      | revoke ht' hp' hm' =>
        obtain rfl := Option.some.inj (ht.symm.trans ht')
        cases hm.symm.trans hm'
      | revoke_refused hno => cases hp.symm.trans (hno x ht)
  | @close_freed i y hx hg =>
    refine hno (fun e' he => ?_) fun h' v' he => ?_
    · cases he with
      | group_freed => rfl
      | table_short hr => exact hr.elim
      | vma_freed hr => exact hr.elim
    · cases he with
      | opened hr => exact hr.elim
      | not_opened hr => exact hr.elim
      | no_vma hr => cases hr
      | no_file hr hx' =>
        obtain rfl := Option.some.inj hr
        cases hx.symm.trans hx'
      | close hx' hg' =>
        obtain rfl := Option.some.inj (hx.symm.trans hx')
        exact hg' (group_none.mp hg)
  | ioctl_freed hx hg => exact gone_ioctl hx hg
  | @mmap_freed i mm a b env y hx hg hr =>
    refine hno (fun e' he => ?_) fun h' v' he => ?_
    · cases he with
      | group_freed => rfl
      | table_short hr => exact hr.elim
      | vma_freed hr => exact hr.elim
    · have hbars : ∀ {w h' v'}, ¬Mmap h s.view s (.group y) (new_vma mm a b 0) env w h' v' := by
        intro w h' v' hm
        cases hm with
        | bars_mapped hp hl => cases hl.symm.trans (group_none.mp hg)
        | bars_failed hp hl => cases hl.symm.trans (group_none.mp hg)
        | pinned hp => exact hp rfl
        | unpinned hp => exact hp rfl
        | unknown hp => exact hp rfl
      cases he with
      | opened hr => exact hr.elim
      | not_opened hr => exact hr.elim
      | no_vma hr => cases hr
      | no_file hr hx' =>
        obtain rfl := Option.some.inj hr
        cases hx.symm.trans hx'
      | mmap hx' _ hm =>
        obtain rfl := Option.some.inj (hx.symm.trans hx')
        exact hbars hm
      | mmap_failed hx' _ hm =>
        obtain rfl := Option.some.inj (hx.symm.trans hx')
        exact hbars hm
      | mmap_taken hno => exact hno hr
  | @wrong_type i c arg env hx hd hn =>
    refine hno (fun e' he => ?_) fun h' v' he => ?_
    · cases he with
      | wrong_type => rfl
      | table_short hr => exact hr.elim
      | vma_freed hr => exact hr.elim
      | group_freed hr hx' hg =>
        obtain rfl := Option.some.inj hr
        obtain rfl := Option.some.inj (hx.symm.trans hx')
        exact hg.elim
      | wrong_table hx' hcmd =>
        obtain rfl := Option.some.inj (hx.symm.trans hx')
        cases hcmd
      | null_page_table hx' hcmd =>
        obtain rfl := Option.some.inj (hx.symm.trans hx')
        cases hcmd
    · cases he with
      | opened hr => exact hr.elim
      | not_opened hr => exact hr.elim
      | no_vma hr => cases hr
      | no_file hr hx' =>
        obtain rfl := Option.some.inj hr
        cases hx.symm.trans hx'
      | ioctl hx' hi =>
        obtain rfl := Option.some.inj (hx.symm.trans hx')
        exact hi.not_ctrl_name hd hn
  | @null_page_table i cmd x arg env hx hcmd hm hg =>
    have hgone : ¬group_gone s.view x := by
      intro hgone
      obtain ⟨y, rfl⟩ := hgone.file
      obtain ⟨-, -, -, c, l, hl⟩ := hg
      cases hl.symm.trans hgone
    exact wp_mono (missing_ioctl hs hl hx hcmd hgone hm fun _ => rfl) fun _ _ hno => hno hg

end BafsDriver
