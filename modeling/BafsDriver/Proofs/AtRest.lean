import BafsDriver.Proofs.CleanUnload
import BafsDriver.Proofs.CtrlAccounting
import BafsDriver.Proofs.GroupLifetime
import BafsDriver.Proofs.MemLifetime
import BafsDriver.Proofs.StateMachine

/-!
# The module at rest

A registration that was never pinned is there only while a file of its context is open, since the
close of any file of a context sweeps all of them, and one that was pinned only while a VMA points to
it, since the first VMA that is closed releases it. So nothing of what the processes have made is left
when all files are closed and nothing is mapped, whatever they have asked for.
-/

set_option linter.style.nameCheck false

namespace BafsDriver

open Prog

variable {h h' : Held Kind} {v v' : View} {s s' : State} {r : Request}

/-! ## What keeps a registration -/

/-- A registration that was never pinned has an open file of its context, any other a VMA. -/
structure Anchored (v : View) : Prop where
  pending : ∀ m f, v.mems m = some f → f.state = .STALE →
    ∃ i x, v.files.get i = some x ∧ x.ctx = f.ctx
  mapped : ∀ m f, v.mems m = some f → f.state ≠ .STALE →
    ∃ i w, v.vmas.get i = some w ∧ w.vm_private_data = some m
  /-- The pages that the NVIDIA driver may revoke are those of a registration that was pinned. -/
  table : ∀ t x f, v.tables.get t = some x → x.pinned = true → v.mems x.data = some f →
    f.state ≠ .STALE

/-- A request that makes no registration, and takes what keeps one from none that it leaves. -/
theorem Anchored.mono (ha : Anchored v)
    (hm : ∀ m f', v'.mems m = some f' → ∃ f, v.mems m = some f ∧ f.ctx = f'.ctx ∧
      (f.state = .STALE ↔ f'.state = .STALE))
    (hf : ∀ m f', v'.mems m = some f' → f'.state = .STALE → ∀ i x, v.files.get i = some x →
      x.ctx = f'.ctx → ∃ j y, v'.files.get j = some y ∧ y.ctx = f'.ctx)
    (hv : ∀ m f', v'.mems m = some f' → ∀ i w, v.vmas.get i = some w → w.vm_private_data = some m →
      ∃ j u, v'.vmas.get j = some u ∧ u.vm_private_data = some m)
    (ht : ∀ t x, v'.tables.get t = some x → x.pinned = true →
      ∃ y, v.tables.get t = some y ∧ x.data = y.data ∧ y.pinned = true) : Anchored v' := by
  refine ⟨fun m f' hf' hst => ?_, fun m f' hf' hst => ?_, fun t x f' hx hp hf' => ?_⟩
  · obtain ⟨f, hmf, hc, hiff⟩ := hm m f' hf'
    obtain ⟨i, x, hx, hxc⟩ := ha.pending m f hmf (hiff.mpr hst)
    exact hf m f' hf' hst i x hx (hxc.trans hc)
  · obtain ⟨f, hmf, -, hiff⟩ := hm m f' hf'
    obtain ⟨i, w, hw, hwm⟩ := ha.mapped m f hmf (hiff.not.mpr hst)
    exact hv m f' hf' i w hw hwm
  · obtain ⟨y, hy, hd, hpy⟩ := ht t x hx hp
    obtain ⟨f, hmf, -, hiff⟩ := hm x.data f' hf'
    exact hiff.not.mp (ha.table t y f hy hpy (hd ▸ hmf))

/-- A request that leaves the registrations, the files, the VMAs and the page tables. -/
theorem Anchored.congr (ha : Anchored v) (hr : v'.regs = v.regs) : Anchored v' := by
  have hf : v'.files = v.files := congrArg (·.2.2.2.2.1) hr
  have hv : v'.vmas = v.vmas := congrArg (·.2.2.2.1) hr
  have ht : v'.tables = v.tables := congrArg (·.2.2.2.2.2.1) hr
  refine ha.mono (fun m f hm => ⟨f, regs_mems hr hm, rfl, Iff.rfl⟩)
    (fun _ _ _ _ i x hx hc => ⟨i, x, hf ▸ hx, hc⟩) (fun _ _ _ i w hw hm => ⟨i, w, hv ▸ hw, hm⟩)
    fun t x hx hp => ⟨x, ht ▸ hx, rfl, hp⟩

/-- A new registration is made through an open file. -/
theorem Anchored.add_mem {f : BafsMem} {i : FileId} {x : File} (ha : Anchored v) (ht : Tidy v)
    (hx : v.files.get i = some x) (hc : x.ctx = f.ctx) (hst : f.state = .STALE) :
    Anchored (v.add_mem f) := by
  refine ⟨fun m g hg hgst => ?_, fun m g hg hgst => ?_, fun t y g hy hp hg => ?_⟩
  · obtain ⟨-, hg⟩ | ⟨-, hg⟩ := update_cases hg
    · obtain rfl := Option.some.inj hg
      exact ⟨i, x, hx, hc⟩
    · exact ha.pending m g hg hgst
  · obtain ⟨-, hg⟩ | ⟨-, hg⟩ := update_cases hg
    · obtain rfl := Option.some.inj hg
      exact absurd hst hgst
    · exact ha.mapped m g hg hgst
  · obtain ⟨hn, -⟩ | ⟨-, hg⟩ := update_cases hg
    · exact absurd (ht.table_made t y hy) (by rw [hn]; exact lt_irrefl _)
    · exact ha.table t y g hy hp hg

/-- The registration `m` goes with the VMA that gives it up. -/
theorem Anchored.close_mem {m : MemId} {f : BafsMem} {V : Heap Vma} (ha : Anchored v)
    (hV : ∀ i w, v.vmas.get i = some w → w.vm_private_data ≠ some m →
      ∃ j u, V.get j = some u ∧ u.vm_private_data = w.vm_private_data) :
    Anchored ({ v with vmas := V }.close_mem m f) := by
  refine ha.mono (fun n g hg => ⟨g, (close_mem_some hg).2, rfl, Iff.rfl⟩)
    (fun _ _ _ _ i x hx hc => ⟨i, x, hx, hc⟩) (fun n g hg i w hw hwn => ?_)
    fun t x hx hp => released_pinned hx hp
  have hne := (close_mem_some hg).1
  obtain ⟨j, u, hu, hum⟩ := hV i w hw (fun he => hne (Option.some.inj (hwn.symm.trans he)))
  exact ⟨j, u, hu, hum.trans hwn⟩

/-! ## What a request leaves -/

theorem Ioctl.anchored {i : FileId} {x : File} {cmd : Nat} {arg : IoctlArg} {env : IoctlEnv}
    {reply : IoctlReply} (hi : Ioctl h v s x cmd arg env reply h' v') (ht : Tidy v)
    (hx : v.files.get i = some x) (ha : Anchored v) : Anchored v' := by
  cases hi with
  | reg_mem => exact ha.add_mem ht hx rfl rfl
  | reg_mem_fails => exact ⟨ha.pending, ha.mapped, ha.table⟩
  | dma_map => exact ⟨ha.pending, ha.mapped, ha.table⟩
  | create hx hcmd hc => exact ha.congr hc.regs
  | delete hx hcmd hd => exact ha.congr hd.regs
  | refused => exact ha

/-- A pin that fails leaves the state of its registration. -/
theorem Anchored.unpinned {m : MemId} {f f' : BafsMem} {a : Nat} {T' : Heap P2pPageTable}
    (ha : Anchored v) (hm : v.mems m = some f)
    (hp : Unpinned m { f with vaddr := a } f' v.tables T') :
    Anchored ({ v with tables := T' }.set_mem m f') := by
  refine ha.mono (fun n g hg => ?_) (fun _ _ _ _ i x hx hc => ⟨i, x, hx, hc⟩)
    (fun _ _ _ i w hw hwn => ⟨i, w, hw, hwn⟩) fun t x hx hpin => ?_
  · obtain ⟨rfl, he⟩ | ⟨-, hg⟩ := update_cases hg
    · obtain rfl := Option.some.inj he
      exact ⟨f, hm, hp.same.ctx.symm, by rw [hp.same.state]⟩
    · exact ⟨g, hg, rfl, Iff.rfl⟩
  · obtain rfl | ⟨pages, rfl⟩ := hp.tables
    · exact ⟨x, hx, rfl, hpin⟩
    · obtain ⟨y, hy, hd, hpy⟩ := unpinned_get hx
      obtain ⟨ht, -⟩ | hy := Heap.get_alloc_cases hy
      · exact absurd ht (hpy hpin).1
      · exact ⟨y, hy, hd, (hpy hpin).2⟩

/-- A pin that succeeds is followed by the VMA. -/
theorem Anchored.pinned {m : MemId} {f f' : BafsMem} {a : Nat} {T' : Heap P2pPageTable} {w : Vma}
    (ha : Anchored v) (hp : Pinned m { f with vaddr := a } f' v.tables T' w)
    (hw : w.vm_private_data = some m) :
    Anchored { v.pin_mem m f' T' with vmas := v.vmas.alloc w } := by
  have hmems : ∀ n g, (v.pin_mem m f' T').mems n = some g →
      (n = m ∧ g.state = .LIVE) ∨ (n ≠ m ∧ v.mems n = some g) := fun n g hg => by
    rw [View.pin_mem_mems] at hg
    obtain ⟨hn, hg⟩ | hg := update_cases hg
    · exact .inl ⟨hn, by rw [← Option.some.inj hg]⟩
    · exact .inr hg
  refine ⟨fun n g hg hst => ?_, fun n g hg hst => ?_, fun t x g hx hpin hg => ?_⟩
  · obtain ⟨-, hg⟩ | ⟨-, hg⟩ := hmems n g hg
    · cases hg.symm.trans hst
    · exact ha.pending n g hg hst
  · obtain ⟨rfl, -⟩ | ⟨-, hg⟩ := hmems n g hg
    · exact ⟨v.vmas.next, w, by rw [Heap.get_alloc, if_pos rfl], hw⟩
    · obtain ⟨i, u, hu, hun⟩ := ha.mapped n g hg hst
      exact ⟨i, u, Heap.get_alloc_of_get hu, hun⟩
  · obtain ⟨-, hg⟩ | ⟨hne, hg⟩ := hmems _ g hg
    · exact fun hst => by cases hg.symm.trans hst
    · obtain ⟨-, -, -, hT⟩ | ⟨-, -, -, pages, hT⟩ := hp.table
      · exact ha.table t x g (hT ▸ hx) hpin hg
      · obtain ⟨-, rfl⟩ | hx := Heap.get_alloc_cases (hT ▸ hx : (v.tables.alloc _).get t = some x)
        · exact absurd rfl hne
        · exact ha.table t x g hx hpin hg

theorem Mmap.anchored {x : File} {mm a b pgoff : Nat} {env : MmapEnv} {w : Vma}
    (hm : Mmap h v s x (BafsDriver.new_vma mm a b pgoff) env (some w) h' v') (ha : Anchored v) :
    Anchored { v' with vmas := v'.vmas.alloc w } := by
  cases hm with
  | bars_mapped =>
    exact ha.mono (fun m f hf => ⟨f, hf, rfl, Iff.rfl⟩) (fun _ _ _ _ i x hx hc => ⟨i, x, hx, hc⟩)
      (fun _ _ _ i w hw hwm => ⟨i, w, Heap.get_alloc_of_get hw, hwm⟩) fun t x hx hp => ⟨x, hx, rfl, hp⟩
  | pinned hp hsel hm hok hw hpin =>
    obtain ⟨u, -, rfl⟩ := hw
    exact ha.pinned hpin rfl

theorem Mmap.anchored_failed {x : File} {vma : Vma} {env : MmapEnv}
    (hm : Mmap h v s x vma env none h' v') (ha : Anchored v) : Anchored v' := by
  cases hm with
  | unpinned hp hsel hm hno hpin => exact ha.unpinned hm hpin
  | _ => exact ha

/-- Every request keeps what keeps a registration. -/
theorem Effect.anchored (he : Effect h v s r h' v') (ht : Tidy v) (ha : Anchored v) :
    Anchored v' := by
  cases he with
  | opened hr hg =>
    exact ha.mono (fun m f hf => ⟨f, hf, rfl, Iff.rfl⟩)
      (fun _ _ _ _ i x hx hc => ⟨i, x, Heap.get_alloc_of_get hx, hc⟩)
      (fun _ _ _ i w hw hwm => ⟨i, w, hw, hwm⟩) fun t x hx hp => ⟨x, hx, rfl, hp⟩
  | @close i x hx hg =>
    -- what the sweep leaves of the context is mapped
    have hswept : Anchored ({ v with files := v.files.free i }.sweep_ctx x.ctx) := by
      refine ha.mono (fun m f hf => ⟨f, (sweep_ctx_some hf).1, rfl, Iff.rfl⟩)
        (fun m f hf hst j y hy hc => ?_) (fun _ _ _ j w hw hwm => ⟨j, w, hw, hwm⟩)
        fun t y hy hp => ⟨y, hy, rfl, hp⟩
      obtain hne | hne := (sweep_ctx_some hf).2
      · refine ⟨j, y, ?_, hc⟩
        show (v.files.free i).get j = some y
        rw [Heap.get_free, if_neg, hy]
        rintro rfl
        obtain rfl := Option.some.inj (hx.symm.trans hy)
        exact hne hc.symm
      · exact absurd hst hne
    exact hswept.congr (View.close_file_regs v h i x)
  | ioctl hx hi => exact hi.anchored ht hx ha
  | mmap hx hr hm => exact hm.anchored ha
  | mmap_failed hx hr hm => exact hm.anchored_failed ha
  | @munmap i w hw hc =>
    refine ha.mono (fun m f hf => ⟨f, hf, rfl, Iff.rfl⟩) (fun _ _ _ _ i x hx hc => ⟨i, x, hx, hc⟩)
      (fun m f hf j u hu hum => ⟨j, u, ?_, hum⟩) fun t x hx hp => ⟨x, hx, rfl, hp⟩
    show (v.vmas.free i).get j = some u
    rw [Heap.get_free, if_neg, hu]
    rintro rfl
    obtain rfl := Option.some.inj (hw.symm.trans hu)
    cases hc.symm.trans ((ht.closes j w hw).trans hum)
  | @munmap_mem i w m f hw hc hm =>
    refine ha.close_mem fun j u hu hne => ⟨j, u, ?_, rfl⟩
    rw [Heap.get_free, if_neg, hu]
    rintro rfl
    obtain rfl := Option.some.inj (hw.symm.trans hu)
    exact hne ((ht.closes j w hw).symm.trans hc)
  | @split i a w hw hat =>
    refine ha.mono (fun m f hf => ⟨f, hf, rfl, Iff.rfl⟩) (fun _ _ _ _ i x hx hc => ⟨i, x, hx, hc⟩)
      (fun m f hf j u hu hum => ?_) fun t x hx hp => ⟨x, hx, rfl, hp⟩
    by_cases hj : j = i
    · subst hj
      obtain rfl := Option.some.inj (hw.symm.trans hu)
      exact ⟨j, w.lower a, Heap.get_alloc_of_get (Heap.get_set_self hw), hum⟩
    · exact ⟨j, u, Heap.get_alloc_of_get ((Heap.get_set_ne hj).trans hu), hum⟩
  | @move i a w hw hr hc =>
    refine ha.mono (fun m f hf => ⟨f, hf, rfl, Iff.rfl⟩) (fun _ _ _ _ i x hx hc => ⟨i, x, hx, hc⟩)
      (fun m f hf j u hu hum => ⟨j, u, ?_, hum⟩) fun t x hx hp => ⟨x, hx, rfl, hp⟩
    show ((v.vmas.alloc (w.moved a)).free i).get j = some u
    rw [Heap.get_free, if_neg, Heap.get_alloc_of_get hu]
    rintro rfl
    obtain rfl := Option.some.inj (hw.symm.trans hu)
    cases hc.symm.trans ((ht.closes j w hw).trans hum)
  | @move_mem i a w m f hw hr hc hm =>
    refine ha.close_mem fun j u hu hne => ⟨j, u, ?_, rfl⟩
    rw [Heap.get_free, if_neg, Heap.get_alloc_of_get hu]
    rintro rfl
    obtain rfl := Option.some.inj (hw.symm.trans hu)
    exact hne ((ht.closes j w hw).symm.trans hc)
  | @revoke t x f hx hp hm =>
    have hst := ha.table t x f hx hp hm
    have hd := ht.alive _ f hm
    refine ha.mono (fun m g hg => ?_) (fun _ _ _ _ i y hy hc => ?_) (fun _ _ _ i w hw hwm => ?_)
      fun u y hy hpy => ?_
    · rw [View.revoke_mem_mems hd] at hg
      obtain ⟨rfl, he⟩ | ⟨-, hg⟩ := update_cases hg
      · obtain rfl := Option.some.inj he
        exact ⟨f, hm, rfl, iff_of_false hst (by simp)⟩
      · exact ⟨g, hg, rfl, Iff.rfl⟩
    · refine ⟨i, y, ?_, hc⟩
      rw [View.revoke_mem_groups.2.1]
      exact hy
    · refine ⟨i, w, ?_, hwm⟩
      rw [View.revoke_mem_vmas]
      exact hw
    · rw [View.revoke_mem_tables] at hy
      obtain ⟨z, hz, hdz, hpz⟩ := unpinned_get hy
      exact ⟨z, hz, hdz, (hpz hpy).2⟩
  | _ => exact ha

/-! ## The module at rest -/

/-- No context and no registration is left. -/
structure Forgotten (s : State) : Prop where
  ctxs : ∀ c, s.ctxs.get c = none
  registry : ∀ t, s.bafs_global_ctx_xa.lookup t = none
  mems : ∀ m, s.mems.get m = none

/-- No DMA mapping is left, and nothing but the PCI devices and the groups holds a controller. -/
structure AtRest (s : State) : Prop where
  dmas : ∀ d, s.dmas.get d = none
  ctrls : ∀ c x, s.ctrls.get c = some x →
    x.ref = bound_refs s c + s.groups.sum fun y => y.ctrls.count c

theorem anchored_init : Anchored init.view := by
  refine ⟨fun m f hf => ?_, fun m f hf => ?_, fun t x f hx => ?_⟩
  · rw [init_mems] at hf
    cases hf
  · rw [init_mems] at hf
    cases hf
  · cases (Heap.get_empty (i := t) : init.tables.get t = none).symm.trans hx

/-- With no file and no VMA there is no registration, and with no registration no context. -/
theorem Anchored.forgotten (ha : Anchored s.view) (hi : Inv s) (hu : unload_allowed s) :
    Forgotten s := by
  obtain ⟨h, hl, hs⟩ := hi.sane.at
  have hmems : ∀ m, s.mems.get m = none := fun m => by
    cases hx : s.mems.get m with
    | none => rfl
    | some x =>
      have hm := hs.mem_view hx
      by_cases hst : x.state = .STALE
      · obtain ⟨i, y, hy, -⟩ := ha.pending m x.fields hm hst
        cases (hu.1 i).symm.trans hy
      · obtain ⟨i, w, hw, -⟩ := ha.mapped m x.fields hm hst
        cases (hu.2 i).symm.trans hw
  have hctxs : ∀ c, s.ctxs.get c = none := fun c => by
    cases hy : s.ctxs.get c with
    | none => rfl
    | some y =>
      have heq := hs.wf.ctx.eq c y hy
      have hpos := hs.wf.ctx.pos c y hy
      have hholders : ctx_holders s c = 0 := by
        unfold ctx_holders
        rw [Heap.count, Heap.count, Heap.sum_eq_zero, Heap.sum_eq_zero]
        · exact fun m x hx => by cases (hmems m).symm.trans hx
        · exact fun i x hx => by cases (hu.1 i).symm.trans hx
      rw [hholders, hl.ctx] at heq
      omega
  refine ⟨hctxs, fun t => ?_, hmems⟩
  cases hc : s.bafs_global_ctx_xa.lookup t with
  | none => rfl
  | some c =>
    obtain ⟨y, hy, -⟩ := (hs.wf.tables.global t c).mp hc
    cases (hctxs c).symm.trans hy

/-- What the second half of the result is drawn from. -/
structure Resting (s : State) : Prop where
  inv : Inv s
  anchored : Anchored s.view
  lifetime : MemLifetime s
  balanced : CtrlBalanced s

theorem step_resting (r : Request) (hr : Resting s) (hk : keeps_mem s r ∧ keeps_ctrl s r) :
    wp (step r) (fun _ => True) (fun _ s' => Resting s') s := by
  obtain ⟨h, hl, hs, hstep⟩ := step_inv r hr.inv
  have hlinked := (memLifetime_iff hl hs).mp hr.lifetime
  have hbal := (ctrlBalanced_iff hs).mp hr.balanced
  refine wp_weaken (wp_mono hstep fun _ s' hs' => ?_) fun _ _ => trivial
  obtain ⟨hi', h', hl', hs', he⟩ := hs'
  refine ⟨hi', he.anchored hr.inv.tidy hr.anchored, (memLifetime_iff hl' hs').mpr ?_,
    (ctrlBalanced_iff hs').mpr ?_⟩
  · exact (he.linked_iff hs hr.inv.tidy hlinked).mpr hk.1
  · exact (he.balanced_iff hbal).mpr hk.2

theorem Resting.emptied (hr : Resting s) (hu : unload_allowed s) : AtRest s := by
  have hf := hr.anchored.forgotten hr.inv hu
  have hdmas : ∀ d, s.dmas.get d = none := fun d => by
    cases hy : s.dmas.get d with
    | none => rfl
    | some y =>
      obtain ⟨x, hx⟩ := hr.lifetime.dma_live d y hy
      cases (hf.mems y.mem).symm.trans hx
  refine ⟨hdmas, fun c x hx => ?_⟩
  have hcount := hr.balanced.counted c
  have hbars : bar_segments s.vmas c = 0 :=
    Heap.sum_eq_zero fun i w hw => by cases (hu.2 i).symm.trans hw
  have hfiles : s.files.sum (File.ctrl_refs c) = 0 :=
    Heap.sum_eq_zero fun i y hy => by cases (hu.1 i).symm.trans hy
  have hnone : (s.dmas.count fun y => y.ctrl = c) = 0 :=
    Heap.sum_eq_zero fun d y hy => by cases (hdmas d).symm.trans hy
  unfold ctrl_ref ctrl_holders at hcount
  rw [hx, hbars, hfiles, hnone] at hcount
  exact hcount

theorem resting_init : Resting init := by
  obtain ⟨h, hl, hs⟩ := inv_init.sane.at
  refine ⟨inv_init, anchored_init, (memLifetime_iff hl hs).mpr ⟨fun i w m hw => ?_, fun d m c hd => ?_⟩,
    balanced_init⟩
  · cases (init_vmas i).symm.trans hw
  · rw [init_dmas] at hd
    cases hd

/-- In every run, when all files are closed and nothing is mapped no context and no registration is
left; and where no request has freed a registration that something pointed to, nor lost a reference to
a controller, no DMA mapping is left either, and only PCI devices and groups hold controllers. -/
theorem at_rest (rs : List Request) :
    Always step (fun _ => True) (fun s => unload_allowed s → Forgotten s) rs init ∧
    (Along step (fun s r => keeps_mem s r ∧ keeps_ctrl s r) rs init →
      Always step (fun _ => True) (fun s => unload_allowed s → AtRest s) rs init) := by
  constructor
  · refine always_of_step (I := fun s => Inv s ∧ Anchored s.view) (fun s r hi => ?_)
      (fun s hi => hi.2.forgotten hi.1) rs ⟨inv_init, anchored_init⟩
    obtain ⟨h, -, -, hstep⟩ := step_inv r hi.1
    refine wp_weaken (wp_mono hstep fun _ s' hs' => ?_) fun _ _ => trivial
    obtain ⟨hi', h', -, -, he⟩ := hs'
    exact ⟨hi', he.anchored hi.1.tidy hi.2⟩
  · exact always_of_along (I := Resting) (fun s r => step_resting r)
      (fun s hr hu => hr.emptied hu) resting_init

/-- Memory is registered, mapped, mapped for DMA and unmapped, and the files are closed. -/
def used_once : List Request :=
  [.bind 0 0x100000 4096, .open_core a_task granted_ctx, .open_ctrl 0 a_task granted_open,
    .reg_mem 0 BAFS_CORE_IOC_REG_MEM 4096 BAFS_MEM_CPU, .map 0 0x10000 1 1, .dma_map 1 0x10000,
    .munmap 0, .close 1, .close 0]

/-- Whether a request of such a run leaves no pointer and no reference behind. -/
def leaves_none (s : State) : Request → Bool
  | .munmap i => s.vmas.next == 1 && i == 0 &&
    (s.vmas.get i).all fun w => w.remaps.all fun q => q.bar.isNone
  | .close _ => all_mems (fun x => x.state ≠ .STALE) s
  | .ioctl _ cmd _ _ => cmd ≠ BAFS_CTRL_IOC_REG_MEM
  | .mmap _ _ _ _ vm_pgoff _ => vm_pgoff ≠ 0
  | .split .. | .move .. | .revoke .. => false
  | _ => true

theorem leaves_none_spec {s : State} {r : Request} (hr : leaves_none s r = true) :
    keeps_mem s r ∧ keeps_ctrl s r := by
  cases r with
  | munmap i =>
    simp only [leaves_none, Bool.and_eq_true, beq_iff_eq, Option.all_eq_true, List.all_eq_true] at hr
    obtain ⟨⟨hone, rfl⟩, hbars⟩ := hr
    refine ⟨fun w m _ _ j u hu _ => ?_, fun w hw q hq => ?_⟩
    · have hj := Heap.lt_next_of_get hu
      rw [hone] at hj
      exact Nat.lt_one_iff.mp hj
    · exact Option.isNone_iff_eq_none.mp (hbars w hw q hq)
  | close i =>
    refine ⟨fun x _ => .inr fun m y hy _ hst => ?_, trivial⟩
    have hne := List.all_eq_true.mp hr m (List.mem_range.mpr (Heap.lt_next_of_get hy))
    rw [hy] at hne
    exact absurd hst (of_decide_eq_true hne)
  | ioctl i cmd arg env => exact ⟨trivial, fun x y _ hcmd => absurd hcmd (of_decide_eq_true hr)⟩
  | mmap i mm a b pgoff env =>
    have hne : pgoff ≠ 0 := of_decide_eq_true hr
    refine ⟨trivial, fun x l q _ _ hbars => ?_⟩
    cases x with
    | core => exact hbars.elim
    | _ => exact absurd hbars hne
  | probe | remove | open_core | open_ctrl | open_group => exact ⟨trivial, trivial⟩
  | _ => cases hr

theorem get_none_of_test {α : Type} {H : Heap α}
    (hn : ((List.range H.next).all fun i => (H.get i).isNone) = true) (i : Nat) : H.get i = none := by
  cases hx : H.get i with
  | none => rfl
  | some x =>
    have hi := List.all_eq_true.mp hn i (List.mem_range.mpr (Heap.lt_next_of_get hx))
    rw [hx] at hi
    cases hi

/-- Whether no file is open and nothing is mapped, and the controller has one reference. -/
def rests (s : State) : Bool :=
  (List.range s.files.next).all (fun i => (s.files.get i).isNone) &&
    (List.range s.vmas.next).all (fun i => (s.vmas.get i).isNone) &&
    decide ((s.ctrls.get 0).map BafsCtrl.ref = some 1)

theorem at_rest_used_once : ∃ s, unload_allowed s ∧ AtRest s ∧
    (s.ctrls.get 0).map BafsCtrl.ref = some 1 := by
  have hrest := (at_rest used_once).2 (along_of_tests (k := leaves_none)
    (fun _ _ => leaves_none_spec) (by decide +kernel))
  obtain ⟨s, hs, hp⟩ := hrest.of_ends (p := rests) (by decide +kernel)
  simp only [rests, Bool.and_eq_true] at hp
  obtain ⟨⟨hfiles, hvmas⟩, href⟩ := hp
  have hu : unload_allowed s := ⟨get_none_of_test hfiles, get_none_of_test hvmas⟩
  exact ⟨s, hu, hs hu, of_decide_eq_true href⟩

end BafsDriver
