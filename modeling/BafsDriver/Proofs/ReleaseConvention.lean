import BafsDriver.Scenario
import BafsDriver.Proofs.NvidiaTables
import BafsDriver.Proofs.RegProofs

/-!
# The release convention

No reading of the NVIDIA API fits the driver: where the put and the unmapping destroy, the close of a
VMA destroys a second time, and where only the free functions do, a pin and a mapping that fail leave
what they got. Either reading fits the runs that keep clear of these paths.
-/

set_option linter.style.nameCheck false

namespace BafsDriver

open Prog Disposal

variable {h h' : Held Kind} {v v' : View} {s s' : State} {r : Request} {E : Fault → Prop}
  {X : Reading}

/-! ## The conditions -/

/-- A registration of CUDA memory is pinned only while it has never been. -/
def pins_cuda_once (s : State) : Request → Prop
  | .mmap i _ _ _ vm_pgoff _ => ∀ x m f, s.files.get i = some x → ¬maps_bars x vm_pgoff →
    Selects s.view x.ctx vm_pgoff m → s.view.mems m = some f → f.loc = BAFS_MEM_CUDA →
      f.state = .STALE
  | _ => True

/-- The close of the VMA gives up live CUDA memory. -/
def closes_live (v : View) (w : Vma) : Prop :=
  ∃ m f, w.closes = some m ∧ v.mems m = some f ∧ f.loc = BAFS_MEM_CUDA ∧ f.state = .LIVE

/-- The request follows the reading: where the put and the unmapping destroy, it closes no VMA of live
CUDA memory and takes no mapping back; where only the free functions destroy, no pin fails that has got
a page table and no copy of the addresses of a mapping fails. -/
def Reading.follows (X : Reading) (s : State) : Request → Prop
  | .mmap i mm a b vm_pgoff env => X = .free_destroys → ∀ x m f, s.files.get i = some x →
    range_free s mm a b → ¬maps_bars x vm_pgoff → Selects s.view x.ctx vm_pgoff m →
      s.view.mems m = some f → f.loc = BAFS_MEM_CUDA →
      ∀ table, env.pin.nvidia_p2p_get_pages = .ok table →
        cuda_pinnable f.size (new_vma mm a b vm_pgoff) env.pin
  | .ioctl i cmd arg env => ∀ x, s.files.get i = some x → dma_map_cmd x = some cmd →
    X.maps_file s.view arg.dma_map_mem env x
  | .munmap i => X = .release_destroys → ∀ w, s.vmas.get i = some w → ¬closes_live s.view w
  | .move i a => X = .release_destroys → ∀ w, s.vmas.get i = some w →
    range_free s w.mm a (a + (w.vm_end - w.vm_start)) → ¬closes_live s.view w
  | _ => True

/-! ## Requests that leave the page tables alone -/

/-- What a request that neither pins nor closes nor revokes makes of the registration `m`. -/
inductive CalmMem (v v' : View) (m : MemId) : Prop
  | same (hm : v'.mems m = v.mems m)
  | swept {f : BafsMem} (hm : v.mems m = some f) (hst : f.state = .STALE) (hm' : v'.mems m = none)
  | made {f : BafsMem} (hm : v.mems m = none) (hm' : v'.mems m = some f)
      (hc : f.cuda_page_table = none)

/-- The request neither pins nor closes nor revokes. -/
structure Calm (v v' : View) : Prop where
  tables : v'.tables = v.tables
  mems : ∀ m, CalmMem v v' m

theorem Calm.of_eq (hm : v'.mems = v.mems) (ht : v'.tables = v.tables) : Calm v v' :=
  ⟨ht, fun m => .same (by rw [hm])⟩

theorem Calm.of_regs (hr : v'.regs = v.regs) : Calm v v' :=
  .of_eq (congrArg (·.1) hr) (congrArg (·.2.2.2.2.2.1) hr)

/-- The account does not change with the view of a calm request. -/
theorem Accounted.calm (ha : Accounted X v s) (hc : Calm v v') : Accounted X v' s := by
  have hheld : (fun m => (v'.mems m).bind BafsMem.cuda_page_table) =
      fun m => (v.mems m).bind BafsMem.cuda_page_table := by
    funext m
    cases hc.mems m with
    | same hm => rw [hm]
    | @swept f hm hst hm' =>
      rw [hm, hm']
      cases ht : f.cuda_page_table with
      | none => exact ht.symm
      | some t => cases hst.symm.trans (ha.live.tables m f t hm ht).2
    | made hm hm' hn =>
      rw [hm, hm']
      exact hn
  refine ⟨?_, ha.mappings, fun m f t hm ht => ?_, fun d y p hy hp => ?_⟩
  · rw [hheld, hc.tables]
    exact ha.tables
  · cases hc.mems m with
    | same heq => exact ha.live.tables m f t (heq ▸ hm) ht
    | swept _ _ hm' => cases hm.symm.trans hm'
    | made _ hm' hn =>
      obtain rfl := Option.some.inj (hm.symm.trans hm')
      cases ht.symm.trans hn
  · obtain ⟨f, hf, hloc, hst⟩ := ha.live.mappings d y p hy hp
    cases hc.mems y.mem with
    | same heq => exact ⟨f, heq ▸ hf, hloc, hst⟩
    | swept hm hstale _ =>
      obtain rfl := Option.some.inj (hf.symm.trans hm)
      cases hst.symm.trans hstale
    | made hm _ _ => cases hf.symm.trans hm

/-- The registrations and the page tables after a request that neither pins nor closes nor revokes. -/
theorem Effect.calm (he : Effect h s.view s r h' v') (hs : At h s.view s)
    (hp : ∀ i mm a b g env, r ≠ .mmap i mm a b g env) (hm : ∀ i, r ≠ .munmap i)
    (hv : ∀ i a, r ≠ .move i a) (hr : ∀ t, r ≠ .revoke t) : Calm s.view v' := by
  cases he with
  | @close i x hx hg =>
    have hregs := View.close_file_regs s.view h i x
    refine ⟨congrArg (·.2.2.2.2.2.1) hregs, fun m => ?_⟩
    have hmems : (s.view.close_file h i x).mems m =
        (s.view.mems m).filter fun f => f.ctx ≠ x.ctx ∨ f.state ≠ .STALE :=
      congrArg (fun u => u.1 m) hregs
    cases hf : s.view.mems m with
    | none => exact .same (by rw [hmems, hf]; rfl)
    | some f =>
      by_cases hk : f.ctx ≠ x.ctx ∨ f.state ≠ .STALE
      · exact .same (by rw [hmems, hf, Option.filter_some, if_pos (decide_eq_true hk)])
      · refine .swept hf (not_not.mp fun hst => hk (.inr hst)) ?_
        rw [hmems, hf, Option.filter_some, if_neg (by simpa using hk)]
  | ioctl hx hi =>
    cases hi with
    | reg_mem =>
      refine ⟨rfl, fun m => ?_⟩
      by_cases hn : m = s.view.mem_next
      · subst hn
        exact .made hs.mem_fresh (Function.update_self ..) rfl
      · exact .same (Function.update_of_ne hn _ _)
    | create hx hcmd hc => exact .of_regs hc.regs
    | delete hx hcmd hd => exact .of_regs hd.regs
    | _ => exact .of_eq rfl rfl
  | mmap => exact absurd rfl (hp _ _ _ _ _ _)
  | mmap_failed => exact absurd rfl (hp _ _ _ _ _ _)
  | munmap_mem => exact absurd rfl (hm _)
  | move_mem => exact absurd rfl (hv _ _)
  | revoke => exact absurd rfl (hr _)
  | _ => exact .of_eq rfl rfl

/-! ## Pins -/

/-- A pin that is the first of its registration leaves the mappings of the NVIDIA driver on live CUDA
memory. -/
theorem MemPinOutcome.cuda_live {c : CtxId} {vma : Vma} {env : PinEnv} {ret : Vma × Int}
    (ho : MemPinOutcome h v c vma env ret s') (hl : CudaLive v.mems s) (hd : s'.dmas = s.dmas)
    (honce : ∀ m f, Selects v c vma.vm_pgoff m → v.mems m = some f → f.loc = BAFS_MEM_CUDA →
      f.state = .STALE) : CudaLive s'.view.mems s' := by
  -- the registration `m` gets the fields `g`
  have hset : ∀ {m : MemId} {f g : BafsMem}, Selects v c vma.vm_pgoff m → v.mems m = some f →
      s'.view.mems = Function.update v.mems m (some g) →
      (∀ t, g.cuda_page_table = some t → g.loc = BAFS_MEM_CUDA ∧ g.state = .LIVE) →
      CudaLive s'.view.mems s' := by
    intro m f g hsel hf hmems hg
    rw [hmems]
    refine ⟨fun n k t hn ht => ?_, fun d y p hy hp => ?_⟩
    · by_cases hnm : n = m
      · rw [hnm, Function.update_self] at hn
        obtain rfl := Option.some.inj hn
        exact hg t ht
      · rw [Function.update_of_ne hnm] at hn
        exact hl.tables n k t hn ht
    · rw [hd] at hy
      obtain ⟨k, hk, hloc, hst⟩ := hl.mappings d y p hy hp
      refine ⟨k, ?_, hloc, hst⟩
      rw [Function.update_of_ne fun hym => ?_]
      · exact hk
      · rw [hym] at hk
        cases hst.symm.trans (honce m k hsel hk hloc)
  obtain ⟨-, -, hs'⟩ | ⟨m, f, hsel, hf, ⟨-, -, -, f', T', hp, hs'⟩ | ⟨-, -, f', T', hp, hs'⟩⟩ := ho
  · rw [hs'.view]
    exact hl.keep hd
  · refine hset (g := { f' with state := .LIVE }) hsel hf ?_ fun t ht => ⟨?_, rfl⟩
    · rw [hs'.view]
      exact Function.update_idem ..
    · have ht : f'.cuda_page_table = some t := ht
      rcases hp.table with ⟨-, -, hc, -⟩ | ⟨hloc, -⟩
      · exact hp.same.loc.trans (hl.tables m f t hf (hc.symm.trans ht)).1
      · exact hp.same.loc.trans hloc
  · refine hset (g := f') hsel hf (by rw [hs'.view]; rfl) fun t ht => ?_
    rcases hp.cuda with hc | hc
    · obtain ⟨hloc, hst⟩ := hl.tables m f t hf (hc.symm.trans ht)
      exact ⟨hp.same.loc.trans hloc, hp.same.state.trans hst⟩
    · cases ht.symm.trans hc

/-- An mmap that follows the reading keeps the account. -/
theorem mmap_file_accounted {i : FileId} {x : File} {vma : Vma} {env : MmapEnv} (hs : At h v s)
    (hh : NonNeg h) (hi : v.files.get i = some x) (hvm : vma.vm_start < 2 ^ 64)
    (hre : vma.remaps = []) (ha : Accounted X v s)
    (honce : ¬maps_bars x vma.vm_pgoff → ∀ m f, Selects v x.ctx vma.vm_pgoff m →
      v.mems m = some f → f.loc = BAFS_MEM_CUDA → f.state = .STALE)
    (hX : X = .free_destroys → ¬maps_bars x vma.vm_pgoff → ∀ m f, Selects v x.ctx vma.vm_pgoff m →
      v.mems m = some f → f.loc = BAFS_MEM_CUDA →
        ∀ table, env.pin.nvidia_p2p_get_pages = .ok table → cuda_pinnable f.size vma env.pin) :
    wp (mmap_file x vma env) (fun _ => True) (fun _ s' => Accounted X s'.view s') s := by
  by_cases hp : maps_bars x vma.vm_pgoff
  · refine wp_mono (wp_and (mmap_file_spec (E := fun _ => True) hs hh hi hvm hre fun _ _ => trivial)
      (mmap_bars_adds hp s)) fun ret s' hs' => ?_
    obtain ⟨⟨h', v', hm, hs'⟩, hg⟩ := hs'
    rw [hs'.view]
    have ha' := ha.recorded hg.toRecorded fun _ => plain_call_harmless
    generalize mmapped ret = w at hm
    cases hm with
    | bars_mapped | bars_failed | unknown => exact ha'
    | pinned hno => exact absurd hp hno
    | unpinned hno => exact absurd hp hno
  · have hpin : wp (pin_bafs_mem vma x.ctx env.pin) (fun _ => True)
        (fun _ s' => Accounted X s'.view s') s := by
      have hc := CtxHeld.of_file hh hi
      refine wp_mono (wp_and (pin_bafs_mem_spec (E := fun _ => True) hs hh hc hre)
        (wp_and (pin_bafs_mem_tabled hs hh hc hre ha.tables (fun m f hsel hf hloc => ?_)
          fun hB => hX hB hp) (pin_bafs_mem_adds s))) fun ret s' hs' => ?_
      · cases ht : f.cuda_page_table with
        | none => rfl
        | some t =>
          cases (honce hp m f hsel hf hloc).symm.trans (ha.live.tables m f t hf ht).2
      obtain ⟨ho, ht, hg⟩ := hs'
      obtain ⟨hd, hmap⟩ := Prod.mk.inj (hg.still fun _ he => he.elim id id)
      refine ⟨ht, ?_, ho.cuda_live ha.live hd (honce hp)⟩
      rw [mapping_held_congr hd, hmap, hg.calls fun e he => ?_]
      · exact ha.mappings
      · exact he.elim (fun he => (harmless_destroys (plain_call_harmless he)).2) table_call_destroys
    cases x with
    | core c => exact hpin
    | ctrl y => exact wp_ite (fun hb => absurd hb hp) fun _ => hpin
    | group y =>
      refine wp_ite (fun hb => absurd hb hp) fun _ => hpin.bind fun r s' hs' => ?_
      exact wp_ite (fun _ => hs') fun _ => hs'

/-! ## Steps -/

/-- The close of a VMA that follows the reading keeps the account. -/
theorem close_vma_accounted {w : Vma} (hs : At h v s) (hl : Lost h) (ha : Accounted X v s)
    (hX : X = .release_destroys → ¬closes_live v w) :
    wp (close_vma w) (fun _ => True) (fun _ s' => Accounted X s'.view s') s := by
  have hsame : Accounted X s.view s := by
    rw [hs.view]
    exact ha
  unfold close_vma
  cases ho : w.vm_ops with
  | none => exact hsame
  | some o =>
    cases o
    show wp (bafs_mem_release w) _ _ s
    cases hm : w.vm_private_data with
    | none =>
      unfold bafs_mem_release
      rw [hm]
      exact hsame
    | some m =>
      cases hx : s.mems.get m with
      | none =>
        unfold bafs_mem_release
        rw [hm, wp_bind]
        exact wp_load_of (fun _ => trivial) fun x hx' => by cases hx.symm.trans hx'
      | some x =>
        refine wp_mono (wp_and (bafs_mem_release_spec (E := fun _ => True) hs hl.nonneg (hl.mem m)
          (fun _ => trivial) hm (hs.mem_view hx)) (bafs_mem_release_accounted hs hl.nonneg (hl.mem m)
            hm hx (fun hlive => ?_) ha)) fun _ s' hs' => ?_
        · refine hX hlive.1 ⟨m, x.fields, ?_, hs.mem_view hx, hlive.2⟩
          rw [Vma.closes, ho]
          exact hm
        · rw [hs'.1.view]
          exact hs'.2

/-- What a request that follows the reading makes of the account. -/
theorem step_accounted (r : Request) (hi : Inv s) (ha : Accounted X s.view s) (hD : pins_cuda_once s r)
    (hK : X.follows s r) : wp (step r) (fun _ => True) (fun _ s' => Accounted X s'.view s') s := by
  obtain ⟨h, hl, hs, hstep⟩ := step_inv r hi
  have hcalm : (∀ i mm a b g env, r ≠ .mmap i mm a b g env) → (∀ i, r ≠ .munmap i) →
      (∀ i a, r ≠ .move i a) → (∀ t, r ≠ .revoke t) →
      wp (step r) (fun _ => True) (fun _ s' => Accounted X s.view s') s →
      wp (step r) (fun _ => True) (fun _ s' => Accounted X s'.view s') s := by
    intro h1 h2 h3 h4 hw
    refine wp_mono (wp_and hw hstep) fun _ s' hs' => ?_
    obtain ⟨ha', -, h', -, -, he⟩ := hs'
    exact ha'.calm (he.calm hs h1 h2 h3 h4)
  have hplain : ¬r.probes → r.plain s → wp (step r) (fun _ => True)
      (fun _ s' => Accounted X s.view s') s := fun h1 h2 =>
    wp_mono (step_plain_adds r s h1 h2) fun _ s' hg =>
      ha.recorded hg.toRecorded fun _ => plain_call_harmless
  have hp : ∀ m f, s.view.mems m = some f → Paged f := fun m f hm => hi.tidy.paged hm
  cases r with
  | probe pdev env =>
    refine hcalm (by simp) (by simp) (by simp) (by simp) ?_
    refine wp_mono (step_probe_numbers pdev env s) fun _ s' hs' => ?_
    exact ha.recorded (Recorded.of_eq (A := no_call) hs'.1) fun _ he => he.elim
  | ioctl i cmd arg env =>
    refine hcalm (by simp) (by simp) (by simp) (by simp) ?_
    by_cases hm : ∃ x, s.files.get i = some x ∧ dma_map_cmd x = some cmd
    · obtain ⟨x, hx, hcmd⟩ := hm
      unfold step
      rw [wp_bind, wp_get, hx]
      exact (ioctl_dma_map_accounted hs hl.nonneg hx hcmd hp ha (hK x hx hcmd)).bind
        fun _ s₁ ha₁ => ha₁
    · exact hplain (fun h => h) fun x hx hcmd => hm ⟨x, hx, hcmd⟩
  | mmap i mm a b pgoff env =>
    unfold step
    rw [wp_bind, wp_get]
    cases hx : s.files.get i with
    | none => exact ha
    | some x =>
      dsimp only
      rw [wp_bind, wp_get]
      refine wp_ite (fun hr => ?_) fun _ => ha
      have hvm : a < 2 ^ 64 := hr.1.trans hr.2.1
      have hmap : wp (mmap_file x (new_vma mm a b pgoff) env) (fun _ => True)
          (fun _ s' => Accounted X s'.view s') s :=
        mmap_file_accounted hs hl.nonneg hx hvm rfl ha (fun hb m f => hD x m f hx hb)
          fun hB hb m f => hK hB x m f hx hr hb
      refine hmap.bind fun res s₁ ha₁ => ?_
      exact wp_ite (fun _ => ha₁) fun _ => ⟨ha₁.tables, ha₁.mappings, ha₁.live.keep rfl⟩
  | munmap i =>
    unfold step
    rw [wp_bind, wp_get]
    cases hw : s.vmas.get i with
    | none => exact ha
    | some w =>
      dsimp only
      unfold unmap_vma
      rw [wp_bind, wp_bind, wp_modify]
      refine wp_mono (close_vma_accounted (hs.with_vmas (s.vmas.free i)) hl
        ⟨ha.tables, ha.mappings, ha.live.keep rfl⟩ fun hA => hK hA w hw) fun _ s₁ ha₁ => ha₁
  | move i a =>
    unfold step
    rw [wp_bind, wp_get]
    cases hw : s.vmas.get i with
    | none => exact ha
    | some w =>
      dsimp only
      rw [wp_bind, wp_get]
      refine wp_ite (fun hr => ?_) fun _ => ha
      rw [wp_bind, wp_modify, open_vma_eq, wp_bind, wp_pure, unmap_vma, wp_bind, wp_bind, wp_modify]
      refine wp_mono (close_vma_accounted
        (hs.with_vmas ((s.vmas.alloc (w.moved a)).free i)) hl
        ⟨ha.tables, ha.mappings, ha.live.keep rfl⟩ fun hA => hK hA w hw hr) fun _ s₁ ha₁ => ha₁
  | revoke t =>
    unfold step
    rw [wp_bind, wp_get]
    cases hx : s.tables.get t with
    | none => exact ha
    | some x =>
      refine wp_ite (fun _ => ?_) fun _ => ha
      unfold unpin
      rw [wp_bind, wp_modify]
      have hs₁ : At h { s.view with tables := unpinned s.tables t }
          { s with tables := unpinned s.tables t } := ⟨hs.wf.of_objects rfl, rfl⟩
      have ha₁ : Accounted X { s.view with tables := unpinned s.tables t }
          { s with tables := unpinned s.tables t } := by
        refine ⟨?_, ha.mappings, ha.live.keep rfl⟩
        show Once _ (unpinned s.tables t).next _
        rw [unpinned_next]
        exact ha.tables
      cases hz : s.mems.get x.data with
      | none =>
        unfold release_bafs_cuda_mem
        rw [wp_bind, wp_bind]
        exact wp_load_of (fun _ => trivial) fun z hz' => by cases hz.symm.trans hz'
      | some z =>
        have hst : z.state ≠ .DEAD := hi.tidy.alive x.data z.fields (hs.mem_view hz)
        refine (wp_and (release_bafs_cuda_mem_spec (E := fun _ => True) hs₁ (hs₁.mem_view hz))
          (release_bafs_cuda_mem_accounted hs₁ hz hst ha₁)).bind fun _ s₂ hs₂ => ?_
        show Accounted X s₂.view s₂
        rw [hs₂.1.view]
        exact hs₂.2
  | _ =>
    refine hcalm (by simp) (by simp) (by simp) (by simp) ?_
    exact hplain (fun hp => hp) trivial

/-! ## Runs -/

theorem init_accounted : Accounted X init.view init := by
  refine ⟨Once.none fun m => ?_, Once.none fun d => ?_, fun m f t hm => ?_, fun d y p hy => ?_⟩
  · rw [init_mems]
    rfl
  · unfold mapping_held
    rw [show init.dmas.get d = none from Heap.get_empty]
    rfl
  · cases (init_mems m).symm.trans hm
  · cases (Heap.get_empty : init.dmas.get d = none).symm.trans hy

/-- Under either reading of the NVIDIA API, each page table and each mapping that was got is destroyed
once, in every run that pins registrations of CUDA memory once and follows the reading. -/
theorem nvidia_objects_destroyed_once (X : Reading) (rs : List Request)
    (hrs : Along step (fun s r => pins_cuda_once s r ∧ X.follows s r) rs init) :
    Always step (fun _ => True) (DestroyedOnce X) rs init := by
  refine always_of_along (I := fun s => Inv s ∧ Accounted X s.view s) (fun s r hi hr => ?_)
    (fun s hi => ?_) ⟨inv_init, init_accounted⟩ hrs
  · exact wp_and (step_keeps_inv r hi.1) (step_accounted r hi.1 hi.2 hr.1 hr.2)
  · obtain ⟨h, -, hs⟩ := hi.1.sane.at
    exact hs.destroyed_once hi.2

/-! ### Runs with one registration of CUDA memory -/

/-- Before an mmap no registration has been pinned. -/
def unpinned_before (s : State) : Request → Bool
  | .mmap .. => all_mems (fun x => decide (x.state = .STALE)) s
  | _ => true

theorem pins_cuda_once_of_test (ht : unpinned_before s r = true) : pins_cuda_once s r := by
  cases r with
  | mmap i mm a b g env =>
    intro x m f _ _ _ hm _
    exact of_decide_eq_true (all_mems_view (p := fun x => decide (x.state = .STALE)) ht
      (fun _ => rfl) hm)
  | _ => trivial

/-- The request maps nothing for a group, copies all parameters and closes the VMA of no live
registration. -/
def clear_of_undoing (s : State) : Request → Bool
  | .ioctl i _ _ env => match s.files.get i with
    | some (.group _) => false
    | _ => decide (env.ctrl_dma_map_mem.copy_to_user = 0)
  | .munmap _ => all_mems (fun x => decide (x.state ≠ .LIVE)) s
  | .move .. => false
  | _ => true

theorem follows_of_test (ht : clear_of_undoing s r = true) :
    Reading.release_destroys.follows s r := by
  cases r with
  | mmap => exact fun hX => by cases hX
  | munmap i =>
    rintro - w - ⟨m, f, -, hm, -, hst⟩
    have hne := all_mems_view (p := fun x => decide (x.state ≠ .LIVE)) ht (fun _ => rfl) hm
    exact absurd hst (of_decide_eq_true hne)
  | move => cases ht
  | ioctl i cmd arg env =>
    intro x hx _
    simp only [clear_of_undoing, hx] at ht
    cases x with
    | core => trivial
    | group => cases ht
    | ctrl y =>
      have hz : env.ctrl_dma_map_mem.copy_to_user = 0 := of_decide_eq_true ht
      rintro - m f - - ⟨-, -, hcopied, hleft | ⟨j, hj, hno⟩⟩
      · rw [hz] at hleft
        exact hleft rfl
      · rw [Nat.lt_one_iff.mp hj] at hno
        exact hno hcopied
  | _ => trivial

/-- One page of CUDA memory, registered through the first ctrl file. -/
def a_cuda_page : List Request :=
  [.bind 0 0x100000 4096, .open_ctrl 0 a_task granted_open,
    .reg_mem 0 BAFS_CTRL_IOC_REG_MEM 4096 BAFS_MEM_CUDA]

/-- The page is pinned and mapped for DMA, the NVIDIA driver revokes it, and the VMA is unmapped. -/
def revoked_before_close : List Request :=
  a_cuda_page ++ [.map 0 0x10000 1 1, .dma_map 0 0x10000, .revoke 0, .munmap 0]

theorem nvidia_objects_revoked :
    Always step (fun _ => True) (DestroyedOnce .release_destroys) revoked_before_close init :=
  nvidia_objects_destroyed_once _ _
    (along_of_tests (k := fun s r => unpinned_before s r && clear_of_undoing s r)
      (fun _ _ ht => ⟨pins_cuda_once_of_test (Bool.and_eq_true_iff.mp ht).1,
        follows_of_test (Bool.and_eq_true_iff.mp ht).2⟩) (by decide +kernel))

/-- The page is pinned, and the VMA is unmapped. -/
def closed_live : List Request := a_cuda_page ++ [.map 0 0x10000 1 1, .munmap 0]

/-- The NVIDIA driver gives a page table of another version. -/
def another_version : MmapEnv :=
  { granted_mmap with pin := { granted_mmap.pin with
      nvidia_p2p_get_pages := .ok { granted_pages with version_compatible := false } } }

/-- The page is not pinned, as its page table is of another version. -/
def pinned_in_vain : List Request :=
  a_cuda_page ++ [.mmap 0 1 0x10000 0x11000 1 another_version]

/-- Under one reading the close of a VMA destroys its page table twice, under the other a pin that fails
leaves its page table. -/
theorem no_reading_fits : ¬∃ X : Reading, ∀ rs : List Request, Along step pins_cuda_once rs init →
    Always step (fun _ => True) (DestroyedOnce X) rs init := by
  rintro ⟨X, hX⟩
  have hrun : ∀ rs, tests step unpinned_before rs init = true →
      Always step (fun _ => True) (DestroyedOnce X) rs init := fun rs ht =>
    hX _ (along_of_tests (fun _ _ => pins_cuda_once_of_test) ht)
  cases X with
  | release_destroys =>
    obtain ⟨s, hs, ht⟩ := (hrun closed_live (by decide +kernel)).of_ends
      (p := fun s => decide ((calls Reading.release_destroys.table_of s).count 0 = 2))
      (by decide +kernel)
    have hle := hs.tables.count_le 0
    rw [of_decide_eq_true ht] at hle
    exact absurd hle (by decide)
  | free_destroys =>
    obtain ⟨s, hs, ht⟩ := (hrun pinned_in_vain (by decide +kernel)).of_ends
      (p := fun s : State => decide (s.tables.next = 1) &&
        (calls Reading.free_destroys.table_of s).isEmpty &&
        all_mems (fun x => x.cuda_page_table.isNone) s) (by decide +kernel)
    obtain ⟨ht, hnone⟩ := Bool.and_eq_true_iff.mp ht
    obtain ⟨hnext, hcalls⟩ := Bool.and_eq_true_iff.mp ht
    have hcount := hs.tables.once 0 (by rw [of_decide_eq_true hnext]; exact Nat.one_pos) fun m hm => ?_
    · rw [List.isEmpty_iff.mp hcalls] at hcount
      cases hcount
    · rw [table_held_view] at hm
      obtain ⟨f, hf, ht⟩ := Option.bind_eq_some_iff.mp hm
      have hno := all_mems_view (p := fun x => x.cuda_page_table.isNone) hnone (fun _ => rfl) hf
      rw [ht] at hno
      cases hno

end BafsDriver
