import BafsDriver.Proofs.RegProofs
import BafsDriver.Scenario

/-!
# The lifetime of a registration

The count of a registration is always one more than the number of its DMA mappings. What the count
does not cover is who else points to it: neither the VMA of a pin nor a second VMA takes a reference,
and the sweep at the close of a file does not look at the count. The driver keeps every pointer valid
exactly along the runs in which this does not show.
-/

namespace BafsDriver

open Prog

variable {h h' : Held Kind} {v v' : View} {s s' : State} {r : Request}

/-- The registrations that exist are counted right, nothing points to one that has been freed, and
each is freed at most once. -/
structure MemLifetime (s : State) : Prop where
  counted : ∀ m x, s.mems.get m = some x → x.ref = 1 + dma_holders s m
  vma_live : ∀ i w m, s.vmas.get i = some w → w.vm_private_data = some m →
    ∃ x, s.mems.get m = some x
  dma_live : ∀ d y, s.dmas.get d = some y → ∃ x, s.mems.get y.mem = some x
  freed_once : s.mems.FreedOnce fun m => s.mem_log.count m

/-- The request does not free a registration that something else still points to: it unmaps the only
VMA of the registration, closes a file whose context has no DMA mapping of a registration that was
never pinned, and revokes the pages of a registration that exists. -/
def keeps_mem (s : State) : Request → Prop
  | .munmap i => ∀ w m, s.vmas.get i = some w → w.vm_private_data = some m →
    ∀ j u, s.vmas.get j = some u → u.vm_private_data = some m → j = i
  | .move i a => ∀ w, s.vmas.get i = some w → w.vm_private_data ≠ none →
    ¬range_free s w.mm a (a + (w.vm_end - w.vm_start))
  | .close i => ∀ x, s.files.get i = some x → group_gone s.view x ∨
    ∀ m y, s.mems.get m = some y → y.ctx = x.ctx → y.state = .STALE → dma_holders s m = 0
  | .revoke t => ∀ x, s.tables.get t = some x → x.pinned = true → ∃ y, s.mems.get x.data = some y
  | _ => True

/-! ## Pointers to registrations -/

/-- Every pointer to a registration leads to one. -/
structure Linked (v : View) : Prop where
  vma : ∀ i w m, v.vmas.get i = some w → w.vm_private_data = some m → ∃ f, v.mems m = some f
  dma : ∀ d m c, v.dmas d = some (m, c) → ∃ f, v.mems m = some f

theorem view_mem_iff {m : MemId} : (∃ f, s.view.mems m = some f) ↔ ∃ x, s.mems.get m = some x :=
  ⟨fun ⟨_, hf⟩ => (Option.map_eq_some_iff.mp hf).imp fun _ h => h.1,
    fun ⟨_, hx⟩ => ⟨_, congrArg (Option.map BafsMem.fields) hx⟩⟩

theorem At.dma_holders_eq_zero (hs : At h v s) {m : MemId} :
    dma_holders s m = 0 ↔ ∀ d c, v.dmas d ≠ some (m, c) := by
  refine ⟨fun hz d c hd => ?_, fun hn => Heap.sum_eq_zero fun d y hy => if_neg ?_⟩
  · obtain ⟨y, hy, hm, -⟩ := hs.dma_live hd
    have := Heap.count_pos (p := fun y : BafsMemDma => y.mem = m) hy hm
    unfold dma_holders at hz
    omega
  · rintro rfl
    exact hn d y.ctrl (hs.dma_view hy)

/-- Of the four parts of the property, only the pointers depend on what the run was. -/
theorem memLifetime_iff (hl : Lost h) (hs : At h s.view s) : MemLifetime s ↔ Linked s.view := by
  refine ⟨fun hp => ⟨fun i w m hw hm => view_mem_iff.mpr (hp.vma_live i w m hw hm),
    fun d m c hd => ?_⟩, fun hp => ⟨fun m x hx => ?_, fun i w m hw hm =>
      view_mem_iff.mp (hp.vma i w m hw hm), fun d y hy => ?_, hs.wf.logs.mem⟩⟩
  · obtain ⟨y, hy, rfl, -⟩ := hs.dma_live hd
    exact view_mem_iff.mpr (hp.dma_live d y hy)
  · have := hs.wf.mem.eq m x hx
    rw [hl.mem m] at this
    omega
  · exact view_mem_iff.mp (hp.dma d y.mem y.ctrl (hs.dma_view hy))

/-- A request that frees no registration leaves no pointer without one. -/
theorem Linked.mono (hl : Linked v)
    (hm : ∀ m f, v.mems m = some f → ∃ f', v'.mems m = some f')
    (hv : ∀ i w, v'.vmas.get i = some w → v.vmas.get i = some w ∨ NewVma v v'.mems w)
    (hd : ∀ d m c, v'.dmas d = some (m, c) → ∃ f, v.mems m = some f) : Linked v' := by
  have hold : ∀ m, (∃ f, v.mems m = some f) → ∃ f', v'.mems m = some f' :=
    fun m ⟨f, hf⟩ => hm m f hf
  refine ⟨fun i w m hw hwm => ?_, fun d m c hdm => hold m (hd d m c hdm)⟩
  obtain hw | hw := hv i w hw
  · exact hold m (hl.vma i w m hw hwm)
  · cases hw with
    | piece hw hops hm' hbar => exact hold m (hl.vma _ _ m hw (hm' ▸ hwm))
    | bars hops hm' => cases hm'.symm.trans hwm
    | pinned hops hm' hbar hf hst =>
      obtain rfl := Option.some.inj (hm'.symm.trans hwm)
      exact ⟨_, hf⟩

theorem Ioctl.linked {x : File} {cmd : Nat} {arg : IoctlArg} {env : IoctlEnv} {reply : IoctlReply}
    (hi : Ioctl h v s x cmd arg env reply h' v') (hl : Linked v) : Linked v' := by
  have hregs : v'.regs = v.regs → Linked v' := fun he => by
    have hm : v'.mems = v.mems := congrArg (·.1) he
    have hv : v'.vmas = v.vmas := congrArg (·.2.2.2.1) he
    have hd : v'.dmas = v.dmas := congrArg (·.2.2.1) he
    exact ⟨hv ▸ hm ▸ hl.vma, hd ▸ hm ▸ hl.dma⟩
  cases hi with
  | reg_mem => exact hl.mono (fun m f hm => update_kept hm) (fun i w hw => .inl hw) hl.dma
  | reg_mem_fails => exact ⟨hl.vma, hl.dma⟩
  | @dma_map ds D hcmd hD =>
    refine ⟨hl.vma, fun d m c hd => ?_⟩
    by_cases hmem : d ∈ ds
    · obtain ⟨-, m', c', hd', hf⟩ := hD.new d hmem
      obtain ⟨rfl, -⟩ := Prod.mk.inj (Option.some.inj (hd'.symm.trans hd))
      exact hf.1.imp fun _ h => h.1
    · exact hl.dma d m c ((hD.old d hmem).symm.trans hd)
  | create hx hcmd hc => exact hregs hc.regs
  | delete hx hcmd hd => exact hregs hd.regs
  | refused => exact hl

/-- The registration of a VMA goes when the VMA is closed: nothing is left to point to it exactly if
no other VMA did. -/
theorem Linked.close_mem {m : MemId} {f : BafsMem} {V : Heap Vma} (hl : Linked v)
    (hV : ∀ i w, V.get i = some w → w.vm_private_data ≠ some m → ∃ j u, v.vmas.get j = some u ∧
      u.vm_private_data = w.vm_private_data) :
    Linked ({ v with vmas := V }.close_mem m f) ↔
      ∀ i w, V.get i = some w → w.vm_private_data ≠ some m := by
  refine ⟨fun hl' i w hw hm => ?_, fun hn => ⟨fun i w n hw hm => ?_, fun d n c hd => ?_⟩⟩
  · obtain ⟨g, hg⟩ := hl'.vma i w m hw hm
    exact (close_mem_some hg).1 rfl
  · have hne := hn i w hw
    obtain ⟨j, u, hu, hum⟩ := hV i w hw hne
    obtain ⟨g, hg⟩ := hl.vma j u n hu (hum.trans hm)
    refine ⟨g, ?_⟩
    rw [View.close_mem_mems, Function.update_of_ne (fun he : n = m => hne (he ▸ hm))]
    exact hg
  · obtain ⟨hd, hp⟩ := Option.filter_eq_some_iff.mp hd
    obtain ⟨g, hg⟩ := hl.dma d n c hd
    refine ⟨g, ?_⟩
    rw [View.close_mem_mems, Function.update_of_ne (of_decide_eq_true hp)]
    exact hg

/-- The sweep leaves no pointer without a registration exactly if no DMA mapping points to one that
it frees. -/
theorem Linked.sweep_ctx {c : CtxId} (hl : Linked v) :
    (∀ d m e, v.dmas d = some (m, e) → ∃ f, (v.sweep_ctx c).mems m = some f) ↔
      ∀ m f, v.mems m = some f → f.ctx = c → f.state = .STALE → ∀ d e, v.dmas d ≠ some (m, e) := by
  refine ⟨fun hs m f hm hc hst d e hd => ?_, fun hn d m e hd => ?_⟩
  · obtain ⟨g, hg⟩ := hs d m e hd
    obtain ⟨hg, hkeep⟩ := sweep_ctx_some hg
    obtain rfl := Option.some.inj (hm.symm.trans hg)
    exact hkeep.elim (fun hne => hne hc) fun hne => hne hst
  · obtain ⟨f, hf⟩ := hl.dma d m e hd
    refine ⟨f, Option.filter_eq_some_iff.mpr ⟨hf, decide_eq_true ?_⟩⟩
    by_contra hno
    rw [not_or, not_not, not_not] at hno
    exact hn m f hf hno.1 hno.2 d e hd

theorem Linked.close_file {i : FileId} {x : File} (ht : Tidy v) (hl : Linked v) :
    Linked (v.close_file h i x) ↔
      ∀ m f, v.mems m = some f → f.ctx = x.ctx → f.state = .STALE → ∀ d e, v.dmas d ≠ some (m, e) := by
  have hr := View.close_file_regs v h i x
  have hm : (v.close_file h i x).mems = (v.sweep_ctx x.ctx).mems := congrArg (·.1) hr
  have hv : (v.close_file h i x).vmas = v.vmas := congrArg (·.2.2.2.1) hr
  have hd : (v.close_file h i x).dmas = v.dmas := congrArg (·.2.2.1) hr
  rw [← hl.sweep_ctx]
  refine ⟨fun hl' d m e hde => hm ▸ hl'.dma d m e (hd.symm ▸ hde),
    fun hs => ⟨fun j w m hw hwm => ?_, fun d m e hde => hm.symm ▸ hs d m e (hd ▸ hde)⟩⟩
  rw [hv] at hw
  obtain ⟨f, hf⟩ := hl.vma j w m hw hwm
  refine ⟨f, ?_⟩
  rw [hm]
  exact Option.filter_eq_some_iff.mpr ⟨hf, decide_eq_true (.inr (ht.pinned j w m f hw hwm hf))⟩

/-! ## What a request leaves behind -/

theorem keeps_mem_opens (hr : r.opens) : keeps_mem s r := by
  cases r <;> trivial

theorem keeps_mem_no_file {i : FileId} (hr : r.file = some i) (hx : s.files.get i = none) :
    keeps_mem s r := by
  cases r with
  | close f =>
    obtain rfl := Option.some.inj hr
    exact fun x hx' => by cases hx.symm.trans hx'
  | ioctl => trivial
  | mmap => trivial
  | _ => cases hr

theorem keeps_mem_no_vma {i : VmaId} (hr : r.vma = some i) (hw : s.vmas.get i = none) :
    keeps_mem s r := by
  cases r with
  | munmap j =>
    obtain rfl := Option.some.inj hr
    exact fun w m hw' => by cases hw.symm.trans hw'
  | split => trivial
  | move j a =>
    obtain rfl := Option.some.inj hr
    exact fun w hw' => by cases hw.symm.trans hw'
  | _ => cases hr

/-- Where every pointer leads to a registration before a request, it does so after it exactly if the
request frees no registration that something else points to. -/
theorem Effect.linked_iff (he : Effect h s.view s r h' v') (hs : At h s.view s)
    (ht : Tidy s.view) (hl : Linked s.view) : Linked v' ↔ keeps_mem s r := by
  have hvma := fun i w => he.vma_of (i := i) (w := w)
  cases he with
  | probe => exact iff_of_true hl trivial
  | remove => exact iff_of_true hl trivial
  | opened hr hg => exact iff_of_true ⟨hl.vma, hl.dma⟩ (keeps_mem_opens hr)
  | not_opened hr => exact iff_of_true hl (keeps_mem_opens hr)
  | @close i x hx hg =>
    rw [hl.close_file ht]
    refine ⟨fun hn y hy => ?_, fun hk m f hm hc hst => ?_⟩
    · obtain rfl := Option.some.inj (hx.symm.trans hy)
      exact .inr fun m y hm hc hst => hs.dma_holders_eq_zero.mpr (hn m y.fields (hs.mem_view hm) hc hst)
    · obtain ⟨y, hy, rfl⟩ := hs.mem_live hm
      obtain hgone | hk := hk x hx
      · exact absurd hgone hg
      · exact hs.dma_holders_eq_zero.mp (hk m y hy hc hst)
  | ioctl hx hi => exact iff_of_true (hi.linked hl) trivial
  | mmap hx hr hm =>
    refine iff_of_true (hl.mono (fun m f hf => hm.mem_kept hf) hvma fun d m c hd => ?_) trivial
    exact hl.dma d m c (hm.dmas ▸ hd)
  | mmap_failed hx hr hm =>
    refine iff_of_true (hl.mono (fun m f hf => hm.mem_kept hf) hvma fun d m c hd => ?_) trivial
    exact hl.dma d m c (hm.dmas ▸ hd)
  | mmap_taken => exact iff_of_true hl trivial
  | no_file hr hx => exact iff_of_true hl (keeps_mem_no_file hr hx)
  | @munmap i w hw hc =>
    refine iff_of_true (hl.mono (fun m f hf => ⟨f, hf⟩) hvma hl.dma) fun w' m hw' hm => ?_
    obtain rfl := Option.some.inj (hw.symm.trans hw')
    cases (hc.symm.trans (ht.closes i _ hw)).trans hm
  | @munmap_mem i w m f hw hc hm =>
    have hwm : w.vm_private_data = some m := (ht.closes i w hw).symm.trans hc
    rw [hl.close_mem fun j u hu _ => ⟨j, u, (Heap.get_of_free hu).2, rfl⟩]
    refine ⟨fun hn w' m' hw' hm' j u hu hum => ?_, fun hk j u hu hum => ?_⟩
    · obtain rfl := Option.some.inj (hw.symm.trans hw')
      obtain rfl := Option.some.inj (hwm.symm.trans hm')
      by_contra hj
      refine hn j u ?_ hum
      rw [Heap.get_free, if_neg hj]
      exact hu
    · obtain ⟨hj, hu⟩ := Heap.get_of_free hu
      exact hj (hk w m hw hwm j u hu hum)
  | split hw hat => exact iff_of_true (hl.mono (fun m f hf => ⟨f, hf⟩) hvma hl.dma) trivial
  | split_refused => exact iff_of_true hl trivial
  | @move i a w hw hr hc =>
    refine iff_of_true (hl.mono (fun m f hf => ⟨f, hf⟩) hvma hl.dma) fun w' hw' hm => ?_
    obtain rfl := Option.some.inj (hw.symm.trans hw')
    exact absurd ((ht.closes i _ hw).symm.trans hc) hm
  | @move_mem i a w m f hw hr hc hm =>
    have hwm : w.vm_private_data = some m := (ht.closes i w hw).symm.trans hc
    have hk : ¬keeps_mem s (.move i a) := fun hk => by
      refine hk w hw (fun hnone => ?_) hr
      cases hnone.symm.trans hwm
    refine iff_of_false (fun hl' => ?_) hk
    -- the copy still points to the registration
    have hne : s.view.vmas.next ≠ i := (Heap.lt_next_of_get hw).ne'
    have hcopy : ((s.view.vmas.alloc (w.moved a)).free i).get s.view.vmas.next =
        some (w.moved a) := by
      rw [Heap.get_free, if_neg hne, Heap.get_alloc, if_pos rfl]
    obtain ⟨g, hg⟩ := hl'.vma _ _ m hcopy hwm
    exact (close_mem_some hg).1 rfl
  | move_taken hw hr =>
    refine iff_of_true hl fun w' hw' _ => ?_
    obtain rfl := Option.some.inj (hw.symm.trans hw')
    exact hr
  | no_vma hr hw => exact iff_of_true hl (keeps_mem_no_vma hr hw)
  | @revoke t x f ht' hp hm =>
    refine iff_of_true (hl.mono (fun m g hg => View.revoke_mem_kept hg) hvma fun d m c hd => ?_)
      fun y hy _ => ?_
    · rw [View.revoke_mem_dmas] at hd
      exact hl.dma d m c hd
    · obtain rfl := Option.some.inj (ht'.symm.trans hy)
      exact view_mem_iff.mp ⟨f, hm⟩
  | revoke_refused hn =>
    refine iff_of_true hl fun y hy hp => ?_
    cases (hn y hy).symm.trans hp

/-- A request that would free a registration that something else points to does not get stuck before
it does, unless it comes across a registration that has been freed. -/
theorem keeps_mem_of_stuck {e : Fault} (hst : Stuck s.view s r e) (ht : Tidy s.view)
    (he : e ≠ .freed_mem) : keeps_mem s r := by
  cases hst with
  | table_short hr hm hf => exact absurd (ht.fits _ _ hm) hf
  | vma_freed => exact absurd rfl he
  | table_freed => exact absurd rfl he
  | @group_freed r i x hr hx hg hp =>
    cases r with
    | close f =>
      obtain rfl := Option.some.inj hr
      intro y hy
      obtain rfl := Option.some.inj (hx.symm.trans hy)
      exact .inl hg
    | ioctl => trivial
    | mmap => trivial
    | _ => cases hr
  | wrong_type => trivial
  | wrong_table => trivial
  | null_page_table => trivial

theorem freed_mem_of_stuck (hst : Stuck s.view s r .freed_mem) (ht : Tidy s.view)
    (hl : Linked s.view) : ¬keeps_mem s r := by
  have hlive : ∀ i w m, s.view.vmas.get i = some w → w.closes = some m → s.view.mems m ≠ none :=
    fun i w m hw hc hm => by
      obtain ⟨f, hf⟩ := hl.vma i w m hw ((ht.closes i w hw).symm.trans hc)
      cases hm.symm.trans hf
  cases hst with
  | @vma_freed r m hr hm =>
    cases r with
    | munmap i =>
      obtain ⟨w, hw, hc⟩ := hr
      exact absurd hm (hlive i w m hw hc)
    | move i a =>
      obtain ⟨w, hw, hc, -⟩ := hr
      exact absurd hm (hlive i w m hw hc)
    | _ => exact hr.elim
  | @table_freed t x ht' hp hm =>
    intro hk
    obtain ⟨f, hf⟩ := view_mem_iff.mpr (hk x ht' hp)
    cases hm.symm.trans hf

/-- One request: every pointer still leads to a registration, and no registration is used that has
been freed, exactly if the request frees none that something else points to. -/
theorem step_linked_iff (r : Request) (hi : Inv s) (hp : MemLifetime s) :
    wp (step r) (fun e => e ≠ .freed_mem) (fun _ s' => MemLifetime s') s ↔ keeps_mem s r := by
  obtain ⟨h, hl, hs, hstep⟩ := step_inv r hi
  have hlink := (memLifetime_iff hl hs).mp hp
  refine ⟨fun hw => ?_, fun hk => ?_⟩
  · by_contra hk
    obtain ⟨-, s', ⟨-, h', hl', hs', he⟩, hp'⟩ := wp_join hstep hw
      fun e hst hne => hk (keeps_mem_of_stuck hst hi.tidy hne)
    exact hk ((he.linked_iff hs hi.tidy hlink).mp ((memLifetime_iff hl' hs').mp hp'))
  · refine wp_weaken (wp_mono hstep fun _ s' hs' => ?_) fun e hst => ?_
    · obtain ⟨-, h', hl', hs', he⟩ := hs'
      exact (memLifetime_iff hl' hs').mpr ((he.linked_iff hs hi.tidy hlink).mpr hk)
    · rintro rfl
      exact freed_mem_of_stuck hst hi.tidy hlink hk

/-- In every run the counts are right, nothing points to a registration that has been freed, and none
is used or freed again, exactly if no request frees one that something else points to. -/
theorem mem_lifetime (rs : List Request) :
    Always step (fun e => e ≠ .freed_mem) MemLifetime rs init ↔ Along step keeps_mem rs init := by
  refine always_iff_along (I := Inv) (fun s r hi _ _ => ?_) (fun s r hi hp => step_linked_iff r hi hp)
    rs inv_init ?_
  · obtain ⟨h, -, -, hw⟩ := step_inv r hi
    exact wp_weaken (wp_mono hw fun _ s' hs' => hs'.1) fun _ _ => trivial
  · obtain ⟨h, hl, hs⟩ := sane_init.at
    refine (memLifetime_iff hl hs).mpr ⟨fun i w m hw => ?_, fun d m c hd => ?_⟩
    · cases (init_vmas i).symm.trans hw
    · cases (init_dmas d).symm.trans hd

/-- A registration is mapped twice, and the first VMA is unmapped. -/
def mapped_twice : List Request :=
  [.open_core a_task granted_ctx, .reg_mem 0 BAFS_CORE_IOC_REG_MEM 4096 BAFS_MEM_CPU,
    .map 0 0x10000 1 1, .map 0 0x20000 1 1, .munmap 0]

/-- The second VMA points to the registration that the first has freed. -/
theorem mapped_twice_dangles :
    ¬Always step (fun e => e ≠ .freed_mem) MemLifetime mapped_twice init := by
  intro h
  obtain ⟨s, hs, hd⟩ := h.of_ends (p := fun s =>
    (s.vmas.get 1).any (fun w => w.vm_private_data = some 0) && (s.mems.get 0).isNone)
    (by decide +kernel)
  rw [Bool.and_eq_true, Option.any_eq_true, Option.isNone_iff_eq_none] at hd
  obtain ⟨⟨w, hw, hm⟩, hnone⟩ := hd
  obtain ⟨x, hx⟩ := hs.vma_live 1 w 0 hw (of_decide_eq_true hm)
  cases hnone.symm.trans hx

end BafsDriver
