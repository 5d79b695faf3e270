import BafsDriver.Proofs.DeviceNumbers
import BafsDriver.Proofs.FileProofs

/-!
# The record of calls

Which calls a function may add to the record. The claims about what the kernel was asked for look at
the calls of one kind, and most functions add none of them.
-/

set_option linter.style.nameCheck false

namespace BafsDriver

open Prog

/-- The calls of one kind that were made, the last first. -/
def calls {α : Type} (p : Event → Option α) (s : State) : List α := s.trace.filterMap p

theorem calls_append {α : Type} {p : Event → Option α} {s s' : State} {l : List Event}
    (ht : s'.trace = l ++ s.trace) : calls p s' = l.filterMap p ++ calls p s := by
  unfold calls
  rw [ht, List.filterMap_append]

/-- Two contexts of the same process. -/
def same_task (y y' : BafsCtx) : Prop := y.tgid = y'.tgid ∧ y.tgid_struct = y'.tgid_struct

/-- Two DMA mappings that agree in all but the mapping of the NVIDIA driver. -/
def same_dma (y y' : BafsMemDma) : Prop := y' = { y with cuda_mapping := y'.cuda_mapping }

/-- The calls but those that map and unmap a page for DMA. -/
def no_dma : Event → Prop
  | .dma_map_single .. => False
  | .dma_unmap_single .. => False
  | .dma_unmap_past_end .. => False
  | _ => True

/-- The calls that show pages or copy words to user space. -/
def plain_call : Event → Prop
  | .vm_map_pages_zero .. => True
  | .io_remap_pfn_range .. => True
  | .copy_to_user .. => True
  | _ => False

theorem plain_call_no_dma {e : Event} (he : plain_call e) : no_dma e := by
  cases e with
  | vm_map_pages_zero | io_remap_pfn_range | copy_to_user => trivial
  | _ => exact he.elim

/-- Calls in `A` undo no mapping of the NVIDIA driver. -/
def frees_none (A : Event → Prop) : Prop := ∀ p, ¬A (.nvidia_p2p_free_dma_mapping p)

/-- The record has got calls in `A` only, the contexts have kept their processes and the DMA mappings
their addresses. Where `A` leaves pages mapped and unmapped as they are, no DMA mapping comes or goes;
where it leaves those of the NVIDIA driver too, the DMA mappings are the same. -/
structure Recorded (A : Event → Prop) (s s' : State) : Prop where
  trace : ∃ l, s'.trace = l ++ s.trace ∧ ∀ e ∈ l, A e
  ctxs : s.ctxs.Kept same_task s'.ctxs
  dmas : s.dmas.Kept same_dma s'.dmas
  stay : (∀ e, A e → no_dma e) → ∀ d, (s'.dmas.get d).isSome = (s.dmas.get d).isSome
  still : frees_none A → (s'.dmas, s'.mappings) = (s.dmas, s.mappings)

/-- In addition no controller is made, and the numbers in use stay those that are held. -/
structure Grows (A : Event → Prop) (s s' : State) : Prop extends Recorded A s s' where
  numbers : Renumbers s s'

theorem same_task_refl (y : BafsCtx) : same_task y y := ⟨rfl, rfl⟩

theorem same_task_trans (y y' y'' : BafsCtx) (h : same_task y y') (h' : same_task y' y'') :
    same_task y y'' := ⟨h.1.trans h'.1, h.2.trans h'.2⟩

theorem same_dma_refl (y : BafsMemDma) : same_dma y y := rfl

theorem same_dma_trans (y y' y'' : BafsMemDma) (h : same_dma y y') (h' : same_dma y' y'') :
    same_dma y y'' := by
  unfold same_dma at *
  rw [h', h]

/-- What the record and the objects that it speaks of are. -/
def State.recorded (s : State) : List Event × Heap BafsCtx × Heap BafsMemDma × Heap P2pDmaMapping :=
  (s.trace, s.ctxs, s.dmas, s.mappings)

theorem Recorded.of_eq {A : Event → Prop} {s s' : State} (h : s'.recorded = s.recorded) :
    Recorded A s s' := by
  obtain ⟨ht, hr⟩ := Prod.mk.inj h
  obtain ⟨hc, hr⟩ := Prod.mk.inj hr
  obtain ⟨hd, -⟩ := Prod.mk.inj hr
  refine ⟨⟨[], ht, fun e he => by cases he⟩, ?_, ?_, (fun _ d => by rw [hd]), fun _ => hr⟩
  · rw [hc]
    exact .refl same_task_refl _
  · rw [hd]
    exact .refl same_dma_refl _

theorem Grows.of_eq {A : Event → Prop} {s s' : State}
    (h : (s'.recorded, s'.numbering) = (s.recorded, s.numbering)) : Grows A s s' := by
  obtain ⟨hr, hn⟩ := Prod.mk.inj h
  exact ⟨.of_eq hr, .of_eq hn⟩

theorem Recorded.trans {A : Event → Prop} {s₁ s₂ s₃ : State} (h : Recorded A s₁ s₂)
    (h' : Recorded A s₂ s₃) : Recorded A s₁ s₃ := by
  obtain ⟨⟨l, hl, hAl⟩, hc, hd, hst, hs⟩ := h
  obtain ⟨⟨l', hl', hAl'⟩, hc', hd', hst', hs'⟩ := h'
  refine ⟨⟨l' ++ l, by rw [hl', hl, List.append_assoc], fun e he => ?_⟩,
    hc.trans same_task_trans hc', hd.trans same_dma_trans hd',
    (fun hA d => (hst' hA d).trans (hst hA d)), fun hA => (hs' hA).trans (hs hA)⟩
  rcases List.mem_append.mp he with he | he
  · exact hAl' e he
  · exact hAl e he

instance {A : Event → Prop} : IsPreorder State (Grows A) where
  refl _ := .of_eq rfl
  trans s₁ s₂ s₃ h h' := ⟨h.toRecorded.trans h'.toRecorded,
    IsTrans.trans s₁ s₂ s₃ h.numbers h'.numbers⟩

theorem Grows.mono {A B : Event → Prop} {s s' : State} (hg : Grows A s s') (hAB : ∀ e, A e → B e) :
    Grows B s s' := by
  obtain ⟨⟨⟨l, hl, hAl⟩, hc, hd, hst, hs⟩, hn⟩ := hg
  exact ⟨⟨⟨l, hl, fun e he => hAB e (hAl e he)⟩, hc, hd, (fun hB => hst fun e he => hB e (hAB e he)),
    fun hB => hs fun p hp => hB p (hAB _ hp)⟩, hn⟩

/-- Calls of another kind do not count. -/
theorem Recorded.calls {α : Type} {A : Event → Prop} {s s' : State} (hg : Recorded A s s')
    {p : Event → Option α} (hA : ∀ e, A e → p e = none) : calls p s' = calls p s := by
  obtain ⟨⟨l, hl, hAl⟩, -⟩ := hg
  have hnil : l.filterMap p = [] := List.filterMap_eq_nil_iff.mpr fun e he => hA e (hAl e he)
  unfold BafsDriver.calls
  rw [hl, List.filterMap_append, hnil, List.nil_append]

/-- What does not depend on the NVIDIA driver stays, where no page is mapped or unmapped. -/
theorem Recorded.dma_map {α : Type} {s s' : State} (hg : Recorded no_dma s s') {g : BafsMemDma → α}
    (hsame : ∀ y y', same_dma y y' → g y' = g y) (d : DmaId) :
    (s'.dmas.get d).map g = (s.dmas.get d).map g := by
  have hstay := hg.stay (fun _ he => he) d
  cases hd' : s'.dmas.get d with
  | none =>
    rw [hd'] at hstay
    rw [Option.isNone_iff_eq_none.mp (Option.isSome_eq_false_iff.mp hstay.symm)]
  | some y' =>
    rw [hd'] at hstay
    obtain ⟨y, hy⟩ := Option.isSome_iff_exists.mp hstay.symm
    obtain hlt | ⟨z, hz, hsame'⟩ := hg.dmas.kept d y' hd'
    · exact absurd (Heap.lt_next_of_get hy) (Nat.not_lt.mpr hlt)
    · rw [hz, Option.map_some, Option.map_some, hsame z y' hsame']

/-- The program adds nothing to the record but calls in `A`, and leaves the processes of the contexts
as they are. -/
abbrev Adds {α : Type} (A : Event → Prop) (c : Drv α) : Prop := Evolves (Grows A) c

namespace Adds

variable {α β : Type} {A B : Event → Prop}

/-- Calls of another kind do not count. -/
theorem calls {c : Drv α} (h : Adds A c) {p : Event → Option β} (hA : ∀ e, A e → p e = none) :
    Preserves (fun _ => True) c (BafsDriver.calls p) := by
  intro s
  exact wp_mono (h s) fun _ s' hs' => hs'.calls hA

theorem mono {c : Drv α} (h : Adds A c) (hAB : ∀ e, A e → B e) : Adds B c := by
  exact Evolves.mono h fun s s' hs' => hs'.mono hAB

theorem modify {f : State → State}
    (hf : ∀ s, ((f s).recorded, (f s).numbering) = (s.recorded, s.numbering)) :
    Adds A (modify f : Drv Unit) :=
  Evolves.modify fun s => .of_eq (hf s)

theorem load {h : State → Heap α} {e : Fault} {i : Nat} : Adds A (load h e i) := by
  refine .bind .get fun s => ?_
  cases (h s).get i with
  | none => exact .throw e
  | some a => exact .pure a

end Adds

section Functions

variable {A : Event → Prop}

theorem emit_adds {e : Event} (he : A e) : Adds A (emit e) := by
  intro s
  refine ⟨⟨⟨[e], rfl, fun e' he' => ?_⟩, .refl same_task_refl _, .refl same_dma_refl _,
    (fun _ _ => rfl), fun _ => rfl⟩, .of_eq rfl⟩
  rw [List.mem_singleton.mp he']
  exact he

/-! ## Contexts -/

theorem ctx_upd_adds {c : CtxId} {f : BafsCtx → BafsCtx} (hf : ∀ y, same_task y (f y)) :
    Adds A (ctx_upd c f) := by
  intro s
  unfold ctx_upd ctx_at
  rw [wp_bind]
  refine wp_load_of (fun _ => trivial) fun y hy => ?_
  exact ⟨⟨⟨[], rfl, fun e he => by cases he⟩, .set same_task_refl hy (hf y), .refl same_dma_refl _,
    (fun _ _ => rfl), fun _ => rfl⟩, .of_eq rfl⟩

/-! ## Functions that make no call -/

theorem mem_upd_adds {m : MemId} {f : BafsMem → BafsMem} : Adds A (mem_upd m f) :=
  .bind Adds.load fun _ => Adds.modify fun _ => rfl

theorem ctrl_upd_adds {c : CtrlId} {f : BafsCtrl → BafsCtrl} (hf : ∀ x, same_ctrl x (f x)) :
    Adds A (ctrl_upd c f) := by
  intro s
  unfold ctrl_upd ctrl_at
  rw [wp_bind]
  refine wp_load_of (fun _ => trivial) fun x hx => ?_
  exact ⟨.of_eq rfl, .ctrl_set hx (hf x)⟩

theorem group_upd_adds {g : GroupId} {f : BafsGroup → BafsGroup} (hf : ∀ x, same_group x (f x)) :
    Adds A (group_upd g f) := by
  intro s
  unfold group_upd group_at
  rw [wp_bind]
  refine wp_load_of (fun _ => trivial) fun x hx => ?_
  exact ⟨.of_eq rfl, .group_set hx (hf x)⟩

theorem device_upd_adds {d : DeviceId} {f : Device → Device} : Adds A (device_upd d f) :=
  .bind Adds.load fun _ => Adds.modify fun _ => rfl

theorem kfree_adds {b : BlockId} : Adds A (kfree b) := Adds.modify fun _ => rfl

theorem kzalloc_adds {ok : Bool} : Adds A (kzalloc ok) :=
  .bind .get fun _ => .ite (.bind (Adds.modify fun _ => rfl) fun _ => .pure _) (.pure _)

theorem alloc_page_adds {ok : Bool} : Adds A (alloc_page ok) :=
  .bind .get fun _ => .ite (.bind (Adds.modify fun _ => rfl) fun _ => .pure _) (.pure _)

theorem free_page_adds {p : PageId} : Adds A (__free_page p) := Adds.modify fun _ => rfl

theorem device_destroy_numbering (d : DeviceId) :
    Preserves (fun _ => True) (device_destroy d) State.numbering := by
  intro s
  cases hd : s.devices.get d with
  | none => simp [device_destroy, device_upd, device_at, load, hd]
  | some w => exact (wp_device_destroy hd).mpr rfl

theorem put_device_adds {d : DeviceId} : Adds A (put_device d) :=
  .bind Adds.load fun _ => .bind device_upd_adds fun _ => .ite (Adds.modify fun _ => rfl) (.pure _)

theorem device_destroy_adds {d : DeviceId} : Adds A (device_destroy d) :=
  .bind device_upd_adds fun _ => put_device_adds

theorem ctx_kref_get_adds {c : CtxId} : Adds A (ctx_kref_get c) := ctx_upd_adds fun _ => ⟨rfl, rfl⟩

theorem free_ctx_adds {c : CtxId} {L : State → List CtxRelease} :
    Adds A (modify fun s => { s with ctxs := s.ctxs.free c, ctx_log := L s } : Drv Unit) :=
  Evolves.modify fun _ =>
    ⟨⟨⟨[], rfl, fun e he => by cases he⟩, .free same_task_refl, .refl same_dma_refl _,
      (fun _ _ => rfl), fun _ => rfl⟩, .of_eq rfl⟩

theorem bafs_put_ctx_adds {c : CtxId} : Adds A (bafs_put_ctx c) := by
  refine .bind Adds.load fun _ => .bind (ctx_upd_adds fun _ => ⟨rfl, rfl⟩) fun _ => .ite ?_ (.pure _)
  exact .bind Adds.load fun _ => .bind (Adds.modify fun _ => rfl) fun _ => .bind (Adds.modify fun _ => rfl)
    fun _ => .bind free_ctx_adds fun _ => kfree_adds

theorem bafs_get_ctrl_adds {c : CtrlId} : Adds A (bafs_get_ctrl c) :=
  ctrl_upd_adds fun _ => ⟨rfl, rfl⟩

/-- The last reference to a controller gives its numbers back. -/
theorem __bafs_ctrl_release_adds {c : CtrlId} : Adds A (__bafs_ctrl_release c) := by
  intro s
  unfold __bafs_ctrl_release
  rw [wp_bind]
  refine wp_load_of (fun _ => trivial) fun x hx => ?_
  refine ((device_destroy_numbering x.device).wp_and (device_destroy_adds (A := A) s)).bind fun _ s₁ hs₁ => ?_
  obtain ⟨hg, hsame⟩ := hs₁
  have hx₁ : s₁.ctrls.get c = some x := (congrArg (fun p => Heap.get p.1 c) hsame).trans hx
  exact IsTrans.trans _ _ _ hg ⟨.of_eq rfl, IsTrans.trans _ _ _ (Renumbers.ctrl_release hx₁) (.of_eq rfl)⟩

theorem bafs_ctrl_release_adds {c : CtrlId} : Adds A (bafs_ctrl_release c) :=
  .bind Adds.load fun _ => .bind (ctrl_upd_adds fun _ => ⟨rfl, rfl⟩) fun _ =>
    .ite __bafs_ctrl_release_adds (.pure _)

theorem bafs_get_group_adds {g : GroupId} : Adds A (bafs_get_group g) :=
  group_upd_adds fun _ => rfl

theorem debug_group_adds {g : GroupId} : Adds A (debug_group g) := by
  refine Adds.modify fun s => ?_
  split <;> rfl

/-- The last reference to a group gives its numbers back, and its references to controllers before
that. -/
theorem __bafs_group_release_adds {g : GroupId} : Adds A (__bafs_group_release g) := by
  intro s
  unfold __bafs_group_release
  rw [wp_bind]
  refine wp_load_of (fun _ => trivial) fun x hx => ?_
  refine ((device_destroy_numbering x.device).wp_and (device_destroy_adds (A := A) s)).bind fun _ s₁ hs₁ => ?_
  obtain ⟨hg, hsame⟩ := hs₁
  have hx₁ : s₁.groups.get g = some x := (congrArg (fun p => Heap.get p.2.1 g) hsame).trans hx
  rw [wp_bind, wp_modify]
  have hctrls : Adds A (each bafs_ctrl_release x.ctrls) := .each (fun _ => bafs_ctrl_release_adds) _
  refine (hctrls _).bind fun _ s₂ hs₂ => ?_
  refine IsTrans.trans _ _ _ hg ⟨?_, ?_⟩
  · refine Recorded.trans ?_ (hs₂.toRecorded.trans (.of_eq rfl))
    exact .of_eq rfl
  · have hfreed : Renumbers { s₁ with groups := s₁.groups.free g } s₂ := by
      refine IsTrans.trans _ _ _ ?_ hs₂.numbers
      exact .of_eq rfl
    exact IsTrans.trans _ _ _ (Renumbers.group_release hx₁ hfreed) (.of_eq rfl)

theorem bafs_put_group_adds {g : GroupId} : Adds A (bafs_put_group g) :=
  .bind debug_group_adds fun _ => .bind Adds.load fun _ =>
    .bind (group_upd_adds fun _ => rfl) fun _ =>
    .ite (.bind __bafs_group_release_adds fun _ => debug_group_adds) debug_group_adds

theorem mem_kref_get_adds {m : MemId} : Adds A (mem_kref_get m) := mem_upd_adds

theorem set_state_adds {m : MemId} {st : STATE} : Adds A (set_state m st) :=
  .bind Adds.load fun _ => .bind (Adds.modify fun _ => rfl) fun _ => mem_upd_adds

theorem copy_to_user_adds {left dst : Nat} {source : CopySource} {words : List Nat}
    (hA : ∀ copied, A (.copy_to_user source dst copied)) :
    Adds A (copy_to_user left dst source words) :=
  .bind (emit_adds (hA _)) fun _ => .pure _

theorem device_create_adds {cls name : Name} {o : Drvdata} : Adds A (device_create cls name o) :=
  .bind .get fun _ => .bind (Adds.modify fun _ => rfl) fun _ => .pure _

theorem device_find_child_by_name_adds {name : Name} : Adds A (device_find_child_by_name name) := by
  refine .bind .get fun s => ?_
  cases find_child s name with
  | none => exact .pure _
  | some d => exact .bind device_upd_adds fun _ => .pure _

theorem publish_ctx_adds {x : BafsCtx} : Adds A (publish_ctx x) := by
  refine .bind .get fun s => .bind ?_ fun _ => .pure _
  exact fun t => ⟨⟨⟨[], rfl, fun e he => by cases he⟩, .alloc same_task_refl, .refl same_dma_refl _,
    (fun _ _ => rfl), fun _ => rfl⟩, .of_eq rfl⟩

theorem find_get_pid_adds {ok : Bool} {task : Task} : Adds A (find_get_pid ok task) :=
  .ite (.bind (Adds.modify fun _ => rfl) fun _ => .pure _) (.pure _)

theorem put_pid_adds {pid : Nat} : Adds A (put_pid pid) := Adds.modify fun _ => rfl

theorem bafs_core_open_adds {task : Task} {env : CtxEnv} : Adds A (bafs_core_open task env) := by
  refine .bind kzalloc_adds fun r => ?_
  cases r with
  | none => exact .pure _
  | some blk =>
    refine .bind find_get_pid_adds fun ok => .ite (.bind .get fun s => ?_) (.bind kfree_adds fun _ => .pure _)
    exact .ite (.bind put_pid_adds fun _ => .bind kfree_adds fun _ => .pure _)
      (.bind publish_ctx_adds fun _ => .pure _)

theorem bafs_get_ctx_adds {task : Task} {env : CtxEnv} : Adds A (bafs_get_ctx task env) := by
  refine .bind kzalloc_adds fun r => ?_
  cases r with
  | none => exact .pure _
  | some blk =>
    refine .bind find_get_pid_adds fun ok => .ite (.bind .get fun s => ?_) (.bind kfree_adds fun _ => .pure _)
    cases env.xa_insert with
    | some e => exact .bind kfree_adds fun _ => .pure _
    | none =>
      cases s.bafs_global_ctx_xa.lookup task.tgid with
      | none => exact .bind publish_ctx_adds fun _ => .pure _
      | some c =>
        exact .bind ctx_kref_get_adds fun _ => .bind put_pid_adds fun _ => .bind kfree_adds fun _ => .pure _

theorem bafs_ctrl_open_adds {c : CtrlId} {task : Task} {env : OpenEnv} :
    Adds A (bafs_ctrl_open c task env) := by
  refine .bind bafs_get_ctrl_adds fun _ => .bind kzalloc_adds fun r => ?_
  cases r with
  | none => exact .bind bafs_ctrl_release_adds fun _ => .pure _
  | some blk =>
    refine .bind bafs_get_ctx_adds fun ctx => ?_
    cases ctx with
    | none => exact .bind kfree_adds fun _ => .bind bafs_ctrl_release_adds fun _ => .pure _
    | some ctx => exact .pure _

theorem bafs_group_open_adds {g : GroupId} {task : Task} {env : OpenEnv} :
    Adds A (bafs_group_open g task env) := by
  refine .bind bafs_get_group_adds fun _ => .bind kzalloc_adds fun r => ?_
  cases r with
  | none => exact .bind bafs_put_group_adds fun _ => .pure _
  | some blk =>
    refine .bind bafs_get_ctx_adds fun ctx => ?_
    cases ctx with
    | none => exact .bind kfree_adds fun _ => .bind bafs_put_group_adds fun _ => .pure _
    | some ctx => exact .pure _

theorem unlink_mem_adds {m : MemId} {x : BafsMem} : Adds A (unlink_mem m x) :=
  ctx_upd_adds fun _ => ⟨rfl, rfl⟩

theorem sweep_stale_adds {c : CtxId} : Adds A (sweep_stale c) := by
  refine .bind Adds.load fun y => .each (fun m => .bind Adds.load fun x => .ite ?_ (.pure _)) _
  exact .bind unlink_mem_adds fun _ => .bind (Adds.modify fun _ => rfl) fun _ => .bind kfree_adds
    fun _ => bafs_put_ctx_adds

theorem release_file_adds {x : File} : Adds A (release_file x) := by
  cases x with
  | core c => exact .bind sweep_stale_adds fun _ => bafs_put_ctx_adds
  | ctrl y =>
    exact .bind sweep_stale_adds fun _ => .bind bafs_put_ctx_adds fun _ =>
      .bind bafs_ctrl_release_adds fun _ => kfree_adds
  | group y =>
    exact .bind sweep_stale_adds fun _ => .bind bafs_put_ctx_adds fun _ =>
      .bind bafs_put_group_adds fun _ => kfree_adds


/-! ## Functions that call the NVIDIA driver -/

/-- The calls that give up the page table `t`. -/
def table_call : Event → Prop
  | .nvidia_p2p_put_pages _ => True
  | .nvidia_p2p_free_page_table _ => True
  | _ => False

theorem nvidia_p2p_put_pages_adds {t : TableId} : Adds table_call (nvidia_p2p_put_pages t) :=
  .bind (emit_adds trivial) fun _ => Adds.modify fun _ => rfl

theorem free_pages_adds {table : List PageId} {n : Nat} : Adds A (free_pages table n) := by
  refine .each (fun i => ?_) _
  cases table[i]? with
  | none => exact .throw _
  | some p => exact free_page_adds

theorem release_pages_adds {x : BafsMem} : Adds table_call (release_pages x) := by
  refine .ite ?_ (.ite ?_ (.pure _))
  · cases x.cpu_page_table with
    | none => exact .pure _
    | some t => exact .bind free_pages_adds fun _ => kfree_adds
  · cases x.cuda_page_table with
    | none => exact .pure _
    | some t =>
      exact .ite (.bind nvidia_p2p_put_pages_adds fun _ => emit_adds trivial) (.pure _)

theorem __bafs_mem_release_adds {m : MemId} : Adds table_call (__bafs_mem_release m) := by
  have hdrop : ∀ x : BafsMem, Adds table_call (do drop_mem m; kfree x.blk; bafs_put_ctx x.ctx) :=
    fun x => .bind (Adds.modify fun _ => rfl) fun _ => .bind kfree_adds fun _ => bafs_put_ctx_adds
  refine .bind Adds.load fun x => .bind (ctx_upd_adds fun _ => ⟨rfl, rfl⟩) fun _ => .ite ?_ (hdrop x)
  exact .bind release_pages_adds fun _ => .bind set_state_adds fun _ => hdrop x

theorem bafs_mem_put_adds {m : MemId} : Adds table_call (bafs_mem_put m) :=
  .bind Adds.load fun _ => .bind mem_upd_adds fun _ => .ite __bafs_mem_release_adds (.pure _)

/-! ## Functions that map nothing for DMA -/

theorem table_call_no_dma {e : Event} (he : table_call e) : no_dma e := by
  cases e with
  | nvidia_p2p_put_pages | nvidia_p2p_free_page_table => trivial
  | _ => exact he.elim

theorem bafs_core_reg_mem_adds {argp : Nat} {params : BAFS_IOC_REG_MEM_PARAMS} {c : CtxId}
    {env : RegMemEnv} : Adds plain_call (bafs_core_reg_mem argp params c env) := by
  refine .ite (.pure _) (.bind kzalloc_adds fun r => ?_)
  cases r with
  | none => exact .pure _
  | some blk =>
    refine .bind ctx_kref_get_adds fun _ => .bind Adds.load fun y => ?_
    cases xa_alloc y.bafs_mem_xa env.xa_alloc with
    | none => exact .bind bafs_put_ctx_adds fun _ => .bind kfree_adds fun _ => .pure _
    | some i =>
      refine .bind ?_ fun m => .bind (copy_to_user_adds fun _ => trivial) fun left => .ite ?_ (.pure _)
      · exact .bind .get fun _ => .bind (Adds.modify fun _ => rfl) fun _ =>
          .bind (ctx_upd_adds fun _ => ⟨rfl, rfl⟩) fun _ => .pure _
      · exact .bind Adds.load fun _ => .bind unlink_mem_adds fun _ => .bind (Adds.modify fun _ => rfl)
          fun _ => .bind bafs_put_ctx_adds fun _ => .bind kfree_adds fun _ => .pure _

theorem alloc_pages_adds {ok : Nat → Bool} {n : Nat} : Adds A (alloc_pages ok n) := by
  refine .iterate (fun i pages => .bind alloc_page_adds fun p => ?_) _ _
  cases p with
  | none => exact .pure _
  | some p => exact .pure _

theorem clean_page_table_adds {m : MemId} {blk : BlockId} {pages : List PageId} :
    Adds A (clean_page_table m blk pages) :=
  .bind (.each (fun _ => free_page_adds) _) fun _ => .bind kfree_adds fun _ => mem_upd_adds

theorem vm_map_pages_zero_adds {vma : Vma} {pages : List PageId} {fail : Option Errno}
    (hA : A (.vm_map_pages_zero vma.vm_start vma.vm_end)) :
    Adds A (vm_map_pages_zero vma pages fail) := by
  refine .bind (emit_adds hA) fun _ => .ite (.pure _) ?_
  cases fail with
  | none => exact .pure _
  | some e => exact .pure _

theorem io_remap_pfn_range_adds {vma : Vma} {addr pfn size : Nat} {bar : Option CtrlId}
    {fail : Option Errno} (hA : A (.io_remap_pfn_range addr pfn size)) :
    Adds A (io_remap_pfn_range vma addr pfn size bar fail) := by
  refine .bind (emit_adds hA) fun _ => ?_
  cases fail with
  | none => exact .ite (.pure _) (.pure _)
  | some e => exact .pure _

theorem pin_bafs_cpu_mem_adds {m : MemId} {vma : Vma} {env : PinEnv} :
    Adds plain_call (pin_bafs_cpu_mem m vma env) := by
  refine .bind mem_upd_adds fun _ => .bind Adds.load fun x => .ite (.pure _) (.bind kzalloc_adds fun r => ?_)
  cases r with
  | none => exact .bind mem_upd_adds fun _ => .pure _
  | some blk =>
    refine .bind alloc_pages_adds fun r => .bind mem_upd_adds fun _ => ?_
    obtain ⟨pages, fail⟩ := r
    cases fail with
    | some ret => exact .bind clean_page_table_adds fun _ => .pure _
    | none =>
      refine .bind (vm_map_pages_zero_adds trivial) fun r => .ite ?_ (.pure _)
      exact .bind clean_page_table_adds fun _ => .pure _

theorem delete_page_table_adds {m : MemId} {t : TableId} :
    Adds table_call (delete_page_table m t) :=
  .bind nvidia_p2p_put_pages_adds fun _ => mem_upd_adds

theorem nvidia_p2p_get_pages_adds {m : MemId} {answer : Except Errno P2pPages} :
    Adds A (nvidia_p2p_get_pages m answer) := by
  cases answer with
  | error e => exact .pure _
  | ok pages => exact .bind .get fun _ => .bind (Adds.modify fun _ => rfl) fun _ => .pure _

theorem remap_pages_adds {x : BafsMem} {pages : List Nat} {fail : Nat → Option Errno} {vma : Vma} :
    Adds plain_call (remap_pages x pages fail vma) := by
  refine .iterate (fun i vma => ?_) _ _
  cases pages[i]? with
  | none => exact .throw _
  | some phys => exact .bind (io_remap_pfn_range_adds trivial) fun _ => .pure _

/-- The calls that show pages to user space or give up a page table. -/
def pin_call (e : Event) : Prop := plain_call e ∨ table_call e

theorem pin_call_no_dma {e : Event} (he : pin_call e) : no_dma e :=
  he.elim plain_call_no_dma table_call_no_dma

theorem pin_bafs_cuda_mem_adds {m : MemId} {vma : Vma} {env : PinEnv} :
    Adds pin_call (pin_bafs_cuda_mem m vma env) := by
  have hdel : ∀ (t : TableId) (ret : Int),
      Adds pin_call (do delete_page_table m t; pure (vma, ret) : Drv (Vma × Int)) :=
    fun t ret => .bind (delete_page_table_adds.mono fun _ he => .inr he) fun _ => .pure _
  refine .bind nvidia_p2p_get_pages_adds fun r => ?_
  cases r with
  | error e => exact .pure _
  | ok t =>
    refine .bind mem_upd_adds fun _ => ?_
    cases env.nvidia_p2p_get_pages with
    | error e => exact .pure _
    | ok table =>
      refine .ite (hdel t _) ?_
      cases cuda_page_size table.page_size with
      | none => exact hdel t _
      | some p =>
        refine .bind mem_upd_adds fun _ => .bind Adds.load fun x => .ite (hdel t _) ?_
        refine .bind mem_upd_adds fun _ => .bind Adds.load fun x => .ite (hdel t _) ?_
        refine .bind (remap_pages_adds.mono fun _ he => .inl he) fun r => ?_
        obtain ⟨vma', fail⟩ := r
        cases fail with
        | some ret => exact hdel t _
        | none => exact .pure _

theorem pin_bafs_mem_adds {vma : Vma} {c : CtxId} {env : PinEnv} :
    Adds pin_call (pin_bafs_mem vma c env) := by
  refine .bind ctx_kref_get_adds fun _ => .bind Adds.load fun y => .bind bafs_put_ctx_adds fun _ => ?_
  have hput : ∀ {m : MemId}, Adds pin_call (bafs_mem_put m) :=
    bafs_mem_put_adds.mono fun _ he => .inr he
  cases pin_lookup y vma.vm_pgoff with
  | none => exact .pure _
  | some m =>
    refine .bind mem_upd_adds fun _ => .bind mem_upd_adds fun _ => .bind Adds.load fun x => ?_
    have hcpu : Adds pin_call (pin_bafs_cpu_mem m vma env) :=
      pin_bafs_cpu_mem_adds.mono fun _ he => .inl he
    refine .bind (.ite hcpu (.ite pin_bafs_cuda_mem_adds (.pure _))) fun r => .ite ?_ ?_
    · exact .bind hput fun _ => .pure _
    · exact .bind set_state_adds fun _ => .bind hput fun _ => .pure _

theorem bafs_ctrl_mmap_adds {c : CtrlId} {vma : Vma} {vaddr : Nat} {fail : Option Errno} :
    Adds plain_call (bafs_ctrl_mmap c vma vaddr fail) :=
  .bind bafs_get_ctrl_adds fun _ => .bind Adds.load fun _ => .bind (io_remap_pfn_range_adds trivial)
    fun _ => .ite (.bind bafs_ctrl_release_adds fun _ => .pure _) (.pure _)

/-- The branch of `bafs_group_mmap` that maps the BARs. -/
theorem group_mmap_bars_adds {g : GroupId} {vma : Vma} {fail : Nat → Option Errno} :
    Adds plain_call (do
      bafs_get_group g
      let y ← group_at g
      match ← group_mmap_loop fail y.ctrls.zipIdx vma with
      | (_, some ret) =>
        bafs_put_group g
        pure (vma, ret)
      | (acc, none) =>
        bafs_put_group g
        pure (acc.1, 0) : Drv (Vma × Int)) := by
  refine .bind bafs_get_group_adds fun _ => .bind Adds.load fun z => ?_
  have hloop : Adds plain_call (group_mmap_loop fail z.ctrls.zipIdx vma) :=
    .iterate (fun ci acc => .bind bafs_ctrl_mmap_adds fun _ => .ite (.pure _) (.pure _)) _ _
  refine .bind hloop fun r => ?_
  obtain ⟨acc, fail⟩ := r
  cases fail with
  | some ret => exact .bind bafs_put_group_adds fun _ => .pure _
  | none => exact .bind bafs_put_group_adds fun _ => .pure _

theorem mmap_file_adds {x : File} {vma : Vma} {env : MmapEnv} : Adds pin_call (mmap_file x vma env) := by
  have hplain : ∀ e, plain_call e → pin_call e := fun _ he => .inl he
  cases x with
  | core c => exact pin_bafs_mem_adds
  | ctrl y =>
    exact .ite (.bind (bafs_ctrl_mmap_adds.mono hplain) fun _ => .pure _) pin_bafs_mem_adds
  | group y =>
    refine .ite (group_mmap_bars_adds.mono hplain) ?_
    exact .bind pin_bafs_mem_adds fun _ => .ite (.pure _) (.pure _)

/-- An mmap that maps BARs makes plain calls only. -/
theorem mmap_bars_adds {x : File} {vma : Vma} {env : MmapEnv} (hp : maps_bars x vma.vm_pgoff) :
    Adds plain_call (mmap_file x vma env) := by
  cases x with
  | core c => exact hp.elim
  | ctrl y => exact .ite_of (fun _ => .bind bafs_ctrl_mmap_adds fun _ => .pure _) fun h => absurd hp h
  | group y => exact .ite_of (fun _ => group_mmap_bars_adds) fun h => absurd hp h

/-! ## Functions that create and delete groups -/

theorem out_put_devices_adds {devs : List DeviceId} {dblk gblk : BlockId} :
    Adds A (out_put_devices devs dblk gblk) :=
  .bind (.each (fun _ => put_device_adds) _) fun _ => .bind (Adds.modify fun _ => rfl) fun _ =>
    .bind kfree_adds fun _ => kfree_adds

theorem out_free_ctrls_adds {ctrls : List CtrlId} {cblk dblk gblk : BlockId} {devs : List DeviceId} :
    Adds A (out_free_ctrls ctrls cblk devs dblk gblk) :=
  .bind (.each (fun _ => bafs_ctrl_release_adds) _) fun _ => .bind kfree_adds fun _ => out_put_devices_adds

theorem find_ctrl_devices_adds {ctrls : List Name} : Adds A (find_ctrl_devices ctrls) := by
  refine .iterate (fun name devs => .bind device_find_child_by_name_adds fun r => ?_) _ _
  cases r with
  | none => exact .pure _
  | some d => exact .bind Adds.load fun x => .ite (.pure _) (.pure _)

theorem get_ctrls_adds {devs : List DeviceId} : Adds A (get_ctrls devs) := by
  refine .iterate (fun d ctrls => .bind Adds.load fun x => ?_) _ _
  cases x.drvdata with
  | none => exact .pure _
  | some o =>
    cases o with
    | group g => exact .throw _
    | ctrl c => exact .bind bafs_get_ctrl_adds fun _ => .pure _

/-- A group is made with the lowest free numbers, or all numbers that were taken are given back. -/
theorem group_add_adds {ctrls : List CtrlId} {cblk dblk gblk : BlockId} {devs : List DeviceId}
    {env : GroupAllocEnv} : Adds A (group_add ctrls cblk devs dblk gblk env) := by
  intro s
  have hfail : ∀ (e : Errno) (s₁ : State), s₁.recorded = s.recorded → s₁.numbering = s.numbering →
      wp (do out_free_ctrls ctrls cblk devs dblk gblk; pure (e.ret, none)) (fun _ => True)
        (fun (_ : Int × Option GroupId) s' => Grows A s s') s₁ := fun e s₁ hr hn => by
    refine (out_free_ctrls_adds (A := A) s₁).bind fun _ s₂ hs₂ => ?_
    exact IsTrans.trans _ _ _ ⟨.of_eq hr, .of_eq hn⟩ hs₂
  unfold group_add ida_simple_get bafs_get_minor_number ida_simple_get
  rw [wp_bind, wp_get]
  cases env.group_id with
  | some e => exact hfail e s rfl rfl
  | none =>
    dsimp only
    rw [wp_bind, wp_modify, wp_bind, wp_bind, wp_get]
    cases env.minor with
    | some e =>
      dsimp only
      rw [wp_pure, wp_bind, wp_modify]
      exact hfail e _ rfl (by simp [State.numbering])
    | none =>
      dsimp only
      rw [wp_bind, wp_modify, wp_pure]
      cases env.cdev_add with
      | some e =>
        dsimp only
        rw [bafs_put_minor_number, wp_bind, wp_modify, wp_bind, wp_modify]
        exact hfail e _ rfl (by simp [State.numbering])
      | none =>
        dsimp only
        rw [cdev_add, wp_bind, wp_modify]
        cases env.device_create with
        | some e =>
          dsimp only
          rw [cdev_del, wp_bind, wp_modify, bafs_put_minor_number, wp_bind, wp_modify, wp_bind,
            wp_modify]
          exact hfail e _ rfl (by simp [State.numbering])
        | none =>
          dsimp only
          unfold device_create
          rw [wp_bind, wp_get, wp_bind, wp_bind, wp_get, wp_bind, wp_modify, wp_pure, wp_bind,
            wp_modify]
          have hput : Adds A (do each put_device devs; kfree dblk; pure (0, some s.groups.next) :
              Drv (Int × Option GroupId)) :=
            .bind (.each (fun _ => put_device_adds) _) fun _ => .bind kfree_adds fun _ => .pure _
          refine wp_mono (hput _) fun _ s' hs' => ?_
          refine IsTrans.trans _ _ _ ?_ hs'
          exact ⟨.of_eq rfl, IsTrans.trans _ _ _ (Renumbers.group_made rfl rfl) (.of_eq rfl)⟩

theorem bafs_group_alloc_adds {ctrls : List Name} {env : GroupAllocEnv} :
    Adds A (bafs_group_alloc ctrls env) := by
  refine .bind kzalloc_adds fun r => ?_
  cases r with
  | none => exact .pure _
  | some gblk =>
    refine .bind kzalloc_adds fun r => ?_
    cases r with
    | none => exact .bind kfree_adds fun _ => .pure _
    | some dblk =>
      refine .bind (Adds.modify fun _ => rfl) fun _ => .bind find_ctrl_devices_adds fun r => ?_
      obtain ⟨devs, fail⟩ := r
      cases fail with
      | some ret => exact .bind out_put_devices_adds fun _ => .pure _
      | none =>
        refine .bind kzalloc_adds fun r => ?_
        cases r with
        | none => exact .bind out_put_devices_adds fun _ => .pure _
        | some cblk =>
          refine .bind get_ctrls_adds fun r => ?_
          obtain ⟨held, fail⟩ := r
          cases fail with
          | some ret => exact .bind out_free_ctrls_adds fun _ => .pure _
          | none => exact group_add_adds

theorem copy_names_adds {src : Nat → Option Name} {n : Nat} : Adds A (copy_names src n) := by
  refine .iterate (fun i names => ?_) _ _
  generalize strncpy_from_user (src i) MAX_NAME_LEN = r
  obtain ⟨ret, name⟩ := r
  exact .ite (.pure _) (.ite (.pure _) (.pure _))

theorem bafs_core_create_group_adds {params : BAFS_CORE_IOC_CREATE_GROUP_PARAMS}
    {env : CreateGroupEnv} : Adds plain_call (bafs_core_create_group params env) := by
  refine .ite (.pure _) (.bind kzalloc_adds fun r => ?_)
  cases r with
  | none => exact .pure _
  | some blk =>
    refine .bind copy_names_adds fun r => ?_
    obtain ⟨names, fail⟩ := r
    cases fail with
    | some ret => exact .bind kfree_adds fun _ => .pure _
    | none =>
      refine .bind bafs_group_alloc_adds fun r => ?_
      obtain ⟨ret, group⟩ := r
      cases group with
      | none => exact .bind kfree_adds fun _ => .pure _
      | some g =>
        refine .bind Adds.load fun x => .bind Adds.load fun device => .ite ?_ ?_
        · exact .bind bafs_put_group_adds fun _ => .bind kfree_adds fun _ => .pure _
        · refine .bind (copy_to_user_adds fun _ => trivial) fun left => .ite ?_ ?_
          · exact .bind bafs_put_group_adds fun _ => .bind kfree_adds fun _ => .pure _
          · exact .bind kfree_adds fun _ => .bind (Adds.modify fun _ => rfl) fun _ => .pure _

theorem bafs_core_delete_group_adds {params : BAFS_CORE_IOC_DELETE_GROUP_PARAMS} {copy : Bool} :
    Adds A (bafs_core_delete_group params copy) := by
  refine .ite (.pure _) ?_
  generalize strncpy_from_user params.group_name MAX_NAME_LEN = r
  obtain ⟨ret, group_name⟩ := r
  refine .ite (.pure _) (.ite (.pure _) (.bind device_find_child_by_name_adds fun r => ?_))
  cases r with
  | none => exact .pure _
  | some d =>
    refine .bind Adds.load fun x => ?_
    cases x.drvdata with
    | none => exact .bind put_device_adds fun _ => .pure _
    | some o =>
      cases o with
      | ctrl c => exact .bind put_device_adds fun _ => .throw _
      | group g =>
        exact .bind put_device_adds fun _ => .bind (Adds.modify fun _ => rfl) fun _ =>
          .bind bafs_put_group_adds fun _ => .pure _

/-! ## Requests -/

/-- One round of the loop of `release_bafs_cuda_mem`. -/
theorem revoke_dma_adds {d : DmaId} : Adds no_dma (do
    let y ← dma_at d
    match y.cuda_mapping with
    | some p =>
      emit (.nvidia_p2p_free_dma_mapping p)
      modify fun s => { s with dmas := s.dmas.set d { y with cuda_mapping := none } }
    | none => pure ()) := by
  intro s
  rw [wp_bind]
  refine wp_load_of (fun _ => trivial) fun y hy => ?_
  cases y.cuda_mapping with
  | none => exact .of_eq rfl
  | some p =>
    refine ⟨⟨⟨[.nvidia_p2p_free_dma_mapping p], rfl, fun e he => ?_⟩, .refl same_task_refl _,
      .set same_dma_refl hy rfl, (fun _ e => ?_), fun hA => (hA p trivial).elim⟩, .of_eq rfl⟩
    · rw [List.mem_singleton.mp he]
      trivial
    · show ((s.dmas.set d _).get e).isSome = _
      rw [Heap.get_set hy]
      by_cases he : e = d
      · rw [if_pos he, he, hy]
        rfl
      · rw [if_neg he]

theorem release_bafs_cuda_mem_adds {m : MemId} : Adds no_dma (release_bafs_cuda_mem m) :=
  .bind Adds.load fun _ => .ite (.bind (.each (fun _ => revoke_dma_adds) _) fun _ =>
    .bind set_state_adds fun _ => .bind (emit_adds trivial) fun _ => mem_upd_adds) (.pure _)

/-- Any call. -/
def any_call (_ : Event) : Prop := True

theorem Adds.any {α : Type} {c : Drv α} (h : Adds A c) : Adds any_call c := h.mono fun _ _ => trivial

theorem undo_mapping_adds {y : BafsMemDma} {x : BafsMem} : Adds any_call (undo_mapping y x) := by
  refine .ite ?_ (.ite ?_ (.pure _))
  · cases y.addrs with
    | none => exact .pure _
    | some a =>
      refine .bind (.each (fun i => ?_) _) fun _ => kfree_adds
      cases a.2[i]? with
      | none => exact emit_adds trivial
      | some addr => exact emit_adds trivial
  · cases y.cuda_mapping with
    | none => exact .pure _
    | some p => exact .ite (.bind (emit_adds trivial) fun _ => emit_adds trivial) (.pure _)

theorem not_any_call_no_dma (h : ∀ e, any_call e → no_dma e) : False :=
  h (.dma_unmap_single 0 0 0) trivial

theorem not_frees_none_any_call (h : frees_none any_call) : False := h 0 trivial

theorem free_dma_adds {d : DmaId} :
    Adds any_call (modify fun s => { s with dmas := s.dmas.free d } : Drv Unit) :=
  Evolves.modify fun _ => ⟨⟨⟨[], rfl, fun e he => by cases he⟩, .refl same_task_refl _,
    .free same_dma_refl, (fun hA => (not_any_call_no_dma hA).elim),
    fun hA => (not_frees_none_any_call hA).elim⟩, .of_eq rfl⟩

theorem unmap_dma_adds {d : DmaId} : Adds any_call (unmap_dma d) :=
  .bind Adds.load fun _ => .bind Adds.load fun _ => .bind mem_upd_adds fun _ => .bind undo_mapping_adds
    fun _ => .bind free_dma_adds fun _ => .bind kfree_adds fun _ => bafs_ctrl_release_adds

theorem close_vma_adds {w : Vma} : Adds any_call (close_vma w) := by
  have hput : ∀ {m : MemId}, Adds any_call (bafs_mem_put m) := bafs_mem_put_adds.any
  unfold close_vma
  cases w.vm_ops with
  | none => exact .pure _
  | some o =>
    cases o
    show Adds any_call (bafs_mem_release w)
    unfold bafs_mem_release
    cases w.vm_private_data with
    | none => exact .pure _
    | some m =>
      exact .bind Adds.load fun x => .bind ctx_kref_get_adds fun _ => .bind
        (.each (fun d => .bind unmap_dma_adds fun _ => hput) _) fun _ => .bind hput fun _ => bafs_put_ctx_adds

theorem open_vma_adds {w : Vma} : Adds A (open_vma w) := by
  unfold open_vma
  cases w.vm_ops with
  | none => exact .pure _
  | some o =>
    cases o
    exact .pure _

theorem find_mem_adds {vaddr : Nat} {l : List MemId} : Adds table_call (find_mem vaddr l) := by
  induction l with
  | nil => exact .pure _
  | cons m l ih =>
    exact .bind mem_upd_adds fun _ => .bind Adds.load fun x => .ite (.pure _)
      (.bind bafs_mem_put_adds fun _ => ih)

theorem bafs_get_mem_with_ctx_adds {vaddr : Nat} {c : CtxId} :
    Adds table_call (bafs_get_mem_with_ctx vaddr c) :=
  .bind ctx_kref_get_adds fun _ => .bind Adds.load fun _ => .bind find_mem_adds fun _ =>
    .bind bafs_put_ctx_adds fun _ => .pure _

theorem delete_dma_adds {blk : BlockId} {c : CtrlId} {m : MemId} :
    Adds table_call (delete_dma blk c m) :=
  .bind kfree_adds fun _ => .bind bafs_ctrl_release_adds fun _ => bafs_mem_put_adds

theorem publish_dma_adds {y : BafsMemDma} : Adds any_call (publish_dma y) := by
  refine .bind .get fun _ => .bind (Evolves.modify fun _ => ?_) fun _ => .bind mem_upd_adds fun _ => .pure _
  exact ⟨⟨⟨[], rfl, fun e he => by cases he⟩, .refl same_task_refl _, .alloc same_dma_refl,
    (fun hA => (not_any_call_no_dma hA).elim), fun hA => (not_frees_none_any_call hA).elim⟩, .of_eq rfl⟩

theorem map_addrs_adds {c : CtrlId} {x : BafsMem} {map_gran : Nat} {answer : Nat → Option Nat} :
    Adds any_call (map_addrs c x map_gran answer) := by
  refine .iterate (fun i addrs => ?_) _ _
  cases x.cpu_page_table with
  | none => exact .throw _
  | some t =>
    obtain ⟨blk, table⟩ := t
    dsimp only
    cases table[i]? with
    | none => exact .throw _
    | some p =>
      refine .bind ?_ fun r => ?_
      · unfold dma_map_single
        cases answer i with
        | none => exact .pure _
        | some addr => exact .bind (emit_adds trivial) fun _ => .pure _
      · cases r with
        | none => exact .pure _
        | some addr => exact .pure _

theorem dma_map_cpu_adds {c : CtrlId} {m : MemId} {x : BafsMem} {blk : BlockId}
    {n_dma_addrs user ctrl_id : Nat} {env : DmaMapEnv} :
    Adds any_call (dma_map_cpu c m x blk n_dma_addrs user ctrl_id env) := by
  have hback : ∀ (addrs : List Nat) (g : Nat), Adds any_call (unmap_back c addrs g) :=
    fun addrs g => .each (fun _ => emit_adds trivial) _
  refine .bind kzalloc_adds fun r => ?_
  cases r with
  | none => exact .bind delete_dma_adds.any fun _ => .pure _
  | some ablk =>
    refine .bind map_addrs_adds fun r => ?_
    obtain ⟨addrs, fail⟩ := r
    cases fail with
    | some ret => exact .bind (hback _ _) fun _ => .bind delete_dma_adds.any fun _ => .pure _
    | none =>
      refine .bind (copy_to_user_adds fun _ => trivial) fun left => .ite ?_ ?_
      · exact .bind (hback _ _) fun _ => .bind delete_dma_adds.any fun _ => .pure _
      · exact .bind publish_dma_adds fun _ => .pure _

theorem alloc_mapping_adds {x : P2pDmaMapping} :
    Adds any_call (modify fun s => { s with mappings := s.mappings.alloc x } : Drv Unit) :=
  Evolves.modify fun _ => ⟨⟨⟨[], rfl, fun e he => by cases he⟩, .refl same_task_refl _,
    .refl same_dma_refl _, (fun _ _ => rfl), fun hA => (not_frees_none_any_call hA).elim⟩, .of_eq rfl⟩

theorem dma_map_cuda_adds {c : CtrlId} {m : MemId} {x : BafsMem} {blk : BlockId}
    {n_dma_addrs user ctrl_id : Nat} {env : DmaMapEnv} :
    Adds any_call (dma_map_cuda c m x blk n_dma_addrs user ctrl_id env) := by
  have hdel : Adds any_call (delete_dma blk c m) := delete_dma_adds.any
  refine .bind ?_ fun r => ?_
  · refine .bind (emit_adds trivial) fun _ => ?_
    cases x.cuda_page_table with
    | none => exact .pure _
    | some t =>
      cases env.nvidia_p2p_dma_map_pages with
      | error e => exact .pure _
      | ok addrs => exact .bind .get fun _ => .bind alloc_mapping_adds fun _ => .pure _
  · cases r with
    | error ret => exact .bind hdel fun _ => .pure _
    | ok p =>
      refine .bind .get fun s => .bind (copy_to_user_adds fun _ => trivial) fun left => .ite ?_ ?_
      · exact .bind (emit_adds trivial) fun _ => .bind hdel fun _ => .pure _
      · exact .bind publish_dma_adds fun _ => .pure _

theorem bafs_ctrl_dma_map_mem_adds {c : CtrlId} {ctx : CtxId} {vaddr n_dma_addrs user ctrl_id : Nat}
    {env : DmaMapEnv} :
    Adds any_call (bafs_ctrl_dma_map_mem c ctx vaddr n_dma_addrs user ctrl_id env) := by
  refine .bind bafs_get_mem_with_ctx_adds.any fun r => ?_
  cases r with
  | none => exact .pure _
  | some m =>
    refine .bind kzalloc_adds fun r => ?_
    cases r with
    | none => exact .bind bafs_mem_put_adds.any fun _ => .pure _
    | some blk =>
      exact .bind bafs_get_ctrl_adds fun _ => .bind Adds.load fun x => .ite dma_map_cpu_adds
        (.ite dma_map_cuda_adds (.bind delete_dma_adds.any fun _ => .pure _))

theorem bafs_ctrl_dma_unmap_mem_adds {d : DmaId} : Adds any_call (bafs_ctrl_dma_unmap_mem d) :=
  .bind Adds.load fun _ => .bind unmap_dma_adds fun _ => bafs_mem_put_adds.any

theorem __bafs_ctrl_dma_map_mem_adds {argp : Nat} {params : BAFS_IOC_DMA_MAP_MEM_PARAMS} {c : CtrlId}
    {ctx : CtxId} {env : CtrlDmaMapEnv} :
    Adds any_call (__bafs_ctrl_dma_map_mem argp params c ctx env) := by
  refine .ite (.pure _) (.bind bafs_ctrl_dma_map_mem_adds fun r => ?_)
  obtain ⟨ret, n, d⟩ := r
  cases d with
  | none => exact .pure _
  | some d =>
    exact .bind (copy_to_user_adds fun _ => trivial) fun _ => .ite
      (.bind bafs_ctrl_dma_unmap_mem_adds fun _ => .pure _) (.pure _)

theorem bafs_group_dma_map_mem_adds {argp : Nat} {params : BAFS_IOC_DMA_MAP_MEM_PARAMS} {g : GroupId}
    {ctx : CtxId} {env : GroupDmaMapEnv} :
    Adds any_call (bafs_group_dma_map_mem argp params g ctx env) := by
  have hback : ∀ (ds : List DmaId) (blk : BlockId), Adds any_call (unmap_mems ds blk) :=
    fun ds blk => .bind (.each (fun _ => bafs_ctrl_dma_unmap_mem_adds) _) fun _ => kfree_adds
  refine .ite (.pure _) (.bind Adds.load fun x => .bind kzalloc_adds fun r => ?_)
  cases r with
  | none => exact .pure _
  | some blk =>
    refine .bind (.iterate (fun ci acc => .bind bafs_ctrl_dma_map_mem_adds fun r => ?_) _ _) fun r => ?_
    · obtain ⟨ret, n, d⟩ := r
      cases d with
      | none => exact .pure _
      | some d => exact .pure _
    · obtain ⟨acc, fail⟩ := r
      cases fail with
      | some ret => exact .bind (hback _ _) fun _ => .pure _
      | none =>
        exact .bind (copy_to_user_adds fun _ => trivial) fun _ => .ite (.bind (hback _ _) fun _ => .pure _) (.pure _)

theorem ioctl_file_adds {x : File} {cmd : Nat} {arg : IoctlArg} {env : IoctlEnv}
    (hno : ∀ e, plain_call e → A e) (hA : dma_map_cmd x = some cmd → ∀ e, A e) :
    Adds A (ioctl_file x cmd arg env) := by
  have hreg : ∀ {c : CtxId}, Adds A (bafs_core_reg_mem arg.argp arg.reg_mem c env.reg_mem) :=
    bafs_core_reg_mem_adds.mono hno
  cases x with
  | core c =>
    refine .ite (.pure _) (.ite (.bind hreg fun r => .ite (.pure _) (.pure _)) ?_)
    refine .ite (.bind (bafs_core_create_group_adds.mono hno) fun _ => .ite (.pure _) (.pure _)) ?_
    exact .ite (.bind bafs_core_delete_group_adds fun _ => .ite (.pure _) (.pure _)) (.pure _)
  | ctrl y =>
    refine .bind bafs_get_ctrl_adds fun _ => .ite (.bind bafs_ctrl_release_adds fun _ => .pure _) ?_
    refine .ite (.bind hreg fun r => .ite (.pure _) (.bind bafs_ctrl_release_adds fun _ => .pure _)) ?_
    refine .ite_of (fun hcmd => ?_) fun _ => .bind bafs_ctrl_release_adds fun _ => .pure _
    have hall : ∀ e, A e := hA (by rw [hcmd]; rfl)
    exact .bind (__bafs_ctrl_dma_map_mem_adds.mono fun e _ => hall e) fun _ =>
      .bind bafs_ctrl_release_adds fun _ => .ite (.pure _) (.pure _)
  | group y =>
    refine .bind bafs_get_group_adds fun _ => .ite (.bind bafs_put_group_adds fun _ => .pure _) ?_
    refine .ite (.bind hreg fun r => .ite (.pure _) (.bind bafs_put_group_adds fun _ => .pure _)) ?_
    refine .ite_of (fun hcmd => ?_) fun _ => .bind bafs_put_group_adds fun _ => .pure _
    have hall : ∀ e, A e := hA (by rw [hcmd]; rfl)
    exact .bind (bafs_group_dma_map_mem_adds.mono fun e _ => hall e) fun _ =>
      .bind bafs_put_group_adds fun _ => .ite (.pure _) (.pure _)

/-- The request may map pages for DMA, or unmap them. -/
def Request.maps_dma (s : State) : Request → Prop
  | .ioctl f cmd _ _ => ∃ x, s.files.get f = some x ∧ dma_map_cmd x = some cmd
  | .munmap _ => True
  | .move .. => True
  | _ => False

/-- The request is a probe. -/
def Request.probes : Request → Prop
  | .probe .. => True
  | _ => False

/-- A controller is made under the condition, with the lowest free numbers. -/
def CtrlMade (P : Prop) (s s' : State) : Prop :=
  (P ∧ ∃ x, x.ctrl_id = lowestFree s.bafs_ctrl_ida ∧ x.minor = lowestFree s.bafs_minor_ida ∧
    s'.numbering = (s.ctrls.alloc x, s.groups, x.minor :: s.bafs_minor_ida, x.minor :: s.cdevs,
      x.ctrl_id :: s.bafs_ctrl_ida, s.bafs_group_ida)) ∨
  (¬P ∧ s'.numbering = s.numbering)

/-- All that the creation of a controller asks for is granted. -/
def ctrl_made (env : CtrlAllocEnv) : Prop :=
  env.kzalloc = true ∧ env.pci_request_region = none ∧ env.pci_enable_device = none ∧
  env.minor = none ∧ env.ctrl_id = none ∧ env.cdev_add = none ∧ env.device_create = none

theorem bafs_ctrl_alloc_numbers {pdev : PciDev} {env : CtrlAllocEnv} {E : Fault → Prop} (s : State) :
    wp (bafs_ctrl_alloc pdev env) E (fun _ s' => s'.recorded = s.recorded ∧ s'.drvdata = s.drvdata ∧
      CtrlMade (ctrl_made env) s s') s := by
  unfold bafs_ctrl_alloc bafs_get_minor_number ida_simple_get CtrlMade ctrl_made
  rw [wp_bind, wp_kzalloc]
  cases env.kzalloc with
  | false => exact ⟨rfl, rfl, .inr ⟨(fun hm => by cases hm.1), rfl⟩⟩
  | true =>
  rw [if_pos rfl]
  cases env.pci_request_region with
  | some e => exact ⟨rfl, rfl, .inr ⟨(fun hm => by cases hm.2.1), rfl⟩⟩
  | none =>
  cases env.pci_enable_device with
  | some e => exact ⟨rfl, rfl, .inr ⟨(fun hm => by cases hm.2.2.1), rfl⟩⟩
  | none =>
  cases env.minor with
  | some e => exact ⟨rfl, rfl, .inr ⟨(fun hm => by cases hm.2.2.2.1), rfl⟩⟩
  | none =>
  cases env.ctrl_id with
  | some e =>
    exact ⟨rfl, rfl, .inr ⟨(fun hm => by cases hm.2.2.2.2.1), by simp [State.numbering]⟩⟩
  | none =>
  cases env.cdev_add with
  | some e =>
    exact ⟨rfl, rfl, .inr ⟨(fun hm => by cases hm.2.2.2.2.2.1), by simp [State.numbering]⟩⟩
  | none =>
  cases env.device_create with
  | some e =>
    exact ⟨rfl, rfl, .inr ⟨(fun hm => by cases hm.2.2.2.2.2.2), by simp [State.numbering]⟩⟩
  | none =>
  exact ⟨rfl, rfl, .inl ⟨⟨rfl, rfl, rfl, rfl, rfl, rfl, rfl⟩, _, rfl, rfl, rfl⟩⟩

theorem add_file_adds {ret : Int} {file : Option File} : Adds A (add_file ret file) := by
  cases file with
  | none => exact .pure _
  | some x => exact .bind (Adds.modify fun _ => rfl) fun _ => .pure _

/-- The request asks neither the DMA layer nor the NVIDIA driver. -/
def Request.plain (s : State) : Request → Prop
  | .ioctl f cmd _ _ => ∀ x, s.files.get f = some x → dma_map_cmd x ≠ some cmd
  | .mmap .. => False
  | .munmap _ => False
  | .move .. => False
  | .revoke _ => False
  | _ => True

/-- A request that asks neither the DMA layer nor the NVIDIA driver makes plain calls only. -/
theorem step_plain_adds (r : Request) (s : State) (hr : ¬r.probes) (hp : r.plain s) :
    wp (step r) (fun _ => True) (fun _ s' => Grows plain_call s s') s := by
  have hof : ∀ {c : Drv Reply}, Adds plain_call c →
      wp c (fun _ => True) (fun _ s' => Grows plain_call s s') s := fun hc => hc s
  cases r with
  | probe pdev env => exact absurd trivial hr
  | remove slot =>
    refine hof (.bind .get fun s => ?_)
    cases s.drvdata.lookup slot with
    | none => exact .pure _
    | some c =>
      exact .bind (.bind (Adds.modify fun _ => rfl) fun _ => bafs_ctrl_release_adds) fun _ => .pure _
  | open_core task env => exact hof (.bind bafs_core_open_adds fun _ => add_file_adds)
  | open_ctrl c task env =>
    exact hof (.bind .get fun s => .ite (.pure _) (.bind bafs_ctrl_open_adds fun _ => add_file_adds))
  | open_group g task env =>
    exact hof (.bind .get fun s => .ite (.pure _) (.bind bafs_group_open_adds fun _ => add_file_adds))
  | close f =>
    refine hof (.bind .get fun s => ?_)
    cases s.files.get f with
    | none => exact .pure _
    | some x => exact .bind (Adds.modify fun _ => rfl) fun _ => .bind release_file_adds fun _ => .pure _
  | ioctl f cmd arg env =>
    unfold step
    rw [wp_bind, wp_get]
    cases hx : s.files.get f with
    | none => exact hof (.pure _)
    | some x =>
      exact hof (.bind (ioctl_file_adds (fun _ he => he) fun hcmd => absurd hcmd (hp x hx))
        fun _ => .pure _)
  | split v a =>
    refine hof (.bind .get fun s => ?_)
    cases s.vmas.get v with
    | none => exact .pure _
    | some w =>
      exact .ite (.bind (Adds.modify fun _ => rfl) fun _ => .bind open_vma_adds fun _ => .pure _) (.pure _)
  | mmap f mm a b pgoff env => exact hp.elim
  | munmap v => exact hp.elim
  | move v a => exact hp.elim
  | revoke t => exact hp.elim

/-- Every request but a probe leaves the controllers as they are or releases them; it leaves the
processes of the contexts as they are and the DMA mappings that it does not give up, and mostly the
pages that are mapped for DMA. -/
theorem step_adds (r : Request) (s : State) (hr : ¬r.probes) (hno : ∀ e, no_dma e → A e)
    (hA : r.maps_dma s → ∀ e, A e) : wp (step r) (fun _ => True) (fun _ s' => Grows A s s') s := by
  have hplain : r.plain s → wp (step r) (fun _ => True) (fun _ s' => Grows A s s') s := fun hp =>
    wp_mono (step_plain_adds r s hr hp) fun _ s' hs' =>
      hs'.mono fun e he => hno e (plain_call_no_dma he)
  have hclose : (∀ e, A e) → ∀ i w, Adds A (unmap_vma i w) := fun hall i w =>
    .bind (Adds.modify fun _ => rfl) fun _ => close_vma_adds.mono fun e _ => hall e
  have hof : ∀ {c : Drv Reply}, Adds A c → wp c (fun _ => True) (fun _ s' => Grows A s s') s :=
    fun hc => hc s
  cases r with
  | ioctl f cmd arg env =>
    by_cases hm : ∃ x, s.files.get f = some x ∧ dma_map_cmd x = some cmd
    · obtain ⟨x, hx, hcmd⟩ := hm
      unfold step
      rw [wp_bind, wp_get, hx]
      exact hof (.bind (ioctl_file_adds (fun e he => hno e (plain_call_no_dma he)) fun _ =>
        hA ⟨x, hx, hcmd⟩) fun _ => .pure _)
    · exact hplain fun x hx hcmd => hm ⟨x, hx, hcmd⟩
  | mmap f mm a b pgoff env =>
    refine hof (.bind .get fun s => ?_)
    cases s.files.get f with
    | none => exact .pure _
    | some x =>
      refine .bind .get fun s => .ite (.bind (mmap_file_adds.mono fun e he => hno e (pin_call_no_dma he)) fun r => .ite (.pure _) ?_) (.pure _)
      exact .bind (Adds.modify fun _ => rfl) fun _ => .pure _
  | munmap v =>
    refine hof (.bind .get fun s => ?_)
    cases s.vmas.get v with
    | none => exact .pure _
    | some w => exact .bind (hclose (hA trivial) v w) fun _ => .pure _
  | move v a =>
    refine hof (.bind .get fun s => ?_)
    cases s.vmas.get v with
    | none => exact .pure _
    | some w =>
      refine .bind .get fun s => .ite (.bind (Adds.modify fun _ => rfl) fun _ => ?_) (.pure _)
      exact .bind open_vma_adds fun _ => .bind (hclose (hA trivial) v w) fun _ => .pure _
  | revoke t =>
    refine hof (.bind .get fun s => ?_)
    cases s.tables.get t with
    | none => exact .pure _
    | some x =>
      refine .ite (.bind (Adds.modify fun _ => rfl) fun _ => ?_) (.pure _)
      exact .bind (release_bafs_cuda_mem_adds.mono hno) fun _ => .pure _
  | _ => exact hplain trivial

/-- A probe makes a controller with the lowest free numbers, or leaves the numbers as they are. -/
theorem step_probe_numbers {E : Fault → Prop} (pdev : PciDev) (env : CtrlAllocEnv) (s : State) :
    wp (step (.probe pdev env)) E (fun _ s' => s'.recorded = s.recorded ∧
      (∀ slot, slot ≠ pdev.slot → s'.drvdata.lookup slot = s.drvdata.lookup slot) ∧
      CtrlMade (s.drvdata.lookup pdev.slot = none ∧ ctrl_made env) s s') s := by
  unfold step
  rw [wp_bind, wp_get]
  refine wp_ite (fun hb => ?_) fun hb => ?_
  · refine ⟨rfl, fun _ _ => rfl, .inr ⟨fun hm => ?_, rfl⟩⟩
    rw [hm.1] at hb
    cases hb
  unfold bafs_ctrl_pci_probe
  rw [wp_bind]
  refine (bafs_ctrl_alloc_numbers s).bind fun r s₁ hr => ?_
  obtain ⟨ret, c⟩ := r
  obtain ⟨hrec, hdrv, hmade⟩ := hr
  have hfree : s.drvdata.lookup pdev.slot = none := Option.not_isSome_iff_eq_none.mp hb
  have hmade : CtrlMade (s.drvdata.lookup pdev.slot = none ∧ ctrl_made env) s s₁ :=
    hmade.imp (fun ⟨hm, hx⟩ => ⟨⟨hfree, hm⟩, hx⟩) fun ⟨hm, hs⟩ => ⟨fun hall => hm hall.2, hs⟩
  cases c with
  | none => exact ⟨hrec, (fun _ _ => by rw [hdrv]), hmade⟩
  | some c =>
    refine ⟨hrec, fun slot hne => ?_, hmade⟩
    show (s₁.drvdata.insert pdev.slot c).lookup slot = _
    rw [AList.lookup_insert_ne hne, hdrv]

/-- Every request leaves the processes of the contexts as they are and the DMA mappings that it does not
give up, and most of them leave the pages that are mapped for DMA. -/
theorem step_recorded (r : Request) (s : State) (hno : ∀ e, no_dma e → A e)
    (hA : r.maps_dma s → ∀ e, A e) :
    wp (step r) (fun _ => True) (fun _ s' => Recorded A s s') s := by
  by_cases hr : r.probes
  · cases r with
    | probe pdev env => exact wp_mono (step_probe_numbers pdev env s) fun _ s' hs' => .of_eq hs'.1
    | _ => exact hr.elim
  · exact wp_mono (step_adds r s hr hno hA) fun _ s' hs' => hs'.toRecorded

end Functions

/-! ## DMA-map requests -/

/-- No call. -/
def no_call (_ : Event) : Prop := False

theorem Grows.of_none {A : Event → Prop} {s s' : State} (hg : Grows no_call s s') : Grows A s s' :=
  hg.mono fun _ he => he.elim

/-- What a DMA-map request on a file calls, between taking a reference and putting it. -/
def dma_map_file (x : File) (arg : IoctlArg) (env : IoctlEnv) : Drv Int :=
  match x with
  | .core _ => pure 0
  | .ctrl y =>
    __bafs_ctrl_dma_map_mem arg.argp arg.dma_map_mem y.ctrl y.ctx env.ctrl_dma_map_mem
  | .group y => bafs_group_dma_map_mem arg.argp arg.dma_map_mem y.group y.ctx env.group_dma_map_mem

/-- What the function called by a DMA-map request ensures, the request ensures, if references do not
matter to it. -/
theorem ioctl_dma_map {h : Held Kind} {v : View} {s : State} {i cmd : Nat} {x : File} {arg : IoctlArg}
    {env : IoctlEnv} {Q : Int → State → Prop} (hs : At h v s) (hh : NonNeg h)
    (hi : v.files.get i = some x) (hcmd : dma_map_cmd x = some cmd)
    (hQ : ∀ ret s₁ s₂, Grows no_call s₁ s₂ → Q ret s₁ → Q ret s₂)
    (hf : ∀ h₁ s₁, At h₁ v s₁ → NonNeg h₁ → CtxHeld h₁ v x.ctx →
      (∀ c, CtrlHeld h v c → CtrlHeld h₁ v c) → Grows no_call s s₁ →
      wp (dma_map_file x arg env) (fun _ => True) Q s₁) :
    wp (ioctl_file x cmd arg env) (fun _ => True) (fun r s' => ∃ ret, r.ret = min ret 0 ∧ Q ret s')
      s := by
  have hctx := CtxHeld.of_file hh hi
  have hreply : ∀ {ret : Int} {s' : State}, Q ret s' → wp (if ret < 0 then pure (.code ret)
      else pure (.code 0) : Drv IoctlReply) (fun _ => True)
      (fun r s' => ∃ ret, r.ret = min ret 0 ∧ Q ret s') s' := fun {ret s'} hq => by
    rw [reply_code]
    exact ⟨ret, rfl, hq⟩
  cases x with
  | core c => cases hcmd
  | ctrl y =>
    obtain rfl := Option.some.inj hcmd
    obtain ⟨z, hz⟩ := hs.ctrl_live hh (.of_file hh hi)
    show wp (bafs_ctrl_ioctl y BAFS_CTRL_IOC_DMA_MAP_MEM arg env) _ _ s
    unfold bafs_ctrl_ioctl
    rw [if_neg (by decide), if_neg (by decide), if_pos rfl, wp_bind]
    refine wp_mono (wp_and (bafs_get_ctrl_spec hs hh (.of_file hh hi)) (bafs_get_ctrl_adds (A := no_call) s))
      fun _ s₁ hs₁ => ?_
    obtain ⟨hs₁, hg₁⟩ := hs₁
    refine (hf _ s₁ hs₁ (hh.tok _ _) (hctx.add _ _) (fun c hc => hc.add _ _) hg₁).bind
      fun ret s₂ hq => ?_
    exact (bafs_ctrl_release_adds (A := no_call) s₂).bind fun _ s₃ hg₃ => hreply (hQ ret s₂ s₃ hg₃ hq)
  | group y =>
    obtain rfl := Option.some.inj hcmd
    show wp (bafs_group_ioctl y BAFS_GROUP_IOC_DMA_MAP_MEM arg env) _ _ s
    unfold bafs_group_ioctl
    rw [if_neg (by decide), if_neg (by decide), if_pos rfl, wp_bind]
    cases hl : v.group_ctrls y.group with
    | none =>
      have hgone : s.groups.get y.group = none := by
        rw [← hs.view] at hl
        exact Option.map_eq_none_iff.mp hl
      rw [bafs_get_group, group_upd, wp_bind]
      exact wp_load_of (fun _ => trivial) fun x hx => by cases hgone.symm.trans hx
    | some l =>
      refine wp_mono (wp_and (bafs_get_group_spec hs hl) (bafs_get_group_adds (A := no_call) s))
        fun _ s₁ hs₁ => ?_
      obtain ⟨hs₁, hg₁⟩ := hs₁
      refine (hf _ s₁ hs₁ (hh.tok _ _) (hctx.add _ _) (fun c hc => hc.add _ _) hg₁).bind
        fun ret s₂ hq => ?_
      exact (bafs_put_group_adds (A := no_call) s₂).bind fun _ s₃ hg₃ => hreply (hQ ret s₂ s₃ hg₃ hq)

end BafsDriver
