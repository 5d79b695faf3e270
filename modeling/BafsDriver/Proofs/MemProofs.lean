import BafsDriver.Proofs.RefProofs

/-!
# Registered memory

What the functions of `mem.c` do to the state: registration, the release of a registration, the
close of a VMA and the callback of the NVIDIA driver.
-/

set_option linter.style.nameCheck false

namespace BafsDriver

open Prog

variable {h h' : Held Kind} {v : View} {s : State} {E : Fault → Prop}

theorem wp_kzalloc {ok : Bool} {Q : Option BlockId → State → Prop} :
    wp (kzalloc ok) E Q s ↔
      if ok then Q (some s.blocks.next) { s with blocks := s.blocks.alloc () } else Q none s := by
  cases ok <;> rfl

theorem wp_copy_to_user {left dst : Nat} {source : CopySource} {words : List Nat}
    {Q : Nat → State → Prop} :
    wp (copy_to_user left dst source words) E Q s ↔ Q (min left words.length) { s with
      trace := .copy_to_user source dst (words.take (words.length - left)) :: s.trace } := Iff.rfl

theorem kzalloc_spec (hs : At h v s) (ok : Bool) :
    wp (kzalloc ok) E (fun r s' => ok = r.isSome ∧ At h v s') s := by
  rw [wp_kzalloc]
  cases ok with
  | false => exact ⟨rfl, hs⟩
  | true => exact ⟨rfl, hs.of_eq rfl rfl⟩

theorem copy_to_user_spec (hs : At h v s) (left dst : Nat) (source : CopySource) (words : List Nat) :
    wp (copy_to_user left dst source words) E (fun r s' => r = min left words.length ∧ At h v s') s :=
  wp_copy_to_user.mpr ⟨rfl, hs.of_eq rfl rfl⟩

/-! ## Registration -/

/-- The registration `m` is given the fields `f`. -/
def View.set_mem (v : View) (m : MemId) (f : BafsMem) : View :=
  { v with mems := Function.update v.mems m (some f) }

/-- The registration `m` is given up. -/
def View.drop_mem (v : View) (m : MemId) : View :=
  { v with mems := Function.update v.mems m none }

/-- A registration with the fields `f` is made. -/
def View.add_mem (v : View) (f : BafsMem) : View :=
  { v.set_mem v.mem_next f with mem_next := v.mem_next + 1 }

theorem View.drop_add_mem {f : BafsMem} (hm : v.mems v.mem_next = none) :
    (v.add_mem f).drop_mem v.mem_next = { v with mem_next := v.mem_next + 1 } := by
  unfold drop_mem add_mem set_mem
  rw [Function.update_idem, Function.update_eq_self_iff.mpr hm.symm]

theorem view_alloc_mem {x : BafsMem} :
    ({ s with mems := s.mems.alloc x } : State).view = s.view.add_mem x.fields := by
  refine view_mems (fun n => ?_) Heap.next_alloc
  show _ = Function.update s.view.mems s.mems.next (some x.fields) n
  rw [Heap.get_alloc, Function.update_apply]
  by_cases hn : n = s.mems.next
  · rw [if_pos hn, if_pos (by exact hn)]
    rfl
  · rw [if_neg hn, if_neg (by exact hn)]
    rfl

theorem view_free_mem {m : MemId} :
    ({ s with mems := s.mems.free m } : State).view = s.view.drop_mem m := by
  refine view_mems (fun n => ?_) Heap.next_free
  rw [Heap.get_free, Function.update_apply]
  by_cases hn : n = m
  · rw [if_pos hn, if_pos hn]
    rfl
  · rw [if_neg hn, if_neg hn]
    rfl

theorem At.mem_next (hs : At h v s) : v.mem_next = s.mems.next := (congrArg View.mem_next hs.view).symm

/-- The registrations that exist were made. -/
theorem At.mem_lt (hs : At h v s) {m : MemId} {f : BafsMem} (hm : v.mems m = some f) :
    m < v.mem_next := by
  obtain ⟨x, hx, -⟩ := hs.mem_live hm
  rw [hs.mem_next]
  exact Heap.lt_next_of_get hx

theorem At.mem_fresh (hs : At h v s) : v.mems v.mem_next = none := by
  cases hm : v.mems v.mem_next with
  | none => rfl
  | some f => exact absurd (hs.mem_lt hm) (lt_irrefl _)

theorem publish_mem_spec {c : CtxId} {y : BafsCtx} {x : BafsMem}
    (hs : At (h + tok Kind.ctx c) v s) (hy : s.ctxs.get c = some y) (hxc : x.ctx = c)
    (hxr : x.ref = 1) (hxd : x.dma_list = []) (hxi : y.bafs_mem_xa.lookup x.mem_id = none)
    (hlt : x.mem_id < 2 ^ 31) :
    wp (publish_mem c x) E (fun m s' => m = v.mem_next ∧ s'.mems.get m = some x ∧
      At h (v.add_mem x.fields) s') s := by
  unfold publish_mem
  rw [wp_bind, wp_get, wp_bind, wp_modify, wp_bind]
  refine (wp_ctx_upd (x := y) (by exact hy)).mpr ?_
  refine ⟨hs.mem_next.symm, by rw [Heap.get_alloc, if_pos rfl],
    hs.wf.mem_alloc hy hxc hxr hxd hxi hlt, ?_⟩
  rw [← hs.view]
  exact view_alloc_mem

/-- The state without the registration `m` of the context `y`. -/
def removed (s : State) (m : MemId) (x : BafsMem) (y : BafsCtx) : State :=
  { s with
    mems := s.mems.free m
    mem_log := m :: s.mem_log
    ctxs := s.ctxs.set x.ctx { y with
      mem_list := y.mem_list.erase m
      bafs_mem_xa := y.bafs_mem_xa.erase x.mem_id } }

theorem At.removed {m : MemId} {x : BafsMem} {y : BafsCtx} (hs : At h v s)
    (hm : s.mems.get m = some x) (hy : s.ctxs.get x.ctx = some y) :
    At (h + tok Kind.ctx x.ctx) (v.drop_mem m) (BafsDriver.removed s m x y) := by
  refine ⟨hs.wf.mem_free hm hy, ?_⟩
  rw [← hs.view]
  exact view_free_mem

/-- A registration leaves the tables of its context and is given up; its reference to the context
remains. -/
theorem unlink_drop_spec {α : Type} {m : MemId} {x : BafsMem} (hs : At h v s)
    (hm : s.mems.get m = some x) {k : Drv α} {Q : α → State → Prop}
    (hk : ∀ s', At (h + tok Kind.ctx x.ctx) (v.drop_mem m) s' → wp k E Q s') :
    wp (do unlink_mem m x; drop_mem m; k) E Q s := by
  obtain ⟨y, hy, -⟩ := hs.wf.tables.mem_listed m x hm
  rw [wp_bind, unlink_mem, wp_ctx_upd hy, wp_bind, drop_mem, wp_modify]
  exact hk _ (hs.removed hm hy)

/-- Whether a registration request is refused, with `xa` as the table of the context. -/
def reg_mem_fails (xa : AList (fun _ : Nat => MemId)) (env : RegMemEnv) : Prop :=
  env.copy_from_user = false ∨ env.kzalloc = false ∨ xa_alloc xa env.xa_alloc = none ∨
    env.copy_to_user ≠ 0

instance (xa : AList (fun _ : Nat => MemId)) (env : RegMemEnv) : Decidable (reg_mem_fails xa env) :=
  inferInstanceAs (Decidable (_ ∨ _ ∨ _ ∨ _))

/-- The index that `xa_alloc` hands out is free and fits into 31 bits. -/
theorem xa_alloc_spec {xa : AList (fun _ : Nat => MemId)} {fail : Option Errno} {i : Nat}
    (hi : xa_alloc xa fail = some i) : xa.lookup i = none ∧ i < 2 ^ 31 := by
  unfold xa_alloc at hi
  cases fail with
  | some e => cases hi
  | none =>
    by_cases hlt : lowestFree xa.keys < 2 ^ 31
    · rw [if_pos hlt] at hi
      obtain rfl := Option.some.inj hi
      exact ⟨AList.lookup_eq_none.mpr (lowestFree_not_mem xa.keys), hlt⟩
    · rw [if_neg hlt] at hi
      cases hi

/-- A registration request is refused and leaves the view as it is, or makes a new registration whose
handle is its index plus one. -/
theorem bafs_core_reg_mem_spec {argp : Nat} {params : BAFS_IOC_REG_MEM_PARAMS} {c : CtxId}
    {y : BafsCtx} {env : RegMemEnv} (hs : At h v s) (hh : NonNeg h)
    (hy : s.ctxs.get c = some y) :
    wp (bafs_core_reg_mem argp params c env) E (fun r s' =>
      if reg_mem_fails y.bafs_mem_xa env then
        r.1 < 0 ∧ ∃ n, v.mem_next ≤ n ∧ At h { v with mem_next := n } s'
      else r.1 = 0 ∧ ∃ blk i, xa_alloc y.bafs_mem_xa env.xa_alloc = some i ∧
        r.2 = { params with handle := BitVec.ofNat 32 (i + 1) } ∧
        At h (v.add_mem (new_mem blk c i params.size.toNat params.loc.toNat).fields) s') s := by
  unfold bafs_core_reg_mem
  by_cases h1 : env.copy_from_user = false
  · rw [if_pos h1, wp_pure, if_pos (.inl h1)]
    exact ⟨(by decide : -EFAULT < 0), _, le_rfl, hs⟩
  rw [if_neg h1, wp_bind, wp_kzalloc]
  cases h2 : env.kzalloc with
  | false =>
    rw [if_neg (by simp), wp_pure, if_pos (.inr (.inl h2))]
    exact ⟨(by decide : -ENOMEM < 0), _, le_rfl, hs⟩
  | true =>
    rw [if_pos rfl, wp_bind, ctx_kref_get, wp_ctx_upd (by exact hy), wp_bind]
    have hs₂ := (hs.of_eq (t := { s with blocks := s.blocks.alloc () }) rfl rfl).ctx_get hy
    rw [wp_ctx_at (Heap.get_set_self hy)]
    cases h3 : xa_alloc y.bafs_mem_xa env.xa_alloc with
    | none =>
      refine (bafs_put_ctx_spec hs₂ hh).bind fun _ s₃ hs₃ => ?_
      refine (hs₃.keep (kfree_quiet quiet_at _)).bind fun _ s₄ hs₄ => ?_
      rw [wp_pure, if_pos (.inr (.inr (.inl h3)))]
      exact ⟨(by decide : -ENOMEM < 0), _, le_rfl, hs₄⟩
    | some i =>
      obtain ⟨hi, hlt⟩ := xa_alloc_spec h3
      refine (publish_mem_spec hs₂ (Heap.get_set_self hy) rfl rfl rfl hi hlt).bind ?_
      rintro m s₃ ⟨rfl, hm, hs₃⟩
      rw [wp_bind, wp_copy_to_user]
      have hs₄ : ∀ t, At h _ { s₃ with trace := t } := fun t => hs₃.of_eq rfl rfl
      by_cases h4 : env.copy_to_user = 0
      · rw [h4, if_neg (by simp), wp_pure, if_neg (by simp [reg_mem_fails, h1, h2, h3, h4])]
        exact ⟨rfl, _, i, rfl, rfl, hs₄ _⟩
      · rw [if_pos (by simp [h4]), wp_bind, wp_mem_at (by exact hm)]
        refine unlink_drop_spec (hs₄ _) (by exact hm) fun s₅ hs₅ => ?_
        refine (bafs_put_ctx_spec hs₅ hh).bind fun _ s₆ hs₆ => ?_
        refine (hs₆.keep (kfree_quiet quiet_at _)).bind fun _ s₇ hs₇ => ?_
        rw [wp_pure, if_pos (.inr (.inr (.inr h4)))]
        rw [View.drop_add_mem hs.mem_fresh] at hs₇
        exact ⟨(by decide : -EFAULT < 0), _, Nat.le_succ _, hs₇⟩

/-! ## The sweep at the close of a file -/

/-- The registrations of the list `l` that were never pinned are given up. -/
def View.sweep (v : View) (l : List MemId) : View :=
  { v with mems := fun m => (v.mems m).filter fun f => m ∉ l ∨ f.state ≠ .STALE }

@[simp] theorem View.sweep_nil : v.sweep [] = v := by
  unfold sweep
  congr
  funext m
  cases v.mems m <;> simp

/-- One step of the sweep at a registration that was never pinned. -/
theorem View.sweep_stale {m : MemId} {l : List MemId} {f : BafsMem} (hm : v.mems m = some f)
    (hf : f.state = .STALE) : (v.drop_mem m).sweep l = v.sweep (m :: l) := by
  unfold sweep drop_mem
  congr
  funext n
  simp only [Function.update_apply]
  by_cases hn : n = m
  · simp [hn, hm, Option.filter, hf]
  · simp [hn]

/-- One step of the sweep at another registration. -/
theorem View.sweep_kept {m : MemId} {l : List MemId} {f : BafsMem} (hm : v.mems m = some f)
    (hf : f.state ≠ .STALE) : v.sweep l = v.sweep (m :: l) := by
  unfold sweep
  congr
  funext n
  by_cases hn : n = m
  · simp [hn, hm, Option.filter, hf]
  · simp [hn]

/-- The registrations of the context `c` that were never pinned are given up. -/
def View.sweep_ctx (v : View) (c : CtxId) : View :=
  { v with mems := fun m => (v.mems m).filter fun f => f.ctx ≠ c ∨ f.state ≠ .STALE }

/-- The registrations of a context are those in its list. -/
theorem At.sweep_list (hs : At h v s) {c : CtxId} {y : BafsCtx} (hy : s.ctxs.get c = some y) :
    v.sweep y.mem_list = v.sweep_ctx c := by
  unfold View.sweep View.sweep_ctx
  congr
  funext m
  cases hm : v.mems m with
  | none => rfl
  | some f =>
    have hiff : m ∉ y.mem_list ↔ f.ctx ≠ c := not_congr (hs.mem_list_iff hy hm)
    simp only [Option.filter, hiff]

theorem sweep_stale_spec {c : CtxId} (hs : At h v s) (hh : NonNeg h) (hc : CtxHeld h v c) :
    wp (sweep_stale c) E (fun _ s' => At h (v.sweep_ctx c) s') s := by
  obtain ⟨y, hy⟩ := hs.ctx_live hc
  rw [← hs.sweep_list hy]
  unfold sweep_stale
  rw [wp_bind, wp_ctx_at hy]
  -- what remains of the sweep leads to the same view
  have hinv : ∃ w, At h w s ∧ w.sweep y.mem_list = v.sweep y.mem_list ∧ y.mem_list.Nodup ∧
      ∀ m ∈ y.mem_list, ∃ f, w.mems m = some f ∧ f.ctx = c := by
    refine ⟨v, hs, rfl, hs.wf.tables.list_nodup hy, fun m hm => ?_⟩
    obtain ⟨x, hx, hxc⟩ := hs.wf.tables.listed c y m hy hm
    exact ⟨_, hs.mem_view hx, hxc⟩
  refine wp_mono (wp_each (fun l s => ∃ w, At h w s ∧ w.sweep l = v.sweep y.mem_list ∧ l.Nodup ∧
    ∀ m ∈ l, ∃ f, w.mems m = some f ∧ f.ctx = c) ?_ hinv) ?_
  · rintro m l s₁ ⟨w, hs₁, hw, hnd, hl⟩
    obtain ⟨f, hf, hfc⟩ := hl m List.mem_cons_self
    obtain ⟨x, hx, rfl⟩ := hs₁.mem_live hf
    obtain ⟨hm, hnd⟩ := List.nodup_cons.mp hnd
    rw [wp_bind, wp_mem_at hx]
    refine wp_when (fun hst => ?_) fun hst => ?_
    · refine unlink_drop_spec hs₁ hx fun s₂ hs₂ => ?_
      refine (hs₂.keep (kfree_quiet quiet_at _)).bind fun _ s₃ hs₃ => ?_
      have hxc : x.ctx = c := hfc
      rw [hxc] at hs₃
      refine wp_mono (bafs_put_ctx_spec hs₃ hh) fun _ s₄ hs₄ => ?_
      refine ⟨_, hs₄, (View.sweep_stale hf hst).trans hw, hnd, fun n hn => ?_⟩
      obtain ⟨g, hg, hgc⟩ := hl n (List.mem_cons_of_mem _ hn)
      have hne : n ≠ m := fun e => hm (e ▸ hn)
      exact ⟨g, (Function.update_of_ne hne _ _).trans hg, hgc⟩
    · exact ⟨w, hs₁, (View.sweep_kept hf hst).trans hw, hnd,
        fun n hn => hl n (List.mem_cons_of_mem _ hn)⟩
  · rintro _ s' ⟨w, hs', hw, -⟩
    rw [View.sweep_nil] at hw
    exact hw ▸ hs'

/-! ## Teardown of a DMA mapping -/

/-- The DMA mapping `d` is given up. -/
def View.drop_dma (v : View) (d : DmaId) : View :=
  { v with dmas := Function.update v.dmas d none }

theorem At.dma_live (hs : At h v s) {d : DmaId} {m : MemId} {c : CtrlId}
    (hd : v.dmas d = some (m, c)) : ∃ y, s.dmas.get d = some y ∧ y.mem = m ∧ y.ctrl = c := by
  rw [← hs.view] at hd
  obtain ⟨y, hy, he⟩ := Option.map_eq_some_iff.mp hd
  exact ⟨y, hy, congrArg Prod.fst he, congrArg Prod.snd he⟩

theorem At.dma_view (hs : At h v s) {d : DmaId} {y : BafsMemDma} (hd : s.dmas.get d = some y) :
    v.dmas d = some (y.mem, y.ctrl) := by
  rw [← hs.view]
  exact congrArg (Option.map fun y : BafsMemDma => (y.mem, y.ctrl)) hd

/-- Changes of a mapping that keep its registration and its controller do not show. -/
theorem At.set_dma (hs : At h v s) {d : DmaId} {y z : BafsMemDma} (hd : s.dmas.get d = some y)
    (hm : z.mem = y.mem) (hc : z.ctrl = y.ctrl) :
    At h v { s with dmas := s.dmas.set d z } := by
  refine ⟨hs.wf.dma_set hd hm hc, ?_⟩
  have : (fun e => ((s.dmas.set d z).get e).map fun y => (y.mem, y.ctrl)) =
      fun e => (s.dmas.get e).map fun y => (y.mem, y.ctrl) := by
    funext e
    rw [Heap.get_set hd]
    by_cases he : e = d
    · rw [if_pos he, he, hd, Option.map_some, Option.map_some, hm, hc]
    · rw [if_neg he]
  rw [← hs.view]
  exact congrArg (fun D => { s.view with dmas := D }) this

theorem At.view_free_dma {d : DmaId} {m : MemId} {x x' : BafsMem} (hs : At h v s)
    (hm : s.mems.get m = some x) (hf : x'.fields = x.fields) :
    ({ s with dmas := s.dmas.free d, mems := s.mems.set m x' } : State).view = v.drop_dma d := by
  have : (fun e => ((s.dmas.free d).get e).map fun y => (y.mem, y.ctrl)) =
      Function.update (fun e => (s.dmas.get e).map fun y => (y.mem, y.ctrl)) d none := by
    funext e
    rw [Heap.get_free, Function.update_apply]
    by_cases he : e = d
    · rw [if_pos he, if_pos he]
      rfl
    · rw [if_neg he, if_neg he]
  have hv := hs.view_set_mem hm hf
  rw [← hv]
  exact congrArg (fun D => { ({ s with mems := s.mems.set m x' } : State).view with dmas := D }) this

/-- Unmapping takes the mapping out of the list of its registration, whose reference it leaves to the
caller. -/
theorem unmap_dma_at {d : DmaId} {m : MemId} {c : CtrlId} {f : BafsMem} (hs : At h v s)
    (hn : 0 ≤ h .ctrl c) (hd : v.dmas d = some (m, c)) (hm : v.mems m = some f) :
    wp (unmap_dma d) E (fun _ s' => At (h + tok Kind.mem m) (v.drop_dma d) s') s := by
  obtain ⟨y, hy, rfl, rfl⟩ := hs.dma_live hd
  obtain ⟨x, hx, -⟩ := hs.mem_live hm
  unfold unmap_dma
  rw [wp_bind, wp_dma_at hy, wp_bind, wp_mem_at hx, wp_bind, wp_mem_upd hx]
  -- the mapping is freed only after its addresses are unmapped, which changes nothing else
  have hq : Quiet fun s : State => (({ s with dmas := s.dmas.free d } : State).objects,
      ({ s with dmas := s.dmas.free d } : State).view) := by
    constructor <;> intros <;> rfl
  refine wp.bind (undo_mapping_quiet hq y x _) fun _ s₁ h₁ => ?_
  obtain ⟨ho, hv⟩ := Prod.mk.inj h₁
  rw [wp_bind, wp_modify]
  have hs₁ : At (h + tok Kind.mem y.mem + tok Kind.ctrl y.ctrl) (v.drop_dma d)
      { s₁ with dmas := s₁.dmas.free d } :=
    ⟨(hs.wf.dma_free hy hx).of_objects ho, hv.trans (hs.view_free_dma hx rfl)⟩
  have hn' : 0 ≤ (h + tok Kind.mem y.mem) .ctrl y.ctrl := by
    rw [add_tok_off h (by simp)]
    exact hn
  exact (hs₁.keep (kfree_quiet quiet_at _)).bind fun _ s₂ hs₂ => bafs_ctrl_release_at hs₂ hn'

theorem unmap_dma_spec {d : DmaId} {m : MemId} {c : CtrlId} {f : BafsMem} (hs : At h v s)
    (hh : NonNeg h) (hd : v.dmas d = some (m, c)) (hm : v.mems m = some f) :
    wp (unmap_dma d) E (fun _ s' => At (h + tok Kind.mem m) (v.drop_dma d) s') s :=
  unmap_dma_at hs (hh .ctrl c (by decide)) hd hm

theorem bafs_ctrl_dma_unmap_mem_spec {d : DmaId} {m : MemId} {c : CtrlId} {f : BafsMem}
    (hs : At h v s) (hh : NonNeg h) (hd : v.dmas d = some (m, c)) (hm : v.mems m = some f) :
    wp (bafs_ctrl_dma_unmap_mem d) E (fun _ s' => At h (v.drop_dma d) s') s := by
  obtain ⟨y, hy, rfl, rfl⟩ := hs.dma_live hd
  unfold bafs_ctrl_dma_unmap_mem
  rw [wp_bind, wp_dma_at hy]
  exact (unmap_dma_spec hs hh hd hm).bind fun _ s₁ hs₁ => bafs_mem_put_spec hs₁ hh hm

/-! ## The release of a registration -/

/-- The page tables after the release of the registration `x`. -/
def released_tables (T : Heap P2pPageTable) (x : BafsMem) : Heap P2pPageTable :=
  if x.state = .STALE ∨ x.state = .DEAD_CB ∨ x.loc ≠ BAFS_MEM_CUDA then T
  else match x.cuda_page_table with
    | some t => unpinned T t
    | none => T

/-- The changes of state after the release of the registration `m`. -/
def released_log (L : List StateChange) (m : MemId) (x : BafsMem) : List StateChange :=
  if x.state = .STALE then L else ⟨m, x.state, .DEAD⟩ :: L

/-- The registration `m` with the fields `f` is released. -/
def View.release_mem (v : View) (m : MemId) (f : BafsMem) : View :=
  { v with
    mems := Function.update v.mems m none
    tables := released_tables v.tables f
    state_log := released_log v.state_log m f }

/-- The page table of a registration of CPU memory, where there is one, has all its pages. -/
def table_fits (x : BafsMem) : Prop :=
  x.loc = BAFS_MEM_CPU → ∀ p, x.cpu_page_table = some p →
    p.2.length = x.n_pages ∧ x.n_pages = pages_for x.size PAGE_SIZE PAGE_SHIFT

/-- Releasing the pages shows in the page tables only. -/
theorem release_pages_spec {γ : Type} {g : State → γ} (hg : Quiet g) (x : BafsMem)
    (hb : ¬table_fits x → E .out_of_bounds) (hst : x.state ≠ .STALE) :
    wp (release_pages x) E (fun _ s' =>
      g s' = g { s with tables := released_tables s.tables x }) s := by
  unfold release_pages released_tables
  refine wp_ite (fun hl => ?_) fun hl => wp_ite (fun hl' => ?_) fun hl' => ?_
  · rw [if_pos (.inr (.inr (by rw [hl]; decide)))]
    cases hp : x.cpu_page_table with
    | none => exact rfl
    | some p =>
      have hlen : p.2.length < x.n_pages → E .out_of_bounds := fun hlt => hb fun hf => by
        have := (hf hl p hp).1
        omega
      exact Preserves.bind (free_pages_quiet hg hlen) (fun _ => kfree_quiet hg p.1) s
  · cases x.cuda_page_table with
    | none =>
      have : s = { s with tables := if x.state = .STALE ∨ x.state = .DEAD_CB ∨ x.loc ≠ BAFS_MEM_CUDA
          then s.tables else s.tables } := by rw [ite_self]
      exact congrArg g this
    | some t =>
      by_cases hd : x.state = .DEAD_CB
      · rw [if_pos (.inr (.inl hd))]
        refine wp_when (fun hn => absurd hd hn) fun _ => rfl
      · rw [if_neg (by rw [not_or, not_or]; exact ⟨hst, hd, not_not.mpr hl'⟩)]
        refine wp_when (fun _ => ?_) fun hn => absurd hd hn
        unfold nvidia_p2p_put_pages unpin nvidia_p2p_free_page_table emit
        simp only [wp_bind, wp_modify]
        exact hg.trace { s with tables := unpinned s.tables t } _
  · rw [if_pos (.inr (.inr hl'))]
    exact rfl

theorem At.released {m : MemId} {x : BafsMem} {y : BafsCtx} (hs : At h v s)
    (hm : s.mems.get m = some x) (hy : s.ctxs.get x.ctx = some y) :
    At (h + tok Kind.ctx x.ctx) (v.release_mem m x.fields) { BafsDriver.removed s m x y with
      tables := released_tables s.tables x.fields
      state_log := released_log s.state_log m x.fields } := by
  refine ⟨(hs.removed hm hy).wf.of_objects rfl, ?_⟩
  rw [← hs.view]
  exact congrArg (fun u : View => { u with
    tables := released_tables s.tables x.fields
    state_log := released_log s.state_log m x.fields }) (view_free_mem (s := s))

/-- The last reference to a registration is dropped: it is released with its pages. -/
theorem bafs_mem_put_last_at {m : MemId} {x : BafsMem} (hs : At h v s) (hn : 0 ≤ h .ctx x.ctx)
    (hb : ¬table_fits x.fields → E .out_of_bounds) (hm : s.mems.get m = some x) (hr : x.ref = 1) :
    wp (bafs_mem_put m) E (fun _ s' => At h (v.release_mem m x.fields) s') s := by
  obtain ⟨y, hy, -⟩ := hs.wf.tables.mem_listed m x hm
  have hrel := hs.released hm hy
  have hdone : ∀ s₁ : State, At (h + tok Kind.ctx x.ctx) (v.release_mem m x.fields) s₁ →
      wp (do kfree x.blk; bafs_put_ctx x.ctx) E
        (fun _ s' => At h (v.release_mem m x.fields) s') s₁ := fun s₁ hs₁ =>
    (hs₁.keep (kfree_quiet quiet_at _)).bind fun _ s₂ hs₂ => bafs_put_ctx_at hs₂ hn
  unfold bafs_mem_put
  rw [wp_bind, wp_mem_at hm, wp_bind, wp_mem_upd hm, if_pos hr]
  unfold __bafs_mem_release
  rw [wp_bind, wp_mem_at (Heap.get_set_self hm), wp_bind, unlink_mem]
  refine (wp_ctx_upd (x := y) (by exact hy)).mpr ?_
  by_cases hst : x.state = .STALE
  · rw [if_neg (not_not.mpr hst)]
    have ht : released_tables s.tables x.fields = s.tables := if_pos (.inl hst)
    have hl : released_log s.state_log m x.fields = s.state_log := if_pos hst
    rw [ht, hl] at hrel
    show wp (drop_mem m >>= fun _ => _) E _ _
    rw [wp_bind, drop_mem, wp_modify]
    simp only [Heap.free_set]
    exact hdone _ hrel
  · have hl : released_log s.state_log m x.fields = ⟨m, x.state, .DEAD⟩ :: s.state_log := if_neg hst
    rw [hl] at hrel
    rw [if_pos hst, wp_bind]
    -- what the release of the pages leaves for the writes that follow it
    let fin (s : State) : State :=
      { s with mems := s.mems.free m, mem_log := m :: s.mem_log
               state_log := ⟨m, x.state, .DEAD⟩ :: s.state_log }
    have hq : Quiet fun s : State => (s.mems, (fin s).objects, (fin s).view) := by
      constructor <;> intros <;> rfl
    refine wp_mono (release_pages_spec hq _ (by exact hb) (by exact hst)) fun _ s₂ h₂ => ?_
    obtain ⟨hmems, hfin⟩ := Prod.mk.inj h₂
    obtain ⟨ho, hv⟩ := Prod.mk.inj hfin
    have hm₂ : s₂.mems.get m = some { x with ref := x.ref - 1 } := by
      rw [hmems]
      exact Heap.get_set_self hm
    rw [wp_bind, set_state, wp_bind, wp_mem_at hm₂, wp_bind, wp_modify]
    refine (wp_mem_upd (by exact hm₂)).mpr ?_
    show wp (drop_mem m >>= fun _ => _) E _ _
    rw [wp_bind, drop_mem, wp_modify]
    simp only [Heap.free_set]
    refine hdone _ (hrel.of_eq (ho.trans ?_) (hv.trans ?_))
    · simp only [fin, Heap.free_set]
      rfl
    · simp only [fin, Heap.free_set]
      rfl

theorem bafs_mem_put_last {m : MemId} {x : BafsMem} (hs : At h v s) (hh : NonNeg h)
    (hb : ¬table_fits x.fields → E .out_of_bounds) (hm : s.mems.get m = some x) (hr : x.ref = 1) :
    wp (bafs_mem_put m) E (fun _ s' => At h (v.release_mem m x.fields) s') s :=
  bafs_mem_put_last_at hs (hh .ctx x.ctx (by decide)) hb hm hr

/-! ## The close of a VMA -/

/-- The DMA mappings of the list `l` are given up. -/
def View.drop_dmas (v : View) (l : List DmaId) : View :=
  { v with dmas := fun d => if d ∈ l then none else v.dmas d }

@[simp] theorem View.drop_dmas_nil : v.drop_dmas [] = v := by simp [drop_dmas]

theorem View.drop_dmas_cons {d : DmaId} {l : List DmaId} :
    (v.drop_dma d).drop_dmas l = v.drop_dmas (d :: l) := by
  unfold drop_dmas drop_dma
  congr
  funext e
  by_cases he : e = d
  · simp [he]
  · simp [he]

/-- The registration `m` goes with its DMA mappings. -/
def View.close_mem (v : View) (m : MemId) (f : BafsMem) : View :=
  { v.release_mem m f with dmas := fun d => (v.dmas d).filter fun p => p.1 ≠ m }

/-- The DMA mappings in the list of a registration are those that point to it. -/
theorem At.drop_dmas (hs : At h v s) {m : MemId} {x : BafsMem} (hm : s.mems.get m = some x) :
    (v.drop_dmas x.dma_list).release_mem m x.fields = v.close_mem m x.fields := by
  unfold View.close_mem View.release_mem View.drop_dmas
  congr
  funext d
  have hiff := hs.wf.dmas.listed m x d hm
  show (if d ∈ x.dma_list then none else v.dmas d) = (v.dmas d).filter _
  cases hd : s.dmas.get d with
  | none =>
    have : v.dmas d = none := by
      rw [← hs.view]
      exact congrArg (Option.map fun y : BafsMemDma => (y.mem, y.ctrl)) hd
    simp [this]
  | some y =>
    rw [hs.dma_view hd]
    by_cases hy : y.mem = m
    · rw [if_pos (hiff.mpr ⟨y, hd, hy⟩)]
      simp [Option.filter, hy]
    · rw [if_neg fun hl => ?_]
      · simp [Option.filter, hy]
      · obtain ⟨y', hy', he⟩ := hiff.mp hl
        rw [hd] at hy'
        exact hy (Option.some.inj hy' ▸ he)

/-- The DMA mappings `l` of the registration `m` with the fields `f` are still there; without them the
view is `u`. -/
def Closing (h : Held Kind) (m : MemId) (f : BafsMem) (u : View) (l : List DmaId) (s : State) : Prop :=
  ∃ w, At h w s ∧ w.mems m = some f ∧ l.Nodup ∧ (∀ d ∈ l, ∃ c, w.dmas d = some (m, c)) ∧
    w.drop_dmas l = u

/-- One round of the loop of the close. -/
theorem Closing.round_at {m : MemId} {f : BafsMem} {u : View} {d : DmaId} {l : List DmaId}
    (hc : Closing h m f u (d :: l) s) (hctrl : ∀ c, 0 ≤ h .ctrl c) (hmem : 0 ≤ h .mem m) :
    wp (do unmap_dma d; bafs_mem_put m) E (fun _ s' => Closing h m f u l s') s := by
  obtain ⟨w, hs, hwm, hnd, hl, hw⟩ := hc
  obtain ⟨c, hc⟩ := hl d List.mem_cons_self
  obtain ⟨hd, hnd⟩ := List.nodup_cons.mp hnd
  refine (unmap_dma_at hs (hctrl c) hc hwm).bind fun _ s₁ hs₁ => ?_
  obtain ⟨x, hx, -⟩ := hs₁.mem_live hwm
  have heq := hs₁.wf.mem.eq m x hx
  rw [add_tok_self] at heq
  refine wp_mono (bafs_mem_put_at hs₁ hx (by omega)) fun _ s₂ hs₂ => ?_
  refine ⟨_, hs₂, hwm, hnd, fun e he => ?_, View.drop_dmas_cons.trans hw⟩
  obtain ⟨c', hc'⟩ := hl e (List.mem_cons_of_mem _ he)
  have hne : e ≠ d := fun e' => hd (e' ▸ he)
  exact ⟨c', (Function.update_of_ne hne _ _).trans hc'⟩

theorem Closing.round {m : MemId} {f : BafsMem} {u : View} {d : DmaId} {l : List DmaId}
    (hc : Closing h m f u (d :: l) s) (hh : NonNeg h) :
    wp (do unmap_dma d; bafs_mem_put m) E (fun _ s' => Closing h m f u l s') s :=
  hc.round_at (fun c => hh .ctrl c (by decide)) (hh .mem m (by decide))

/-- The loop of the close starts with all DMA mappings of the registration. -/
theorem At.closing {m : MemId} {x : BafsMem} (hs : At h v s) (hx : s.mems.get m = some x) :
    Closing h m x.fields (v.drop_dmas x.dma_list) x.dma_list s := by
  refine ⟨v, hs, hs.mem_view hx, hs.wf.dmas.nodup m x hx, fun d hd => ?_, rfl⟩
  obtain ⟨z, hz, hzm⟩ := (hs.wf.dmas.listed m x d hx).mp hd
  exact ⟨z.ctrl, by rw [hs.dma_view hz, hzm]⟩

/-- After the loop of the close nothing but its own reference holds the registration. -/
theorem Closing.last {m : MemId} {x : BafsMem} {t : State} (hs : At h' v s)
    (hx : s.mems.get m = some x) (hz : h .mem m = 0)
    (hc : Closing h m x.fields (v.drop_dmas x.dma_list) [] t) :
    At h (v.drop_dmas x.dma_list) t ∧
      ∃ x', t.mems.get m = some x' ∧ x'.fields = x.fields ∧ x'.ref = 1 := by
  obtain ⟨w, ht, hwm, -, -, hw⟩ := hc
  rw [View.drop_dmas_nil] at hw
  subst hw
  obtain ⟨x', hx', hf'⟩ := ht.mem_live hwm
  have hnone : dma_holders t m = 0 := by
    refine Heap.sum_eq_zero fun d z hz => if_neg fun hzm => ?_
    have h1 := ht.dma_view hz
    have h2 : (if d ∈ x.dma_list then none else v.dmas d) = some (m, z.ctrl) := hzm ▸ h1
    by_cases hd : d ∈ x.dma_list
    · rw [if_pos hd] at h2
      cases h2
    · rw [if_neg hd] at h2
      obtain ⟨z', hz', hzm', -⟩ := hs.dma_live h2
      exact hd ((hs.wf.dmas.listed m x d hx).mpr ⟨z', hz', hzm'⟩)
  refine ⟨ht, x', hx', hf', ?_⟩
  have := ht.wf.mem.eq m x' hx'
  rw [hnone, hz] at this
  omega

/-- Closing a VMA releases its registration with all DMA mappings of it. -/
theorem bafs_mem_release_spec {vma : Vma} {m : MemId} {f : BafsMem} (hs : At h v s)
    (hh : NonNeg h) (hz : h .mem m = 0) (hb : ¬table_fits f → E .out_of_bounds)
    (hvma : vma.vm_private_data = some m) (hm : v.mems m = some f) :
    wp (bafs_mem_release vma) E (fun _ s' => At h (v.close_mem m f) s') s := by
  obtain ⟨x, hx, rfl⟩ := hs.mem_live hm
  obtain ⟨y, hy, -⟩ := hs.wf.tables.mem_listed m x hx
  rw [← hs.drop_dmas hx]
  unfold bafs_mem_release
  rw [hvma, wp_bind, wp_mem_at hx, wp_bind, ctx_kref_get, wp_ctx_upd hy, wp_bind]
  have hs₁ := hs.ctx_get hy
  have hh₁ := hh.tok .ctx x.ctx
  -- what remains of the list leads to the same view, and the registration stays until the end
  refine wp_mono (wp_each (Closing (h + tok Kind.ctx x.ctx) m x.fields (v.drop_dmas x.dma_list))
    (fun d l s₂ hc => hc.round hh₁) (hs₁.closing hx)) ?_
  rintro _ s₂ hc
  obtain ⟨hs₂, x', hx', hf', hone⟩ := hc.last hs hx (by rw [add_tok_off h (by simp), hz])
  rw [wp_bind, ← hf']
  exact wp_mono (bafs_mem_put_last hs₂ hh₁ (hf' ▸ hb) hx' hone) fun _ s₃ hs₃ => bafs_put_ctx_spec hs₃ hh

/-! ## Updates of fields and the callback -/

/-- The update `g` of a registration changes neither its count nor what the tables depend on. -/
structure Fieldwise (g : BafsMem → BafsMem) : Prop where
  ctx : ∀ x, (g x).ctx = x.ctx
  mem_id : ∀ x, (g x).mem_id = x.mem_id
  dma_list : ∀ x, (g x).dma_list = x.dma_list
  ref : ∀ x, (g x).ref = x.ref
  fields : ∀ x, (g x).fields = g x.fields

theorem At.upd_mem (hs : At h v s) {m : MemId} {x : BafsMem} {g : BafsMem → BafsMem}
    (hx : s.mems.get m = some x) (hg : Fieldwise g := by constructor <;> intro _ <;> rfl) :
    At h (v.set_mem m (g x.fields)) { s with mems := s.mems.set m (g x) } := by
  refine ⟨hs.wf.mem_fields hx (hg.ctx x) (hg.mem_id x) (hg.dma_list x) (hg.ref x), ?_⟩
  rw [BafsDriver.view_set_mem hx, hg.fields, ← hs.view]
  rfl

theorem mem_upd_spec (hs : At h v s) {m : MemId} {f : BafsMem} {g : BafsMem → BafsMem}
    (hm : v.mems m = some f) (hg : Fieldwise g := by constructor <;> intro _ <;> rfl) :
    wp (mem_upd m g) E (fun _ s' => At h (v.set_mem m (g f)) s') s := by
  obtain ⟨x, hx, rfl⟩ := hs.mem_live hm
  exact (wp_mem_upd hx).mpr (hs.upd_mem hx hg)

theorem mem_at_spec (hs : At h v s) {m : MemId} {f : BafsMem} (hm : v.mems m = some f) :
    wp (mem_at m) E (fun x s' => x.fields = f ∧ s'.mems.get m = some x ∧ At h v s') s := by
  obtain ⟨x, hx, hf⟩ := hs.mem_live hm
  exact (wp_mem_at hx).mpr ⟨hf, hx, hs⟩

/-- The state of `m` is written. -/
def View.set_state (v : View) (m : MemId) (f : BafsMem) (st : STATE) : View :=
  { v.set_mem m { f with state := st } with state_log := ⟨m, f.state, st⟩ :: v.state_log }

theorem set_state_spec (hs : At h v s) {m : MemId} {f : BafsMem} (hm : v.mems m = some f)
    (st : STATE) : wp (set_state m st) E (fun _ s' => At h (v.set_state m f st) s') s := by
  obtain ⟨x, hx, rfl⟩ := hs.mem_live hm
  rw [set_state, wp_bind, wp_mem_at hx, wp_bind, wp_modify]
  refine (wp_mem_upd (by exact hx)).mpr ?_
  have hs' := hs.upd_mem (g := fun x => { x with state := st }) hx
  have hl : s.state_log = v.state_log := congrArg View.state_log hs.view
  have hv := congrArg (fun u : View => { u with state_log := ⟨m, x.state, st⟩ :: s.state_log }) hs'.view
  refine ⟨hs'.wf.of_objects rfl, hv.trans ?_⟩
  rw [hl]
  rfl

/-- The registration `m` after its pages have been revoked. -/
def View.revoke_mem (v : View) (m : MemId) (f : BafsMem) : View :=
  if f.state = .DEAD then v
  else (v.set_state m f .DEAD_CB).set_mem m
    { f with state := .DEAD_CB, cuda_page_table := none }

/-- The callback marks its registration and forgets the page table and the mappings of it. -/
theorem release_bafs_cuda_mem_spec {m : MemId} {f : BafsMem} (hs : At h v s)
    (hm : v.mems m = some f) :
    wp (release_bafs_cuda_mem m) E (fun _ s' => At h (v.revoke_mem m f) s') s := by
  obtain ⟨x, hx, rfl⟩ := hs.mem_live hm
  unfold release_bafs_cuda_mem View.revoke_mem
  rw [wp_bind, wp_mem_at hx]
  by_cases hst : x.state = .DEAD
  · rw [if_neg (not_not.mpr hst), wp_pure, if_pos (by exact hst)]
    exact hs
  rw [if_pos hst, if_neg (by exact hst), wp_bind]
  have hinv : At h v s ∧ ∀ d ∈ x.dma_list, ∃ c, v.dmas d = some (m, c) := by
    refine ⟨hs, fun d hd => ?_⟩
    obtain ⟨y, hy, hym⟩ := (hs.wf.dmas.listed m x d hx).mp hd
    exact ⟨y.ctrl, by rw [hs.dma_view hy, hym]⟩
  refine wp_mono (wp_each (fun l s => At h v s ∧ ∀ d ∈ l, ∃ c, v.dmas d = some (m, c)) ?_ hinv) ?_
  · rintro d l s₁ ⟨hs₁, hl⟩
    obtain ⟨c, hc⟩ := hl d List.mem_cons_self
    obtain ⟨y, hy, -⟩ := hs₁.dma_live hc
    have hrest : ∀ e ∈ l, ∃ c, v.dmas e = some (m, c) := fun e he =>
      hl e (List.mem_cons_of_mem _ he)
    rw [wp_bind, wp_dma_at hy]
    cases y.cuda_mapping with
    | none => exact ⟨hs₁, hrest⟩
    | some p =>
      rw [wp_bind, emit, wp_modify, wp_modify]
      exact ⟨(hs₁.set_dma (z := { y with cuda_mapping := none }) hy rfl rfl).of_eq rfl rfl, hrest⟩
  · rintro _ s₁ ⟨hs₁, -⟩
    refine (set_state_spec hs₁ hm .DEAD_CB).bind fun _ s₂ hs₂ => ?_
    refine (hs₂.keep (emit_quiet quiet_at _)).bind fun _ s₃ hs₃ => ?_
    exact mem_upd_spec hs₃ (Function.update_self ..)

end BafsDriver
