import BafsDriver.Scenario
import BafsDriver.Proofs.DmaMapResult
import BafsDriver.Proofs.RegProofs

/-!
# What a failed pin leaves behind

A pin writes the fields of the registration before it knows that it succeeds, and a failure does not
restore them. What is left is what there was exactly if the registration had been pinned before, at
the same place and with the same pages, and had given up its page table.
-/

set_option linter.style.nameCheck false

namespace BafsDriver

open Prog

variable {h : Held Kind} {v : View} {s : State} {E : Fault → Prop} {m : MemId} {x : BafsMem}
  {vma : Vma} {env : PinEnv} {C : Heap BafsCtx}

/-! ## The fields that are left -/

/-- What `pin_bafs_cpu_mem` leaves of the registration when it fails. -/
def cpu_left (x : BafsMem) : BafsMem :=
  if x.vaddr &&& mask_for PAGE_SIZE ≠ x.vaddr then cpu_fields x x.cpu_page_table
  else cpu_fields x none

/-- What `pin_bafs_cuda_mem` leaves of the registration when it fails. -/
def cuda_left (x : BafsMem) (env : PinEnv) : BafsMem :=
  match env.nvidia_p2p_get_pages with
  | .error _ => x
  | .ok table =>
    match table.version_compatible, cuda_page_size table.page_size with
    | false, _ => { x with cuda_page_table := none }
    | true, none => { x with cuda_page_table := none }
    | true, some (page_size, page_shift) =>
      let y := { x with
        cuda_page_table := none, page_size, page_shift, page_mask := mask_for page_size }
      if x.vaddr &&& mask_for page_size ≠ x.vaddr then y
      else { y with n_pages := pages_for x.size page_size page_shift }

/-- What `pin_by_loc` leaves of the registration when it fails. -/
def loc_left (x : BafsMem) (env : PinEnv) : BafsMem :=
  if x.loc = BAFS_MEM_CPU then cpu_left x
  else if x.loc = BAFS_MEM_CUDA then cuda_left x env
  else x

/-- What a pin at the address `vm_start` leaves of the registration when it fails. -/
def pin_left (x : BafsMem) (vm_start : Nat) (env : PinEnv) : BafsMem :=
  loc_left { x with vaddr := vm_start } env

/-- The fields are those that a failed pin of CPU memory leaves. -/
def cpu_unwritten (x : BafsMem) : Prop :=
  x.page_size = PAGE_SIZE ∧ x.page_shift = PAGE_SHIFT ∧ x.page_mask = mask_for PAGE_SIZE ∧
  x.n_pages = pages_for x.size PAGE_SIZE PAGE_SHIFT ∧
  (x.vaddr &&& mask_for PAGE_SIZE = x.vaddr → x.cpu_page_table = none)

/-- The fields are those that a failed pin of CUDA memory leaves, which got this page table. -/
def cuda_unwritten (x : BafsMem) (table : P2pPages) : Prop :=
  x.cuda_page_table = none ∧
  (table.version_compatible = true →
    ∀ page_size page_shift, cuda_page_size table.page_size = some (page_size, page_shift) →
      x.page_size = page_size ∧ x.page_shift = page_shift ∧ x.page_mask = mask_for page_size ∧
      (x.vaddr &&& mask_for page_size = x.vaddr → x.n_pages = pages_for x.size page_size page_shift))

/-- A pin at the address `vm_start` that fails finds in the registration what it leaves there. -/
def unwritten (x : BafsMem) (vm_start : Nat) (env : PinEnv) : Prop :=
  x.vaddr = vm_start ∧ (x.loc = BAFS_MEM_CPU → cpu_unwritten x) ∧
  (x.loc = BAFS_MEM_CUDA → ∀ table, env.nvidia_p2p_get_pages = .ok table → cuda_unwritten x table)

theorem cpu_left_iff : cpu_left x = x ↔ cpu_unwritten x := by
  cases x
  unfold cpu_left cpu_unwritten cpu_fields
  split
  · rename_i hal
    simp only [BafsMem.mk.injEq] at hal ⊢
    grind
  · rename_i hal
    simp only [BafsMem.mk.injEq] at hal ⊢
    grind

theorem cuda_left_iff : cuda_left x env = x ↔
    ∀ table, env.nvidia_p2p_get_pages = .ok table → cuda_unwritten x table := by
  unfold cuda_left cuda_unwritten
  cases hget : env.nvidia_p2p_get_pages with
  | error e => simp
  | ok table =>
    cases x
    cases hver : table.version_compatible with
    | false =>
      simp only [hver]
      grind
    | true =>
      cases hsize : cuda_page_size table.page_size with
      | none =>
        simp only [hver, hsize]
        grind
      | some p =>
        obtain ⟨page_size, page_shift⟩ := p
        simp only [hver, hsize]
        split
        · simp only [BafsMem.mk.injEq]
          grind
        · simp only [BafsMem.mk.injEq]
          grind

theorem loc_left_vaddr : (loc_left x env).vaddr = x.vaddr := by
  unfold loc_left cpu_left cuda_left cpu_fields
  grind

theorem pin_left_state {vm_start : Nat} : (pin_left x vm_start env).state = x.state := by
  unfold pin_left loc_left cpu_left cuda_left cpu_fields
  cases env.nvidia_p2p_get_pages with
  | error e => grind
  | ok table => grind

theorem pin_left_iff {vm_start : Nat} : pin_left x vm_start env = x ↔ unwritten x vm_start env := by
  have hloc : loc_left x env = x ↔ (x.loc = BAFS_MEM_CPU → cpu_unwritten x) ∧
      (x.loc = BAFS_MEM_CUDA → ∀ table, env.nvidia_p2p_get_pages = .ok table →
        cuda_unwritten x table) := by
    unfold loc_left
    by_cases h0 : x.loc = BAFS_MEM_CPU
    · have h1 : x.loc ≠ BAFS_MEM_CUDA := by rw [h0]; decide
      rw [if_pos h0, cpu_left_iff]
      exact ⟨fun hc => ⟨fun _ => hc, fun h => absurd h h1⟩, fun hc => hc.1 h0⟩
    · by_cases h1 : x.loc = BAFS_MEM_CUDA
      · rw [if_neg h0, if_pos h1, cuda_left_iff]
        exact ⟨fun hc => ⟨fun h => absurd h h0, fun _ => hc⟩, fun hc => hc.2 h1⟩
      · rw [if_neg h0, if_neg h1]
        exact ⟨fun _ => ⟨fun h => absurd h h0, fun h => absurd h h1⟩, fun _ => rfl⟩
  unfold pin_left unwritten
  constructor
  · intro heq
    have hv : x.vaddr = vm_start := by
      rw [← heq]
      exact loc_left_vaddr
    subst hv
    exact ⟨rfl, hloc.mp heq⟩
  · rintro ⟨rfl, hrest⟩
    exact hloc.mpr hrest

theorem loc_left_ref {n : Nat} : loc_left { x with ref := n } env = { loc_left x env with ref := n } := by
  unfold loc_left cpu_left cuda_left cpu_fields
  cases env.nvidia_p2p_get_pages with
  | error e => grind
  | ok table => grind

/-! ## While the registration is pinned -/

/-- The registrations and the contexts with their lists. -/
def State.registered (s : State) : Heap BafsMem × Heap BafsCtx := (s.mems, s.ctxs)

theorem silent_registered : Silent State.registered := by
  constructor <;> (try constructor) <;> intros <;> rfl

theorem quiet_registered : Quiet State.registered := silent_registered.toQuiet

/-- The registration `m` is `x`, and the contexts are `C`. -/
structure MemIs (m : MemId) (x : BafsMem) (C : Heap BafsCtx) (s : State) : Prop where
  mem : s.mems.get m = some x
  ctxs : s.ctxs = C

namespace MemIs

theorem keep {α : Type} {c : Drv α} (hx : MemIs m x C s) (hc : Preserves E c State.registered) :
    wp c E (fun _ t => MemIs m x C t) s := by
  refine wp_mono (hc s) fun _ t ht => ?_
  have hmems : t.mems = s.mems := congrArg Prod.fst ht
  have hctxs : t.ctxs = s.ctxs := congrArg Prod.snd ht
  exact ⟨hmems ▸ hx.mem, hctxs.trans hx.ctxs⟩

theorem upd {f : BafsMem → BafsMem} (hx : MemIs m x C s) :
    wp (mem_upd m f) E (fun _ t => MemIs m (f x) C t) s :=
  (wp_mem_upd hx.mem).mpr ⟨Heap.get_set_self hx.mem, hx.ctxs⟩

theorem clean {blk : BlockId} {pages : List PageId} (hx : MemIs m x C s) :
    wp (clean_page_table m blk pages) E
      (fun _ t => MemIs m { x with cpu_page_table := none } C t) s := by
  unfold clean_page_table
  refine (hx.keep (.each (fun p => free_page_quiet quiet_registered p) _)).bind fun _ s₁ hx₁ => ?_
  exact (hx₁.keep (kfree_quiet quiet_registered blk)).bind fun _ s₂ hx₂ => hx₂.upd

theorem delete {t : TableId} (hx : MemIs m x C s) :
    wp (delete_page_table m t) E
      (fun _ t => MemIs m { x with cuda_page_table := none } C t) s := by
  unfold delete_page_table
  exact (hx.keep (nvidia_p2p_put_pages_silent silent_registered t)).bind fun _ s₁ hx₁ => hx₁.upd

end MemIs

theorem pin_bafs_cpu_mem_leaves (hx : MemIs m x C s) : wp (pin_bafs_cpu_mem m vma env) E
    (fun r t => r.2 ≠ 0 → MemIs m (cpu_left x) C t) s := by
  unfold pin_bafs_cpu_mem
  refine hx.upd.bind fun _ s₁ hx₁ => ?_
  rw [wp_bind, wp_mem_at hx₁.mem]
  refine wp_ite (fun hal => ?_) fun hal => ?_
  · intro _
    unfold cpu_left
    rw [if_pos hal]
    exact hx₁
  have hleft : cpu_left x = cpu_fields x none := if_neg hal
  rw [hleft]
  refine (hx₁.keep (kzalloc_quiet quiet_registered env.kcalloc)).bind fun r s₂ hx₂ => ?_
  cases r with
  | none => exact hx₂.upd.bind fun _ s₃ hx₃ _ => hx₃
  | some blk =>
    refine (hx₂.keep (alloc_pages_quiet quiet_registered)).bind fun r s₃ hx₃ => ?_
    obtain ⟨pages, fail⟩ := r
    refine hx₃.upd.bind fun _ s₄ hx₄ => ?_
    cases fail with
    | some ret => exact hx₄.clean.bind fun _ s₅ hx₅ _ => hx₅
    | none =>
      refine (hx₄.keep (vm_map_pages_zero_quiet quiet_registered vma pages _)).bind
        fun r s₅ hx₅ => ?_
      obtain ⟨vma', ret⟩ := r
      refine wp_ite (fun _ => ?_) fun hret => fun hne => absurd rfl hne
      exact hx₅.clean.bind fun _ s₆ hx₆ _ => hx₆

theorem pin_bafs_cuda_mem_leaves (hx : MemIs m x C s) : wp (pin_bafs_cuda_mem m vma env)
    (fun _ => True) (fun r t => r.2 ≠ 0 → MemIs m (cuda_left x env) C t) s := by
  have hback : ∀ {y : BafsMem} {t : TableId} {ret : Int} {s : State}, MemIs m y C s →
      cuda_left x env = { y with cuda_page_table := none } →
      wp (do delete_page_table m t; pure (vma, ret)) (fun _ => True)
        (fun r t => r.2 ≠ 0 → MemIs m (cuda_left x env) C t) s := by
    intro y t ret s hy hleft
    rw [hleft]
    exact hy.delete.bind fun _ s₁ hy₁ _ => hy₁
  unfold pin_bafs_cuda_mem nvidia_p2p_get_pages
  cases hget : env.nvidia_p2p_get_pages with
  | error e =>
    intro _
    unfold cuda_left
    rw [hget]
    exact hx
  | ok table =>
  rw [wp_bind, wp_bind, wp_get, wp_bind, wp_modify]
  rw [wp_pure]
  refine (MemIs.upd (by exact ⟨hx.mem, hx.ctxs⟩)).bind fun _ s₁ hx₁ => ?_
  refine wp_ite (fun hver => ?_) fun hver => ?_
  · refine hback hx₁ ?_
    unfold cuda_left
    rw [hget]
    simp only [hver]
  have hver : table.version_compatible = true := Bool.eq_true_of_not_eq_false hver
  cases hsize : cuda_page_size table.page_size with
  | none =>
    refine hback hx₁ ?_
    unfold cuda_left
    rw [hget]
    simp only [hver, hsize]
  | some p =>
  obtain ⟨page_size, page_shift⟩ := p
  dsimp only
  refine hx₁.upd.bind fun _ s₂ hx₂ => ?_
  rw [wp_bind, wp_mem_at hx₂.mem]
  refine wp_ite (fun hal => ?_) fun hal => ?_
  · refine hback hx₂ ?_
    unfold cuda_left
    rw [hget]
    simp only [hver, hsize]
    exact if_pos hal
  refine hx₂.upd.bind fun _ s₃ hx₃ => ?_
  rw [wp_bind, wp_mem_at hx₃.mem]
  have hleft : cuda_left x env = 
      { x with
        cuda_page_table := none, page_size, page_shift, page_mask := mask_for page_size,
        n_pages := pages_for x.size page_size page_shift } := by
    unfold cuda_left
    rw [hget]
    simp only [hver, hsize]
    exact if_neg hal
  refine wp_ite (fun _ => hback hx₃ hleft) fun _ => ?_
  refine (hx₃.keep (remap_pages_quiet quiet_registered)).bind fun r s₄ hx₄ => ?_
  obtain ⟨w, fail⟩ := r
  cases fail with
  | some ret => exact hback hx₄ hleft
  | none => exact fun hne => absurd rfl hne

theorem pin_by_loc_leaves (hx : MemIs m x C s) : wp (pin_by_loc m x.loc vma env) (fun _ => True)
    (fun r t => r.2 ≠ 0 → MemIs m (loc_left x env) C t) s := by
  unfold pin_by_loc loc_left
  by_cases h0 : x.loc = BAFS_MEM_CPU
  · rw [if_pos h0, if_pos h0]
    exact pin_bafs_cpu_mem_leaves hx
  rw [if_neg h0, if_neg h0]
  by_cases h1 : x.loc = BAFS_MEM_CUDA
  · rw [if_pos h1, if_pos h1]
    exact pin_bafs_cuda_mem_leaves hx
  rw [if_neg h1, if_neg h1]
  exact fun _ => hx

theorem pin_bafs_mem_leaves {c : CtxId} (hs : At h v s) (hc : CtxHeld h v c)
    (hm : Selects v c vma.vm_pgoff m) (hx : s.mems.get m = some x) :
    wp (pin_bafs_mem vma c env) (fun _ => True)
      (fun r t => r.2 ≠ 0 → MemIs m (pin_left x vma.vm_start env) s.ctxs t) s := by
  obtain ⟨y, hy⟩ := hs.ctx_live hc
  have hpos := hs.wf.ctx.pos c y hy
  have hmpos := hs.wf.mem.pos m x hx
  unfold pin_bafs_mem
  rw [wp_bind, ctx_kref_get, wp_ctx_upd hy, wp_bind, wp_ctx_at (Heap.get_set_self hy), wp_bind,
    wp_put_ctx_kept (by exact Heap.get_set_self hy) (by show y.ref + 1 ≠ 1; omega)]
  have hl : pin_lookup { y with ref := y.ref + 1 } vma.vm_pgoff = some m := (hs.mem_xa_iff hy).mpr hm
  rw [hl]
  dsimp only
  rw [wp_bind, mem_kref_get, wp_mem_upd (by exact hx), wp_bind,
    wp_mem_upd (by exact Heap.get_set_self hx), wp_bind,
    wp_mem_at (by exact Heap.get_set_self (Heap.get_set_self hx))]
  refine (pin_by_loc_leaves (x := { x with ref := x.ref + 1, vaddr := vma.vm_start }) (C := s.ctxs)
    ⟨Heap.get_set_self (Heap.get_set_self hx), ?_⟩).bind fun r t hr => ?_
  · show (s.ctxs.set c { y with ref := y.ref + 1 }).set c { y with ref := y.ref + 1 - 1 } = s.ctxs
    rw [Heap.set_set, Nat.add_sub_cancel]
    exact Heap.set_self hy
  obtain ⟨vma', ret⟩ := r
  refine wp_ite (fun hret => ?_) fun _ => ?_
  · have ht := hr hret
    generalize hy' : loc_left _ env = y' at ht
    have href : y'.ref = x.ref + 1 := by
      rw [← hy', loc_left_ref (x := { x with vaddr := vma.vm_start })]
    have hput : { y' with ref := y'.ref - 1 } = pin_left x vma.vm_start env := by
      rw [href, ← hy', loc_left_ref (x := { x with vaddr := vma.vm_start })]
      exact (loc_left_ref (x := { x with vaddr := vma.vm_start }) (n := x.ref)).symm
    rw [wp_bind, wp_mem_put_kept ht.mem (by omega), hput]
    exact fun _ => ⟨Heap.get_set_self ht.mem, ht.ctxs⟩
  · exact wp.bind wp_true fun _ s₁ _ => wp.bind wp_true fun _ s₂ _ => fun hne => absurd rfl hne

/-! ## The claim -/

/-- The pin of the selected registration succeeds exactly if it can be pinned. -/
theorem MemPinOutcome.of_selects {c : CtxId} {r : Vma × Int} {t : State}
    (ho : MemPinOutcome h s.view c vma env r t) (hs : At h s.view s)
    (hm : Selects s.view c vma.vm_pgoff m)
    (hx : s.mems.get m = some x) : r.2 = 0 ↔ pinnable x vma env := by
  have hf : s.view.mems m = some x.fields := congrArg (Option.map BafsMem.fields) hx
  rcases ho with ⟨hno, -, -⟩ | ⟨n, f, hn, hnf, hcase⟩
  · exact absurd hm (hno m)
  obtain rfl := hs.selects_unique hn hm
  obtain rfl := Option.some.inj (hnf.symm.trans hf)
  rcases hcase with ⟨hpin, hr, -⟩ | ⟨hpin, hr, -⟩
  · exact ⟨fun _ => hpin, fun _ => hr⟩
  · exact ⟨fun h0 => absurd h0 (ne_of_lt hr), fun hp => absurd hp hpin⟩

/-- A pin that fails leaves the registration, and the contexts with their lists, as they were, exactly
if it succeeds or finds the fields as it leaves them. -/
theorem failed_pin_keeps (rs : List Request) : Always step (fun _ => True) (fun s =>
    ∀ i f mm a b vm_pgoff env m x, s.files.get i = some f → Selects s.view f.ctx vm_pgoff m →
      s.mems.get m = some x →
      (wp (pin_bafs_mem (new_vma mm a b vm_pgoff) f.ctx env) (fun _ => True)
          (fun r t => r.2 ≠ 0 → t.mems.get m = some x ∧ t.ctxs = s.ctxs) s ↔
        pinnable x (new_vma mm a b vm_pgoff) env ∨ unwritten x a env)) rs init := by
  refine always_of_inv (fun s hi i f mm a b vm_pgoff env m x hf hm hx => ?_) rs
  obtain ⟨h, hl, hs⟩ := hi.sane.at
  have hc : CtxHeld h s.view f.ctx := CtxHeld.of_file hl.nonneg (v := s.view) hf
  have hspec : wp (pin_bafs_mem (new_vma mm a b vm_pgoff) f.ctx env) (fun _ => False) _ s :=
    pin_bafs_mem_spec hs hl.nonneg hc rfl
  have hleft : wp (pin_bafs_mem (new_vma mm a b vm_pgoff) f.ctx env) _ _ s :=
    pin_bafs_mem_leaves hs hc hm hx
  have hboth := wp_and hspec hleft
  constructor
  · intro hkeep
    by_contra hnot
    obtain ⟨hpin, hun⟩ := not_or.mp hnot
    obtain ⟨r, t, ⟨hout, hl⟩, hk⟩ := wp_join hboth hkeep fun _ h _ => h
    have hne : r.2 ≠ 0 := fun hr => hpin ((hout.of_selects hs hm hx).mp hr)
    have heq : pin_left x a env = x := Option.some.inj ((hl hne).mem.symm.trans (hk hne).1)
    exact hun (pin_left_iff.mp heq)
  · intro hok
    refine wp_weaken (wp_mono hboth fun r t ⟨hout, hl⟩ hne => ?_) fun _ _ => trivial
    rcases hok with hpin | hun
    · exact absurd ((hout.of_selects hs hm hx).mpr hpin) hne
    · have heq : pin_left x a env = x := pin_left_iff.mpr hun
      exact ⟨heq ▸ (hl hne).mem, (hl hne).ctxs⟩

/-- A registration of one page, not pinned. -/
def one_registration : List Request :=
  [.bind 0 0x100000 4096, .open_ctrl 0 a_task granted_open,
    .reg_mem 0 BAFS_CTRL_IOC_REG_MEM 4096 BAFS_MEM_CPU]

/-- There is no memory for the page table. -/
def no_page_table : PinEnv := { granted_mmap.pin with kcalloc := false }

/-- Whether the pin at the address 65536 fails and leaves the address in the registration. -/
def address_left (s : State) : Bool :=
  match s.files.get 0, s.mems.get 0 with
  | some f, some x =>
    match pin_bafs_mem (new_vma 1 0x10000 0x11000 1) f.ctx no_page_table s with
    | .ok (r, t) => decide (f.ctx = x.ctx ∧ x.mem_id = 0 ∧ x.vaddr = 0 ∧ r.2 = -ENOMEM ∧
        (t.mems.get 0).map BafsMem.vaddr = some 0x10000)
    | .error _ => false
  | _, _ => false

/-- The registration keeps the address at which it could not be pinned. -/
theorem failed_pin_leaves_address : ¬Always step (fun _ => True) (fun s =>
    ∀ i f mm a b vm_pgoff env m x, s.files.get i = some f → Selects s.view f.ctx vm_pgoff m →
      s.mems.get m = some x →
      wp (pin_bafs_mem (new_vma mm a b vm_pgoff) f.ctx env) (fun _ => True)
        (fun r t => r.2 ≠ 0 → t.mems.get m = some x ∧ t.ctxs = s.ctxs) s) one_registration init := by
  intro h
  obtain ⟨s, hkeep, hleft⟩ := h.of_ends (p := address_left) (by decide +kernel)
  unfold address_left at hleft
  cases hf : s.files.get 0 with
  | none =>
    rw [hf] at hleft
    cases hleft
  | some f =>
  cases hx : s.mems.get 0 with
  | none =>
    rw [hf, hx] at hleft
    cases hleft
  | some x =>
  rw [hf, hx] at hleft
  dsimp only at hleft
  cases hr : pin_bafs_mem (new_vma 1 0x10000 0x11000 1) f.ctx no_page_table s with
  | error e =>
    rw [hr] at hleft
    cases hleft
  | ok q =>
  rw [hr] at hleft
  obtain ⟨hctx, hid, hv, hret, ht⟩ := of_decide_eq_true hleft
  have hm : Selects s.view f.ctx 1 0 :=
    ⟨x.fields, congrArg (Option.map BafsMem.fields) hx, hctx.symm, hid⟩
  have hkept := wp_ok (hkeep 0 f 1 0x10000 0x11000 1 no_page_table 0 x hf hm hx) hr
    (by rw [hret]; decide)
  rw [hkept.1] at ht
  have hv' : x.vaddr = 0x10000 := Option.some.inj ht
  omega

end BafsDriver
