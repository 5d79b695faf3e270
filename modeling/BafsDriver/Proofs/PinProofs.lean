import BafsDriver.Proofs.MemProofs

/-!
# Pinning

When a pin succeeds, and what it leaves behind when it succeeds and when it fails.
-/

set_option linter.style.nameCheck false

namespace BafsDriver

open Prog

variable {h h' : Held Kind} {v : View} {s : State} {E : Fault → Prop}

/-! ## When a pin succeeds -/

/-- `pin_bafs_cpu_mem` succeeds for `size` bytes in the VMA. -/
def cpu_pinnable (size : Nat) (vma : Vma) (env : PinEnv) : Prop :=
  vma.vm_start &&& mask_for PAGE_SIZE = vma.vm_start ∧ env.kcalloc = true ∧
  (∀ i < pages_for size PAGE_SIZE PAGE_SHIFT, env.alloc_page i = true) ∧
  ¬(pages_for size PAGE_SIZE PAGE_SHIFT = 0 ∨
    pages_for size PAGE_SIZE PAGE_SHIFT < vma.vma_pages) ∧
  env.vm_map_pages_zero = none

/-- `pin_bafs_cuda_mem` succeeds for `size` bytes in the VMA. -/
def cuda_pinnable (size : Nat) (vma : Vma) (env : PinEnv) : Prop :=
  match env.nvidia_p2p_get_pages with
  | .error _ => False
  | .ok table =>
    table.version_compatible = true ∧
    match cuda_page_size table.page_size with
    | none => False
    | some (page_size, page_shift) =>
      vma.vm_start &&& mask_for page_size = vma.vm_start ∧
      pages_for size page_size page_shift = table.physical_address.length ∧
      ∀ i < pages_for size page_size page_shift, env.io_remap_pfn_range i = none ∧
        u64 (vma.vm_start + u64 (i * page_size)) + remap_len i page_size size ≤ 2 ^ 64

/-- The pin of the registration `x` in the VMA succeeds. -/
def pinnable (x : BafsMem) (vma : Vma) (env : PinEnv) : Prop :=
  if x.loc = BAFS_MEM_CPU then cpu_pinnable x.size vma env
  else if x.loc = BAFS_MEM_CUDA then cuda_pinnable x.size vma env
  else False

/-! ## What a pin leaves behind -/

/-- Two registrations agree in what a pin does not write. -/
structure SameReg (x x' : BafsMem) : Prop where
  ctx : x'.ctx = x.ctx
  mem_id : x'.mem_id = x.mem_id
  loc : x'.loc = x.loc
  size : x'.size = x.size
  state : x'.state = x.state
  vaddr : x'.vaddr = x.vaddr

/-- The ranges that map the pages of the CUDA registration `x` one after another. -/
def remaps_of (x : BafsMem) (physical_address : List Nat) (n : Nat) : List Remap :=
  (List.range n).map fun i => ⟨u64 (x.vaddr + u64 (i * x.page_size)),
    physical_address.getD i 0 >>> PAGE_SHIFT, remap_len i x.page_size x.size, none⟩

/-- The VMA shows the page table of the registration from its first page on. -/
def shows_table (w : Vma) (x : BafsMem) (T : Heap P2pPageTable) : Prop :=
  (x.loc = BAFS_MEM_CPU → ∃ p, x.cpu_page_table = some p ∧ w.pages = p.2.take w.vma_pages) ∧
  (x.loc = BAFS_MEM_CUDA → ∃ t e, x.cuda_page_table = some t ∧ T.get t = some e ∧
    e.pages.physical_address.length = x.n_pages ∧
    w.remaps = remaps_of x e.pages.physical_address x.n_pages)

/-- A pin of CPU memory sets the page size, and from it the number of pages. -/
def cpu_sized (x : BafsMem) : Prop := x.loc = BAFS_MEM_CPU →
  x.page_size = PAGE_SIZE ∧ x.n_pages = pages_for x.size PAGE_SIZE PAGE_SHIFT

/-- A pin of CUDA memory takes over the page size of the page table, and sets the number of pages from
it. -/
def cuda_sized (x : BafsMem) : Prop := x.loc = BAFS_MEM_CUDA →
  (∃ p, cuda_page_size p = some (x.page_size, x.page_shift)) ∧
    x.n_pages = pages_for x.size x.page_size x.page_shift

/-- What a successful pin of `m` in the VMA `w` makes of its fields and of the page tables. -/
structure Pinned (m : MemId) (x x' : BafsMem) (T T' : Heap P2pPageTable) (w : Vma) : Prop where
  same : SameReg x x'
  fits : table_fits x'
  sized : cpu_sized x'
  cuda_sized : cuda_sized x'
  shows : shows_table w x' T'
  table : (x.loc = BAFS_MEM_CPU ∧ (∃ p, x'.cpu_page_table = some p ∧ p.2.length = x'.n_pages) ∧
      x'.cuda_page_table = x.cuda_page_table ∧ T' = T) ∨
    (x.loc = BAFS_MEM_CUDA ∧ x'.cpu_page_table = x.cpu_page_table ∧
      x'.cuda_page_table = some T.next ∧ ∃ pages, T' = T.alloc ⟨pages, m, true⟩)

/-- What a failed pin of `m` makes of its fields and of the page tables. -/
structure Unpinned (m : MemId) (x x' : BafsMem) (T T' : Heap P2pPageTable) : Prop where
  same : SameReg x x'
  fits : table_fits x → table_fits x'
  sized : cpu_sized x'
  cpu : x'.cpu_page_table = x.cpu_page_table ∨ x'.cpu_page_table = none
  cuda : x'.cuda_page_table = x.cuda_page_table ∨ x'.cuda_page_table = none
  tables : T' = T ∨ ∃ pages, T' = unpinned (T.alloc ⟨pages, m, true⟩) T.next

/-- The VMA after a pin: it is at its place, and no BAR is mapped in it. -/
def PinnedVma (vma w : Vma) : Prop :=
  ∃ pages remaps, w = { vma with pages, remaps } ∧ ∀ r ∈ remaps, r.bar = none

/-- The outcome of a pin of `m` with the fields `f`: it succeeds exactly if `ok`. -/
def PinOutcome (h : Held Kind) (v : View) (m : MemId) (f : BafsMem) (ok : Prop) (vma : Vma)
    (r : Vma × Int) (s' : State) : Prop :=
  (ok ∧ r.2 = 0 ∧ PinnedVma vma r.1 ∧ ∃ f' T', Pinned m f f' v.tables T' r.1 ∧
      At h ({ v with tables := T' }.set_mem m f') s') ∨
    (¬ok ∧ r.2 < 0 ∧ ∃ f' T', Unpinned m f f' v.tables T' ∧
      At h ({ v with tables := T' }.set_mem m f') s')

@[simp] theorem View.set_mem_self {m : MemId} {f : BafsMem} : (v.set_mem m f).mems m = some f :=
  Function.update_self ..

@[simp] theorem View.set_mem_set_mem {m : MemId} {f f' : BafsMem} :
    (v.set_mem m f).set_mem m f' = v.set_mem m f' := by
  unfold set_mem
  rw [Function.update_idem]

theorem View.set_mem_eq {m : MemId} {f : BafsMem} (hm : v.mems m = some f) : v.set_mem m f = v := by
  unfold set_mem
  rw [Function.update_eq_self_iff.mpr hm.symm]

/-! ## Memory of the host -/

theorem alloc_pages_quiet {γ : Type} {g : State → γ} (hg : Quiet g) {ok : Nat → Bool} {n : Nat} :
    Preserves E (alloc_pages ok n) g := by
  refine .iterate (fun i pages => .bind (alloc_page_quiet hg _) fun r => ?_) _ _
  cases r with
  | none => exact .pure _
  | some p => exact .pure _

theorem alloc_pages_spec (hs : At h v s) (ok : Nat → Bool) (n : Nat) :
    wp (alloc_pages ok n) E (fun r s' => At h v s' ∧
      match r.2 with
      | none => r.1.length = n ∧ ∀ i < n, ok i = true
      | some ret => ret < 0 ∧ ∃ i < n, ok i = false) s := by
  unfold alloc_pages
  refine wp_iterate_range (fun k pages s => At h v s ∧ pages.length = k ∧ ∀ i < k, ok i = true)
    (fun k pages s₁ hk hinv => ?_) (fun pages s₁ hinv => hinv) ⟨hs, rfl, fun i hi => by omega⟩
  obtain ⟨hs₁, hl, hok⟩ := hinv
  rw [wp_bind]
  unfold alloc_page
  rw [wp_bind, wp_get]
  cases hki : ok k with
  | false =>
    refine ⟨hs₁, (by decide : -ENOMEM < 0), k, hk, hki⟩
  | true =>
    refine ⟨hs₁.of_eq rfl rfl, by rw [List.length_append, hl]; rfl, fun i hi => ?_⟩
    rcases Nat.lt_succ_iff_lt_or_eq.mp hi with hlt | rfl
    · exact hok i hlt
    · exact hki

theorem vm_map_pages_zero_spec (hs : At h v s) (vma : Vma) (pages : List PageId)
    (fail : Option Errno) :
    wp (vm_map_pages_zero vma pages fail) E (fun r s' => At h v s' ∧
      ((r.2 = 0 ∧ (¬(pages.length = 0 ∨ pages.length < vma.vma_pages) ∧ fail = none) ∧
          r.1 = { vma with pages := pages.take vma.vma_pages }) ∨
        (r.2 ≠ 0 ∧ ¬(¬(pages.length = 0 ∨ pages.length < vma.vma_pages) ∧ fail = none)))) s := by
  unfold vm_map_pages_zero
  refine (hs.keep (emit_quiet quiet_at _)).bind fun _ s₁ hs₁ => ?_
  refine wp_ite (fun hl => ?_) fun hl => ?_
  · exact ⟨hs₁, .inr ⟨(by decide : - ENXIO ≠ 0), fun hp => hp.1 hl⟩⟩
  · cases fail with
    | some e => exact ⟨hs₁, .inr ⟨ne_of_lt e.ret_neg, fun hp => by cases hp.2⟩⟩
    | none => exact ⟨hs₁, .inl ⟨rfl, ⟨hl, rfl⟩, rfl⟩⟩

theorem clean_page_table_spec {m : MemId} {f : BafsMem} (hs : At h v s) (hm : v.mems m = some f)
    (blk : BlockId) (pages : List PageId) :
    wp (clean_page_table m blk pages) E
      (fun _ s' => At h (v.set_mem m { f with cpu_page_table := none }) s') s := by
  unfold clean_page_table
  refine (hs.keep (Preserves.each (free_page_quiet quiet_at) _)).bind fun _ s₁ hs₁ => ?_
  refine (hs₁.keep (kfree_quiet quiet_at _)).bind fun _ s₂ hs₂ => ?_
  exact mem_upd_spec hs₂ hm

/-- The fields of a registration of CPU memory that a pin has written. -/
def cpu_fields (f : BafsMem) (cpu_page_table : Option (BlockId × List PageId)) : BafsMem :=
  { f with
    page_size := PAGE_SIZE
    page_shift := PAGE_SHIFT
    n_pages := pages_for f.size PAGE_SIZE PAGE_SHIFT
    page_mask := mask_for PAGE_SIZE
    cpu_page_table }

theorem pin_bafs_cpu_mem_spec {m : MemId} {f : BafsMem} {vma : Vma} {env : PinEnv}
    (hs : At h v s) (hm : v.mems m = some f) (hloc : f.loc = BAFS_MEM_CPU)
    (hva : f.vaddr = vma.vm_start) (hre : vma.remaps = []) :
    wp (pin_bafs_cpu_mem m vma env) E
      (PinOutcome h v m f (cpu_pinnable f.size vma env) vma) s := by
  unfold pin_bafs_cpu_mem
  refine (mem_upd_spec hs hm).bind fun _ s₁ hs₁ => ?_
  refine (mem_at_spec hs₁ View.set_mem_self).bind fun x s₂ hx => ?_
  obtain ⟨hxf, -, hs₂⟩ := hx
  have hxv : x.vaddr = vma.vm_start := (congrArg BafsMem.vaddr hxf).trans hva
  have hxm : x.page_mask = mask_for PAGE_SIZE := congrArg BafsMem.page_mask hxf
  have hxn : x.n_pages = pages_for f.size PAGE_SIZE PAGE_SHIFT := congrArg BafsMem.n_pages hxf
  rw [hxv, hxm, hxn]
  have hsame : ∀ o, SameReg f (cpu_fields f o) := fun o => ⟨rfl, rfl, rfl, rfl, rfl, rfl⟩
  have hnone : table_fits (cpu_fields f none) := fun _ p hp => by cases hp
  have hsized : ∀ o, cpu_sized (cpu_fields f o) := fun o _ => ⟨rfl, rfl⟩
  refine wp_ite (fun h1 => ?_) fun h1 => ?_
  · refine .inr ⟨fun hp => h1 hp.1, (by decide : -EINVAL < 0), _, v.tables,
      ⟨hsame f.cpu_page_table, fun ht _ p hp => ?_, hsized _, .inl rfl, .inl rfl, .inl rfl⟩, hs₂⟩
    obtain ⟨hl, hn⟩ := ht hloc p hp
    exact ⟨hl.trans hn, rfl⟩
  refine (kzalloc_spec hs₂ env.kcalloc).bind fun blk s₃ hs₃ => ?_
  obtain ⟨h2, hs₃⟩ := hs₃
  cases blk with
  | none =>
    refine (mem_upd_spec hs₃ View.set_mem_self).bind fun _ s₄ hs₄ => ?_
    rw [View.set_mem_set_mem] at hs₄
    refine .inr ⟨fun hp => ?_, (by decide : -ENOMEM < 0), _, v.tables,
      ⟨hsame none, fun _ => hnone, hsized _, .inr rfl, .inl rfl, .inl rfl⟩, hs₄⟩
    rw [hp.2.1] at h2
    cases h2
  | some blk =>
    refine (alloc_pages_spec hs₃ env.alloc_page _).bind fun r s₄ hr => ?_
    obtain ⟨pages, fail⟩ := r
    obtain ⟨hs₄, hr⟩ := hr
    refine (mem_upd_spec hs₄ View.set_mem_self).bind fun _ s₅ hs₅ => ?_
    rw [View.set_mem_set_mem] at hs₅
    cases fail with
    | some ret =>
      obtain ⟨hret, i, hi, hf⟩ := hr
      refine (clean_page_table_spec hs₅ View.set_mem_self _ pages).bind fun _ s₆ hs₆ => ?_
      rw [View.set_mem_set_mem] at hs₆
      refine .inr ⟨fun hp => ?_, hret, _, v.tables,
        ⟨hsame none, fun _ => hnone, hsized _, .inr rfl, .inl rfl, .inl rfl⟩, hs₆⟩
      rw [hp.2.2.1 i hi] at hf
      cases hf
    | none =>
      obtain ⟨hlen, hok⟩ := hr
      refine (vm_map_pages_zero_spec hs₅ vma pages env.vm_map_pages_zero).bind fun r s₆ hr => ?_
      obtain ⟨vma', ret⟩ := r
      obtain ⟨hs₆, hr⟩ := hr
      rw [hlen] at hr
      refine wp_ite (fun hret => ?_) fun hret => ?_
      · refine (clean_page_table_spec hs₆ View.set_mem_self _ pages).bind fun _ s₇ hs₇ => ?_
        rw [View.set_mem_set_mem] at hs₇
        refine .inr ⟨fun hp => ?_, (by decide : -ENOMEM < 0), _, v.tables,
          ⟨hsame none, fun _ => hnone, hsized _, .inr rfl, .inl rfl, .inl rfl⟩, hs₇⟩
        rcases hr with hr | hr
        · exact hret hr.1
        · exact hr.2 ⟨hp.2.2.2.1, hp.2.2.2.2⟩
      · rcases hr with hr | hr
        · refine .inl ⟨⟨not_not.mp h1, h2, hok, hr.2.1.1, hr.2.1.2⟩, rfl,
            ⟨pages.take vma.vma_pages, [], ?_, fun r hr => by cases hr⟩, _, v.tables,
            ⟨hsame (some (blk, pages)), fun _ p hp => ?_, hsized _,
              fun hcuda => absurd (hloc.symm.trans hcuda) (by decide),
              ⟨fun _ => ⟨_, rfl, ?_⟩, fun hcuda => ?_⟩,
              .inl ⟨hloc, ⟨_, rfl, hlen⟩, rfl, rfl⟩⟩, hs₆⟩
          · rw [hr.2.2, ← hre]
          · obtain rfl := Option.some.inj hp
            exact ⟨hlen, rfl⟩
          · rw [hr.2.2]
            rfl
          · exact absurd (hloc.symm.trans hcuda) (by decide)
        · exact absurd hr.1 hret

/-! ## Memory of the device -/

theorem io_remap_pfn_range_spec (hs : At h v s) (vma : Vma) (addr pfn size : Nat)
    (bar : Option CtrlId) (fail : Option Errno) :
    wp (io_remap_pfn_range vma addr pfn size bar fail) E (fun r s' => At h v s' ∧
      ((r.2 = 0 ∧ (fail = none ∧ addr + size ≤ 2 ^ 64) ∧
          r.1 = { vma with remaps := vma.remaps ++ [⟨addr, pfn, size, bar⟩] }) ∨
        (r.2 < 0 ∧ ¬(fail = none ∧ addr + size ≤ 2 ^ 64) ∧ r.1 = vma))) s := by
  unfold io_remap_pfn_range
  refine (hs.keep (emit_quiet quiet_at _)).bind fun _ s₁ hs₁ => ?_
  cases fail with
  | some e => exact ⟨hs₁, .inr ⟨e.ret_neg, (fun hp => by cases hp.1), rfl⟩⟩
  | none =>
    refine wp_ite (fun hl => ?_) fun hl => ?_
    · exact ⟨hs₁, .inr ⟨(by decide : -EINVAL < 0), fun hp => by omega, rfl⟩⟩
    · exact ⟨hs₁, .inl ⟨rfl, ⟨rfl, by omega⟩, rfl⟩⟩

theorem remap_pages_quiet {γ : Type} {g : State → γ} (hg : Quiet g) {x : BafsMem}
    {pages : List Nat} {fail : Nat → Option Errno} {w : Vma} :
    Preserves (fun _ => True) (remap_pages x pages fail w) g := by
  refine .iterate (fun i w => ?_) _ _
  cases pages[i]? with
  | none => exact .throw trivial
  | some phys => exact .bind (io_remap_pfn_range_quiet hg _ _ _ _ _ _) fun r => .pure _

/-- The call of the loop that maps CUDA pages for page `i` succeeds. -/
def remap_ok (vaddr page_size size : Nat) (fail : Nat → Option Errno) (i : Nat) : Prop :=
  fail i = none ∧ u64 (vaddr + u64 (i * page_size)) + remap_len i page_size size ≤ 2 ^ 64

theorem remap_pages_spec (hs : At h v s) (x : BafsMem) (pages : List Nat)
    (fail : Nat → Option Errno) (vma : Vma) (hlen : x.n_pages = pages.length)
    (hre : vma.remaps = []) :
    wp (remap_pages x pages fail vma) E (fun r s' => At h v s' ∧
      match r.2 with
      | none => r.1 = { vma with remaps := remaps_of x pages x.n_pages } ∧
        ∀ i < x.n_pages, remap_ok x.vaddr x.page_size x.size fail i
      | some ret => ret < 0 ∧ ∃ i < x.n_pages, ¬remap_ok x.vaddr x.page_size x.size fail i) s := by
  unfold remap_pages
  refine wp_iterate_range (fun k w s => At h v s ∧ w = { vma with remaps := remaps_of x pages k } ∧
      ∀ i < k, remap_ok x.vaddr x.page_size x.size fail i)
    (fun k w s₁ hk hinv => ?_) (fun w s₁ hinv => hinv)
    ⟨hs, by rw [show remaps_of x pages 0 = vma.remaps from hre.symm], fun i hi => by omega⟩
  obtain ⟨hs₁, rfl, hok⟩ := hinv
  rw [List.getElem?_eq_getElem (by omega)]
  refine (io_remap_pfn_range_spec hs₁ _ _ _ _ _ _).bind fun r s₂ hr => ?_
  obtain ⟨w', ret⟩ := r
  obtain ⟨hs₂, ⟨hret, hko, hw⟩ | ⟨hret, hko, -⟩⟩ := hr
  · have hret : ret = 0 := hret
    rw [wp_pure, if_neg (not_not.mpr hret)]
    refine ⟨hs₂, hw.trans ?_, fun i hi => ?_⟩
    · have hlt : k < pages.length := by omega
      simp [remaps_of, List.range_succ, hlt]
    · rcases Nat.lt_succ_iff_lt_or_eq.mp hi with hlt | rfl
      · exact hok i hlt
      · exact hko
  · have hret : ret < 0 := hret
    rw [wp_pure, if_pos (by omega)]
    exact ⟨hs₂, hret, k, hk, hko⟩

theorem delete_page_table_spec {m : MemId} {f : BafsMem} (hs : At h v s) (hm : v.mems m = some f)
    (t : TableId) :
    wp (delete_page_table m t) E (fun _ s' => At h
      ({ v with tables := unpinned v.tables t }.set_mem m { f with cuda_page_table := none }) s') s := by
  unfold delete_page_table nvidia_p2p_put_pages emit unpin
  rw [wp_bind, wp_bind, wp_modify, wp_modify]
  have hs₁ : At h { v with tables := unpinned v.tables t } { s with
      trace := .nvidia_p2p_put_pages t :: s.trace, tables := unpinned s.tables t } := by
    refine ⟨hs.wf.of_objects rfl, ?_⟩
    rw [← hs.view]
    rfl
  exact mem_upd_spec hs₁ hm

theorem pin_bafs_cuda_mem_spec {m : MemId} {f : BafsMem} {vma : Vma} {env : PinEnv}
    (hs : At h v s) (hm : v.mems m = some f) (hloc : f.loc = BAFS_MEM_CUDA)
    (hva : f.vaddr = vma.vm_start) (hre : vma.remaps = []) :
    wp (pin_bafs_cuda_mem m vma env) E
      (PinOutcome h v m f (cuda_pinnable f.size vma env) vma) s := by
  unfold pin_bafs_cuda_mem cuda_pinnable nvidia_p2p_get_pages
  cases env.nvidia_p2p_get_pages with
  | error e =>
    refine .inr ⟨id, e.ret_neg, f, v.tables, ⟨⟨rfl, rfl, rfl, rfl, rfl, rfl⟩, id,
      fun hcpu => absurd (hcpu.symm.trans hloc) (by decide), .inl rfl, .inl rfl, .inl rfl⟩, ?_⟩
    exact (View.set_mem_eq hm).symm ▸ hs
  | ok table =>
    dsimp only
    rw [wp_bind, wp_bind, wp_get, wp_bind, wp_modify, wp_pure]
    have hnext : s.tables.next = v.tables.next := congrArg (fun u : View => u.tables.next) hs.view
    have hs₁ : At h { v with tables := v.tables.alloc ⟨table, m, true⟩ }
        { s with tables := s.tables.alloc ⟨table, m, true⟩ } := by
      refine ⟨hs.wf.of_objects rfl, ?_⟩
      rw [← hs.view]
      rfl
    rw [hnext]
    refine (mem_upd_spec hs₁ hm).bind fun _ s₂ hs₂ => ?_
    have hcuda : ∀ P : Prop, f.loc = BAFS_MEM_CPU → P := fun P hcpu =>
      absurd (hcpu.symm.trans hloc) (by decide)
    -- the paths to `out_delete_page_table`
    have hfail : ∀ (ok : Prop) (f₁ : BafsMem) (s₁ : State) (ret : Int),
        At h ({ v with tables := v.tables.alloc ⟨table, m, true⟩ }.set_mem m f₁) s₁ →
        ¬ok → ret < 0 → SameReg f f₁ → f₁.cpu_page_table = f.cpu_page_table →
        wp (do delete_page_table m v.tables.next; pure (vma, ret)) E (PinOutcome h v m f ok vma) s₁ := by
      intro ok f₁ s₁ ret hs₁ hok hret hsame hcpu
      refine (delete_page_table_spec hs₁ View.set_mem_self _).bind fun _ s₂ hs₂ => ?_
      refine .inr ⟨hok, hret, { f₁ with cuda_page_table := none }, _,
        ⟨⟨hsame.1, hsame.2, hsame.3, hsame.4, hsame.5, hsame.6⟩,
          fun _ hcpu => hcuda _ (hsame.3.symm.trans hcpu), fun hcpu => hcuda _ (hsame.3.symm.trans hcpu),
          .inl hcpu, .inr rfl, .inr ⟨table, rfl⟩⟩, ?_⟩
      rw [← View.set_mem_set_mem (f := f₁)]
      exact hs₂
    refine wp_ite (fun h1 => ?_) fun h1 => ?_
    · refine hfail _ _ _ _ hs₂ (fun hp => ?_) (by decide) ⟨rfl, rfl, rfl, rfl, rfl, rfl⟩ rfl
      rw [hp.1] at h1
      cases h1
    have h1 : table.version_compatible = true := by simpa using h1
    cases hgran : cuda_page_size table.page_size with
    | none =>
      exact hfail _ _ _ _ hs₂ (fun hp => hp.2) (by decide) ⟨rfl, rfl, rfl, rfl, rfl, rfl⟩ rfl
    | some p =>
      obtain ⟨page_size, page_shift⟩ := p
      refine (mem_upd_spec hs₂ View.set_mem_self).bind fun _ s₃ hs₃ => ?_
      rw [View.set_mem_set_mem] at hs₃
      refine (mem_at_spec hs₃ View.set_mem_self).bind fun x s₄ hx => ?_
      obtain ⟨hxf, -, hs₄⟩ := hx
      have hxv : x.vaddr = vma.vm_start := (congrArg BafsMem.vaddr hxf).trans hva
      have hxm : x.page_mask = mask_for page_size := congrArg BafsMem.page_mask hxf
      rw [hxv, hxm]
      refine wp_ite (fun h2 => ?_) fun h2 => ?_
      · exact hfail _ _ _ _ hs₄ (fun hp => h2 hp.2.1) (by decide) ⟨rfl, rfl, rfl, rfl, rfl, rfl⟩ rfl
      refine (mem_upd_spec hs₄ View.set_mem_self).bind fun _ s₅ hs₅ => ?_
      rw [View.set_mem_set_mem] at hs₅
      refine (mem_at_spec hs₅ View.set_mem_self).bind fun x s₆ hx => ?_
      obtain ⟨hxf, -, hs₆⟩ := hx
      have hxv : x.vaddr = vma.vm_start := (congrArg BafsMem.vaddr hxf).trans hva
      have hxs : x.size = f.size := by
        show x.fields.size = f.size
        rw [hxf]
      have hxp : x.page_size = page_size := congrArg BafsMem.page_size hxf
      have hxn : x.n_pages = pages_for f.size page_size page_shift := congrArg BafsMem.n_pages hxf
      refine wp_ite (fun h3 => ?_) fun h3 => ?_
      · rw [hxn] at h3
        exact hfail _ _ _ _ hs₆ (fun hp => h3 hp.2.2.1) (by decide) ⟨rfl, rfl, rfl, rfl, rfl, rfl⟩ rfl
      refine (remap_pages_spec hs₆ x _ _ vma (not_not.mp h3) hre).bind fun r s₇ hr => ?_
      obtain ⟨w, fail⟩ := r
      obtain ⟨hs₇, hr⟩ := hr
      rw [hxv, hxs, hxp, hxn] at hr
      rw [hxn] at h3
      cases fail with
      | some ret =>
        obtain ⟨hret, i, hi, hno⟩ := hr
        exact hfail _ _ _ _ hs₇ (fun hp => hno (hp.2.2.2 i hi)) hret
          ⟨rfl, rfl, rfl, rfl, rfl, rfl⟩ rfl
      | none =>
        obtain ⟨hw, hr⟩ := hr
        have hremaps : remaps_of x table.physical_address (pages_for f.size page_size page_shift) =
            remaps_of { f with page_size } table.physical_address
              (pages_for f.size page_size page_shift) := by
          unfold remaps_of
          rw [hxv, hxs, hxp, ← hva]
        refine .inl ⟨⟨h1, not_not.mp h2, not_not.mp h3, hr⟩, rfl,
          ⟨vma.pages, _, hw, fun q hq => ?_⟩,
          { f with
            cuda_page_table := some v.tables.next, page_size, page_shift
            page_mask := mask_for page_size, n_pages := pages_for f.size page_size page_shift },
          _, ⟨⟨rfl, rfl, rfl, rfl, rfl, rfl⟩, fun hcpu => hcuda _ hcpu, fun hcpu => hcuda _ hcpu,
            fun _ => ⟨⟨_, hgran⟩, rfl⟩,
            ⟨fun hcpu => hcuda _ hcpu, fun _ => ⟨v.tables.next, ⟨table, m, true⟩, rfl, ?_,
              (not_not.mp h3).symm, ?_⟩⟩,
            .inr ⟨hloc, rfl, rfl, table, rfl⟩⟩, hs₇⟩
        · obtain ⟨i, -, rfl⟩ := List.mem_map.mp hq
          rfl
        · rw [Heap.get_alloc, if_pos rfl]
        · rw [hw, hremaps]
          rfl

/-! ## Pinning by handle -/

/-- The pin of `m`, with the fields `f'` and the page tables `T'` that it leaves, has succeeded. -/
def View.pin_mem (v : View) (m : MemId) (f' : BafsMem) (T' : Heap P2pPageTable) : View :=
  ({ v with tables := T' }.set_mem m f').set_state m f' .LIVE

/-- The VMA of a registration that has been pinned. -/
def MemVma (vma : Vma) (m : MemId) (w : Vma) : Prop :=
  ∃ u, PinnedVma vma u ∧ w = { u with vm_ops := some .bafs_mem_ops, vm_private_data := some m }

/-- The page offset is the handle of the registration `m` of the context `c`. -/
def Selects (v : View) (c : CtxId) (vm_pgoff : Nat) (m : MemId) : Prop :=
  ∃ f, v.mems m = some f ∧ f.ctx = c ∧ f.mem_id = pin_id vm_pgoff

/-- The outcome of a pin through the context `c`. -/
def MemPinOutcome (h : Held Kind) (v : View) (c : CtxId) (vma : Vma) (env : PinEnv)
    (r : Vma × Int) (s' : State) : Prop :=
  ((∀ m, ¬Selects v c vma.vm_pgoff m) ∧ r.2 < 0 ∧ At h v s') ∨
    ∃ m f, Selects v c vma.vm_pgoff m ∧ v.mems m = some f ∧
      ((pinnable f vma env ∧ r.2 = 0 ∧ MemVma vma m r.1 ∧
          ∃ f' T', Pinned m { f with vaddr := vma.vm_start } f' v.tables T' r.1 ∧
            At h (v.pin_mem m f' T') s') ∨
        (¬pinnable f vma env ∧ r.2 < 0 ∧
          ∃ f' T', Unpinned m { f with vaddr := vma.vm_start } f' v.tables T' ∧
            At h ({ v with tables := T' }.set_mem m f') s'))

theorem PinOutcome.of_set {m : MemId} {f f₀ : BafsMem} {ok : Prop} {vma : Vma} {r : Vma × Int}
    (ho : PinOutcome h (v.set_mem m f₀) m f ok vma r s) : PinOutcome h v m f ok vma r s := by
  have he : ∀ T f', ({ v.set_mem m f₀ with tables := T } : View).set_mem m f' =
      ({ v with tables := T } : View).set_mem m f' := fun T f' => by
    unfold View.set_mem
    simp only [Function.update_idem]
  unfold PinOutcome at ho ⊢
  simp only [he] at ho
  exact ho

theorem pin_by_loc_spec {m : MemId} {f : BafsMem} {w : Vma} {env : PinEnv} (hs : At h v s)
    (hm : v.mems m = some f) (hva : f.vaddr = w.vm_start) (hre : w.remaps = []) :
    wp (pin_by_loc m f.loc w env) E (PinOutcome h v m f (pinnable f w env) w) s := by
  unfold pin_by_loc pinnable
  by_cases h0 : f.loc = BAFS_MEM_CPU
  · rw [if_pos h0, if_pos h0]
    exact pin_bafs_cpu_mem_spec hs hm h0 hva hre
  rw [if_neg h0, if_neg h0]
  by_cases h1 : f.loc = BAFS_MEM_CUDA
  · rw [if_pos h1, if_pos h1]
    exact pin_bafs_cuda_mem_spec hs hm h1 hva hre
  rw [if_neg h1, if_neg h1]
  refine .inr ⟨id, (by decide : -EINVAL < 0), f, v.tables,
    ⟨⟨rfl, rfl, rfl, rfl, rfl, rfl⟩, id, fun hcpu => absurd hcpu h0, .inl rfl, .inl rfl, .inl rfl⟩, ?_⟩
  exact (View.set_mem_eq hm).symm ▸ hs

theorem pin_bafs_mem_spec {vma : Vma} {c : CtxId} {env : PinEnv} (hs : At h v s)
    (hh : NonNeg h) (hc : CtxHeld h v c) (hre : vma.remaps = []) :
    wp (pin_bafs_mem vma c env) E (MemPinOutcome h v c vma env) s := by
  obtain ⟨y, hy⟩ := hs.ctx_live hc
  have hsel : ∀ m, pin_lookup y vma.vm_pgoff = some m ↔ Selects v c vma.vm_pgoff m := fun m =>
    hs.mem_xa_iff hy
  unfold pin_bafs_mem
  rw [wp_bind, ctx_kref_get, wp_ctx_upd hy, wp_bind, wp_ctx_at (Heap.get_set_self hy)]
  refine (bafs_put_ctx_spec (hs.ctx_get hy) hh).bind fun _ s₁ hs₁ => ?_
  have hl : pin_lookup { y with ref := y.ref + 1 } vma.vm_pgoff = pin_lookup y vma.vm_pgoff := rfl
  rw [hl]
  cases hm : pin_lookup y vma.vm_pgoff with
  | none =>
    refine .inl ⟨fun m hm' => ?_, (by decide : -EINVAL < 0), hs₁⟩
    rw [(hsel m).mpr hm'] at hm
    cases hm
  | some m =>
    obtain ⟨-, x, hx, -⟩ := hs.wf.tables.stored c y _ m hy hm
    have hf := hs.mem_view hx
    have hm := (hsel m).mp hm
    refine (mem_kref_get_spec hs₁ hf).bind fun _ s₂ hs₂ => ?_
    refine (mem_upd_spec hs₂ hf).bind fun _ s₃ hs₃ => ?_
    refine (mem_at_spec hs₃ View.set_mem_self).bind fun x' s₄ hx' => ?_
    obtain ⟨hxf, -, hs₄⟩ := hx'
    have hloc : x'.loc = x.loc := by
      show x'.fields.loc = x.loc
      rw [hxf]
      rfl
    rw [hloc]
    refine (pin_by_loc_spec (w := vma) hs₄ View.set_mem_self rfl hre).bind fun r s₅ hr => ?_
    obtain ⟨vma', ret⟩ := r
    obtain ⟨hok, hret, hw, f', T', hp, hs₅⟩ | ⟨hok, hret, f', T', hp, hs₅⟩ := hr.of_set
    · have hret : ret = 0 := hret
      dsimp only
      rw [if_neg (not_not.mpr hret)]
      refine (set_state_spec hs₅ View.set_mem_self .LIVE).bind fun _ s₆ hs₆ => ?_
      refine (bafs_mem_put_spec hs₆ hh View.set_mem_self).bind fun _ s₇ hs₇ => ?_
      exact .inr ⟨m, _, hm, hf, .inl ⟨hok, rfl, ⟨vma', hw, rfl⟩, f', T',
        ⟨hp.same, hp.fits, hp.sized, hp.cuda_sized, hp.shows, hp.table⟩, hs₇⟩⟩
    · have hret : ret < 0 := hret
      dsimp only
      rw [if_pos (ne_of_lt hret)]
      refine (bafs_mem_put_spec hs₅ hh View.set_mem_self).bind fun _ s₆ hs₆ => ?_
      exact .inr ⟨m, _, hm, hf, .inr ⟨hok, hret, f', T', hp, hs₆⟩⟩

end BafsDriver
