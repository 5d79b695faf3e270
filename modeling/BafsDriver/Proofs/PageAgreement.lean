import BafsDriver.Proofs.Chunks
import BafsDriver.Proofs.DmaOrigin
import BafsDriver.Proofs.ReleaseConvention

/-!
# The pages of the user and the pages of the device

The pin and the DMA map walk the same page table, the one for the VMA and the other for the device.
What they show is the same page at the same offset: between the pin and the close the registration
keeps its page table, its page size and its address, and no DMA mapping is older than the page table.
-/

set_option linter.style.nameCheck false

namespace BafsDriver

open Prog

variable {h h' : Held Kind} {v v' : View} {s s' t : State} {r : Request} {E : Fault → Prop}
  {M M' : MemId → Option BafsMem} {m : MemId} {d : DmaId} {w : Vma} {x : BafsMem} {y : BafsMemDma}

/-! ## The claim -/

/-- An entry of a page table. -/
inductive Entry where
  /-- A page of the host. -/
  | page (p : PageId)
  /-- Entry `k` of a page table of the NVIDIA driver, with its physical address. -/
  | gpu (t : TableId) (k physical_address : Nat)
  deriving DecidableEq

/-- Entry `k` of a page table of the NVIDIA driver. -/
def gpu_entry (s : State) (t : TableId) (k : Nat) : Option Entry :=
  (s.tables.get t).bind fun e => e.pages.physical_address[k]?.map (Entry.gpu t k)

/-- Entry `k` of the page table of the registration. -/
def page_entry (s : State) (x : BafsMem) (k : Nat) : Option Entry :=
  if x.loc = BAFS_MEM_CPU then x.cpu_page_table.bind fun p => p.2[k]?.map .page
  else if x.loc = BAFS_MEM_CUDA then x.cuda_page_table.bind fun t => gpu_entry s t k
  else none

/-- The number of addresses that the DMA mapping holds. -/
def n_addrs (s : State) (y : BafsMemDma) : Nat :=
  match y.cuda_mapping with
  | none => y.addrs.elim 0 fun a => a.2.length
  | some p => (s.mappings.get p).elim 0 fun q => q.dma_addresses.length

/-- What address `k` of the DMA mapping was made for: the page that `dma_map_single` got, or entry `k` of
the page table that `nvidia_p2p_dma_map_pages` got. -/
def made_for (s : State) (y : BafsMemDma) (k : Nat) : Option Entry :=
  match y.cuda_mapping with
  | none => y.pages[k]?.map .page
  | some p => (s.mappings.get p).bind fun q => gpu_entry s q.page_table k

/-- The page frames that the ranges of the VMA map a user address to. -/
def Vma.pfns_at (w : Vma) (addr : Nat) : List Nat :=
  (w.remaps.filter fun q => q.addr ≤ addr ∧ addr < q.addr + q.size).map fun q =>
    q.pfn + (addr - q.addr) >>> PAGE_SHIFT

/-- The VMA shows the entry at an offset: the page of the host is the one there, or the page frame of the
device is the only one. -/
def Entry.shown (w : Vma) (off : Nat) : Entry → Prop
  | .page p => w.pages[off >>> PAGE_SHIFT]? = some p
  | .gpu _ _ a => w.pfns_at (w.vm_start + off) = [a >>> PAGE_SHIFT]

/-- Every handle is mapped while its registration is `STALE`, and VMAs are left whole and in place. -/
def mmaps_stale (s : State) : Request → Prop
  | .mmap f _ _ _ pgoff _ => ∀ x m y, s.files.get f = some x → ¬maps_bars x pgoff →
    Selects s.view x.ctx pgoff m → s.mems.get m = some y → y.state = .STALE
  | .split .. | .move .. => False
  | _ => True

/-! ## What a VMA shows -/

/-- The VMA starts at the address of the registration, which has been pinned in it. -/
structure PinnedAt (T : Heap P2pPageTable) (w : Vma) (x : BafsMem) : Prop where
  vaddr : x.vaddr = w.vm_start
  aligned : PAGE_SIZE ∣ w.vm_start ∧ PAGE_SIZE ∣ w.vm_end ∧ w.vm_end < 2 ^ 64
  cpu_sized : cpu_sized x
  cuda_sized : cuda_sized x
  shows : shows_table w x T

theorem filter_eq_range {n k : Nat} (hk : k < n) : ((List.range n).filter fun i => i = k) = [k] := by
  have hcount : (List.range n).count k = 1 :=
    List.count_eq_one_of_mem List.nodup_range (List.mem_range.mpr hk)
  have hfilter : (List.range n).filter (fun i => i == k) = [k] := by
    rw [List.filter_beq, hcount]
    rfl
  exact hfilter

/-- The ranges of a pin do not meet, so that each address is in one of them. -/
theorem PinnedAt.pfns {T : Heap P2pPageTable} {l : List Nat} {k : Nat} (hp : PinnedAt T w x)
    (hloc : x.loc = BAFS_MEM_CUDA) (hsize : x.size < 2 ^ 32)
    (hw : w.remaps = remaps_of x l x.n_pages) (hk : k < x.n_pages)
    (hin : k * x.page_size < w.vm_end - w.vm_start) :
    w.pfns_at (w.vm_start + k * x.page_size) = [l.getD k 0 >>> PAGE_SHIFT] := by
  obtain ⟨hgran, hn⟩ := hp.cuda_sized hloc
  have ha : accepted x.page_size x.page_shift := .inr hgran
  obtain ⟨hpow, hle⟩ := accepted_eq ha
  have hpos := accepted_pos ha
  have hend := hp.aligned.2.2
  have hlt : ∀ i < x.n_pages, i * x.page_size < x.size := fun i hi =>
    page_lt hpow hle hsize (hn ▸ hi)
  -- the first `PAGE_SIZE` bytes of range `i` hold the address exactly if `i` is `k`
  have hcovers : ∀ i ∈ List.range x.n_pages,
      decide (u64 (x.vaddr + u64 (i * x.page_size)) ≤ w.vm_start + k * x.page_size ∧
        w.vm_start + k * x.page_size < u64 (x.vaddr + u64 (i * x.page_size)) +
          remap_len i x.page_size x.size) = decide (i = k) := by
    intro i hi
    have hi := hlt i (List.mem_range.mp hi)
    have hkk := hlt k hk
    rw [remap_len_eq hle hsize hi, hp.vaddr]
    refine decide_eq_decide.mpr ?_
    have hu : u64 (i * x.page_size) = i * x.page_size := Nat.mod_eq_of_lt (by omega)
    rw [hu]
    unfold u64
    rcases Nat.lt_trichotomy i k with hik | rfl | hik
    · have hstep : (i + 1) * x.page_size ≤ k * x.page_size := Nat.mul_le_mul_right _ hik
      rw [Nat.add_mul, Nat.one_mul] at hstep
      omega
    · omega
    · have hstep : (k + 1) * x.page_size ≤ i * x.page_size := Nat.mul_le_mul_right _ hik
      rw [Nat.add_mul, Nat.one_mul] at hstep
      omega
  unfold Vma.pfns_at
  rw [hw, remaps_of, List.filter_map, List.map_map]
  refine (congrArg (List.map _) ((List.filter_congr hcovers).trans (filter_eq_range hk))).trans ?_
  have hkk := hlt k hk
  have hu : u64 (x.vaddr + u64 (k * x.page_size)) = w.vm_start + k * x.page_size := by
    rw [hp.vaddr]
    unfold u64
    omega
  simp [hu]

/-- The pages of the host stand in the VMA in their order. -/
theorem PinnedAt.pages {T : Heap P2pPageTable} {p : BlockId × List PageId} {k : Nat} (hp : PinnedAt T w x)
    (hloc : x.loc = BAFS_MEM_CPU) (ht : x.cpu_page_table = some p)
    (hin : k * x.page_size < w.vm_end - w.vm_start) :
    w.pages[(k * x.page_size) >>> PAGE_SHIFT]? = p.2[k]? := by
  obtain ⟨p', ht', hw⟩ := hp.shows.1 hloc
  obtain rfl := Option.some.inj (ht.symm.trans ht')
  obtain ⟨hgran, -⟩ := hp.cpu_sized hloc
  obtain ⟨⟨a, ha⟩, ⟨b, hb⟩, -⟩ := hp.aligned
  rw [hgran] at hin ⊢
  have hoff : (k * PAGE_SIZE) >>> PAGE_SHIFT = k := by
    unfold PAGE_SIZE PAGE_SHIFT
    rw [Nat.shiftRight_eq_div_pow]
    omega
  have hlt : k < w.vma_pages := by
    unfold Vma.vma_pages
    rw [ha, hb] at hin ⊢
    unfold PAGE_SIZE PAGE_SHIFT at *
    rw [Nat.shiftRight_eq_div_pow]
    omega
  rw [hoff, hw, List.getElem?_take_of_lt hlt]

/-! ## What a DMA mapping was made from -/

/-- The DMA mapping `y` was made from the page table that its registration `x` has, where it has one;
`P` gives the mappings of the NVIDIA driver. -/
structure MadeFrom (P : Heap P2pDmaMapping) (x : BafsMem) (y : BafsMemDma) : Prop where
  length : (y.addrs.elim 0 fun a => a.2.length) = y.pages.length
  cpu : y.pages = [] ∨ x.loc = BAFS_MEM_CPU ∧ ∃ p, x.cpu_page_table = some p ∧ y.pages = p.2
  stale : x.state = .STALE → y.cuda_mapping = none
  live : x.state = .LIVE → ∀ p, y.cuda_mapping = some p → x.loc = BAFS_MEM_CUDA ∧
    ∃ q, P.get p = some q ∧ x.cuda_page_table = some q.page_table

/-- At every offset of the VMA where the DMA mapping has an address, this was made for the page that the
VMA shows there. -/
theorem PinnedAt.agree {k : Nat} (hp : PinnedAt s.tables w x) (hy : MadeFrom s.mappings x y)
    (hst : x.state = .LIVE) (hsize : x.size < 2 ^ 32) (hk : k < n_addrs s y)
    (hin : k * x.page_size < w.vm_end - w.vm_start)
    (hstands : y.cuda_mapping.isSome → (made_for s y k).isSome) :
    ∃ e, page_entry s x k = some e ∧ made_for s y k = some e ∧ e.shown w (k * x.page_size) := by
  unfold n_addrs at hk
  unfold made_for at hstands ⊢
  cases hmap : y.cuda_mapping with
  | none =>
    simp only [hmap, hy.length] at hk
    have hne : y.pages ≠ [] := List.ne_nil_of_length_pos (Nat.zero_lt_of_lt hk)
    obtain ⟨hloc, p, ht, hpages⟩ := hy.cpu.resolve_left hne
    rw [hpages] at hk
    have hget : p.2[k]? = some p.2[k] := List.getElem?_eq_getElem hk
    refine ⟨.page p.2[k], ?_, ?_, (hp.pages hloc ht hin).trans hget⟩
    · rw [page_entry, if_pos hloc, ht, Option.bind_some, hget]
      rfl
    · simp only [hpages, hget]
      rfl
  | some p =>
    obtain ⟨hloc, q, hq, htable⟩ := hy.live hst p hmap
    obtain ⟨t, e, ht, he, hlen, hw⟩ := hp.shows.2 hloc
    obtain rfl : t = q.page_table := Option.some.inj (ht.symm.trans htable)
    have hstands := hstands (by rw [hmap]; rfl)
    simp only [hmap, hq, Option.bind_some] at hstands ⊢
    rw [gpu_entry, he, Option.bind_some, Option.isSome_map] at hstands
    obtain ⟨a, ha⟩ := Option.isSome_iff_exists.mp hstands
    have hlt : k < x.n_pages := hlen ▸ (List.getElem?_eq_some_iff.mp ha).1
    have hentry : gpu_entry s q.page_table k = some (.gpu q.page_table k a) := by
      rw [gpu_entry, he, Option.bind_some, ha]
      rfl
    refine ⟨_, ?_, hentry, ?_⟩
    · rw [page_entry, if_neg (by rw [hloc]; decide), if_pos hloc, ht]
      exact hentry
    · have hpfns := hp.pfns hloc hsize hw hlt hin
      rw [List.getD_eq_getElem?_getD, ha] at hpfns
      exact hpfns

/-- Every DMA mapping was made from the page table of its registration; `M` gives the registrations. -/
def TableMade (M : MemId → Option BafsMem) (s : State) : Prop :=
  ∀ d y x, s.dmas.get d = some y → M y.mem = some x → MadeFrom s.mappings x y

theorem TableMade.of_eq (hm : TableMade M s) (he : (t.dmas, t.mappings) = (s.dmas, s.mappings)) :
    TableMade M t := by
  obtain ⟨hd, hp⟩ := Prod.mk.inj he
  unfold TableMade
  rw [hd, hp]
  exact hm

/-- A registration and a mapping that were there before stay as they are. -/
theorem MadeFrom.alloc {P : Heap P2pDmaMapping} {q : P2pDmaMapping} (hy : MadeFrom P x y) :
    MadeFrom (P.alloc q) x y := by
  refine ⟨hy.length, hy.cpu, hy.stale, fun hst p hp => ?_⟩
  obtain ⟨hloc, q', hq, ht⟩ := hy.live hst p hp
  exact ⟨hloc, q', Heap.get_alloc_of_get hq, ht⟩

theorem given_pages (answer : Nat → Option Nat) (ht : has_table x)
    (hlen : ∀ p, x.cpu_page_table = some p → p.2.length = x.n_pages) :
    (given x answer x.n_pages).map (·.2) = [] ∨
      ∃ p, x.cpu_page_table = some p ∧ (given x answer x.n_pages).map (·.2) = p.2 := by
  rcases ht with ht | hz
  · obtain ⟨p, hp⟩ := Option.isSome_iff_exists.mp ht
    refine .inr ⟨p, hp, List.ext_getElem ?_ fun i hi hi' => ?_⟩
    · simp [given, hlen p hp]
    · simp [given, BafsMem.table, hp, hi']
  · left
    unfold given
    rw [hz]
    rfl

/-- A mapping that is refused makes nothing, and one that is granted is made from the page table. -/
theorem MapResult.made_for {c : CtrlId} {k : BafsCtrl} {n user id : Nat} {env : DmaMapEnv}
    {ret : Int × Nat × Option DmaId} (hr : MapResult s c m x k n user id env ret t)
    (hx : M m = some x.fields) (hfits : table_fits x)
    (hbare : x.state = .STALE → x.cuda_page_table = none) (hM : TableMade M s) : TableMade M t := by
  have hadd : ∀ {z : BafsMemDma}, z.mem = m → MadeFrom t.mappings x.fields z →
      (∀ d y f, s.dmas.get d = some y → M y.mem = some f → MadeFrom t.mappings f y) →
      t.dmas = s.dmas.alloc z → TableMade M t := by
    intro z hz hnew hold hd d y f hy hf
    rw [hd] at hy
    obtain ⟨-, rfl⟩ | hy := Heap.get_alloc_cases hy
    · rw [hz, hx] at hf
      obtain rfl := Option.some.inj hf
      exact hnew
    · exact hold d y f hy hf
  cases hr with
  | refused | cut_short | cpu_not_copied => exact hM.of_eq rfl
  | cuda_not_copied =>
    intro d y f hy hf
    exact (hM d y f hy hf).alloc
  | cpu_mapped hloc hg =>
    have htable : has_table x := by
      unfold granted_addrs at hg
      rw [if_pos hloc] at hg
      split at hg
      · cases hg
      · split at hg
        · rename_i hall
          exact hall.2.1
        · cases hg
    refine hadd (z := cpu_dma s c m x env) rfl ⟨?_, ?_, fun _ => rfl, fun _ p hp => ?_⟩ hM rfl
    · simp [cpu_dma]
    · rcases given_pages env.dma_map_single htable (fun p hp => (hfits hloc p hp).1) with
        hnil | ⟨p, hp, hpages⟩
      · exact .inl hnil
      · exact .inr ⟨hloc, p, hp, hpages⟩
    · cases hp
  | @cuda_mapped addrs tab hloc ht =>
    refine hadd (z := cuda_dma s c m) rfl ⟨rfl, .inl rfl, fun hst => ?_, fun _ p hp => ?_⟩
      (fun d y f hy hf => (hM d y f hy hf).alloc) rfl
    · cases ht.symm.trans (hbare hst)
    · obtain rfl := Option.some.inj hp
      refine ⟨hloc, ⟨tab, c, addrs⟩, ?_, ht⟩
      show (s.mappings.alloc _).get s.mappings.next = _
      rw [Heap.get_alloc, if_pos rfl]

/-! ## Mappings are taken back -/

/-- What was made from the page tables in the first state was so in the second. -/
def Thins (s t : State) : Prop := ∀ M, TableMade M s → TableMade M t

instance : IsPreorder State Thins where
  refl _ _ hM := hM
  trans _ _ _ h h' M hM := h' M (h M hM)

theorem Thins.of_adds {α : Type} {A : Event → Prop} {c : Drv α} (hc : Adds A c)
    (hA : frees_none A) : Evolves Thins c :=
  Evolves.mono hc fun _ _ hg _ hM => hM.of_eq (hg.still hA)

theorem Thins.of_quiet {α : Type} {c : Drv α} (hc : Adds no_call c) : Evolves Thins c :=
  Thins.of_adds hc fun _ he => he

theorem Thins.load {α : Type} {g : State → Heap α} {e : Fault} {i : Nat} : Evolves Thins (load g e i) :=
  Thins.of_quiet Adds.load

theorem unmap_dma_thins {d : DmaId} : Evolves Thins (unmap_dma d) := by
  have hundo : ∀ y x, Evolves Thins (undo_mapping y x) := fun y x s =>
    wp_mono undo_mapping_exact fun _ t ht M hM => by
      subst ht
      exact hM.of_eq rfl
  have hfree : Evolves Thins (modify fun s => { s with dmas := s.dmas.free d } : Drv Unit) := by
    refine Evolves.modify fun s M hM e y x hy hx => ?_
    exact hM e y x (Heap.get_of_free hy).2 hx
  exact .bind Thins.load fun y => .bind Thins.load fun x =>
    .bind (Thins.of_quiet mem_upd_adds) fun _ => .bind (hundo y x) fun _ => .bind hfree fun _ =>
      .bind (Thins.of_quiet kfree_adds) fun _ => Thins.of_quiet bafs_ctrl_release_adds

theorem bafs_ctrl_dma_unmap_mem_thins {d : DmaId} : Evolves Thins (bafs_ctrl_dma_unmap_mem d) :=
  .bind Thins.load fun _ => .bind unmap_dma_thins fun _ => Thins.of_adds bafs_mem_put_adds (fun _ he => he)

theorem unmap_mems_thins {ds : List DmaId} {blk : BlockId} : Evolves Thins (unmap_mems ds blk) :=
  .bind (.each (fun _ => bafs_ctrl_dma_unmap_mem_thins) _) fun _ => Thins.of_quiet kfree_adds

theorem close_vma_thins : Evolves Thins (close_vma w) := by
  unfold close_vma
  cases w.vm_ops with
  | none => exact .pure _
  | some o =>
    cases o
    show Evolves Thins (bafs_mem_release w)
    unfold bafs_mem_release
    cases w.vm_private_data with
    | none => exact .pure _
    | some m =>
      exact .bind Thins.load fun x => .bind (Thins.of_quiet ctx_kref_get_adds) fun _ =>
        .bind (.each (fun d => .bind unmap_dma_thins fun _ => Thins.of_adds bafs_mem_put_adds (fun _ he => he)) _) fun _ =>
          .bind (Thins.of_adds bafs_mem_put_adds (fun _ he => he)) fun _ => Thins.of_quiet bafs_put_ctx_adds

/-- A DMA mapping whose mapping of the NVIDIA driver is taken away. -/
theorem MadeFrom.revoked {P : Heap P2pDmaMapping} (hy : MadeFrom P x y) :
    MadeFrom P x { y with cuda_mapping := none } :=
  ⟨hy.length, hy.cpu, fun _ => rfl, fun _ p hp => by cases hp⟩

theorem release_bafs_cuda_mem_thins : Evolves Thins (release_bafs_cuda_mem m) := by
  refine .bind Thins.load fun x => .ite (.bind (.each (fun d => ?_) _) fun _ => ?_) (.pure _)
  · intro s
    rw [wp_bind]
    refine wp_load_of (fun _ => trivial) fun y hy => ?_
    cases hp : y.cuda_mapping with
    | none => exact fun M hM => hM
    | some p =>
      dsimp only
      rw [wp_bind, emit, wp_modify, wp_modify]
      intro M hM e z f hz hf
      obtain ⟨-, rfl⟩ | ⟨-, hz⟩ := Heap.get_set_cases (by exact hy) hz
      · exact (hM d y f hy hf).revoked
      · exact hM e z f hz hf
  · exact .bind (Thins.of_quiet set_state_adds) fun _ =>
      .bind (Thins.of_adds (A := table_call) (emit_adds trivial) (fun _ he => he)) fun _ => Thins.of_quiet mem_upd_adds

/-! ## DMA-map requests -/

/-- What a DMA map relies on: page tables are as long as they should be, and none is older than the pin. -/
structure Mappable (v : View) : Prop where
  fits : ∀ m f, v.mems m = some f → table_fits f
  bare : ∀ m f, v.mems m = some f → f.state = .STALE → f.cuda_page_table = none

section Map

variable {ctx : CtxId} {c : CtrlId} {argp vaddr : Nat} {params : BAFS_IOC_DMA_MAP_MEM_PARAMS}

theorem bafs_ctrl_dma_map_mem_made {n user id : Nat} {env : DmaMapEnv} (hs : At h v s) (hh : NonNeg h)
    (hx : CtxHeld h v ctx) (hc : CtrlHeld h v c) (hv : Mappable v) (hM : TableMade v.mems s) :
    wp (bafs_ctrl_dma_map_mem c ctx vaddr n user id env) (fun _ => True)
      (fun _ t => TableMade v.mems t) s := by
  obtain ⟨y, hy⟩ := hs.ctx_live hx
  obtain ⟨k, hk⟩ := hs.ctrl_live hh hc
  by_cases hm : ∃ m, Found v ctx vaddr m
  · obtain ⟨m, hm⟩ := hm
    obtain ⟨f, hf, -⟩ := hm.1
    obtain ⟨x, hxm, rfl⟩ := hs.mem_live hf
    have hfits := hv.fits m x.fields hf
    refine wp_mono (bafs_ctrl_dma_map_mem_exact hs hy hk hm hxm hfits fun _ _ => trivial) fun r t hr => ?_
    exact hr.made_for hf hfits (hv.bare m x.fields hf) hM
  · refine wp_mono (bafs_ctrl_dma_map_mem_none hs hy (not_exists.mp hm)) fun r t hr => ?_
    obtain ⟨-, rfl⟩ := hr
    exact hM

theorem __bafs_ctrl_dma_map_mem_made {env : CtrlDmaMapEnv} (hs : At h v s) (hh : NonNeg h)
    (hx : CtxHeld h v ctx) (hc : CtrlHeld h v c) (hv : Mappable v) (hM : TableMade v.mems s) :
    wp (__bafs_ctrl_dma_map_mem argp params c ctx env) (fun _ => True)
      (fun _ t => TableMade v.mems t) s := by
  unfold __bafs_ctrl_dma_map_mem
  refine wp_ite (fun _ => hM) fun _ => (bafs_ctrl_dma_map_mem_made hs hh hx hc hv hM).bind fun r t hM => ?_
  obtain ⟨ret, n, d⟩ := r
  have hrest : Evolves Thins (do
      let left ← copy_to_user env.copy_to_user argp .params [params.vaddr, params.dma_addrs, n]
      if left ≠ 0 then do
        bafs_ctrl_dma_unmap_mem (d.getD 0)
        pure (-EFAULT)
      else pure ret) :=
    .bind (Thins.of_adds (copy_to_user_adds (A := plain_call) fun _ => trivial) (fun _ he => he)) fun left =>
      .ite (.bind bafs_ctrl_dma_unmap_mem_thins fun _ => .pure _) (.pure _)
  cases d with
  | none => exact hM
  | some d => exact wp_mono (hrest t) fun _ u hu => hu _ hM

theorem group_map_loop_made {dma_addrs n : Nat} {env : Nat → DmaMapEnv} {ctrls : List CtrlId}
    (hs : At h v s) (hh : NonNeg h) (hx : CtxHeld h v ctx) (hc : ∀ c ∈ ctrls, CtrlHeld h v c)
    (hv : Mappable v) (hM : TableMade v.mems s) :
    wp (group_map_loop ctx vaddr dma_addrs env ctrls.zipIdx ⟨n, 0, []⟩) (fun _ => True)
      (fun _ t => TableMade v.mems t) s := by
  unfold group_map_loop
  refine wp_iterate_zipIdx (fun _ _ t => TableMade v.mems t ∧ ∃ D, At h { v with dmas := D } t)
    (fun i c acc t hci hinv => ?_) (fun acc t hinv => hinv.1) ⟨hM, v.dmas, hs⟩
  obtain ⟨hM, D, ht⟩ := hinv
  have hheld : CtrlHeld h v c := hc c (List.mem_of_getElem? hci)
  have hmade : ∀ n user id env, wp (bafs_ctrl_dma_map_mem c ctx vaddr n user id env) (fun _ => True)
      (fun _ u => TableMade v.mems u) t := fun _ _ _ _ =>
    bafs_ctrl_dma_map_mem_made (v := { v with dmas := D }) ht hh hx hheld ⟨hv.fits, hv.bare⟩ hM
  refine (wp_and (hmade _ _ _ _) (bafs_ctrl_dma_map_mem_spec (E := fun _ => True) ht hh hx hheld
    (fun _ _ _ _ _ => trivial) fun _ _ _ _ _ => trivial)).bind fun r u hr => ?_
  obtain ⟨hM, hspec⟩ := hr
  obtain ⟨ret, n', d⟩ := r
  obtain ⟨-, hd, hu⟩ | ⟨m, d, -, -, hd, -, hu⟩ := hspec
  · obtain rfl : _ = none := hd
    exact hM
  · obtain rfl : _ = some d := hd
    exact ⟨hM, _, hu⟩

theorem bafs_group_dma_map_mem_made {g : GroupId} {env : GroupDmaMapEnv} (hs : At h v s) (hh : NonNeg h)
    (hx : CtxHeld h v ctx) (hv : Mappable v) (hM : TableMade v.mems s) :
    wp (bafs_group_dma_map_mem argp params g ctx env) (fun _ => True)
      (fun _ t => TableMade v.mems t) s := by
  unfold bafs_group_dma_map_mem
  refine wp_ite (fun _ => hM) fun _ => ?_
  rw [wp_bind]
  refine wp_load_of (fun _ => trivial) fun x hgx => ?_
  have hc : ∀ c ∈ x.ctrls, CtrlHeld h v c := fun c hc => .inr ⟨g, x.ctrls, hs.group_view hgx, hc⟩
  refine (wp_and (kzalloc_spec hs env.kzalloc) (Thins.of_quiet kzalloc_adds s)).bind
    fun b s₁ hs₁ => ?_
  obtain ⟨⟨-, hs₁⟩, hg₁⟩ := hs₁
  cases b with
  | none => exact hg₁ _ hM
  | some blk =>
    refine (group_map_loop_made hs₁ hh hx hc hv (hg₁ _ hM)).bind fun r t hM => ?_
    obtain ⟨acc, fail⟩ := r
    have hback : ∀ ret : Int, Evolves Thins (do unmap_mems acc.dmas blk; pure ret) := fun ret =>
      .bind unmap_mems_thins fun _ => .pure _
    have hrest : Evolves Thins (do
        let left ← copy_to_user env.copy_to_user argp .params
          [params.vaddr, params.dma_addrs, acc.n_dma_addrs]
        if left ≠ 0 then do
          unmap_mems acc.dmas blk
          pure (-EFAULT)
        else pure 0) :=
      .bind (Thins.of_adds (copy_to_user_adds (A := plain_call) fun _ => trivial) (fun _ he => he)) fun left =>
        .ite (hback _) (.pure _)
    cases fail with
    | some ret => exact wp_mono (hback ret t) fun _ u hu => hu _ hM
    | none => exact wp_mono (hrest t) fun _ u hu => hu _ hM

end Map

/-- A DMA-map request makes its mappings from the page tables there are. -/
theorem ioctl_dma_map_made {i : FileId} {cmd : Nat} {f : File} {arg : IoctlArg} {env : IoctlEnv}
    (hs : At h v s) (hh : NonNeg h) (hi : v.files.get i = some f) (hcmd : dma_map_cmd f = some cmd)
    (hv : Mappable v) (hM : TableMade v.mems s) :
    wp (ioctl_file f cmd arg env) (fun _ => True) (fun _ t => TableMade v.mems t) s := by
  refine wp_mono (ioctl_dma_map (Q := fun _ t => TableMade v.mems t) hs hh hi hcmd
    (fun _ s₁ s₂ hg hM => hM.of_eq (hg.still fun _ he => he)) fun h₁ s₁ hs₁ hh₁ hx hc hg => ?_)
    fun r t hr => hr.choose_spec.2
  have hM₁ : TableMade v.mems s₁ := hM.of_eq (hg.still fun _ he => he)
  cases f with
  | core c => cases hcmd
  | ctrl y => exact __bafs_ctrl_dma_map_mem_made hs₁ hh₁ hx (hc _ (.of_file hh hi)) hv hM₁
  | group y => exact bafs_group_dma_map_mem_made hs₁ hh₁ hx hv hM₁

/-! ## Registrations and VMAs under the condition -/

theorem mmaps_stale.pin {f : FileId} {x : File} {mm a b pgoff : Nat} {env : MmapEnv} {g : BafsMem}
    (hk : mmaps_stale s (.mmap f mm a b pgoff env)) (hs : At h s.view s) (hx : s.files.get f = some x)
    (hbar : ¬maps_bars x pgoff) (hsel : Selects s.view x.ctx pgoff m) (hm : s.view.mems m = some g) :
    g.state = .STALE := by
  obtain ⟨y, hy, rfl⟩ := hs.mem_live hm
  exact hk x m y hx hbar hsel hy

/-- A registration that has been pinned stays as it is, until it is revoked or given up. -/
theorem Effect.steady {f f' : BafsMem} (he : Effect h s.view s r h' v') (hs : At h s.view s)
    (ht : Tidy s.view) (hk : mmaps_stale s r) (hf : s.view.mems m = some f) (hst : f.state ≠ .STALE)
    (hf' : v'.mems m = some f') :
    f' = f ∨ f' = { f with state := .DEAD_CB, cuda_page_table := none } := by
  have hsame : s.view.mems m = some f' → f' = f := fun h => Option.some.inj (h.symm.trans hf)
  have hother : ∀ {n : MemId} {g g' : BafsMem}, s.view.mems n = some g → g.state = .STALE →
      Function.update s.view.mems n (some g') m = some f' → f' = f := by
    intro n g g' hn hg hu
    refine hsame ?_
    rwa [Function.update_of_ne] at hu
    rintro rfl
    obtain rfl := Option.some.inj (hn.symm.trans hf)
    exact hst hg
  cases he with
  | close => exact .inl (hsame (sweep_ctx_some (regs_mems (View.close_file_regs s.view _ _ _) hf')).1)
  | ioctl hx hi =>
    cases hi with
    | reg_mem =>
      refine .inl (hsame ?_)
      have hne : m ≠ s.view.mem_next := Nat.ne_of_lt (hs.mem_lt hf)
      exact (Function.update_of_ne hne _ _).symm.trans hf'
    | create hx hcmd hc => exact .inl (hsame (regs_mems hc.regs hf'))
    | delete hx hcmd hd => exact .inl (hsame (regs_mems hd.regs hf'))
    | _ => exact .inl (hsame hf')
  | mmap hx hr hm =>
    cases hm with
    | bars_mapped => exact .inl (hsame hf')
    | pinned hbar hsel hm hok hw hpin =>
      have hstale := hk.pin hs hx hbar hsel hm
      have hf' : (s.view.pin_mem _ _ _).mems m = some f' := hf'
      rw [View.pin_mem_mems] at hf'
      exact .inl (hother hm hstale hf')
  | mmap_failed hx hr hm =>
    cases hm with
    | unpinned hbar hsel hm hno hpin => exact .inl (hother hm (hk.pin hs hx hbar hsel hm) hf')
    | _ => exact .inl (hsame hf')
  | munmap_mem hw hc hm => exact .inl (hsame (close_mem_some hf').2)
  | move_mem => exact hk.elim
  | @revoke t x g htab hp hm =>
    have halive : g.state ≠ .DEAD := ht.alive _ _ hm
    rw [View.revoke_mem_mems halive] at hf'
    by_cases hn : m = x.data
    · rw [hn, Function.update_self] at hf'
      rw [hn] at hf
      obtain rfl := Option.some.inj (hm.symm.trans hf)
      exact .inr (Option.some.inj hf').symm
    · rw [Function.update_of_ne hn] at hf'
      exact .inl (hsame hf')
  | _ => exact .inl (hsame hf')

/-- The registrations after a request have the page tables that their DMA mappings were made from. -/
theorem TableMade.after (hM : TableMade s.view.mems s') (he : Effect h s.view s r h' s'.view)
    (hs : At h s.view s) (ht : Tidy s.view) (hk : mmaps_stale s r)
    (hof : ∀ d y, s'.dmas.get d = some y → DmaOf s s'.view.mems d y) : TableMade s'.view.mems s' := by
  intro d y x hy hx
  cases hf : s.view.mems y.mem with
  | none =>
    -- only a new registration was not there before, and no DMA mapping points to it
    cases hof d y hy with
    | @kept y₀ hy₀ hsame =>
      have hmem : y.mem = y₀.mem := by rw [hsame]
      cases he.reg_of hx with
      | made hm => exact absurd (hmem.symm.trans hm) (hs.dma_reg_made hy₀)
      | kept hm | pinned hm | unpinned hm | revoked hm => cases hf.symm.trans hm
    | made _ hM' hf' =>
      rw [hM', hf] at hf'
      cases hf'
  | some f =>
    have hmade := hM d y f hy hf
    by_cases hst : f.state = .STALE
    · have hnone := hmade.stale hst
      have hpages : y.pages = [] := by
        rcases hmade.cpu with hnil | ⟨-, p, hp, -⟩
        · exact hnil
        · cases hp.symm.trans (ht.bare y.mem f hf hst)
      refine ⟨hmade.length, .inl hpages, fun _ => hnone, fun _ p hp => ?_⟩
      cases hnone.symm.trans hp
    · obtain rfl | rfl := he.steady hs ht hk hf hst hx
      · exact hmade
      · exact ⟨hmade.length, hmade.cpu, (fun hst => by cases hst), fun hst => by cases hst⟩

theorem Effect.cuda_bare (he : Effect h v s r h' v')
    (hb : ∀ m f, v.mems m = some f → f.state = .STALE → f.cuda_page_table = none) :
    ∀ m f, v'.mems m = some f → f.state = .STALE → f.cuda_page_table = none := by
  intro m f hf hst
  cases he.reg_of hf with
  | kept hm => exact hb m f hm hst
  | made hm => rfl
  | pinned hm hp => cases hst
  | @unpinned g _ a T' hm hp =>
    rcases hp.cuda with hc | hc
    · exact hc.trans (hb m g hm (hp.same.state.symm.trans hst))
    · exact hc
  | revoked hm => cases hst

theorem unpinned_pages {T : Heap P2pPageTable} {t u : TableId} {e : P2pPageTable} (ht : T.get t = some e) :
    ∃ e', (BafsDriver.unpinned T u).get t = some e' ∧ e'.pages = e.pages := by
  unfold BafsDriver.unpinned
  cases hu : T.get u with
  | none => exact ⟨e, ht, rfl⟩
  | some z =>
    dsimp only
    rw [Heap.get_set hu]
    by_cases htu : t = u
    · rw [if_pos htu]
      rw [htu] at ht
      obtain rfl := Option.some.inj (ht.symm.trans hu)
      exact ⟨_, rfl, rfl⟩
    · rw [if_neg htu]
      exact ⟨e, ht, rfl⟩

/-- A page table keeps its entries. -/
theorem Effect.table_pages {t : TableId} {e : P2pPageTable} (he : Effect h v s r h' v')
    (ht : v.tables.get t = some e) : ∃ e', v'.tables.get t = some e' ∧ e'.pages = e.pages := by
  have hsame : v'.tables = v.tables → ∃ e', v'.tables.get t = some e' ∧ e'.pages = e.pages :=
    fun he => ⟨e, he ▸ ht, rfl⟩
  have hregs : ∀ {u : View}, u.regs = v.regs → u.tables = v.tables := fun hr => congrArg (·.2.2.2.2.2.1) hr
  have hreleased : ∀ {f : BafsMem}, ∃ e', (released_tables v.tables f).get t = some e' ∧
      e'.pages = e.pages := by
    intro f
    unfold released_tables
    split
    · exact ⟨e, ht, rfl⟩
    · split
      · exact unpinned_pages ht
      · exact ⟨e, ht, rfl⟩
  cases he with
  | @close i x => exact hsame (congrArg (·.2.2.2.2.2.1) (View.close_file_regs v h i x))
  | ioctl hx hi =>
    cases hi with
    | create hx hcmd hc => exact hsame (hregs hc.regs)
    | delete hx hcmd hd => exact hsame (hregs hd.regs)
    | _ => exact hsame rfl
  | mmap hx hr hm =>
    cases hm with
    | bars_mapped => exact hsame rfl
    | pinned hbar hsel hm hok hw hpin =>
      rcases hpin.table with ⟨-, -, -, rfl⟩ | ⟨-, -, -, pages, rfl⟩
      · exact ⟨e, ht, rfl⟩
      · exact ⟨e, Heap.get_alloc_of_get ht, rfl⟩
  | mmap_failed hx hr hm =>
    cases hm with
    | unpinned hbar hsel hm hno hpin =>
      rcases hpin.tables with rfl | ⟨pages, rfl⟩
      · exact ⟨e, ht, rfl⟩
      · exact unpinned_pages (Heap.get_alloc_of_get ht)
    | _ => exact hsame rfl
  | munmap_mem => exact hreleased
  | move_mem => exact hreleased
  | @revoke u x f hu hp hm =>
    have htab : ({ v with tables := BafsDriver.unpinned v.tables u }.revoke_mem x.data f).tables =
        BafsDriver.unpinned v.tables u := by
      unfold View.revoke_mem
      split <;> rfl
    rw [htab]
    exact unpinned_pages ht
  | _ => exact hsame rfl

theorem PinnedAt.of_tables {T T' : Heap P2pPageTable} (hp : PinnedAt T w x)
    (hT : ∀ t e, T.get t = some e → ∃ e', T'.get t = some e' ∧ e'.pages = e.pages) : PinnedAt T' w x := by
  refine ⟨hp.vaddr, hp.aligned, hp.cpu_sized, hp.cuda_sized, hp.shows.1, fun hloc => ?_⟩
  obtain ⟨t, e, ht, he, hlen, hw⟩ := hp.shows.2 hloc
  obtain ⟨e', he', hpages⟩ := hT t e he
  exact ⟨t, e', ht, he', hpages.symm ▸ hlen, hpages.symm ▸ hw⟩

/-- Every live registration has been pinned in each VMA that leads to it. -/
def PinnedAll (v : View) : Prop := ∀ i w m x, v.vmas.get i = some w → w.vm_private_data = some m →
  v.mems m = some x → x.state = .LIVE → PinnedAt v.tables w x

theorem Mmap.pinned_at {f : File} {env : MmapEnv} {mm a b pgoff : Nat} (hr : range_free s mm a b)
    (hm : Mmap h v s f (BafsDriver.new_vma mm a b pgoff) env (some w) h' v') (hw : w.vm_private_data = some m)
    (hx : v'.mems m = some x) : PinnedAt v'.tables w x := by
  cases hm with
  | bars_mapped => cases hw
  | pinned hbar hsel hm hok hvma hpin =>
    obtain ⟨u, ⟨pages, remaps, rfl, -⟩, rfl⟩ := hvma
    obtain rfl := Option.some.inj hw
    rw [View.pin_mem_mems, Function.update_self] at hx
    obtain rfl := Option.some.inj hx
    obtain ⟨hlt, hend, ha, hb, -⟩ := hr
    exact ⟨hpin.same.vaddr, ⟨ha, hb, hend⟩, hpin.sized, hpin.cuda_sized, hpin.shows⟩

/-- The VMA and the registration stay as they were pinned. -/
theorem Effect.pinned_all (he : Effect h s.view s r h' v') (hs : At h s.view s) (ht : Tidy s.view)
    (hk : mmaps_stale s r) (hp : PinnedAll s.view) : PinnedAll v' := by
  intro i w m x hw hm hx hst
  have hold : s.view.vmas.get i = some w → PinnedAt v'.tables w x := by
    intro hw
    refine PinnedAt.of_tables ?_ fun t e hte => he.table_pages hte
    cases hf : s.view.mems m with
    | none =>
      cases he.reg_of hx with
      | made hmade => exact absurd (ht.vma_made i w m hw hm) (by rw [hmade]; exact lt_irrefl _)
      | kept hm | pinned hm | unpinned hm | revoked hm => cases hf.symm.trans hm
    | some f =>
      obtain rfl | rfl := he.steady hs ht hk hf (ht.pinned i w m f hw hm hf) hx
      · exact hp i w m x hw hm hf hst
      · cases hst
  cases he with
  | mmap hfile hr hmap =>
    obtain ⟨-, rfl⟩ | hw' := Heap.get_alloc_cases hw
    · have hnew := Mmap.pinned_at hr hmap hm (by exact hx)
      exact hnew
    · rw [hmap.vmas] at hw'
      exact hold hw'
  | mmap_failed hfile hr hmap =>
    rw [hmap.vmas] at hw
    exact hold hw
  | ioctl hfile hi =>
    rw [hi.vmas] at hw
    exact hold hw
  | @close j x hx hg =>
    rw [show (s.view.close_file h j x).vmas = s.view.vmas from
      congrArg (·.2.2.2.1) (View.close_file_regs s.view h j x)] at hw
    exact hold hw
  | split => exact hk.elim
  | move => exact hk.elim
  | move_mem => exact hk.elim
  | munmap => exact hold (Heap.get_of_free hw).2
  | munmap_mem => exact hold (Heap.get_of_free hw).2
  | revoke =>
    rw [View.revoke_mem_vmas] at hw
    exact hold hw
  | _ => exact hold hw

/-! ## Every run -/

/-- A request makes no DMA mapping but from the page tables there are. -/
theorem step_made (r : Request) (hi : Inv s) (hb : ∀ m f, s.view.mems m = some f → f.state = .STALE →
    f.cuda_page_table = none) (hM : TableMade s.view.mems s) :
    wp (step r) (fun _ => True) (fun _ s' => TableMade s.view.mems s') s := by
  obtain ⟨h, hlost, hs, -⟩ := step_inv r hi
  have hplain : ¬r.probes → r.plain s → wp (step r) (fun _ => True)
      (fun _ s' => TableMade s.view.mems s') s := fun hr hp =>
    wp_mono (step_plain_adds r s hr hp) fun _ s' hg => hM.of_eq (hg.still fun _ he => he)
  have hof : ∀ {c : Drv Reply}, Evolves Thins c →
      wp c (fun _ => True) (fun _ s' => TableMade s.view.mems s') s := fun hc =>
    wp_mono (hc s) fun _ s' ht => ht _ hM
  have hunmap : ∀ i w, Evolves Thins (unmap_vma i w) := fun i w =>
    .bind (Thins.of_quiet (Adds.modify fun _ => rfl)) fun _ => close_vma_thins
  cases r with
  | probe pdev env =>
    refine wp_mono (step_probe_numbers pdev env s) fun _ s' hs' => hM.of_eq ?_
    have hrec := hs'.1
    simp only [State.recorded, Prod.mk.injEq] at hrec
    exact Prod.ext hrec.2.2.1 hrec.2.2.2
  | ioctl i cmd arg env =>
    by_cases hm : ∃ x, s.files.get i = some x ∧ dma_map_cmd x = some cmd
    · obtain ⟨x, hx, hcmd⟩ := hm
      unfold step
      rw [wp_bind, wp_get, hx]
      exact (ioctl_dma_map_made hs hlost.nonneg hx hcmd ⟨hi.tidy.fits, hb⟩ hM).bind fun _ s' hM' => hM'
    · exact hplain (fun hr => hr) fun x hx hcmd => hm ⟨x, hx, hcmd⟩
  | mmap i mm a b pgoff env =>
    refine hof (.bind .get fun s => ?_)
    cases s.files.get i with
    | none => exact .pure _
    | some x =>
      refine .bind .get fun s => .ite (.bind (Thins.of_adds mmap_file_adds fun _ he => ?_) fun r =>
        .ite (.pure _) ?_) (.pure _)
      · exact he.elim id id
      · exact .bind (Thins.of_quiet (Adds.modify fun _ => rfl)) fun _ => .pure _
  | munmap i =>
    refine hof (.bind .get fun s => ?_)
    cases s.vmas.get i with
    | none => exact .pure _
    | some w => exact .bind (hunmap i w) fun _ => .pure _
  | move i a =>
    refine hof (.bind .get fun s => ?_)
    cases s.vmas.get i with
    | none => exact .pure _
    | some w =>
      refine .bind .get fun s => .ite ?_ (.pure _)
      exact .bind (Thins.of_quiet (Adds.modify fun _ => rfl)) fun _ =>
        .bind (Thins.of_quiet open_vma_adds) fun _ => .bind (hunmap i w) fun _ => .pure _
  | revoke t =>
    refine hof (.bind .get fun s => ?_)
    cases s.tables.get t with
    | none => exact .pure _
    | some x =>
      refine .ite (.bind (Thins.of_quiet (Adds.modify fun _ => rfl)) fun _ => ?_) (.pure _)
      exact .bind release_bafs_cuda_mem_thins fun _ => .pure _
  | _ => exact hplain (fun hr => hr) trivial

/-- What a run along `mmaps_stale` keeps. -/
structure Agreeing (s : State) : Prop where
  inv : Inv s
  bare : ∀ m f, s.view.mems m = some f → f.state = .STALE → f.cuda_page_table = none
  made : TableMade s.view.mems s
  pinned : PinnedAll s.view

theorem Agreeing.step (ha : Agreeing s) (hk : mmaps_stale s r) :
    wp (BafsDriver.step r) (fun _ => True) (fun _ s' => Agreeing s') s := by
  obtain ⟨h, -, hs, hstep⟩ := step_inv r ha.inv
  refine wp_mono (wp_and (step_made r ha.inv ha.bare ha.made) (wp_and (step_dma_of r ha.inv) hstep))
    fun _ s' hs' => ?_
  obtain ⟨hM, hof, hi', h', -, -, he⟩ := hs'
  exact ⟨hi', he.cuda_bare ha.bare, hM.after he hs ha.inv.tidy hk hof,
    he.pinned_all hs ha.inv.tidy hk ha.pinned⟩

theorem agreeing_init : Agreeing init := by
  refine ⟨inv_init, fun m f hf => ?_, fun d y x hy => (init_no_dma hy).elim, fun i w m x hw => ?_⟩
  · rw [init_mems] at hf
    cases hf
  · cases (init_vmas _).symm.trans hw

/-- In every state of a run along `mmaps_stale`, whatever offset of a VMA a DMA mapping of its live
registration has an address for, the user sees there the entry of the page table that the address was
made for. -/
theorem user_and_device_agree (rs : List Request) (hk : Along step mmaps_stale rs init) :
    Always step (fun _ => True) (fun s => ∀ m x i w d y k, s.mems.get m = some x → x.state = .LIVE →
      s.vmas.get i = some w → w.vm_private_data = some m → s.dmas.get d = some y → y.mem = m →
      k < n_addrs s y → k * x.page_size < w.vm_end - w.vm_start →
      (y.cuda_mapping.isSome → (made_for s y k).isSome) →
        ∃ e, page_entry s x k = some e ∧ made_for s y k = some e ∧ e.shown w (k * x.page_size)) rs init := by
  refine always_of_along (I := Agreeing) (fun _ _ ha hk => ha.step hk) (fun s ha => ?_) agreeing_init hk
  intro m x i w d y k hx hst hw hm hy hym hk hin hstands
  have hf : s.view.mems m = some x.fields := congrArg (Option.map BafsMem.fields) hx
  have hsize : x.size < 2 ^ 32 := ha.inv.tidy.size_lt m x.fields hf
  have hpinned : PinnedAt s.tables w x.fields := ha.pinned i w m x.fields hw hm hf hst
  have hmade : MadeFrom s.mappings x.fields y := ha.made d y x.fields hy (hym ▸ hf)
  exact PinnedAt.agree (x := x.fields) hpinned hmade hst hsize hk hin hstands

/-- Two pages that are registered, pinned and mapped for DMA through a ctrl file. -/
def mapped_for_both : List Request :=
  [.bind 0 0x100000 4096, .open_ctrl 0 a_task granted_open,
    .reg_mem 0 BAFS_CTRL_IOC_REG_MEM 8192 BAFS_MEM_CPU, .map 0 0x10000 2 1, .dma_map 0 0x10000]

/-- A test that implies the condition: whatever is mapped, no registration has been pinned. -/
def mmaps_stale_test (s : State) : Request → Bool
  | .mmap .. => (List.range s.mems.next).all fun m => (s.mems.get m).all fun x => x.state = .STALE
  | .split .. => false
  | .move .. => false
  | _ => true

theorem mmaps_stale_of_test (ht : mmaps_stale_test s r = true) : mmaps_stale s r := by
  cases r with
  | mmap f mm a b pgoff env =>
    intro x m y hx hbar hsel hy
    have hm := List.all_eq_true.mp ht m (List.mem_range.mpr (Heap.lt_next_of_get hy))
    rw [hy] at hm
    exact of_decide_eq_true hm
  | split => cases ht
  | move => cases ht
  | _ => trivial

/-- The registration is live in its VMA, and has a DMA mapping of two addresses. -/
def live_for_both (s : State) : Bool :=
  ((s.mems.get 0).any fun x => x.state = .LIVE ∧ x.page_size = PAGE_SIZE) &&
    ((s.vmas.get 0).any fun w => w.vm_private_data = some 0 ∧ PAGE_SIZE < w.vm_end - w.vm_start) &&
    (s.dmas.get 0).any fun y => y.mem = 0 ∧ y.cuda_mapping = none ∧ 1 < n_addrs s y

/-- The second address was made for the page that the user sees at the second page of the VMA. -/
theorem second_page_agrees : ∃ s x w y e, run step mapped_for_both init = .ok s ∧
    s.mems.get 0 = some x ∧ s.vmas.get 0 = some w ∧ s.dmas.get 0 = some y ∧
    page_entry s x 1 = some e ∧ made_for s y 1 = some e ∧ e.shown w PAGE_SIZE := by
  have hend : ends step live_for_both mapped_for_both init = true := by decide +kernel
  obtain ⟨hr, hp⟩ := run_final hend
  have hall := always_iff_run.mp (user_and_device_agree mapped_for_both
    (along_of_tests (k := mmaps_stale_test) (fun _ _ => mmaps_stale_of_test) (by decide +kernel)))
    mapped_for_both (List.prefix_refl _)
  have hclaim := hall.1 _ hr
  generalize final step mapped_for_both init = s at hr hp hclaim
  simp only [live_for_both, Bool.and_eq_true, Option.any_eq_true, decide_eq_true_eq] at hp
  obtain ⟨⟨⟨x, hx, hst, hgran⟩, w, hw, hm, hlen⟩, y, hy, hym, hnone, hn⟩ := hp
  have hin : 1 * x.page_size < w.vm_end - w.vm_start := by
    rw [Nat.one_mul, hgran]
    exact hlen
  obtain ⟨e, he, hmade, hshown⟩ := hclaim 0 x 0 w 0 y 1 hx hst hw hm hy hym hn hin
    fun hsome => by rw [hnone] at hsome; cases hsome
  rw [Nat.one_mul, hgran] at hshown
  exact ⟨s, x, w, y, e, hr, hx, hw, hy, he, hmade, hshown⟩

end BafsDriver
