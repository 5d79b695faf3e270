import BafsDriver.Proofs.DmaMapResult
import BafsDriver.Proofs.TraceProofs
import BafsDriver.Proofs.MemLifetime
import BafsDriver.Lib.Ledger

/-!
# The ledger of DMA mappings

Each page that was mapped for a device is unmapped once, with the address and the length that it was
mapped with, or still stands in the `bafs_mem_dma` that was made for it. The unmapping counts the
pages that the registration has when it is unmapped: they are more than were mapped where the
registration was pinned after it was mapped, and the loop reads on past the end of the addresses.
-/

set_option linter.style.nameCheck false

namespace BafsDriver

open Prog

variable {h h' : Held Kind} {v v' : View} {s s' : State} {r : Request} {E : Fault → Prop}

/-! ## The calls -/

/-- A page that is mapped for a device, as `dma_unmap_single` is told. -/
structure Single where
  ctrl : CtrlId
  addr : Nat
  len : Nat
  deriving DecidableEq

def mapped_single : Event → Option Single
  | .dma_map_single c _ addr len => some ⟨c, addr, len⟩
  | _ => none

def unmapped_single : Event → Option Single
  | .dma_unmap_single c addr len => some ⟨c, addr, len⟩
  | _ => none

/-- A read past the end of `dma->addrs`. -/
def past_end : Event → Option CtrlId
  | .dma_unmap_past_end c _ => some c
  | _ => none

/-- The pages that a `bafs_mem_dma` has addresses for. -/
def BafsMemDma.singles (y : BafsMemDma) : List Single :=
  (y.addrs.elim [] fun p => p.2).map fun addr => ⟨y.ctrl, addr, y.map_gran⟩

/-- How often the mapped page `e` stands in a `bafs_mem_dma`. -/
def held_single (s : State) (e : Single) : Nat := s.dmas.sum fun y => y.singles.count e

/-- Each page that was mapped was unmapped once or stands in a `bafs_mem_dma` of a registration that
exists, nothing else was unmapped, and no address past the end was read. -/
structure DmaLedger (s : State) : Prop where
  /-- The calls balance with what the DMA mappings hold. -/
  balanced : Ledger.Balanced mapped_single unmapped_single (held_single s) s.trace
  in_range : calls past_end s = []
  live : ∀ d y, s.dmas.get d = some y → y.singles ≠ [] → ∃ x, s.mems.get y.mem = some x

/-- The registration `m` exists and, if it is of CPU memory, each DMA mapping of it has an address for
every page that it has now. -/
def all_mapped (s : State) (m : MemId) : Prop :=
  ∃ x, s.mems.get m = some x ∧ (x.loc = BAFS_MEM_CPU → ∀ d y, s.dmas.get d = some y → y.mem = m →
    y.singles.length = x.n_pages)

/-- The request closes no VMA whose registration has got pages after it was mapped for DMA, and none
whose registration has been freed; nor does it revoke the pages of one that has. -/
def settles (s : State) : Request → Prop
  | .munmap i => ∀ w m, s.vmas.get i = some w → w.vm_private_data = some m → all_mapped s m
  | .move i a => ∀ w m, s.vmas.get i = some w → w.vm_private_data = some m →
    range_free s w.mm a (a + (w.vm_end - w.vm_start)) → all_mapped s m
  | .revoke t => ∀ x, s.tables.get t = some x → x.pinned = true → ∃ y, s.mems.get x.data = some y
  | _ => True

/-! ## What the functions add to the record -/

/-- The calls are balanced with the DMA mappings. -/
abbrev Settled (s : State) : Prop :=
  Ledger.Balanced mapped_single unmapped_single (held_single s) s.trace

theorem no_dma_calls {e : Event} (he : no_dma e) :
    mapped_single e = none ∧ unmapped_single e = none ∧ past_end e = none := by
  cases e with
  | dma_map_single | dma_unmap_single | dma_unmap_past_end => exact he.elim
  | _ => exact ⟨rfl, rfl, rfl⟩

theorem same_dma_singles (y y' : BafsMemDma) (he : same_dma y y') : y'.singles = y.singles := by
  rw [he]
  rfl

/-- What maps and unmaps no page leaves the pages that stand in the DMA mappings. -/
theorem Recorded.held_single (hg : Recorded no_dma s s') (e : Single) :
    held_single s' e = held_single s e := by
  refine Heap.sum_congr fun d => ?_
  have hd := hg.dma_map (g := fun y => y.singles.count e)
    (fun y y' he => by rw [same_dma_singles y y' he]) d
  have hmap : ∀ o : Option BafsMemDma,
      o.elim 0 (fun y => y.singles.count e) = (o.map fun y => y.singles.count e).getD 0 := by
    intro o
    cases o <;> rfl
  rw [hmap, hmap, hd]

/-- The calls added are balanced with the DMA mappings added and taken away. -/
abbrev Moved (s s' : State) : Prop :=
  Ledger.Extends mapped_single unmapped_single (held_single s) (held_single s') s.trace s'.trace

/-- Calls of other kinds move nothing. -/
theorem Moved.quiet {l : List Event} (hl : ∀ e ∈ l, no_dma e) (ht : s'.trace = l ++ s.trace)
    (hd : ∀ e, held_single s' e = held_single s e) : Moved s s' := by
  have hnil : l.filterMap mapped_single = [] :=
    List.filterMap_eq_nil_iff.mpr fun e he => (no_dma_calls (hl e he)).1
  refine ⟨l, [], ht, (fun e he => (no_dma_calls (hl e he)).2.1), (fun _ he => by cases he), fun k => ?_⟩
  rw [hd, hnil]
  rfl

theorem Recorded.moved (hg : Recorded no_dma s s') : Moved s s' := by
  obtain ⟨l, hl, hAl⟩ := hg.trace
  exact .quiet hAl hl hg.held_single

theorem Settled.grows (hb : Settled s) (hg : Grows no_dma s s') : Settled s' := hb.extend hg.moved

/-! ## Mapping -/

/-- Every chunk of the registration has the length of a page of it. -/
def even_chunks (x : BafsMem) : Prop :=
  ∀ i < x.n_pages, chunk_len i (u32 x.page_size) x.size = u32 x.page_size

/-- The first `j` pages of the registration, mapped for the controller. -/
def first_singles (c : CtrlId) (x : BafsMem) (answer : Nat → Option Nat) (j : Nat) : List Single :=
  (List.range j).map fun i => ⟨c, (answer i).getD 0, u32 x.page_size⟩

section Map

variable {c : CtrlId} {m : MemId} {x : BafsMem} {k : BafsCtrl} {n user id j : Nat} {env : DmaMapEnv}
  {answer : Nat → Option Nat}

theorem map_calls_mapped (hx : even_chunks x) (hj : j ≤ x.n_pages) :
    (map_calls c x answer j).filterMap mapped_single = first_singles c x answer j := by
  unfold map_calls first_singles
  rw [List.filterMap_map, List.filterMap_eq_map_iff_forall_eq_some.mpr]
  intro i hi
  have hi : i < x.n_pages := (List.mem_range.mp hi).trans_le hj
  simp only [Function.comp_apply, mapped_single, hx i hi]

theorem map_calls_unmapped : ∀ e ∈ map_calls c x answer j, unmapped_single e = none := by
  intro e he
  obtain ⟨i, -, rfl⟩ := List.mem_map.mp he
  rfl

theorem unmap_calls_unmapped :
    (unmap_calls c x answer j).filterMap unmapped_single = first_singles c x answer j := by
  unfold unmap_calls first_singles
  rw [List.filterMap_map, List.filterMap_eq_map_iff_forall_eq_some.mpr]
  intro i _
  rfl

theorem unmap_calls_mapped : ∀ e ∈ unmap_calls c x answer j, mapped_single e = none := by
  intro e he
  obtain ⟨i, -, rfl⟩ := List.mem_map.mp he
  rfl

theorem cpu_dma_singles :
    (cpu_dma s c m x env).singles = first_singles c x env.dma_map_single x.n_pages := by
  simp [BafsMemDma.singles, cpu_dma, given, first_singles]

theorem held_single_alloc {y : BafsMemDma} (hd : s'.dmas = s.dmas.alloc y) (e : Single) :
    held_single s' e = held_single s e + y.singles.count e := by
  unfold held_single
  rw [hd, Heap.sum_alloc]

theorem held_single_eq (hd : s'.dmas = s.dmas) (e : Single) : held_single s' e = held_single s e := by
  unfold held_single
  rw [hd]

/-- Mapping `j` pages and taking them back leaves the record balanced. -/
theorem Moved.cut_short {l : List Event} (hx : even_chunks x) (hj : j ≤ x.n_pages)
    (hl : ∀ e ∈ l, no_dma e)
    (ht : s'.trace = unmap_calls c x answer j ++ (l ++ ((map_calls c x answer j).reverse ++ s.trace)))
    (hd : s'.dmas = s.dmas) : Moved s s' := by
  have hback : ∀ e ∈ l ++ (map_calls c x answer j).reverse, unmapped_single e = none := fun e he => by
    rcases List.mem_append.mp he with he | he
    · exact (no_dma_calls (hl e he)).2.1
    · exact map_calls_unmapped e (List.mem_reverse.mp he)
  have hnil : l.filterMap mapped_single = [] :=
    List.filterMap_eq_nil_iff.mpr fun e he => (no_dma_calls (hl e he)).1
  rw [← List.append_assoc l] at ht
  refine ⟨_, _, ht, hback, unmap_calls_mapped, fun p => ?_⟩
  rw [List.filterMap_append, hnil, List.nil_append, List.filterMap_reverse, map_calls_mapped hx hj,
    unmap_calls_unmapped, List.count_reverse, held_single_eq hd]

/-- Mapping all pages for a new DMA mapping leaves the record balanced. -/
theorem Moved.mapped {e : Event} (hx : even_chunks x) (he : no_dma e)
    (ht : s'.trace = e :: ((map_calls c x env.dma_map_single x.n_pages).reverse ++ s.trace))
    (hd : s'.dmas = s.dmas.alloc (cpu_dma s c m x env)) : Moved s s' := by
  have hback : ∀ e' ∈ e :: (map_calls c x env.dma_map_single x.n_pages).reverse,
      unmapped_single e' = none := fun e' he' => by
    rcases List.mem_cons.mp he' with rfl | he'
    · exact (no_dma_calls he).2.1
    · exact map_calls_unmapped e' (List.mem_reverse.mp he')
  rw [← List.cons_append] at ht
  refine ⟨_, [], ht, hback, (fun _ he => by cases he), fun p => ?_⟩
  rw [held_single_alloc hd, cpu_dma_singles, List.filterMap_cons_none (no_dma_calls he).1,
    List.filterMap_reverse, map_calls_mapped hx le_rfl, List.count_reverse, List.filterMap_nil,
    List.count_nil]
  omega

/-- Whatever comes of a mapping, the record stays balanced. -/
theorem MapResult.moved {r : Int × Nat × Option DmaId}
    (hr : MapResult s c m x k n user id env r s') (hx : x.loc = BAFS_MEM_CPU → even_chunks x) :
    Moved s s' := by
  cases hr with
  | refused hret hg hT =>
    rcases hT with rfl | rfl
    · exact .quiet (l := []) (fun _ he => by cases he) rfl (held_single_eq rfl)
    · refine .quiet (l := [_]) (fun e he => ?_) rfl (held_single_eq rfl)
      rw [List.mem_singleton.mp he]
      trivial
  | cut_short hloc hj hg =>
    exact .cut_short (l := []) (hx hloc) hj.le (fun _ he => by cases he) rfl rfl
  | cpu_not_copied hloc hg hcopy =>
    refine .cut_short (l := [_]) (hx hloc) le_rfl (fun e he => ?_) rfl rfl
    rw [List.mem_singleton.mp he]
    trivial
  | cuda_not_copied hloc ht hg hcopy =>
    refine .quiet (l := [_, _, _]) (fun e he => ?_) rfl (held_single_eq rfl)
    rcases List.mem_cons.mp he with rfl | he
    · trivial
    rcases List.mem_cons.mp he with rfl | he
    · trivial
    rw [List.mem_singleton.mp he]
    trivial
  | @cpu_mapped addrs hloc hg hcopy =>
    exact .mapped (e := copy_call user env addrs) (hx hloc) trivial rfl rfl
  | cuda_mapped hloc ht hg hcopy =>
    refine .quiet (l := [_, _]) (fun e he => ?_) rfl fun e => ?_
    · rcases List.mem_cons.mp he with rfl | he
      · trivial
      rw [List.mem_singleton.mp he]
      trivial
    · rw [held_single_alloc (y := cuda_dma s c m) rfl]
      rfl

theorem map_calls_past_end : (map_calls c x answer j).filterMap past_end = [] := by
  refine List.filterMap_eq_nil_iff.mpr fun e he => ?_
  obtain ⟨i, -, rfl⟩ := List.mem_map.mp he
  rfl

theorem unmap_calls_past_end : (unmap_calls c x answer j).filterMap past_end = [] := by
  refine List.filterMap_eq_nil_iff.mpr fun e he => ?_
  obtain ⟨i, -, rfl⟩ := List.mem_map.mp he
  rfl

/-- A mapping reads nothing past the end of its addresses. -/
theorem MapResult.in_range {r : Int × Nat × Option DmaId}
    (hr : MapResult s c m x k n user id env r s') : calls past_end s' = calls past_end s := by
  cases hr with
  | refused hret hg hT => rcases hT with rfl | rfl <;> rfl
  | cut_short | cpu_not_copied | cuda_not_copied | cpu_mapped | cuda_mapped =>
    simp [calls, State.after, State.add_dma, List.filterMap_append, List.filterMap_cons,
      map_calls_past_end, unmap_calls_past_end, List.filterMap_reverse, past_end, copy_call]

/-- What a mapping relies on in the registration that it maps. -/
structure Paged (f : BafsMem) : Prop where
  fits : table_fits f
  size_lt : f.size < 2 ^ 32
  sized : f.loc = BAFS_MEM_CPU → f.n_pages = 0 ∨
    f.page_size = PAGE_SIZE ∧ f.n_pages = pages_for f.size PAGE_SIZE PAGE_SHIFT
  bare : f.state = .STALE → f.cpu_page_table = none

theorem Paged.of_fields (hp : Paged x.fields) : Paged x := ⟨hp.fits, hp.size_lt, hp.sized, hp.bare⟩

theorem Tidy.paged (ht : Tidy v) {m : MemId} {f : BafsMem} (hm : v.mems m = some f) : Paged f :=
  ⟨ht.fits m f hm, ht.size_lt m f hm, ht.sized m f hm, ht.bare m f hm⟩

/-- The last page starts within the registration, so that no chunk is cut. -/
theorem chunk_len_even {i size : Nat} (hsize : size < 2 ^ 32)
    (hi : i < pages_for size PAGE_SIZE PAGE_SHIFT) : chunk_len i PAGE_SIZE size = PAGE_SIZE := by
  unfold pages_for u64 PAGE_SIZE PAGE_SHIFT at hi
  rw [Nat.shiftRight_eq_div_pow, Nat.mod_eq_of_lt (by omega)] at hi
  have hle : i * PAGE_SIZE ≤ size := by
    unfold PAGE_SIZE
    omega
  unfold chunk_len u32
  rw [Nat.mod_eq_of_lt (by omega), if_neg (by omega)]

theorem Paged.even_chunks (hp : Paged x) (hloc : x.loc = BAFS_MEM_CPU) : even_chunks x := by
  intro i hi
  obtain hz | ⟨hpage, hn⟩ := hp.sized hloc
  · omega
  · rw [hpage, show u32 PAGE_SIZE = PAGE_SIZE from rfl]
    exact chunk_len_even hp.size_lt (hn ▸ hi)

/-- The DMA mapping `y` has an address for every page of the registration `f`, which is of CPU memory
and has been pinned. -/
structure Chunks (f : BafsMem) (y : BafsMemDma) : Prop where
  loc : f.loc = BAFS_MEM_CPU
  state : f.state ≠ .STALE
  length : y.singles.length = f.n_pages
  gran : y.map_gran = PAGE_SIZE

/-- The DMA mappings of CPU memory have addresses, and those that hold pages hold all of their
registration; `M` gives the registrations. -/
structure Chunked (M : MemId → Option BafsMem) (s : State) : Prop where
  addrs : ∀ d y f, s.dmas.get d = some y → M y.mem = some f → f.loc = BAFS_MEM_CPU → y.addrs.isSome
  whole : ∀ d y, s.dmas.get d = some y → y.singles ≠ [] → ∃ f, M y.mem = some f ∧ Chunks f y

/-- The DMA mapping `d` has as many addresses as the loop of the unmapping reads. -/
def Full (M : MemId → Option BafsMem) (s : State) (d : DmaId) : Prop :=
  ∃ y f, s.dmas.get d = some y ∧ M y.mem = some f ∧
    (f.loc = BAFS_MEM_CPU → y.singles.length = f.n_pages)

/-- How the record and the DMA mappings look while a request maps for DMA. -/
structure Orderly (M : MemId → Option BafsMem) (s : State) : Prop where
  settled : Settled s
  in_range : calls past_end s = []
  chunked : Chunked M s

theorem first_singles_length : (first_singles c x answer j).length = j := by simp [first_singles]

theorem granted_has_table {addrs : List Nat} (hloc : x.loc = BAFS_MEM_CPU)
    (hg : granted_addrs x env = some addrs) : has_table x := by
  unfold granted_addrs at hg
  by_cases hz : env.kzalloc = false
  · rw [if_pos hz] at hg
    cases hg
  by_cases hok : env.kcalloc = true ∧ has_table x ∧ ∀ i < x.n_pages, (env.dma_map_single i).isSome
  · exact hok.2.1
  · rw [if_neg hz, if_pos hloc, if_neg hok] at hg
    cases hg

/-- A mapping leaves the DMA mappings as they are, or adds one with an address for every page. -/
theorem MapResult.new_dma {r : Int × Nat × Option DmaId}
    (hr : MapResult s c m x k n user id env r s') (hp : Paged x) :
    (r.2.2 = none ∧ s'.dmas = s.dmas) ∨ ∃ y, r.2.2 = some s.dmas.next ∧ s'.dmas = s.dmas.alloc y ∧
      y.mem = m ∧ (y.singles ≠ [] → Chunks x y) ∧
      (x.loc = BAFS_MEM_CPU → y.addrs.isSome ∧ y.singles.length = x.n_pages) ∧
      (∀ p, y.cuda_mapping = some p → x.loc = BAFS_MEM_CUDA) := by
  cases hr with
  | refused | cut_short | cpu_not_copied | cuda_not_copied => exact .inl ⟨rfl, rfl⟩
  | cpu_mapped hloc hg hcopy =>
    have hlen : (cpu_dma s c m x env).singles.length = x.n_pages := by
      rw [cpu_dma_singles, first_singles_length]
    have hpos : (cpu_dma s c m x env).singles ≠ [] → x.n_pages ≠ 0 := fun hne hz =>
      hne (List.eq_nil_of_length_eq_zero (hlen.trans hz))
    refine .inr ⟨_, rfl, rfl, rfl, fun hne => ⟨hloc, fun hst => ?_, hlen, ?_⟩,
      (fun _ => ⟨rfl, hlen⟩), fun p hp => by cases hp⟩
    · obtain ht | hz := granted_has_table hloc hg
      · rw [hp.bare hst] at ht
        cases ht
      · exact hpos hne hz
    · obtain hz | ⟨hpage, -⟩ := hp.sized hloc
      · exact absurd hz (hpos hne)
      · show u32 x.page_size = PAGE_SIZE
        rw [hpage]
        rfl
  | cuda_mapped hloc ht hg hcopy =>
    refine .inr ⟨_, rfl, rfl, rfl, fun hne => absurd rfl hne, fun hcpu => ?_, fun _ _ => hloc⟩
    cases hloc.symm.trans hcpu

end Map

theorem Chunked.alloc {M : MemId → Option BafsMem} {y : BafsMemDma} (hc : Chunked M s)
    (hd : s'.dmas = s.dmas.alloc y)
    (ha : ∀ f, M y.mem = some f → f.loc = BAFS_MEM_CPU → y.addrs.isSome)
    (hy : y.singles ≠ [] → ∃ f, M y.mem = some f ∧ Chunks f y) : Chunked M s' := by
  refine ⟨fun d z f hz hf hloc => ?_, fun d z hz hne => ?_⟩
  all_goals
    rw [hd] at hz
    obtain ⟨-, rfl⟩ | hz := Heap.get_alloc_cases hz
  · exact ha f hf hloc
  · exact hc.addrs d z f hz hf hloc
  · exact hy hne
  · exact hc.whole d z hz hne

theorem Full.alloc {M : MemId → Option BafsMem} {d : DmaId} {y : BafsMemDma} (hf : Full M s d)
    (hd : s'.dmas = s.dmas.alloc y) : Full M s' d := by
  obtain ⟨z, f, hz, hr⟩ := hf
  exact ⟨z, f, by rw [hd]; exact Heap.get_alloc_of_get hz, hr⟩

/-- Whatever comes of a mapping, the record stays in order, and a new DMA mapping can be unmapped. -/
theorem bafs_ctrl_dma_map_mem_orderly {c : CtrlId} {ctx : CtxId} {vaddr n user id : Nat}
    {env : DmaMapEnv} (hs : At h v s) (hh : NonNeg h) (hx : CtxHeld h v ctx) (hc : CtrlHeld h v c)
    (hp : ∀ m f, v.mems m = some f → Paged f) (ho : Orderly v.mems s) :
    wp (bafs_ctrl_dma_map_mem c ctx vaddr n user id env) (fun _ => True) (fun r s' =>
      Orderly v.mems s' ∧ (∀ d, Full v.mems s d → Full v.mems s' d) ∧
        ∀ d, r.2.2 = some d → Full v.mems s' d) s := by
  obtain ⟨y, hy⟩ := hs.ctx_live hx
  obtain ⟨k, hk⟩ := hs.ctrl_live hh hc
  by_cases hm : ∃ m, Found v ctx vaddr m
  · obtain ⟨m, hm⟩ := hm
    obtain ⟨f, hf, -⟩ := hm.1
    obtain ⟨x, hx, rfl⟩ := hs.mem_live hf
    have hpage : Paged x := (hp m _ hf).of_fields
    refine wp_mono (bafs_ctrl_dma_map_mem_exact hs hy hk hm hx hpage.fits fun _ _ => trivial)
      fun r s' hr => ?_
    have hsettled := ho.settled.extend (hr.moved hpage.even_chunks)
    have hrange := hr.in_range.trans ho.in_range
    obtain ⟨hnone, hd⟩ | ⟨z, hnew, hd, hzm, hchunks, hfull, -⟩ := hr.new_dma hpage
    · refine ⟨⟨hsettled, hrange, ?_⟩, fun d hf => ?_, fun d hd' => by cases hnone.symm.trans hd'⟩
      · exact ⟨hd ▸ ho.chunked.addrs, hd ▸ ho.chunked.whole⟩
      · unfold Full
        rw [hd]
        exact hf
    · have hf : v.mems z.mem = some x.fields := by rw [hzm, hf]
      refine ⟨⟨hsettled, hrange, ho.chunked.alloc hd (fun g hg hloc => ?_) fun hne => ⟨_, hf, ?_⟩⟩,
        fun d hf' => hf'.alloc hd, fun d hd' => ?_⟩
      · obtain rfl := Option.some.inj (hf.symm.trans hg)
        exact (hfull hloc).1
      · obtain ⟨hloc, hst, hlen, hgran⟩ := hchunks hne
        exact ⟨hloc, hst, hlen, hgran⟩
      · obtain rfl := Option.some.inj (hnew.symm.trans hd')
        exact ⟨z, _, by rw [hd, Heap.get_alloc, if_pos rfl], hf, fun hloc => (hfull hloc).2⟩
  · refine wp_mono (bafs_ctrl_dma_map_mem_none hs hy (not_exists.mp hm)) fun r s' hr => ?_
    obtain ⟨rfl, rfl⟩ := hr
    exact ⟨ho, fun _ hd => hd, fun d hd => by cases hd⟩

/-! ## Unmapping -/

theorem each_emit {β : Type} {f : β → Event} {l : List β} :
    wp (each (fun b => emit (f b)) l) E
      (fun _ s' => s' = { s with trace := (l.map f).reverse ++ s.trace }) s := by
  induction l generalizing s with
  | nil => rfl
  | cons b l ih =>
    unfold each emit
    rw [wp_bind, wp_modify]
    refine wp_mono ih fun _ s' hs' => ?_
    rw [hs', List.map_cons, List.reverse_cons, List.append_assoc]
    rfl

/-- The call of `unmap_dma` for page `i`. -/
def unmap_call (y : BafsMemDma) (x : BafsMem) (addrs : List Nat) (i : Nat) : Event :=
  match addrs[i]? with
  | some addr => .dma_unmap_single y.ctrl addr (chunk_len i y.map_gran x.size)
  | none => .dma_unmap_past_end y.ctrl (chunk_len i y.map_gran x.size)

/-- The calls that undo the mapping `y` of the registration `x`, the last first. -/
def undo_calls (y : BafsMemDma) (x : BafsMem) : List Event :=
  if x.loc = BAFS_MEM_CPU then
    match y.addrs with
    | some (_, addrs) => ((List.range x.n_pages).map (unmap_call y x addrs)).reverse
    | none => []
  else if x.loc = BAFS_MEM_CUDA then
    match y.cuda_mapping with
    | some p =>
      if x.state ≠ .DEAD_CB then
        [.nvidia_p2p_free_dma_mapping p, .nvidia_p2p_dma_unmap_pages y.ctrl x.cuda_page_table p]
      else
        []
    | none => []
  else
    []

theorem unmap_addrs_exact {y : BafsMemDma} {x : BafsMem} {addrs : List Nat} :
    wp (unmap_addrs y.ctrl addrs x.n_pages y.map_gran x.size) E (fun _ s' => s' = { s with
      trace := ((List.range x.n_pages).map (unmap_call y x addrs)).reverse ++ s.trace }) s := by
  have hbody : unmap_addrs y.ctrl addrs x.n_pages y.map_gran x.size =
      each (fun i => emit (unmap_call y x addrs i)) (List.range x.n_pages) := by
    refine congrArg (fun f => each f (List.range x.n_pages)) (funext fun i => ?_)
    unfold unmap_call
    cases addrs[i]? <;> rfl
  rw [hbody]
  exact each_emit

/-- The memory blocks after the mapping `y` of the registration `x` has been undone. -/
def undone_blocks (y : BafsMemDma) (x : BafsMem) (B : Heap Unit) : Heap Unit :=
  if x.loc = BAFS_MEM_CPU then y.addrs.elim B fun p => B.free p.1 else B

theorem undo_mapping_exact {y : BafsMemDma} {x : BafsMem} : wp (undo_mapping y x) E
    (fun _ s' => s' = { s with
      trace := undo_calls y x ++ s.trace
      blocks := undone_blocks y x s.blocks }) s := by
  unfold undo_mapping undo_calls undone_blocks
  refine wp_ite (fun h0 => ?_) fun h0 => ?_
  · rw [if_pos h0, if_pos h0]
    cases y.addrs with
    | none => rfl
    | some p =>
      refine unmap_addrs_exact.bind fun _ s₁ hs₁ => ?_
      subst hs₁
      rfl
  · rw [if_neg h0, if_neg h0]
    refine wp_ite (fun h1 => ?_) fun h1 => ?_
    · rw [if_pos h1]
      cases y.cuda_mapping with
      | none => rfl
      | some p =>
        dsimp only
        refine wp_ite (fun hst => ?_) fun hst => ?_
        · rw [if_pos hst]
          rfl
        · rw [if_neg hst]
          rfl
    · rw [if_neg h1]
      rfl

/-- The unmapping makes its calls and frees its object; the rest makes no call. -/
theorem unmap_dma_calls {d : DmaId} {y : BafsMemDma} {x : BafsMem} (hy : s.dmas.get d = some y)
    (hx : s.mems.get y.mem = some x) : wp (unmap_dma d) (fun _ => True) (fun _ s' =>
      ∃ t : State, t.trace = undo_calls y x ++ s.trace ∧ t.dmas = s.dmas.free d ∧
        t.mappings = s.mappings ∧ Grows no_call t s') s := by
  unfold unmap_dma
  rw [wp_bind, wp_dma_at hy, wp_bind, wp_mem_at hx, wp_bind]
  refine (wp_mem_upd (by exact hx)).mpr ?_
  refine undo_mapping_exact.bind fun _ s₁ hs₁ => ?_
  subst hs₁
  rw [wp_bind, wp_modify]
  refine wp_mono ((Evolves.bind kfree_adds fun _ => bafs_ctrl_release_adds :
    Adds no_call (do kfree y.blk; bafs_ctrl_release y.ctrl)) _) fun _ s' hg => ⟨_, ?_, ?_, ?_, hg⟩
  · rfl
  · rfl
  · rfl

/-- How many pages more than it has addresses for the unmapping of `y` counts. -/
def shortfall (x : BafsMem) (y : BafsMemDma) : Nat :=
  if x.loc = BAFS_MEM_CPU then x.n_pages - y.singles.length else 0

section Undo

variable {x : BafsMem} {y : BafsMemDma}

theorem undo_calls_mapped : ∀ e ∈ undo_calls y x, mapped_single e = none := by
  intro e he
  unfold undo_calls at he
  split at he
  · split at he
    · obtain ⟨i, -, rfl⟩ := List.mem_map.mp (List.mem_reverse.mp he)
      unfold unmap_call
      split <;> rfl
    · cases he
  · split at he
    · split at he
      · split at he
        · rcases List.mem_cons.mp he with rfl | he
          · rfl
          · rw [List.mem_singleton.mp he]
            rfl
        · cases he
      · cases he
    · cases he

/-- The loop unmaps every address, and reads on as far as the registration has more pages. -/
theorem unmap_call_split {addrs : List Nat} {n : Nat} (hn : addrs.length ≤ n) :
    (List.range n).map (unmap_call y x addrs) =
      (List.range addrs.length).map (fun i =>
        .dma_unmap_single y.ctrl (addrs.getD i 0) (chunk_len i y.map_gran x.size)) ++
      (List.range (n - addrs.length)).map fun j =>
        .dma_unmap_past_end y.ctrl (chunk_len (addrs.length + j) y.map_gran x.size) := by
  obtain ⟨k, rfl⟩ := Nat.exists_eq_add_of_le hn
  rw [List.range_add, List.map_append, List.map_map, Nat.add_sub_cancel_left]
  congr 1
  · refine List.map_congr_left fun i hi => ?_
    have hi : i < addrs.length := List.mem_range.mp hi
    simp only [unmap_call, List.getElem?_eq_getElem hi, List.getD_eq_getElem?_getD, Option.getD_some]
  · refine List.map_congr_left fun j _ => ?_
    simp only [Function.comp_apply, unmap_call,
      List.getElem?_eq_none (Nat.le_add_right addrs.length j)]

theorem singles_of_addrs {p : BlockId × List Nat} (hy : y.addrs = some p) :
    y.singles = (List.range p.2.length).map fun i => ⟨y.ctrl, p.2.getD i 0, y.map_gran⟩ := by
  unfold BafsMemDma.singles
  rw [hy, Option.elim_some]
  refine List.ext_getElem (by simp) fun i hi _ => ?_
  have hi : i < p.2.length := by simpa using hi
  simp [hi]

/-- What the mapping `y` of the registration `x` relies on when it is undone. -/
structure Undoable (x : BafsMem) (y : BafsMemDma) : Prop where
  paged : Paged x
  addrs : x.loc = BAFS_MEM_CPU → y.addrs.isSome
  whole : y.singles ≠ [] → Chunks x y

theorem Undoable.of_fields (hu : Undoable x.fields y) : Undoable x y := by
  refine ⟨hu.paged.of_fields, hu.addrs, fun hne => ?_⟩
  obtain ⟨hloc, hst, hlen, hgran⟩ := hu.whole hne
  exact ⟨hloc, hst, hlen, hgran⟩

theorem Undoable.length_le (hu : Undoable x y) : y.singles.length ≤ x.n_pages := by
  by_cases hne : y.singles = []
  · rw [hne]
    exact Nat.zero_le _
  · exact (hu.whole hne).length.le

/-- The calls that undo a mapping of CPU memory. -/
theorem Undoable.calls (hu : Undoable x y) (hloc : x.loc = BAFS_MEM_CPU) :
    undo_calls y x = ((y.singles.map fun p : Single => Event.dma_unmap_single p.ctrl p.addr p.len) ++
      (List.range (x.n_pages - y.singles.length)).map fun j =>
        Event.dma_unmap_past_end y.ctrl (chunk_len (y.singles.length + j) y.map_gran x.size)).reverse := by
  obtain ⟨p, hp⟩ := Option.isSome_iff_exists.mp (hu.addrs hloc)
  have hsingles := singles_of_addrs hp
  have hlen : y.singles.length = p.2.length := by simp [hsingles]
  have hle : p.2.length ≤ x.n_pages := hlen ▸ hu.length_le
  unfold undo_calls
  rw [if_pos hloc, hp]
  dsimp only
  rw [unmap_call_split hle, hlen, hsingles, List.map_map]
  congr 2
  refine List.map_congr_left fun i hi => ?_
  have hi : i < p.2.length := List.mem_range.mp hi
  have hne : y.singles ≠ [] := fun he => by
    rw [he] at hlen
    exact absurd hi (by rw [← hlen]; exact Nat.not_lt_zero i)
  have hchunks := hu.whole hne
  have hgran : chunk_len i y.map_gran x.size = y.map_gran := by
    obtain hz | ⟨-, hn⟩ := hu.paged.sized hloc
    · omega
    · rw [hchunks.gran]
      exact chunk_len_even hu.paged.size_lt (by omega)
  simp only [Function.comp_apply, hgran]

theorem undo_calls_cuda (hloc : x.loc ≠ BAFS_MEM_CPU) : ∀ e ∈ undo_calls y x, no_dma e := by
  intro e he
  unfold undo_calls at he
  rw [if_neg hloc] at he
  split at he
  · split at he
    · split at he
      · rcases List.mem_cons.mp he with rfl | he
        · trivial
        · rw [List.mem_singleton.mp he]
          trivial
      · cases he
    · cases he
  · cases he

theorem Undoable.unmapped (hu : Undoable x y) :
    (undo_calls y x).filterMap unmapped_single = y.singles.reverse := by
  by_cases hloc : x.loc = BAFS_MEM_CPU
  · rw [hu.calls hloc, List.filterMap_reverse, List.filterMap_append, List.filterMap_map,
      List.filterMap_map]
    simp [Function.comp_def, unmapped_single]
  · have hnil : y.singles = [] := by
      by_contra hne
      exact hloc (hu.whole hne).loc
    rw [hnil]
    exact List.filterMap_eq_nil_iff.mpr fun e he => (no_dma_calls (undo_calls_cuda hloc e he)).2.1

theorem Undoable.past_end (hu : Undoable x y) :
    ((undo_calls y x).filterMap past_end).length = shortfall x y := by
  unfold shortfall
  by_cases hloc : x.loc = BAFS_MEM_CPU
  · rw [hu.calls hloc, if_pos hloc, List.filterMap_reverse, List.filterMap_append, List.filterMap_map,
      List.filterMap_map]
    simp [Function.comp_def, BafsDriver.past_end]
  · rw [if_neg hloc, List.filterMap_eq_nil_iff.mpr fun e he =>
      (no_dma_calls (undo_calls_cuda hloc e he)).2.2]
    rfl

/-- Unmapping leaves the record balanced. -/
theorem Undoable.moved {t : State} {d : DmaId} (hu : Undoable x y) (hy : s.dmas.get d = some y)
    (ht : t.trace = undo_calls y x ++ s.trace) (hd : t.dmas = s.dmas.free d) : Moved s t := by
  refine ⟨[], _, ht, (fun _ he => by cases he), undo_calls_mapped, fun p => ?_⟩
  have hsum : held_single t p + y.singles.count p = held_single s p := by
    unfold held_single
    rw [hd]
    exact Heap.sum_free hy
  rw [hu.unmapped, List.count_reverse, List.filterMap_nil, List.count_nil]
  omega

end Undo

/-! ## DMA-map requests -/

section Requests

variable {M : MemId → Option BafsMem} {d : DmaId} {ctx : CtxId}

theorem Recorded.get_dma {y' : BafsMemDma} (hg : Recorded no_dma s s') (hy : s'.dmas.get d = some y') :
    ∃ y, s.dmas.get d = some y ∧ same_dma y y' := by
  have hd := hg.dma_map (g := fun y => y.singles) same_dma_singles d
  obtain hlt | hy' := hg.dmas.kept d y' hy
  · rw [hy] at hd
    obtain ⟨y, hy, -⟩ := Option.map_eq_some_iff.mp hd.symm
    exact absurd (Heap.lt_next_of_get hy) (Nat.not_lt.mpr hlt)
  · exact hy'

theorem Chunked.of_kept (hc : Chunked M s)
    (hk : ∀ d y', s'.dmas.get d = some y' → ∃ y, s.dmas.get d = some y ∧ same_dma y y') :
    Chunked M s' := by
  refine ⟨fun d y' f hy' hf hloc => ?_, fun d y' hy' hne => ?_⟩
  · obtain ⟨y, hy, hsame⟩ := hk d y' hy'
    rw [hsame] at hf ⊢
    exact hc.addrs d y f hy hf hloc
  · obtain ⟨y, hy, hsame⟩ := hk d y' hy'
    rw [same_dma_singles y y' hsame] at hne
    obtain ⟨f, hf, hch⟩ := hc.whole d y hy hne
    have hlen := hch.length
    rw [← same_dma_singles y y' hsame] at hlen
    rw [hsame] at hlen ⊢
    exact ⟨f, hf, hch.loc, hch.state, hlen, hch.gran⟩

theorem Orderly.grows (ho : Orderly M s) (hg : Grows no_dma s s') : Orderly M s' :=
  ⟨ho.settled.grows hg, (hg.calls fun _ he => (no_dma_calls he).2.2).trans ho.in_range,
    ho.chunked.of_kept fun _ _ hy => hg.get_dma hy⟩

theorem Full.grows (hf : Full M s d) (hg : Grows no_dma s s') : Full M s' d := by
  obtain ⟨y, f, hy, hm, hlen⟩ := hf
  have hstay := hg.stay (fun _ he => he) d
  rw [hy] at hstay
  obtain ⟨y', hy'⟩ := Option.isSome_iff_exists.mp hstay
  obtain ⟨z, hz, hsame⟩ := hg.get_dma hy'
  obtain rfl := Option.some.inj (hy.symm.trans hz)
  refine ⟨y', f, hy', ?_, fun hloc => ?_⟩
  · rw [hsame]
    exact hm
  · rw [same_dma_singles y y' hsame]
    exact hlen hloc

theorem Chunked.undoable {x : BafsMem} {y : BafsMemDma} (hc : Chunked M s)
    (hp : Paged x.fields) (hy : s.dmas.get d = some y) (hm : M y.mem = some x.fields) :
    Undoable x y := by
  refine Undoable.of_fields ⟨hp, hc.addrs d y x.fields hy hm, fun hne => ?_⟩
  obtain ⟨f, hf, hch⟩ := hc.whole d y hy hne
  obtain rfl := Option.some.inj (hf.symm.trans hm)
  exact hch

/-- Unmapping a DMA mapping that has all its addresses keeps the record in order. -/
theorem bafs_ctrl_dma_unmap_mem_orderly (hs : At h v s) (hp : ∀ m f, v.mems m = some f → Paged f)
    (ho : Orderly v.mems s) (hf : Full v.mems s d) :
    wp (bafs_ctrl_dma_unmap_mem d) (fun _ => True) (fun _ s' => Orderly v.mems s' ∧
      ∀ e, e ≠ d → Full v.mems s e → Full v.mems s' e) s := by
  obtain ⟨y, f, hy, hm, hlen⟩ := hf
  obtain ⟨x, hx, rfl⟩ := hs.mem_live hm
  have hu := ho.chunked.undoable (hp _ _ hm) hy hm
  have hshort : shortfall x y = 0 := by
    unfold shortfall
    by_cases hloc : x.loc = BAFS_MEM_CPU
    · rw [if_pos hloc, hlen hloc]
      exact Nat.sub_self _
    · exact if_neg hloc
  unfold bafs_ctrl_dma_unmap_mem
  rw [wp_bind, wp_dma_at hy]
  refine (unmap_dma_calls hy hx).bind fun _ s₁ hs₁ => ?_
  obtain ⟨t, ht, hd, -, hg₁⟩ := hs₁
  have hpast : calls past_end t = [] := by
    have hnil := List.eq_nil_of_length_eq_zero (hu.past_end.trans hshort)
    unfold calls
    rw [ht, List.filterMap_append, hnil, List.nil_append]
    exact ho.in_range
  have hot : Orderly v.mems t := by
    refine ⟨ho.settled.extend (hu.moved hy ht hd), hpast, ho.chunked.of_kept fun e z hz => ?_⟩
    rw [hd] at hz
    exact ⟨z, (Heap.get_of_free hz).2, same_dma_refl z⟩
  have hput := (bafs_mem_put_adds (m := y.mem)).mono fun _ => table_call_no_dma
  refine wp_mono (hput s₁) fun _ s₂ hg₂ => ⟨(hot.grows hg₁.of_none).grows hg₂, fun e hne he => ?_⟩
  have het : Full v.mems t e := by
    obtain ⟨z, g, hz, hr⟩ := he
    exact ⟨z, g, by rw [hd, Heap.get_free, if_neg hne, hz], hr⟩
  exact (het.grows hg₁.of_none).grows hg₂

theorem __bafs_ctrl_dma_map_mem_orderly {c : CtrlId} {argp : Nat}
    {params : BAFS_IOC_DMA_MAP_MEM_PARAMS} {env : CtrlDmaMapEnv} (hs : At h v s) (hh : NonNeg h)
    (hx : CtxHeld h v ctx) (hc : CtrlHeld h v c) (hp : ∀ m f, v.mems m = some f → Paged f)
    (ho : Orderly v.mems s) :
    wp (__bafs_ctrl_dma_map_mem argp params c ctx env) (fun _ => True)
      (fun _ s' => Orderly v.mems s') s := by
  unfold __bafs_ctrl_dma_map_mem
  refine wp_ite (fun _ => ho) fun _ => ?_
  refine (wp_and (bafs_ctrl_dma_map_mem_spec hs hh hx hc (fun _ _ _ _ _ => trivial)
    fun _ _ _ _ _ => trivial) (bafs_ctrl_dma_map_mem_orderly hs hh hx hc hp ho)).bind
    fun r s₁ hr => ?_
  obtain ⟨ret, n, d⟩ := r
  obtain ⟨hr, ho₁, -, hfull⟩ := hr
  cases d with
  | none => exact ho₁
  | some d =>
    obtain ⟨-, hd, -⟩ | ⟨m, d', -, -, hd, -, hs₁⟩ := hr
    · cases hd
    refine (wp_and (copy_to_user_spec hs₁ env.copy_to_user argp .params _) (copy_to_user_adds
      (A := no_dma) (fun _ => trivial) s₁)).bind fun left s₂ hs₂ => ?_
    obtain ⟨⟨-, hs₂⟩, hg₂⟩ := hs₂
    refine wp_ite (fun _ => ?_) fun _ => ho₁.grows hg₂
    refine (bafs_ctrl_dma_unmap_mem_orderly hs₂ hp (ho₁.grows hg₂) ((hfull d rfl).grows hg₂)).bind
      fun _ s₃ hs₃ => hs₃.1

theorem group_map_loop_orderly {vaddr dma_addrs : Nat} {env : Nat → DmaMapEnv}
    {ctrls : List (CtrlId × Nat)} {n : Nat} (hs : At h v s) (hh : NonNeg h)
    (hx : CtxHeld h v ctx) (hc : ∀ ci ∈ ctrls, CtrlHeld h v ci.1)
    (hp : ∀ m f, v.mems m = some f → Paged f) (ho : Orderly v.mems s) :
    wp (group_map_loop ctx vaddr dma_addrs env ctrls ⟨n, 0, []⟩) (fun _ => True)
      (fun r s' => Orderly v.mems s' ∧ (∀ d ∈ r.1.dmas, Full v.mems s' d) ∧
        ∃ D, Mapped v ctx vaddr r.1.dmas D ∧ At h { v with dmas := D } s') s := by
  unfold group_map_loop
  refine wp_iterate (fun l acc s => (∀ ci ∈ l, ci ∈ ctrls) ∧ Orderly v.mems s ∧
      (∀ d ∈ acc.dmas, Full v.mems s d) ∧ ∃ D, Mapped v ctx vaddr acc.dmas D ∧
        At h { v with dmas := D } s)
    (fun ci l acc s₁ hinv => ?_) (fun acc s₁ hinv => hinv.2)
    ⟨fun ci hci => hci, ho, (fun d hd => by cases hd), v.dmas, .nil, hs⟩
  obtain ⟨hl, ho₁, hfull, D, hD, hs₁⟩ := hinv
  have hci := hc ci (hl ci List.mem_cons_self)
  refine (wp_and (bafs_ctrl_dma_map_mem_spec hs₁ hh hx hci (fun _ _ _ _ _ => trivial)
    fun _ _ _ _ _ => trivial) (bafs_ctrl_dma_map_mem_orderly hs₁ hh hx hci hp ho₁)).bind
    fun r s₂ hr => ?_
  obtain ⟨ret, n, d⟩ := r
  obtain ⟨hr, ho₂, hold, hnew⟩ := hr
  obtain ⟨-, hd, hs₂⟩ | ⟨m, d, hm, -, hd, hfree, hs₂⟩ := hr
  · obtain rfl : _ = none := hd
    exact ⟨ho₂, fun e he => hold e (hfull e he), D, hD, hs₂⟩
  · obtain rfl : _ = some d := hd
    refine ⟨fun ci hci => hl ci (List.mem_cons_of_mem _ hci), ho₂, fun e he => ?_, _,
      hD.add hfree hm ci.1, hs₂⟩
    rcases List.mem_append.mp he with he | he
    · exact hold e (hfull e he)
    · rw [List.mem_singleton.mp he]
      exact hnew d rfl

theorem unmap_mems_orderly {vaddr : Nat} {ds : List DmaId} {blk : BlockId}
    {D : DmaId → Option (MemId × CtrlId)} (hD : Mapped v ctx vaddr ds D)
    (hs : At h { v with dmas := D } s) (hh : NonNeg h) (hp : ∀ m f, v.mems m = some f → Paged f)
    (ho : Orderly v.mems s) (hf : ∀ d ∈ ds, Full v.mems s d) :
    wp (unmap_mems ds blk) (fun _ => True) (fun _ s' => Orderly v.mems s') s := by
  unfold unmap_mems
  refine (wp_each (fun l s => Orderly v.mems s ∧ (∀ d ∈ l, Full v.mems s d) ∧
    ∃ D, Mapped v ctx vaddr l D ∧ At h { v with dmas := D } s) ?_
    ⟨ho, fun d hd => hf d (List.mem_reverse.mp hd), D, hD.reverse, hs⟩).bind ?_
  · rintro d l s₁ ⟨ho₁, hf₁, D, hD, hs₁⟩
    obtain ⟨-, m, c, hd, ⟨f, hf, -⟩, -⟩ := hD.new d List.mem_cons_self
    have hnot : d ∉ l := (List.nodup_cons.mp hD.nodup).1
    refine wp_mono (wp_and (bafs_ctrl_dma_unmap_mem_spec hs₁ hh hd hf)
      (bafs_ctrl_dma_unmap_mem_orderly hs₁ hp ho₁ (hf₁ d List.mem_cons_self))) fun _ s₂ hs₂ => ?_
    obtain ⟨hs₂, ho₂, hrest⟩ := hs₂
    refine ⟨ho₂, fun e he => hrest e ?_ (hf₁ e (List.mem_cons_of_mem _ he)), _, hD.drop, hs₂⟩
    rintro rfl
    exact hnot he
  · rintro _ s₁ ⟨ho₁, -, -⟩
    exact wp_mono (kfree_adds (A := no_dma) s₁) fun _ s₂ hg => ho₁.grows hg

theorem bafs_group_dma_map_mem_orderly {argp : Nat} {params : BAFS_IOC_DMA_MAP_MEM_PARAMS}
    {g : GroupId} {env : GroupDmaMapEnv} (hs : At h v s) (hh : NonNeg h) (hx : CtxHeld h v ctx)
    (hp : ∀ m f, v.mems m = some f → Paged f) (ho : Orderly v.mems s) :
    wp (bafs_group_dma_map_mem argp params g ctx env) (fun _ => True)
      (fun _ s' => Orderly v.mems s') s := by
  unfold bafs_group_dma_map_mem
  refine wp_ite (fun _ => ho) fun _ => ?_
  rw [wp_bind]
  refine wp_load_of (fun _ => trivial) fun x hgx => ?_
  refine (wp_and (kzalloc_spec hs env.kzalloc) (kzalloc_adds (A := no_dma) s)).bind fun r s₁ hs₁ => ?_
  obtain ⟨⟨-, hs₁⟩, hg₁⟩ := hs₁
  have ho₁ := ho.grows hg₁
  cases r with
  | none => exact ho₁
  | some blk =>
    have hc : ∀ ci ∈ x.ctrls.zipIdx, CtrlHeld h v ci.1 := fun ci hci =>
      .inr ⟨g, x.ctrls, hs.group_view hgx, (List.of_mem_zip (List.zipIdx_eq_zip_range' ▸ hci)).1⟩
    refine (group_map_loop_orderly hs₁ hh hx hc hp ho₁).bind fun r s₂ hr => ?_
    obtain ⟨acc, fail⟩ := r
    obtain ⟨ho₂, hfull, D, hD, hs₂⟩ := hr
    cases fail with
    | some ret => exact (unmap_mems_orderly hD hs₂ hh hp ho₂ hfull).bind fun _ s₃ hs₃ => hs₃
    | none =>
      refine (wp_and (copy_to_user_spec hs₂ env.copy_to_user argp .params _) (copy_to_user_adds
        (A := no_dma) (fun _ => trivial) s₂)).bind fun left s₃ hs₃ => ?_
      obtain ⟨⟨-, hs₃⟩, hg₃⟩ := hs₃
      refine wp_ite (fun _ => ?_) fun _ => ho₂.grows hg₃
      exact (unmap_mems_orderly hD hs₃ hh hp (ho₂.grows hg₃) fun d hd => (hfull d hd).grows hg₃).bind
        fun _ s₄ hs₄ => hs₄

/-- A DMA-map request keeps the record in order. -/
theorem ioctl_orderly {i cmd : Nat} {x : File} {arg : IoctlArg} {env : IoctlEnv} (hs : At h v s)
    (hh : NonNeg h) (hi : v.files.get i = some x) (hcmd : dma_map_cmd x = some cmd)
    (hp : ∀ m f, v.mems m = some f → Paged f) (ho : Orderly v.mems s) :
    wp (ioctl_file x cmd arg env) (fun _ => True) (fun _ s' => Orderly v.mems s') s := by
  refine wp_mono (ioctl_dma_map (Q := fun _ s' => Orderly v.mems s') hs hh hi hcmd
    (fun _ s₁ s₂ hg ho₁ => ho₁.grows hg.of_none) fun h₁ s₁ hs₁ hh₁ hx hc hg => ?_)
    fun r s' ⟨_, _, ho'⟩ => ho'
  have ho₁ : Orderly v.mems s₁ := ho.grows hg.of_none
  cases x with
  | core c => cases hcmd
  | ctrl y => exact __bafs_ctrl_dma_map_mem_orderly hs₁ hh₁ hx (hc _ (.of_file hh hi)) hp ho₁
  | group y => exact bafs_group_dma_map_mem_orderly hs₁ hh₁ hx hp ho₁

end Requests

/-! ## The close of a VMA -/

section Close

variable {m : MemId} {x : BafsMem} {l : List DmaId} {w : Vma}

/-- How often an address past the end was read. -/
def past_count (s : State) : Nat := (calls past_end s).length

/-- How many pages too many the unmapping of the DMA mappings `l` of `x` counts. -/
def shortfalls (s : State) (x : BafsMem) (l : List DmaId) : Nat :=
  (l.map fun d => (s.dmas.get d).elim 0 (shortfall x)).sum

theorem Recorded.past_count (hg : Recorded no_dma s s') : past_count s' = past_count s :=
  congrArg List.length (hg.calls fun _ he => (no_dma_calls he).2.2)

theorem shortfalls_congr
    (hd : ∀ d ∈ l, (s'.dmas.get d).map BafsMemDma.singles = (s.dmas.get d).map BafsMemDma.singles) :
    shortfalls s' x l = shortfalls s x l := by
  have hmap : ∀ o : Option BafsMemDma, o.elim 0 (shortfall x) = (o.map BafsMemDma.singles).elim 0
      fun l => if x.loc = BAFS_MEM_CPU then x.n_pages - l.length else 0 := by
    intro o
    cases o <;> rfl
  unfold shortfalls
  congr 1
  refine List.map_congr_left fun d hd' => ?_
  rw [hmap, hmap, hd d hd']

/-- The loop of the close leaves the record balanced, and reads past the end as often as pages are
missing. -/
def ClosingLedger (M : MemId → Option BafsMem) (x : BafsMem) (n : Nat) (l : List DmaId)
    (s : State) : Prop :=
  Settled s ∧ Chunked M s ∧ past_count s + shortfalls s x l = n

theorem Closing.round_ledger {M : MemId → Option BafsMem} {u : View} {n : Nat} {d : DmaId}
    (hc : Closing h m x.fields u (d :: l) s) (hm : M m = some x.fields) (hp : Paged x.fields)
    (hl : ClosingLedger M x n (d :: l) s) :
    wp (do unmap_dma d; bafs_mem_put m) (fun _ => True) (fun _ s' => ClosingLedger M x n l s') s := by
  obtain ⟨w, hs, hwm, hnd, hlist, -⟩ := hc
  obtain ⟨hb, hch, hn⟩ := hl
  obtain ⟨c, hd⟩ := hlist d List.mem_cons_self
  obtain ⟨y, hy, rfl, -⟩ := hs.dma_live hd
  obtain ⟨x₁, hx₁, hf⟩ := hs.mem_live hwm
  have hu : Undoable x₁ y := hch.undoable (hf.symm ▸ hp) hy (hm.trans (congrArg some hf.symm))
  have hshort : shortfall x₁ y = shortfall x y := by
    show shortfall x₁.fields y = shortfall x.fields y
    rw [hf]
  refine (unmap_dma_calls hy hx₁).bind fun _ s₁ hs₁ => ?_
  obtain ⟨t, ht, hdt, -, hg₁⟩ := hs₁
  have hput := (bafs_mem_put_adds (m := y.mem)).mono fun _ => table_call_no_dma
  refine wp_mono (hput s₁) fun _ s₂ hg₂ => ?_
  have hg : Grows no_dma t s₂ := IsTrans.trans _ _ _ hg₁.of_none hg₂
  have hcht : Chunked M t := hch.of_kept fun e z hz => by
    rw [hdt] at hz
    exact ⟨z, (Heap.get_of_free hz).2, same_dma_refl z⟩
  refine ⟨Settled.grows (hb.extend (hu.moved hy ht hdt)) hg, hcht.of_kept fun _ _ hz => hg.get_dma hz, ?_⟩
  have hpast : past_count t = past_count s + shortfall x y := by
    rw [← hshort, ← hu.past_end]
    unfold past_count calls
    rw [ht, List.filterMap_append, List.length_append, Nat.add_comm]
  have hrest : shortfalls s₂ x l = shortfalls s x l := by
    refine shortfalls_congr fun e he => ?_
    have hne : e ≠ d := fun he' => (List.nodup_cons.mp hnd).1 (he' ▸ he)
    rw [hg.dma_map same_dma_singles e, hdt, Heap.get_free, if_neg hne]
  have hhead : shortfalls s x (d :: l) = shortfall x y + shortfalls s x l := by
    simp only [shortfalls, List.map_cons, List.sum_cons, hy, Option.elim_some]
  rw [hg.past_count, hpast, hrest]
  omega

theorem bafs_mem_release_ledger (hs : At h v s) (hh : NonNeg h) (hw : w.vm_private_data = some m)
    (hx : s.mems.get m = some x) (hp : Paged x.fields) (hc : Chunked v.mems s) (hb : Settled s) :
    wp (bafs_mem_release w) (fun _ => True) (fun _ s' => Settled s' ∧
      past_count s' = past_count s + shortfalls s x x.dma_list) s := by
  obtain ⟨y, hy, -⟩ := hs.wf.tables.mem_listed m x hx
  unfold bafs_mem_release
  rw [hw, wp_bind, wp_mem_at hx, wp_bind, ctx_kref_get, wp_ctx_upd hy, wp_bind]
  have hs₁ := hs.ctx_get hy
  have hh₁ := hh.tok .ctx x.ctx
  generalize hn : past_count s + shortfalls s x x.dma_list = n
  have hinv : ClosingLedger v.mems x n x.dma_list
      { s with ctxs := s.ctxs.set x.ctx { y with ref := y.ref + 1 } } := ⟨hb, ⟨hc.1, hc.2⟩, hn⟩
  refine wp_mono (wp_each (fun l t => Closing (h + tok Kind.ctx x.ctx) m x.fields
    (v.drop_dmas x.dma_list) l t ∧ ClosingLedger v.mems x n l t) ?_ ⟨hs₁.closing hx, hinv⟩) ?_
  · rintro d l s₂ ⟨hcl, hled⟩
    exact wp_and (hcl.round hh₁) (hcl.round_ledger (hs.mem_view hx) hp hled)
  · rintro _ s₂ ⟨-, hb₂, -, hn⟩
    have hput := (bafs_mem_put_adds (m := m)).mono fun _ => table_call_no_dma
    refine (hput s₂).bind fun _ s₃ hg₃ => ?_
    refine wp_mono (bafs_put_ctx_adds (A := no_dma) s₃) fun _ s₄ hg₄ => ?_
    refine ⟨(hb₂.grows hg₃).grows hg₄, ?_⟩
    rw [hg₄.past_count, hg₃.past_count]
    exact hn

/-- How many pages too many the close of the VMA counts. -/
def closing_shortfall (s : State) (w : Vma) : Nat :=
  (w.closes.bind s.mems.get).elim 0 fun x => shortfalls s x x.dma_list

/-- The close of a VMA leaves the record balanced, and reads past the end as often as pages are
missing. -/
theorem close_vma_ledger (hs : At h v s) (hh : NonNeg h) (hp : ∀ m f, v.mems m = some f → Paged f)
    (hc : Chunked v.mems s) (hb : Settled s) :
    wp (close_vma w) (fun _ => True) (fun _ s' => Settled s' ∧
      past_count s' = past_count s + closing_shortfall s w) s := by
  unfold close_vma closing_shortfall Vma.closes
  cases ho : w.vm_ops with
  | none => exact ⟨hb, rfl⟩
  | some o =>
    cases o
    show wp (bafs_mem_release w) _ _ s
    cases hm : w.vm_private_data with
    | none =>
      unfold bafs_mem_release
      rw [hm]
      exact ⟨hb, rfl⟩
    | some m =>
      dsimp only [Option.bind_some]
      cases hx : s.mems.get m with
      | none =>
        unfold bafs_mem_release
        rw [hm, wp_bind]
        exact wp_load_of (fun _ => trivial) fun x hx' => by cases hx.symm.trans hx'
      | some x => exact bafs_mem_release_ledger hs hh hm hx (hp m _ (hs.mem_view hx)) hc hb

end Close

/-! ## What a request keeps -/

/-- The registration of a DMA mapping that is left is left too, unless it was never pinned. -/
theorem Effect.mem_kept {m : MemId} {f : BafsMem} {d : DmaId} {c : CtrlId}
    (he : Effect h v s r h' v') (hm : v.mems m = some f) (hst : f.state ≠ .STALE)
    (hd : v'.dmas d = some (m, c)) : ∃ f', v'.mems m = some f' := by
  have hclose : ∀ {u : View} {n : MemId} {g : BafsMem}, u.mems = v.mems →
      (u.close_mem n g).dmas d = some (m, c) → ∃ f', (u.close_mem n g).mems m = some f' :=
    fun {u n g} hu hd => by
      obtain ⟨-, hne⟩ := Option.filter_eq_some_iff.mp hd
      refine ⟨f, ?_⟩
      rw [View.close_mem_mems, Function.update_of_ne (of_decide_eq_true hne), hu]
      exact hm
  cases he with
  | @close i x hx hg =>
    have hr : (v.close_file h i x).mems = (v.sweep_ctx x.ctx).mems :=
      congrArg (·.1) (View.close_file_regs v h i x)
    rw [hr]
    exact ⟨f, Option.filter_eq_some_iff.mpr ⟨hm, decide_eq_true (.inr hst)⟩⟩
  | ioctl hx hi => exact hi.mem_kept hm
  | mmap hx hr hi => exact hi.mem_kept hm
  | mmap_failed hx hr hi => exact hi.mem_kept hm
  | munmap_mem hw hc hm' => exact hclose rfl hd
  | move_mem hw hr hc hm' => exact hclose rfl hd
  | revoke ht hp hm' => exact View.revoke_mem_kept hm
  | _ => exact ⟨f, hm⟩

/-- The close of a VMA adds no DMA mapping. -/
theorem Effect.closed_dma {i : VmaId} {d : DmaId} {p : MemId × CtrlId} (he : Effect h v s r h' v')
    (hr : r.vma = some i) (hd : v'.dmas d = some p) : v.dmas d = some p := by
  cases he with
  | munmap_mem => exact (Option.filter_eq_some_iff.mp hd).1
  | move_mem => exact (Option.filter_eq_some_iff.mp hd).1
  | opened | not_opened | no_file | munmap | split | split_refused | move | move_taken | no_vma =>
    exact hd
  | _ => cases hr

/-- Where a registration was, its location has not changed. -/
theorem RegOf.loc {m : MemId} {f : BafsMem} (hr : RegOf v m f) :
    m = v.mem_next ∨ ∃ g, v.mems m = some g ∧ g.loc = f.loc := by
  cases hr with
  | kept hm => exact .inr ⟨f, hm, rfl⟩
  | made hm => exact .inl hm
  | pinned hm hp => exact .inr ⟨_, hm, hp.same.loc.symm⟩
  | unpinned hm hp => exact .inr ⟨_, hm, hp.same.loc.symm⟩
  | revoked hm => exact .inr ⟨_, hm, rfl⟩

/-- A registration with all its pages mapped keeps its number of pages. -/
theorem RegOf.chunks {m : MemId} {f f' : BafsMem} {y : BafsMemDma} (hr : RegOf v m f')
    (hm : v.mems m = some f) (hnew : m ≠ v.mem_next) (hp : Paged f) (hch : Chunks f y)
    (hne : y.singles ≠ []) : Chunks f' y := by
  have hpos : f.n_pages ≠ 0 := fun hz => hne (List.eq_nil_of_length_eq_zero (hch.length.trans hz))
  have hn := ((hp.sized hch.loc).resolve_left hpos).2
  have hold : ∀ g, v.mems m = some g → g = f := fun g hg => Option.some.inj (hg.symm.trans hm)
  cases hr with
  | kept hm' =>
    obtain rfl := hold _ hm'
    exact hch
  | made hm' => exact absurd hm' hnew
  | pinned hm' hp' =>
    obtain rfl := hold _ hm'
    have hloc := hp'.same.loc.trans hch.loc
    refine ⟨hloc, (fun hst => by cases hst), hch.length.trans ?_, hch.gran⟩
    exact hn.trans (((hp'.sized hloc).2.trans (by rw [hp'.same.size])).symm)
  | unpinned hm' hp' =>
    obtain rfl := hold _ hm'
    have hloc := hp'.same.loc.trans hch.loc
    refine ⟨hloc, fun hst => hch.state (hp'.same.state.symm.trans hst), hch.length.trans ?_, hch.gran⟩
    exact hn.trans (((hp'.sized hloc).2.trans (by rw [hp'.same.size])).symm)
  | revoked hm' =>
    obtain rfl := hold _ hm'
    exact ⟨hch.loc, (fun hst => by cases hst), hch.length, hch.gran⟩

/-- The registration of a DMA mapping has been made. -/
theorem At.dma_reg_made {d : DmaId} {y : BafsMemDma} (hs : At h v s) (hy : s.dmas.get d = some y) :
    y.mem ≠ v.mem_next := by
  intro hm
  rw [hs.mem_next] at hm
  have hz := (hs.wf.fresh.mem y.mem (Nat.le_of_eq hm.symm)).1
  have := Heap.count_pos (p := fun z : BafsMemDma => z.mem = y.mem) hy rfl
  unfold dma_holders at hz
  omega

/-- A request that adds no DMA mapping leaves those that hold pages with all of their registration. -/
theorem Chunked.step (hc : Chunked s.view.mems s) (he : Effect h s.view s r h' s'.view)
    (hs : At h s.view s) (hs' : At h' s'.view s') (ht : Tidy s.view)
    (hk : ∀ d y', s'.dmas.get d = some y' → ∃ y, s.dmas.get d = some y ∧ same_dma y y') :
    Chunked s'.view.mems s' := by
  have hnew : ∀ d y, s.dmas.get d = some y → y.mem ≠ s.view.mem_next := fun d y hy =>
    hs.dma_reg_made hy
  refine ⟨fun d y' f hy' hf hloc => ?_, fun d y' hy' hne => ?_⟩
  all_goals obtain ⟨y, hy, hsame⟩ := hk d y' hy'
  · have hmem : y'.mem = y.mem := by rw [hsame]
    have haddrs : y'.addrs = y.addrs := by rw [hsame]
    rw [hmem] at hf
    obtain hm | ⟨g, hg, hgloc⟩ := (he.reg_of hf).loc
    · exact absurd hm (hnew d y hy)
    · rw [haddrs]
      exact hc.addrs d y g hy hg (hgloc.trans hloc)
  · have hsingles := same_dma_singles y y' hsame
    have hmem : y'.mem = y.mem := by rw [hsame]
    have hgran : y'.map_gran = y.map_gran := by rw [hsame]
    rw [hsingles] at hne
    obtain ⟨f, hf, hch⟩ := hc.whole d y hy hne
    have hd' : s'.view.dmas d = some (y.mem, y'.ctrl) := hmem ▸ hs'.dma_view hy'
    obtain ⟨f', hf'⟩ := he.mem_kept hf hch.state hd'
    have hch' := (he.reg_of hf').chunks hf (hnew d y hy) (ht.paged hf) hch hne
    exact ⟨f', hmem ▸ hf', hch'.loc, hch'.state, by rw [hsingles, hch'.length], hgran.trans hch'.gran⟩

/-! ## Steps -/

/-- How many pages too many a request unmaps. -/
def request_shortfall (s : State) : Request → Nat
  | .munmap i => (s.vmas.get i).elim 0 (closing_shortfall s)
  | .move i a => (s.vmas.get i).elim 0 fun w =>
    if range_free s w.mm a (a + (w.vm_end - w.vm_start)) then closing_shortfall s w else 0
  | _ => 0

theorem request_shortfall_munmap {i : VmaId} :
    request_shortfall s (.munmap i) = (s.vmas.get i).elim 0 (closing_shortfall s) := rfl

theorem request_shortfall_move {i a : Nat} :
    request_shortfall s (.move i a) = (s.vmas.get i).elim 0 fun w =>
      if range_free s w.mm a (a + (w.vm_end - w.vm_start)) then closing_shortfall s w else 0 := rfl

/-- What a request does to the pages that are mapped for DMA. -/
inductive DmaStep (s : State) (r : Request) (s' : State) : Prop
  | quiet (hg : Recorded no_dma s s') (hn : request_shortfall s r = 0)
  | mapped {i cmd : Nat} {arg : IoctlArg} {env : IoctlEnv} {x : File} (hr : r = .ioctl i cmd arg env)
      (hx : s.files.get i = some x) (hcmd : dma_map_cmd x = some cmd) (ho : Orderly s.view.mems s')
  | closed {i : VmaId} (hr : r.vma = some i) (hg : Recorded any_call s s') (hb : Settled s')
      (hn : past_count s' = past_count s + request_shortfall s r)

theorem unmap_vma_ledger {i : VmaId} {w : Vma} {V : Heap Vma} (hs : At h v s) (hh : NonNeg h)
    (hp : ∀ m f, v.mems m = some f → Paged f) (hc : Chunked v.mems s) (hb : Settled s) :
    wp (unmap_vma i w) (fun _ => True) (fun _ s' => Settled s' ∧
      past_count s' = past_count s + closing_shortfall s w) { s with vmas := V } := by
  unfold unmap_vma
  rw [wp_bind, wp_modify]
  exact close_vma_ledger (hs.with_vmas (V.free i)) hh hp ⟨hc.1, hc.2⟩ hb

theorem step_munmap_ledger {i : VmaId} (hs : At h v s) (hh : NonNeg h)
    (hp : ∀ m f, v.mems m = some f → Paged f) (hc : Chunked v.mems s) (hb : Settled s) :
    wp (step (.munmap i)) (fun _ => True) (fun _ s' => Settled s' ∧
      past_count s' = past_count s + request_shortfall s (.munmap i)) s := by
  rw [request_shortfall_munmap]
  unfold step
  rw [wp_bind, wp_get]
  cases s.vmas.get i with
  | none => exact ⟨hb, rfl⟩
  | some w =>
    exact (unmap_vma_ledger (V := s.vmas) hs hh hp hc hb).bind fun _ s₁ hs₁ => wp_pure.mpr hs₁

theorem step_move_ledger {i a : Nat} (hs : At h v s) (hh : NonNeg h)
    (hp : ∀ m f, v.mems m = some f → Paged f) (hc : Chunked v.mems s) (hb : Settled s) :
    wp (step (.move i a)) (fun _ => True) (fun _ s' => Settled s' ∧
      past_count s' = past_count s + request_shortfall s (.move i a)) s := by
  rw [request_shortfall_move]
  unfold step
  rw [wp_bind, wp_get]
  cases s.vmas.get i with
  | none => exact ⟨hb, rfl⟩
  | some w =>
    dsimp only [Option.elim_some]
    rw [wp_bind, wp_get]
    refine wp_ite (fun hr => ?_) fun hr => ?_
    · rw [if_pos hr, wp_bind, wp_modify, open_vma_eq, wp_bind, wp_pure]
      exact (unmap_vma_ledger hs hh hp hc hb).bind fun _ s₁ hs₁ => wp_pure.mpr hs₁
    · rw [if_neg hr]
      exact ⟨hb, rfl⟩

/-- What each request does to the pages that are mapped for DMA. -/
theorem step_dma (r : Request) (hi : Inv s) (hc : Chunked s.view.mems s) (hl : DmaLedger s) :
    wp (step r) (fun _ => True) (fun _ s' => DmaStep s r s') s := by
  obtain ⟨h, hlost, hs⟩ := hi.sane.at
  have hp : ∀ m f, s.view.mems m = some f → Paged f := fun m f hm => hi.tidy.paged hm
  have hgrows := step_recorded r s (A := any_call) (fun _ _ => trivial) fun _ _ => trivial
  have hquiet : ¬r.maps_dma s → request_shortfall s r = 0 →
      wp (step r) (fun _ => True) (fun _ s' => DmaStep s r s') s := fun hno hn =>
    wp_mono (step_recorded r s (fun _ he => he) fun hm => absurd hm hno) fun _ s' hg => .quiet hg hn
  cases r with
  | munmap i =>
    refine wp_mono (wp_and (step_munmap_ledger hs hlost.nonneg hp hc hl.balanced) hgrows) fun _ s' hs' => ?_
    exact .closed rfl hs'.2 hs'.1.1 hs'.1.2
  | move i a =>
    refine wp_mono (wp_and (step_move_ledger hs hlost.nonneg hp hc hl.balanced) hgrows) fun _ s' hs' => ?_
    exact .closed rfl hs'.2 hs'.1.1 hs'.1.2
  | ioctl i cmd arg env =>
    by_cases hm : ∃ x, s.files.get i = some x ∧ dma_map_cmd x = some cmd
    · obtain ⟨x, hx, hcmd⟩ := hm
      have ho : Orderly s.view.mems s := ⟨hl.balanced, hl.in_range, hc⟩
      unfold step
      rw [wp_bind, wp_get, hx]
      exact (ioctl_orderly hs hlost.nonneg hx hcmd hp ho).bind fun _ s₁ ho₁ =>
        .mapped rfl hx hcmd ho₁
    · exact hquiet hm rfl
  | _ => exact hquiet (fun hm => hm) rfl

theorem DmaStep.settled (hd : DmaStep s r s') (hl : DmaLedger s) : Settled s' := by
  cases hd with
  | quiet hg => exact hl.balanced.extend hg.moved
  | mapped hr hx hcmd ho => exact ho.settled
  | closed hr hg hb hn => exact hb

theorem DmaStep.past_count (hd : DmaStep s r s') (hl : DmaLedger s) :
    past_count s' = request_shortfall s r := by
  have hz : BafsDriver.past_count s = 0 := congrArg List.length hl.in_range
  cases hd with
  | quiet hg hn => rw [hg.past_count, hn, hz]
  | mapped hr hx hcmd ho =>
    subst hr
    exact congrArg List.length ho.in_range
  | closed hr hg hb hn => rw [hn, hz, Nat.zero_add]

/-- A DMA-map request leaves the registrations as they are. -/
theorem Ioctl.dma_map_mems {x : File} {cmd : Nat} {arg : IoctlArg} {env : IoctlEnv}
    {reply : IoctlReply} (hi : Ioctl h v s x cmd arg env reply h' v')
    (hcmd : dma_map_cmd x = some cmd) : v'.mems = v.mems := by
  have hreg : cmd ≠ reg_cmd x := by
    rintro rfl
    cases x <;> cases hcmd
  cases hi with
  | reg_mem hr => exact absurd hr hreg
  | reg_mem_fails hr => exact absurd hr hreg
  | dma_map | refused => rfl
  | create hx => exact absurd (hx ▸ hcmd) (by simp [dma_map_cmd])
  | delete hx => exact absurd (hx ▸ hcmd) (by simp [dma_map_cmd])

theorem Effect.dma_map_mems {i cmd : Nat} {arg : IoctlArg} {env : IoctlEnv} {x : File}
    (he : Effect h v s (.ioctl i cmd arg env) h' v') (hx : v.files.get i = some x)
    (hcmd : dma_map_cmd x = some cmd) : v'.mems = v.mems := by
  cases he with
  | ioctl hx' hi =>
    obtain rfl := Option.some.inj (hx.symm.trans hx')
    exact hi.dma_map_mems hcmd
  | no_file hr hx' =>
    obtain rfl := Option.some.inj hr
    cases hx.symm.trans hx'
  | opened ho => exact ho.elim
  | not_opened => rfl
  | no_vma hr => cases hr

theorem DmaStep.chunked (hd : DmaStep s r s') (he : Effect h s.view s r h' s'.view)
    (hs : At h s.view s) (hs' : At h' s'.view s') (ht : Tidy s.view) (hc : Chunked s.view.mems s) :
    Chunked s'.view.mems s' := by
  cases hd with
  | quiet hg => exact hc.step he hs hs' ht fun _ _ hy => hg.get_dma hy
  | mapped hr hx hcmd ho =>
    subst hr
    rw [he.dma_map_mems hx hcmd]
    exact ho.chunked
  | closed hr hg =>
    refine hc.step he hs hs' ht fun d y' hy' => ?_
    have hold := he.closed_dma hr (hs'.dma_view hy')
    obtain ⟨y, hy, -⟩ := hs.dma_live hold
    obtain hlt | hkept := hg.dmas.kept d y' hy'
    · exact absurd (Heap.lt_next_of_get hy) (Nat.not_lt.mpr hlt)
    · exact hkept

theorem DmaStep.ledger_iff (hd : DmaStep s r s') (hl : DmaLedger s) (hc : Chunked s'.view.mems s') :
    DmaLedger s' ↔ request_shortfall s r = 0 := by
  rw [← hd.past_count hl]
  refine ⟨fun hl' => congrArg List.length hl'.in_range, fun hz => ?_⟩
  refine ⟨hd.settled hl, List.eq_nil_of_length_eq_zero hz, fun d y hy hne => ?_⟩
  obtain ⟨f, hf, -⟩ := hc.whole d y hy hne
  exact view_mem_iff.mp ⟨f, hf⟩

/-- The close counts no page too many exactly if every page is mapped. -/
theorem closing_shortfall_eq_zero {w : Vma} {m : MemId} {x : BafsMem} (hs : At h s.view s)
    (ht : Tidy s.view) (hc : Chunked s.view.mems s) (hw : w.closes = some m)
    (hx : s.mems.get m = some x) : closing_shortfall s w = 0 ↔ all_mapped s m := by
  have hsum : closing_shortfall s w = shortfalls s x x.dma_list := by
    unfold closing_shortfall
    rw [hw, Option.bind_some, hx, Option.elim_some]
  have hu : ∀ d y, s.dmas.get d = some y → y.mem = m → Undoable x y := fun d y hy hym =>
    hc.undoable (ht.paged (hs.mem_view hx)) hy (hym ▸ hs.mem_view hx)
  rw [hsum]
  unfold shortfalls
  rw [List.sum_eq_zero_iff]
  refine ⟨fun hz => ⟨x, hx, fun hloc d y hy hym => ?_⟩, ?_⟩
  · have hd := (hs.wf.dmas.listed m x d hx).mpr ⟨y, hy, hym⟩
    have hzero := hz _ (List.mem_map.mpr ⟨d, hd, rfl⟩)
    rw [hy, Option.elim_some, shortfall, if_pos hloc] at hzero
    exact le_antisymm (hu d y hy hym).length_le (Nat.sub_eq_zero_iff_le.mp hzero)
  · rintro ⟨x', hx', hall⟩ n hn
    obtain rfl := Option.some.inj (hx.symm.trans hx')
    obtain ⟨d, hd, rfl⟩ := List.mem_map.mp hn
    obtain ⟨y, hy, hym⟩ := (hs.wf.dmas.listed m x d hx).mp hd
    rw [hy, Option.elim_some]
    unfold shortfall
    by_cases hloc : x.loc = BAFS_MEM_CPU
    · rw [if_pos hloc, hall hloc d y hy hym, Nat.sub_self]
    · rw [if_neg hloc]

/-- A request that ends counts no page too many exactly if it meets the condition. -/
theorem Effect.settles_iff (he : Effect h s.view s r h' v') (hs : At h s.view s) (ht : Tidy s.view)
    (hc : Chunked s.view.mems s) : request_shortfall s r = 0 ↔ settles s r := by
  have hnone : ∀ {w : Vma}, w.closes = none → closing_shortfall s w = 0 := fun hw => by
    unfold closing_shortfall
    rw [hw]
    rfl
  have hmunmap : ∀ {i : VmaId} {w : Vma}, s.vmas.get i = some w →
      request_shortfall s (.munmap i) = closing_shortfall s w := fun hw => by
    rw [request_shortfall_munmap, hw, Option.elim_some]
  have hmove : ∀ {i a : Nat} {w : Vma}, s.vmas.get i = some w → request_shortfall s (.move i a) =
      if range_free s w.mm a (a + (w.vm_end - w.vm_start)) then closing_shortfall s w else 0 :=
    fun hw => by rw [request_shortfall_move, hw, Option.elim_some]
  cases he with
  | opened hr => cases r <;> first | exact iff_of_true rfl trivial | exact hr.elim
  | not_opened hr => cases r <;> first | exact iff_of_true rfl trivial | exact hr.elim
  | no_file hr =>
    cases r with
    | close | ioctl | mmap => exact iff_of_true rfl trivial
    | _ => cases hr
  | @munmap i w hw hcl =>
    refine iff_of_true ((hmunmap hw).trans (hnone hcl)) fun w' m hw' hm => ?_
    obtain rfl := Option.some.inj (hw.symm.trans hw')
    cases ((ht.closes i _ hw).symm.trans hcl).symm.trans hm
  | @munmap_mem i w m f hw hcl hm =>
    obtain ⟨x, hx, -⟩ := hs.mem_live hm
    have hwm : w.vm_private_data = some m := (ht.closes i w hw).symm.trans hcl
    rw [hmunmap hw, closing_shortfall_eq_zero hs ht hc hcl hx]
    refine ⟨fun hall w' n hw' hn => ?_, fun hall => hall w m hw hwm⟩
    obtain rfl := Option.some.inj (hw.symm.trans hw')
    obtain rfl := Option.some.inj (hwm.symm.trans hn)
    exact hall
  | @move i a w hw hr hcl =>
    refine iff_of_true ((hmove hw).trans ?_) fun w' m hw' hm _ => ?_
    · rw [if_pos hr]
      exact hnone hcl
    · obtain rfl := Option.some.inj (hw.symm.trans hw')
      cases ((ht.closes i _ hw).symm.trans hcl).symm.trans hm
  | @move_mem i a w m f hw hr hcl hm =>
    obtain ⟨x, hx, -⟩ := hs.mem_live hm
    have hwm : w.vm_private_data = some m := (ht.closes i w hw).symm.trans hcl
    rw [hmove hw, if_pos hr, closing_shortfall_eq_zero hs ht hc hcl hx]
    refine ⟨fun hall w' n hw' hn _ => ?_, fun hall => hall w m hw hwm hr⟩
    obtain rfl := Option.some.inj (hw.symm.trans hw')
    obtain rfl := Option.some.inj (hwm.symm.trans hn)
    exact hall
  | @move_taken i a w hw hr =>
    refine iff_of_true ((hmove hw).trans (if_neg hr)) fun w' m hw' hm hr' => ?_
    obtain rfl := Option.some.inj (hw.symm.trans hw')
    exact absurd hr' hr
  | @no_vma r i hr hw =>
    have hw : s.vmas.get i = none := hw
    cases r with
    | munmap j =>
      obtain rfl := Option.some.inj hr
      refine iff_of_true ?_ fun w m hw' => by cases hw.symm.trans hw'
      rw [request_shortfall_munmap, hw, Option.elim_none]
    | split => exact iff_of_true rfl trivial
    | move j a =>
      obtain rfl := Option.some.inj hr
      refine iff_of_true ?_ fun w m hw' => by cases hw.symm.trans hw'
      rw [request_shortfall_move, hw, Option.elim_none]
    | _ => cases hr
  | @revoke t x f htab hp hm =>
    refine iff_of_true rfl fun y hy _ => ?_
    obtain rfl := Option.some.inj (htab.symm.trans hy)
    exact view_mem_iff.mp ⟨f, hm⟩
  | @revoke_refused t hn =>
    refine iff_of_true rfl fun y hy hp => ?_
    cases (hn y hy).symm.trans hp
  | _ => exact iff_of_true rfl trivial

/-- A request that does not meet the condition gets stuck, if at all, on a registration that has been
freed. -/
theorem settles_of_stuck {e : Fault} (hst : Stuck s.view s r e) (ht : Tidy s.view)
    (he : e ≠ .freed_mem) : settles s r := by
  cases hst with
  | table_short hr hm hf => exact absurd (ht.fits _ _ hm) hf
  | vma_freed => exact absurd rfl he
  | table_freed => exact absurd rfl he
  | group_freed hr =>
    cases r with
    | close | ioctl | mmap => trivial
    | _ => cases hr
  | wrong_type | wrong_table | null_page_table => trivial

theorem not_settles_of_freed (hst : Stuck s.view s r .freed_mem) (ht : Tidy s.view) :
    ¬settles s r := by
  have hgone : ∀ {m : MemId}, s.view.mems m = none → ¬all_mapped s m := fun hm ⟨x, hx, _⟩ => by
    obtain ⟨f, hf⟩ := view_mem_iff.mpr ⟨x, hx⟩
    cases hm.symm.trans hf
  cases hst with
  | @vma_freed r m hr hm =>
    intro hk
    cases r with
    | munmap i =>
      obtain ⟨w, hw, hc⟩ := hr
      exact hgone hm (hk w m hw ((ht.closes i w hw).symm.trans hc))
    | move i a =>
      obtain ⟨w, hw, hc, hfree⟩ := hr
      exact hgone hm (hk w m hw ((ht.closes i w hw).symm.trans hc) hfree)
    | _ => exact hr.elim
  | @table_freed t x htab hp hm =>
    intro hk
    obtain ⟨f, hf⟩ := view_mem_iff.mpr (hk x htab hp)
    cases hm.symm.trans hf

/-- The invariant between two requests, with what the DMA mappings hold. -/
structure DmaInv (s : State) : Prop where
  inv : Inv s
  chunked : Chunked s.view.mems s

/-- One request: the ledger is kept exactly if the request closes no VMA with pages too many. -/
theorem step_dma_ledger_iff (r : Request) (hi : DmaInv s) (hl : DmaLedger s) :
    (wp (step r) (fun e => e ≠ .freed_mem) (fun _ s' => DmaLedger s') s ↔ settles s r) ∧
      wp (step r) (fun _ => True) (fun _ s' => DmaInv s') s := by
  obtain ⟨h, hlost, hs, hstep⟩ := step_inv r hi.inv
  have hboth := wp_and hstep (step_dma r hi.inv hi.chunked hl)
  have hkept : ∀ {s'}, ((Inv s' ∧ ∃ h', Lost h' ∧ At h' s'.view s' ∧ Effect h s.view s r h' s'.view) ∧
      DmaStep s r s') → DmaInv s' ∧ (DmaLedger s' ↔ settles s r) := fun {s'} hs' => by
    obtain ⟨⟨hinv, h', -, hs', he⟩, hd⟩ := hs'
    have hc := hd.chunked he hs hs' hi.inv.tidy hi.chunked
    exact ⟨⟨hinv, hc⟩, (hd.ledger_iff hl hc).trans (he.settles_iff hs hi.inv.tidy hi.chunked)⟩
  refine ⟨⟨fun hw => ?_, fun hk => ?_⟩, ?_⟩
  · by_contra hk
    obtain ⟨_, s', hs', hl'⟩ := wp_join hboth hw fun e hst hne =>
      hk (settles_of_stuck hst hi.inv.tidy hne)
    exact hk ((hkept hs').2.mp hl')
  · refine wp_weaken (wp_mono hboth fun _ s' hs' => (hkept hs').2.mpr hk) fun e hst => ?_
    rintro rfl
    exact not_settles_of_freed hst hi.inv.tidy hk
  · exact wp_weaken (wp_mono hboth fun _ s' hs' => (hkept hs').1) fun _ _ => trivial

theorem init_no_dma {d : DmaId} {y : BafsMemDma} (hy : init.dmas.get d = some y) : False := by
  cases (Heap.get_empty (i := d) : init.dmas.get d = none).symm.trans hy

theorem init_chunked : Chunked init.view.mems init :=
  ⟨fun _ _ _ hy => (init_no_dma hy).elim, fun _ _ hy => (init_no_dma hy).elim⟩

theorem init_ledger : DmaLedger init := by
  refine ⟨⟨fun e => rfl, fun past hp e => ?_⟩, rfl, fun d y hy => (init_no_dma hy).elim⟩
  rw [List.suffix_nil.mp hp]
  rfl

/-- In every run each page that was mapped for a device is unmapped once, before its registration is
freed, and nothing else is unmapped, exactly if no request closes a VMA whose registration has got
pages after it was mapped for DMA. -/
theorem dma_ledger (rs : List Request) :
    Always step (fun e => e ≠ .freed_mem) DmaLedger rs init ↔ Along step settles rs init :=
  always_iff_along (I := DmaInv) (fun _ r hi hl _ => (step_dma_ledger_iff r hi hl).2)
    (fun _ r hi hl => (step_dma_ledger_iff r hi hl).1) rs ⟨inv_init, init_chunked⟩ init_ledger

/-- A registration that was never pinned is mapped for DMA at address 0; then it is pinned, and its VMA
is unmapped. -/
def mapped_before_pinned : List Request :=
  [.bind 0 0x1000 0x1000, .open_ctrl 0 a_task granted_open,
    .reg_mem 0 BAFS_CTRL_IOC_REG_MEM 4096 BAFS_MEM_CPU, .dma_map 0 0, .map 0 0x10000 1 1, .munmap 0]

/-- The unmapping reads an address past the end. -/
theorem mapped_before_pinned_reads_on :
    ¬Always step (fun e => e ≠ .freed_mem) DmaLedger mapped_before_pinned init := by
  intro h
  obtain ⟨s, hs, hd⟩ := h.of_ends (p := fun s => ¬(calls past_end s).isEmpty) (by decide +kernel)
  rw [hs.in_range] at hd
  cases hd

end BafsDriver
