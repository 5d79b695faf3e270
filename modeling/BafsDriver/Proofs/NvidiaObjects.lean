import BafsDriver.Proofs.GroupMapResult
import BafsDriver.Lib.Disposal

/-!
# Objects of the NVIDIA driver

Page tables and mappings are got from the NVIDIA driver and must be given back to it. The source of
that driver is not at hand, and there are two readings of which calls destroy them. What each function
gets and destroys is followed here under either reading.
-/

set_option linter.style.nameCheck false

namespace BafsDriver

open Prog Disposal

/-! ## Two readings -/

/-- Which calls destroy a page table or a mapping. -/
inductive Reading where
  /-- `nvidia_p2p_put_pages` and `nvidia_p2p_dma_unmap_pages` do, and the free functions. -/
  | release_destroys
  /-- Only the free functions do. -/
  | free_destroys
  deriving DecidableEq

/-- The page table that the call destroys. -/
def Reading.table_of (X : Reading) : Event → Option TableId
  | .nvidia_p2p_put_pages t => if X = .release_destroys then some t else none
  | .nvidia_p2p_free_page_table t => t
  | _ => none

/-- The mapping that the call destroys. -/
def Reading.mapping_of (X : Reading) : Event → Option MappingId
  | .nvidia_p2p_dma_unmap_pages _ _ p => if X = .release_destroys then some p else none
  | .nvidia_p2p_free_dma_mapping p => some p
  | _ => none

/-- The page table of the registration `m`. -/
def table_held (s : State) (m : MemId) : Option TableId :=
  (s.mems.get m).bind BafsMem.cuda_page_table

/-- The mapping of the NVIDIA driver in the DMA mapping `d`. -/
def mapping_held (s : State) (d : DmaId) : Option MappingId :=
  (s.dmas.get d).bind BafsMemDma.cuda_mapping

/-- Each page table and each mapping that was got is in its registration, or in its DMA mapping, and
has not been destroyed, or it has been destroyed once. -/
structure DestroyedOnce (X : Reading) (s : State) : Prop where
  tables : Once (table_held s) s.tables.next (calls X.table_of s)
  mappings : Once (mapping_held s) s.mappings.next (calls X.mapping_of s)

/-- The registrations with a page table and those whose DMA mappings have a mapping of the NVIDIA
driver are of CUDA memory and live; `M` gives the registrations. -/
structure CudaLive (M : MemId → Option BafsMem) (s : State) : Prop where
  tables : ∀ m f t, M m = some f → f.cuda_page_table = some t →
    f.loc = BAFS_MEM_CUDA ∧ f.state = .LIVE
  mappings : ∀ d y p, s.dmas.get d = some y → y.cuda_mapping = some p →
    ∃ f, M y.mem = some f ∧ f.loc = BAFS_MEM_CUDA ∧ f.state = .LIVE

variable {h : Held Kind} {v : View} {s s' t : State} {E : Fault → Prop} {X : Reading}
  {M : MemId → Option BafsMem}

/-! ## Calls that destroy nothing -/

/-- The calls that destroy neither a page table nor a mapping under either reading. -/
def harmless : Event → Prop
  | .nvidia_p2p_put_pages _ => False
  | .nvidia_p2p_free_page_table _ => False
  | .nvidia_p2p_dma_unmap_pages .. => False
  | .nvidia_p2p_free_dma_mapping _ => False
  | _ => True

theorem harmless_destroys {e : Event} (he : harmless e) :
    X.table_of e = none ∧ X.mapping_of e = none := by
  cases e with
  | nvidia_p2p_put_pages | nvidia_p2p_free_page_table | nvidia_p2p_dma_unmap_pages
  | nvidia_p2p_free_dma_mapping => exact he.elim
  | _ => exact ⟨rfl, rfl⟩

theorem plain_call_harmless {e : Event} (he : plain_call e) : harmless e := by
  cases e <;> first | exact trivial | exact he.elim

theorem table_call_destroys {e : Event} (he : table_call e) : X.mapping_of e = none := by
  cases e <;> first | rfl | exact he.elim

/-- What is held and what has been destroyed. -/
def Reading.custody (X : Reading) (s : State) :
    (MemId → Option TableId) × Nat × List TableId × (DmaId → Option MappingId) × Nat ×
      List MappingId :=
  (table_held s, s.tables.next, calls X.table_of s, mapping_held s, s.mappings.next,
    calls X.mapping_of s)

theorem DestroyedOnce.of_custody (ho : DestroyedOnce X s) (he : X.custody s' = X.custody s) :
    DestroyedOnce X s' := by
  obtain ⟨h1, he⟩ := Prod.mk.inj he
  obtain ⟨h2, he⟩ := Prod.mk.inj he
  obtain ⟨h3, he⟩ := Prod.mk.inj he
  obtain ⟨h4, he⟩ := Prod.mk.inj he
  obtain ⟨h5, h6⟩ := Prod.mk.inj he
  refine ⟨?_, ?_⟩
  · rw [h1, h2, h3]
    exact ho.tables
  · rw [h4, h5, h6]
    exact ho.mappings

theorem harmless_calls {l : List Event} (ht : s'.trace = l ++ s.trace) (hl : ∀ e ∈ l, harmless e) :
    calls X.table_of s' = calls X.table_of s ∧ calls X.mapping_of s' = calls X.mapping_of s := by
  rw [calls_append ht, calls_append ht]
  rw [List.filterMap_eq_nil_iff.mpr fun e he => (harmless_destroys (hl e he)).1]
  rw [List.filterMap_eq_nil_iff.mpr fun e he => (harmless_destroys (hl e he)).2]
  exact ⟨rfl, rfl⟩

theorem table_held_congr (hm : s'.mems = s.mems) : table_held s' = table_held s := by
  unfold table_held
  rw [hm]

theorem mapping_held_congr (hd : s'.dmas = s.dmas) : mapping_held s' = mapping_held s := by
  unfold mapping_held
  rw [hd]

/-- The page tables of the registrations show in the view. -/
theorem table_held_view : table_held s = fun m => (s.view.mems m).bind BafsMem.cuda_page_table := by
  funext m
  show (s.mems.get m).bind _ = ((s.mems.get m).map BafsMem.fields).bind _
  cases s.mems.get m <;> rfl

theorem At.table_held (hs : At h v s) :
    table_held s = fun m => (v.mems m).bind BafsMem.cuda_page_table := by
  rw [← hs.view]
  exact table_held_view

/-- A count or a list of a registration is no page table. -/
theorem table_held_set {m : MemId} {x z : BafsMem} (hx : s.mems.get m = some x)
    (hc : z.cuda_page_table = x.cuda_page_table) (hm : s'.mems = s.mems.set m z) :
    table_held s' = table_held s := by
  funext n
  unfold table_held
  rw [hm, Heap.get_set hx]
  by_cases hn : n = m
  · rw [if_pos hn, hn, hx, Option.bind_some, Option.bind_some, hc]
  · rw [if_neg hn]

theorem mapping_held_alloc {y : BafsMemDma} (hd : s'.dmas = s.dmas.alloc y) :
    mapping_held s' = Function.update (mapping_held s) s.dmas.next y.cuda_mapping := by
  funext d
  unfold mapping_held
  rw [hd, Heap.get_alloc, Function.update_apply]
  by_cases hn : d = s.dmas.next
  · rw [if_pos hn, if_pos hn, Option.bind_some]
  · rw [if_neg hn, if_neg hn]

theorem mapping_held_next : mapping_held s s.dmas.next = none := by
  unfold mapping_held
  rw [Heap.get_next]
  rfl

theorem mapping_held_free {d : DmaId} (hd : s'.dmas = s.dmas.free d) :
    mapping_held s' = Function.update (mapping_held s) d none := by
  funext e
  unfold mapping_held
  rw [hd, Heap.get_free, Function.update_apply]
  by_cases he : e = d
  · rw [if_pos he, if_pos he]
    rfl
  · rw [if_neg he, if_neg he]

/-! ## Mapping -/

/-- The mapping of CUDA memory is granted, and its addresses are not all copied to the user. -/
def copy_fails (f : BafsMem) (env : DmaMapEnv) : Prop :=
  f.loc = BAFS_MEM_CUDA ∧ ∃ addrs, granted_addrs f env = some addrs ∧
    min env.copy_to_user addrs.length ≠ 0

section Map

variable {c : CtrlId} {m : MemId} {x : BafsMem} {k : BafsCtrl} {n user id j : Nat} {env : DmaMapEnv}
  {r : Int × Nat × Option DmaId}

theorem map_calls_harmless {answer : Nat → Option Nat} :
    ∀ e ∈ map_calls c x answer j, harmless e := by
  intro e he
  obtain ⟨i, -, rfl⟩ := List.mem_map.mp he
  trivial

theorem unmap_calls_harmless {answer : Nat → Option Nat} :
    ∀ e ∈ unmap_calls c x answer j, harmless e := by
  intro e he
  obtain ⟨i, -, rfl⟩ := List.mem_map.mp he
  trivial

/-- Whatever comes of a mapping, what it got is kept or destroyed once, unless a copy fails and only
the free functions destroy. -/
theorem MapResult.destroyed (hr : MapResult s c m x k n user id env r s')
    (hx : s.mems.get m = some x) (ho : DestroyedOnce X s)
    (hX : X = .free_destroys → ¬copy_fails x env) : DestroyedOnce X s' := by
  have hquiet : ∀ {B : Heap Unit} {l : List Event}, (∀ e ∈ l, harmless e) →
      DestroyedOnce X (s.after B s.mappings (l ++ s.trace)) := by
    intro B l hl
    have htrace : (s.after B s.mappings (l ++ s.trace)).trace = l ++ s.trace := rfl
    obtain ⟨h1, h2⟩ := harmless_calls (X := X) htrace hl
    refine ho.of_custody ?_
    unfold Reading.custody
    rw [h1, h2]
    rfl
  have hmems : ∀ {t : State} {d : DmaId}, t.mems = s.mems.set m { x with
      ref := x.ref + 1, dma_list := d :: x.dma_list } → table_held t = table_held s :=
    fun {_ d} hm => table_held_set
      (z := { x with ref := x.ref + 1, dma_list := d :: x.dma_list }) hx rfl hm
  cases hr with
  | refused hret hg hT =>
    rcases hT with rfl | rfl
    · exact hquiet (l := []) fun e he => by cases he
    · refine hquiet (l := [_]) fun e he => ?_
      rw [List.mem_singleton.mp he]
      trivial
  | @cut_short B i hloc hj hg =>
    rw [← List.append_assoc]
    refine hquiet fun e he => ?_
    rcases List.mem_append.mp he with he | he
    · exact unmap_calls_harmless e he
    · exact map_calls_harmless e (List.mem_reverse.mp he)
  | @cpu_not_copied B addrs hloc hg hcopy =>
    rw [← List.cons_append, ← List.append_assoc]
    refine hquiet fun e he => ?_
    rcases List.mem_append.mp he with he | he
    · exact unmap_calls_harmless e he
    rcases List.mem_cons.mp he with rfl | he
    · trivial
    · exact map_calls_harmless e (List.mem_reverse.mp he)
  | @cuda_not_copied B addrs t hloc ht hg hcopy =>
    have hA : X = .release_destroys := by
      cases X with
      | release_destroys => rfl
      | free_destroys => exact absurd ⟨hloc, addrs, hg, hcopy⟩ (hX rfl)
    subst hA
    refine ⟨ho.tables, ?_⟩
    show Once (mapping_held s) (s.mappings.alloc _).next (s.mappings.next :: calls _ s)
    rw [Heap.next_alloc]
    exact ho.mappings.lose
  | @cpu_mapped addrs hloc hg hcopy =>
    have htrace : ((s.after ((s.blocks.alloc ()).alloc ()) s.mappings (copy_call user env addrs ::
        ((map_calls c x env.dma_map_single x.n_pages).reverse ++ s.trace))).add_dma
          (cpu_dma s c m x env) x k).trace = (copy_call user env addrs ::
        (map_calls c x env.dma_map_single x.n_pages).reverse) ++ s.trace := rfl
    obtain ⟨h1, h2⟩ := harmless_calls (X := X) htrace fun e he => by
        rcases List.mem_cons.mp he with rfl | he
        · trivial
        · exact map_calls_harmless e (List.mem_reverse.mp he)
    refine ho.of_custody ?_
    unfold Reading.custody
    rw [h1, h2, hmems rfl, mapping_held_alloc (s := s) rfl]
    rw [show (cpu_dma s c m x env).cuda_mapping = mapping_held s s.dmas.next from
      mapping_held_next.symm, Function.update_eq_self]
    rfl
  | @cuda_mapped addrs t hloc ht hg hcopy =>
    refine ⟨?_, ?_⟩
    · rw [hmems rfl]
      exact ho.tables
    · rw [mapping_held_alloc (s := s) rfl]
      show Once _ (s.mappings.alloc _).next (calls X.mapping_of s)
      rw [Heap.next_alloc]
      exact ho.mappings.take mapping_held_next

end Map

/-! ## Unmapping -/

section Undo

variable {x : BafsMem} {y : BafsMemDma}

/-- Unmapping makes two calls for a mapping of the NVIDIA driver, and harmless ones for pages. -/
theorem undo_calls_cases : (∀ e ∈ undo_calls y x, harmless e) ∨
    ∃ p, y.cuda_mapping = some p ∧ undo_calls y x =
      [.nvidia_p2p_free_dma_mapping p, .nvidia_p2p_dma_unmap_pages y.ctrl x.cuda_page_table p] := by
  unfold undo_calls
  by_cases h0 : x.loc = BAFS_MEM_CPU
  · left
    rw [if_pos h0]
    intro e he
    cases ha : y.addrs with
    | none =>
      rw [ha] at he
      cases he
    | some a =>
      rw [ha] at he
      obtain ⟨i, -, rfl⟩ := List.mem_map.mp (List.mem_reverse.mp he)
      unfold unmap_call
      split <;> trivial
  rw [if_neg h0]
  by_cases h1 : x.loc = BAFS_MEM_CUDA
  swap
  · left
    rw [if_neg h1]
    intro e he
    cases he
  rw [if_pos h1]
  cases hp : y.cuda_mapping with
  | none =>
    left
    intro e he
    cases he
  | some p =>
    by_cases hst : x.state ≠ .DEAD_CB
    · exact .inr ⟨p, rfl, if_pos hst⟩
    · left
      dsimp only
      rw [if_neg hst]
      intro e he
      cases he

theorem undo_calls_tables : (undo_calls y x).filterMap X.table_of = [] := by
  rcases undo_calls_cases (y := y) (x := x) with hl | ⟨p, -, hl⟩
  · exact List.filterMap_eq_nil_iff.mpr fun e he => (harmless_destroys (hl e he)).1
  · rw [hl]
    rfl

/-- Unmapping destroys the mapping once, where only the free functions do or there is none. -/
theorem undo_calls_mappings
    (hl : ∀ p, y.cuda_mapping = some p → x.loc = BAFS_MEM_CUDA ∧ x.state = .LIVE)
    (hX : X = .release_destroys → y.cuda_mapping = none) :
    (undo_calls y x).filterMap X.mapping_of = y.cuda_mapping.toList := by
  cases hy : y.cuda_mapping with
  | none =>
    rcases undo_calls_cases (y := y) (x := x) with hh | ⟨p, hp, -⟩
    · exact List.filterMap_eq_nil_iff.mpr fun e he => (harmless_destroys (hh e he)).2
    · cases hy.symm.trans hp
  | some p =>
    obtain ⟨hloc, hst⟩ := hl p hy
    have hundo : undo_calls y x = [.nvidia_p2p_free_dma_mapping p,
        .nvidia_p2p_dma_unmap_pages y.ctrl x.cuda_page_table p] := by
      unfold undo_calls
      rw [if_neg (by rw [hloc]; decide), if_pos hloc, hy]
      exact if_pos (by rw [hst]; decide)
    have hXB : X = .free_destroys := by
      cases X with
      | release_destroys => cases hy.symm.trans (hX rfl)
      | free_destroys => rfl
    rw [hundo, hXB]
    rfl

end Undo

theorem CudaLive.free {d : DmaId} (hl : CudaLive M s) (hd : s'.dmas = s.dmas.free d) :
    CudaLive M s' := by
  refine ⟨hl.tables, fun e y p hy hp => ?_⟩
  rw [hd] at hy
  exact hl.mappings e y p (Heap.get_of_free hy).2 hp

/-- Unmapping keeps the account, where only the free functions destroy or there is no mapping of the
NVIDIA driver. -/
theorem unmap_dma_destroyed {d : DmaId} {y : BafsMemDma} {x : BafsMem} (hs : At h v s)
    (hh : NonNeg h) (hy : s.dmas.get d = some y) (hx : s.mems.get y.mem = some x)
    (hl : CudaLive v.mems s) (ho : DestroyedOnce X s)
    (hX : X = .release_destroys → y.cuda_mapping = none) :
    wp (unmap_dma d) (fun _ => True) (fun _ s' => DestroyedOnce X s' ∧ s'.dmas = s.dmas.free d ∧
      At (h + tok Kind.mem y.mem) (v.drop_dma d) s') s := by
  refine wp_mono (wp_and (unmap_dma_spec hs hh (hs.dma_view hy) (hs.mem_view hx))
    (unmap_dma_calls hy hx)) fun _ s₁ hs₁ => ?_
  obtain ⟨hs₁, t, ht, hd, hm, hg⟩ := hs₁
  obtain ⟨hd₁, hm₁⟩ := Prod.mk.inj (hg.still fun _ he => he)
  have hgone : ∀ {α : Type} (p : Event → Option α),
      calls p s₁ = (undo_calls y x).filterMap p ++ calls p s := by
    intro α p
    rw [hg.calls fun _ he => he.elim]
    exact calls_append ht
  have hlive : ∀ p, y.cuda_mapping = some p → x.loc = BAFS_MEM_CUDA ∧ x.state = .LIVE := by
    intro p hp
    obtain ⟨f, hf, hloc, hst⟩ := hl.mappings d y p hy hp
    obtain rfl := Option.some.inj (hf.symm.trans (hs.mem_view hx))
    exact ⟨hloc, hst⟩
  have hheld : mapping_held s d = y.cuda_mapping := by
    unfold mapping_held
    rw [hy]
    rfl
  refine ⟨⟨?_, ?_⟩, hd₁.trans hd, hs₁⟩
  · rw [hs₁.table_held, hs₁.tables_eq, hgone, undo_calls_tables]
    have hold := ho.tables
    rw [hs.table_held, hs.tables_eq] at hold
    exact hold
  · rw [mapping_held_free (hd₁.trans hd), hm₁, hm, hgone, undo_calls_mappings hlive hX, ← hheld]
    exact ho.mappings.give

/-- The reference that unmapping leaves is not the last one. -/
theorem bafs_mem_put_shared {m : MemId} {f : BafsMem} (hs : At (h + tok Kind.mem m) v s)
    (hh : NonNeg h) (hm : v.mems m = some f) :
    wp (bafs_mem_put m) E (fun _ s' => ∃ x, s.mems.get m = some x ∧
      s' = { s with mems := s.mems.set m { x with ref := x.ref - 1 } }) s := by
  obtain ⟨x, hx, -⟩ := hs.mem_live hm
  have heq := hs.wf.mem.eq m x hx
  have hc := hh .mem m (by decide)
  rw [add_tok_self] at heq
  exact (wp_mem_put_kept hx (by omega)).mpr ⟨x, hx, rfl⟩

theorem DestroyedOnce.put {m : MemId} {x : BafsMem} (ho : DestroyedOnce X s)
    (hx : s.mems.get m = some x)
    (hs : s' = { s with mems := s.mems.set m { x with ref := x.ref - 1 } }) :
    DestroyedOnce X s' := by
  refine ho.of_custody ?_
  unfold Reading.custody
  rw [table_held_set (s := s) (z := { x with ref := x.ref - 1 }) hx rfl (by rw [hs]), hs]
  rfl

/-- Taking a mapping back keeps the account, where only the free functions destroy or there is no
mapping of the NVIDIA driver. -/
theorem bafs_ctrl_dma_unmap_mem_destroyed {d : DmaId} {m : MemId} {c : CtrlId} {f : BafsMem}
    (hs : At h v s) (hh : NonNeg h) (hd : v.dmas d = some (m, c)) (hm : v.mems m = some f)
    (hl : CudaLive v.mems s) (ho : DestroyedOnce X s)
    (hX : X = .release_destroys → mapping_held s d = none) :
    wp (bafs_ctrl_dma_unmap_mem d) (fun _ => True) (fun _ s' => DestroyedOnce X s' ∧
      s'.dmas = s.dmas.free d ∧ At h (v.drop_dma d) s') s := by
  obtain ⟨y, hy, rfl, rfl⟩ := hs.dma_live hd
  obtain ⟨x, hx, -⟩ := hs.mem_live hm
  have hheld : mapping_held s d = y.cuda_mapping := by
    unfold mapping_held
    rw [hy]
    rfl
  rw [hheld] at hX
  unfold bafs_ctrl_dma_unmap_mem
  rw [wp_bind, wp_dma_at hy]
  refine (unmap_dma_destroyed hs hh hy hx hl ho hX).bind fun _ s₁ hs₁ => ?_
  obtain ⟨ho₁, hd₁, hs₁⟩ := hs₁
  refine wp_mono (wp_and (bafs_mem_put_spec hs₁ hh hm) (bafs_mem_put_shared (E := fun _ => True) hs₁ hh hm)) fun _ s₂ hs₂ => ?_
  obtain ⟨hs₂, x₁, hx₁, hput⟩ := hs₂
  refine ⟨ho₁.put hx₁ hput, ?_, hs₂⟩
  rw [hput]
  exact hd₁

/-! ## DMA-map requests -/

/-- A request that maps CUDA memory for `n` controllers takes a mapping back: the first controller was
served, and another was not or `left` words of the parameters could not be copied. -/
def takes_back (f : BafsMem) (env : Nat → DmaMapEnv) (n left : Nat) : Prop :=
  f.loc = BAFS_MEM_CUDA ∧ 0 < n ∧ copied f (env 0) ∧ (left ≠ 0 ∨ ∃ i < n, ¬copied f (env i))

/-- A request that maps for `n` controllers fails when it copies the addresses of CUDA memory. -/
def loses_copy (f : BafsMem) (env : Nat → DmaMapEnv) (n : Nat) : Prop :=
  ∃ i < n, (∀ j < i, copied f (env j)) ∧ copy_fails f (env i)

/-- The request that maps `f` follows the reading. -/
def Reading.maps (X : Reading) (f : BafsMem) (env : Nat → DmaMapEnv) (n left : Nat) : Prop :=
  match X with
  | .release_destroys => ¬takes_back f env n left
  | .free_destroys => ¬loses_copy f env n

section Requests

variable {ctx : CtxId} {vaddr : Nat} {c : CtrlId}

theorem CudaLive.keep (hl : CudaLive M s) (hd : s'.dmas = s.dmas) : CudaLive M s' :=
  ⟨hl.tables, fun d y p hy => hl.mappings d y p (hd ▸ hy)⟩

/-- A mapping leaves those that hold a mapping of the NVIDIA driver on live CUDA memory. -/
theorem MapResult.cuda_live {m : MemId} {x : BafsMem} {k : BafsCtrl} {n user id : Nat}
    {env : DmaMapEnv} {r : Int × Nat × Option DmaId} (hr : MapResult s c m x k n user id env r s')
    (hm : M m = some x.fields) (hl : CudaLive M s) : CudaLive M s' := by
  have hadd : ∀ {y : BafsMemDma}, s'.dmas = s.dmas.alloc y →
      (∀ p, y.cuda_mapping = some p →
        ∃ f, M y.mem = some f ∧ f.loc = BAFS_MEM_CUDA ∧ f.state = .LIVE) → CudaLive M s' := by
    intro y hd hy
    refine ⟨hl.tables, fun d z p hz hp => ?_⟩
    rw [hd] at hz
    obtain ⟨-, rfl⟩ | hz := Heap.get_alloc_cases hz
    · exact hy p hp
    · exact hl.mappings d z p hz hp
  cases hr with
  | refused | cut_short | cpu_not_copied | cuda_not_copied => exact hl.keep rfl
  | cpu_mapped => exact hadd rfl fun p hp => by cases hp
  | cuda_mapped hloc ht =>
    exact hadd rfl fun p _ => ⟨x.fields, hm, hl.tables m x.fields _ hm ht⟩

/-- Mapping for one controller keeps the account, unless a copy fails and only the free functions
destroy. -/
theorem bafs_ctrl_dma_map_mem_destroyed {n user id : Nat} {env : DmaMapEnv} (hs : At h v s)
    (hh : NonNeg h) (hx : CtxHeld h v ctx) (hc : CtrlHeld h v c)
    (hp : ∀ m f, v.mems m = some f → Paged f) (hl : CudaLive v.mems s) (ho : DestroyedOnce X s)
    (hX : X = .free_destroys →
      ∀ m f, Found v ctx vaddr m → v.mems m = some f → ¬copy_fails f env) :
    wp (bafs_ctrl_dma_map_mem c ctx vaddr n user id env) (fun _ => True) (fun r s' =>
      DestroyedOnce X s' ∧ CudaLive v.mems s' ∧
        ∀ m f, Found v ctx vaddr m → v.mems m = some f → (r.2.2.isSome ↔ copied f env)) s := by
  obtain ⟨y, hy⟩ := hs.ctx_live hx
  obtain ⟨k, hk⟩ := hs.ctrl_live hh hc
  by_cases hm : ∃ m, Found v ctx vaddr m
  · obtain ⟨m, hm⟩ := hm
    obtain ⟨f, hf, -⟩ := hm.1
    obtain ⟨x, hxm, rfl⟩ := hs.mem_live hf
    have hpage : Paged x := (hp m _ hf).of_fields
    refine wp_mono (bafs_ctrl_dma_map_mem_exact hs hy hk hm hxm hpage.fits fun _ _ => trivial)
      fun r s' hr => ?_
    refine ⟨hr.destroyed hxm ho fun hB => hX hB m x.fields hm hf, hr.cuda_live hf hl,
      fun m' f' hm' hf' => ?_⟩
    obtain rfl := hm.unique hm'
    obtain rfl := Option.some.inj (hf.symm.trans hf')
    obtain ⟨hcopied, rfl⟩ | ⟨hnot, -, hnone⟩ := hr.outcome
    · exact iff_of_true rfl hcopied
    · rw [hnone]
      exact iff_of_false (by simp) hnot
  · refine wp_mono (bafs_ctrl_dma_map_mem_none hs hy (not_exists.mp hm)) fun r s' hr => ?_
    obtain ⟨rfl, rfl⟩ := hr
    exact ⟨ho, hl, fun m f hm' => absurd ⟨m, hm'⟩ hm⟩

/-- A new DMA mapping with a mapping of the NVIDIA driver is of CUDA memory. -/
theorem CudaLive.of_held {D : DmaId → Option (MemId × CtrlId)} {m : MemId} {d : DmaId}
    {p : MappingId} (hl : CudaLive M s) (hs : At h { v with dmas := D } s) (hd : D d = some (m, c))
    (hp : mapping_held s d = some p) : ∃ f, M m = some f ∧ f.loc = BAFS_MEM_CUDA := by
  obtain ⟨y, hy, rfl, -⟩ := hs.dma_live hd
  unfold mapping_held at hp
  rw [hy] at hp
  obtain ⟨f, hf, hloc, -⟩ := hl.mappings d y p hy hp
  exact ⟨f, hf, hloc⟩

/-- Where what has been mapped must be taken back, there is no mapping of the NVIDIA driver. -/
def Bare (X : Reading) (s : State) (ds : List DmaId) : Prop :=
  X = .release_destroys → ∀ d ∈ ds, mapping_held s d = none

theorem Bare.congr {ds : List DmaId} (hb : Bare X s ds) (hd : s'.dmas = s.dmas) : Bare X s' ds := by
  intro hA d he
  rw [mapping_held_congr hd]
  exact hb hA d he

theorem bare_of_maps {env : Nat → DmaMapEnv} {n i left : Nat} {ds : List DmaId}
    {D : DmaId → Option (MemId × CtrlId)} (hD : Mapped v ctx vaddr ds D)
    (hs : At h { v with dmas := D } s) (hl : CudaLive v.mems s)
    (hX : ∀ m f, Found v ctx vaddr m → v.mems m = some f → X.maps f env n left)
    (hi : i ≤ n) (hds : ds ≠ [] → 0 < i)
    (hpass : ∀ m f, Found v ctx vaddr m → v.mems m = some f → ∀ j < i, copied f (env j))
    (hback : ∀ m f, Found v ctx vaddr m → v.mems m = some f →
      left ≠ 0 ∨ ∃ j < n, ¬copied f (env j)) : Bare X s ds := by
  intro hA d hd
  subst hA
  obtain ⟨-, m, c, hDd, hm⟩ := hD.new d hd
  cases hp : mapping_held s d with
  | none => rfl
  | some p =>
    obtain ⟨f, hf, hloc⟩ := hl.of_held hs hDd hp
    have hpos : 0 < i := hds fun hnil => by
      rw [hnil] at hd
      cases hd
    exact absurd ⟨hloc, hpos.trans_le hi, hpass m f hm hf 0 hpos, hback m f hm hf⟩ (hX m f hm hf)

/-- The loop over the controllers keeps the account. -/
theorem group_map_loop_destroyed {dma_addrs n left : Nat} {env : Nat → DmaMapEnv}
    {ctrls : List CtrlId} (hs : At h v s) (hh : NonNeg h) (hx : CtxHeld h v ctx)
    (hc : ∀ c ∈ ctrls, CtrlHeld h v c) (hp : ∀ m f, v.mems m = some f → Paged f)
    (hl : CudaLive v.mems s) (ho : DestroyedOnce X s)
    (hX : ∀ m f, Found v ctx vaddr m → v.mems m = some f → X.maps f env ctrls.length left) :
    wp (group_map_loop ctx vaddr dma_addrs env ctrls.zipIdx ⟨n, 0, []⟩) (fun _ => True) (fun r t =>
      DestroyedOnce X t ∧ CudaLive v.mems t ∧ (r.2.isSome ∨ left ≠ 0 → Bare X t r.1.dmas) ∧
        ∃ D, Mapped v ctx vaddr r.1.dmas D ∧ At h { v with dmas := D } t) s := by
  unfold group_map_loop
  refine wp_iterate_zipIdx (fun i acc t => i ≤ ctrls.length ∧ DestroyedOnce X t ∧
      CudaLive v.mems t ∧ (acc.dmas ≠ [] → 0 < i) ∧
      (∀ m f, Found v ctx vaddr m → v.mems m = some f → ∀ j < i, copied f (env j)) ∧
      ∃ D, Mapped v ctx vaddr acc.dmas D ∧ At h { v with dmas := D } t)
    (fun i c acc t hci hinv => ?_) (fun acc t hinv => ?_)
    ⟨Nat.zero_le _, ho, hl, (fun hne => absurd rfl hne), (fun _ _ _ _ j hj => by cases hj),
      v.dmas, .nil, hs⟩
  · obtain ⟨-, ho₁, hl₁, hds, hpass, D, hD, ht⟩ := hinv
    have hlt : i < ctrls.length := (List.getElem?_eq_some_iff.mp hci).1
    have hheld : CtrlHeld h v c := hc c (List.mem_of_getElem? hci)
    refine (wp_and (bafs_ctrl_dma_map_mem_destroyed ht hh hx hheld hp hl₁ ho₁
      fun hB m f hm hf hfail => ?_)
      (bafs_ctrl_dma_map_mem_spec (E := fun _ => True) ht hh hx hheld (fun _ _ _ _ _ => trivial)
        fun _ _ _ _ _ => trivial)).bind fun r t₁ hr => ?_
    · have := hX m f hm hf
      rw [hB] at this
      exact this ⟨i, hlt, hpass m f hm hf, hfail⟩
    obtain ⟨⟨ho₂, hl₂, hcopied⟩, hspec⟩ := hr
    obtain ⟨ret, n', d⟩ := r
    obtain ⟨-, hd, ht₁⟩ | ⟨m, d, hm, -, hd, hfree, ht₁⟩ := hspec
    · obtain rfl : _ = none := hd
      refine ⟨ho₂, hl₂, fun _ => ?_, D, hD, ht₁⟩
      refine bare_of_maps hD ht₁ hl₂ hX hlt.le hds hpass fun m f hm hf => .inr ⟨i, hlt, fun hco => ?_⟩
      have := (hcopied m f hm hf).mpr hco
      cases this
    · obtain rfl : _ = some d := hd
      refine ⟨hlt, ho₂, hl₂, fun _ => Nat.succ_pos i, fun m' f hm' hf j hj => ?_, _,
        hD.add hfree hm c, ht₁⟩
      rcases Nat.lt_succ_iff_lt_or_eq.mp hj with hj | rfl
      · exact hpass m' f hm' hf j hj
      · exact (hcopied m' f hm' hf).mp rfl
  · obtain ⟨hle, ho₁, hl₁, hds, hpass, D, hD, ht⟩ := hinv
    refine ⟨ho₁, hl₁, fun hleft => ?_, D, hD, ht⟩
    have hleft : left ≠ 0 := hleft.resolve_left (by simp)
    exact bare_of_maps hD ht hl₁ hX hle hds hpass fun _ _ _ _ => .inl hleft

/-- Taking back what was mapped for the controllers keeps the account. -/
theorem unmap_mems_destroyed {ds : List DmaId} {blk : BlockId}
    {D : DmaId → Option (MemId × CtrlId)} (hD : Mapped v ctx vaddr ds D)
    (hs : At h { v with dmas := D } s) (hh : NonNeg h) (hl : CudaLive v.mems s)
    (ho : DestroyedOnce X s) (hX : Bare X s ds) :
    wp (unmap_mems ds blk) (fun _ => True)
      (fun _ s' => DestroyedOnce X s' ∧ CudaLive v.mems s') s := by
  unfold unmap_mems
  refine (wp_each (fun l s => DestroyedOnce X s ∧ CudaLive v.mems s ∧ Bare X s l ∧
    ∃ D, Mapped v ctx vaddr l D ∧ At h { v with dmas := D } s) ?_
    ⟨ho, hl, fun hA d hd => hX hA d (List.mem_reverse.mp hd), D, hD.reverse, hs⟩).bind ?_
  · rintro d l s₁ ⟨ho₁, hl₁, hX₁, D, hD, hs₁⟩
    obtain ⟨-, m, c, hd, ⟨f, hf, -⟩, -⟩ := hD.new d List.mem_cons_self
    have hnot : d ∉ l := (List.nodup_cons.mp hD.nodup).1
    refine wp_mono (bafs_ctrl_dma_unmap_mem_destroyed hs₁ hh hd hf hl₁ ho₁
      fun hA => hX₁ hA d List.mem_cons_self) fun _ s₂ hs₂ => ?_
    obtain ⟨ho₂, hd₂, hs₂⟩ := hs₂
    refine ⟨ho₂, hl₁.free hd₂, fun hA e he => ?_, _, hD.drop, hs₂⟩
    have hne : e ≠ d := fun heq => hnot (heq ▸ he)
    rw [mapping_held_free hd₂, Function.update_of_ne hne]
    exact hX₁ hA e (List.mem_cons_of_mem _ he)
  · rintro _ s₁ ⟨ho₁, hl₁, -, -⟩
    exact ⟨ho₁.of_custody rfl, hl₁.keep rfl⟩

end Requests

/-! ## The account in a view -/

/-- The account of the state `s`, with the registrations and the page tables of the view `v`. -/
structure Accounted (X : Reading) (v : View) (s : State) : Prop where
  tables : Once (fun m => (v.mems m).bind BafsMem.cuda_page_table) v.tables.next
    (calls X.table_of s)
  mappings : Once (mapping_held s) s.mappings.next (calls X.mapping_of s)
  live : CudaLive v.mems s

theorem At.accounted (hs : At h v s) (ho : DestroyedOnce X s) (hl : CudaLive v.mems s) :
    Accounted X v s := by
  refine ⟨?_, ho.mappings, hl⟩
  rw [← hs.table_held, ← hs.tables_eq]
  exact ho.tables

theorem At.destroyed_once (hs : At h v s) (ha : Accounted X v s) : DestroyedOnce X s := by
  refine ⟨?_, ha.mappings⟩
  rw [hs.table_held, hs.tables_eq]
  exact ha.tables

theorem Accounted.of_view {v' : View} (ha : Accounted X v s) (hm : v'.mems = v.mems)
    (ht : v'.tables = v.tables) : Accounted X v' s := by
  refine ⟨?_, ha.mappings, ?_⟩
  · rw [hm, ht]
    exact ha.tables
  · rw [hm]
    exact ha.live

/-- Calls that destroy nothing leave the account as it is. -/
theorem Accounted.recorded {A : Event → Prop} (ha : Accounted X v s) (hg : Recorded A s s')
    (hA : ∀ e, A e → harmless e) : Accounted X v s' := by
  obtain ⟨hd, hm⟩ := Prod.mk.inj (hg.still fun p hp => hA _ hp)
  refine ⟨?_, ?_, ha.live.keep hd⟩
  · rw [hg.calls fun e he => (harmless_destroys (hA e he)).1]
    exact ha.tables
  · rw [hg.calls fun e he => (harmless_destroys (hA e he)).2, mapping_held_congr hd, hm]
    exact ha.mappings

section Requests

variable {ctx : CtxId} {c : CtrlId} {argp : Nat} {params : BAFS_IOC_DMA_MAP_MEM_PARAMS}

theorem __bafs_ctrl_dma_map_mem_accounted {env : CtrlDmaMapEnv} (hs : At h v s) (hh : NonNeg h)
    (hx : CtxHeld h v ctx) (hc : CtrlHeld h v c) (hp : ∀ m f, v.mems m = some f → Paged f)
    (ha : Accounted X v s)
    (hX : env.copy_from_user = true → ∀ m f, Found v ctx params.vaddr m → v.mems m = some f →
      X.maps f (fun _ => env.map) 1 (min env.copy_to_user 3)) :
    wp (__bafs_ctrl_dma_map_mem argp params c ctx env) (fun _ => True)
      (fun _ s' => Accounted X v s') s := by
  unfold __bafs_ctrl_dma_map_mem
  refine wp_ite (fun _ => ha) fun hcopy => ?_
  have hX := hX (Bool.eq_true_of_not_eq_false hcopy)
  refine (wp_and (bafs_ctrl_dma_map_mem_spec hs hh hx hc (fun _ _ _ _ _ => trivial)
    fun _ _ _ _ _ => trivial) (bafs_ctrl_dma_map_mem_destroyed hs hh hx hc hp ha.live
      (hs.destroyed_once ha) fun hB m f hm hf hfail => ?_)).bind fun r s₁ hr => ?_
  · have := hX m f hm hf
    rw [hB] at this
    exact this ⟨0, Nat.one_pos, (fun j hj => absurd hj (Nat.not_lt_zero j)), hfail⟩
  obtain ⟨ret, n, d⟩ := r
  obtain ⟨hr, ho₁, hl₁, hcopied⟩ := hr
  obtain ⟨-, hd, hs₁⟩ | ⟨m, d, hm, -, hd, hfree, hs₁⟩ := hr
  · obtain rfl : _ = none := hd
    exact hs₁.accounted ho₁ hl₁
  · obtain rfl : _ = some d := hd
    have hD := Mapped.nil.add hfree hm c
    have ha₁ := hs₁.accounted ho₁ hl₁
    refine (wp_and (copy_to_user_spec hs₁ env.copy_to_user argp .params _) (copy_to_user_adds
      (A := plain_call) (fun _ => trivial) s₁)).bind fun left s₂ hs₂ => ?_
    obtain ⟨⟨hleft, hs₂⟩, hg₂⟩ := hs₂
    have ha₂ := ha₁.recorded hg₂.toRecorded fun _ => plain_call_harmless
    refine wp_ite (fun hne => ?_) fun _ => ha₂.of_view rfl rfl
    obtain ⟨f, hf, -⟩ := hm.1
    have hbare : Bare X s₂ [d] := by
      refine bare_of_maps hD hs₂ ha₂.live hX le_rfl (fun _ => Nat.one_pos)
        (fun m' f' hm' hf' j _ => (hcopied m' f' hm' hf').mp rfl) fun _ _ _ _ => .inl ?_
      exact hleft ▸ hne
    refine (bafs_ctrl_dma_unmap_mem_destroyed hs₂ hh (Function.update_self ..) hf ha₂.live
      (hs₂.destroyed_once ha₂) fun hA => hbare hA d List.mem_cons_self).bind fun _ s₃ hs₃ => ?_
    obtain ⟨ho₃, hd₃, hs₃⟩ := hs₃
    rw [View.drop_add_dma hfree] at hs₃
    exact hs₃.accounted ho₃ (ha₂.live.free hd₃)

theorem bafs_group_dma_map_mem_accounted {g : GroupId} {env : GroupDmaMapEnv} (hs : At h v s)
    (hh : NonNeg h) (hx : CtxHeld h v ctx) (hp : ∀ m f, v.mems m = some f → Paged f)
    (ha : Accounted X v s)
    (hX : env.copy_from_user = true → env.kzalloc = true → ∀ l, v.group_ctrls g = some l →
      ∀ m f, Found v ctx params.vaddr m → v.mems m = some f →
        X.maps f env.map l.length (min env.copy_to_user 3)) :
    wp (bafs_group_dma_map_mem argp params g ctx env) (fun _ => True)
      (fun _ s' => Accounted X v s') s := by
  have hend : ∀ {ds : List DmaId} {t : State} {D : DmaId → Option (MemId × CtrlId)} {blk : BlockId},
      Mapped v ctx params.vaddr ds D → At h { v with dmas := D } t → DestroyedOnce X t →
      CudaLive v.mems t → Bare X t ds →
      wp (unmap_mems ds blk) (fun _ => True) (fun _ s' => Accounted X v s') t := by
    intro ds t D blk hD ht ho hl hb
    refine wp_mono (wp_and (unmap_mems_spec hD ht hh) (unmap_mems_destroyed hD ht hh hl ho hb))
      fun _ s' hs' => ?_
    obtain ⟨hs', ho', hl'⟩ := hs'
    exact hs'.accounted ho' hl'
  unfold bafs_group_dma_map_mem
  refine wp_ite (fun _ => ha) fun hcopy => ?_
  have hX := hX (Bool.eq_true_of_not_eq_false hcopy)
  rw [wp_bind]
  refine wp_load_of (fun _ => trivial) fun x hgx => ?_
  refine (wp_and (kzalloc_spec hs env.kzalloc) (kzalloc_adds (A := no_call) s)).bind fun r s₁ hs₁ => ?_
  obtain ⟨⟨hz, hs₁⟩, hg₁⟩ := hs₁
  have ha₁ : Accounted X v s₁ := ha.recorded hg₁.toRecorded fun _ he => he.elim
  cases r with
  | none => exact ha₁
  | some blk =>
    have hc : ∀ c ∈ x.ctrls, CtrlHeld h v c := fun c hc => .inr ⟨g, x.ctrls, hs.group_view hgx, hc⟩
    refine (group_map_loop_destroyed hs₁ hh hx hc hp ha₁.live (hs₁.destroyed_once ha₁)
      (hX hz x.ctrls (hs.group_view hgx))).bind fun r s₂ hr => ?_
    obtain ⟨acc, fail⟩ := r
    obtain ⟨ho₂, hl₂, hb₂, D, hD, hs₂⟩ := hr
    cases fail with
    | some ret => exact (hend hD hs₂ ho₂ hl₂ (hb₂ (.inl rfl))).bind fun _ s₃ hs₃ => hs₃
    | none =>
      have ha₂ := hs₂.accounted ho₂ hl₂
      refine (wp_and (copy_to_user_spec hs₂ env.copy_to_user argp .params _) (copy_to_user_adds
        (A := plain_call) (fun _ => trivial) s₂)).bind fun left s₃ hs₃ => ?_
      obtain ⟨⟨hleft, hs₃⟩, hg₃⟩ := hs₃
      have ha₃ := ha₂.recorded hg₃.toRecorded fun _ => plain_call_harmless
      refine wp_ite (fun hne => ?_) fun _ => ?_
      · have hb₃ := (hb₂ (.inr (hleft ▸ hne))).congr (Prod.mk.inj (hg₃.still fun _ hp => hp)).1
        exact (hend hD hs₃ (hs₃.destroyed_once ha₃) ha₃.live hb₃).bind fun _ s₄ hs₄ => hs₄
      · exact ha₃.of_view rfl rfl

end Requests

/-- The DMA-map request on the file follows the reading. -/
def Reading.maps_file (X : Reading) (v : View) (arg : BAFS_IOC_DMA_MAP_MEM_PARAMS) (env : IoctlEnv) :
    File → Prop
  | .core _ => True
  | .ctrl y => env.ctrl_dma_map_mem.copy_from_user = true →
    ∀ m f, Found v y.ctx arg.vaddr m → v.mems m = some f →
      X.maps f (fun _ => env.ctrl_dma_map_mem.map) 1 (min env.ctrl_dma_map_mem.copy_to_user 3)
  | .group y => env.group_dma_map_mem.copy_from_user = true → env.group_dma_map_mem.kzalloc = true →
    ∀ l, v.group_ctrls y.group = some l → ∀ m f, Found v y.ctx arg.vaddr m → v.mems m = some f →
      X.maps f env.group_dma_map_mem.map l.length (min env.group_dma_map_mem.copy_to_user 3)

/-- A DMA-map request that follows the reading keeps the account. -/
theorem ioctl_dma_map_accounted {i cmd : Nat} {x : File} {arg : IoctlArg} {env : IoctlEnv}
    (hs : At h v s) (hh : NonNeg h) (hi : v.files.get i = some x) (hcmd : dma_map_cmd x = some cmd)
    (hp : ∀ m f, v.mems m = some f → Paged f) (ha : Accounted X v s)
    (hX : X.maps_file v arg.dma_map_mem env x) :
    wp (ioctl_file x cmd arg env) (fun _ => True) (fun _ s' => Accounted X v s') s := by
  refine wp_mono (ioctl_dma_map (Q := fun _ s' => Accounted X v s') hs hh hi hcmd
    (fun _ s₁ s₂ hg ha₁ => ha₁.recorded hg.toRecorded fun _ he => he.elim)
    fun h₁ s₁ hs₁ hh₁ hx hc hg => ?_) fun r s' ⟨_, _, ha'⟩ => ha'
  have ha₁ : Accounted X v s₁ := ha.recorded hg.toRecorded fun _ he => he.elim
  cases x with
  | core c => cases hcmd
  | ctrl y =>
    exact __bafs_ctrl_dma_map_mem_accounted hs₁ hh₁ hx (hc _ (.of_file hh hi)) hp ha₁ hX
  | group y => exact bafs_group_dma_map_mem_accounted hs₁ hh₁ hx hp ha₁ hX

end BafsDriver
