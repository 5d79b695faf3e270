import BafsDriver.Proofs.GroupUnwind
import BafsDriver.Proofs.VmaClose

/-!
# The memory blocks of a DMA map

Each block that a DMA-map request allocates is freed before the request returns, or becomes part of a
new DMA mapping, which the close of the VMA frees; but some are lost. A mapping that has its array for
the addresses and fails afterwards loses the array, and a group that has been mapped loses the list of
its mappings.
-/

set_option linter.style.nameCheck false

namespace BafsDriver

open Prog

variable {h : Held Kind} {v : View} {s t u : State} {E : Fault → Prop} {L L' : BlockId → ℤ}

/-! ## Blocks in use -/

/-- How often the block was allocated and not freed. -/
def in_use (B : Heap Unit) (b : BlockId) : ℤ :=
  (if b < B.next then 1 else 0) - (B.freed.count b : ℕ)

theorem in_use_alloc {B : Heap Unit} (b : BlockId) :
    in_use (B.alloc ()) b = in_use B b + ([B.next].count b : ℕ) := by
  have hnew := lt_succ_count b B.next
  simp only [in_use, Heap.next_alloc, Heap.freed_alloc]
  omega

theorem in_use_free {B : Heap Unit} (b' b : BlockId) :
    in_use (B.free b') b + ([b'].count b : ℕ) = in_use B b := by
  simp only [in_use, Heap.next_free, Heap.freed_free, List.count_cons, List.count_nil]
  omega

/-- How often the block is in use outside of the DMA mappings. -/
def unheld (s : State) (b : BlockId) : ℤ :=
  in_use s.blocks b - (s.dmas.sum fun y => y.blocks.count b : ℕ)

/-- The state `u` is `t` but for the calls, the mappings of the NVIDIA driver and the blocks, of which
`L` more are in use. -/
structure OffBy (L : BlockId → ℤ) (u t : State) : Prop where
  mems : u.mems = t.mems
  ctrls : u.ctrls = t.ctrls
  dmas : ∀ d, u.dmas.get d = t.dmas.get d
  next : t.blocks.next ≤ u.blocks.next
  blocks : ∀ b, in_use u.blocks b = in_use t.blocks b + L b

theorem OffBy.refl : OffBy 0 t t := ⟨rfl, rfl, fun _ => rfl, le_rfl, fun _ => (add_zero _).symm⟩

theorem OffBy.trans (hu : OffBy L u t) (ht : OffBy L' t s) : OffBy (L + L') u s where
  mems := hu.mems.trans ht.mems
  ctrls := hu.ctrls.trans ht.ctrls
  dmas d := (hu.dmas d).trans (ht.dmas d)
  next := ht.next.trans hu.next
  blocks b := by
    rw [hu.blocks, ht.blocks, Pi.add_apply]
    omega

/-- What is the same as `t` but for blocks has as many more of them outside of the DMA mappings. -/
theorem OffBy.unheld (hu : OffBy L u t) (b : BlockId) :
    BafsDriver.unheld u b = BafsDriver.unheld t b + L b := by
  have hsum : u.dmas.sum (fun y => y.blocks.count b) = t.dmas.sum fun y => y.blocks.count b :=
    Heap.sum_congr fun d => by rw [hu.dmas d]
  simp only [BafsDriver.unheld, hu.blocks b, hsum]
  omega

/-- The blocks of a list, each as often as it stands there. -/
def tally (l : List BlockId) (b : BlockId) : ℤ := (l.count b : ℕ)

@[simp] theorem tally_nil : tally [] = 0 := rfl

/-! ## One controller -/

section Map

variable {c : CtrlId} {m : MemId} {x : BafsMem} {k : BafsCtrl} {n user id : Nat} {env : DmaMapEnv}
  {r : Int × Nat × Option DmaId} {d : DmaId}

/-- A mapping that fails leaves everything as it was, but for the array of the addresses if it has got
it and fails afterwards. -/
theorem MapResult.failed_off (hr : MapResult t c m x k n user id env r u) (hnone : r.2.2 = none) :
    ∃ lost, OffBy (tally lost) u t ∧ (lost = [] ↔ ¬loses_addrs x env) ∧
      ∀ b ∈ lost, t.blocks.next ≤ b := by
  have hsame : ∀ {B : Heap Unit} {M : Heap P2pDmaMapping} {T : List Event},
      B = (t.blocks.alloc ()).free t.blocks.next → ¬loses_addrs x env →
      ∃ lost, OffBy (tally lost) (t.after B M T) t ∧ (lost = [] ↔ ¬loses_addrs x env) ∧
        ∀ b ∈ lost, t.blocks.next ≤ b := by
    rintro B M T rfl hl
    refine ⟨[], ⟨rfl, rfl, fun _ => rfl, ?_, fun b => ?_⟩, iff_of_true rfl hl, fun b hb => by cases hb⟩
    · simp [State.after]
    · have halloc := in_use_alloc (B := t.blocks) b
      have hfree := in_use_free (B := t.blocks.alloc ()) t.blocks.next b
      simp only [State.after, tally_nil, Pi.zero_apply]
      omega
  have hlost : ∀ {B : Heap Unit} {M : Heap P2pDmaMapping} {T : List Event},
      B = ((t.blocks.alloc ()).alloc ()).free t.blocks.next → loses_addrs x env →
      ∃ lost, OffBy (tally lost) (t.after B M T) t ∧ (lost = [] ↔ ¬loses_addrs x env) ∧
        ∀ b ∈ lost, t.blocks.next ≤ b := by
    rintro B M T rfl hl
    refine ⟨[(t.blocks.alloc ()).next], ⟨rfl, rfl, fun _ => rfl, ?_, fun b => ?_⟩,
      iff_of_false (List.cons_ne_nil _ _) (not_not.mpr hl), fun b hb => ?_⟩
    · simp only [State.after, Heap.next_free, Heap.next_alloc]
      omega
    · have halloc := in_use_alloc (B := t.blocks) b
      have halloc' := in_use_alloc (B := t.blocks.alloc ()) b
      have hfree := in_use_free (B := (t.blocks.alloc ()).alloc ()) t.blocks.next b
      simp only [State.after, tally]
      omega
    · rw [List.mem_singleton.mp hb, Heap.next_alloc]
      exact Nat.le_succ _
  cases hr with
  | refused hret hg hT hB hl =>
    rcases hB with rfl | hB
    · exact ⟨[], ⟨rfl, rfl, fun _ => rfl, le_rfl, fun b => (add_zero _).symm⟩, iff_of_true rfl hl,
        fun b hb => by cases hb⟩
    · exact hsame hB hl
  | cut_short hloc hj hg hB hl => exact hlost hB hl
  | cpu_not_copied hloc hg hcopy hB hl => exact hlost hB hl
  | cuda_not_copied hloc ht hg hcopy hB =>
    refine hsame hB fun hl => ?_
    have hcpu := hl.2.1
    rw [hloc] at hcpu
    exact absurd hcpu (by decide)
  | cpu_mapped | cuda_mapped => cases hnone

/-- The blocks of a mapping that succeeds are part of its object. -/
theorem MapResult.blocks_held (hr : MapResult t c m x k n user id env r u) (hd : r.2.2 = some d) :
    t.blocks.next ≤ u.blocks.next ∧ u.blocks.freed = t.blocks.freed ∧ ∃ y, Added t c m x k y u ∧
      (∀ b, in_use u.blocks b = in_use t.blocks b + tally y.blocks b) ∧
      undone_blks y x = y.blocks := by
  cases hr with
  | refused | cut_short | cpu_not_copied | cuda_not_copied => cases hd
  | cpu_mapped hloc hg hcopy =>
    refine ⟨?_, rfl, cpu_dma t c m x env, ⟨rfl, rfl, rfl, rfl, rfl⟩, fun b => ?_, ?_⟩
    · simp only [State.add_dma, State.after, Heap.next_alloc]
      omega
    · have halloc := in_use_alloc (B := t.blocks) b
      have halloc' := in_use_alloc (B := t.blocks.alloc ()) b
      have hcons : ([t.blocks.next] ++ [(t.blocks.alloc ()).next]).count b =
          [t.blocks.next].count b + [(t.blocks.alloc ()).next].count b := List.count_append
      rw [List.singleton_append] at hcons
      simp only [State.add_dma, State.after, tally, BafsMemDma.blocks, cpu_dma, Option.map_some,
        Option.toList_some, hcons]
      omega
    · unfold undone_blks
      rw [if_pos hloc]
      rfl
  | cuda_mapped hloc ht hg hcopy =>
    refine ⟨?_, rfl, cuda_dma t c m, ⟨rfl, rfl, rfl, rfl, rfl⟩, fun b => ?_, ?_⟩
    · simp only [State.add_dma, State.after, Heap.next_alloc]
      omega
    · exact in_use_alloc b
    · have hcpu : x.loc ≠ BAFS_MEM_CPU := by
        rw [hloc]
        decide
      unfold undone_blks
      rw [if_neg hcpu]
      rfl

/-- A mapping that succeeds has no block outside of its object. -/
theorem MapResult.unheld (hr : MapResult t c m x k n user id env r u) (hd : r.2.2 = some d)
    (b : BlockId) : BafsDriver.unheld u b = BafsDriver.unheld t b := by
  obtain ⟨-, -, y, ha, hblocks, -⟩ := hr.blocks_held hd
  simp only [BafsDriver.unheld, hblocks b, ha.dmas, Heap.sum_alloc, tally]
  omega

theorem undone_blocks_next {y : BafsMemDma} {B : Heap Unit} : (undone_blocks y x B).next = B.next := by
  unfold undone_blocks
  split
  · cases y.addrs with
    | none => rfl
    | some p => exact Heap.next_free
  · rfl

theorem undone_in_use {y : BafsMemDma} {B : Heap Unit} (b : BlockId) :
    in_use ((undone_blocks y x B).free y.blk) b + tally (undone_blks y x) b = in_use B b := by
  simp only [in_use, undone_blocks_freed, Heap.next_free, undone_blocks_next, List.count_append, tally]
  omega

/-- The unmapping frees the blocks of the object, whatever else is in use. -/
theorem MapResult.taken_off (hr : MapResult t c m x k n user id env r u) (hparts : Parts t c k m x)
    (hd : r.2.2 = some d) : TakesBack E (OffBy L) (bafs_ctrl_dma_unmap_mem d) t u := by
  obtain ⟨rfl, -⟩ := hr.added hd
  obtain ⟨hnext, -, y, ha, hblocks, hundone⟩ := hr.blocks_held hd
  obtain rfl := ha.mem
  obtain rfl := ha.ctrl
  intro w hw
  have hy : w.dmas.get t.dmas.next = some y := by
    rw [hw.dmas, ha.dmas, Heap.get_alloc, if_pos rfl]
  have hx : w.mems.get y.mem =
      some { x with ref := x.ref + 1, dma_list := t.dmas.next :: x.dma_list } := by
    rw [hw.mems, ha.mems, Heap.get_set_self hparts.mem]
  have hk : w.ctrls.get y.ctrl = some { k with ref := k.ref + 1 } := by
    rw [hw.ctrls, ha.ctrls, Heap.get_set_self hparts.ctrl]
  have hmem := hparts.mem_pos
  have hctrl := hparts.ctrl_pos
  refine wp_mono (bafs_ctrl_dma_unmap_mem_exact hy hx hk (by show x.ref + 1 ≠ 1; omega)
    (by show k.ref + 1 ≠ 1; omega)) fun _ w' hw' => ?_
  subst hw'
  refine ⟨?_, ?_, fun e => ?_, ?_, fun b => ?_⟩
  · show w.mems.set y.mem _ = t.mems
    rw [hw.mems, ha.mems, Heap.set_set, List.erase_cons_head]
    exact Heap.set_self hparts.mem
  · show w.ctrls.set y.ctrl _ = t.ctrls
    rw [hw.ctrls, ha.ctrls, Heap.set_set]
    exact Heap.set_self hparts.ctrl
  · show (w.dmas.free _).get e = _
    by_cases he : e = t.dmas.next
    · rw [Heap.get_free, if_pos he, he, Heap.get_next]
    · rw [Heap.get_free, if_neg he, hw.dmas, ha.dmas, Heap.get_alloc, if_neg he]
  · show t.blocks.next ≤ (Heap.free _ _).next
    rw [Heap.next_free, undone_blocks_next]
    exact hnext.trans hw.next
  · have hfree := undone_in_use (x := x) (y := y) (B := w.blocks) b
    rw [hw.blocks, hblocks, hundone] at hfree
    show in_use ((undone_blocks y x w.blocks).free y.blk) b = _
    omega

end Map

/-! ## The requests -/

section Requests

variable {ctx : CtxId} {vaddr dma_addrs n : Nat}

/-- A mapping of the registration at `vaddr` is granted and its addresses are copied to the user. -/
def mapped_for (v : View) (ctx : CtxId) (vaddr : Nat) (env : DmaMapEnv) : Prop :=
  ∃ m f, Found v ctx vaddr m ∧ v.mems m = some f ∧ copied f env

/-- A mapping of the registration at `vaddr` gets its array and fails afterwards. -/
def loses_for (v : View) (ctx : CtxId) (vaddr : Nat) (env : DmaMapEnv) : Prop :=
  ∃ m f, Found v ctx vaddr m ∧ v.mems m = some f ∧ loses_addrs f env

theorem mapped_for_iff {env : DmaMapEnv} {m : MemId} {f : BafsMem} (hm : Found v ctx vaddr m)
    (hf : v.mems m = some f) : mapped_for v ctx vaddr env ↔ copied f env := by
  constructor
  · rintro ⟨m', f', hm', hf', hc⟩
    obtain rfl := hm.unique hm'
    obtain rfl := Option.some.inj (hf.symm.trans hf')
    exact hc
  · exact fun hc => ⟨m, f, hm, hf, hc⟩

theorem loses_for_iff {env : DmaMapEnv} {m : MemId} {f : BafsMem} (hm : Found v ctx vaddr m)
    (hf : v.mems m = some f) : loses_for v ctx vaddr env ↔ loses_addrs f env := by
  constructor
  · rintro ⟨m', f', hm', hf', hc⟩
    obtain rfl := hm.unique hm'
    obtain rfl := Option.some.inj (hf.symm.trans hf')
    exact hc
  · exact fun hc => ⟨m, f, hm, hf, hc⟩

/-- A mapping whose addresses are copied has lost none. -/
theorem copied.not_loses {f : BafsMem} {env : DmaMapEnv} (hc : copied f env) : ¬loses_addrs f env := by
  rintro ⟨hz, hloc, hk, htable, hfail⟩
  obtain ⟨addrs, hg, hcopy⟩ := hc
  unfold granted_addrs at hg
  rw [if_neg (by rw [hz]; decide), if_pos hloc] at hg
  split at hg
  · rename_i hall
    obtain rfl := Option.some.inj hg
    rw [List.length_map, given, List.length_map, List.length_range] at hcopy
    rcases hfail with ⟨i, hi, hnone⟩ | hcopy'
    · have hsome := hall.2.2 i hi
      rw [hnone] at hsome
      cases hsome
    · exact hcopy' hcopy
  · cases hg

theorem mapped_for.not_loses {env : DmaMapEnv} (hm : mapped_for v ctx vaddr env) :
    ¬loses_for v ctx vaddr env := by
  obtain ⟨m, f, hfound, hf, hc⟩ := hm
  exact fun hl => hc.not_loses ((loses_for_iff hfound hf).mp hl)

/-- The DMA mappings in `t` that are not in `s` are of the registration at `vaddr`, and to unmap one
frees all its blocks. -/
def NewDmas (v : View) (ctx : CtxId) (vaddr : Nat) (s t : State) : Prop :=
  ∀ d y, t.dmas.get d = some y → s.dmas.get d = some y ∨
    ∃ f, Found v ctx vaddr y.mem ∧ v.mems y.mem = some f ∧ undone_blks y f = y.blocks

theorem NewDmas.refl : NewDmas v ctx vaddr s s := fun _ _ hy => .inl hy

theorem NewDmas.trans (hs : NewDmas v ctx vaddr s t) (ht : NewDmas v ctx vaddr t u) :
    NewDmas v ctx vaddr s u := fun d y hy => (ht d y hy).elim (hs d y) .inr

/-- What the mapping for one controller does to the blocks. -/
inductive CtrlBlocks (v : View) (ctx : CtxId) (vaddr : Nat) (env : DmaMapEnv) (s : State) :
    Int × Nat × Option DmaId → State → Prop
  | mapped {n : Nat} {d : DmaId} {u : State} (hm : mapped_for v ctx vaddr env)
      (hnext : s.blocks.next ≤ u.blocks.next) (hfreed : u.blocks.freed = s.blocks.freed)
      (hheld : ∀ b, unheld u b = unheld s b) (hdmas : NewDmas v ctx vaddr s u)
      (hback : ∀ L, TakesBack (fun _ => False) (OffBy L) (bafs_ctrl_dma_unmap_mem d) s u) :
      CtrlBlocks v ctx vaddr env s (0, n, some d) u
  | failed {ret : Int} {n : Nat} {u : State} {lost : List BlockId} (hret : ret < 0)
      (hm : ¬mapped_for v ctx vaddr env) (hoff : OffBy (tally lost) u s)
      (hlost : lost = [] ↔ ¬loses_for v ctx vaddr env) (hnew : ∀ b ∈ lost, s.blocks.next ≤ b) :
      CtrlBlocks v ctx vaddr env s (ret, n, none) u

theorem bafs_ctrl_dma_map_mem_blocks {c : CtrlId} {user id : Nat} {env : DmaMapEnv} (hs : At h v s)
    (hh : NonNeg h) (hx : CtxHeld h v ctx) (hc : CtrlHeld h v c)
    (hp : ∀ m f, v.mems m = some f → Paged f)
    (hE : reads_missing_table v ctx vaddr → E .null_page_table) :
    wp (bafs_ctrl_dma_map_mem c ctx vaddr n user id env) E (CtrlBlocks v ctx vaddr env s) s := by
  obtain ⟨y, hy⟩ := hs.ctx_live hx
  obtain ⟨k, hk⟩ := hs.ctrl_live hh hc
  by_cases hm : ∃ m, Found v ctx vaddr m
  · obtain ⟨m, hm⟩ := hm
    obtain ⟨f, hf, -⟩ := hm.1
    obtain ⟨x, hxm, rfl⟩ := hs.mem_live hf
    have hpage : Paged x := (hp m _ hf).of_fields
    have hparts : Parts s c k m x := ⟨hxm, hs.wf.mem.pos m x hxm, hk, hs.wf.ctrl.pos c k hk⟩
    refine wp_mono (bafs_ctrl_dma_map_mem_exact hs hy hk hm hxm hpage.fits fun hloc ht => ?_)
      fun r u hr => ?_
    · have hbare : ¬(x.cpu_page_table.isSome ∨ x.n_pages = 0) := ht
      rw [not_or, Option.not_isSome_iff_eq_none] at hbare
      exact hE ⟨m, _, hm, hf, hloc, hbare.1, hbare.2⟩
    obtain ⟨hcopied, rfl⟩ | ⟨hnot, hret, hnone⟩ := hr.outcome
    · obtain ⟨hnext, hfreed, y, ha, -, hundone⟩ := hr.blocks_held rfl
      refine .mapped ((mapped_for_iff hm hf).mpr hcopied) hnext hfreed (hr.unheld rfl) (fun d y' hy' => ?_)
        fun L => hr.taken_off hparts rfl
      rw [ha.dmas, Heap.get_alloc] at hy'
      split at hy'
      · obtain rfl := Option.some.inj hy'
        obtain rfl := ha.mem
        exact .inr ⟨x.fields, hm, hf, hundone⟩
      · exact .inl hy'
    · obtain ⟨lost, hoff, hlost, hnew⟩ := hr.failed_off hnone
      obtain ⟨ret, n', d⟩ := r
      obtain rfl : d = none := hnone
      exact .failed hret (fun hmapped => hnot ((mapped_for_iff hm hf).mp hmapped)) hoff
        (hlost.trans (not_congr (loses_for_iff hm hf).symm)) hnew
  · refine wp_mono (bafs_ctrl_dma_map_mem_none hs hy fun m hm' => hm ⟨m, hm'⟩) fun r u hr => ?_
    obtain ⟨rfl, rfl⟩ := hr
    have hnone : ∀ b ∈ ([] : List BlockId), u.blocks.next ≤ b := fun b hb => by cases hb
    have hrefl : OffBy (tally []) u u := .refl
    refine .failed (by decide : -EINVAL < 0) (fun hmapped => ?_) hrefl (iff_of_true rfl fun hlost => ?_) hnone
    · obtain ⟨m, f, hfound, -⟩ := hmapped
      exact hm ⟨m, hfound⟩
    · obtain ⟨m, f, hfound, -⟩ := hlost
      exact hm ⟨m, hfound⟩

/-- What a DMA-map request does to the blocks: it loses those of a list, and what it maps stays if it
succeeds only. -/
structure Reckoned (v : View) (ctx : CtxId) (vaddr : Nat) (s : State) (lossless : Prop) (ret : Int)
    (t : State) : Prop where
  lost : ∃ lost, (lost = [] ↔ lossless) ∧ (∀ b ∈ lost, s.blocks.next ≤ b) ∧
    ∀ b, unheld t b = unheld s b + tally lost b
  undone : ret < 0 → ∀ d, t.dmas.get d = s.dmas.get d
  kept : 0 ≤ ret → t.blocks.freed = s.blocks.freed
  next : s.blocks.next ≤ t.blocks.next
  dmas : NewDmas v ctx vaddr s t

theorem OffBy.reckoned {lossless : Prop} {ret : Int} {lost : List BlockId} (hu : OffBy (tally lost) u s)
    (hl : lost = [] ↔ lossless) (hnew : ∀ b ∈ lost, s.blocks.next ≤ b) (hret : ret < 0) :
    Reckoned v ctx vaddr s lossless ret u :=
  ⟨⟨lost, hl, hnew, hu.unheld⟩, fun _ => hu.dmas, fun hpos => absurd hret (not_lt.mpr hpos), hu.next, fun d _ hy => .inl ((hu.dmas d).symm.trans hy)⟩

/-- As `OffBy.reckoned`, where no block is lost. -/
theorem OffBy.reckoned_all {lossless : Prop} {ret : Int} (hu : OffBy (tally []) u s) (hl : lossless)
    (hret : ret < 0) : Reckoned v ctx vaddr s lossless ret u :=
  hu.reckoned (iff_of_true rfl hl) (fun b hb => by cases hb) hret

/-- Copies to the user leave the blocks alone. -/
theorem copy_off {left dst : Nat} {source : CopySource} {words : List Nat} :
    wp (copy_to_user left dst source words) E
      (fun r u => r = min left words.length ∧ u.blocks = s.blocks ∧ OffBy 0 u s) s :=
  ⟨rfl, rfl, rfl, rfl, fun _ => rfl, le_rfl, fun _ => (add_zero _).symm⟩

theorem __bafs_ctrl_dma_map_mem_reckoned {y : BafsCtrlCtx} {argp : Nat}
    {params : BAFS_IOC_DMA_MAP_MEM_PARAMS} {env : CtrlDmaMapEnv} (hs : At h v s) (hh : NonNeg h)
    (hx : CtxHeld h v y.ctx) (hc : CtrlHeld h v y.ctrl) (hp : ∀ m f, v.mems m = some f → Paged f)
    (hE : reads_missing_table v y.ctx params.vaddr → E .null_page_table) :
    wp (__bafs_ctrl_dma_map_mem argp params y.ctrl y.ctx env) E
      (Reckoned v y.ctx params.vaddr s
        (env.copy_from_user = true → ¬loses_for v y.ctx params.vaddr env.map)) s := by
  unfold __bafs_ctrl_dma_map_mem
  refine wp_ite (fun hno => ?_) fun hst => ?_
  · refine OffBy.refl.reckoned_all (fun hst => ?_) (by decide)
    cases hno.symm.trans hst
  have hst := Bool.eq_true_of_not_eq_false hst
  refine (bafs_ctrl_dma_map_mem_blocks hs hh hx hc hp hE).bind fun r u hr => ?_
  cases hr with
  | failed hret hm hoff hlost hnew =>
    exact hoff.reckoned (hlost.trans ⟨fun hl _ => hl, fun hl => hl hst⟩) hnew hret
  | mapped hm hnext hfreed hheld hdmas hback =>
    have hkept : env.copy_from_user = true → ¬loses_for v y.ctx params.vaddr env.map :=
      fun _ => hm.not_loses
    refine copy_off.bind fun left w hw => ?_
    obtain ⟨-, hblocks, hw⟩ := hw
    refine wp_ite (fun _ => ?_) fun _ => ?_
    · exact (wp_weaken (hback 0 w hw) fun _ => False.elim).bind fun _ w' hw' =>
        hw'.reckoned_all hkept (by decide)
    · refine ⟨⟨[], iff_of_true rfl hkept, fun b hb => (by cases hb), fun b => ?_⟩, fun hneg => absurd hneg (lt_irrefl 0),
        fun _ => by rw [hblocks, hfreed], hnext.trans hw.next, hdmas.trans fun d _ hy => .inl ((hw.dmas d).symm.trans hy)⟩
      rw [hw.unheld, hheld]
      rfl

/-- What the loop over `len` controllers does to the blocks. -/
inductive LoopBlocks (v : View) (ctx : CtxId) (vaddr : Nat) (env : Nat → DmaMapEnv) (len : Nat)
    (s : State) : GroupMapAcc × Option Int → State → Prop
  | all {acc : GroupMapAcc} {t : State} (hall : ∀ j < len, mapped_for v ctx vaddr (env j))
      (hnext : s.blocks.next ≤ t.blocks.next) (hfreed : t.blocks.freed = s.blocks.freed)
      (hheld : ∀ b, unheld t b = unheld s b) (hdmas : NewDmas v ctx vaddr s t)
      (hback : ∀ L, Unwinds (fun _ => False) (OffBy L) bafs_ctrl_dma_unmap_mem acc.dmas s t) :
      LoopBlocks v ctx vaddr env len s (acc, none) t
  | failed {acc : GroupMapAcc} {ret : Int} {i : Nat} {t u : State} {lost : List BlockId} (hi : i < len)
      (hret : ret < 0) (hpass : ∀ j < i, mapped_for v ctx vaddr (env j))
      (hnot : ¬mapped_for v ctx vaddr (env i)) (hlost : lost = [] ↔ ¬loses_for v ctx vaddr (env i))
      (hnew : ∀ b ∈ lost, s.blocks.next ≤ b) (hoff : OffBy (tally lost) u t)
      (hback : ∀ L, Unwinds (fun _ => False) (OffBy L) bafs_ctrl_dma_unmap_mem acc.dmas s t) :
      LoopBlocks v ctx vaddr env len s (acc, some ret) u

theorem group_map_loop_blocks {env : Nat → DmaMapEnv} {ctrls : List CtrlId} (hs : At h v s)
    (hh : NonNeg h) (hx : CtxHeld h v ctx) (hc : ∀ c ∈ ctrls, CtrlHeld h v c)
    (hp : ∀ m f, v.mems m = some f → Paged f)
    (hE : reads_missing_table v ctx vaddr → 0 < ctrls.length → E .null_page_table) :
    wp (group_map_loop ctx vaddr dma_addrs env ctrls.zipIdx ⟨n, 0, []⟩) E
      (LoopBlocks v ctx vaddr env ctrls.length s) s := by
  unfold group_map_loop
  refine wp_iterate_zipIdx (fun i acc t => (∀ j < i, mapped_for v ctx vaddr (env j)) ∧
      s.blocks.next ≤ t.blocks.next ∧ t.blocks.freed = s.blocks.freed ∧
      (∀ b, unheld t b = unheld s b) ∧ NewDmas v ctx vaddr s t ∧
      (∀ L, Unwinds (fun _ => False) (OffBy L) bafs_ctrl_dma_unmap_mem acc.dmas s t) ∧
      ∃ D, Mapped v ctx vaddr acc.dmas D ∧ At h { v with dmas := D } t)
    (fun i c acc t hci hinv => ?_) (fun acc t hinv => ?_)
    ⟨fun j hj => (by cases hj), le_rfl, rfl, fun _ => rfl, .refl, fun _ => .nil, v.dmas, .nil, hs⟩
  swap
  · obtain ⟨hall, hnext, hfreed, hheld, hdmas, hback, -⟩ := hinv
    exact .all hall hnext hfreed hheld hdmas hback
  obtain ⟨hpass, hnext, hfreed, hheld, hdmas, hback, D, hD, ht⟩ := hinv
  have hi : i < ctrls.length := (List.getElem?_eq_some_iff.mp hci).1
  have hcheld : CtrlHeld h v c := hc c (List.mem_of_getElem? hci)
  refine (wp_and (bafs_ctrl_dma_map_mem_blocks ht hh hx hcheld hp fun hmiss =>
      hE hmiss (Nat.zero_lt_of_lt hi))
    (bafs_ctrl_dma_map_mem_spec (E := fun _ => True) ht hh hx hcheld (fun _ _ _ _ _ => trivial)
      fun _ _ _ _ _ => trivial)).bind fun r u hr => ?_
  obtain ⟨hr, hspec⟩ := hr
  cases hr with
  | failed hret hm hoff hlost hnew =>
    exact .failed hi hret hpass hm hlost (fun b hb => hnext.trans (hnew b hb)) hoff hback
  | mapped hm hnext' hfreed' hheld' hdmas' hback' =>
    obtain ⟨-, hnone, -⟩ | ⟨m, d', hm', -, hd, hfree, hu⟩ := hspec
    · cases hnone
    obtain rfl := Option.some.inj hd
    refine ⟨fun j hj => ?_, hnext.trans hnext', hfreed'.trans hfreed, fun b => (hheld' b).trans (hheld b), hdmas.trans hdmas',
      fun L => (hback L).push (hback' L), _, hD.add hfree hm' c, hu⟩
    rcases Nat.lt_succ_iff_lt_or_eq.mp hj with hj | rfl
    · exact hpass j hj
    · exact hm

theorem kzalloc_off {ok : Bool} :
    wp (kzalloc ok) E (fun r u => r.isSome = ok ∧ u.blocks.freed = s.blocks.freed ∧
      OffBy (tally r.toList) u s ∧ ∀ b ∈ r.toList, s.blocks.next ≤ b) s := by
  rw [wp_kzalloc]
  split
  · refine ⟨by simp [*], rfl, ⟨rfl, rfl, fun _ => rfl, ?_, fun b => in_use_alloc b⟩, fun b hb => ?_⟩
    · simp
    · rw [List.mem_singleton.mp hb]
  · exact ⟨by simp_all, rfl, .refl, fun b hb => by cases hb⟩

theorem kfree_off {b : BlockId} {lost : List BlockId} (hu : OffBy (tally lost + tally [b]) u s) :
    wp (kfree b) E (fun _ u' => OffBy (tally lost) u' s) u := by
  show OffBy _ { u with blocks := u.blocks.free b } s
  refine ⟨hu.mems, hu.ctrls, hu.dmas, hu.next.trans_eq Heap.next_free.symm, fun b' => ?_⟩
  have hfree := in_use_free (B := u.blocks) b b'
  have hblocks := hu.blocks b'
  rw [Pi.add_apply] at hblocks
  simp only [tally] at hblocks ⊢
  omega

/-- The label `out_unmap_mems` frees all blocks but those that are lost already. -/
theorem unmap_mems_off {ds : List DmaId} {blk : BlockId} (lost : List BlockId) {s₁ w : State}
    (hs₁ : OffBy (tally [blk]) s₁ s) (hoff : OffBy (tally lost) w t)
    (hback : Unwinds (fun _ => False) (OffBy (tally lost)) bafs_ctrl_dma_unmap_mem ds s₁ t) :
    wp (unmap_mems ds blk) (fun _ => False) (fun _ u => OffBy (tally lost) u s) w :=
  (hback w hoff).bind fun _ _ hu => kfree_off (hu.trans hs₁)

/-- The DMA map for the group fails, at a controller whose array is not lost or after all have been
mapped. -/
def group_lossless (v : View) (ctx : CtxId) (vaddr : Nat) (env : GroupDmaMapEnv) (len : Nat) : Prop :=
  (∃ i < len, (∀ j < i, mapped_for v ctx vaddr (env.map j)) ∧ ¬mapped_for v ctx vaddr (env.map i) ∧
    ¬loses_for v ctx vaddr (env.map i)) ∨
  ((∀ j < len, mapped_for v ctx vaddr (env.map j)) ∧ min env.copy_to_user 3 ≠ 0)

theorem bafs_group_dma_map_mem_reckoned {g : GroupId} {argp : Nat}
    {params : BAFS_IOC_DMA_MAP_MEM_PARAMS} {env : GroupDmaMapEnv} (hs : At h v s) (hh : NonNeg h)
    (hx : CtxHeld h v ctx) (hp : ∀ m f, v.mems m = some f → Paged f)
    (hE : ∀ l, v.group_ctrls g = some l → reads_missing_table v ctx params.vaddr → 0 < l.length →
      E .null_page_table) (hlive : (v.group_ctrls g).isSome) :
    wp (bafs_group_dma_map_mem argp params g ctx env) E
      (Reckoned v ctx params.vaddr s (env.copy_from_user = true → env.kzalloc = true →
        ∀ l, v.group_ctrls g = some l → group_lossless v ctx params.vaddr env l.length)) s := by
  have hnone : ∀ {lossless : Prop}, lossless → Reckoned v ctx params.vaddr s lossless (-EFAULT) s :=
    fun hl => OffBy.refl.reckoned_all hl (by decide)
  unfold bafs_group_dma_map_mem
  refine wp_ite (fun hno => ?_) fun hst => ?_
  · exact hnone fun hst => by cases hno.symm.trans hst
  have hst := Bool.eq_true_of_not_eq_false hst
  obtain ⟨l, hview⟩ := Option.isSome_iff_exists.mp hlive
  obtain ⟨x, hg, rfl⟩ := hs.group_live hview
  rw [wp_bind, wp_group_at hg]
  refine (wp_and (kzalloc_off (E := E)) (kzalloc_spec (E := fun _ => True) hs env.kzalloc)).bind
    fun r s₁ hr => ?_
  obtain ⟨⟨hok, hfreed₁, hoff₁, hnew₁⟩, -, hs₁⟩ := hr
  cases r with
  | none =>
    have hoff : OffBy (tally []) s₁ s := hoff₁
    refine hoff.reckoned_all (fun _ hz => ?_) (by decide)
    cases hok.trans hz
  | some blk =>
    have hc : ∀ c ∈ x.ctrls, CtrlHeld h v c := fun c hc => .inr ⟨g, x.ctrls, hview, hc⟩
    have hcond : ∀ {p : Prop}, (group_lossless v ctx params.vaddr env x.ctrls.length ↔ p) →
        ((env.copy_from_user = true → env.kzalloc = true → ∀ l, v.group_ctrls g = some l →
          group_lossless v ctx params.vaddr env l.length) ↔ p) := by
      intro p hiff
      rw [← hiff]
      refine ⟨fun hall => hall hst hok.symm _ hview, fun hall _ _ l hl => ?_⟩
      rwa [Option.some.inj (hl.symm.trans hview)]
    refine (group_map_loop_blocks hs₁ hh hx hc hp (hE x.ctrls hview)).bind fun r t hr => ?_
    cases hr with
    | @failed acc ret i t u lost hi hret hpass hnot hlost hnew hoff hback =>
      refine (wp_weaken (unmap_mems_off _ hoff₁ hoff (hback _)) fun _ => False.elim).bind fun _ w hw => ?_
      refine hw.reckoned (hlost.trans (hcond ?_).symm) (fun b hb => hoff₁.next.trans (hnew b hb)) hret
      constructor
      · rintro (⟨i', hi', hpass', hnot', hl'⟩ | ⟨hall, -⟩)
        · obtain rfl : i = i' := by
            rcases lt_trichotomy i i' with hlt | heq | hlt
            · exact absurd (hpass' i hlt) hnot
            · exact heq
            · exact absurd (hpass i' hlt) hnot'
          exact hl'
        · exact absurd (hall i hi) hnot
      · exact fun hl => .inl ⟨i, hi, hpass, hnot, hl⟩
    | @all acc t hall hnext hfreed hheld hdmas hback =>
      have hfail : group_lossless v ctx params.vaddr env x.ctrls.length ↔ min env.copy_to_user 3 ≠ 0 := by
        constructor
        · rintro (⟨i, hi, -, hnot, -⟩ | ⟨-, hcopy⟩)
          · exact absurd (hall i hi) hnot
          · exact hcopy
        · exact fun hcopy => .inr ⟨hall, hcopy⟩
      dsimp only
      refine copy_off.bind fun left w hw => ?_
      obtain ⟨rfl, hblocks, hw⟩ := hw
      refine wp_ite (fun hleft => ?_) fun hleft => ?_
      · refine (wp_weaken (unmap_mems_off [] hoff₁ hw (hback _)) fun _ => False.elim).bind
          fun _ w' hw' => ?_
        exact hw'.reckoned_all ((hcond hfail).mpr hleft) (by decide)
      · refine ⟨⟨[blk], iff_of_false (List.cons_ne_nil _ _) fun hl => hleft ((hcond hfail).mp hl), hnew₁,
          fun b => ?_⟩, fun hneg => absurd hneg (lt_irrefl 0),
          fun _ => by rw [hblocks, hfreed, hfreed₁], (hoff₁.next.trans hnext).trans hw.next, fun d y hy => ?_⟩
        swap
        · rw [← hoff₁.dmas d]
          exact hdmas d y ((hw.dmas d).symm.trans hy)
        rw [hw.unheld, hheld, hoff₁.unheld]
        exact add_zero _

/-! ## The ioctl -/

/-- Of the blocks and the DMA mappings nothing has changed. -/
def Aside (s t : State) : Prop := t.blocks = s.blocks ∧ t.dmas = s.dmas

theorem Aside.unheld (ha : Aside s t) (b : BlockId) : BafsDriver.unheld t b = BafsDriver.unheld s b := by
  simp only [BafsDriver.unheld, ha.1, ha.2]

theorem Reckoned.frame {lossless : Prop} {ret : Int} {s₀ t₀ : State}
    (hr : Reckoned v ctx vaddr s₀ lossless ret t₀) (hs : Aside s s₀) (ht : Aside t₀ t) :
    Reckoned v ctx vaddr s lossless (min ret 0) t where
  lost := by
    obtain ⟨lost, hl, hnew, hheld⟩ := hr.lost
    refine ⟨lost, hl, hs.1 ▸ hnew, fun b => ?_⟩
    rw [ht.unheld, hheld, hs.unheld]
  undone hneg d := by
    rw [ht.2, ← hs.2]
    exact hr.undone (by omega) d
  kept hpos := by
    rw [ht.1, ← hs.1]
    exact hr.kept (by omega)
  next := by
    rw [ht.1, ← hs.1]
    exact hr.next
  dmas d y hy := by
    rw [ht.2] at hy
    rw [← hs.2]
    exact hr.dmas d y hy

/-- A reference to a controller that an open file or a group holds as well is not the last. -/
theorem bafs_ctrl_release_aside {c : CtrlId} (hs : At (h + tok Kind.ctrl c) v s) (hh : NonNeg h)
    {i : FileId} {y : BafsCtrlCtx} (hi : v.files.get i = some (.ctrl y)) (hc : y.ctrl = c) :
    wp (bafs_ctrl_release c) E (fun _ t => Aside s t) s := by
  subst hc
  obtain ⟨k, hk⟩ := hs.ctrl_live (hh.tok _ _) (.of_tok hh)
  have hfile : s.files.get i = some (.ctrl y) := by
    have hview : s.view.files.get i = some (.ctrl y) := hs.view ▸ hi
    exact hview
  have hdue := hs.wf.ctrl.eq y.ctrl k hk
  have hle := Heap.le_sum (f := File.ctrl_refs y.ctrl) hfile
  have hone : File.ctrl_refs y.ctrl (.ctrl y) = 1 := if_pos rfl
  have hn := hh .ctrl y.ctrl (by decide)
  rw [add_tok_self, ctrl_holders] at hdue
  push_cast at hdue
  refine (wp_ctrl_release_kept hk ?_).mpr ⟨rfl, rfl⟩
  omega

theorem bafs_put_group_aside {g : GroupId} {l : List CtrlId} (hs : At (h + tok Kind.group g) v s)
    (hg : v.group_ctrls g = some l) (hp : 0 < (v.files.sum (File.group_refs g) : ℕ) + h .group g) :
    wp (bafs_put_group g) E (fun _ t => Aside s t) s := by
  obtain ⟨x, hx, -⟩ := hs.group_live hg
  have heq := hs.group_eq hx
  rw [add_tok_self] at heq
  unfold bafs_put_group
  rw [wp_bind, debug_group_live hx, wp_bind, wp_group_at hx, wp_bind, wp_group_upd hx,
    if_neg (by omega)]
  exact (debug_group_live (Heap.get_set_self hx)).mpr ⟨rfl, rfl⟩

/-- A DMA-map request on the file loses no block. -/
def lossless (v : View) (x : File) (arg : IoctlArg) (env : IoctlEnv) : Prop :=
  match x with
  | .core _ => True
  | .ctrl y => env.ctrl_dma_map_mem.copy_from_user = true →
    ¬loses_for v y.ctx arg.dma_map_mem.vaddr env.ctrl_dma_map_mem.map
  | .group y => env.group_dma_map_mem.copy_from_user = true → env.group_dma_map_mem.kzalloc = true →
    ∀ l, v.group_ctrls y.group = some l →
      group_lossless v y.ctx arg.dma_map_mem.vaddr env.group_dma_map_mem l.length

/-- Where the page table is missing no mapping is granted, and none gets an array. -/
theorem not_mapped_of_missing {env : DmaMapEnv} (hm : reads_missing_table v ctx vaddr) :
    ¬mapped_for v ctx vaddr env ∧ ¬loses_for v ctx vaddr env := by
  obtain ⟨m, f, hm, hf, hloc, htable, hn⟩ := hm
  have hno : ¬has_table f := by
    rintro (hsome | hz)
    · rw [htable] at hsome
      cases hsome
    · exact hn hz
  refine ⟨fun hmapped => ?_, fun hlost => ?_⟩
  · obtain ⟨addrs, hg, -⟩ := (mapped_for_iff hm hf).mp hmapped
    exact hno (granted_has_table hloc hg)
  · exact hno ((loses_for_iff hm hf).mp hlost).2.2.2.1

theorem ioctl_reckoned {i cmd : Nat} {x : File} {arg : IoctlArg} {env : IoctlEnv} (hs : At h v s)
    (hh : NonNeg h) (hi : v.files.get i = some x) (hcmd : dma_map_cmd x = some cmd)
    (hp : ∀ m f, v.mems m = some f → Paged f) :
    wp (ioctl_file x cmd arg env) (fun _ => lossless v x arg env)
      (fun r t => Reckoned v x.ctx arg.dma_map_mem.vaddr s (lossless v x arg env) r.ret t) s := by
  have hctx := CtxHeld.of_file hh hi
  cases x with
  | core c => cases hcmd
  | ctrl y =>
    obtain rfl := Option.some.inj hcmd
    obtain ⟨k, hk⟩ := hs.ctrl_live hh (.of_file hh hi)
    have hs₀ := hs.ctrl_get hk
    show wp (bafs_ctrl_ioctl y BAFS_CTRL_IOC_DMA_MAP_MEM arg env) _ _ s
    unfold bafs_ctrl_ioctl
    rw [if_neg (by decide), if_neg (by decide), if_pos rfl, wp_bind, bafs_get_ctrl, wp_ctrl_upd hk]
    have hheld : CtrlHeld (h + tok Kind.ctrl y.ctrl) v y.ctrl := (CtrlHeld.of_file hh hi).add _ _
    refine (wp_and (__bafs_ctrl_dma_map_mem_reckoned hs₀ (hh.tok _ _) (hctx.add _ _) hheld hp
        fun hmiss _ => (not_mapped_of_missing hmiss).2)
      (__bafs_ctrl_dma_map_mem_spec (E := fun _ => True) hs₀ (hh.tok _ _) (hctx.add _ _) hheld
        (fun _ _ _ _ _ => trivial) fun _ _ _ _ _ => trivial)).bind fun ret t ht => ?_
    obtain ⟨hr, hspec⟩ := ht
    have hput : wp (bafs_ctrl_release y.ctrl) (fun _ => lossless v (.ctrl y) arg env) (fun _ t' => Aside t t') t := by
      obtain ⟨-, ht⟩ | ⟨-, m, d, -, -, ht⟩ := hspec
      · exact bafs_ctrl_release_aside ht hh hi rfl
      · exact bafs_ctrl_release_aside ht hh (i := i) (y := y) (by exact hi) rfl
    refine hput.bind fun _ t' ht' => ?_
    rw [reply_code]
    exact hr.frame ⟨rfl, rfl⟩ ht'
  | group y =>
    obtain rfl := Option.some.inj hcmd
    show wp (bafs_group_ioctl y BAFS_GROUP_IOC_DMA_MAP_MEM arg env) _ _ s
    unfold bafs_group_ioctl
    rw [if_neg (by decide), if_neg (by decide), if_pos rfl, wp_bind]
    cases hl : v.group_ctrls y.group with
    | none =>
      have hgone : s.groups.get y.group = none := by
        rw [← hs.view] at hl
        exact Option.map_eq_none_iff.mp hl
      rw [bafs_get_group, group_upd, wp_bind]
      refine wp_load_of (fun _ _ _ l hl' => ?_) fun x hx => by cases hgone.symm.trans hx
      cases hl.symm.trans hl'
    | some l =>
      have hpos := hs.group_pos hl
      obtain ⟨g, hg, -⟩ := hs.group_live hl
      have hs₀ := hs.group_get hg
      have hmissing : ∀ l, v.group_ctrls y.group = some l →
          reads_missing_table v y.ctx arg.dma_map_mem.vaddr → 0 < l.length →
          lossless v (.group y) arg env := by
        intro l hl hmiss hlen _ _ l' hl'
        obtain rfl := Option.some.inj (hl.symm.trans hl')
        exact .inl ⟨0, hlen, fun j hj => (by cases hj), not_mapped_of_missing hmiss⟩
      rw [bafs_get_group, wp_group_upd hg]
      refine (wp_and (bafs_group_dma_map_mem_reckoned hs₀ (hh.tok _ _) (hctx.add _ _) hp hmissing
          (Option.isSome_of_eq_some hl))
        (bafs_group_dma_map_mem_spec (E := fun _ => True) hs₀ (hh.tok _ _) hl (hctx.add _ _)
          (fun _ _ _ _ _ => trivial) fun _ _ _ _ _ => trivial)).bind fun ret t ht => ?_
      obtain ⟨hr, hspec⟩ := ht
      have hput : wp (bafs_put_group y.group) (fun _ => lossless v (.group y) arg env)
          (fun _ t' => Aside t t') t := by
        obtain ⟨-, ht⟩ | ⟨-, ds, D, -, ht⟩ := hspec
        · exact bafs_put_group_aside ht hl hpos
        · exact bafs_put_group_aside (l := l) ht hl hpos
      refine hput.bind fun _ t' ht' => ?_
      rw [reply_code]
      exact hr.frame ⟨rfl, rfl⟩ ht'

end Requests

/-! ## Until the VMA is closed -/

section Close

variable {h' : Held Kind} {v' : View} {r : Request} {m : MemId} {d : DmaId} {l : List BlockId}

/-- A DMA mapping stays as long as its registration does. -/
theorem Effect.dma_stays {c : CtrlId} {f' : BafsMem} (he : Effect h v s r h' v')
    (hd : v.dmas d = some (m, c)) (hm : v'.mems m = some f') : v'.dmas d = some (m, c) := by
  have hclose : ∀ {u : View} {n : MemId} {g : BafsMem}, u.dmas = v.dmas →
      (u.close_mem n g).mems m = some f' → (u.close_mem n g).dmas d = some (m, c) := by
    intro u n g hu hm
    refine Option.filter_eq_some_iff.mpr ⟨(congrFun hu d).trans hd, decide_eq_true ?_⟩
    rintro rfl
    rw [View.close_mem_mems, Function.update_self] at hm
    cases hm
  cases he with
  | @close i x hx hg =>
    have hr : (v.close_file h i x).dmas = v.dmas :=
      congrArg (fun p => p.2.2.1) (View.close_file_regs v h i x)
    rw [hr]
    exact hd
  | ioctl hx hi =>
    have hregs : v'.regs = v.regs → v'.dmas d = some (m, c) := fun hr =>
      (congrFun (congrArg (fun p => p.2.2.1) hr) d).trans hd
    cases hi with
    | @dma_map ds D hcmd hD =>
      have hold : d ∉ ds := fun hin => by cases (hD.new d hin).1.symm.trans hd
      exact (hD.old d hold).trans hd
    | create _ _ hc => exact hregs hc.regs
    | delete _ _ hc => exact hregs hc.regs
    | reg_mem | reg_mem_fails | refused => exact hd
  | mmap hx hr hi => exact (congrFun hi.dmas d).trans hd
  | mmap_failed hx hr hi => exact (congrFun hi.dmas d).trans hd
  | munmap_mem hw hc hm' => exact hclose rfl hm
  | move_mem hw hr hc hm' => exact hclose rfl hm
  | revoke ht hp hm' =>
    rw [View.revoke_mem_dmas]
    exact hd
  | _ => exact hd

/-- As long as the registration `m` exists, it has the DMA mapping `d` with the blocks `l`, and to unmap
it frees them. -/
structure Holds (m : MemId) (d : DmaId) (l : List BlockId) (s : State) : Prop where
  made : m < s.mems.next
  kept : ∀ x, s.mems.get m = some x → ∃ y, s.dmas.get d = some y ∧ y.mem = m ∧ y.blocks = l ∧
    undone_blks y x = l

theorem Holds.step (hl : Holds m d l s) (hi : DmaInv s) :
    wp (step r) (fun _ => True) (fun _ t => Holds m d l t) s := by
  obtain ⟨h, hlost, hs, hstep⟩ := step_inv r hi.inv
  refine wp_mono (wp_and (step_dma_of r hi.inv) hstep) fun _ t ht => ?_
  obtain ⟨hof, -, h', -, hat, he⟩ := ht
  refine ⟨hl.made.trans_le he.mem_next_le, fun x' hx' => ?_⟩
  have hxv' : t.view.mems m = some x'.fields := hat.mem_view hx'
  obtain hnew | ⟨f, hf, hloc⟩ := (he.reg_of hxv').loc
  · have hlt : m < s.view.mem_next := hl.made
    exact absurd hnew (Nat.ne_of_lt hlt)
  obtain ⟨x, hx, rfl⟩ := hs.mem_live hf
  obtain ⟨y, hy, hym, hyl, hundone⟩ := hl.kept x hx
  have hstays := he.dma_stays ((hs.dma_view hy).trans (by rw [hym])) hxv'
  obtain ⟨y', hy', hym', -⟩ := hat.dma_live hstays
  cases hof d y' hy' with
  | @kept z hz hsame =>
    obtain rfl := Option.some.inj (hy.symm.trans hz)
    have haddrs : y'.addrs = y.addrs := by rw [hsame]
    have hblk : y'.blk = y.blk := by rw [hsame]
    have hxloc : x.loc = x'.loc := hloc
    refine ⟨y', hy', hym', ?_, ?_⟩
    · rw [BafsMemDma.blocks, hblk, haddrs]
      exact hyl
    · rw [undone_blks, BafsMemDma.addr_blks, hblk, haddrs, ← hxloc]
      exact hundone
  | made hd => cases hd.symm.trans hy

theorem Holds.run {rs : List Request} (hl : Holds m d l s) (hi : DmaInv s)
    (hr : Prog.run BafsDriver.step rs s = .ok t) : Holds m d l t := by
  have hboth : Always BafsDriver.step (fun _ => True) (fun s => Holds m d l s) rs s :=
    always_of_step (I := fun s => DmaInv s ∧ Holds m d l s)
      (fun s r hs => wp_and (step_dmaInv r hs.1) (hs.2.step hs.1)) (fun _ hs => hs.2) rs ⟨hi, hl⟩
  exact (always_iff_run.mp hboth rs (List.prefix_refl rs)).1 t hr

/-- The close of a VMA does not come to an end if its registration is gone. -/
theorem Effect.closes_exists (he : Effect h v s r h' v') (hr : closes_mem v s r m) :
    ∃ f, v.mems m = some f := by
  have hsome : ∀ {i : VmaId} {w w' : Vma} {n : MemId} {f : BafsMem}, v.vmas.get i = some w →
      w.closes = some m → v.vmas.get i = some w' → w'.closes = some n → v.mems n = some f →
      ∃ f, v.mems m = some f := by
    intro i w w' n f hw hc hw' hc' hn
    obtain rfl := Option.some.inj (hw.symm.trans hw')
    obtain rfl := Option.some.inj (hc.symm.trans hc')
    exact ⟨f, hn⟩
  have hnone : ∀ {i : VmaId} {w w' : Vma}, v.vmas.get i = some w → w.closes = some m →
      v.vmas.get i = some w' → w'.closes = none → ∃ f, v.mems m = some f := by
    intro i w w' hw hc hw' hc'
    obtain rfl := Option.some.inj (hw.symm.trans hw')
    cases hc.symm.trans hc'
  cases he with
  | munmap hw hc =>
    obtain ⟨w, hw', hc'⟩ := hr
    exact hnone hw' hc' hw hc
  | munmap_mem hw hc hm =>
    obtain ⟨w, hw', hc'⟩ := hr
    exact hsome hw' hc' hw hc hm
  | move hw hfree hc =>
    obtain ⟨w, hw', hc', -⟩ := hr
    exact hnone hw' hc' hw hc
  | move_mem hw hfree hc hm =>
    obtain ⟨w, hw', hc', -⟩ := hr
    exact hsome hw' hc' hw hc hm
  | move_taken hw hfree =>
    obtain ⟨w', hw', -, hfree'⟩ := hr
    obtain rfl := Option.some.inj (hw.symm.trans hw')
    exact absurd hfree' hfree
  | @no_vma r i hv hw =>
    cases r with
    | munmap j =>
      obtain rfl := Option.some.inj hv
      obtain ⟨w, hw', -⟩ := hr
      cases hw.symm.trans hw'
    | move j a =>
      obtain rfl := Option.some.inj hv
      obtain ⟨w, hw', -⟩ := hr
      cases hw.symm.trans hw'
    | _ => exact hr.elim
  | @opened r _ ho => cases r <;> first | exact hr.elim | exact ho.elim
  | @not_opened r ho => cases r <;> first | exact hr.elim | exact ho.elim
  | @no_file r _ hf => cases r <;> first | exact hr.elim | cases hf
  | _ => exact hr.elim

/-- The request that closes a VMA of the registration frees the blocks. -/
theorem Holds.closed (hl : Holds m d l s) (hi : LoanInv s) (hr : closes_mem s.view s r m) :
    wp (BafsDriver.step r) (fun _ => True) (fun _ t => ∀ b ∈ l, t.blocks.freed.count b = 1) s := by
  obtain ⟨h, hlost, hs, hstep⟩ := step_inv r hi.inv
  cases hx : s.mems.get m with
  | none =>
    refine wp_weaken (wp_mono hstep fun _ t ht => ?_) fun _ _ => trivial
    obtain ⟨-, h', -, -, he⟩ := ht
    obtain ⟨f, hf⟩ := he.closes_exists hr
    obtain ⟨x, hx', -⟩ := hs.mem_live hf
    cases hx.symm.trans hx'
  | some x =>
    obtain ⟨y, hy, hym, -, hundone⟩ := hl.kept x hx
    refine wp_mono (wp_and (hi.inv.close_gone (E := fun _ => True) hr hx) (hi.step r)) fun _ t ht b hb => ?_
    obtain ⟨⟨V, hg⟩, hi'⟩ := ht
    refine block_freed_once hi'.loans (hg.freed b (.inr ⟨d, ?_, y, hy, ?_⟩))
    · exact (hs.wf.dmas.listed m x d hx).mpr ⟨y, hy, hym⟩
    · rw [hundone]
      exact hb

end Close

/-! ## The account -/

/-- The block is part of a DMA mapping of the registration `m` and has not been freed. -/
def in_mapping (s : State) (m : MemId) (b : BlockId) : Prop :=
  s.blocks.freed.count b = 0 ∧ ∃ d y, s.dmas.get d = some y ∧ y.mem = m ∧ b ∈ y.blocks

/-- Each block that a DMA-map request has allocated is freed once: before it returns if it fails, and
otherwise when the VMA of the registration is closed, however the run goes on until then. -/
structure BlocksFreed (v : View) (s : State) (x : File) (arg : IoctlArg) (ret : Int) (t : State) :
    Prop where
  failed : ret < 0 → ∀ b, s.blocks.next ≤ b → b < t.blocks.next → t.blocks.freed.count b = 1
  mapped : 0 ≤ ret → ∀ b, s.blocks.next ≤ b → b < t.blocks.next →
    ∃ m, Found v x.ctx arg.dma_map_mem.vaddr m ∧ ∀ rs u, run step rs t = .ok u →
      ((u.mems.get m).isSome → in_mapping u m b) ∧ ∀ r, closes_mem u.view u r m →
        wp (step r) (fun _ => True) (fun _ w => w.blocks.freed.count b = 1) u
  once : ∀ rs u, run step rs t = .ok u → ∀ b, u.blocks.freed.count b ≤ 1

/-- A block that has not been allocated is nowhere. -/
theorem LoanInv.unheld_new (hi : LoanInv s) {b : BlockId} (hb : s.blocks.next ≤ b) :
    unheld s b = 0 := by
  have hone := block_once hi.loans b
  rw [if_neg (Nat.not_lt.mpr hb)] at hone
  have hle : (s.dmas.sum fun y => y.blocks.count b) ≤ block_owners s b := by
    unfold block_owners
    omega
  unfold unheld in_use
  rw [if_neg (Nat.not_lt.mpr hb)]
  omega

/-- Each block is freed exactly if none is lost. -/
theorem Reckoned.freed_iff {x : File} {arg : IoctlArg} {lossless : Prop} {ret : Int}
    (hr : Reckoned s.view x.ctx arg.dma_map_mem.vaddr s lossless ret t) (hi : LoanInv s)
    (hi' : LoanInv t) (hd' : DmaInv t) (hmems : t.view.mems = s.view.mems) :
    BlocksFreed s.view s x arg ret t ↔ lossless := by
  obtain ⟨lost, hl, hnew, hheld⟩ := hr.lost
  constructor
  · intro hfreed
    refine hl.mp (List.eq_nil_iff_forall_not_mem.mpr fun b hb => ?_)
    -- a block that is lost is in use and in no DMA mapping
    have hpos : 0 < lost.count b := List.count_pos_iff.mpr hb
    have hb := hnew b hb
    have hub := hheld b
    rw [hi.unheld_new hb] at hub
    unfold unheld in_use tally at hub
    have hlt : b < t.blocks.next := by
      by_contra hge
      rw [if_neg hge] at hub
      omega
    rw [if_pos hlt] at hub
    rcases lt_or_ge ret 0 with hneg | hret
    · have hone := hfreed.failed hneg b hb hlt
      omega
    · obtain ⟨m, hm, hrun⟩ := hfreed.mapped hret b hb hlt
      obtain ⟨f, hf, -⟩ := hm.1
      have hsome : (t.mems.get m).isSome := by
        have hmem : t.view.mems m = some f := (congrFun hmems m).trans hf
        obtain ⟨z, hz, -⟩ := Option.map_eq_some_iff.mp hmem
        exact Option.isSome_of_eq_some hz
      obtain ⟨-, d, y, hy, -, hby⟩ := (hrun [] t rfl).1 hsome
      have hle := Heap.le_sum (f := fun y : BafsMemDma => y.blocks.count b) hy
      have hone := List.count_pos_iff.mpr hby
      omega
  · intro hno
    have hzero : ∀ b, s.blocks.next ≤ b → b < t.blocks.next →
        (t.blocks.freed.count b : ℤ) + (t.dmas.sum fun y => y.blocks.count b : ℕ) = 1 := by
      intro b hb hlt
      have hub := hheld b
      rw [hi.unheld_new hb, hl.mpr hno] at hub
      unfold unheld in_use at hub
      rw [if_pos hlt, tally_nil, Pi.zero_apply] at hub
      omega
    have hnone : ∀ b, s.blocks.next ≤ b → s.blocks.freed.count b = 0 ∧
        (s.dmas.sum fun y => y.blocks.count b) = 0 := by
      intro b hb
      have hone := block_once hi.loans b
      rw [if_neg (Nat.not_lt.mpr hb)] at hone
      have hle : (s.dmas.sum fun y => y.blocks.count b) ≤ block_owners s b := by
        unfold block_owners
        omega
      omega
    refine ⟨fun hneg b hb hlt => ?_, fun hpos b hb hlt => ?_, fun rs u hu b => ?_⟩
    · have hsum : (t.dmas.sum fun y => y.blocks.count b) = s.dmas.sum fun y => y.blocks.count b :=
        Heap.sum_congr fun d => by rw [hr.undone hneg d]
      have hsplit := hzero b hb hlt
      rw [hsum, (hnone b hb).2] at hsplit
      omega
    · have hsplit := hzero b hb hlt
      rw [hr.kept hpos, (hnone b hb).1] at hsplit
      obtain ⟨d, y, hy, hcount⟩ := Heap.exists_of_sum_pos
        (f := fun y : BafsMemDma => y.blocks.count b) (h := t.dmas) (by omega)
      have hby : b ∈ y.blocks := List.count_pos_iff.mp hcount
      obtain hy₀ | ⟨f, hfound, hf, hundone⟩ := hr.dmas d y hy
      · have hle := Heap.le_sum (f := fun y : BafsMemDma => y.blocks.count b) hy₀
        have hcount : 0 < y.blocks.count b := hcount
        have hz := (hnone b hb).2
        omega
      have hholds : Holds y.mem d y.blocks t := by
        have hmem : t.view.mems y.mem = some f := (congrFun hmems y.mem).trans hf
        obtain ⟨z, hz, hzf⟩ := Option.map_eq_some_iff.mp hmem
        refine ⟨Heap.lt_next_of_get hz, fun z' hz' => ⟨y, hy, rfl, rfl, ?_⟩⟩
        obtain rfl := Option.some.inj (hz.symm.trans hz')
        rw [← hzf] at hundone
        exact hundone
      refine ⟨y.mem, hfound, fun rs u hu => ⟨fun hsome => ?_, fun r hcl => ?_⟩⟩
      · obtain ⟨z, hz⟩ := Option.isSome_iff_exists.mp hsome
        obtain ⟨y', hy', hym, hyl, -⟩ := (hholds.run hd' hu).kept z hz
        refine ⟨block_not_freed (hi'.run hu).loans (block_owners_dma hy' (hyl ▸ hby)), d, y', hy', hym,
          hyl ▸ hby⟩
      · exact wp_mono ((hholds.run hd' hu).closed (hi'.run hu) hcl) fun _ w hw => hw b hby
    · have hone := block_once (hi'.run hu).loans b
      split_ifs at hone <;> omega

/-- What holds of the state after an ioctl that is a request holds after the request. -/
theorem ioctl_of_step {i cmd : Nat} {x : File} {arg : IoctlArg} {env : IoctlEnv} {P : State → Prop}
    (hx : s.files.get i = some x)
    (h : wp (step (.ioctl i cmd arg env)) E (fun _ t => P t) s) :
    wp (ioctl_file x cmd arg env) E (fun _ t => P t) s := by
  unfold step at h
  rw [wp_bind, wp_get, hx, wp_bind] at h
  exact h

/-- The kernel refuses to map a page. -/
def refused_single : IoctlEnv :=
  { granted_ioctl with
    ctrl_dma_map_mem :=
      { granted_ioctl.ctrl_dma_map_mem with
        map := { granted_dma with dma_map_single := fun _ => none } } }

/-- Whether the request fails and leaves the second block that it has allocated. -/
def leaves_block (s : State) : Bool :=
  match s.files.get 0 with
  | some (.ctrl y) =>
    match ioctl_file (.ctrl y) BAFS_CTRL_IOC_DMA_MAP_MEM one_place refused_single s with
    | .ok (r, t) => decide (r.ret < 0 ∧ s.blocks.next + 1 < t.blocks.next ∧
        t.blocks.freed.count (s.blocks.next + 1) = 0)
    | .error _ => false
  | _ => false

end BafsDriver
