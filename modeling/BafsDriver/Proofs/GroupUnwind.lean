import BafsDriver.Lib.Unwind
import BafsDriver.Proofs.GroupMapResult

/-!
# The failure of a DMA map for a group

A mapping for one controller can be taken back: it leaves the registration, the controller and the
mappings in force as they were. A group takes back what it has mapped before it fails, the last
controller first, and so a failed request is as if it had not been made.
-/

set_option linter.style.nameCheck false

namespace BafsDriver

open Prog

variable {h : Held Kind} {v : View} {s t u : State} {E : Fault → Prop}

/-! ## Mappings in force -/

/-- How often a page is mapped for a device: each call of `dma_map_single` less each call of
`dma_unmap_single`. -/
def pages_in_force (s : State) (e : Single) : Int :=
  (calls mapped_single s).count e - (calls unmapped_single s).count e

/-- The call ends the mapping `p` of the NVIDIA driver. -/
def ends_mapping (p : MappingId) : Event → Prop
  | .nvidia_p2p_dma_unmap_pages _ _ q => q = p
  | .nvidia_p2p_free_dma_mapping q => q = p
  | _ => False

/-- The mapping of the NVIDIA driver has been made and has not ended. -/
def cuda_in_force (s : State) (p : MappingId) : Prop :=
  (s.mappings.get p).isSome ∧ ∀ e ∈ s.trace, ¬ends_mapping p e

/-- The registrations with their counts and lists, the controllers with their counts, the objects of
the DMA mappings and the mappings in force are those of `t`. -/
structure Alike (s t : State) : Prop where
  mems : s.mems = t.mems
  ctrls : s.ctrls = t.ctrls
  dmas : ∀ d, s.dmas.get d = t.dmas.get d
  pages : ∀ e, pages_in_force s e = pages_in_force t e
  cuda : ∀ p, cuda_in_force s p ↔ cuda_in_force t p

instance : IsPreorder State Alike where
  refl _ := ⟨rfl, rfl, fun _ => rfl, fun _ => rfl, fun _ => Iff.rfl⟩
  trans _ _ _ h h' := ⟨h.mems.trans h'.mems, h.ctrls.trans h'.ctrls,
    fun d => (h.dmas d).trans (h'.dmas d), fun e => (h.pages e).trans (h'.pages e),
    fun p => (h.cuda p).trans (h'.cuda p)⟩

/-- The page is mapped as often as it stands in a DMA mapping, and the rest does not change. -/
theorem pages_in_force_eq (e : Single) : pages_in_force s e = single_surplus s e + held_single s e := by
  unfold single_surplus Ledger.surplus pages_in_force calls
  omega

/-- Calls of other kinds and other blocks change nothing. -/
theorem Alike.of_trace {l : List Event} {B : Heap Unit} (hl : ∀ e ∈ l, bystander e) :
    Alike { s with blocks := B, trace := l ++ s.trace } s where
  mems := rfl
  ctrls := rfl
  dmas _ := rfl
  pages e := by
    unfold pages_in_force calls
    rw [Ledger.filterMap_append_of_none fun e he => (no_dma_calls (bystander_no_dma (hl e he))).1,
      Ledger.filterMap_append_of_none fun e he => (no_dma_calls (bystander_no_dma (hl e he))).2.1]
  cuda p := by
    refine and_congr_right fun _ => ⟨fun hs e he => hs e (List.mem_append_right _ he),
      fun hs e he => ?_⟩
    rcases List.mem_append.mp he with he | he
    · intro hp
      have hb := hl e he
      cases e <;> first | exact hp | exact hb
    · exact hs e he

/-- Where the calls added end other mappings only, the mapping `p` is in force or not as before. -/
theorem cuda_in_force_congr {p : MappingId} {l : List Event} (hl : ∀ e ∈ l, ¬ends_mapping p e)
    (ht : u.trace = l ++ t.trace)
    (hm : (u.mappings.get p).isSome ↔ (t.mappings.get p).isSome) :
    cuda_in_force u p ↔ cuda_in_force t p := by
  unfold cuda_in_force
  rw [hm, ht]
  refine and_congr_right fun _ => ⟨fun hu e he => hu e (List.mem_append_right _ he), fun hu e he => ?_⟩
  rcases List.mem_append.mp he with he | he
  · exact hl e he
  · exact hu e he

/-! ## A mapping and its undoing -/

section Map

variable {c : CtrlId} {m : MemId} {x : BafsMem} {k : BafsCtrl} {n user id j : Nat} {env : DmaMapEnv}
  {r : Int × Nat × Option DmaId} {p : MappingId} {y : BafsMemDma} {d : DmaId}

theorem map_calls_end_none {answer : Nat → Option Nat} :
    ∀ e ∈ (map_calls c x answer j).reverse, ¬ends_mapping p e := by
  intro e he
  obtain ⟨i, -, rfl⟩ := List.mem_map.mp (List.mem_reverse.mp he)
  exact not_false

theorem unmap_calls_end_none {answer : Nat → Option Nat} :
    ∀ e ∈ unmap_calls c x answer j, ¬ends_mapping p e := by
  intro e he
  obtain ⟨i, -, rfl⟩ := List.mem_map.mp he
  exact not_false

/-- A mapping puts its own mapping of the NVIDIA driver in force, if it succeeds, and no other. -/
theorem MapResult.cuda_iff (hr : MapResult t c m x k n user id env r u) : cuda_in_force t p ↔
    cuda_in_force u p ∧ ∀ y, u.dmas.get t.dmas.next = some y → y.cuda_mapping ≠ some p := by
  have hold : ∀ {w : State}, w.dmas = t.dmas →
      ∀ y, w.dmas.get t.dmas.next = some y → y.cuda_mapping ≠ some p := by
    intro w hw y hy
    rw [hw, Heap.get_next] at hy
    cases hy
  have hmade : ∀ {a : P2pDmaMapping}, p ≠ t.mappings.next →
      (((t.mappings.alloc a).get p).isSome ↔ (t.mappings.get p).isSome) := by
    intro a hp
    rw [Heap.get_alloc, if_neg hp]
  have hnew : p = t.mappings.next → ¬cuda_in_force t p := by
    rintro rfl ⟨hs, -⟩
    rw [Heap.get_next] at hs
    cases hs
  cases hr with
  | refused hret hg hT =>
    refine Iff.trans ?_ (and_iff_left (hold rfl)).symm
    rcases hT with rfl | rfl
    · rfl
    · exact Iff.symm (cuda_in_force_congr (l := [_])
        (fun e he => by rw [List.mem_singleton.mp he]; exact not_false) rfl Iff.rfl)
  | cut_short hloc hj hg =>
    refine Iff.trans ?_ (and_iff_left (hold rfl)).symm
    refine Iff.symm (cuda_in_force_congr (l := unmap_calls c x env.dma_map_single _ ++
      (map_calls c x env.dma_map_single _).reverse) (fun e he => ?_)
      (List.append_assoc ..).symm Iff.rfl)
    rcases List.mem_append.mp he with he | he
    · exact unmap_calls_end_none e he
    · exact map_calls_end_none e he
  | @cpu_not_copied B addrs hloc hg hcopy =>
    refine Iff.trans ?_ (and_iff_left (hold rfl)).symm
    refine Iff.symm (cuda_in_force_congr (l := unmap_calls c x env.dma_map_single x.n_pages ++
      copy_call user env addrs :: (map_calls c x env.dma_map_single x.n_pages).reverse)
      (fun e he => ?_) ?_ Iff.rfl)
    swap
    · exact (List.append_assoc _ (_ :: _) _).symm
    rcases List.mem_append.mp he with he | he
    · exact unmap_calls_end_none e he
    · rcases List.mem_cons.mp he with rfl | he
      · exact not_false
      · exact map_calls_end_none e he
  | @cuda_not_copied B addrs tab hloc ht hg hcopy =>
    refine Iff.trans ?_ (and_iff_left (hold rfl)).symm
    by_cases hp : p = t.mappings.next
    · refine iff_of_false (hnew hp) fun hu => ?_
      exact hu.2 _ List.mem_cons_self hp.symm
    · refine Iff.symm (cuda_in_force_congr (l := [_, _, _]) (fun e he => ?_) rfl (hmade hp))
      rcases List.mem_cons.mp he with rfl | he
      · exact fun heq => hp heq.symm
      rcases List.mem_cons.mp he with rfl | he
      · exact not_false
      rw [List.mem_singleton.mp he]
      exact not_false
  | @cpu_mapped addrs hloc hg hcopy =>
    have hcuda : ∀ y, (t.dmas.alloc (cpu_dma t c m x env)).get t.dmas.next = some y →
        y.cuda_mapping ≠ some p := by
      intro y hy hp
      rw [Heap.get_alloc, if_pos rfl] at hy
      obtain rfl := Option.some.inj hy
      cases hp
    refine Iff.trans ?_ (and_iff_left hcuda).symm
    refine Iff.symm (cuda_in_force_congr (l := copy_call user env addrs ::
      (map_calls c x env.dma_map_single _).reverse) (fun e he => ?_) rfl Iff.rfl)
    rcases List.mem_cons.mp he with rfl | he
    · exact not_false
    · exact map_calls_end_none e he
  | @cuda_mapped addrs tab hloc ht hg hcopy =>
    have hget : (t.dmas.alloc (cuda_dma t c m)).get t.dmas.next = some (cuda_dma t c m) := by
      rw [Heap.get_alloc, if_pos rfl]
    by_cases hp : p = t.mappings.next
    · refine iff_of_false (hnew hp) fun hu => ?_
      exact hu.2 _ hget (congrArg some hp.symm)
    · have hcuda : ∀ y, (t.dmas.alloc (cuda_dma t c m)).get t.dmas.next = some y →
          y.cuda_mapping ≠ some p := by
        intro y hy heq
        obtain rfl := Option.some.inj (hget.symm.trans hy)
        exact hp (Option.some.inj heq).symm
      refine Iff.trans ?_ (and_iff_left hcuda).symm
      refine Iff.symm (cuda_in_force_congr (l := [_, _]) (fun e he => ?_) rfl (hmade hp))
      rcases List.mem_cons.mp he with rfl | he
      · exact not_false
      rw [List.mem_singleton.mp he]
      exact not_false

/-- Undoing a mapping ends its own mapping of the NVIDIA driver and no other. -/
theorem undo_calls_end (hloc : y.cuda_mapping = some p → x.loc = BAFS_MEM_CUDA)
    (hst : x.state ≠ .DEAD_CB) :
    (∃ e ∈ undo_calls y x, ends_mapping p e) ↔ y.cuda_mapping = some p := by
  constructor
  · rintro ⟨e, he, hp⟩
    unfold undo_calls at he
    split at he
    · split at he
      · obtain ⟨i, -, rfl⟩ := List.mem_map.mp (List.mem_reverse.mp he)
        unfold unmap_call at hp
        split at hp <;> exact hp.elim
      · cases he
    · split at he
      · split at he
        · rename_i hq
          rcases List.mem_cons.mp he with rfl | he
          · exact hq.trans (congrArg some hp)
          · rw [List.mem_singleton.mp he] at hp
            exact hq.trans (congrArg some hp)
        · cases he
      · cases he
  · intro hp
    have hcuda : x.loc = BAFS_MEM_CUDA := hloc hp
    have hcpu : x.loc ≠ BAFS_MEM_CPU := by
      rw [hcuda]
      decide
    refine ⟨.nvidia_p2p_free_dma_mapping p, ?_, rfl⟩
    rw [undo_calls, if_neg hcpu, if_pos hcuda, hp]
    simp only [ne_eq, hst, not_false_eq_true, if_true, List.mem_cons, true_or]

/-- A mapping that fails leaves everything as it was. -/
theorem MapResult.failed_alike (hr : MapResult t c m x k n user id env r u) (hp : Paged x)
    (hnone : r.2.2 = none) : Alike u t := by
  have hdmas : u.dmas = t.dmas := by
    obtain ⟨-, he⟩ | ⟨z, hsome, -⟩ := hr.new_dma hp
    · exact he
    · rw [hnone] at hsome
      cases hsome
  refine ⟨?_, ?_, fun d => by rw [hdmas], fun e => ?_, fun p => ?_⟩
  · cases hr <;> first | rfl | cases hnone
  · cases hr <;> first | rfl | cases hnone
  · rw [pages_in_force_eq, pages_in_force_eq, held_single_eq hdmas]
    exact congrArg (· + _) ((hr.moved hp.even_chunks).surplus e)
  · refine Iff.trans ?_ hr.cuda_iff.symm
    rw [hdmas, Heap.get_next]
    simp only [reduceCtorEq, false_implies, implies_true, and_true]

/-- Undoing a mapping takes back the pages that stand in it. -/
theorem Undoable.pages_in_force (hu : Undoable x y) (ht : u.trace = undo_calls y x ++ t.trace)
    (e : Single) : pages_in_force u e = pages_in_force t e - y.singles.count e := by
  unfold BafsDriver.pages_in_force BafsDriver.calls
  rw [ht, Ledger.filterMap_append_of_none undo_calls_mapped, List.filterMap_append, hu.unmapped,
    List.count_append, List.count_reverse]
  omega

theorem cuda_in_force_undo (hloc : y.cuda_mapping = some p → x.loc = BAFS_MEM_CUDA)
    (hst : x.state ≠ .DEAD_CB) (ht : u.trace = undo_calls y x ++ t.trace)
    (hm : (u.mappings.get p).isSome ↔ (t.mappings.get p).isSome) :
    cuda_in_force u p ↔ cuda_in_force t p ∧ y.cuda_mapping ≠ some p := by
  rw [ne_eq, ← undo_calls_end hloc hst]
  unfold cuda_in_force
  rw [hm, ht]
  constructor
  · rintro ⟨hp, hu⟩
    refine ⟨⟨hp, fun e he => hu e (List.mem_append_right _ he)⟩, ?_⟩
    rintro ⟨e, he, hend⟩
    exact hu e (List.mem_append_left _ he) hend
  · rintro ⟨⟨hp, ht⟩, hnone⟩
    refine ⟨hp, fun e he hend => ?_⟩
    rcases List.mem_append.mp he with he | he
    · exact hnone ⟨e, he, hend⟩
    · exact ht e he hend

/-- What a mapping that succeeds adds: an object with a reference to the registration, at the head of
its list, and one to the controller. -/
structure Added (t : State) (c : CtrlId) (m : MemId) (x : BafsMem) (k : BafsCtrl) (y : BafsMemDma)
    (u : State) : Prop where
  mem : y.mem = m
  ctrl : y.ctrl = c
  dmas : u.dmas = t.dmas.alloc y
  mems : u.mems = t.mems.set m { x with ref := x.ref + 1, dma_list := t.dmas.next :: x.dma_list }
  ctrls : u.ctrls = t.ctrls.set c { k with ref := k.ref + 1 }

theorem MapResult.added (hr : MapResult t c m x k n user id env r u) (hd : r.2.2 = some d) :
    d = t.dmas.next ∧ ∃ y, Added t c m x k y u := by
  cases hr with
  | refused | cut_short | cpu_not_copied | cuda_not_copied => cases hd
  | cpu_mapped => exact ⟨(Option.some.inj hd).symm, cpu_dma t c m x env, rfl, rfl, rfl, rfl, rfl⟩
  | cuda_mapped => exact ⟨(Option.some.inj hd).symm, cuda_dma t c m, rfl, rfl, rfl, rfl, rfl⟩

/-- The undoing of a mapping that holds neither the last reference to the registration nor the last to
the controller. -/
theorem bafs_ctrl_dma_unmap_mem_exact (hy : s.dmas.get d = some y) (hx : s.mems.get y.mem = some x)
    (hk : s.ctrls.get y.ctrl = some k) (hxr : x.ref ≠ 1) (hkr : k.ref ≠ 1) :
    wp (bafs_ctrl_dma_unmap_mem d) E (fun _ s' => s' = { s with
      trace := undo_calls y x ++ s.trace
      blocks := (undone_blocks y x s.blocks).free y.blk
      dmas := s.dmas.free d
      mems := s.mems.set y.mem { x with dma_list := x.dma_list.erase d, ref := x.ref - 1 }
      ctrls := s.ctrls.set y.ctrl { k with ref := k.ref - 1 } }) s := by
  unfold bafs_ctrl_dma_unmap_mem unmap_dma
  rw [wp_bind, wp_dma_at hy, wp_bind, wp_bind, wp_dma_at hy, wp_bind, wp_mem_at hx, wp_bind]
  refine (wp_mem_upd (by exact hx)).mpr ?_
  refine undo_mapping_exact.bind fun _ s₁ hs₁ => ?_
  subst hs₁
  unfold kfree
  rw [wp_bind, wp_modify, wp_bind, wp_modify]
  refine (wp_ctrl_release_kept (by exact hk) hkr).mpr ?_
  refine (wp_mem_put_kept (by exact Heap.get_set_self hx) (by exact hxr)).mpr ?_
  simp only [Heap.set_set]

/-- A mapping that succeeded can be taken back. -/
theorem MapResult.taken_back (hr : MapResult t c m x k n user id env r u) (hp : Paged x)
    (hst : x.state ≠ .DEAD_CB) (hparts : Parts t c k m x) (hd : r.2.2 = some d) :
    TakesBack E Alike (bafs_ctrl_dma_unmap_mem d) t u := by
  obtain ⟨rfl, y, ha⟩ := hr.added hd
  obtain rfl := ha.mem
  obtain rfl := ha.ctrl
  have hget : u.dmas.get t.dmas.next = some y := by rw [ha.dmas, Heap.get_alloc, if_pos rfl]
  intro w hw
  have hy : w.dmas.get t.dmas.next = some y := (hw.dmas _).trans hget
  have hx : w.mems.get y.mem =
      some { x with ref := x.ref + 1, dma_list := t.dmas.next :: x.dma_list } := by
    rw [hw.mems, ha.mems, Heap.get_set_self hparts.mem]
  have hk : w.ctrls.get y.ctrl = some { k with ref := k.ref + 1 } := by
    rw [hw.ctrls, ha.ctrls, Heap.get_set_self hparts.ctrl]
  have hmem := hparts.mem_pos
  have hctrl := hparts.ctrl_pos
  obtain ⟨hu, hcuda⟩ : Undoable x y ∧ ∀ p, y.cuda_mapping = some p → x.loc = BAFS_MEM_CUDA := by
    obtain ⟨-, he⟩ | ⟨z, -, he, -, hwhole, hfull, hcuda⟩ := hr.new_dma hp
    · rw [he, Heap.get_next] at hget
      cases hget
    · rw [he, Heap.get_alloc, if_pos rfl] at hget
      obtain rfl := Option.some.inj hget
      exact ⟨⟨hp, fun hloc => (hfull hloc).1, hwhole⟩, hcuda⟩
  refine wp_mono (bafs_ctrl_dma_unmap_mem_exact hy hx hk (by show x.ref + 1 ≠ 1; omega)
    (by show k.ref + 1 ≠ 1; omega)) fun _ w' hw' => ?_
  subst hw'
  refine ⟨?_, ?_, fun e => ?_, fun e => ?_, fun p => ?_⟩
  · show w.mems.set y.mem _ = t.mems
    rw [hw.mems, ha.mems, Heap.set_set, List.erase_cons_head]
    exact Heap.set_self hparts.mem
  · show w.ctrls.set y.ctrl _ = t.ctrls
    rw [hw.ctrls, ha.ctrls, Heap.set_set]
    exact Heap.set_self hparts.ctrl
  · show (w.dmas.free _).get e = _
    by_cases he : e = t.dmas.next
    · rw [Heap.get_free, if_pos he, he, Heap.get_next]
    · rw [Heap.get_free, if_neg he, hw.dmas, ha.dmas, Heap.get_alloc, if_neg he]
  · have hmapped : pages_in_force u e = pages_in_force t e + y.singles.count e := by
      have hsurplus : single_surplus u e = single_surplus t e :=
        (hr.moved hp.even_chunks).surplus e
      rw [pages_in_force_eq, pages_in_force_eq, hsurplus, held_single_alloc ha.dmas]
      omega
    rw [hu.pages_in_force (t := w) rfl, hw.pages, hmapped]
    omega
  · refine Iff.trans ?_ (hr.cuda_iff (p := p)).symm
    refine Iff.trans (cuda_in_force_undo (t := w) (hcuda p) hst (by exact rfl) (by exact Iff.rfl)) ?_
    rw [hw.cuda, hget]
    refine and_congr_right fun _ => ⟨fun hne z hz => ?_, fun hall => hall y rfl⟩
    obtain rfl := Option.some.inj hz
    exact hne

end Map

/-! ## The request -/

section Requests

variable {ctx : CtxId} {vaddr dma_addrs n : Nat}

/-- A mapping for one controller leaves everything as it was, or can be taken back. -/
theorem bafs_ctrl_dma_map_mem_alike {c : CtrlId} {user id : Nat} {env : DmaMapEnv} (hs : At h v s)
    (hh : NonNeg h) (hx : CtxHeld h v ctx) (hc : CtrlHeld h v c)
    (hp : ∀ m f, v.mems m = some f → Paged f)
    (hE : reads_missing_table v ctx vaddr → E .null_page_table) :
    wp (bafs_ctrl_dma_map_mem c ctx vaddr n user id env) E (fun r u =>
      (r.2.2 = none → Alike u s) ∧ ∀ d, r.2.2 = some d →
        TakesBack (fun _ => False) Alike (bafs_ctrl_dma_unmap_mem d) s u) s := by
  obtain ⟨y, hy⟩ := hs.ctx_live hx
  obtain ⟨k, hk⟩ := hs.ctrl_live hh hc
  by_cases hm : ∃ m, Found v ctx vaddr m
  · obtain ⟨m, hm⟩ := hm
    obtain ⟨f, hf, -, -, -, hst⟩ := hm.1
    obtain ⟨x, hxm, rfl⟩ := hs.mem_live hf
    have hpage : Paged x := (hp m _ hf).of_fields
    have hparts : Parts s c k m x := ⟨hxm, hs.wf.mem.pos m x hxm, hk, hs.wf.ctrl.pos c k hk⟩
    refine wp_mono (bafs_ctrl_dma_map_mem_exact hs hy hk hm hxm hpage.fits fun hloc ht => ?_)
      fun r u hr => ⟨fun hnone => hr.failed_alike hpage hnone,
        fun d hd => hr.taken_back hpage hst hparts hd⟩
    have hbare : ¬(x.cpu_page_table.isSome ∨ x.n_pages = 0) := ht
    rw [not_or, Option.not_isSome_iff_eq_none] at hbare
    exact hE ⟨m, _, hm, hf, hloc, hbare.1, hbare.2⟩
  · refine wp_mono (bafs_ctrl_dma_map_mem_none hs hy fun m hm' => hm ⟨m, hm'⟩) fun r u hr => ?_
    obtain ⟨rfl, rfl⟩ := hr
    exact ⟨fun _ => refl_of Alike u, fun d hd => by cases hd⟩

/-- Whatever the loop over the controllers has mapped can be taken back. -/
theorem group_map_loop_unwinds {env : Nat → DmaMapEnv} {ctrls : List CtrlId} (hs : At h v s)
    (hh : NonNeg h) (hx : CtxHeld h v ctx) (hc : ∀ c ∈ ctrls, CtrlHeld h v c)
    (hp : ∀ m f, v.mems m = some f → Paged f)
    (hE : reads_missing_table v ctx vaddr → E .null_page_table) :
    wp (group_map_loop ctx vaddr dma_addrs env ctrls.zipIdx ⟨n, 0, []⟩) E (fun r t =>
      Unwinds (fun _ => False) Alike bafs_ctrl_dma_unmap_mem r.1.dmas s t) s := by
  unfold group_map_loop
  refine wp_iterate_zipIdx (fun _ acc t =>
      Unwinds (fun _ => False) Alike bafs_ctrl_dma_unmap_mem acc.dmas s t ∧
      ∃ D, Mapped v ctx vaddr acc.dmas D ∧ At h { v with dmas := D } t)
    (fun i c acc t hci hinv => ?_) (fun acc t hinv => hinv.1) ⟨.nil, v.dmas, .nil, hs⟩
  obtain ⟨hback, D, hD, ht⟩ := hinv
  have hheld : CtrlHeld h v c := hc c (List.mem_of_getElem? hci)
  refine (wp_and (bafs_ctrl_dma_map_mem_alike ht hh hx hheld hp hE)
    (bafs_ctrl_dma_map_mem_spec (E := fun _ => True) ht hh hx hheld (fun _ _ _ _ _ => trivial)
      fun _ _ _ _ _ => trivial)).bind fun r u hr => ?_
  obtain ⟨⟨hsame, hundo⟩, hspec⟩ := hr
  obtain ⟨ret, n', o⟩ := r
  cases o with
  | none => exact hback.of_same (hsame rfl)
  | some d =>
    obtain ⟨-, hnone, -⟩ | ⟨m, d', hm, -, hd, hfree, hu⟩ := hspec
    · cases hnone
    · obtain rfl := Option.some.inj hd
      exact ⟨hback.push (hundo d rfl), _, hD.add hfree hm c, hu⟩

theorem kfree_alike {b : BlockId} (ha : Alike t s) :
    wp (kfree b) E (fun _ t' => Alike t' s) t :=
  trans_of Alike (Alike.of_trace (l := []) fun _ he => by cases he) ha

/-- The label `out_unmap_mems` leaves everything as it was. -/
theorem unmap_mems_alike {ds : List DmaId} {blk : BlockId}
    (hback : Unwinds (fun _ => False) Alike bafs_ctrl_dma_unmap_mem ds s t) :
    wp (unmap_mems ds blk) (fun _ => False) (fun _ u => Alike u s) t :=
  (hback t (refl_of Alike t)).bind fun _ _ hu => kfree_alike hu

/-- A DMA map for a group that fails leaves everything as it was. -/
theorem bafs_group_dma_map_mem_alike {argp : Nat} {params : BAFS_IOC_DMA_MAP_MEM_PARAMS}
    {g : GroupId} {l : List CtrlId} {env : GroupDmaMapEnv} (hs : At h v s) (hh : NonNeg h)
    (hg : v.group_ctrls g = some l) (hx : CtxHeld h v ctx)
    (hp : ∀ m f, v.mems m = some f → Paged f)
    (hE : reads_missing_table v ctx params.vaddr → E .null_page_table) :
    wp (bafs_group_dma_map_mem argp params g ctx env) E (fun ret t => ret < 0 → Alike t s) s := by
  unfold bafs_group_dma_map_mem
  refine wp_ite (fun _ _ => refl_of Alike s) fun _ => ?_
  obtain ⟨x, hgx, rfl⟩ := hs.group_live hg
  rw [wp_bind, wp_group_at hgx]
  have hzalloc : wp (kzalloc env.kzalloc) E (fun _ t => Alike t s) s := by
    rw [wp_kzalloc]
    split
    · exact Alike.of_trace (l := []) fun _ he => by cases he
    · exact refl_of Alike s
  refine (wp_and hzalloc (kzalloc_spec (E := E) hs env.kzalloc)).bind fun r s₁ hs₁ => ?_
  obtain ⟨hsame, -, hs₁⟩ := hs₁
  cases r with
  | none => exact fun _ => hsame
  | some blk =>
    have hc : ∀ c ∈ x.ctrls, CtrlHeld h v c := fun c hc => .inr ⟨g, x.ctrls, hg, hc⟩
    refine (group_map_loop_unwinds hs₁ hh hx hc hp hE).bind fun r t hback => ?_
    obtain ⟨acc, fail⟩ := r
    cases fail with
    | some ret =>
      refine (wp_weaken (unmap_mems_alike hback) fun _ => False.elim).bind fun _ u hu => ?_
      exact fun _ => trans_of Alike hu hsame
    | none =>
      unfold copy_to_user emit
      rw [wp_bind, wp_bind, wp_modify]
      refine wp_ite (fun _ => ?_) fun _ hneg => absurd hneg (by decide)
      refine (wp_weaken (unmap_mems_alike (hback.of_same ?_)) fun _ => False.elim).bind
        fun _ u hu => fun _ => trans_of Alike hu hsame
      refine Alike.of_trace (l := [_]) fun e he => ?_
      rw [List.mem_singleton.mp he]
      trivial

end Requests

/-- In the state `s`, a DMA map for the group of an open file leaves everything as it was if it returns
an error; it gets stuck on a missing page table only. -/
def AllOrNothing (s : State) : Prop :=
  ∀ i x argp params env, s.files.get i = some (.group x) → (s.groups.get x.group).isSome →
    wp (bafs_get_group x.group) (fun _ => False) (fun _ t =>
      wp (bafs_group_dma_map_mem argp params x.group x.ctx env)
        (fun e => e = .null_page_table ∧ reads_missing_table s.view x.ctx params.vaddr)
        (fun ret u => ret < 0 → Alike u t) t) s

theorem Inv.all_or_nothing (hi : Inv s) : AllOrNothing s := by
  intro i x argp params env hx hg
  obtain ⟨h, hl, hs⟩ := hi.sane.at
  have hh := hl.nonneg
  obtain ⟨y, hy⟩ := Option.isSome_iff_exists.mp hg
  have hview : s.view.group_ctrls x.group = some y.ctrls := hs.group_view hy
  refine wp_mono (bafs_get_group_spec hs hview) fun _ t ht => ?_
  have hctx : CtxHeld (h + tok Kind.group x.group) s.view x.ctx :=
    (CtxHeld.of_file (f := .group x) hh hx).add _ _
  exact bafs_group_dma_map_mem_alike ht (hh.tok _ _) hview hctx (fun m f hm => hi.tidy.paged hm)
    fun hmiss => ⟨rfl, hmiss⟩

/-- In every state that a run reaches, a DMA map for a group that returns an error leaves the
registrations, the controllers and the mappings in force as they were. -/
theorem group_map_all_or_nothing (rs : List Request) :
    Always step (fun _ => True) AllOrNothing rs init :=
  always_of_inv (fun _ hi => hi.all_or_nothing) rs

end BafsDriver
