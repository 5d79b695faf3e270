import BafsDriver.Proofs.DmaLedger

/-!
# What a DMA map for a group comes to

How a request that maps for DMA stands between two of its steps: what it has mapped is in its new
objects, and everything else that it has mapped is undone. The loop over the controllers, with the
addresses that it copies to the user.
-/

set_option linter.style.nameCheck false

namespace BafsDriver

open Prog

variable {h : Held Kind} {v : View} {s t u : State} {E : Fault → Prop} {M : MemId → Option BafsMem}

/-! ## The addresses copied -/

/-- The addresses copied to the user: where to, and what. -/
def addr_copy : Event → Option (Nat × List Nat)
  | .copy_to_user .dma_addrs dst words => some (u64 dst, words)
  | _ => none

/-- The copies of addresses to the user, the last first. -/
abbrev addr_copies (s : State) : List (Nat × List Nat) := calls addr_copy s

/-- The calls that neither map nor unmap for DMA nor copy addresses. -/
def bystander : Event → Prop
  | .dma_map_single .. => False
  | .dma_unmap_single .. => False
  | .dma_unmap_past_end .. => False
  | .nvidia_p2p_dma_map_pages .. => False
  | .nvidia_p2p_dma_unmap_pages .. => False
  | .nvidia_p2p_free_dma_mapping .. => False
  | .copy_to_user .dma_addrs .. => False
  | _ => True

theorem bystander_no_dma {e : Event} (he : bystander e) : no_dma e := by
  cases e <;> first | exact he.elim | trivial

theorem bystander_frees_none : frees_none bystander := fun _ he => he

theorem bystander_addr_copy {e : Event} (he : bystander e) : addr_copy e = none := by
  cases e with
  | copy_to_user source dst words =>
    cases source with
    | dma_addrs => exact he.elim
    | params | group_name => rfl
  | _ => rfl

theorem table_call_bystander {e : Event} (he : table_call e) : bystander e := by
  cases e <;> first | exact he.elim | trivial

/-! ## A request underway -/

/-- The mapping of the NVIDIA driver has been given back. -/
def given_back (s : State) (p : MappingId) : Prop :=
  ∃ c t, Event.nvidia_p2p_dma_unmap_pages c t p ∈ s.trace

/-- How much more often a page was mapped than unmapped and stands in a `bafs_mem_dma`. -/
def single_surplus (s : State) (e : Single) : Int :=
  Ledger.surplus mapped_single unmapped_single (held_single s) s.trace e

/-- How a request that maps for DMA has got from `s` to `t`: the objects there were are there, what it
mapped is in objects that can be unmapped, or has been unmapped. -/
structure Underway (M : MemId → Option BafsMem) (s t : State) : Prop where
  surplus : ∀ e, single_surplus t e = single_surplus s e
  old : ∀ d y, s.dmas.get d = some y → t.dmas.get d = some y
  new : ∀ d y, s.dmas.get d = none → t.dmas.get d = some y → ∃ f, M y.mem = some f ∧ Undoable f y ∧
    (f.loc = BAFS_MEM_CPU → y.singles.length = f.n_pages) ∧
    ∀ p, y.cuda_mapping = some p → f.loc = BAFS_MEM_CUDA ∧ f.state ≠ .DEAD_CB
  mappings : ∀ p, s.mappings.get p = none → (t.mappings.get p).isSome → given_back t p ∨
    ∃ d y, s.dmas.get d = none ∧ t.dmas.get d = some y ∧ y.cuda_mapping = some p

theorem Underway.refl : Underway M s s := by
  refine ⟨fun _ => rfl, fun _ _ hy => hy, fun d y hd hy => ?_, fun p hp hp' => ?_⟩
  · cases hd.symm.trans hy
  · rw [hp] at hp'
    cases hp'

theorem given_back.of_suffix {p : MappingId} {l : List Event} (hb : given_back s p)
    (ht : t.trace = l ++ s.trace) : given_back t p := by
  obtain ⟨c, n, hmem⟩ := hb
  exact ⟨c, n, ht ▸ List.mem_append_right l hmem⟩

/-- What neither maps nor unmaps for DMA may come next. -/
theorem Underway.grows (hu : Underway M s t) (hg : Grows bystander t u) : Underway M s u := by
  obtain ⟨hd, hm⟩ := Prod.mk.inj (hg.still bystander_frees_none)
  obtain ⟨l, hl, -⟩ := hg.trace
  refine ⟨fun e => ?_, ?_, ?_, fun p hp hp' => ?_⟩
  · rw [← hu.surplus e]
    exact ((hg.mono fun _ => bystander_no_dma).moved).surplus e
  · rw [hd]
    exact hu.old
  · rw [hd]
    exact hu.new
  · rw [hd]
    rw [hm] at hp'
    exact (hu.mappings p hp hp').imp_left fun hb => hb.of_suffix hl

/-- What neither maps nor unmaps for DMA may come first. -/
theorem Underway.after (hu : Underway M t u) (hg : Grows bystander s t) : Underway M s u := by
  obtain ⟨hd, hm⟩ := Prod.mk.inj (hg.still bystander_frees_none)
  refine ⟨fun e => ?_, ?_, ?_, ?_⟩
  · rw [hu.surplus e]
    exact ((hg.mono fun _ => bystander_no_dma).moved).surplus e
  · rw [← hd]
    exact hu.old
  · rw [← hd]
    exact hu.new
  · rw [← hd, ← hm]
    exact hu.mappings

section Map

variable {c : CtrlId} {m : MemId} {x : BafsMem} {k : BafsCtrl} {n user id : Nat} {env : DmaMapEnv}
  {r : Int × Nat × Option DmaId}

theorem MapResult.dmas_kept (hr : MapResult t c m x k n user id env r u) {d : DmaId} {y : BafsMemDma}
    (hy : t.dmas.get d = some y) : u.dmas.get d = some y := by
  cases hr with
  | refused | cut_short | cpu_not_copied | cuda_not_copied => exact hy
  | cpu_mapped | cuda_mapped => exact Heap.get_alloc_of_get hy

theorem MapResult.trace_grows (hr : MapResult t c m x k n user id env r u) :
    ∃ l, u.trace = l ++ t.trace := by
  cases hr with
  | refused hret hg hT =>
    rcases hT with rfl | rfl
    · exact ⟨[], rfl⟩
    · exact ⟨[_], rfl⟩
  | cut_short => exact ⟨_, (List.append_assoc _ _ _).symm⟩
  | @cpu_not_copied B addrs =>
    refine ⟨unmap_calls c x env.dma_map_single x.n_pages ++ copy_call user env addrs ::
      (map_calls c x env.dma_map_single x.n_pages).reverse, ?_⟩
    rw [List.append_assoc]
    rfl
  | cuda_not_copied => exact ⟨[_, _, _], rfl⟩
  | cpu_mapped => exact ⟨_ :: _, rfl⟩
  | cuda_mapped => exact ⟨[_, _], rfl⟩

/-- A mapping of the NVIDIA driver that was made is in a new object, or has been given back. -/
theorem MapResult.mapping (hr : MapResult t c m x k n user id env r u) {p : MappingId}
    (hp : t.mappings.get p = none) (hp' : (u.mappings.get p).isSome) : given_back u p ∨
      ∃ y, u.dmas.get t.dmas.next = some y ∧ y.cuda_mapping = some p := by
  have hnew : ∀ {a : P2pDmaMapping}, ((t.mappings.alloc a).get p).isSome → p = t.mappings.next := by
    intro a ha
    rw [Heap.get_alloc] at ha
    by_contra hne
    rw [if_neg hne, hp] at ha
    cases ha
  have hno : ¬(t.mappings.get p).isSome := by simp [hp]
  cases hr with
  | refused | cut_short | cpu_not_copied | cpu_mapped => exact absurd hp' hno
  | cuda_not_copied hloc ht hg hcopy =>
    obtain rfl := hnew hp'
    exact .inl ⟨c, x.cuda_page_table, List.mem_cons_self⟩
  | cuda_mapped hloc ht hg hcopy =>
    obtain rfl := hnew hp'
    refine .inr ⟨cuda_dma t c m, ?_, rfl⟩
    show (t.dmas.alloc _).get _ = _
    rw [Heap.get_alloc, if_pos rfl]

/-- A mapping for one controller may come next, whatever comes of it. -/
theorem Underway.map (hu : Underway M s t) (hr : MapResult t c m x k n user id env r u)
    (hm : M m = some x.fields) (hp : Paged x) (hst : x.state ≠ .DEAD_CB) : Underway M s u := by
  have hfree : s.dmas.get t.dmas.next = none := by
    by_contra hne
    obtain ⟨y, hy⟩ := Option.ne_none_iff_exists'.mp hne
    have hlive := hu.old _ y hy
    rw [Heap.get_next] at hlive
    cases hlive
  obtain ⟨l, hl⟩ := hr.trace_grows
  refine ⟨fun e => ?_, fun d y hy => hr.dmas_kept (hu.old d y hy), fun d y hd hy => ?_,
    fun p hp' hpu => ?_⟩
  · rw [← hu.surplus e]
    exact (hr.moved hp.even_chunks).surplus e
  · obtain ⟨-, he⟩ | ⟨z, -, he, hzm, hchunks, hfull, hcuda⟩ := hr.new_dma hp
    · exact hu.new d y hd (he ▸ hy)
    · rw [he] at hy
      obtain ⟨-, rfl⟩ | hy := Heap.get_alloc_cases hy
      · refine ⟨x.fields, by rw [hzm, hm], ⟨?_, fun hloc => (hfull hloc).1, fun hne => ?_⟩,
          fun hloc => (hfull hloc).2, fun p hp => ⟨hcuda p hp, hst⟩⟩
        · exact ⟨hp.fits, hp.size_lt, hp.sized, hp.bare⟩
        · obtain ⟨hloc, hst, hlen, hgran⟩ := hchunks hne
          exact ⟨hloc, hst, hlen, hgran⟩
      · exact hu.new d y hd hy
  · cases hpt : t.mappings.get p with
    | some a =>
      obtain hb | ⟨d, y, hd, hy, hc⟩ := hu.mappings p hp' (by rw [hpt]; rfl)
      · exact .inl (hb.of_suffix hl)
      · exact .inr ⟨d, y, hd, hr.dmas_kept hy, hc⟩
    | none =>
      obtain hb | ⟨y, hy, hc⟩ := hr.mapping hpt hpu
      · exact .inl hb
      · exact .inr ⟨_, y, hfree, hy, hc⟩

end Map

/-- A new object may be unmapped next. -/
theorem Underway.unmap {d : DmaId} {x : BafsMem} {y : BafsMemDma} (hu : Underway M s t)
    (hd : s.dmas.get d = none) (hy : t.dmas.get d = some y) (hx : M y.mem = some x.fields)
    (ht : u.trace = undo_calls y x ++ t.trace) (hf : u.dmas = t.dmas.free d)
    (hm : u.mappings = t.mappings) : Underway M s u := by
  obtain ⟨f, hmf, hundo, -, hcuda⟩ := hu.new d y hd hy
  obtain rfl := Option.some.inj (hx.symm.trans hmf)
  refine ⟨fun e => ?_, fun e z hz => ?_, fun e z he hz => ?_, fun p hp hp' => ?_⟩
  · rw [← hu.surplus e]
    exact (hundo.of_fields.moved hy ht hf).surplus e
  · have hne : e ≠ d := fun he => by
      rw [he, hd] at hz
      cases hz
    rw [hf, Heap.get_free, if_neg hne]
    exact hu.old e z hz
  · rw [hf] at hz
    exact hu.new e z he (Heap.get_of_free hz).2
  · rw [hm] at hp'
    obtain hb | ⟨e, z, he, hz, hzp⟩ := hu.mappings p hp hp'
    · exact .inl (hb.of_suffix ht)
    · by_cases hed : e = d
      · -- the object held this mapping: its registration is alive, so the mapping is given back
        rw [hed, hy] at hz
        obtain rfl := Option.some.inj hz
        obtain ⟨hloc, hst⟩ := hcuda p hzp
        refine .inl ⟨y.ctrl, x.cuda_page_table, ?_⟩
        have hcalls : undo_calls y x = [.nvidia_p2p_free_dma_mapping p,
            .nvidia_p2p_dma_unmap_pages y.ctrl x.cuda_page_table p] := by
          have hloc : x.loc = BAFS_MEM_CUDA := hloc
          have hst : x.state ≠ .DEAD_CB := hst
          unfold undo_calls
          rw [if_neg (by rw [hloc]; decide), if_pos hloc, hzp]
          exact if_pos hst
        rw [ht, hcalls]
        exact List.mem_cons_of_mem _ List.mem_cons_self
      · exact .inr ⟨e, z, he, by rw [hf, Heap.get_free, if_neg hed, hz], hzp⟩

/-! ## What one controller copies -/

/-- How many addresses a mapping of the registration has. -/
def entries (f : BafsMem) (env : DmaMapEnv) : Nat := (granted_addrs f env).elim 0 List.length

/-- The mapping is granted and all its addresses are copied to the user. -/
def copied (f : BafsMem) (env : DmaMapEnv) : Prop :=
  ∃ addrs, granted_addrs f env = some addrs ∧ min env.copy_to_user addrs.length = 0

section Map

variable {c : CtrlId} {m : MemId} {x : BafsMem} {k : BafsCtrl} {n user id : Nat} {env : DmaMapEnv}
  {r : Int × Nat × Option DmaId}

/-- A mapping succeeds exactly if all its addresses are copied. -/
theorem MapResult.outcome (hr : MapResult t c m x k n user id env r u) :
    (copied x env ∧ r = (0, report_n id n (entries x env), some t.dmas.next)) ∨
      (¬copied x env ∧ r.1 < 0 ∧ r.2.2 = none) := by
  have hnone : granted_addrs x env = none → ¬copied x env := by
    rintro hg ⟨addrs, hg', -⟩
    cases hg.symm.trans hg'
  have hnot : ∀ {addrs : List Nat}, granted_addrs x env = some addrs →
      min env.copy_to_user addrs.length ≠ 0 → ¬copied x env := by
    rintro addrs hg hleft ⟨addrs', hg', hleft'⟩
    obtain rfl := Option.some.inj (hg.symm.trans hg')
    exact hleft hleft'
  have hentries : ∀ {addrs : List Nat}, granted_addrs x env = some addrs →
      entries x env = addrs.length := by
    intro addrs hg
    rw [entries, hg, Option.elim_some]
  cases hr with
  | refused hret hg => exact .inr ⟨hnone hg, hret, rfl⟩
  | cut_short hloc hj hg => exact .inr ⟨hnone hg, (by decide : -EFAULT < 0), rfl⟩
  | cpu_not_copied hloc hg hcopy => exact .inr ⟨hnot hg hcopy, (by decide : -EFAULT < 0), rfl⟩
  | cuda_not_copied hloc ht hg hcopy => exact .inr ⟨hnot hg hcopy, (by decide : -EFAULT < 0), rfl⟩
  | cpu_mapped hloc hg hcopy => exact .inl ⟨⟨_, hg, hcopy⟩, by rw [hentries hg]⟩
  | cuda_mapped hloc ht hg hcopy => exact .inl ⟨⟨_, hg, hcopy⟩, by rw [hentries hg]⟩

theorem map_calls_addr_copy {answer : Nat → Option Nat} {j : Nat} :
    (map_calls c x answer j).filterMap addr_copy = [] := by
  refine List.filterMap_eq_nil_iff.mpr fun e he => ?_
  obtain ⟨i, -, rfl⟩ := List.mem_map.mp he
  rfl

theorem unmap_calls_addr_copy {answer : Nat → Option Nat} {j : Nat} :
    (unmap_calls c x answer j).filterMap addr_copy = [] := by
  refine List.filterMap_eq_nil_iff.mpr fun e he => ?_
  obtain ⟨i, -, rfl⟩ := List.mem_map.mp he
  rfl

/-- A mapping that is granted copies its addresses, as many as can be written. -/
theorem MapResult.copies (hr : MapResult t c m x k n user id env r u) :
    addr_copies u = ((granted_addrs x env).map fun addrs =>
      (u64 user, addrs.take (addrs.length - env.copy_to_user))).toList ++ addr_copies t := by
  cases hr with
  | refused hret hg hT =>
    rw [hg]
    rcases hT with rfl | rfl <;> rfl
  | cut_short hloc hj hg =>
    rw [hg]
    simp [addr_copies, calls, State.after, List.filterMap_append, List.filterMap_reverse,
      map_calls_addr_copy, unmap_calls_addr_copy]
  | cpu_not_copied hloc hg hcopy =>
    rw [hg]
    simp [addr_copies, calls, State.after, List.filterMap_append, List.filterMap_reverse,
      map_calls_addr_copy, unmap_calls_addr_copy, copy_call, addr_copy]
  | cpu_mapped hloc hg hcopy =>
    rw [hg]
    simp [addr_copies, calls, State.after, State.add_dma, List.filterMap_append,
      List.filterMap_reverse, map_calls_addr_copy, copy_call, addr_copy]
  | cuda_not_copied hloc ht hg hcopy =>
    rw [hg]
    rfl
  | cuda_mapped hloc ht hg hcopy =>
    rw [hg]
    rfl

end Map

/-! ## The loop over the controllers -/

section Loop

variable {f : BafsMem} {env : Nat → DmaMapEnv} {ctx : CtxId} {m : MemId} {vaddr dma_addrs n : Nat}
  {ctrls : List CtrlId}

/-- What controller `i` of a group copies to the user, if its mapping is granted: its place is reckoned
with the number of addresses of the first controller. -/
def group_copy (f : BafsMem) (env : Nat → DmaMapEnv) (dma_addrs i : Nat) : Option (Nat × List Nat) :=
  (granted_addrs f (env i)).map fun addrs =>
    (u64 (dma_addrs + 8 * (u32 (entries f (env 0)) * i)),
      addrs.take (addrs.length - (env i).copy_to_user))

/-- What the first `n` controllers of a group copy, the last first. -/
def group_copies (f : BafsMem) (env : Nat → DmaMapEnv) (dma_addrs n : Nat) : List (Nat × List Nat) :=
  ((List.range n).filterMap (group_copy f env dma_addrs)).reverse

theorem group_copies_succ {i : Nat} : group_copies f env dma_addrs (i + 1) =
    (group_copy f env dma_addrs i).toList ++ group_copies f env dma_addrs i := by
  unfold group_copies
  rw [List.range_succ, List.filterMap_append, List.reverse_append]
  congr 1
  cases hc : group_copy f env dma_addrs i with
  | none => simp [hc]
  | some a => simp [hc]

/-- The number of addresses of the first `n` controllers. -/
def all_entries (f : BafsMem) (env : Nat → DmaMapEnv) (n : Nat) : Nat :=
  ((List.range n).map fun i => entries f (env i)).sum

theorem all_entries_succ {i : Nat} :
    all_entries f env (i + 1) = all_entries f env i + entries f (env i) := by
  simp [all_entries, List.range_succ]

/-- How the loop over `len` controllers ends: with all of them mapped, or at the first that is not. -/
inductive LoopEnd (f : BafsMem) (env : Nat → DmaMapEnv) (dma_addrs len n : Nat) (s : State) :
    GroupMapAcc × Option Int → State → Prop
  | all {acc : GroupMapAcc} {t : State} (hall : ∀ j < len, copied f (env j))
      (hn : acc.n_dma_addrs = if len = 0 then n else u32 (all_entries f env len))
      (hcopies : addr_copies t = group_copies f env dma_addrs len ++ addr_copies s) :
      LoopEnd f env dma_addrs len n s (acc, none) t
  | failed {acc : GroupMapAcc} {ret : Int} {i : Nat} {t : State} (hi : i < len) (hret : ret < 0)
      (hpass : ∀ j < i, copied f (env j)) (hnot : ¬copied f (env i))
      (hcopies : addr_copies t = group_copies f env dma_addrs (i + 1) ++ addr_copies s) :
      LoopEnd f env dma_addrs len n s (acc, some ret) t

/-- The variables of the loop after `i` rounds. -/
structure LoopVars (f : BafsMem) (env : Nat → DmaMapEnv) (n i : Nat) (acc : GroupMapAcc) : Prop where
  total : acc.n_dma_addrs = if i = 0 then n else u32 (all_entries f env i)
  per_ctrl : acc.n_dma_addrs_per_ctrl = if i = 0 then 0 else u32 (entries f (env 0))

theorem LoopVars.place {i : Nat} {acc : GroupMapAcc} (hv : LoopVars f env n i acc) :
    acc.n_dma_addrs_per_ctrl * i = u32 (entries f (env 0)) * i := by
  rw [hv.per_ctrl]
  by_cases hi : i = 0
  · rw [hi, Nat.mul_zero, Nat.mul_zero]
  · rw [if_neg hi]

theorem u32_add_u32 (a b : Nat) : u32 (u32 a + b) = u32 (a + b) := by
  unfold u32
  omega

theorem LoopVars.next {i : Nat} {acc : GroupMapAcc} {ds : List DmaId} (hv : LoopVars f env n i acc) :
    LoopVars f env n (i + 1) ⟨report_n i acc.n_dma_addrs (entries f (env i)),
      if i = 0 then report_n i acc.n_dma_addrs (entries f (env i)) else acc.n_dma_addrs_per_ctrl,
      ds⟩ := by
  unfold report_n
  by_cases hi : i = 0
  · subst hi
    refine ⟨?_, rfl⟩
    simp [all_entries]
  · refine ⟨?_, ?_⟩
    · rw [if_neg hi, if_neg (Nat.succ_ne_zero i), hv.total, if_neg hi, u32_add_u32, all_entries_succ]
    · dsimp only
      rw [if_neg (Nat.succ_ne_zero i), if_neg hi, hv.per_ctrl, if_neg hi]

theorem granted_addrs_fields {x : BafsMem} {env : DmaMapEnv} :
    granted_addrs x.fields env = granted_addrs x env := rfl

/-- The loop over the controllers of a group, for a registration that the lookup finds. -/
theorem group_map_loop_result (hs : At h v s) (hh : NonNeg h) (hx : CtxHeld h v ctx)
    (hc : ∀ c ∈ ctrls, CtrlHeld h v c) (hm : Found v ctx vaddr m) (hf : v.mems m = some f)
    (hp : Paged f) (hnull : f.loc = BAFS_MEM_CPU → ¬has_table f → E .null_page_table) :
    wp (group_map_loop ctx vaddr dma_addrs env ctrls.zipIdx ⟨n, 0, []⟩) E (fun r t =>
      LoopEnd f env dma_addrs ctrls.length n s r t ∧ Underway v.mems s t ∧
        ∃ D, Mapped v ctx vaddr r.1.dmas D ∧ At h { v with dmas := D } t) s := by
  unfold group_map_loop
  refine wp_iterate_zipIdx (fun i acc t => (∀ j < i, copied f (env j)) ∧ LoopVars f env n i acc ∧
      addr_copies t = group_copies f env dma_addrs i ++ addr_copies s ∧ Underway v.mems s t ∧
      ∃ D, Mapped v ctx vaddr acc.dmas D ∧ At h { v with dmas := D } t)
    (fun i c acc t hci hinv => ?_) (fun acc t hinv => ?_)
    ⟨(fun j hj => by cases hj), ⟨rfl, rfl⟩, rfl, .refl, v.dmas, .nil, hs⟩
  · obtain ⟨hpass, hvars, hcopies, hu, D, hD, ht⟩ := hinv
    have hheld : CtrlHeld h v c := hc c (List.mem_of_getElem? hci)
    obtain ⟨y, hy⟩ := ht.ctx_live hx
    obtain ⟨k, hk⟩ := ht.ctrl_live hh hheld
    obtain ⟨x, hxm, rfl⟩ := ht.mem_live hf
    have hst : x.state ≠ .DEAD_CB := by
      obtain ⟨g, hg, -, -, -, hst⟩ := hm.1
      obtain rfl := Option.some.inj (hf.symm.trans hg)
      exact hst
    refine (wp_and (bafs_ctrl_dma_map_mem_exact ht hy hk hm hxm hp.fits hnull)
      (bafs_ctrl_dma_map_mem_spec (E := fun _ => True) ht hh hx hheld (fun _ _ _ _ _ => trivial)
        fun _ _ _ _ _ => trivial)).bind fun r t₁ hr => ?_
    obtain ⟨hr, hspec⟩ := hr
    have hu₁ : Underway v.mems s t₁ := hu.map hr hf hp.of_fields hst
    have hcopies₁ : addr_copies t₁ = group_copies x.fields env dma_addrs (i + 1) ++ addr_copies s := by
      rw [hr.copies, hcopies, group_copies_succ, List.append_assoc, group_copy, hvars.place,
        granted_addrs_fields, show ∀ n, u64 (u64 n) = u64 n from fun n => Nat.mod_mod _ _]
    obtain ⟨hcopied, rfl⟩ | ⟨hnot, hret, hnone⟩ := hr.outcome
    · obtain ⟨-, hnone, -⟩ | ⟨m', d, hm', -, hd, hfree, ht₁⟩ := hspec
      · cases hnone
      · obtain rfl := Option.some.inj hd
        refine ⟨fun j hj => ?_, hvars.next, hcopies₁, hu₁, _, hD.add hfree hm' c, ht₁⟩
        rcases Nat.lt_succ_iff_lt_or_eq.mp hj with hj | rfl
        · exact hpass j hj
        · exact hcopied
    · obtain ⟨ret, n', d⟩ := r
      obtain rfl : d = none := hnone
      obtain ⟨-, -, ht₁⟩ | ⟨_, _, _, _, hd, _⟩ := hspec
      · exact ⟨.failed (List.getElem?_eq_some_iff.mp hci).1 hret hpass hnot hcopies₁, hu₁, D, hD, ht₁⟩
      · cases hd
  · obtain ⟨hpass, hvars, hcopies, hu, hD⟩ := hinv
    exact ⟨.all hpass hvars.total hcopies, hu, hD⟩

end Loop

/-! ## Taking mappings back -/

theorem undo_calls_addr_copy {x : BafsMem} {y : BafsMemDma} :
    (undo_calls y x).filterMap addr_copy = [] := by
  refine List.filterMap_eq_nil_iff.mpr fun e he => ?_
  unfold undo_calls at he
  split at he
  · split at he
    · obtain ⟨i, -, rfl⟩ := List.mem_map.mp (List.mem_reverse.mp he)
      unfold unmap_call
      split <;> rfl
    · cases he
  · split at he
    · split at he
      · split at he
        · rcases List.mem_cons.mp he with rfl | he
          · rfl
          · rw [List.mem_singleton.mp he]
            rfl
        · cases he
      · cases he
    · cases he

/-- A new object may be unmapped next, and nothing is copied meanwhile. -/
theorem bafs_ctrl_dma_unmap_mem_underway {d : DmaId} (hs : At h v t) (hu : Underway v.mems s t)
    (hd : s.dmas.get d = none) {y : BafsMemDma} (hy : t.dmas.get d = some y) :
    wp (bafs_ctrl_dma_unmap_mem d) (fun _ => True) (fun _ u => Underway v.mems s u ∧
      addr_copies u = addr_copies t) t := by
  obtain ⟨f, hf, -⟩ := hu.new d y hd hy
  obtain ⟨x, hx, rfl⟩ := hs.mem_live hf
  unfold bafs_ctrl_dma_unmap_mem
  rw [wp_bind, wp_dma_at hy]
  refine (unmap_dma_calls hy hx).bind fun _ u hu' => ?_
  obtain ⟨w, ht, hdm, hm, hg⟩ := hu'
  have hw : Underway v.mems s w := hu.unmap hd hy hf ht hdm hm
  have hcopies : addr_copies w = addr_copies t := by
    unfold addr_copies calls
    rw [ht, List.filterMap_append, undo_calls_addr_copy, List.nil_append]
  have hput := (bafs_mem_put_adds (m := y.mem)).mono fun _ => table_call_bystander
  refine wp_mono (hput u) fun _ u₁ hg₁ => ?_
  have hg : Grows bystander w u₁ := IsTrans.trans _ _ _ hg.of_none hg₁
  exact ⟨hw.grows hg, (hg.calls fun _ => bystander_addr_copy).trans hcopies⟩

/-- The new objects of a view that are not in another state. -/
theorem Mapped.live {ctx : CtxId} {vaddr : Nat} {d : DmaId} {ds : List DmaId}
    {D : DmaId → Option (MemId × CtrlId)} (hD : Mapped v ctx vaddr ds D) (hs : At h v s)
    (ht : At h { v with dmas := D } t) (hd : d ∈ ds) :
    s.dmas.get d = none ∧ ∃ y, t.dmas.get d = some y := by
  obtain ⟨hnone, m, c, hsome, -⟩ := hD.new d hd
  obtain ⟨y, hy, -⟩ := ht.dma_live hsome
  refine ⟨?_, y, hy⟩
  rw [← hs.view] at hnone
  exact Option.map_eq_none_iff.mp hnone

/-- Taking all new mappings back leaves none of them. -/
theorem unmap_mems_underway {ctx : CtxId} {vaddr : Nat} {ds : List DmaId} {blk : BlockId}
    {D : DmaId → Option (MemId × CtrlId)} (hs : At h v s) (hD : Mapped v ctx vaddr ds D)
    (ht : At h { v with dmas := D } t) (hh : NonNeg h) (hu : Underway v.mems s t) :
    wp (unmap_mems ds blk) (fun _ => True) (fun _ u => Underway v.mems s u ∧ At h v u ∧
      addr_copies u = addr_copies t) t := by
  unfold unmap_mems
  refine (wp_each (fun l u => Underway v.mems s u ∧ addr_copies u = addr_copies t ∧
    ∃ D, Mapped v ctx vaddr l D ∧ At h { v with dmas := D } u) ?_
    ⟨hu, rfl, D, hD.reverse, ht⟩).bind ?_
  · rintro d l u ⟨hu, hcopies, D, hD, hs₁⟩
    obtain ⟨-, m, c, hd, ⟨f, hf, -⟩, -⟩ := hD.new d List.mem_cons_self
    obtain ⟨hnone, y, hy⟩ := hD.live hs hs₁ List.mem_cons_self
    refine wp_mono (wp_and (bafs_ctrl_dma_unmap_mem_spec hs₁ hh hd hf)
      (bafs_ctrl_dma_unmap_mem_underway hs₁ hu hnone hy)) fun _ u₁ hu₁ => ?_
    exact ⟨hu₁.2.1, hu₁.2.2.trans hcopies, _, hD.drop, hu₁.1⟩
  · rintro _ u ⟨hu, hcopies, D, hD, hs₁⟩
    rw [hD.eq_of_nil] at hs₁
    refine wp_mono (wp_and (hs₁.keep (kfree_quiet quiet_at blk)) (kfree_adds (A := bystander) u))
      fun _ u₁ hu₁ => ?_
    exact ⟨hu.grows hu₁.2, hu₁.1, (hu₁.2.calls fun _ => bystander_addr_copy).trans hcopies⟩

/-- What a request that maps for DMA leaves when it fails: no object, no page and no mapping of the
NVIDIA driver. -/
structure Undone (s t : State) : Prop where
  dmas : ∀ d, (t.dmas.get d).isSome → (s.dmas.get d).isSome
  /-- Each page has been unmapped as often as mapped. -/
  singles : ∀ e, (calls mapped_single t).count e + (calls unmapped_single s).count e =
    (calls mapped_single s).count e + (calls unmapped_single t).count e
  mappings : ∀ p, s.mappings.get p = none → (t.mappings.get p).isSome → given_back t p

theorem Underway.undone (hu : Underway M s t)
    (hd : ∀ d, (t.dmas.get d).isSome → (s.dmas.get d).isSome) : Undone s t := by
  have hsame : ∀ d, t.dmas.get d = s.dmas.get d := by
    intro d
    cases hy : s.dmas.get d with
    | some y => exact hu.old d y hy
    | none =>
      cases hy' : t.dmas.get d with
      | none => rfl
      | some y' =>
        have := hd d (by rw [hy']; rfl)
        rw [hy] at this
        cases this
  refine ⟨hd, fun e => ?_, fun p hp hp' => ?_⟩
  · have hheld : held_single t e = held_single s e := by
      refine Heap.sum_congr fun d => ?_
      rw [hsame d]
    have := hu.surplus e
    unfold single_surplus Ledger.surplus at this
    rw [hheld] at this
    unfold calls
    omega
  · obtain hb | ⟨d, y, hnone, hy, -⟩ := hu.mappings p hp hp'
    · exact hb
    · rw [hsame d, hnone] at hy
      cases hy

/-- Where the view has got no new object, there is none. -/
theorem At.no_new_dma (hs : At h v s) {h' : Held Kind} (ht : At h' v t) (d : DmaId)
    (hd : (t.dmas.get d).isSome) : (s.dmas.get d).isSome := by
  have hview : s.view.dmas d = t.view.dmas d := by rw [hs.view, ht.view]
  have hmap : (s.dmas.get d).map (fun y => (y.mem, y.ctrl)) =
      (t.dmas.get d).map fun y => (y.mem, y.ctrl) := hview
  rw [← Option.isSome_map, hmap, Option.isSome_map]
  exact hd

end BafsDriver
