import BafsDriver.Proofs.DmaMapProofs

/-!
# What a DMA mapping comes to

The state in which the mapping of a registration for one controller ends, to the last reference: the
lookup leaves nothing but its reference to the registration it finds, a mapping that is refused gives
everything back but a block, and one that is granted adds its object.
-/

set_option linter.style.nameCheck false

namespace BafsDriver

open Prog

variable {h : Held Kind} {v : View} {s : State} {E : Fault → Prop}

/-! ## The lookup -/

/-- A reference to the registration `m`, which is `x`, is taken. -/
def State.hold (s : State) (m : MemId) (x : BafsMem) : State :=
  { s with mems := s.mems.set m { x with ref := x.ref + 1 } }

theorem wp_mem_put_kept {m : MemId} {x : BafsMem} {Q : Unit → State → Prop}
    (hx : s.mems.get m = some x) (hr : x.ref ≠ 1) : wp (bafs_mem_put m) E Q s ↔
      Q () { s with mems := s.mems.set m { x with ref := x.ref - 1 } } := by
  unfold bafs_mem_put
  rw [wp_bind, wp_mem_at hx, wp_bind, wp_mem_upd hx, if_neg hr, wp_pure]

/-- A reference that was taken is given back. -/
theorem wp_mem_put_hold {m : MemId} {x : BafsMem} {Q : Unit → State → Prop} {t : State}
    (hx : t.mems.get m = some x) (hr : 0 < x.ref) (hs : s.mems = (t.hold m x).mems) :
    wp (bafs_mem_put m) E Q s ↔ Q () { s with mems := t.mems } := by
  have hm : s.mems.get m = some { x with ref := x.ref + 1 } := by
    rw [hs]
    exact Heap.get_set_self hx
  rw [wp_mem_put_kept hm (by show x.ref + 1 ≠ 1; omega), hs]
  simp only [State.hold, Heap.set_set, Nat.add_sub_cancel]
  rw [Heap.set_self hx]

/-- The walk of the lookup leaves the state as it is but for the reference it hands out. -/
theorem find_mem_exact {vaddr : Nat} {l : List MemId}
    (hl : ∀ m ∈ l, ∃ x, s.mems.get m = some x ∧ 0 < x.ref) :
    wp (find_mem vaddr l) E (fun r s' => r = first_match s.view vaddr l ∧ (r = none → s' = s) ∧
      ∀ m x, r = some m → s.mems.get m = some x → s' = s.hold m x) s := by
  induction l with
  | nil => exact ⟨rfl, fun _ => rfl, fun _ _ hr => by cases hr⟩
  | cons m l ih =>
    obtain ⟨x, hx, hr⟩ := hl m List.mem_cons_self
    unfold find_mem mem_kref_get
    rw [wp_bind, wp_mem_upd hx, wp_bind, wp_mem_at (Heap.get_set_self hx)]
    have hview : s.view.mems m = some x.fields := congrArg (Option.map BafsMem.fields) hx
    rw [first_match_cons hview]
    refine wp_ite (fun hp => ?_) fun hp => ?_
    · rw [wp_pure, if_pos (show lookup_matches vaddr x.fields from hp)]
      refine ⟨rfl, (fun hn => by cases hn), fun n y hn hy => ?_⟩
      obtain rfl := Option.some.inj hn
      obtain rfl := Option.some.inj (hx.symm.trans hy)
      rfl
    · rw [if_neg (show ¬lookup_matches vaddr x.fields from hp), wp_bind]
      refine (wp_mem_put_hold (t := s) hx hr rfl).mpr ?_
      exact ih fun n hn => hl n (List.mem_cons_of_mem _ hn)

theorem wp_put_ctx_kept {c : CtxId} {y : BafsCtx} {Q : Unit → State → Prop}
    (hy : s.ctxs.get c = some y) (hr : y.ref ≠ 1) : wp (bafs_put_ctx c) E Q s ↔
      Q () { s with ctxs := s.ctxs.set c { y with ref := y.ref - 1 } } := by
  unfold bafs_put_ctx
  rw [wp_bind, wp_ctx_at hy, wp_bind, wp_ctx_upd hy, if_neg hr, wp_pure]

/-- The lookup leaves the state as it is but for the reference it hands out. -/
theorem bafs_get_mem_with_ctx_exact {vaddr : Nat} {c : CtxId} {y : BafsCtx} (hs : At h v s)
    (hy : s.ctxs.get c = some y) :
    wp (bafs_get_mem_with_ctx vaddr c) E (fun r s' => (∀ m, r = some m ↔ Found v c vaddr m) ∧
      (r = none → s' = s) ∧ ∀ m x, r = some m → s.mems.get m = some x → s' = s.hold m x) s := by
  have hpos := hs.wf.ctx.pos c y hy
  have hl : ∀ m ∈ y.mem_list, ∃ x, s.mems.get m = some x ∧ 0 < x.ref := fun m hm => by
    obtain ⟨x, hx, -⟩ := hs.wf.tables.listed c y m hy hm
    exact ⟨x, hx, hs.wf.mem.pos m x hx⟩
  unfold bafs_get_mem_with_ctx ctx_kref_get
  rw [wp_bind, wp_ctx_upd hy, wp_bind, wp_ctx_at (Heap.get_set_self hy)]
  refine (find_mem_exact (by exact hl)).bind fun r s₁ hr => ?_
  obtain ⟨hr, hnone, hsome⟩ := hr
  have hctxs : s₁.ctxs = s.ctxs.set c { y with ref := y.ref + 1 } := by
    cases r with
    | none => rw [hnone rfl]
    | some m =>
      obtain ⟨x, hx, -⟩ := hl m (first_match_some hr.symm).1
      rw [hsome m x rfl hx]
      rfl
  have hy₁ : s₁.ctxs.get c = some { y with ref := y.ref + 1 } := by
    rw [hctxs]
    exact Heap.get_set_self hy
  have hback : s₁.ctxs.set c { y with ref := y.ref } = s.ctxs := by
    rw [hctxs, Heap.set_set, Heap.set_self hy]
  rw [wp_bind, wp_put_ctx_kept hy₁ (by show y.ref + 1 ≠ 1; omega), wp_pure]
  simp only [Nat.add_sub_cancel]
  refine ⟨fun m => ?_, fun hn => ?_, fun m x hm hx => ?_⟩
  · rw [hr, ← hs.found_iff hy, ← hs.view]
    rfl
  · rw [hback, hnone hn]
  · rw [hback, hsome m x hm hx]
    rfl

/-! ## The calls -/

/-- The pages of the table of a CPU registration. -/
def BafsMem.table (x : BafsMem) : List PageId := x.cpu_page_table.elim [] fun p => p.2

/-- The addresses that are given for the first `n` pages, each with its page. -/
def given (x : BafsMem) (answer : Nat → Option Nat) (n : Nat) : List (Nat × PageId) :=
  (List.range n).map fun i => ((answer i).getD 0, x.table.getD i 0)

/-- The calls that map the first `n` pages. -/
def map_calls (c : CtrlId) (x : BafsMem) (answer : Nat → Option Nat) (n : Nat) : List Event :=
  (List.range n).map fun i => .dma_map_single c (x.table.getD i 0) ((answer i).getD 0)
    (chunk_len i (u32 x.page_size) x.size)

/-- The calls that take the first `n` addresses back, the last first. -/
def unmap_calls (c : CtrlId) (x : BafsMem) (answer : Nat → Option Nat) (n : Nat) : List Event :=
  (List.range n).map fun i => .dma_unmap_single c ((answer i).getD 0) (u32 x.page_size)

/-- The page table of a CPU registration can be read as far as it is. -/
def has_table (x : BafsMem) : Prop := x.cpu_page_table.isSome ∨ x.n_pages = 0

instance (x : BafsMem) : Decidable (has_table x) := inferInstanceAs (Decidable (_ ∨ _))

theorem map_addrs_exact {c : CtrlId} {x : BafsMem} {answer : Nat → Option Nat} (ht : has_table x)
    (hlen : ∀ p, x.cpu_page_table = some p → p.2.length = x.n_pages) :
    wp (map_addrs c x (u32 x.page_size) answer) E (fun r s' => ∃ n, (∀ i < n, (answer i).isSome) ∧
      r.1 = given x answer n ∧
      s' = { s with trace := (map_calls c x answer n).reverse ++ s.trace } ∧
      (r.2 = none ∧ n = x.n_pages ∨
        r.2 = some (-EFAULT) ∧ n < x.n_pages ∧ answer n = none)) s := by
  unfold map_addrs
  refine wp_iterate_range (fun n acc s' => (∀ i < n, (answer i).isSome) ∧ acc = given x answer n ∧
      s' = { s with trace := (map_calls c x answer n).reverse ++ s.trace })
    (fun n acc s₁ hn hinv => ?_) (fun acc s₁ hinv => ?_) ⟨fun i hi => absurd hi (Nat.not_lt_zero i),
      rfl, rfl⟩
  · obtain ⟨hall, rfl, rfl⟩ := hinv
    obtain ⟨p, hp⟩ := Option.isSome_iff_exists.mp (ht.resolve_right (by omega))
    have hpage : p.2[n]? = some (x.table.getD n 0) := by
      have hlt : n < p.2.length := by
        rw [hlen p hp]
        exact hn
      rw [BafsMem.table, hp, Option.elim_some, List.getD_eq_getElem?_getD,
        List.getElem?_eq_getElem hlt, Option.getD_some]
    simp only [hp, hpage, wp_bind, dma_map_single]
    cases ha : answer n with
    | none => exact ⟨n, hall, rfl, rfl, .inr ⟨rfl, hn, ha⟩⟩
    | some addr =>
      refine ⟨fun i hi => ?_, ?_, ?_⟩
      · rcases Nat.lt_succ_iff_lt_or_eq.mp hi with hi | rfl
        · exact hall i hi
        · rw [ha]
          rfl
      · simp [given, List.range_succ, ha]
      · simp [map_calls, List.range_succ, ha]
  · obtain ⟨hall, hacc, hs⟩ := hinv
    exact ⟨x.n_pages, hall, hacc, hs, .inl ⟨rfl, rfl⟩⟩

theorem unmap_back_exact {c : CtrlId} {x : BafsMem} {answer : Nat → Option Nat} {n : Nat} :
    wp (unmap_back c ((given x answer n).map (·.1)) (u32 x.page_size)) E (fun _ s' =>
      s' = { s with trace := unmap_calls c x answer n ++ s.trace }) s := by
  unfold unmap_back
  induction n generalizing s with
  | zero => rfl
  | succ n ih =>
    simp only [given, List.range_succ, List.map_append, List.map_cons, List.map_nil,
      List.reverse_append, List.reverse_cons, List.reverse_nil, List.nil_append, List.singleton_append,
      each, wp_bind, dma_unmap_single, emit, wp_modify]
    refine wp_mono ih fun _ s' hs' => ?_
    rw [hs', unmap_calls, unmap_calls, List.range_succ, List.map_append, List.append_assoc]
    rfl

/-! ## The mapping -/

/-- The addresses that the mapping of the registration copies to the user, unless it is refused before
it gets there. -/
def granted_addrs (x : BafsMem) (env : DmaMapEnv) : Option (List Nat) :=
  if env.kzalloc = false then
    none
  else if x.loc = BAFS_MEM_CPU then
    if env.kcalloc = true ∧ has_table x ∧ ∀ i < x.n_pages, (env.dma_map_single i).isSome then
      some ((given x env.dma_map_single x.n_pages).map (·.1))
    else
      none
  else if x.loc = BAFS_MEM_CUDA then
    match x.cuda_page_table, env.nvidia_p2p_dma_map_pages with
    | some _, .ok addrs => some addrs
    | _, _ => none
  else
    none

/-- The copy of the addresses to the user. -/
def copy_call (user : Nat) (env : DmaMapEnv) (addrs : List Nat) : Event :=
  .copy_to_user .dma_addrs user (addrs.take (addrs.length - env.copy_to_user))

/-- The object that maps a CPU registration. -/
def cpu_dma (s : State) (c : CtrlId) (m : MemId) (x : BafsMem) (env : DmaMapEnv) : BafsMemDma where
  blk := s.blocks.next
  mem := m
  ctrl := c
  cuda_mapping := none
  addrs := some ((s.blocks.alloc ()).next, (given x env.dma_map_single x.n_pages).map (·.1))
  map_gran := u32 x.page_size
  pages := (given x env.dma_map_single x.n_pages).map (·.2)

/-- The object that maps a CUDA registration. -/
def cuda_dma (s : State) (c : CtrlId) (m : MemId) : BafsMemDma where
  blk := s.blocks.next
  mem := m
  ctrl := c
  cuda_mapping := some s.mappings.next
  addrs := none
  map_gran := 0
  pages := []

/-- The object `y` is added to the registration `x`, with its references. -/
def State.add_dma (s : State) (y : BafsMemDma) (x : BafsMem) (k : BafsCtrl) : State :=
  { s with
    dmas := s.dmas.alloc y
    mems := s.mems.set y.mem { x with ref := x.ref + 1, dma_list := s.dmas.next :: x.dma_list }
    ctrls := s.ctrls.set y.ctrl { k with ref := k.ref + 1 } }

/-- The state with other blocks, NVIDIA mappings and calls. -/
def State.after (s : State) (B : Heap Unit) (M : Heap P2pDmaMapping) (T : List Event) : State :=
  { s with blocks := B, mappings := M, trace := T }

/-- The mapping gets an array for the addresses of the registration and fails afterwards: the array is
never freed. -/
def loses_addrs (x : BafsMem) (env : DmaMapEnv) : Prop :=
  env.kzalloc = true ∧ x.loc = BAFS_MEM_CPU ∧ env.kcalloc = true ∧ has_table x ∧
    ((∃ i < x.n_pages, env.dma_map_single i = none) ∨ min env.copy_to_user x.n_pages ≠ 0)

/-- How the mapping of the registration `m`, which is `x`, for the controller `c`, which is `k`, may
end: with its result and its state. -/
inductive MapResult (s : State) (c : CtrlId) (m : MemId) (x : BafsMem) (k : BafsCtrl)
    (n user id : Nat) (env : DmaMapEnv) : Int × Nat × Option DmaId → State → Prop
  | refused {ret : Int} {B : Heap Unit} {T : List Event} (hret : ret < 0)
      (hg : granted_addrs x env = none)
      (hT : T = s.trace ∨ T = .nvidia_p2p_dma_map_pages c x.cuda_page_table :: s.trace)
      (hB : B = s.blocks ∨ B = (s.blocks.alloc ()).free s.blocks.next) (hl : ¬loses_addrs x env) :
      MapResult s c m x k n user id env (ret, n, none) (s.after B s.mappings T)
  | cut_short {B : Heap Unit} {j : Nat} (hloc : x.loc = BAFS_MEM_CPU) (hj : j < x.n_pages)
      (hg : granted_addrs x env = none)
      (hB : B = ((s.blocks.alloc ()).alloc ()).free s.blocks.next) (hl : loses_addrs x env) :
      MapResult s c m x k n user id env (-EFAULT, n, none) (s.after B s.mappings
        (unmap_calls c x env.dma_map_single j ++
          ((map_calls c x env.dma_map_single j).reverse ++ s.trace)))
  | cpu_not_copied {B : Heap Unit} {addrs : List Nat} (hloc : x.loc = BAFS_MEM_CPU)
      (hg : granted_addrs x env = some addrs) (hcopy : min env.copy_to_user addrs.length ≠ 0)
      (hB : B = ((s.blocks.alloc ()).alloc ()).free s.blocks.next) (hl : loses_addrs x env) :
      MapResult s c m x k n user id env (-EFAULT, report_n id n addrs.length, none)
        (s.after B s.mappings (unmap_calls c x env.dma_map_single x.n_pages ++
          copy_call user env addrs ::
            ((map_calls c x env.dma_map_single x.n_pages).reverse ++ s.trace)))
  | cuda_not_copied {B : Heap Unit} {addrs : List Nat} {t : TableId} (hloc : x.loc = BAFS_MEM_CUDA)
      (ht : x.cuda_page_table = some t) (hg : granted_addrs x env = some addrs)
      (hcopy : min env.copy_to_user addrs.length ≠ 0)
      (hB : B = (s.blocks.alloc ()).free s.blocks.next) :
      MapResult s c m x k n user id env (-EFAULT, report_n id n addrs.length, none)
        (s.after B (s.mappings.alloc ⟨t, c, addrs⟩)
          (.nvidia_p2p_dma_unmap_pages c x.cuda_page_table s.mappings.next ::
            copy_call user env addrs :: .nvidia_p2p_dma_map_pages c x.cuda_page_table :: s.trace))
  | cpu_mapped {addrs : List Nat} (hloc : x.loc = BAFS_MEM_CPU)
      (hg : granted_addrs x env = some addrs) (hcopy : min env.copy_to_user addrs.length = 0) :
      MapResult s c m x k n user id env (0, report_n id n addrs.length, some s.dmas.next)
        ((s.after ((s.blocks.alloc ()).alloc ()) s.mappings (copy_call user env addrs ::
            ((map_calls c x env.dma_map_single x.n_pages).reverse ++ s.trace))).add_dma
          (cpu_dma s c m x env) x k)
  | cuda_mapped {addrs : List Nat} {t : TableId} (hloc : x.loc = BAFS_MEM_CUDA)
      (ht : x.cuda_page_table = some t) (hg : granted_addrs x env = some addrs)
      (hcopy : min env.copy_to_user addrs.length = 0) :
      MapResult s c m x k n user id env (0, report_n id n addrs.length, some s.dmas.next)
        ((s.after (s.blocks.alloc ()) (s.mappings.alloc ⟨t, c, addrs⟩) (copy_call user env addrs ::
            .nvidia_p2p_dma_map_pages c x.cuda_page_table :: s.trace)).add_dma (cuda_dma s c m) x k)

section Map

variable {c : CtrlId} {m : MemId} {x : BafsMem} {k : BafsCtrl} {env : DmaMapEnv} {n user id : Nat}
  {B : Heap Unit} {M : Heap P2pDmaMapping} {T : List Event}

/-- The state while a mapping is made: it holds a reference to the registration and one to the
controller. -/
def State.held (s : State) (c : CtrlId) (k : BafsCtrl) (m : MemId) (x : BafsMem) (B : Heap Unit)
    (M : Heap P2pDmaMapping) (T : List Event) : State :=
  { s.after B M T with
    mems := s.mems.set m { x with ref := x.ref + 1 }
    ctrls := s.ctrls.set c { k with ref := k.ref + 1 } }

/-- The registration and the controller of a mapping. -/
structure Parts (s : State) (c : CtrlId) (k : BafsCtrl) (m : MemId) (x : BafsMem) : Prop where
  mem : s.mems.get m = some x
  mem_pos : 0 < x.ref
  ctrl : s.ctrls.get c = some k
  ctrl_pos : 0 < k.ref

theorem wp_ctrl_release_kept {Q : Unit → State → Prop} (hk : s.ctrls.get c = some k)
    (hr : k.ref ≠ 1) : wp (bafs_ctrl_release c) E Q s ↔
      Q () { s with ctrls := s.ctrls.set c { k with ref := k.ref - 1 } } := by
  unfold bafs_ctrl_release
  rw [wp_bind, wp_ctrl_at hk, wp_bind, wp_ctrl_upd hk, if_neg hr, wp_pure]

/-- A mapping that fails gives its references back. -/
theorem delete_dma_exact (hp : Parts s c k m x) {blk : BlockId} : wp (delete_dma blk c m) E
    (fun _ s' => s' = s.after (B.free blk) M T) (s.held c k m x B M T) := by
  have hpos := hp.ctrl_pos
  unfold delete_dma kfree
  rw [wp_bind, wp_modify, wp_bind]
  refine (wp_ctrl_release_kept (by exact Heap.get_set_self hp.ctrl)
    (by show k.ref + 1 ≠ 1; omega)).mpr ?_
  refine (wp_mem_put_hold (t := s) hp.mem hp.mem_pos (by exact rfl)).mpr ?_
  simp only [State.held, State.after, Nat.add_sub_cancel, Heap.set_set]
  rw [Heap.set_self hp.ctrl]

/-- A mapping that succeeds keeps its references in the object it adds. -/
theorem publish_dma_exact {y : BafsMemDma} (hp : Parts s y.ctrl k y.mem x) :
    wp (publish_dma y) E (fun d s' => d = s.dmas.next ∧ s' = (s.after B M T).add_dma y x k)
      (s.held y.ctrl k y.mem x B M T) := by
  unfold publish_dma
  rw [wp_bind, wp_get, wp_bind, wp_modify, wp_bind]
  refine (wp_mem_upd (by exact Heap.get_set_self hp.mem)).mpr ⟨rfl, ?_⟩
  simp only [State.held, State.after, State.add_dma, Heap.set_set]

theorem map_addrs_null {map_gran : Nat} {answer : Nat → Option Nat}
    {Q : List (Nat × PageId) × Option Int → State → Prop} (ht : ¬has_table x)
    (hE : E .null_page_table) : wp (map_addrs c x map_gran answer) E Q s := by
  unfold has_table at ht
  push Not at ht
  obtain ⟨hnone, hn⟩ := ht
  obtain ⟨n, hn⟩ := Nat.exists_eq_succ_of_ne_zero hn
  unfold map_addrs
  rw [hn, List.range_succ_eq_map]
  simp only [iterate, Option.not_isSome_iff_eq_none.mp hnone, wp_bind, wp_throw]
  exact hE

theorem held_kzalloc {ok : Bool} {Q : Option BlockId → State → Prop}
    (h0 : ok = false → Q none (s.held c k m x B M T))
    (h1 : ok = true → Q (some B.next) (s.held c k m x (B.alloc ()) M T)) :
    wp (kzalloc ok) E Q (s.held c k m x B M T) := by
  cases ok with
  | false => exact h0 rfl
  | true => exact h1 rfl

theorem held_copy {words : List Nat} {Q : Nat → State → Prop}
    (hQ : Q (min env.copy_to_user words.length)
      (s.held c k m x B M (copy_call user env words :: T))) :
    wp (copy_to_user env.copy_to_user user .dma_addrs words) E Q (s.held c k m x B M T) := hQ

/-- What the loop over the pages makes of the state, on the way to a mapping. -/
theorem held_map_addrs {answer : Nat → Option Nat} (ht : has_table x)
    (hlen : ∀ p, x.cpu_page_table = some p → p.2.length = x.n_pages) :
    wp (map_addrs c { x with ref := x.ref + 1 } (u32 x.page_size) answer) E (fun r s' =>
      ∃ j, (∀ i < j, (answer i).isSome) ∧ r.1 = given x answer j ∧
        s' = s.held c k m x B M ((map_calls c x answer j).reverse ++ T) ∧
        (r.2 = none ∧ j = x.n_pages ∨ r.2 = some (-EFAULT) ∧ j < x.n_pages ∧ answer j = none))
      (s.held c k m x B M T) :=
  map_addrs_exact (x := { x with ref := x.ref + 1 }) ht hlen

theorem held_unmap_back {answer : Nat → Option Nat} {j : Nat} :
    wp (unmap_back c ((given x answer j).map (·.1)) (u32 x.page_size)) E (fun _ s' =>
      s' = s.held c k m x B M (unmap_calls c x answer j ++ T)) (s.held c k m x B M T) :=
  unmap_back_exact

theorem dma_map_cpu_exact (hp : Parts s c k m x) (hz : env.kzalloc = true)
    (hloc : x.loc = BAFS_MEM_CPU) (hlen : ∀ p, x.cpu_page_table = some p → p.2.length = x.n_pages)
    (hnull : ¬has_table x → E .null_page_table) :
    wp (dma_map_cpu c m { x with ref := x.ref + 1 } s.blocks.next n user id env) E
      (MapResult s c m x k n user id env)
      (s.held c k m x (s.blocks.alloc ()) s.mappings s.trace) := by
  have hgrant : granted_addrs x env = if env.kcalloc = true ∧ has_table x ∧
      ∀ i < x.n_pages, (env.dma_map_single i).isSome then
        some ((given x env.dma_map_single x.n_pages).map (·.1)) else none := by
    rw [granted_addrs, if_neg (by simp [hz]), if_pos hloc]
  unfold dma_map_cpu
  rw [wp_bind]
  refine held_kzalloc (fun hk => ?_) fun hk => ?_
  · refine (delete_dma_exact hp).bind fun _ s₁ hs₁ => ?_
    subst hs₁
    refine .refused (by decide) ?_ (.inl rfl) (.inr rfl) fun hl => ?_
    · rw [hgrant, if_neg (by simp [hk])]
    · rw [hl.2.2.1] at hk
      cases hk
  by_cases ht : has_table x
  swap
  · exact (map_addrs_null (x := { x with ref := x.ref + 1 }) (Q := fun _ _ => False) ht
      (hnull ht)).bind fun _ _ hf => hf.elim
  refine (held_map_addrs ht hlen).bind fun r s₁ hr => ?_
  obtain ⟨mapped, fail⟩ := r
  obtain ⟨j, hall, hmapped, rfl, hfail⟩ := hr
  obtain rfl : mapped = given x env.dma_map_single j := hmapped
  obtain ⟨hfail, hj⟩ | ⟨hfail, hj, hnone⟩ := hfail
  · obtain rfl : fail = none := hfail
    obtain rfl : j = x.n_pages := hj
    have hg : granted_addrs x env = some ((given x env.dma_map_single x.n_pages).map (·.1)) := by
      rw [hgrant, if_pos ⟨hk, ht, hall⟩]
    have hn : x.n_pages = ((given x env.dma_map_single x.n_pages).map (·.1)).length := by
      simp [given]
    have hreport := congrArg (report_n id n) hn
    dsimp only
    rw [wp_bind]
    refine held_copy ?_
    refine wp_ite (fun hleft => ?_) fun hleft => ?_
    · refine held_unmap_back.bind fun _ s₂ hs₂ => ?_
      subst hs₂
      refine (delete_dma_exact hp).bind fun _ s₃ hs₃ => ?_
      subst hs₃
      rw [hreport]
      exact MapResult.cpu_not_copied hloc hg hleft rfl ⟨hz, hloc, hk, ht, .inr (hn ▸ hleft)⟩
    · refine (publish_dma_exact (y := cpu_dma s c m x env) hp).bind fun d s₂ hd => ?_
      obtain ⟨rfl, rfl⟩ := hd
      rw [hreport]
      exact MapResult.cpu_mapped hloc hg (not_not.mp hleft)
  · obtain rfl : fail = some (-EFAULT) := hfail
    refine held_unmap_back.bind fun _ s₂ hs₂ => ?_
    subst hs₂
    refine (delete_dma_exact hp).bind fun _ s₃ hs₃ => ?_
    subst hs₃
    refine .cut_short hloc hj ?_ rfl ⟨hz, hloc, hk, ht, .inl ⟨j, hj, hnone⟩⟩
    rw [hgrant, if_neg]
    rintro ⟨-, -, hall⟩
    have := hall j hj
    rw [hnone] at this
    cases this

theorem held_p2p_map {answer : Except Errno (List Nat)} {Q : Except Int MappingId → State → Prop}
    (hfail : ∀ ret : Int, ret < 0 → (x.cuda_page_table = none ∨ ∃ e, answer = .error e) →
      Q (.error ret) (s.held c k m x B M (.nvidia_p2p_dma_map_pages c x.cuda_page_table :: T)))
    (hok : ∀ t addrs, x.cuda_page_table = some t → answer = .ok addrs → Q (.ok M.next)
      (s.held c k m x B (M.alloc ⟨t, c, addrs⟩)
        (.nvidia_p2p_dma_map_pages c x.cuda_page_table :: T))) :
    wp (nvidia_p2p_dma_map_pages c x.cuda_page_table answer) E Q (s.held c k m x B M T) := by
  unfold nvidia_p2p_dma_map_pages emit
  rw [wp_bind, wp_modify]
  generalize x.cuda_page_table = o at *
  cases o with
  | none => exact hfail (-EINVAL) (by decide) (.inl rfl)
  | some t =>
    cases answer with
    | error e => exact hfail e.ret e.ret_neg (.inr ⟨e, rfl⟩)
    | ok addrs => exact hok t addrs rfl rfl

theorem dma_map_cuda_exact (hp : Parts s c k m x) (hz : env.kzalloc = true)
    (hloc : x.loc = BAFS_MEM_CUDA) :
    wp (dma_map_cuda c m { x with ref := x.ref + 1 } s.blocks.next n user id env) E
      (MapResult s c m x k n user id env)
      (s.held c k m x (s.blocks.alloc ()) s.mappings s.trace) := by
  have hgrant : granted_addrs x env = match x.cuda_page_table, env.nvidia_p2p_dma_map_pages with
      | some _, .ok addrs => some addrs
      | _, _ => none := by
    rw [granted_addrs, if_neg (by simp [hz]), if_neg (by rw [hloc]; decide), if_pos hloc]
  unfold dma_map_cuda
  rw [wp_bind]
  refine held_p2p_map (fun ret hret hno => ?_) fun t addrs ht he => ?_
  · refine (delete_dma_exact hp).bind fun _ s₁ hs₁ => ?_
    subst hs₁
    have hcpu : x.loc ≠ BAFS_MEM_CPU := by
      rw [hloc]
      decide
    refine .refused hret ?_ (.inr rfl) (.inr rfl) fun hl => hcpu hl.2.1
    rw [hgrant]
    rcases hno with hno | ⟨e, he⟩
    · rw [hno]
    · rw [he]
      cases x.cuda_page_table <;> rfl
  · have hg : granted_addrs x env = some addrs := by rw [hgrant, ht, he]
    dsimp only
    rw [wp_bind, wp_get, wp_bind]
    have hget : (s.held c k m x (s.blocks.alloc ()) (s.mappings.alloc ⟨t, c, addrs⟩)
        (.nvidia_p2p_dma_map_pages c x.cuda_page_table :: s.trace)).mappings.get s.mappings.next =
          some ⟨t, c, addrs⟩ := by
      show (s.mappings.alloc _).get _ = _
      rw [Heap.get_alloc, if_pos rfl]
    rw [hget]
    refine held_copy ?_
    refine wp_ite (fun hleft => ?_) fun hleft => ?_
    · unfold emit
      rw [wp_bind, wp_modify]
      refine (delete_dma_exact (T := .nvidia_p2p_dma_unmap_pages c x.cuda_page_table s.mappings.next ::
        copy_call user env addrs :: .nvidia_p2p_dma_map_pages c x.cuda_page_table :: s.trace) hp).bind
          fun _ s₃ hs₃ => ?_
      subst hs₃
      exact .cuda_not_copied hloc ht hg hleft rfl
    · refine (publish_dma_exact (y := cuda_dma s c m) hp).bind fun d s₂ hd => ?_
      obtain ⟨rfl, rfl⟩ := hd
      exact .cuda_mapped hloc ht hg (not_not.mp hleft)

theorem bafs_ctrl_dma_map_mem_exact {ctx : CtxId} {y : BafsCtx} {vaddr : Nat} (hs : At h v s)
    (hy : s.ctxs.get ctx = some y) (hk : s.ctrls.get c = some k) (hm : Found v ctx vaddr m)
    (hx : s.mems.get m = some x) (hfit : table_fits x)
    (hnull : x.loc = BAFS_MEM_CPU → ¬has_table x → E .null_page_table) :
    wp (bafs_ctrl_dma_map_mem c ctx vaddr n user id env) E (MapResult s c m x k n user id env) s := by
  have hp : Parts s c k m x := ⟨hx, hs.wf.mem.pos m x hx, hk, hs.wf.ctrl.pos c k hk⟩
  unfold bafs_ctrl_dma_map_mem
  refine (bafs_get_mem_with_ctx_exact hs hy).bind fun r s₁ hr => ?_
  obtain ⟨hfound, -, hr⟩ := hr
  obtain rfl := (hfound m).mpr hm
  obtain rfl := hr m x rfl hx
  dsimp only
  rw [wp_bind, wp_kzalloc]
  cases hz : env.kzalloc with
  | false =>
    rw [if_neg (by simp), wp_bind]
    refine (wp_mem_put_hold (t := s) hx hp.mem_pos rfl).mpr ?_
    refine MapResult.refused (B := s.blocks) (T := s.trace) (by decide) ?_ (.inl rfl) (.inl rfl)
      fun hl => ?_
    · rw [granted_addrs, if_pos hz]
    · rw [hl.1] at hz
      cases hz
  | true =>
    rw [if_pos rfl]
    dsimp only [bafs_get_ctrl]
    rw [wp_bind, wp_ctrl_upd (by exact hk), wp_bind, wp_mem_at (by exact Heap.get_set_self hx)]
    refine wp_ite (fun h0 => ?_) fun h0 => wp_ite (fun h1 => ?_) fun h1 => ?_
    · exact dma_map_cpu_exact hp hz h0 (fun p hpt => (hfit h0 p hpt).1) (hnull h0)
    · exact dma_map_cuda_exact hp hz h1
    · refine (delete_dma_exact (B := s.blocks.alloc ()) (M := s.mappings) (T := s.trace) hp).bind
        fun _ s₂ hs₂ => ?_
      subst hs₂
      refine .refused (by decide) ?_ (.inl rfl) (.inr rfl) fun hl => h0 hl.2.1
      rw [granted_addrs, if_neg (by simp [hz]), if_neg h0, if_neg h1]

end Map

/-- Where there is nothing to map, the request is refused. -/
theorem bafs_ctrl_dma_map_mem_none {c : CtrlId} {ctx : CtxId} {y : BafsCtx} {vaddr n user id : Nat}
    {env : DmaMapEnv} (hs : At h v s) (hy : s.ctxs.get ctx = some y)
    (hno : ∀ m, ¬Found v ctx vaddr m) :
    wp (bafs_ctrl_dma_map_mem c ctx vaddr n user id env) E
      (fun r s' => r = (-EINVAL, n, none) ∧ s' = s) s := by
  unfold bafs_ctrl_dma_map_mem
  refine (bafs_get_mem_with_ctx_exact hs hy).bind fun r s₁ hr => ?_
  obtain ⟨hfound, hnone, -⟩ := hr
  cases r with
  | none => exact ⟨rfl, hnone rfl⟩
  | some m => exact absurd ((hfound m).mp rfl) (hno m)

end BafsDriver
