import BafsDriver.Proofs.AddressBuffer

/-!
# A DMA map for a group and the maps for its controllers

A group request reckons the place of a controller's addresses with the number of addresses of the first
controller, and the total with the number of each. It is compared here with one request for each
controller, whose addresses follow those of the controllers before.
-/

set_option linter.style.nameCheck false

namespace BafsDriver

open Prog

variable {h : Held Kind} {v : View} {s t t' u u' : State} {E : Fault → Prop} {f : BafsMem}
  {env : Nat → DmaMapEnv} {ctx : CtxId} {ctrls : List CtrlId} {i : Nat}

/-! ## States that differ in what they copied -/

/-- A `bafs_mem_dma` without the addresses of its blocks. -/
def BafsMemDma.content (y : BafsMemDma) :
    MemId × CtrlId × Option MappingId × Option (List Nat) × Nat × List PageId :=
  (y.mem, y.ctrl, y.cuda_mapping, y.addrs.map (·.2), y.map_gran, y.pages)

/-- The calls that do not copy to the user. -/
def other_call : Event → Option Event
  | .copy_to_user .. => none
  | e => some e

/-- The lists, references and mappings of the two states are the same. -/
structure SameMaps (t u : State) : Prop where
  next : t.dmas.next = u.dmas.next
  dmas : ∀ d, (t.dmas.get d).map BafsMemDma.content = (u.dmas.get d).map BafsMemDma.content
  mems : t.mems = u.mems
  ctxs : t.ctxs = u.ctxs
  ctrls : t.ctrls = u.ctrls
  groups : t.groups = u.groups
  mappings : t.mappings = u.mappings
  calls : calls other_call t = calls other_call u

theorem SameMaps.alloc {y y' : BafsMemDma} {D D' : Heap BafsMemDma} (hnext : D.next = D'.next)
    (hd : ∀ d, (D.get d).map BafsMemDma.content = (D'.get d).map BafsMemDma.content)
    (hy : y.content = y'.content) (d : DmaId) :
    ((D.alloc y).get d).map BafsMemDma.content = ((D'.alloc y').get d).map BafsMemDma.content := by
  rw [Heap.get_alloc, Heap.get_alloc, hnext]
  by_cases h : d = D'.next
  · rw [if_pos h, if_pos h]
    exact congrArg some hy
  · rw [if_neg h, if_neg h]
    exact hd d

section Map

variable {c : CtrlId} {m : MemId} {x : BafsMem} {k : BafsCtrl} {n n' user user' id id' : Nat} {e : DmaMapEnv}
  {r r' : Int × Nat × Option DmaId}

/-- The object of a mapping that is granted. -/
def new_content (M : Heap P2pDmaMapping) (c : CtrlId) (m : MemId) (x : BafsMem) (e : DmaMapEnv) :
    MemId × CtrlId × Option MappingId × Option (List Nat) × Nat × List PageId :=
  if x.loc = BAFS_MEM_CPU then
    (m, c, none, some ((given x e.dma_map_single x.n_pages).map (·.1)), u32 x.page_size,
      (given x e.dma_map_single x.n_pages).map (·.2))
  else
    (m, c, some M.next, none, 0, [])

/-- The NVIDIA mappings after one that is granted. -/
def new_mappings (M : Heap P2pDmaMapping) (c : CtrlId) (x : BafsMem) (e : DmaMapEnv) : Heap P2pDmaMapping :=
  if x.loc = BAFS_MEM_CPU then
    M
  else
    match x.cuda_page_table, e.nvidia_p2p_dma_map_pages with
    | some t, .ok addrs => M.alloc ⟨t, c, addrs⟩
    | _, _ => M

/-- The calls of a mapping that is granted, without its copy. -/
def new_calls (c : CtrlId) (x : BafsMem) (e : DmaMapEnv) : List Event :=
  if x.loc = BAFS_MEM_CPU then
    (map_calls c x e.dma_map_single x.n_pages).reverse
  else
    [.nvidia_p2p_dma_map_pages c x.cuda_page_table]

theorem granted_cuda {addrs : List Nat} {tab : TableId} (hloc : x.loc = BAFS_MEM_CUDA)
    (ht : x.cuda_page_table = some tab) (hg : granted_addrs x e = some addrs) :
    e.nvidia_p2p_dma_map_pages = .ok addrs := by
  have hcpu : x.loc ≠ BAFS_MEM_CPU := by
    rw [hloc]
    decide
  unfold granted_addrs at hg
  rw [if_neg hcpu, if_pos hloc, ht] at hg
  split at hg
  · cases hg
  · cases hans : e.nvidia_p2p_dma_map_pages with
    | error err =>
      rw [hans] at hg
      cases hg
    | ok l =>
      rw [hans] at hg
      exact congrArg Except.ok (Option.some.inj hg)

/-- What a mapping that is granted adds. -/
theorem MapResult.adds (hr : MapResult t c m x k n user id e r t') (hc : copied x e) :
    ∃ y, y.content = new_content t.mappings c m x e ∧ t'.dmas = t.dmas.alloc y ∧
      t'.mems = t.mems.set m { x with ref := x.ref + 1, dma_list := t.dmas.next :: x.dma_list } ∧
      t'.ctxs = t.ctxs ∧ t'.ctrls = t.ctrls.set c { k with ref := k.ref + 1 } ∧ t'.groups = t.groups ∧
      t'.mappings = new_mappings t.mappings c x e ∧
      calls other_call t' = (new_calls c x e).filterMap other_call ++ calls other_call t := by
  obtain ⟨addrs, hg, hcopy⟩ := hc
  cases hr with
  | refused hret hnone => cases hg.symm.trans hnone
  | cut_short hloc hj hnone => cases hg.symm.trans hnone
  | cpu_not_copied hloc hg' hleft =>
    obtain rfl := Option.some.inj (hg.symm.trans hg')
    exact absurd hcopy hleft
  | cuda_not_copied hloc ht hg' hleft =>
    obtain rfl := Option.some.inj (hg.symm.trans hg')
    exact absurd hcopy hleft
  | cpu_mapped hloc hg' hleft =>
    refine ⟨cpu_dma t c m x e, ?_, rfl, rfl, rfl, rfl, rfl, ?_, ?_⟩
    · unfold new_content
      rw [if_pos hloc]
      rfl
    · unfold new_mappings
      rw [if_pos hloc]
      rfl
    · unfold new_calls
      rw [if_pos hloc]
      exact calls_append (l := copy_call user e _ :: (map_calls c x e.dma_map_single x.n_pages).reverse) rfl
  | @cuda_mapped addrs' tab hloc ht hg' hleft =>
    have hcpu : x.loc ≠ BAFS_MEM_CPU := by
      rw [hloc]
      decide
    have hans := granted_cuda hloc ht hg'
    refine ⟨cuda_dma t c m, ?_, rfl, rfl, rfl, rfl, rfl, ?_, ?_⟩
    · unfold new_content
      rw [if_neg hcpu]
      rfl
    · unfold new_mappings
      rw [if_neg hcpu, ht, hans]
      rfl
    · unfold new_calls
      rw [if_neg hcpu]
      exact calls_append (l := [copy_call user e _, .nvidia_p2p_dma_map_pages c x.cuda_page_table]) rfl

/-- A mapping that is granted in both states leaves them the same. -/
theorem SameMaps.map (hs : SameMaps t u) (hr : MapResult t c m x k n user id e r t')
    (hr' : MapResult u c m x k n' user' id' e r' u') (hc : copied x e) : SameMaps t' u' := by
  obtain ⟨y, hy, hdmas, hmems, hctxs, hctrls, hgroups, hmaps, hcalls⟩ := hr.adds hc
  obtain ⟨y', hy', hdmas', hmems', hctxs', hctrls', hgroups', hmaps', hcalls'⟩ := hr'.adds hc
  refine ⟨?_, fun d => ?_, ?_, ?_, ?_, ?_, ?_, ?_⟩
  · rw [hdmas, hdmas', Heap.next_alloc, Heap.next_alloc, hs.next]
  · rw [hdmas, hdmas']
    exact SameMaps.alloc hs.next hs.dmas (by rw [hy, hy', hs.mappings]) d
  · rw [hmems, hmems', hs.mems, hs.next]
  · rw [hctxs, hctxs', hs.ctxs]
  · rw [hctrls, hctrls', hs.ctrls]
  · rw [hgroups, hgroups', hs.groups]
  · rw [hmaps, hmaps', hs.mappings]
  · rw [hcalls, hcalls', hs.calls]

end Map

/-! ## One request for each controller -/

/-- The addresses that are copied to the user where nothing is refused. -/
def addrs_of (f : BafsMem) (e : DmaMapEnv) : List Nat := (granted_addrs f e).getD []

/-- The parameters of the request for controller `i`: its addresses follow those of the ones before. -/
def single_params (params : BAFS_IOC_DMA_MAP_MEM_PARAMS) (f : BafsMem) (env : Nat → DmaMapEnv) (i : Nat) :
    BAFS_IOC_DMA_MAP_MEM_PARAMS :=
  { params with dma_addrs := u64 (params.dma_addrs + 8 * all_entries f env i) }

/-- The state after the requests for the first `i` controllers have succeeded, one after the other. -/
inductive Singles (argp : Nat) (params : BAFS_IOC_DMA_MAP_MEM_PARAMS) (ctx : CtxId) (f : BafsMem)
    (env : Nat → DmaMapEnv) (ctrls : List CtrlId) (s : State) : Nat → State → Prop
  | none : Singles argp params ctx f env ctrls s 0 s
  | next {i : Nat} {c : CtrlId} {u u' : State} (hu : Singles argp params ctx f env ctrls s i u)
      (hc : ctrls[i]? = some c)
      (hmap : __bafs_ctrl_dma_map_mem argp (single_params params f env i) c ctx
        { copy_from_user := true, map := env i, copy_to_user := 0 } u = .ok (0, u')) :
      Singles argp params ctx f env ctrls s (i + 1) u'

/-- What the request for controller `i` copies to the user. -/
def single_copy (f : BafsMem) (env : Nat → DmaMapEnv) (dma_addrs i : Nat) : Nat × List Nat :=
  (u64 (dma_addrs + 8 * all_entries f env i), addrs_of f (env i))

/-- What the requests for the first `n` controllers copy, the last first. -/
def single_copies (f : BafsMem) (env : Nat → DmaMapEnv) (dma_addrs n : Nat) : List (Nat × List Nat) :=
  ((List.range n).map (single_copy f env dma_addrs)).reverse

theorem single_copies_succ {dma_addrs : Nat} : single_copies f env dma_addrs (i + 1) =
    single_copy f env dma_addrs i :: single_copies f env dma_addrs i := by
  unfold single_copies
  rw [List.range_succ, List.map_append, List.reverse_append]
  rfl

/-- A granted mapping whose addresses are copied copies them all. -/
theorem copied_all {x : BafsMem} {e : DmaMapEnv} (hc : copied x e) : (granted_addrs x e).map (fun addrs =>
    addrs.take (addrs.length - e.copy_to_user)) = some (addrs_of x e) := by
  obtain ⟨addrs, hg, hcopy⟩ := hc
  unfold addrs_of
  rw [hg, Option.map_some, Option.getD_some]
  refine congrArg some (List.take_of_length_le ?_)
  omega

theorem copied_copies {c : CtrlId} {m : MemId} {x : BafsMem} {k : BafsCtrl} {n user id : Nat} {e : DmaMapEnv}
    {r : Int × Nat × Option DmaId} (hr : MapResult t c m x k n user id e r t') (hc : copied x e) :
    addr_copies t' = (u64 user, addrs_of x e) :: addr_copies t := by
  have hall := copied_all hc
  rw [hr.copies]
  obtain ⟨addrs, hg, -⟩ := hc
  rw [hg, Option.map_some] at hall
  rw [hg, Option.map_some, Option.some.inj hall]
  rfl

theorem copied_has_table {x : BafsMem} {e : DmaMapEnv} (hc : copied x e) (hloc : x.loc = BAFS_MEM_CPU) :
    has_table x := by
  obtain ⟨addrs, hg, -⟩ := hc
  unfold granted_addrs at hg
  rw [if_pos hloc] at hg
  split at hg
  · cases hg
  · split at hg
    · rename_i hall
      exact hall.2.1
    · cases hg

/-- The request for one controller, for a registration whose mapping is granted and copied. -/
theorem single_map {argp : Nat} {params : BAFS_IOC_DMA_MAP_MEM_PARAMS} {c : CtrlId} {k : BafsCtrl} {m : MemId}
    {x : BafsMem} {e : DmaMapEnv} (hs : At h v s) (hh : NonNeg h) (hx : CtxHeld h v ctx)
    (hc : CtrlHeld h v c) (hk : s.ctrls.get c = some k) (hm : Found v ctx params.vaddr m)
    (hxm : s.mems.get m = some x) (hfit : table_fits x) (hcopied : copied x e) :
    wp (__bafs_ctrl_dma_map_mem argp params c ctx { copy_from_user := true, map := e, copy_to_user := 0 })
      (fun _ => False) (fun ret u => ret = 0 ∧ ∃ u₁ r words,
        MapResult s c m x k params.n_dma_addrs.toNat params.dma_addrs 0 e r u₁ ∧
        u = { u₁ with trace := .copy_to_user .params argp words :: u₁.trace } ∧
        At h (v.add_dma s.dmas.next m c) u) s := by
  obtain ⟨y, hy⟩ := hs.ctx_live hx
  unfold __bafs_ctrl_dma_map_mem
  refine wp_ite (fun hno => absurd hno.symm Bool.false_ne_true) fun _ => ?_
  have hexact : wp (bafs_ctrl_dma_map_mem c ctx params.vaddr params.n_dma_addrs.toNat params.dma_addrs 0 e)
      (fun _ => False) _ s :=
    bafs_ctrl_dma_map_mem_exact hs hy hk hm hxm hfit fun hloc hno => hno (copied_has_table hcopied hloc)
  refine (wp_and hexact (bafs_ctrl_dma_map_mem_spec (E := fun _ => True) hs hh hx hc
    (fun _ _ _ _ _ => trivial) fun _ _ _ _ _ => trivial)).bind fun r u₁ hr => ?_
  obtain ⟨hr, hspec⟩ := hr
  obtain ⟨-, rfl⟩ | ⟨hnot, -⟩ := hr.outcome
  · obtain ⟨-, hnone, -⟩ | ⟨m', d, hm', -, hd, -, hu₁⟩ := hspec
    · cases hnone
    · obtain rfl := Option.some.inj hd
      obtain rfl := hm.unique hm'
      dsimp only
      rw [wp_bind, wp_copy_to_user, Nat.zero_min, if_neg (not_not.mpr rfl)]
      exact ⟨rfl, u₁, _, _, hr, rfl, hu₁.of_eq rfl rfl⟩
  · exact absurd hcopied hnot

/-- A group is mapped as its controllers are one after the other, but for the places of the addresses. -/
theorem group_map_loop_singles {n argp : Nat} {m : MemId}
    {params : BAFS_IOC_DMA_MAP_MEM_PARAMS} {s₁ : State} (hs : At h v s) (hs₁ : At h v s₁)
    (hsame : SameMaps s₁ s) (hh : NonNeg h) (hx : CtxHeld h v ctx) (hc : ∀ c ∈ ctrls, CtrlHeld h v c)
    (hm : Found v ctx params.vaddr m) (hf : v.mems m = some f) (hp : Paged f)
    (hnull : f.loc = BAFS_MEM_CPU → ¬has_table f → E .null_page_table) :
    wp (group_map_loop ctx params.vaddr params.dma_addrs env ctrls.zipIdx ⟨n, 0, []⟩) E (fun r t =>
      r.2 = none → ∃ u, Singles argp params ctx f env ctrls s ctrls.length u ∧ SameMaps t u ∧
        addr_copies u = single_copies f env params.dma_addrs ctrls.length ++ addr_copies s) s₁ := by
  unfold group_map_loop
  refine wp_iterate_zipIdx (fun i acc t => ∃ D, At h { v with dmas := D } t ∧ ∃ u,
      At h { v with dmas := D } u ∧ Singles argp params ctx f env ctrls s i u ∧ SameMaps t u ∧
      addr_copies u = single_copies f env params.dma_addrs i ++ addr_copies s)
    (fun i c acc t hci hinv => ?_) (fun acc t hinv => ?_) ⟨v.dmas, hs₁, s, hs, .none, hsame, rfl⟩
  · obtain ⟨D, ht, u, hu, hsingles, hsame, hcopies⟩ := hinv
    have hheld : CtrlHeld h v c := hc c (List.mem_of_getElem? hci)
    obtain ⟨y, hy⟩ := ht.ctx_live hx
    obtain ⟨k, hk⟩ := ht.ctrl_live hh hheld
    obtain ⟨x, hxm, rfl⟩ := ht.mem_live hf
    refine (wp_and (bafs_ctrl_dma_map_mem_exact ht hy hk hm hxm hp.fits hnull)
      (bafs_ctrl_dma_map_mem_spec (E := fun _ => True) ht hh hx hheld (fun _ _ _ _ _ => trivial)
        fun _ _ _ _ _ => trivial)).bind fun r t₁ hr => ?_
    obtain ⟨hr, hspec⟩ := hr
    obtain ⟨hcopied, rfl⟩ | ⟨hnot, hret, hnone⟩ := hr.outcome
    · obtain ⟨-, hnone, -⟩ | ⟨m', d, hm', -, hd, -, ht₁⟩ := hspec
      · cases hnone
      · obtain rfl := Option.some.inj hd
        obtain rfl := hm.unique hm'
        -- the same controller, in the other run
        have hku : u.ctrls.get c = some k := hsame.ctrls ▸ hk
        have hxu : u.mems.get m = some x := hsame.mems ▸ hxm
        have hone : wp (__bafs_ctrl_dma_map_mem argp (single_params params x.fields env i) c ctx _)
            (fun _ => False) _ u := single_map hu hh hx hheld hku hm hxu hp.fits hcopied
        obtain ⟨ret, u', hstep, rfl, u₁, r', words, hr', rfl, hu'⟩ := wp_ends hone
        have hmaps := hsame.map hr hr' hcopied
        refine ⟨_, ht₁, _, ?_, .next hsingles hci hstep, ⟨hmaps.next, hmaps.dmas, hmaps.mems, hmaps.ctxs,
          hmaps.ctrls, hmaps.groups, hmaps.mappings, hmaps.calls⟩, ?_⟩
        · rw [hsame.next]
          exact hu'
        · have hcopy := copied_copies hr' hcopied
          rw [hcopies, single_params, show ∀ n, u64 (u64 n) = u64 n from fun n => Nat.mod_mod _ _] at hcopy
          rw [single_copies_succ]
          exact hcopy
    · obtain ⟨ret, n', d⟩ := r
      obtain rfl : d = none := hnone
      intro hnone
      cases hnone
  · obtain ⟨D, -, u, -, hsingles, hsame, hcopies⟩ := hinv
    exact fun _ => ⟨u, hsingles, hsame, hcopies⟩

/-! ## The array of the user -/

/-- What a copy puts at an address. -/
def word_at (copy : Nat × List Nat) (p : Nat) : Option Nat :=
  (copy.2.zipIdx.reverse.find? fun w => u64 (copy.1 + 8 * w.2) = p).map (·.1)

/-- What stands at an address after the copies, the last first. -/
def user_word (copies : List (Nat × List Nat)) (p : Nat) : Option Nat := copies.findSome? fun c => word_at c p

theorem word_at_nil {dst p : Nat} : word_at (dst, []) p = none := rfl

/-- Copies of the same words to the same places, except where there are none. -/
theorem user_word_congr {dst dst' : Nat → Nat} {words : Nat → List Nat} {n : Nat} {old : List (Nat × List Nat)}
    (hsame : ∀ i < n, words i ≠ [] → dst i = dst' i) (p : Nat) :
    user_word (((List.range n).map fun i => (dst i, words i)).reverse ++ old) p =
      user_word (((List.range n).map fun i => (dst' i, words i)).reverse ++ old) p := by
  unfold user_word
  induction n with
  | zero => rfl
  | succ n ih =>
    have hlast : word_at (dst n, words n) p = word_at (dst' n, words n) p := by
      cases hw : words n with
      | nil => rw [word_at_nil, word_at_nil]
      | cons w ws => rw [hsame n (Nat.lt_succ_self n) (by rw [hw]; exact List.cons_ne_nil w ws)]
    have ih := ih fun i hi => hsame i (Nat.lt_succ_of_lt hi)
    rw [List.range_succ, List.map_append, List.map_append, List.reverse_append, List.reverse_append]
    simp only [List.map_cons, List.map_nil, List.reverse_cons, List.reverse_nil, List.nil_append,
      List.cons_append, List.findSome?_cons, hlast, ih]

/-! ## The claim -/

/-- A group request has left `t`, the requests for its `n` controllers `u`; `dst` is where the request put
the addresses of each controller. -/
structure AsSingles (argp : Nat) (params : BAFS_IOC_DMA_MAP_MEM_PARAMS) (f : BafsMem) (env : Nat → DmaMapEnv)
    (n : Nat) (s t u : State) (dst : Nat → Nat) : Prop where
  maps : SameMaps t u
  copied : addr_copies t = ((List.range n).map fun i => (dst i, addrs_of f (env i))).reverse ++ addr_copies s
  array : ∀ p, user_word (addr_copies t) p = user_word (addr_copies u) p
  place : ∀ i < n, addrs_of f (env i) ≠ [] → dst i = u64 (params.dma_addrs + 8 * all_entries f env i)
  /-- No index past the total is written. -/
  inside : ∀ i < n, ∀ j < entries f (env i), ∃ k < all_entries f env n,
    u64 (dst i + 8 * j) = u64 (params.dma_addrs + 8 * k)
  apart : ∀ i < n, ∀ i' < n, i ≠ i' → ∀ j < entries f (env i), ∀ j' < entries f (env i'),
    u64 (dst i + 8 * j) ≠ u64 (dst i' + 8 * j')
  /-- The number of addresses that is returned. -/
  total : t.trace.head? =
    some (.copy_to_user .params argp [params.vaddr, params.dma_addrs, all_entries f env n])

/-- The total has a place in 32 bits, and each controller with addresses starts where those before it
end, as reckoned with the number of the first. -/
structure SumsFit (f : BafsMem) (env : Nat → DmaMapEnv) (n : Nat) : Prop where
  total : all_entries f env n < 2 ^ 32
  place : ∀ i < n, 0 < entries f (env i) → entries f (env 0) * i % 2 ^ 61 = all_entries f env i

theorem all_entries_le {n : Nat} (hi : i ≤ n) : all_entries f env i ≤ all_entries f env n := by
  induction hi with
  | refl => exact le_rfl
  | step _ ih => exact ih.trans (by rw [all_entries_succ]; exact Nat.le_add_right _ _)

theorem length_addrs_of {e : DmaMapEnv} : (addrs_of f e).length = entries f e := by
  unfold addrs_of entries
  cases granted_addrs f e <;> rfl

theorem addrs_of_ne_nil {e : DmaMapEnv} : addrs_of f e ≠ [] ↔ 0 < entries f e := by
  rw [← length_addrs_of, List.length_pos_iff]

theorem first_entries_le {n : Nat} (hn : 0 < n) : entries f (env 0) ≤ all_entries f env n := by
  have hle : all_entries f env 1 ≤ all_entries f env n := all_entries_le (Nat.succ_le_of_lt hn)
  rw [all_entries_succ] at hle
  exact (Nat.le_add_left _ _).trans hle

/-- Two blocks that follow their predecessors do not meet. -/
theorem entries_before {n j : Nat} (hi : i < n) (hj : j < entries f (env i)) :
    all_entries f env i + j < all_entries f env (i + 1) ∧ all_entries f env (i + 1) ≤ all_entries f env n := by
  refine ⟨?_, all_entries_le hi⟩
  rw [all_entries_succ]
  exact Nat.add_lt_add_left hj _

/-- Where a group request puts the addresses of controller `i`. -/
def group_place (params : BAFS_IOC_DMA_MAP_MEM_PARAMS) (f : BafsMem) (env : Nat → DmaMapEnv) (i : Nat) : Nat :=
  u64 (params.dma_addrs + 8 * (u32 (entries f (env 0)) * i))

theorem SumsFit.group_place {params : BAFS_IOC_DMA_MAP_MEM_PARAMS} {n : Nat} (hf : SumsFit f env n) (hi : i < n)
    (hpos : 0 < entries f (env i)) :
    group_place params f env i = u64 (params.dma_addrs + 8 * all_entries f env i) := by
  have hplace := hf.place i hi hpos
  have hfirst : u32 (entries f (env 0)) = entries f (env 0) :=
    Nat.mod_eq_of_lt ((first_entries_le (Nat.zero_lt_of_lt hi)).trans_lt hf.total)
  have hle : all_entries f env i ≤ all_entries f env n := all_entries_le hi.le
  have hlt := hle.trans_lt hf.total
  unfold BafsDriver.group_place u64
  rw [hfirst]
  generalize entries f (env 0) * i = a at hplace
  omega

theorem asSingles_iff {argp : Nat} {params : BAFS_IOC_DMA_MAP_MEM_PARAMS} {n : Nat} (hn : 0 < n)
    (hmaps : SameMaps t u) (hu : addr_copies u = single_copies f env params.dma_addrs n ++ addr_copies s)
    (ht : addr_copies t = ((List.range n).map fun i =>
      (group_place params f env i, addrs_of f (env i))).reverse ++ addr_copies s)
    (htotal : t.trace.head? = some (.copy_to_user .params argp
      [params.vaddr, params.dma_addrs, u32 (all_entries f env n)])) :
    (∃ dst, AsSingles argp params f env n s t u dst) ↔ SumsFit f env n := by
  constructor
  · rintro ⟨dst, ha⟩
    have hlt : all_entries f env n < 2 ^ 32 := by
      have hsum := Option.some.inj (htotal.symm.trans ha.total)
      simp only [Event.copy_to_user.injEq, List.cons.injEq, true_and, and_true] at hsum
      rw [← hsum]
      exact Nat.mod_lt _ (Nat.two_pow_pos 32)
    refine ⟨hlt, fun i hi hpos => ?_⟩
    have hblocks := List.reverse_injective (List.append_cancel_right (ht.symm.trans ha.copied))
    have hdst : group_place params f env i = dst i :=
      congrArg Prod.fst (List.map_inj_left.mp hblocks i (List.mem_range.mpr hi))
    have hplace := hdst.trans (ha.place i hi (addrs_of_ne_nil.mpr hpos))
    have hfirst : u32 (entries f (env 0)) = entries f (env 0) :=
      Nat.mod_eq_of_lt ((first_entries_le hn).trans_lt hlt)
    have hle : all_entries f env i ≤ all_entries f env n := all_entries_le hi.le
    have hlt' := hle.trans_lt hlt
    unfold BafsDriver.group_place u64 at hplace
    rw [hfirst] at hplace
    generalize entries f (env 0) * i = a at hplace ⊢
    omega
  · intro hf
    have hfull : u32 (all_entries f env n) = all_entries f env n := Nat.mod_eq_of_lt hf.total
    have hindex : ∀ i < n, ∀ j < entries f (env i), u64 (group_place params f env i + 8 * j) =
        u64 (params.dma_addrs + 8 * (all_entries f env i + j)) := by
      intro i hi j hj
      rw [hf.group_place hi (Nat.zero_lt_of_lt hj)]
      unfold u64
      omega
    refine ⟨group_place params f env, hmaps, ht, fun p => ?_, fun i hi hne => ?_, fun i hi j hj => ?_,
      fun i hi i' hi' hne j hj j' hj' => ?_, ?_⟩
    · rw [ht, hu]
      exact user_word_congr (fun i hi hne => hf.group_place hi (addrs_of_ne_nil.mp hne)) p
    · exact hf.group_place hi (addrs_of_ne_nil.mp hne)
    · obtain ⟨hlt, hle⟩ := entries_before hi hj
      exact ⟨_, hlt.trans_le hle, hindex i hi j hj⟩
    · rw [hindex i hi j hj, hindex i' hi' j' hj']
      obtain ⟨hlt, hle⟩ := entries_before hi hj
      obtain ⟨hlt', hle'⟩ := entries_before hi' hj'
      have htotal := hf.total
      -- one of the two ends before the other starts
      have hbetween : all_entries f env (i + 1) ≤ all_entries f env i' ∨
          all_entries f env (i' + 1) ≤ all_entries f env i := by
        rcases Nat.lt_or_gt_of_ne hne with hlt | hlt
        · exact .inl (all_entries_le hlt)
        · exact .inr (all_entries_le hlt)
      unfold u64
      omega
    · rw [htotal, hfull]

/-! ## The request -/

theorem group_copies_copied {params : BAFS_IOC_DMA_MAP_MEM_PARAMS} {n : Nat} (hall : ∀ j < n, copied f (env j)) :
    group_copies f env params.dma_addrs n =
      ((List.range n).map fun i => (group_place params f env i, addrs_of f (env i))).reverse := by
  have hcopy : ∀ i ∈ List.range n, group_copy f env params.dma_addrs i =
      some (group_place params f env i, addrs_of f (env i)) := by
    intro i hi
    have hfull := copied_all (hall i (List.mem_range.mp hi))
    unfold group_copy
    cases hg : granted_addrs f (env i) with
    | none =>
      rw [hg] at hfull
      cases hfull
    | some addrs =>
      rw [hg] at hfull
      exact congrArg some (Prod.ext rfl (Option.some.inj hfull))
  unfold group_copies
  rw [List.filterMap_congr hcopy]
  exact congrArg List.reverse (congrFun List.filterMap_eq_map _)

/-- A group request has left `t` as the requests for its controllers would have. -/
def MappedAsSingles (argp : Nat) (params : BAFS_IOC_DMA_MAP_MEM_PARAMS) (ctx : CtxId) (f : BafsMem)
    (env : Nat → DmaMapEnv) (ctrls : List CtrlId) (s t : State) : Prop :=
  ∃ u, Singles argp params ctx f env ctrls s ctrls.length u ∧
    ∃ dst, AsSingles argp params f env ctrls.length s t u dst

theorem Singles.unique {argp : Nat} {params : BAFS_IOC_DMA_MAP_MEM_PARAMS}
    (hu : Singles argp params ctx f env ctrls s i u) (hu' : Singles argp params ctx f env ctrls s i u') :
    u = u' := by
  induction hu generalizing u' with
  | none =>
    cases hu'
    rfl
  | next hv hc hmap ih =>
    cases hu' with
    | next hv' hc' hmap' =>
      obtain rfl := ih hv'
      obtain rfl := Option.some.inj (hc.symm.trans hc')
      exact (Prod.mk.inj (Except.ok.inj (hmap.symm.trans hmap'))).2

/-- A group of at least one controller is not mapped where the lookup finds no registration. -/
theorem group_map_loop_unknown {vaddr dma_addrs n : Nat} (hs : At h v s) (hx : CtxHeld h v ctx)
    (hne : ctrls ≠ []) (hno : ∀ m, ¬Found v ctx vaddr m) :
    wp (group_map_loop ctx vaddr dma_addrs env ctrls.zipIdx ⟨n, 0, []⟩) E
      (fun r _ => r.2 = some (-EINVAL)) s := by
  obtain ⟨z, hz⟩ := hs.ctx_live hx
  cases ctrls with
  | nil => exact absurd rfl hne
  | cons c ctrls =>
    unfold group_map_loop
    rw [List.zipIdx_cons, iterate, wp_bind, wp_bind]
    refine wp_mono (bafs_ctrl_dma_map_mem_none hs hz hno) fun r t hr => ?_
    obtain ⟨rfl, rfl⟩ := hr
    rfl

/-- A group request that succeeds does as the requests for its controllers exactly if the sums fit. -/
theorem bafs_group_dma_map_mem_singles {y : BafsGroupCtx} {argp : Nat} {params : BAFS_IOC_DMA_MAP_MEM_PARAMS}
    {env : GroupDmaMapEnv} {g : BafsGroup} (hs : At h v s) (hh : NonNeg h) (hx : CtxHeld h v y.ctx)
    (hp : ∀ m f, v.mems m = some f → Paged f) (hg : s.groups.get y.group = some g) (hne : g.ctrls ≠ []) :
    wp (bafs_group_dma_map_mem argp params y.group y.ctx env) (fun _ => True) (fun ret t => ret = 0 →
      ∃ m f, Found v y.ctx params.vaddr m ∧ v.mems m = some f ∧
        (MappedAsSingles argp params y.ctx f env.map g.ctrls s t ↔ SumsFit f env.map g.ctrls.length)) s := by
  have hpos : 0 < g.ctrls.length := List.length_pos_iff.mpr hne
  unfold bafs_group_dma_map_mem
  refine wp_ite (fun _ h0 => absurd h0 (by decide)) fun _ => ?_
  rw [wp_bind, wp_group_at hg, wp_bind, wp_kzalloc]
  cases env.kzalloc with
  | false => exact fun h0 => absurd h0 (by decide)
  | true =>
  rw [if_pos rfl]
  have hs₁ : At h v { s with blocks := s.blocks.alloc () } := hs.of_eq rfl rfl
  have hsame : SameMaps { s with blocks := s.blocks.alloc () } s :=
    ⟨rfl, fun _ => rfl, rfl, rfl, rfl, rfl, rfl, rfl⟩
  have hback : ∀ {acc : GroupMapAcc} {ret : Int} {t : State}, ret < 0 →
      wp (do unmap_mems acc.dmas s.blocks.next; pure ret) (fun _ => True) (fun r t => r = 0 → ∃ m f,
        Found v y.ctx params.vaddr m ∧ v.mems m = some f ∧
          (MappedAsSingles argp params y.ctx f env.map g.ctrls s t ↔ SumsFit f env.map g.ctrls.length)) t :=
    fun hret => wp_true.bind fun _ _ _ h0 => absurd h0 hret.ne
  by_cases hm : ∃ m, Found v y.ctx params.vaddr m
  · obtain ⟨m, hm⟩ := hm
    obtain ⟨f, hf, -⟩ := hm.1
    have hc : ∀ c ∈ g.ctrls, CtrlHeld h v c := fun c hc => .inr ⟨y.group, g.ctrls, hs.group_view hg, hc⟩
    have hloop : wp (group_map_loop y.ctx params.vaddr params.dma_addrs env.map g.ctrls.zipIdx
          ⟨params.n_dma_addrs.toNat, 0, []⟩) (fun _ => True) (fun r t => r.2 = none → ∃ u,
          Singles argp params y.ctx f env.map g.ctrls s _ u ∧ SameMaps t u ∧
            addr_copies u = single_copies f env.map params.dma_addrs _ ++ addr_copies s) _ :=
      group_map_loop_singles hs hs₁ hsame hh hx hc hm hf (hp m f hf) fun _ _ => trivial
    refine (wp_and (group_map_loop_result (E := fun _ => True) hs₁ hh hx hc hm hf (hp m f hf)
      fun _ _ => trivial) hloop).bind fun r t hr => ?_
    obtain ⟨⟨hend, -, -⟩, hsingles⟩ := hr
    cases hend with
    | failed hi hret => exact hback hret
    | @all acc _ hall hn hcopies =>
      obtain ⟨u, hsingles, hmaps, hu⟩ := hsingles rfl
      dsimp only
      rw [wp_bind, wp_copy_to_user]
      refine wp_ite (fun _ => hback (by decide : -EFAULT < 0)) fun hleft _ => ⟨m, f, hm, hf, ?_⟩
      have hleft : env.copy_to_user = 0 := by simpa using hleft
      rw [hn, if_neg hpos.ne', hleft]
      refine Iff.trans ⟨?_, fun hdst => ⟨u, hsingles, hdst⟩⟩ (asSingles_iff hpos
        ⟨hmaps.next, hmaps.dmas, hmaps.mems, hmaps.ctxs, hmaps.ctrls, hmaps.groups, hmaps.mappings,
          hmaps.calls⟩ hu ?_ rfl)
      · rintro ⟨u', hu', hdst⟩
        obtain rfl := hsingles.unique hu'
        exact hdst
      · rw [← group_copies_copied hall]
        exact hcopies
  · dsimp only
    refine (group_map_loop_unknown (E := fun _ => True) hs₁ hx hne fun m hm' => hm ⟨m, hm'⟩).bind
      fun r t hr => ?_
    obtain ⟨acc, fail⟩ := r
    obtain rfl : fail = some (-EINVAL) := hr
    exact hback (by decide : -EINVAL < 0)

/-- In every state that a run reaches, a DMA map for a group that succeeds does as one map for each of its
controllers after the other, exactly if the sums of their numbers of addresses fit. -/
theorem group_map_as_singles (rs : List Request) : Always step (fun _ => True) (fun s =>
    ∀ i y g argp params env, s.files.get i = some (.group y) → s.groups.get y.group = some g →
      g.ctrls ≠ [] → wp (bafs_group_dma_map_mem argp params y.group y.ctx env) (fun _ => True)
        (fun ret t => ret = 0 → ∃ m f, Found s.view y.ctx params.vaddr m ∧ s.view.mems m = some f ∧
          (MappedAsSingles argp params y.ctx f env.map g.ctrls s t ↔
            SumsFit f env.map g.ctrls.length)) s) rs init := by
  refine always_of_inv (fun s hi i y g argp params env hx hg hne => ?_) rs
  obtain ⟨h, hl, hs⟩ := hi.sane.at
  have hctx : CtxHeld h s.view (File.group y).ctx := .of_file hl.nonneg hx
  exact bafs_group_dma_map_mem_singles hs hl.nonneg hctx (fun m f hf => hi.tidy.paged hf) hg hne

/-- A group of three times the same controller, whose file has registered and mapped GPU memory. -/
def thrice_in_group : List Request :=
  [.bind 0 0x100000 4096, .open_core a_task granted_ctx,
    .create 0 [ctrl_dev_name 0, ctrl_dev_name 0, ctrl_dev_name 0], .open_group 0 a_task granted_open,
    .reg_mem 1 BAFS_GROUP_IOC_REG_MEM 4096 BAFS_MEM_CUDA, .map 1 0x10000 1 1]

/-- The first mapping has two entries, the others one. -/
def uneven : GroupDmaMapEnv :=
  { granted_ioctl.group_dma_map_mem with map := fun i =>
    { granted_dma with nvidia_p2p_dma_map_pages := .ok (if i = 0 then [0, 4096] else [0]) } }

def at_zero : BAFS_IOC_DMA_MAP_MEM_PARAMS := { vaddr := 0x10000, dma_addrs := 0, n_dma_addrs := 4 }

/-- All memory is pinned GPU memory, and the request for the group of file 1 succeeds. -/
def maps_uneven (s : State) : Bool :=
  all_mems (fun x => x.loc = BAFS_MEM_CUDA ∧ x.cuda_page_table.isSome) s &&
    ((s.groups.get 0).any fun g => g.ctrls.length = 3) &&
    ((s.files.get 1).any fun x => x.group_refs 0 = 1 ∧ x.ctx = 0) &&
    (bafs_group_dma_map_mem 0 at_zero 0 0 uneven s).toOption.any fun r => r.1 = 0

theorem entries_uneven (hloc : f.loc = BAFS_MEM_CUDA) (ht : f.cuda_page_table.isSome) (i : Nat) :
    entries f (uneven.map i) = if i = 0 then 2 else 1 := by
  obtain ⟨tab, ht⟩ := Option.isSome_iff_exists.mp ht
  have hcpu : f.loc ≠ BAFS_MEM_CPU := by
    rw [hloc]
    decide
  have hg : granted_addrs f (uneven.map i) = some (if i = 0 then [0, 4096] else [0]) := by
    unfold granted_addrs
    rw [if_neg fun hno => Bool.false_ne_true hno.symm, if_neg hcpu, if_pos hloc, ht]
    rfl
  unfold entries
  rw [hg, Option.elim_some]
  by_cases hi : i = 0
  · rw [if_pos hi, if_pos hi]
    rfl
  · rw [if_neg hi, if_neg hi]
    rfl

/-- The addresses of the third controller are put behind the last of the four places. -/
theorem third_misplaced : ¬∀ rs : List Request, Always step (fun _ => True) (fun s =>
    ∀ i y g argp params env, s.files.get i = some (.group y) → s.groups.get y.group = some g →
      g.ctrls ≠ [] → wp (bafs_group_dma_map_mem argp params y.group y.ctx env) (fun _ => True)
        (fun ret t => ret = 0 → ∃ m f, Found s.view y.ctx params.vaddr m ∧ s.view.mems m = some f ∧
          MappedAsSingles argp params y.ctx f env.map g.ctrls s t) s) rs init := by
  intro hall
  have hend : ends step maps_uneven thrice_in_group init = true := by decide +kernel
  obtain ⟨hr, hp⟩ := run_final hend
  generalize final step thrice_in_group init = s at hr hp
  simp only [maps_uneven, Bool.and_eq_true, Option.any_eq_true, decide_eq_true_eq] at hp
  obtain ⟨⟨⟨hmems, g, hg, hlen⟩, x, hx, hgroup⟩, r, hmap, hret⟩ := hp
  cases x with
  | core c => cases hgroup.1
  | ctrl y => cases hgroup.1
  | group y =>
  have hi := run_inv hr
  obtain ⟨h, hl, hs⟩ := hi.sane.at
  have hy : y.group = 0 := by
    by_contra hne
    simp [File.group_refs, hne] at hgroup
  have hne : g.ctrls ≠ [] := fun hnil => by
    rw [hnil] at hlen
    cases hlen
  have hg' : s.groups.get y.group = some g := hy ▸ hg
  have hok : bafs_group_dma_map_mem 0 at_zero y.group y.ctx uneven s = .ok (r.1, r.2) := by
    rw [hy, show y.ctx = 0 from hgroup.2]
    cases hc : bafs_group_dma_map_mem 0 at_zero 0 0 uneven s with
    | error e =>
      rw [hc] at hmap
      cases hmap
    | ok q =>
      rw [hc] at hmap
      exact congrArg Except.ok (Option.some.inj hmap)
  have hctx : CtxHeld h s.view (File.group y).ctx := .of_file hl.nonneg hx
  have hclaim := (always_iff_run.mp (hall thrice_in_group) _ (List.prefix_refl _)).1 s hr
  obtain ⟨m, f, hm, hf, hsame⟩ := wp_ok (hclaim 1 y g 0 at_zero uneven hx hg' hne) hok hret
  obtain ⟨m', f', hm', hf', hiff⟩ := wp_ok (bafs_group_dma_map_mem_singles hs hl.nonneg
    hctx (fun m f hf => hi.tidy.paged hf) hg' hne) hok hret
  obtain rfl := hm.unique hm'
  obtain rfl := Option.some.inj (hf.symm.trans hf')
  -- two entries of the first controller for each before it, where there are three in all
  have hfit := (hiff.mp hsame).place 2 (by rw [hlen]; decide)
  have hcuda := of_decide_eq_true (all_mems_view hmems (fun _ => rfl) hf)
  simp [all_entries, entries_uneven hcuda.1 hcuda.2, List.range_succ] at hfit

end BafsDriver
