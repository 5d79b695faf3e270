import BafsDriver.Proofs.PinProofs

/-!
# DMA mapping

What the lookup by address finds, and what the mapping of a registration for one controller does to
the state: it adds one DMA mapping of the registration found, or nothing.
-/

set_option linter.style.nameCheck false

namespace BafsDriver

open Prog

variable {h h' : Held Kind} {v : View} {s : State} {E : Fault → Prop}

/-! ## The lookup -/

/-- The first registration of the list that passes the test of the lookup. -/
def first_match (v : View) (vaddr : Nat) (l : List MemId) : Option MemId :=
  l.find? fun m => (v.mems m).any fun f => decide (lookup_matches vaddr f)

theorem lookup_matches_fields {vaddr : Nat} {x : BafsMem} :
    lookup_matches vaddr x.fields ↔ lookup_matches vaddr x := Iff.rfl

theorem first_match_cons {vaddr : Nat} {m : MemId} {l : List MemId} {f : BafsMem}
    (hm : v.mems m = some f) :
    first_match v vaddr (m :: l) =
      if lookup_matches vaddr f then some m else first_match v vaddr l := by
  unfold first_match
  rw [List.find?_cons, hm, Option.any_some]
  by_cases hf : lookup_matches vaddr f <;> simp [hf]

/-- A registration that the lookup finds is in the list and passes its test. -/
theorem first_match_some {vaddr : Nat} {m : MemId} {l : List MemId}
    (hm : first_match v vaddr l = some m) :
    m ∈ l ∧ ∃ f, v.mems m = some f ∧ lookup_matches vaddr f := by
  refine ⟨List.mem_of_find?_eq_some hm, ?_⟩
  unfold first_match at hm
  have hp := List.find?_some hm
  obtain ⟨f, hf, hp⟩ := (Option.any_eq_true _ _).mp hp
  exact ⟨f, hf, of_decide_eq_true hp⟩

/-- `m` is the newest registration of the context `c` that passes the test of the lookup. -/
def Found (v : View) (c : CtxId) (vaddr : Nat) (m : MemId) : Prop :=
  (∃ f, v.mems m = some f ∧ f.ctx = c ∧ lookup_matches vaddr f) ∧
    ∀ n f, v.mems n = some f → f.ctx = c → lookup_matches vaddr f → n ≤ m

theorem Found.unique {c : CtxId} {vaddr : Nat} {m m' : MemId} (hm : Found v c vaddr m)
    (hm' : Found v c vaddr m') : m = m' := by
  obtain ⟨⟨f, hf, hfc, hfm⟩, hle⟩ := hm
  obtain ⟨⟨f', hf', hfc', hfm'⟩, hle'⟩ := hm'
  exact Nat.le_antisymm (hle' m f hf hfc hfm) (hle m' f' hf' hfc' hfm')

/-- The first registration of a list from the newest to the oldest is the newest one. -/
theorem first_match_newest {vaddr : Nat} {m n : MemId} {l : List MemId} {f : BafsMem}
    (hl : l.Pairwise (· > ·)) (hm : first_match v vaddr l = some m) (hn : n ∈ l)
    (hf : v.mems n = some f) (hp : lookup_matches vaddr f) : n ≤ m := by
  induction l with
  | nil => cases hn
  | cons k l ih =>
    obtain ⟨hk, hl⟩ := List.pairwise_cons.mp hl
    rw [first_match, List.find?_cons] at hm
    cases hb : (v.mems k).any fun f => decide (lookup_matches vaddr f) with
    | true =>
      rw [hb] at hm
      obtain rfl : k = m := Option.some.inj hm
      rcases List.mem_cons.mp hn with rfl | hn
      · exact Nat.le_refl _
      · exact Nat.le_of_lt (hk n hn)
    | false =>
      rw [hb] at hm
      rcases List.mem_cons.mp hn with rfl | hn
      · simp [hf, hp] at hb
      · exact ih hl hm hn

/-- The registrations of a context that a lookup may find are in its list. -/
theorem At.found_iff (hs : At h v s) {c : CtxId} {y : BafsCtx} (hy : s.ctxs.get c = some y)
    {vaddr : Nat} {m : MemId} : first_match v vaddr y.mem_list = some m ↔ Found v c vaddr m := by
  have hfwd : ∀ n, first_match v vaddr y.mem_list = some n → Found v c vaddr n := fun n hn => by
    obtain ⟨hl, f, hf, hp⟩ := first_match_some hn
    refine ⟨⟨f, hf, (hs.mem_list_iff hy hf).mp hl, hp⟩, fun k g hg hgc hgp => ?_⟩
    exact first_match_newest (hs.wf.tables.newest_first c y hy) hn
      ((hs.mem_list_iff hy hg).mpr hgc) hg hgp
  refine ⟨hfwd m, fun hm => ?_⟩
  cases hn : first_match v vaddr y.mem_list with
  | some n => rw [(hfwd n hn).unique hm]
  | none =>
    obtain ⟨⟨f, hf, hfc, hp⟩, -⟩ := hm
    have := List.find?_eq_none.mp hn m ((hs.mem_list_iff hy hf).mpr hfc)
    simp [hf, hp] at this

/-- The reference that a lookup hands out. -/
def found_tok : Option MemId → Held Kind
  | some m => tok Kind.mem m
  | none => 0

theorem find_mem_spec {vaddr : Nat} {l : List MemId} (hs : At h v s) (hh : NonNeg h)
    (hl : ∀ m ∈ l, ∃ f, v.mems m = some f) :
    wp (find_mem vaddr l) E
      (fun r s' => r = first_match v vaddr l ∧ At (h + found_tok r) v s') s := by
  induction l generalizing s with
  | nil => exact ⟨rfl, hs.congr (add_zero h)⟩
  | cons m l ih =>
    obtain ⟨f, hf⟩ := hl m List.mem_cons_self
    unfold find_mem
    refine (mem_kref_get_spec hs hf).bind fun _ s₁ hs₁ => ?_
    refine (mem_at_spec hs₁ hf).bind fun x s₂ hx => ?_
    obtain ⟨rfl, -, hs₂⟩ := hx
    rw [first_match_cons hf]
    refine wp_ite (fun hp => ?_) fun hp => ?_
    · rw [wp_pure, if_pos (lookup_matches_fields.mpr hp)]
      exact ⟨rfl, hs₂⟩
    · refine (bafs_mem_put_spec hs₂ hh hf).bind fun _ s₃ hs₃ => ?_
      rw [if_neg (mt lookup_matches_fields.mp hp)]
      exact ih hs₃ fun n hn => hl n (List.mem_cons_of_mem _ hn)

theorem At.listed_live (hs : At h v s) {c : CtxId} {y : BafsCtx} (hy : s.ctxs.get c = some y) :
    ∀ m ∈ y.mem_list, ∃ f, v.mems m = some f := fun m hm => by
  obtain ⟨x, hx, -⟩ := hs.wf.tables.listed c y m hy hm
  exact ⟨_, hs.mem_view hx⟩

/-- The lookup finds the newest registration that passes its test, if there is one. -/
theorem bafs_get_mem_with_ctx_spec {vaddr : Nat} {c : CtxId} {y : BafsCtx} (hs : At h v s)
    (hh : NonNeg h) (hy : s.ctxs.get c = some y) :
    wp (bafs_get_mem_with_ctx vaddr c) E
      (fun r s' => (∀ m, r = some m ↔ Found v c vaddr m) ∧ At (h + found_tok r) v s') s := by
  unfold bafs_get_mem_with_ctx
  rw [wp_bind, ctx_kref_get, wp_ctx_upd hy, wp_bind, wp_ctx_at (Heap.get_set_self hy)]
  refine (find_mem_spec (hs.ctx_get hy) (hh.tok _ _) (hs.listed_live hy)).bind fun r s₁ hr => ?_
  obtain ⟨hr, hs₁⟩ := hr
  have hr' : NonNeg (h + found_tok r) := by
    cases r with
    | none => exact (add_zero h).symm ▸ hh
    | some m => exact hh.tok _ _
  refine (bafs_put_ctx_spec (hs₁.congr (by abel)) hr').bind fun _ s₂ hs₂ => ?_
  exact ⟨fun m => by rw [hr]; exact hs.found_iff hy, hs₂⟩

/-! ## Mapping -/

/-- The page table of a registration is read and is not there. -/
def missing_table (f : BafsMem) : Prop :=
  f.loc = BAFS_MEM_CPU ∧ f.cpu_page_table = none ∧ f.n_pages ≠ 0

/-- A DMA mapping of `m` for the controller `c` is added. -/
def View.add_dma (v : View) (d : DmaId) (m : MemId) (c : CtrlId) : View :=
  { v with dmas := Function.update v.dmas d (some (m, c)) }

theorem View.drop_add_dma {d : DmaId} {m : MemId} {c : CtrlId} (hd : v.dmas d = none) :
    (v.add_dma d m c).drop_dma d = v := by
  show { v with dmas := Function.update (Function.update v.dmas d (some (m, c))) d none } = v
  rw [Function.update_idem, Function.update_eq_self_iff.mpr hd.symm]

theorem At.dma_next (hs : At h v s) : v.dmas s.dmas.next = none := by
  rw [← hs.view]
  exact congrArg (Option.map fun y : BafsMemDma => (y.mem, y.ctrl)) Heap.get_next

theorem At.view_alloc_dma {x x' : BafsMem} {y : BafsMemDma} (hs : At h v s)
    (hm : s.mems.get y.mem = some x) (hf : x'.fields = x.fields) :
    ({ s with dmas := s.dmas.alloc y, mems := s.mems.set y.mem x' } : State).view =
      v.add_dma s.dmas.next y.mem y.ctrl := by
  have : (fun e => ((s.dmas.alloc y).get e).map fun y => (y.mem, y.ctrl)) =
      Function.update (fun e => (s.dmas.get e).map fun y => (y.mem, y.ctrl)) s.dmas.next
        (some (y.mem, y.ctrl)) := by
    funext e
    rw [Heap.get_alloc, Function.update_apply]
    by_cases he : e = s.dmas.next
    · rw [if_pos he, if_pos he]
      rfl
    · rw [if_neg he, if_neg he]
  have hv := hs.view_set_mem hm hf
  rw [← hv]
  exact congrArg (fun D => { ({ s with mems := s.mems.set y.mem x' } : State).view with dmas := D }) this

theorem publish_dma_spec {y : BafsMemDma} {f : BafsMem}
    (hs : At (h + tok Kind.mem y.mem + tok Kind.ctrl y.ctrl) v s) (hm : v.mems y.mem = some f) :
    wp (publish_dma y) E (fun d s' => v.dmas d = none ∧ At h (v.add_dma d y.mem y.ctrl) s') s := by
  obtain ⟨x, hx, -⟩ := hs.mem_live hm
  unfold publish_dma
  rw [wp_bind, wp_get, wp_bind, wp_modify, wp_bind]
  refine (wp_mem_upd (x := x) (by exact hx)).mpr ⟨hs.dma_next, ?_⟩
  exact ⟨hs.wf.dma_alloc hx, hs.view_alloc_dma hx rfl⟩

theorem delete_dma_spec {blk : BlockId} {c : CtrlId} {m : MemId} {f : BafsMem}
    (hs : At (h + tok Kind.mem m + tok Kind.ctrl c) v s) (hh : NonNeg h) (hm : v.mems m = some f) :
    wp (delete_dma blk c m) E (fun _ s' => At h v s') s := by
  unfold delete_dma
  refine (hs.keep (kfree_quiet quiet_at _)).bind fun _ s₁ hs₁ => ?_
  refine (bafs_ctrl_release_spec hs₁ (hh.tok _ _)).bind fun _ s₂ hs₂ => ?_
  exact bafs_mem_put_spec hs₂ hh hm

/-- The outcome of a mapping for the controller `c` of a registration in `found`. -/
def MapOutcome (h : Held Kind) (v : View) (c : CtrlId) (found : MemId → Prop)
    (r : Int × Nat × Option DmaId) (s' : State) : Prop :=
  (r.1 < 0 ∧ r.2.2 = none ∧ At h v s') ∨
    ∃ m d, found m ∧ r.1 = 0 ∧ r.2.2 = some d ∧ v.dmas d = none ∧ At h (v.add_dma d m c) s'

theorem nvidia_p2p_dma_map_pages_spec (hs : At h v s) (c : CtrlId) (t : Option TableId)
    (answer : Except Errno (List Nat)) :
    wp (nvidia_p2p_dma_map_pages c t answer) E
      (fun r s' => (∀ ret, r = .error ret → ret < 0) ∧ At h v s') s := by
  unfold nvidia_p2p_dma_map_pages
  refine (hs.keep (emit_quiet quiet_at _)).bind fun _ s₁ hs₁ => ?_
  cases t with
  | none =>
    refine ⟨fun ret hr => ?_, hs₁⟩
    obtain rfl := Except.error.inj hr
    decide
  | some t =>
    cases answer with
    | error e =>
      refine ⟨fun ret hr => ?_, hs₁⟩
      obtain rfl := Except.error.inj hr
      exact e.ret_neg
    | ok addrs => exact ⟨(fun ret hr => by cases hr), hs₁.of_eq rfl rfl⟩

section Map

variable {c : CtrlId} {m : MemId} {f x : BafsMem} {blk : BlockId} {n_dma_addrs user ctrl_id : Nat}
  {env : DmaMapEnv}

theorem map_addrs_spec {map_gran : Nat} {answer : Nat → Option Nat} (hs : At h v s)
    (hnull : x.cpu_page_table = none → x.n_pages ≠ 0 → E .null_page_table)
    (hb : ∀ p, x.cpu_page_table = some p → p.2.length ≠ x.n_pages → E .out_of_bounds) :
    wp (map_addrs c x map_gran answer) E
      (fun r s' => (∀ ret, r.2 = some ret → ret < 0) ∧ At h v s') s := by
  unfold map_addrs
  refine wp_iterate_range (fun _ _ s => At h v s) (fun i addrs s₁ hi hs₁ => ?_)
    (fun addrs s₁ hs₁ => ⟨(fun ret hr => by cases hr), hs₁⟩) hs
  cases ht : x.cpu_page_table with
  | none => exact hnull ht (by omega)
  | some t =>
    obtain ⟨b, table⟩ := t
    dsimp only
    cases hi' : table[i]? with
    | none =>
      refine hb _ ht fun hlen => ?_
      have := List.getElem?_eq_none_iff.mp hi'
      simp only at hlen
      omega
    | some p =>
      rw [wp_bind]
      unfold dma_map_single
      cases answer i with
      | none =>
        refine ⟨fun ret hr => ?_, hs₁⟩
        obtain rfl := Option.some.inj hr
        decide
      | some addr => exact hs₁.of_eq rfl rfl

theorem dma_map_cpu_spec (hs : At (h + tok Kind.mem m + tok Kind.ctrl c) v s) (hh : NonNeg h)
    (hm : v.mems m = some f)
    (hb : ∀ p, x.cpu_page_table = some p → p.2.length ≠ x.n_pages → E .out_of_bounds)
    (hnull : x.cpu_page_table = none → x.n_pages ≠ 0 → E .null_page_table) :
    wp (dma_map_cpu c m x blk n_dma_addrs user ctrl_id env) E (MapOutcome h v c (· = m)) s := by
  unfold dma_map_cpu
  refine (kzalloc_spec hs env.kcalloc).bind fun r s₁ hs₁ => ?_
  obtain ⟨-, hs₁⟩ := hs₁
  cases r with
  | none =>
    exact (delete_dma_spec hs₁ hh hm).bind fun _ s₂ hs₂ => .inl ⟨(by decide : -ENOMEM < 0), rfl, hs₂⟩
  | some ablk =>
    refine (map_addrs_spec hs₁ hnull hb).bind fun r s₂ hs₂ => ?_
    obtain ⟨addrs, fail⟩ := r
    obtain ⟨hfail, hs₂⟩ := hs₂
    cases fail with
    | some ret =>
      refine (hs₂.keep (unmap_back_quiet quiet_at _ _ _)).bind fun _ s₃ hs₃ => ?_
      exact (delete_dma_spec hs₃ hh hm).bind fun _ s₄ hs₄ => .inl ⟨hfail ret rfl, rfl, hs₄⟩
    | none =>
      refine (copy_to_user_spec hs₂ env.copy_to_user _ _ _).bind fun left s₃ hs₃ => ?_
      refine wp_ite (fun _ => ?_) fun _ => ?_
      · refine (hs₃.2.keep (unmap_back_quiet quiet_at _ _ _)).bind fun _ s₄ hs₄ => ?_
        exact (delete_dma_spec hs₄ hh hm).bind fun _ s₅ hs₅ =>
          .inl ⟨(by decide : -EFAULT < 0), rfl, hs₅⟩
      · exact (publish_dma_spec (by exact hs₃.2) hm).bind fun d s₄ hs₄ =>
          .inr ⟨m, d, rfl, rfl, rfl, hs₄.1, hs₄.2⟩

theorem dma_map_cuda_spec (hs : At (h + tok Kind.mem m + tok Kind.ctrl c) v s) (hh : NonNeg h)
    (hm : v.mems m = some f) :
    wp (dma_map_cuda c m x blk n_dma_addrs user ctrl_id env) E (MapOutcome h v c (· = m)) s := by
  unfold dma_map_cuda
  refine (nvidia_p2p_dma_map_pages_spec hs c x.cuda_page_table _).bind fun r s₁ hs₁ => ?_
  obtain ⟨hret, hs₁⟩ := hs₁
  cases r with
  | error ret =>
    exact (delete_dma_spec hs₁ hh hm).bind fun _ s₂ hs₂ => .inl ⟨hret ret rfl, rfl, hs₂⟩
  | ok p =>
    rw [wp_bind, wp_get]
    refine (copy_to_user_spec hs₁ env.copy_to_user _ _ _).bind fun left s₂ hs₂ => ?_
    refine wp_ite (fun _ => ?_) fun _ => ?_
    · refine (hs₂.2.keep (emit_quiet quiet_at _)).bind fun _ s₃ hs₃ => ?_
      exact (delete_dma_spec hs₃ hh hm).bind fun _ s₄ hs₄ =>
        .inl ⟨(by decide : -EFAULT < 0), rfl, hs₄⟩
    · exact (publish_dma_spec (by exact hs₂.2) hm).bind fun d s₃ hs₃ =>
        .inr ⟨m, d, rfl, rfl, rfl, hs₃.1, hs₃.2⟩

theorem MapOutcome.found {r : Int × Nat × Option DmaId} {p : MemId → Prop}
    (ho : MapOutcome h v c (· = m) r s) (hp : p m) : MapOutcome h v c p r s :=
  ho.imp_right fun ⟨_, d, hm, hr⟩ => ⟨m, d, hp, hm ▸ hr⟩

theorem bafs_ctrl_dma_map_mem_spec {ctx : CtxId} {vaddr : Nat} (hs : At h v s) (hh : NonNeg h)
    (hx : CtxHeld h v ctx) (hc : CtrlHeld h v c)
    (hb : ∀ m f, Found v ctx vaddr m → v.mems m = some f → ¬table_fits f → E .out_of_bounds)
    (hnull : ∀ m f, Found v ctx vaddr m → v.mems m = some f → missing_table f →
      E .null_page_table) :
    wp (bafs_ctrl_dma_map_mem c ctx vaddr n_dma_addrs user ctrl_id env) E
      (MapOutcome h v c (Found v ctx vaddr)) s := by
  unfold bafs_ctrl_dma_map_mem
  obtain ⟨y, hy⟩ := hs.ctx_live hx
  refine (bafs_get_mem_with_ctx_spec hs hh hy).bind fun r s₁ hr => ?_
  obtain ⟨hr, hs₁⟩ := hr
  cases r with
  | none => exact .inl ⟨(by decide : -EINVAL < 0), rfl, hs₁.congr (add_zero h).symm⟩
  | some m =>
    have hm := (hr m).mp rfl
    obtain ⟨f, hf, -⟩ := hm.1
    refine (kzalloc_spec hs₁ env.kzalloc).bind fun r s₂ hs₂ => ?_
    obtain ⟨-, hs₂⟩ := hs₂
    cases r with
    | none =>
      exact (bafs_mem_put_spec hs₂ hh hf).bind fun _ s₃ hs₃ =>
        .inl ⟨(by decide : -ENOMEM < 0), rfl, hs₃⟩
    | some blk =>
      refine (bafs_get_ctrl_spec hs₂ (hh.tok _ _) (hc.add _ _)).bind fun _ s₃ hs₃ => ?_
      refine (mem_at_spec hs₃ hf).bind fun x s₄ hx => ?_
      obtain ⟨hxf, -, hs₄⟩ := hx
      refine wp_ite (fun h0 => ?_) fun h0 => wp_ite (fun h1 => ?_) fun h1 => ?_
      · refine wp_mono (dma_map_cpu_spec hs₄ hh hf (fun p hp hlen => ?_) fun ht hn => ?_)
          fun _ _ ho => ho.found hm
        · exact hb m f hm hf fun hfit => hlen ((hxf ▸ hfit : table_fits x.fields) h0 p hp).1
        · exact hnull m f hm hf (hxf ▸ ⟨h0, ht, hn⟩)
      · exact wp_mono (dma_map_cuda_spec hs₄ hh hf) fun _ _ ho => ho.found hm
      · exact (delete_dma_spec hs₄ hh hf).bind fun _ s₅ hs₅ =>
          .inl ⟨(by decide : -EINVAL < 0), rfl, hs₅⟩

theorem __bafs_ctrl_dma_map_mem_spec {ctx : CtxId} {argp : Nat}
    {params : BAFS_IOC_DMA_MAP_MEM_PARAMS} {env : CtrlDmaMapEnv} (hs : At h v s)
    (hh : NonNeg h) (hx : CtxHeld h v ctx) (hc : CtrlHeld h v c)
    (hb : ∀ m f, Found v ctx params.vaddr m → v.mems m = some f → ¬table_fits f →
      E .out_of_bounds)
    (hnull : ∀ m f, Found v ctx params.vaddr m → v.mems m = some f → missing_table f →
      E .null_page_table) :
    wp (__bafs_ctrl_dma_map_mem argp params c ctx env) E (fun r s' => (r < 0 ∧ At h v s') ∨
      r = 0 ∧ ∃ m d, Found v ctx params.vaddr m ∧ v.dmas d = none ∧
        At h (v.add_dma d m c) s') s := by
  unfold __bafs_ctrl_dma_map_mem
  refine wp_ite (fun _ => .inl ⟨(by decide : -EFAULT < 0), hs⟩) fun _ => ?_
  refine (bafs_ctrl_dma_map_mem_spec hs hh hx hc hb hnull).bind fun r s₁ hr => ?_
  obtain ⟨ret, n, d⟩ := r
  obtain ⟨hret, hd, hs₁⟩ | ⟨m, d, hm, hret, hd, hfree, hs₁⟩ := hr
  · obtain rfl : _ = none := hd
    exact .inl ⟨hret, hs₁⟩
  · obtain rfl : _ = some d := hd
    obtain ⟨f, hf, -⟩ := hm.1
    refine (copy_to_user_spec hs₁ env.copy_to_user _ _ _).bind fun left s₂ hs₂ => ?_
    refine wp_ite (fun _ => ?_) fun _ => .inr ⟨hret, m, d, hm, hfree, hs₂.2⟩
    refine (bafs_ctrl_dma_unmap_mem_spec hs₂.2 hh (Function.update_self ..) hf).bind
      fun _ s₃ hs₃ => ?_
    rw [View.drop_add_dma hfree] at hs₃
    exact .inl ⟨(by decide : -EFAULT < 0), hs₃⟩

end Map

end BafsDriver
