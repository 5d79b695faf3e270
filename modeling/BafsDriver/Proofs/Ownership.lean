import Mathlib.Algebra.Order.Pi
import BafsDriver.Proofs.RegProofs

/-!
# Who owns the memory blocks and the pages

Each block that was allocated is part of one object, has been freed once, or is loose: running code
holds it, or nobody does. So it is with the pages, which stand in the page tables of registrations. The
functions take up blocks and pages and hand them to the objects they make, and free those of the objects
they release; what they lose is loose for ever.
-/

set_option linter.style.nameCheck false

namespace BafsDriver

open Prog

variable {s s' : State} {E : Fault → Prop} {b : BlockId} {p : PageId}

/-! ## Owners -/

def BafsMem.blocks (x : BafsMem) : List BlockId := x.blk :: (x.cpu_page_table.map (·.1)).toList

def BafsMemDma.blocks (y : BafsMemDma) : List BlockId := y.blk :: (y.addrs.map (·.1)).toList

def BafsGroup.blocks (x : BafsGroup) : List BlockId := [x.blk, x.ctrls_blk]

/-- The block of the private data of a file; that of a core file is its context. -/
def File.blocks : File → List BlockId
  | .core _ => []
  | .ctrl x => [x.blk]
  | .group x => [x.blk]

/-- How often the block stands in an object. -/
def block_owners (s : State) (b : BlockId) : Nat :=
  s.ctxs.sum (fun x => [x.blk].count b) + s.mems.sum (fun x => x.blocks.count b) +
    s.dmas.sum (fun y => y.blocks.count b) + s.ctrls.sum (fun x => [x.blk].count b) +
    s.groups.sum (fun x => x.blocks.count b) + s.files.sum fun x => x.blocks.count b

/-- The pages of the table of a registration. -/
def BafsMem.table_pages (x : BafsMem) : List PageId := x.cpu_page_table.elim [] (·.2)

/-- How often the page stands in the table of a registration. -/
def page_owners (s : State) (p : PageId) : Nat := s.mems.sum fun x => x.table_pages.count p

/-- What the driver gets from the kernel and has to give back. -/
inductive Loan where
  | block (b : BlockId)
  | page (p : PageId)

/-- How often the block or page was allocated and is neither freed nor in an object. -/
def loose (s : State) : Loan → ℤ
  | .block b =>
    (if b < s.blocks.next then 1 else 0) - (s.blocks.freed.count b : ℕ) - (block_owners s b : ℕ)
  | .page p =>
    (if p < s.pages.next then 1 else 0) - (s.pages.freed.count p : ℕ) - (page_owners s p : ℕ)

/-- The blocks of a list, each as often as it stands there. -/
def blks (l : List BlockId) : Loan → ℤ
  | .block b => (l.count b : ℕ)
  | .page _ => 0

/-- The pages of a list, each as often as it stands there. -/
def pgs (l : List PageId) : Loan → ℤ
  | .block _ => 0
  | .page p => (l.count p : ℕ)

/-- What a registration has of both. -/
def BafsMem.loans (x : BafsMem) : Loan → ℤ := blks x.blocks + pgs x.table_pages

variable {P : Loan → ℤ}

theorem loan_ext {P Q : Loan → ℤ} (hb : ∀ b, P (.block b) = Q (.block b))
    (hp : ∀ p, P (.page p) = Q (.page p)) : P = Q := by
  funext i
  cases i with
  | block b => exact hb b
  | page p => exact hp p

@[simp] theorem blks_nil : blks [] = 0 := loan_ext (fun _ => rfl) fun _ => rfl

@[simp] theorem pgs_nil : pgs [] = 0 := loan_ext (fun _ => rfl) fun _ => rfl

theorem blks_cons {l : List BlockId} : blks (b :: l) = blks [b] + blks l := by
  refine loan_ext (fun i => ?_) fun _ => (add_zero _).symm
  simp only [blks, Pi.add_apply, List.count_cons, List.count_nil]
  push_cast
  omega

theorem blks_pair {b' : BlockId} : blks [b, b'] = blks [b] + blks [b'] := blks_cons

theorem pgs_append {l l' : List PageId} : pgs (l ++ l') = pgs l + pgs l' := by
  refine loan_ext (fun _ => (add_zero _).symm) fun i => ?_
  simp only [pgs, Pi.add_apply, List.count_append]
  push_cast
  rfl

theorem pgs_cons {l : List PageId} : pgs (p :: l) = pgs [p] + pgs l := pgs_append (l := [p])

theorem blks_nonneg {l : List BlockId} : 0 ≤ blks l := by
  intro i
  cases i with
  | block b => exact Int.natCast_nonneg _
  | page p => exact le_rfl

theorem pgs_nonneg {l : List PageId} : 0 ≤ pgs l := by
  intro i
  cases i with
  | block b => exact le_rfl
  | page p => exact Int.natCast_nonneg _

/-! ## How the updates move the blocks -/

section Updates

variable {c : CtxId} {m : MemId} {d : DmaId} {k : CtrlId} {g : GroupId} {f : FileId}

/-- The objects with their blocks and pages. -/
abbrev State.owned (s : State) :=
  (s.ctxs, s.mems, s.dmas, s.ctrls, s.groups, s.files, s.blocks, s.pages)

theorem loose_congr (h : s'.owned = s.owned) : loose s' = loose s := by
  simp only [State.owned, Prod.mk.injEq] at h
  obtain ⟨h1, h2, h3, h4, h5, h6, h7, h8⟩ := h
  refine loan_ext (fun b => ?_) fun p => ?_
  · simp only [loose, block_owners, h1, h2, h3, h4, h5, h6, h7]
  · simp only [loose, page_owners, h2, h8]

/-- A new address is the last of those below the next. -/
theorem lt_succ_count (i n : Nat) : (if i < n + 1 then (1 : ℤ) else 0) =
    (if i < n then 1 else 0) + ([n].count i : ℕ) := by
  rw [List.count_singleton]
  by_cases hi : i = n
  · rw [if_pos (by omega), if_neg (by omega), if_pos (by simp [hi])]
    rfl
  · have hlt : i < n + 1 ↔ i < n := by omega
    rw [if_neg (show ¬(n == i) = true by simpa using Ne.symm hi)]
    simp only [hlt]
    exact (add_zero _).symm

theorem loose_kzalloc :
    loose { s with blocks := s.blocks.alloc () } = loose s + blks [s.blocks.next] := by
  refine loan_ext (fun b => ?_) fun _ => (add_zero _).symm
  show (if b < (s.blocks.alloc ()).next then 1 else 0) - (s.blocks.freed.count b : ℤ) -
    (block_owners s b : ℕ) = loose s (.block b) + blks [s.blocks.next] (.block b)
  rw [Heap.next_alloc, loose, blks, lt_succ_count]
  omega

theorem loose_kfree :
    loose { s with blocks := s.blocks.free b } + blks [b] = loose s := by
  refine loan_ext (fun i => ?_) fun _ => add_zero _
  show (if i < (s.blocks.free b).next then 1 else 0) - ((b :: s.blocks.freed).count i : ℤ) -
    (block_owners s i : ℕ) + blks [b] (.block i) = loose s (.block i)
  rw [Heap.next_free, loose, blks, List.count_singleton, List.count_cons]
  push_cast
  omega

theorem loose_alloc_page :
    loose { s with pages := s.pages.alloc () } = loose s + pgs [s.pages.next] := by
  refine loan_ext (fun _ => (add_zero _).symm) fun p => ?_
  show (if p < (s.pages.alloc ()).next then 1 else 0) - (s.pages.freed.count p : ℤ) -
    (page_owners s p : ℕ) = loose s (.page p) + pgs [s.pages.next] (.page p)
  rw [Heap.next_alloc, loose, pgs, lt_succ_count]
  omega

theorem loose_free_page : loose { s with pages := s.pages.free p } + pgs [p] = loose s := by
  refine loan_ext (fun _ => add_zero _) fun i => ?_
  show (if i < (s.pages.free p).next then 1 else 0) - ((p :: s.pages.freed).count i : ℤ) -
    (page_owners s i : ℕ) + pgs [p] (.page i) = loose s (.page i)
  rw [Heap.next_free, loose, pgs, List.count_singleton, List.count_cons]
  push_cast
  omega

theorem loose_ctx_alloc {x : BafsCtx} :
    loose { s with ctxs := s.ctxs.alloc x } + blks [x.blk] = loose s := by
  refine loan_ext (fun b => ?_) fun _ => add_zero _
  simp only [loose, block_owners, Heap.sum_alloc, Pi.add_apply, blks]
  push_cast
  omega

theorem loose_ctx_free {x : BafsCtx} (hx : s.ctxs.get c = some x) :
    loose { s with ctxs := s.ctxs.free c } = loose s + blks [x.blk] := by
  refine loan_ext (fun b => ?_) fun _ => (add_zero _).symm
  have hsum := Heap.sum_free (f := fun x => [x.blk].count b) hx
  simp only [loose, block_owners, Pi.add_apply, blks]
  push_cast
  omega

theorem loose_ctx_set {x x' : BafsCtx} (hx : s.ctxs.get c = some x) (hb : x'.blk = x.blk) :
    loose { s with ctxs := s.ctxs.set c x' } = loose s := by
  refine loan_ext (fun b => ?_) fun _ => rfl
  have hsum : (s.ctxs.set c x').sum _ = _ :=
    Heap.sum_set_eq (f := fun x => [x.blk].count b) hx (by rw [hb])
  simp only [loose, block_owners, hsum]

theorem loose_mem_alloc {x : BafsMem} :
    loose { s with mems := s.mems.alloc x } + x.loans = loose s := by
  refine loan_ext (fun b => ?_) fun p => ?_
  · simp only [loose, block_owners, Heap.sum_alloc, Pi.add_apply, BafsMem.loans, blks, pgs]
    push_cast
    omega
  · simp only [loose, page_owners, Heap.sum_alloc, Pi.add_apply, BafsMem.loans, blks, pgs]
    push_cast
    omega

theorem loose_mem_free {x : BafsMem} (hx : s.mems.get m = some x) :
    loose { s with mems := s.mems.free m } = loose s + x.loans := by
  refine loan_ext (fun b => ?_) fun p => ?_
  · have hsum := Heap.sum_free (f := fun x => x.blocks.count b) hx
    simp only [loose, block_owners, Pi.add_apply, BafsMem.loans, blks, pgs]
    push_cast
    omega
  · have hsum := Heap.sum_free (f := fun x => x.table_pages.count p) hx
    simp only [loose, page_owners, Pi.add_apply, BafsMem.loans, blks, pgs]
    omega

theorem loose_mem_set {x : BafsMem} (hx : s.mems.get m = some x) (x' : BafsMem) :
    loose { s with mems := s.mems.set m x' } + x'.loans = loose s + x.loans := by
  refine loan_ext (fun b => ?_) fun p => ?_
  · have hsum := Heap.sum_set (f := fun x => x.blocks.count b) (a := x') hx
    simp only [loose, block_owners, Pi.add_apply, BafsMem.loans, blks, pgs]
    push_cast
    omega
  · have hsum := Heap.sum_set (f := fun x => x.table_pages.count p) (a := x') hx
    simp only [loose, page_owners, Pi.add_apply, BafsMem.loans, blks, pgs]
    omega

theorem loose_dma_alloc {y : BafsMemDma} :
    loose { s with dmas := s.dmas.alloc y } + blks y.blocks = loose s := by
  refine loan_ext (fun b => ?_) fun _ => add_zero _
  simp only [loose, block_owners, Heap.sum_alloc, Pi.add_apply, blks]
  push_cast
  omega

theorem loose_dma_free {y : BafsMemDma} (hy : s.dmas.get d = some y) :
    loose { s with dmas := s.dmas.free d } = loose s + blks y.blocks := by
  refine loan_ext (fun b => ?_) fun _ => (add_zero _).symm
  have hsum := Heap.sum_free (f := fun x => x.blocks.count b) hy
  simp only [loose, block_owners, Pi.add_apply, blks]
  push_cast
  omega

theorem loose_dma_set {y y' : BafsMemDma} (hy : s.dmas.get d = some y) (hb : y'.blocks = y.blocks) :
    loose { s with dmas := s.dmas.set d y' } = loose s := by
  refine loan_ext (fun b => ?_) fun _ => rfl
  have hsum : (s.dmas.set d y').sum _ = _ :=
    Heap.sum_set_eq (f := fun x => x.blocks.count b) hy (by rw [hb])
  simp only [loose, block_owners, hsum]

theorem loose_ctrl_alloc {x : BafsCtrl} :
    loose { s with ctrls := s.ctrls.alloc x } + blks [x.blk] = loose s := by
  refine loan_ext (fun b => ?_) fun _ => add_zero _
  simp only [loose, block_owners, Heap.sum_alloc, Pi.add_apply, blks]
  push_cast
  omega

theorem loose_ctrl_free {x : BafsCtrl} (hx : s.ctrls.get k = some x) :
    loose { s with ctrls := s.ctrls.free k } = loose s + blks [x.blk] := by
  refine loan_ext (fun b => ?_) fun _ => (add_zero _).symm
  have hsum := Heap.sum_free (f := fun x => [x.blk].count b) hx
  simp only [loose, block_owners, Pi.add_apply, blks]
  push_cast
  omega

theorem loose_ctrl_set {x x' : BafsCtrl} (hx : s.ctrls.get k = some x) (hb : x'.blk = x.blk) :
    loose { s with ctrls := s.ctrls.set k x' } = loose s := by
  refine loan_ext (fun b => ?_) fun _ => rfl
  have hsum : (s.ctrls.set k x').sum _ = _ :=
    Heap.sum_set_eq (f := fun x => [x.blk].count b) hx (by rw [hb])
  simp only [loose, block_owners, hsum]

theorem loose_group_alloc {x : BafsGroup} :
    loose { s with groups := s.groups.alloc x } + blks x.blocks = loose s := by
  refine loan_ext (fun b => ?_) fun _ => add_zero _
  simp only [loose, block_owners, Heap.sum_alloc, Pi.add_apply, blks]
  push_cast
  omega

theorem loose_group_free {x : BafsGroup} (hx : s.groups.get g = some x) :
    loose { s with groups := s.groups.free g } = loose s + blks x.blocks := by
  refine loan_ext (fun b => ?_) fun _ => (add_zero _).symm
  have hsum := Heap.sum_free (f := fun x => x.blocks.count b) hx
  simp only [loose, block_owners, Pi.add_apply, blks]
  push_cast
  omega

theorem loose_group_set {x x' : BafsGroup} (hx : s.groups.get g = some x)
    (hb : x'.blocks = x.blocks) : loose { s with groups := s.groups.set g x' } = loose s := by
  refine loan_ext (fun b => ?_) fun _ => rfl
  have hsum : (s.groups.set g x').sum _ = _ :=
    Heap.sum_set_eq (f := fun x => x.blocks.count b) hx (by rw [hb])
  simp only [loose, block_owners, hsum]

theorem loose_file_alloc {x : File} :
    loose { s with files := s.files.alloc x } + blks x.blocks = loose s := by
  refine loan_ext (fun b => ?_) fun _ => add_zero _
  simp only [loose, block_owners, Heap.sum_alloc, Pi.add_apply, blks]
  push_cast
  omega

theorem loose_file_free {x : File} (hx : s.files.get f = some x) :
    loose { s with files := s.files.free f } = loose s + blks x.blocks := by
  refine loan_ext (fun b => ?_) fun _ => (add_zero _).symm
  have hsum := Heap.sum_free (f := fun x => x.blocks.count b) hx
  simp only [loose, block_owners, Pi.add_apply, blks]
  push_cast
  omega

end Updates

/-! ## Services -/

section Services

variable {ok : Bool}

theorem kzalloc_loose (hP : loose s = P) :
    wp (kzalloc ok) E (fun r s' => loose s' = P + blks r.toList) s := by
  rw [wp_kzalloc]
  split
  · exact loose_kzalloc.trans (congrArg (· + _) hP)
  · simpa using hP

theorem kfree_loose (hP : loose s = P + blks [b]) : wp (kfree b) E (fun _ s' => loose s' = P) s :=
  add_right_cancel (loose_kfree.trans hP)

/-- What touches neither the objects nor the blocks moves none of them. -/
theorem modify_loose {f : State → State} (hf : ∀ s, (f s).owned = s.owned) :
    Preserves E (modify f : Drv Unit) loose := Preserves.modify fun s => loose_congr (hf s)

theorem emit_loose (e : Event) : Preserves E (emit e) loose := modify_loose fun _ => rfl

theorem copy_to_user_loose (left dst : Nat) (source : CopySource) (words : List Nat) :
    Preserves E (copy_to_user left dst source words) loose :=
  Preserves.bind (emit_loose _) fun _ => Preserves.pure _

theorem alloc_page_loose (hP : loose s = P) :
    wp (alloc_page ok) E (fun r s' => loose s' = P + pgs r.toList) s := by
  unfold alloc_page
  rw [wp_bind, wp_get]
  refine wp_ite (fun _ => ?_) fun _ => ?_
  · exact loose_alloc_page.trans (congrArg (· + _) hP)
  · simpa using hP

theorem free_page_loose (hP : loose s = P + pgs [p]) :
    wp (__free_page p) E (fun _ s' => loose s' = P) s :=
  add_right_cancel (loose_free_page.trans hP)

theorem free_each_exact {l : List PageId} : wp (each __free_page l) E
    (fun _ s' => s' = { s with pages := l.foldl Heap.free s.pages }) s := by
  induction l generalizing s with
  | nil => rfl
  | cons p l ih =>
    unfold each __free_page
    rw [wp_bind, wp_modify]
    exact ih

theorem loose_free_pages {l : List PageId} :
    loose { s with pages := l.foldl Heap.free s.pages } + pgs l = loose s := by
  induction l generalizing s with
  | nil => rw [pgs_nil, add_zero]; rfl
  | cons p l ih =>
    rw [pgs_cons, add_comm (pgs [p]), ← add_assoc, List.foldl_cons]
    exact (congrArg (· + pgs [p]) ih).trans loose_free_page

theorem find_get_pid_loose (task : Task) : Preserves E (find_get_pid ok task) loose :=
  Preserves.ite (Preserves.bind (modify_loose fun _ => rfl) fun _ => Preserves.pure _) (Preserves.pure _)

theorem put_pid_loose (pid : Nat) : Preserves E (put_pid pid) loose := modify_loose fun _ => rfl

theorem bafs_get_minor_number_loose (fail : Option Errno) :
    Preserves E (bafs_get_minor_number fail) loose :=
  Preserves.bind Preserves.get fun s => by
    cases ida_simple_get s.bafs_minor_ida fail with
    | error e => exact Preserves.pure _
    | ok n => exact Preserves.bind (modify_loose fun _ => rfl) fun _ => Preserves.pure _

theorem device_create_loose (cls name : Name) (data : Drvdata) :
    Preserves E (device_create cls name data) loose :=
  Preserves.bind Preserves.get fun _ => Preserves.bind (modify_loose fun _ => rfl) fun _ => Preserves.pure _

theorem device_find_child_by_name_loose (name : Name) :
    Preserves (fun _ => True) (device_find_child_by_name name) loose :=
  Preserves.bind Preserves.get fun s => by
    cases find_child s name with
    | none => exact Preserves.pure _
    | some d => exact Preserves.bind (device_upd_keeps (fun _ _ => rfl) d _) fun _ => Preserves.pure _

theorem vm_map_pages_zero_loose (vma : Vma) (pages : List PageId) (fail : Option Errno) :
    Preserves E (vm_map_pages_zero vma pages fail) loose := by
  refine Preserves.bind (emit_loose _) fun _ => Preserves.ite (Preserves.pure _) ?_
  cases fail <;> exact Preserves.pure _

theorem io_remap_pfn_range_loose (vma : Vma) (addr pfn size : Nat) (bar : Option CtrlId)
    (fail : Option Errno) : Preserves E (io_remap_pfn_range vma addr pfn size bar fail) loose := by
  refine Preserves.bind (emit_loose _) fun _ => ?_
  cases fail with
  | some e => exact Preserves.pure _
  | none => exact Preserves.ite (Preserves.pure _) (Preserves.pure _)

theorem nvidia_p2p_put_pages_loose (t : TableId) : Preserves E (nvidia_p2p_put_pages t) loose :=
  Preserves.bind (emit_loose _) fun _ => modify_loose fun _ => rfl

theorem nvidia_p2p_get_pages_loose (data : MemId) (answer : Except Errno P2pPages) :
    Preserves E (nvidia_p2p_get_pages data answer) loose := by
  unfold nvidia_p2p_get_pages
  cases answer with
  | error e => exact Preserves.pure _
  | ok pages => exact Preserves.bind Preserves.get fun _ => Preserves.bind (modify_loose fun _ => rfl) fun _ => Preserves.pure _

theorem nvidia_p2p_dma_map_pages_loose (c : CtrlId) (t : Option TableId)
    (answer : Except Errno (List Nat)) :
    Preserves E (nvidia_p2p_dma_map_pages c t answer) loose := by
  refine Preserves.bind (emit_loose _) fun _ => ?_
  cases t with
  | none => exact Preserves.pure _
  | some t =>
    cases answer with
    | error e => exact Preserves.pure _
    | ok addrs =>
      exact Preserves.bind Preserves.get fun _ => Preserves.bind (modify_loose fun _ => rfl) fun _ => Preserves.pure _

end Services

/-! ## Contexts -/

section Contexts

variable {c : CtxId}

theorem ctx_upd_loose {f : BafsCtx → BafsCtx} (hf : ∀ x, (f x).blk = x.blk) :
    Preserves (fun _ => True) (ctx_upd c f) loose := by
  intro s
  unfold ctx_upd
  rw [wp_bind]
  exact wp_load_of (fun _ => trivial) fun x hx => loose_ctx_set hx (hf x)

theorem ctx_kref_get_loose : Preserves (fun _ => True) (ctx_kref_get c) loose :=
  ctx_upd_loose fun _ => rfl

theorem __bafs_core_ctx_release_loose :
    Preserves (fun _ => True) (__bafs_core_ctx_release c) loose := by
  intro s
  unfold __bafs_core_ctx_release put_pid
  rw [wp_bind]
  refine wp_load_of (fun _ => trivial) fun x hx => ?_
  rw [wp_bind, wp_modify, wp_bind, wp_modify, wp_bind, wp_modify]
  exact kfree_loose (loose_ctx_free hx)

theorem bafs_put_ctx_loose : Preserves (fun _ => True) (bafs_put_ctx c) loose :=
  Preserves.bind load_preserves fun _ => Preserves.bind (ctx_upd_loose fun _ => rfl) fun _ =>
    .ite __bafs_core_ctx_release_loose (Preserves.pure _)

theorem publish_ctx_loose {x : BafsCtx} (hP : loose s = P + blks [x.blk]) :
    wp (publish_ctx x) E (fun _ s' => loose s' = P) s :=
  add_right_cancel (loose_ctx_alloc.trans hP)

theorem bafs_core_open_loose (task : Task) (env : CtxEnv) :
    Preserves (fun _ => True) (bafs_core_open task env) loose := by
  intro s
  unfold bafs_core_open
  refine (kzalloc_loose rfl).bind fun r s₁ hs₁ => ?_
  cases r with
  | none => simpa using hs₁
  | some blk =>
    refine (find_get_pid_loose task s₁).bind fun got s₂ hs₂ => ?_
    have hs₂ : loose s₂ = loose s + blks [blk] := hs₂.trans hs₁
    refine wp_ite (fun _ => ?_) fun _ => (kfree_loose hs₂).bind fun _ _ hs₃ => hs₃
    rw [wp_bind, wp_get]
    refine wp_ite (fun _ => ?_) fun _ => ?_
    · refine (put_pid_loose _ s₂).bind fun _ s₃ hs₃ => ?_
      exact (kfree_loose (hs₃.trans hs₂)).bind fun _ _ hs₄ => hs₄
    · exact (publish_ctx_loose (x := new_ctx blk task) hs₂).bind fun _ _ hs₃ => hs₃

theorem bafs_get_ctx_loose (task : Task) (env : CtxEnv) :
    Preserves (fun _ => True) (bafs_get_ctx task env) loose := by
  intro s
  unfold bafs_get_ctx
  refine (kzalloc_loose rfl).bind fun r s₁ hs₁ => ?_
  cases r with
  | none => simpa using hs₁
  | some blk =>
    refine (find_get_pid_loose task s₁).bind fun got s₂ hs₂ => ?_
    have hs₂ : loose s₂ = loose s + blks [blk] := hs₂.trans hs₁
    refine wp_ite (fun _ => ?_) fun _ => (kfree_loose hs₂).bind fun _ _ hs₃ => hs₃
    rw [wp_bind, wp_get]
    cases env.xa_insert with
    | some e => exact (kfree_loose hs₂).bind fun _ _ hs₃ => hs₃
    | none =>
      cases s₂.bafs_global_ctx_xa.lookup task.tgid with
      | none => exact (publish_ctx_loose (x := new_ctx blk task) hs₂).bind fun _ _ hs₃ => hs₃
      | some c =>
        refine (ctx_kref_get_loose s₂).bind fun _ s₃ hs₃ => ?_
        refine (put_pid_loose _ s₃).bind fun _ s₄ hs₄ => ?_
        exact (kfree_loose ((hs₄.trans hs₃).trans hs₂)).bind fun _ _ hs₅ => hs₅

end Contexts

/-! ## Controllers -/

section Controllers

variable {c : CtrlId}

theorem ctrl_upd_loose {f : BafsCtrl → BafsCtrl} (hf : ∀ x, (f x).blk = x.blk) :
    Preserves (fun _ => True) (ctrl_upd c f) loose := by
  intro s
  unfold ctrl_upd
  rw [wp_bind]
  exact wp_load_of (fun _ => trivial) fun x hx => loose_ctrl_set hx (hf x)

theorem bafs_get_ctrl_loose : Preserves (fun _ => True) (bafs_get_ctrl c) loose :=
  ctrl_upd_loose fun _ => rfl

theorem __bafs_ctrl_release_loose : Preserves (fun _ => True) (__bafs_ctrl_release c) loose := by
  intro s
  unfold __bafs_ctrl_release
  rw [wp_bind]
  refine wp_load_of (fun _ => trivial) fun x hx => ?_
  refine (device_destroy_keeps (f := fun s => (loose s, s.ctrls)) (fun _ _ => rfl) x.device s).bind
    fun _ s₁ hs₁ => ?_
  obtain ⟨hs₁, hctrls⟩ := Prod.mk.inj hs₁
  unfold put_core_device cdev_del bafs_put_minor_number
  rw [wp_bind, wp_modify, wp_bind, wp_modify, wp_bind, wp_modify, wp_bind, wp_modify, wp_bind,
    wp_modify]
  have hx₁ : s₁.ctrls.get c = some x := by rw [hctrls, hx]
  exact kfree_loose ((loose_ctrl_free hx₁).trans (congrArg (· + _) hs₁))

theorem bafs_ctrl_release_loose : Preserves (fun _ => True) (bafs_ctrl_release c) loose :=
  Preserves.bind load_preserves fun _ => Preserves.bind (ctrl_upd_loose fun _ => rfl) fun _ =>
    Preserves.ite __bafs_ctrl_release_loose (Preserves.pure _)

theorem bafs_ctrl_alloc_loose (pdev : PciDev) (env : CtrlAllocEnv) :
    Preserves (fun _ => True) (bafs_ctrl_alloc pdev env) loose := by
  intro s
  unfold bafs_ctrl_alloc
  refine (kzalloc_loose rfl).bind fun r s₁ hs₁ => ?_
  cases r with
  | none => simpa using hs₁
  | some blk =>
    have hgive : ∀ {α : Type} {t : State} {a : α}, loose t = loose s + blks [blk] →
        wp (do kfree blk; pure a) (fun _ => True) (fun _ t' => loose t' = loose s) t :=
      fun ht => (kfree_loose ht).bind fun _ _ ht' => ht'
    cases env.pci_request_region with
    | some e => exact hgive hs₁
    | none =>
      cases env.pci_enable_device with
      | some e => exact hgive hs₁
      | none =>
        refine (bafs_get_minor_number_loose env.minor s₁).bind fun r s₂ hs₂ => ?_
        have hs₂ : loose s₂ = loose s + blks [blk] := hs₂.trans hs₁
        cases r with
        | error e => exact hgive hs₂
        | ok minor =>
          rw [wp_bind, wp_get]
          unfold bafs_put_minor_number cdev_add cdev_del get_core_device put_core_device
          cases ida_simple_get s₂.bafs_ctrl_ida env.ctrl_id with
          | error e =>
            rw [wp_bind, wp_modify]
            exact hgive hs₂
          | ok ctrl_id =>
            rw [wp_bind, wp_modify]
            cases env.cdev_add with
            | some e =>
              rw [wp_bind, wp_modify, wp_bind, wp_modify]
              exact hgive hs₂
            | none =>
              dsimp only
              rw [wp_bind, wp_modify, wp_bind, wp_modify]
              cases env.device_create with
              | some e =>
                rw [wp_bind, wp_modify, wp_bind, wp_modify, wp_bind, wp_modify, wp_bind, wp_modify]
                exact hgive hs₂
              | none =>
                dsimp only
                rw [wp_bind, wp_get]
                refine (device_create_loose _ _ _ _).bind fun device s₃ hs₃ => ?_
                rw [wp_bind, wp_modify]
                exact add_right_cancel (loose_ctrl_alloc.trans (hs₃.trans hs₂))

theorem bafs_ctrl_pci_probe_loose (pdev : PciDev) (env : CtrlAllocEnv) :
    Preserves (fun _ => True) (bafs_ctrl_pci_probe pdev env) loose := by
  refine Preserves.bind (bafs_ctrl_alloc_loose pdev env) fun r => ?_
  obtain ⟨ret, o⟩ := r
  cases o with
  | none => exact Preserves.pure _
  | some c => exact Preserves.bind (modify_loose fun _ => rfl) fun _ => Preserves.pure _

theorem bafs_ctrl_pci_remove_loose (slot : Nat) :
    Preserves (fun _ => True) (bafs_ctrl_pci_remove slot c) loose :=
  Preserves.bind (modify_loose fun _ => rfl) fun _ => bafs_ctrl_release_loose

end Controllers

/-! ## Groups -/

section Groups

variable {g : GroupId}

theorem group_upd_loose {f : BafsGroup → BafsGroup} (hf : ∀ x, (f x).blocks = x.blocks) :
    Preserves (fun _ => True) (group_upd g f) loose := by
  intro s
  unfold group_upd
  rw [wp_bind]
  exact wp_load_of (fun _ => trivial) fun x hx => loose_group_set hx (hf x)

theorem bafs_get_group_loose : Preserves (fun _ => True) (bafs_get_group g) loose :=
  group_upd_loose fun _ => rfl

theorem debug_group_loose : Preserves E (debug_group g) loose :=
  modify_loose fun s => by
    split <;> rfl

theorem __bafs_group_release_loose : Preserves (fun _ => True) (__bafs_group_release g) loose := by
  intro s
  unfold __bafs_group_release
  rw [wp_bind]
  refine wp_load_of (fun _ => trivial) fun x hx => ?_
  refine (device_destroy_keeps (f := fun s => (loose s, s.groups)) (fun _ _ => rfl) x.device s).bind
    fun _ s₁ hs₁ => ?_
  obtain ⟨hs₁, hgroups⟩ := Prod.mk.inj hs₁
  have hx₁ : s₁.groups.get g = some x := by rw [hgroups, hx]
  rw [wp_bind, wp_modify]
  refine (Preserves.each (fun _ => bafs_ctrl_release_loose) x.ctrls _).bind fun _ s₂ hs₂ => ?_
  have hs₂ : loose s₂ = (loose s + blks [x.blk]) + blks [x.ctrls_blk] := by
    have hfree : loose s₂ = loose s₁ + blks x.blocks := hs₂.trans (loose_group_free hx₁)
    rw [hfree, hs₁, BafsGroup.blocks, blks_pair, add_assoc]
  refine (kfree_loose hs₂).bind fun _ s₃ hs₃ => ?_
  unfold put_core_device cdev_del bafs_put_minor_number
  rw [wp_bind, wp_modify, wp_bind, wp_modify, wp_bind, wp_modify, wp_bind, wp_modify]
  exact kfree_loose hs₃

theorem bafs_put_group_loose : Preserves (fun _ => True) (bafs_put_group g) loose :=
  Preserves.bind debug_group_loose fun _ => Preserves.bind load_preserves fun _ =>
    Preserves.bind (group_upd_loose fun _ => rfl) fun _ =>
      Preserves.ite (Preserves.bind __bafs_group_release_loose fun _ => debug_group_loose)
        debug_group_loose

end Groups

/-! ## The creation of groups -/

section Creation

variable {env : GroupAllocEnv} {dblk gblk cblk : BlockId}

theorem find_ctrl_devices_loose (names : List Name) :
    Preserves (fun _ => True) (find_ctrl_devices names) loose := by
  refine Preserves.iterate (fun name devs => ?_) _ _
  refine Preserves.bind (device_find_child_by_name_loose name) fun r => ?_
  cases r with
  | none => exact Preserves.pure _
  | some d =>
    exact Preserves.bind load_preserves fun _ => Preserves.ite (Preserves.pure _) (Preserves.pure _)

theorem get_ctrls_loose (devs : List DeviceId) :
    Preserves (fun _ => True) (get_ctrls devs) loose := by
  refine Preserves.iterate (fun d ctrls => ?_) _ _
  refine Preserves.bind load_preserves fun x => ?_
  cases x.drvdata with
  | none => exact Preserves.pure _
  | some data =>
    cases data with
    | group g => exact Preserves.throw trivial
    | ctrl c => exact Preserves.bind bafs_get_ctrl_loose fun _ => Preserves.pure _

theorem out_put_devices_loose {devs : List DeviceId}
    (hP : loose s = P + blks [gblk] + blks [dblk]) :
    wp (out_put_devices devs dblk gblk) (fun _ => True) (fun _ s' => loose s' = P) s := by
  refine (Preserves.each (f := loose) (put_device_keeps fun _ _ => rfl) _ s).bind fun _ s₁ hs₁ => ?_
  unfold put_core_device
  rw [wp_bind, wp_modify]
  exact wp.bind (kfree_loose (by exact hs₁.trans hP)) fun _ _ hs₂ => kfree_loose hs₂

theorem out_free_ctrls_loose {ctrls : List CtrlId} {devs : List DeviceId}
    (hP : loose s = P + blks [gblk] + blks [dblk] + blks [cblk]) :
    wp (out_free_ctrls ctrls cblk devs dblk gblk) (fun _ => True) (fun _ s' => loose s' = P) s := by
  refine (Preserves.each (fun _ => bafs_ctrl_release_loose) _ s).bind fun _ s₁ hs₁ => ?_
  exact (kfree_loose (hs₁.trans hP)).bind fun _ _ hs₂ => out_put_devices_loose hs₂

theorem group_add_loose {ctrls : List CtrlId} {devs : List DeviceId}
    (hP : loose s = P + blks [gblk] + blks [dblk] + blks [cblk]) :
    wp (group_add ctrls cblk devs dblk gblk env) (fun _ => True) (fun _ s' => loose s' = P) s := by
  have hout : ∀ {t : State} {e : Errno}, loose t = P + blks [gblk] + blks [dblk] + blks [cblk] →
      wp (do out_free_ctrls ctrls cblk devs dblk gblk; pure (e.ret, (none : Option GroupId)))
        (fun _ => True) (fun _ t' => loose t' = P) t :=
    fun ht => (out_free_ctrls_loose ht).bind fun _ _ ht' => ht'
  unfold group_add
  rw [wp_bind, wp_get]
  cases ida_simple_get s.bafs_group_ida env.group_id with
  | error e => exact hout hP
  | ok group_id =>
    dsimp only
    rw [wp_bind, wp_modify]
    refine (bafs_get_minor_number_loose env.minor _).bind fun r s₁ hs₁ => ?_
    have hs₁ : loose s₁ = P + blks [gblk] + blks [dblk] + blks [cblk] := hs₁.trans hP
    cases r with
    | error e =>
      dsimp only
      rw [wp_bind, wp_modify]
      exact hout hs₁
    | ok minor =>
      unfold bafs_put_minor_number cdev_add cdev_del
      cases env.cdev_add with
      | some e =>
        dsimp only
        rw [wp_bind, wp_modify, wp_bind, wp_modify]
        exact hout hs₁
      | none =>
        dsimp only
        rw [wp_bind, wp_modify]
        cases env.device_create with
        | some e =>
          dsimp only
          rw [wp_bind, wp_modify, wp_bind, wp_modify, wp_bind, wp_modify]
          exact hout hs₁
        | none =>
          dsimp only
          rw [wp_bind, wp_get]
          refine (device_create_loose _ _ _ _).bind fun device s₂ hs₂ => ?_
          rw [wp_bind, wp_modify]
          have hs₃ : loose { s₂ with groups := s₂.groups.alloc ⟨gblk, cblk, 1, group_id, minor, device,
              ctrls⟩ } = P + blks [dblk] := by
            refine add_right_cancel (b := blks [gblk, cblk]) (loose_group_alloc.trans ?_)
            rw [blks_pair, hs₂.trans hs₁]
            abel
          refine (Preserves.each (f := loose) (put_device_keeps fun _ _ => rfl) devs _).bind
            fun _ s₄ hs₄ => ?_
          exact (kfree_loose (hs₄.trans hs₃)).bind fun _ _ hs₅ => hs₅

theorem bafs_group_alloc_loose (names : List Name) :
    Preserves (fun _ => True) (bafs_group_alloc names env) loose := by
  intro s
  unfold bafs_group_alloc
  refine (kzalloc_loose rfl).bind fun r s₁ hs₁ => ?_
  cases r with
  | none => simpa using hs₁
  | some gblk =>
    refine (kzalloc_loose hs₁).bind fun r s₂ hs₂ => ?_
    cases r with
    | none =>
      refine (kfree_loose (P := loose s) (b := gblk) ?_).bind fun _ _ hs₃ => hs₃
      simpa using hs₂
    | some dblk =>
      unfold get_core_device
      dsimp only
      rw [wp_bind, wp_modify]
      refine (find_ctrl_devices_loose names _).bind fun r s₃ hs₃ => ?_
      have hs₃ : loose s₃ = loose s + blks [gblk] + blks [dblk] := hs₃.trans hs₂
      obtain ⟨devs, fail⟩ := r
      cases fail with
      | some ret => exact (out_put_devices_loose hs₃).bind fun _ _ hs₄ => hs₄
      | none =>
        refine (kzalloc_loose hs₃).bind fun r s₄ hs₄ => ?_
        cases r with
        | none =>
          refine (out_put_devices_loose (P := loose s) ?_).bind fun _ _ hs₅ => hs₅
          simpa using hs₄
        | some cblk =>
          refine (get_ctrls_loose devs s₄).bind fun r s₅ hs₅ => ?_
          obtain ⟨held, fail⟩ := r
          cases fail with
          | some ret => exact (out_free_ctrls_loose (hs₅.trans hs₄)).bind fun _ _ hs₆ => hs₆
          | none => exact group_add_loose (hs₅.trans hs₄)

theorem copy_names_loose (src : Nat → Option Name) (n : Nat) :
    Preserves (fun _ => True) (copy_names src n) loose := by
  refine Preserves.iterate (fun i names => ?_) _ _
  exact Preserves.ite (Preserves.pure _) (Preserves.ite (Preserves.pure _) (Preserves.pure _))

/-- A create request frees every block that it has taken, but those of the group that it makes. -/
theorem bafs_core_create_group_loose (params : BAFS_CORE_IOC_CREATE_GROUP_PARAMS)
    (env : CreateGroupEnv) :
    Preserves (fun _ => True) (bafs_core_create_group params env) loose := by
  intro s
  unfold bafs_core_create_group
  refine wp_ite (fun _ => rfl) fun _ => ?_
  refine (kzalloc_loose rfl).bind fun r s₁ hs₁ => ?_
  cases r with
  | none => simpa using hs₁
  | some blk =>
    have hgive : ∀ {t : State} {ret : Int}, loose t = loose s + blks [blk] →
        wp (do kfree blk; pure ret) (fun _ => True) (fun _ t' => loose t' = loose s) t :=
      fun ht => (kfree_loose ht).bind fun _ _ ht' => ht'
    refine (copy_names_loose _ _ s₁).bind fun r s₂ hs₂ => ?_
    have hs₂ : loose s₂ = loose s + blks [blk] := hs₂.trans hs₁
    obtain ⟨names, fail⟩ := r
    cases fail with
    | some ret => exact hgive hs₂
    | none =>
      refine (bafs_group_alloc_loose names s₂).bind fun r s₃ hs₃ => ?_
      have hs₃ : loose s₃ = loose s + blks [blk] := hs₃.trans hs₂
      obtain ⟨ret, o⟩ := r
      cases o with
      | none => exact hgive hs₃
      | some g =>
        have hput : ∀ {t : State} {ret : Int}, loose t = loose s + blks [blk] →
            wp (do bafs_put_group g; kfree blk; pure ret) (fun _ => True)
              (fun _ t' => loose t' = loose s) t :=
          fun ht => (bafs_put_group_loose _).bind fun _ _ ht' => hgive (ht'.trans ht)
        dsimp only
        rw [wp_bind]
        refine wp_load_of (fun _ => trivial) fun x hx => ?_
        rw [wp_bind]
        refine wp_load_of (fun _ => trivial) fun device hdev => ?_
        refine wp_ite (fun _ => hput hs₃) fun _ => ?_
        refine (copy_to_user_loose _ _ _ _ s₃).bind fun left s₄ hs₄ => ?_
        refine wp_ite (fun _ => hput (hs₄.trans hs₃)) fun _ => ?_
        refine (kfree_loose (hs₄.trans hs₃)).bind fun _ s₅ hs₅ => ?_
        rw [wp_bind, wp_modify]
        exact hs₅

theorem bafs_core_delete_group_loose (params : BAFS_CORE_IOC_DELETE_GROUP_PARAMS) (ok : Bool) :
    Preserves (fun _ => True) (bafs_core_delete_group params ok) loose := by
  refine Preserves.ite (Preserves.pure _) ?_
  refine Preserves.ite (Preserves.pure _) (Preserves.ite (Preserves.pure _) ?_)
  refine Preserves.bind (device_find_child_by_name_loose _) fun r => ?_
  cases r with
  | none => exact Preserves.pure _
  | some d =>
    refine Preserves.bind load_preserves fun x => ?_
    have hput := put_device_keeps (f := loose) (fun _ _ => rfl) d
    cases x.drvdata with
    | none => exact Preserves.bind hput fun _ => Preserves.pure _
    | some data =>
      cases data with
      | ctrl c => exact Preserves.bind hput fun _ => Preserves.throw trivial
      | group g =>
        exact Preserves.bind hput fun _ => Preserves.bind (modify_loose fun _ => rfl) fun _ =>
          Preserves.bind bafs_put_group_loose fun _ => Preserves.pure _

end Creation

/-! ## Blocks may get lost -/

/-- No block has been taken from where it was but into an object or to be freed: blocks that are loose
stay so. -/
def Loosened (s s' : State) : Prop := loose s ≤ loose s'

instance : IsPreorder State Loosened where
  refl s := le_refl (loose s)
  trans _ _ _ h h' := le_trans h h'

/-- The function takes no block that it did not get from the kernel. -/
abbrev Loosens {α : Type} (c : Drv α) : Prop := Evolves Loosened c

theorem loosens_of {α : Type} {c : Drv α} (hc : Preserves (fun _ => True) c loose) :
    Loosens c := fun s => wp_mono (hc s) fun _ _ hs => hs.ge

theorem kfree_le (hP : P + blks [b] ≤ loose s) :
    wp (kfree b) E (fun _ s' => P ≤ loose s') s :=
  le_of_add_le_add_right (hP.trans loose_kfree.ge)

theorem load_loosens {α : Type} {H : State → Heap α} {e : Fault} {i : Nat} : Loosens (load H e i) :=
  loosens_of load_preserves

/-! ## Registrations -/

section Registrations

variable {m : MemId} {c : CtxId} {x : BafsMem}

/-- The page table of a registration with its pages. -/
def BafsMem.table_loans (x : BafsMem) : Loan → ℤ :=
  blks (x.cpu_page_table.map (·.1)).toList + pgs x.table_pages

theorem BafsMem.loans_eq : x.loans = blks [x.blk] + x.table_loans := by
  rw [BafsMem.loans, BafsMem.table_loans, ← add_assoc]
  exact congrArg (· + _) blks_cons

theorem table_loans_none (hx : x.cpu_page_table = none) : x.table_loans = 0 := by
  rw [BafsMem.table_loans, BafsMem.table_pages, hx]
  simp

theorem table_loans_some {blk : BlockId} {table : List PageId}
    (hx : x.cpu_page_table = some (blk, table)) : x.table_loans = blks [blk] + pgs table := by
  rw [BafsMem.table_loans, BafsMem.table_pages, hx]
  rfl

theorem table_loans_nonneg : 0 ≤ x.table_loans := add_nonneg blks_nonneg pgs_nonneg

theorem mem_upd_loose {f : BafsMem → BafsMem} (hf : ∀ x, (f x).loans = x.loans) :
    Preserves (fun _ => True) (mem_upd m f) loose := by
  intro s
  unfold mem_upd
  rw [wp_bind]
  refine wp_load_of (fun _ => trivial) fun x hx => ?_
  refine add_right_cancel (b := x.loans) ?_
  have hset := loose_mem_set hx (f x)
  rw [hf x] at hset
  exact hset

theorem mem_kref_get_loose : Preserves (fun _ => True) (mem_kref_get m) loose :=
  mem_upd_loose fun _ => rfl

theorem set_state_loose (st : STATE) : Preserves (fun _ => True) (set_state m st) loose :=
  Preserves.bind load_preserves fun _ => Preserves.bind (modify_loose fun _ => rfl) fun _ =>
    mem_upd_loose fun _ => rfl

theorem unlink_mem_loose : Preserves (fun _ => True) (unlink_mem m x) loose :=
  ctx_upd_loose fun _ => rfl

/-- The loop of the release frees the first pages of the table. -/
theorem free_pages_exact {table : List PageId} {n : Nat}
    (hn : table.length < n → E .out_of_bounds) : wp (free_pages table n) E
    (fun _ s' => s' = { s with pages := (table.take n).foldl Heap.free s.pages }) s := by
  unfold free_pages
  induction n with
  | zero => rfl
  | succ n ih =>
    rw [List.range_succ, each_append]
    refine (ih fun hlt => hn (Nat.lt_succ_of_lt hlt)).bind fun _ s₁ hs₁ => ?_
    subst hs₁
    unfold each
    cases hp : table[n]? with
    | none => exact hn (Nat.lt_succ_of_le (List.getElem?_eq_none_iff.mp hp))
    | some p =>
      rw [List.take_add_one, hp, List.foldl_append]
      rfl

/-- The page table may be freed while the registration still has it. -/
theorem release_pages_loose :
    wp (release_pages x) (fun _ => True) (fun _ s' => loose s ≤ loose s' + x.table_loans) s := by
  have hkeep : ∀ {t : State}, loose t = loose s → loose s ≤ loose t + x.table_loans :=
    fun ht => ht.ge.trans (le_add_of_nonneg_right table_loans_nonneg)
  unfold release_pages
  refine wp_ite (fun _ => ?_) fun _ => wp_ite (fun _ => ?_) fun _ => hkeep rfl
  · cases hp : x.cpu_page_table with
    | none => exact hkeep rfl
    | some p =>
      obtain ⟨blk, table⟩ := p
      refine (free_pages_exact fun _ => trivial).bind fun _ s₁ hs₁ => ?_
      subst hs₁
      have htake : pgs (table.take x.n_pages) ≤ pgs table := by
        conv_rhs => rw [← List.take_append_drop x.n_pages table, pgs_append]
        exact le_add_of_nonneg_right pgs_nonneg
      unfold kfree
      rw [wp_modify, table_loans_some hp, ← add_assoc]
      exact (loose_free_pages (l := table.take x.n_pages)).ge.trans (add_le_add loose_kfree.ge htake)
  · cases x.cuda_page_table with
    | none => exact hkeep rfl
    | some t =>
      refine wp_ite (fun _ => ?_) fun _ => hkeep rfl
      refine (nvidia_p2p_put_pages_loose t s).bind fun _ s₁ hs₁ => ?_
      exact hkeep hs₁

/-- A registration is given up and its block freed; its page table may be lost. -/
theorem drop_mem_loose {x' : BafsMem} (hx : s.mems.get m = some x') (hb : x'.loans = x.loans)
    (hP : P ≤ loose s + x.table_loans) :
    wp (do drop_mem m; kfree x.blk; bafs_put_ctx c) (fun _ => True) (fun _ s' => P ≤ loose s') s := by
  unfold drop_mem
  rw [wp_bind, wp_modify, wp_bind]
  have hfree : P + blks [x.blk] ≤ loose { s with mems := s.mems.free m, mem_log := m :: s.mem_log } := by
    refine le_trans ?_ (loose_mem_free hx).ge
    rw [hb, BafsMem.loans_eq, add_left_comm, add_comm P]
    exact add_le_add_right hP _
  refine wp_mono (kfree_le hfree) fun _ s₁ hs₁ => ?_
  exact wp_mono (bafs_put_ctx_loose s₁) fun _ s₂ hs₂ => hs₁.trans hs₂.ge

theorem unlink_mem_keeps : Preserves (fun _ => True) (unlink_mem m x) State.mems :=
  Preserves.bind load_preserves fun _ => Preserves.modify fun _ => rfl

theorem quiet_mems : Quiet State.mems := by constructor <;> intros <;> rfl

theorem silent_mems : Silent State.mems := by
  constructor
  · exact quiet_mems
  · intros
    rfl

theorem release_pages_keeps : Preserves (fun _ => True) (release_pages x) State.mems := by
  refine Preserves.ite ?_ (Preserves.ite ?_ (Preserves.pure _))
  · cases x.cpu_page_table with
    | none => exact Preserves.pure _
    | some p =>
      exact Preserves.bind (free_pages_quiet quiet_mems fun _ => trivial) fun _ =>
        kfree_quiet quiet_mems _
  · cases x.cuda_page_table with
    | none => exact Preserves.pure _
    | some t =>
      exact Preserves.ite (Preserves.bind (nvidia_p2p_put_pages_silent silent_mems t) fun _ =>
        emit_quiet quiet_mems _) (Preserves.pure _)

theorem __bafs_mem_release_loosens : Loosens (__bafs_mem_release m) := by
  intro s
  unfold __bafs_mem_release
  rw [wp_bind]
  refine wp_load_of (fun _ => trivial) fun x hx => ?_
  refine (wp_and (unlink_mem_loose s) (unlink_mem_keeps s)).bind fun _ s₁ hs₁ => ?_
  obtain ⟨hs₁, hmems⟩ := hs₁
  have hx₁ : s₁.mems.get m = some x := by rw [hmems, hx]
  refine wp_ite (fun _ => ?_) fun _ => ?_
  · refine (wp_and (release_pages_loose (s := s₁)) (release_pages_keeps s₁)).bind fun _ s₂ hs₂ => ?_
    obtain ⟨hs₂, hmems₂⟩ := hs₂
    have hx₂ : s₂.mems.get m = some x := by rw [hmems₂, hx₁]
    have hset : wp (set_state m .DEAD) (fun _ => True) (fun _ s₃ => loose s₃ = loose s₂ ∧
        s₃.mems.get m = some { x with state := .DEAD }) s₂ := by
      have hget : wp (set_state m .DEAD) (fun _ => True)
          (fun _ s₃ => s₃.mems.get m = some { x with state := .DEAD }) s₂ := by
        unfold set_state
        rw [wp_bind, wp_mem_at hx₂, wp_bind, wp_modify]
        exact (wp_mem_upd (by exact hx₂)).mpr (Heap.get_set_self hx₂)
      exact wp_and (set_state_loose .DEAD s₂) hget
    refine hset.bind fun _ s₃ hs₃ => ?_
    obtain ⟨hs₃, hx₃⟩ := hs₃
    refine drop_mem_loose hx₃ rfl ?_
    rw [hs₃, ← hs₁]
    exact hs₂
  · refine drop_mem_loose hx₁ rfl ?_
    rw [hs₁]
    exact le_add_of_nonneg_right table_loans_nonneg

theorem bafs_mem_put_loosens : Loosens (bafs_mem_put m) :=
  .bind load_loosens fun _ => .bind (loosens_of (mem_upd_loose fun _ => rfl)) fun _ =>
    .ite __bafs_mem_release_loosens (.pure _)

theorem publish_mem_loose {y : BafsMem} (hP : loose s = P + y.loans) :
    wp (publish_mem c y) (fun _ => True) (fun m s' => loose s' = P ∧ s'.mems.get m = some y) s := by
  unfold publish_mem
  rw [wp_bind, wp_get, wp_bind, wp_modify]
  unfold ctx_upd
  rw [wp_bind, wp_bind]
  refine wp_load_of (fun _ => trivial) fun z hz => ⟨?_, ?_⟩
  · refine Eq.trans (loose_ctx_set hz ?_) (add_right_cancel (loose_mem_alloc.trans hP))
    rfl
  · show (s.mems.alloc y).get s.mems.next = some y
    rw [Heap.get_alloc, if_pos rfl]

theorem new_mem_loans {blk : BlockId} {i size loc : Nat} :
    (new_mem blk c i size loc).loans = blks [blk] := by
  rw [BafsMem.loans_eq, table_loans_none rfl, add_zero]
  rfl

theorem bafs_core_reg_mem_loose (argp : Nat) (params : BAFS_IOC_REG_MEM_PARAMS) (env : RegMemEnv) :
    Preserves (fun _ => True) (bafs_core_reg_mem argp params c env) loose := by
  intro s
  unfold bafs_core_reg_mem
  refine wp_ite (fun _ => rfl) fun _ => ?_
  refine (kzalloc_loose rfl).bind fun r s₁ hs₁ => ?_
  cases r with
  | none => simpa using hs₁
  | some blk =>
    refine (ctx_kref_get_loose s₁).bind fun _ s₂ hs₂ => ?_
    have hs₂ : loose s₂ = loose s + blks [blk] := hs₂.trans hs₁
    rw [wp_bind]
    refine wp_load_of (fun _ => trivial) fun y hy => ?_
    cases xa_alloc y.bafs_mem_xa env.xa_alloc with
    | none =>
      refine (bafs_put_ctx_loose s₂).bind fun _ s₃ hs₃ => ?_
      exact (kfree_loose (hs₃.trans hs₂)).bind fun _ _ hs₄ => hs₄
    | some mem_id =>
      rw [← new_mem_loans (c := c) (i := mem_id)] at hs₂
      refine (publish_mem_loose hs₂).bind fun m s₃ hs₃ => ?_
      obtain ⟨hs₃, hm⟩ := hs₃
      unfold copy_to_user emit
      dsimp only
      rw [wp_bind, wp_bind, wp_modify]
      refine wp_ite (fun _ => ?_) fun _ => hs₃
      rw [wp_bind, wp_mem_at (by exact hm)]
      refine (wp_and (unlink_mem_loose _) (unlink_mem_keeps _)).bind fun _ s₅ hs₅ => ?_
      obtain ⟨hs₅, hmems₅⟩ := hs₅
      have hm₅ := (congrArg (Heap.get · m) hmems₅).trans hm
      unfold drop_mem
      rw [wp_bind, wp_modify]
      have hfree : loose { s₅ with mems := s₅.mems.free m } = loose s + blks [blk] :=
        (loose_mem_free hm₅).trans (congrArg₂ (· + ·) (hs₅.trans hs₃) new_mem_loans)
      refine (bafs_put_ctx_loose _).bind fun _ s₆ hs₆ => ?_
      exact (kfree_loose (hs₆.trans hfree)).bind fun _ _ hs₇ => hs₇

end Registrations

/-! ## DMA mappings -/

section DmaMappings

variable {m : MemId} {d : DmaId} {c : CtrlId} {ctx : CtxId} {x : BafsMem} {y : BafsMemDma}

/-- The block of the addresses of a DMA mapping. -/
def BafsMemDma.addr_blks (y : BafsMemDma) : List BlockId := (y.addrs.map (·.1)).toList

theorem BafsMemDma.blocks_eq : blks y.blocks = blks [y.blk] + blks y.addr_blks := blks_cons

theorem unmap_addrs_loose (addrs : List Nat) (n_pages map_gran size : Nat) :
    Preserves (fun _ => True) (unmap_addrs c addrs n_pages map_gran size) loose := by
  refine Preserves.each (fun i => ?_) _
  cases addrs[i]? with
  | none => exact emit_loose _
  | some addr => exact emit_loose _

/-- The addresses may be freed while the mapping still has them. -/
theorem undo_mapping_loose :
    wp (undo_mapping y x) (fun _ => True) (fun _ s' => loose s ≤ loose s' + blks y.addr_blks) s := by
  have hkeep : ∀ {t : State}, loose t = loose s → loose s ≤ loose t + blks y.addr_blks :=
    fun ht => ht.ge.trans (le_add_of_nonneg_right blks_nonneg)
  unfold undo_mapping
  refine wp_ite (fun _ => ?_) fun _ => wp_ite (fun _ => ?_) fun _ => hkeep rfl
  · cases hp : y.addrs with
    | none => exact hkeep rfl
    | some p =>
      obtain ⟨blk, addrs⟩ := p
      refine (unmap_addrs_loose addrs _ _ _ s).bind fun _ s₁ hs₁ => ?_
      have haddr : y.addr_blks = [blk] := by rw [BafsMemDma.addr_blks, hp]; rfl
      rw [haddr]
      exact (loose_kfree.trans hs₁).ge
  · cases y.cuda_mapping with
    | none => exact hkeep rfl
    | some p => exact wp_ite (fun _ => hkeep rfl) fun _ => hkeep rfl

theorem quiet_dmas : Quiet State.dmas := by constructor <;> intros <;> rfl

theorem unmap_dma_loosens : Loosens (unmap_dma d) := by
  intro s
  unfold unmap_dma
  rw [wp_bind]
  refine wp_load_of (fun _ => trivial) fun y hy => ?_
  rw [wp_bind]
  refine wp_load_of (fun _ => trivial) fun x hx => ?_
  rw [wp_bind]
  refine (wp_mem_upd (by exact hx)).mpr ?_
  have hs₁ : loose { s with mems := s.mems.set y.mem { x with dma_list := x.dma_list.erase d } } =
      loose s := add_right_cancel (b := x.loans) (loose_mem_set hx _)
  refine (wp_and undo_mapping_loose
    (undo_mapping_quiet (E := fun _ => True) quiet_dmas y x _)).bind fun _ s₂ hs₂ => ?_
  obtain ⟨hs₂, hdmas⟩ := hs₂
  have hy₂ : s₂.dmas.get d = some y := (congrArg (Heap.get · d) hdmas).trans hy
  rw [wp_bind, wp_modify]
  have hfree : loose s + blks [y.blk] ≤ loose { s₂ with dmas := s₂.dmas.free d } := by
    refine le_trans ?_ (loose_dma_free hy₂).ge
    rw [BafsMemDma.blocks_eq, add_left_comm, add_comm (loose s), ← hs₁]
    exact add_le_add_right hs₂ _
  refine (kfree_le hfree).bind fun _ s₃ hs₃ => ?_
  exact wp_mono (bafs_ctrl_release_loose s₃) fun _ s₄ hs₄ => hs₃.trans hs₄.ge

theorem bafs_ctrl_dma_unmap_mem_loosens : Loosens (bafs_ctrl_dma_unmap_mem d) :=
  .bind load_loosens fun _ => .bind unmap_dma_loosens fun _ => bafs_mem_put_loosens

theorem bafs_mem_release_loosens (w : Vma) : Loosens (bafs_mem_release w) := by
  unfold bafs_mem_release
  cases w.vm_private_data with
  | none => exact .pure _
  | some m =>
    refine .bind load_loosens fun x => .bind (loosens_of ctx_kref_get_loose) fun _ => ?_
    refine .bind (.each (fun d => .bind unmap_dma_loosens fun _ => bafs_mem_put_loosens) _) fun _ => ?_
    exact .bind bafs_mem_put_loosens fun _ => loosens_of bafs_put_ctx_loose

theorem release_bafs_cuda_mem_loosens : Loosens (release_bafs_cuda_mem m) := by
  refine .bind load_loosens fun x => .ite ?_ (.pure _)
  refine .bind (.each (fun d s => ?_) _) fun _ => .bind (loosens_of (set_state_loose _)) fun _ =>
    .bind (loosens_of (emit_loose _)) fun _ => loosens_of (mem_upd_loose fun _ => rfl)
  rw [wp_bind]
  refine wp_load_of (fun _ => trivial) fun y hy => ?_
  cases y.cuda_mapping with
  | none => exact le_refl (loose s)
  | some p =>
    unfold emit
    rw [wp_bind, wp_modify, wp_modify]
    refine Eq.ge (loose_dma_set (y := y) hy ?_)
    rfl

theorem find_mem_loosens {vaddr : Nat} (l : List MemId) : Loosens (find_mem vaddr l) := by
  induction l with
  | nil => exact .pure _
  | cons m rest ih =>
    refine .bind (loosens_of mem_kref_get_loose) fun _ => .bind load_loosens fun x => ?_
    exact .ite (.pure _) (.bind bafs_mem_put_loosens fun _ => ih)

theorem bafs_get_mem_with_ctx_loosens {vaddr : Nat} : Loosens (bafs_get_mem_with_ctx vaddr ctx) :=
  .bind (loosens_of ctx_kref_get_loose) fun _ => .bind load_loosens fun _ =>
    .bind (find_mem_loosens _) fun _ => .bind (loosens_of bafs_put_ctx_loose) fun _ => .pure _

theorem map_addrs_loose {map_gran : Nat} {answer : Nat → Option Nat} :
    Preserves (fun _ => True) (map_addrs c x map_gran answer) loose := by
  refine Preserves.iterate (fun i addrs => ?_) _ _
  cases x.cpu_page_table with
  | none => exact Preserves.throw trivial
  | some p =>
    obtain ⟨blk, table⟩ := p
    dsimp only
    cases table[i]? with
    | none => exact Preserves.throw trivial
    | some p =>
      refine Preserves.bind ?_ fun r => ?_
      · unfold dma_map_single
        cases answer i with
        | none => exact Preserves.pure _
        | some addr => exact Preserves.bind (emit_loose _) fun _ => Preserves.pure _
      · cases r with
        | none => exact Preserves.pure _
        | some addr => exact Preserves.pure _

theorem unmap_back_loose {addrs : List Nat} {map_gran : Nat} :
    Preserves (fun _ => True) (unmap_back c addrs map_gran) loose :=
  Preserves.each (fun _ => emit_loose _) _

theorem publish_dma_loose (hP : loose s = P + blks y.blocks) :
    wp (publish_dma y) (fun _ => True) (fun _ s' => loose s' = P) s := by
  unfold publish_dma
  rw [wp_bind, wp_get, wp_bind, wp_modify]
  refine wp.bind (mem_upd_loose (fun _ => ?_) _) fun _ s₁ hs₁ => ?_
  · rfl
  · exact hs₁.trans (add_right_cancel (loose_dma_alloc.trans hP))

theorem delete_dma_le (hP : P + blks [b] ≤ loose s) :
    wp (delete_dma b c m) (fun _ => True) (fun _ s' => P ≤ loose s') s := by
  refine (kfree_le hP).bind fun _ s₁ hs₁ => ?_
  refine (bafs_ctrl_release_loose s₁).bind fun _ s₂ hs₂ => ?_
  exact wp_mono (bafs_mem_put_loosens s₂) fun _ s₃ hs₃ => (hs₁.trans hs₂.ge).trans hs₃

theorem dma_map_cpu_le {n user id : Nat} {env : DmaMapEnv} (hP : loose s = P + blks [b]) :
    wp (dma_map_cpu c m x b n user id env) (fun _ => True) (fun _ s' => P ≤ loose s') s := by
  unfold dma_map_cpu
  refine (kzalloc_loose hP).bind fun r s₁ hs₁ => ?_
  cases r with
  | none =>
    refine (delete_dma_le (P := P) (b := b) ?_).bind fun _ _ hs₂ => hs₂
    rw [hs₁]
    simp
  | some ablk =>
    have hfail : ∀ {t : State} {r : Int × Nat × Option DmaId}, loose t = P + blks [b] + blks [ablk] →
        wp (do delete_dma b c m; pure r) (fun _ => True) (fun _ t' => P ≤ loose t') t :=
      fun ht => (delete_dma_le (ht ▸ le_add_of_nonneg_right blks_nonneg)).bind fun _ _ ht' => ht'
    refine (map_addrs_loose s₁).bind fun r s₂ hs₂ => ?_
    have hs₂ : loose s₂ = P + blks [b] + blks [ablk] := hs₂.trans hs₁
    obtain ⟨mapped, fail⟩ := r
    cases fail with
    | some ret => exact (unmap_back_loose s₂).bind fun _ s₃ hs₃ => hfail (hs₃.trans hs₂)
    | none =>
      refine (copy_to_user_loose _ _ _ _ s₂).bind fun left s₃ hs₃ => ?_
      have hs₃ : loose s₃ = P + blks [b] + blks [ablk] := hs₃.trans hs₂
      refine wp_ite (fun _ => ?_) fun _ => ?_
      · exact (unmap_back_loose s₃).bind fun _ s₄ hs₄ => hfail (hs₄.trans hs₃)
      · refine wp.bind (publish_dma_loose (P := P) ?_) fun _ _ hs₄ => hs₄.ge
        rw [hs₃, add_assoc, ← blks_cons]
        rfl

theorem dma_map_cuda_le {n user id : Nat} {env : DmaMapEnv} (hP : loose s = P + blks [b]) :
    wp (dma_map_cuda c m x b n user id env) (fun _ => True) (fun _ s' => P ≤ loose s') s := by
  unfold dma_map_cuda
  refine (nvidia_p2p_dma_map_pages_loose c _ _ s).bind fun r s₁ hs₁ => ?_
  have hs₁ : loose s₁ = P + blks [b] := hs₁.trans hP
  cases r with
  | error ret => exact (delete_dma_le hs₁.ge).bind fun _ _ hs₂ => hs₂
  | ok p =>
    dsimp only
    rw [wp_bind, wp_get]
    refine (copy_to_user_loose _ _ _ _ s₁).bind fun left s₂ hs₂ => ?_
    have hs₂ : loose s₂ = P + blks [b] := hs₂.trans hs₁
    refine wp_ite (fun _ => ?_) fun _ => ?_
    · refine (emit_loose _ s₂).bind fun _ s₃ hs₃ => ?_
      exact (delete_dma_le (hs₃.trans hs₂).ge).bind fun _ _ hs₄ => hs₄
    · exact wp.bind (publish_dma_loose (P := P) (by exact hs₂)) fun _ _ hs₃ => hs₃.ge

theorem bafs_ctrl_dma_map_mem_loosens {vaddr n user id : Nat} {env : DmaMapEnv} :
    Loosens (bafs_ctrl_dma_map_mem c ctx vaddr n user id env) := by
  refine .bind bafs_get_mem_with_ctx_loosens fun r => ?_
  cases r with
  | none => exact .pure _
  | some m =>
    intro s
    refine (kzalloc_loose rfl).bind fun r s₁ hs₁ => ?_
    cases r with
    | none =>
      refine (bafs_mem_put_loosens s₁).bind fun _ s₂ hs₂ => ?_
      exact le_trans (by simpa using hs₁.ge) hs₂
    | some blk =>
      refine (bafs_get_ctrl_loose s₁).bind fun _ s₂ hs₂ => ?_
      have hs₂ : loose s₂ = loose s + blks [blk] := hs₂.trans hs₁
      rw [wp_bind]
      refine wp_load_of (fun _ => trivial) fun x hx => ?_
      refine wp_ite (fun _ => dma_map_cpu_le hs₂) fun _ => wp_ite (fun _ => dma_map_cuda_le hs₂) fun _ => ?_
      exact (delete_dma_le hs₂.ge).bind fun _ _ hs₃ => hs₃

end DmaMappings

/-! ## Pinning -/

section Pinning

variable {m : MemId} {c : CtxId} {x : BafsMem}

/-- The loop holds the pages that it has got so far. -/
theorem alloc_pages_loose {answer : Nat → Bool} {n : Nat} (hP : loose s = P) :
    wp (alloc_pages answer n) E (fun r s' => loose s' = P + pgs r.1) s := by
  unfold alloc_pages
  refine wp_iterate_range (fun _ pages s' => loose s' = P + pgs pages) (fun i pages s₁ _ hs₁ => ?_)
    (fun pages s₁ hs₁ => hs₁) ?_
  · refine (alloc_page_loose hs₁).bind fun r s₂ hs₂ => ?_
    cases r with
    | none =>
      show loose s₂ = P + pgs pages
      simpa using hs₂
    | some p =>
      show loose s₂ = P + pgs (pages ++ [p])
      rw [pgs_append, ← add_assoc]
      exact hs₂
  · rw [pgs_nil, add_zero]
    exact hP

/-- A registration gets another page table. -/
theorem loose_table_set {x' : BafsMem} (hx : s.mems.get m = some x) (hb : x'.blk = x.blk) :
    loose { s with mems := s.mems.set m x' } + x'.table_loans = loose s + x.table_loans := by
  have hset := loose_mem_set hx x'
  rw [BafsMem.loans_eq, BafsMem.loans_eq, hb, add_left_comm, add_left_comm (loose s)] at hset
  exact add_left_cancel hset

/-- A registration gets its table, and what it had is lost. -/
theorem loose_table_lost {x' : BafsMem} (hx : s.mems.get m = some x) (hb : x'.blk = x.blk)
    (hP : P + x'.table_loans ≤ loose s) : P ≤ loose { s with mems := s.mems.set m x' } := by
  have hset := loose_table_set hx hb
  refine le_of_add_le_add_right (a := x'.table_loans) ?_
  rw [hset]
  exact hP.trans (le_add_of_nonneg_right table_loans_nonneg)

/-- The new page table is freed with its pages while the registration has it. -/
theorem clean_page_table_loose {pages : List PageId} (hx : s.mems.get m = some x)
    (ht : x.cpu_page_table = some (b, pages)) :
    wp (clean_page_table m b pages) (fun _ => True) (fun _ s' => loose s' = loose s) s := by
  unfold clean_page_table
  refine free_each_exact.bind fun _ s₁ hs₁ => ?_
  have hloose : loose s₁ + pgs pages = loose s := by
    have hrev : pgs pages.reverse = pgs pages := by
      refine loan_ext (fun _ => rfl) fun p => ?_
      simp only [pgs, List.count_reverse]
    rw [hs₁, ← hrev]
    exact loose_free_pages
  have hx₁ : s₁.mems.get m = some x := hs₁ ▸ hx
  unfold kfree
  rw [wp_bind, wp_modify]
  refine (wp_mem_upd (by exact hx₁)).mpr ?_
  have hblk : BafsMem.blk { x with cpu_page_table := none } = x.blk := rfl
  have hset := loose_table_set (s := { s₁ with blocks := s₁.blocks.free b }) (m := m) hx₁ hblk
  rw [table_loans_none rfl, add_zero, table_loans_some ht, ← add_assoc, loose_kfree, hloose] at hset
  exact hset

theorem pin_bafs_cpu_mem_loosens (w : Vma) (env : PinEnv) : Loosens (pin_bafs_cpu_mem m w env) := by
  refine .bind (loosens_of (mem_upd_loose fun _ => rfl)) fun _ => ?_
  intro s
  rw [wp_bind]
  refine wp_load_of (fun _ => trivial) fun x hx => wp_ite (fun _ => le_refl (loose s)) fun _ => ?_
  refine (wp_and (kzalloc_loose (P := loose s) rfl) (kzalloc_quiet (E := fun _ => True) quiet_mems
    env.kcalloc s)).bind fun r s₁ hs₁ => ?_
  obtain ⟨hs₁, hmems₁⟩ := hs₁
  have hx₁ : s₁.mems.get m = some x := (congrArg (Heap.get · m) hmems₁).trans hx
  cases r with
  | none =>
    refine wp.bind ((wp_mem_upd hx₁).mpr ?_) fun _ _ hs₂ => hs₂
    refine loose_table_lost hx₁ rfl ?_
    rw [table_loans_none rfl, hs₁, Option.toList_none, blks_nil]
  | some blk =>
    refine (wp_and (alloc_pages_loose (E := fun _ => True) hs₁)
      (alloc_pages_quiet (E := fun _ => True) quiet_mems s₁)).bind fun r s₂ hs₂ => ?_
    obtain ⟨hs₂, hmems₂⟩ := hs₂
    obtain ⟨pages, fail⟩ := r
    have hx₂ : s₂.mems.get m = some x := (congrArg (Heap.get · m) hmems₂).trans hx₁
    refine wp.bind ((wp_mem_upd hx₂ (Q := fun _ s₃ => loose s ≤ loose s₃ ∧
      s₃.mems.get m = some { x with cpu_page_table := some (blk, pages) })).mpr ⟨?_, ?_⟩)
      fun _ s₃ hs₃ => ?_
    · refine loose_table_lost hx₂ rfl ?_
      rw [table_loans_some rfl, hs₂, add_assoc]
      exact le_rfl
    · exact Heap.get_set_self hx₂
    · obtain ⟨hs₃, hx₃⟩ := hs₃
      cases fail with
      | some ret =>
        exact (clean_page_table_loose hx₃ rfl).bind fun _ s₄ hs₄ => hs₃.trans hs₄.ge
      | none =>
        refine (wp_and (vm_map_pages_zero_loose w pages _ s₃) (vm_map_pages_zero_quiet
          (E := fun _ => True) quiet_mems w pages env.vm_map_pages_zero s₃)).bind fun r s₄ hs₄ => ?_
        obtain ⟨hs₄, hmems₄⟩ := hs₄
        have hx₄ := (congrArg (Heap.get · m) hmems₄).trans hx₃
        refine wp_ite (fun _ => ?_) fun _ => hs₃.trans hs₄.ge
        exact (clean_page_table_loose hx₄ rfl).bind fun _ s₅ hs₅ => hs₃.trans (hs₅.trans hs₄).ge

theorem pin_bafs_cuda_mem_loose (w : Vma) (env : PinEnv) :
    Preserves (fun _ => True) (pin_bafs_cuda_mem m w env) loose := by
  have hdelete : ∀ (t : TableId) (r : Vma × Int), Preserves (fun _ => True)
      (do delete_page_table m t; pure r) loose := fun t r =>
    Preserves.bind (Preserves.bind (nvidia_p2p_put_pages_loose t) fun _ => mem_upd_loose fun _ => rfl)
      fun _ => Preserves.pure _
  refine Preserves.bind (nvidia_p2p_get_pages_loose m _) fun r => ?_
  cases r with
  | error e => exact Preserves.pure _
  | ok t =>
    refine Preserves.bind (mem_upd_loose fun _ => rfl) fun _ => ?_
    cases env.nvidia_p2p_get_pages with
    | error e => exact Preserves.pure _
    | ok table =>
      refine Preserves.ite (hdelete t _) ?_
      cases cuda_page_size table.page_size with
      | none => exact hdelete t _
      | some p =>
        refine Preserves.bind (mem_upd_loose fun _ => rfl) fun _ => ?_
        refine Preserves.bind load_preserves fun x => Preserves.ite (hdelete t _) ?_
        refine Preserves.bind (mem_upd_loose fun _ => rfl) fun _ => ?_
        refine Preserves.bind load_preserves fun x => Preserves.ite (hdelete t _) ?_
        refine Preserves.bind ?_ fun r => ?_
        · refine Preserves.iterate (fun i w => ?_) _ _
          cases table.physical_address[i]? with
          | none => exact Preserves.throw trivial
          | some phys => exact Preserves.bind (io_remap_pfn_range_loose _ _ _ _ _ _) fun _ => Preserves.pure _
        · obtain ⟨w', o⟩ := r
          cases o with
          | some ret => exact hdelete t _
          | none => exact Preserves.pure _

theorem pin_bafs_mem_loosens (w : Vma) (env : PinEnv) : Loosens (pin_bafs_mem w c env) := by
  refine .bind (loosens_of ctx_kref_get_loose) fun _ => .bind load_loosens fun y =>
    .bind (loosens_of bafs_put_ctx_loose) fun _ => ?_
  cases pin_lookup y w.vm_pgoff with
  | none => exact .pure _
  | some m =>
    refine .bind (loosens_of mem_kref_get_loose) fun _ => .bind (loosens_of (mem_upd_loose fun _ => rfl))
      fun _ => .bind load_loosens fun x => .bind ?_ fun r => ?_
    · exact .ite (pin_bafs_cpu_mem_loosens w env)
        (.ite (loosens_of (pin_bafs_cuda_mem_loose w env)) (.pure _))
    · refine .ite (.bind bafs_mem_put_loosens fun _ => .pure _) ?_
      exact .bind (loosens_of (set_state_loose _)) fun _ => .bind bafs_mem_put_loosens fun _ => .pure _

end Pinning

/-! ## Requests -/

section Requests

variable {c : CtrlId} {ctx : CtxId} {g : GroupId}

theorem group_map_loop_loosens {vaddr dma_addrs : Nat} {env : Nat → DmaMapEnv}
    {ctrls : List (CtrlId × Nat)} {acc : GroupMapAcc} :
    Loosens (group_map_loop ctx vaddr dma_addrs env ctrls acc) := by
  refine .iterate (fun ci acc => .bind bafs_ctrl_dma_map_mem_loosens fun r => ?_) _ _
  obtain ⟨ret, n, o⟩ := r
  cases o with
  | none => exact .pure _
  | some d => exact .pure _

/-- The array of the group is lost unless it is freed in the end. -/
theorem unmap_mems_le {ds : List DmaId} (hP : P + blks [b] ≤ loose s) :
    wp (unmap_mems ds b) (fun _ => True) (fun _ s' => P ≤ loose s') s := by
  refine (Evolves.each (fun _ => bafs_ctrl_dma_unmap_mem_loosens) _ s).bind fun _ s₁ hs₁ => ?_
  exact kfree_le (le_trans hP hs₁)

theorem bafs_group_dma_map_mem_loosens {argp : Nat} {params : BAFS_IOC_DMA_MAP_MEM_PARAMS}
    {env : GroupDmaMapEnv} : Loosens (bafs_group_dma_map_mem argp params g ctx env) := by
  refine .ite (.pure _) (.bind load_loosens fun x s => ?_)
  refine (kzalloc_loose (P := loose s) rfl).bind fun r s₁ hs₁ => ?_
  cases r with
  | none => exact le_of_eq (by simpa using hs₁.symm)
  | some blk =>
    refine (group_map_loop_loosens s₁).bind fun r s₂ hs₂ => ?_
    have hs₂ : loose s + blks [blk] ≤ loose s₂ := le_trans hs₁.ge hs₂
    obtain ⟨acc, fail⟩ := r
    cases fail with
    | some ret => exact (unmap_mems_le hs₂).bind fun _ _ hs₃ => hs₃
    | none =>
      refine (copy_to_user_loose _ _ _ _ s₂).bind fun left s₃ hs₃ => ?_
      refine wp_ite (fun _ => ?_) fun _ => ?_
      · exact (unmap_mems_le (le_trans hs₂ hs₃.ge)).bind fun _ _ hs₄ => hs₄
      · exact (le_add_of_nonneg_right blks_nonneg).trans (hs₂.trans hs₃.ge)

theorem __bafs_ctrl_dma_map_mem_loosens {argp : Nat} {params : BAFS_IOC_DMA_MAP_MEM_PARAMS}
    {env : CtrlDmaMapEnv} : Loosens (__bafs_ctrl_dma_map_mem argp params c ctx env) := by
  refine .ite (.pure _) (.bind bafs_ctrl_dma_map_mem_loosens fun r => ?_)
  obtain ⟨ret, n, o⟩ := r
  cases o with
  | none => exact .pure _
  | some d =>
    exact .bind (loosens_of (copy_to_user_loose _ _ _ _)) fun _ =>
      .ite (.bind bafs_ctrl_dma_unmap_mem_loosens fun _ => .pure _) (.pure _)

theorem bafs_ctrl_open_loose (task : Task) (env : OpenEnv) :
    wp (bafs_ctrl_open c task env) (fun _ => True)
      (fun r s' => loose s' = loose s + blks (r.2.elim [] File.blocks)) s := by
  refine (bafs_get_ctrl_loose s).bind fun _ s₁ hs₁ => ?_
  refine (kzalloc_loose hs₁).bind fun r s₂ hs₂ => ?_
  cases r with
  | none => exact (bafs_ctrl_release_loose s₂).bind fun _ _ hs₃ => hs₃.trans hs₂
  | some blk =>
    refine (bafs_get_ctx_loose task env.ctx s₂).bind fun r s₃ hs₃ => ?_
    cases r with
    | none =>
      refine (kfree_loose (hs₃.trans hs₂)).bind fun _ s₄ hs₄ => ?_
      refine (bafs_ctrl_release_loose s₄).bind fun _ s₅ hs₅ => ?_
      simpa using hs₅.trans hs₄
    | some ctx => exact hs₃.trans hs₂

theorem bafs_group_open_loose (task : Task) (env : OpenEnv) :
    wp (bafs_group_open g task env) (fun _ => True)
      (fun r s' => loose s' = loose s + blks (r.2.elim [] File.blocks)) s := by
  refine (bafs_get_group_loose s).bind fun _ s₁ hs₁ => ?_
  refine (kzalloc_loose hs₁).bind fun r s₂ hs₂ => ?_
  cases r with
  | none => exact (bafs_put_group_loose s₂).bind fun _ _ hs₃ => hs₃.trans hs₂
  | some blk =>
    refine (bafs_get_ctx_loose task env.ctx s₂).bind fun r s₃ hs₃ => ?_
    cases r with
    | none =>
      refine (kfree_loose (hs₃.trans hs₂)).bind fun _ s₄ hs₄ => ?_
      refine (bafs_put_group_loose s₄).bind fun _ s₅ hs₅ => ?_
      simpa using hs₅.trans hs₄
    | some ctx => exact hs₃.trans hs₂

theorem add_file_loose {ret : Int} {o : Option File} (hP : loose s = P + blks (o.elim [] File.blocks)) :
    wp (add_file ret o) E (fun _ s' => loose s' = P) s := by
  unfold add_file
  cases o with
  | none => simpa using hP
  | some x =>
    rw [wp_bind, wp_modify]
    exact add_right_cancel (loose_file_alloc.trans hP)

theorem sweep_stale_loosens : Loosens (sweep_stale ctx) := by
  refine .bind load_loosens fun y => .each (fun m s => ?_) _
  rw [wp_bind]
  refine wp_load_of (fun _ => trivial) fun x hx => wp_ite (fun _ => ?_) fun _ => le_refl (loose s)
  refine (wp_and (unlink_mem_loose s) (unlink_mem_keeps s)).bind fun _ s₁ hs₁ => ?_
  obtain ⟨hs₁, hmems⟩ := hs₁
  have hx₁ : s₁.mems.get m = some x := (congrArg (Heap.get · m) hmems).trans hx
  refine drop_mem_loose hx₁ rfl ?_
  rw [hs₁]
  exact le_add_of_nonneg_right table_loans_nonneg

/-- The release function frees the private data of the file. -/
theorem release_file_le {x : File} (hP : P + blks x.blocks ≤ loose s) :
    wp (release_file x) (fun _ => True) (fun _ s' => P ≤ loose s') s := by
  cases x with
  | core c =>
    refine (sweep_stale_loosens s).bind fun _ s₁ hs₁ => ?_
    refine wp_mono (bafs_put_ctx_loose s₁) fun _ s₂ hs₂ => ?_
    exact le_trans (by simpa [File.blocks] using hP) (le_trans hs₁ hs₂.ge)
  | ctrl x =>
    refine (sweep_stale_loosens s).bind fun _ s₁ hs₁ => ?_
    refine (bafs_put_ctx_loose s₁).bind fun _ s₂ hs₂ => ?_
    refine (bafs_ctrl_release_loose s₂).bind fun _ s₃ hs₃ => ?_
    exact kfree_le (hP.trans (le_trans hs₁ (hs₃.trans hs₂).ge))
  | group x =>
    refine (sweep_stale_loosens s).bind fun _ s₁ hs₁ => ?_
    refine (bafs_put_ctx_loose s₁).bind fun _ s₂ hs₂ => ?_
    refine (bafs_put_group_loose s₂).bind fun _ s₃ hs₃ => ?_
    exact kfree_le (hP.trans (le_trans hs₁ (hs₃.trans hs₂).ge))

theorem ioctl_file_loosens (x : File) (cmd : Nat) (arg : IoctlArg) (env : IoctlEnv) :
    Loosens (ioctl_file x cmd arg env) := by
  cases x with
  | core c =>
    refine .ite (.pure _) (.ite ?_ (.ite ?_ (.ite ?_ (.pure _))))
    · exact .bind (loosens_of (bafs_core_reg_mem_loose _ _ _)) fun _ => .ite (.pure _) (.pure _)
    · exact .bind (loosens_of (bafs_core_create_group_loose _ _)) fun _ => .ite (.pure _) (.pure _)
    · exact .bind (loosens_of (bafs_core_delete_group_loose _ _)) fun _ => .ite (.pure _) (.pure _)
  | ctrl x =>
    have hput : ∀ r : IoctlReply, Loosens (do bafs_ctrl_release x.ctrl; pure r) := fun r =>
      .bind (loosens_of bafs_ctrl_release_loose) fun _ => .pure _
    refine .bind (loosens_of bafs_get_ctrl_loose) fun _ => ?_
    refine .ite (hput _) (.ite ?_ (.ite ?_ (hput _)))
    · exact .bind (loosens_of (bafs_core_reg_mem_loose _ _ _)) fun _ => .ite (.pure _) (hput _)
    · exact .bind __bafs_ctrl_dma_map_mem_loosens fun _ =>
        .bind (loosens_of bafs_ctrl_release_loose) fun _ => .ite (.pure _) (.pure _)
  | group x =>
    have hput : ∀ r : IoctlReply, Loosens (do bafs_put_group x.group; pure r) := fun r =>
      .bind (loosens_of bafs_put_group_loose) fun _ => .pure _
    refine .bind (loosens_of bafs_get_group_loose) fun _ => ?_
    refine .ite (hput _) (.ite ?_ (.ite ?_ (hput _)))
    · exact .bind (loosens_of (bafs_core_reg_mem_loose _ _ _)) fun _ => .ite (.pure _) (hput _)
    · exact .bind bafs_group_dma_map_mem_loosens fun _ =>
        .bind (loosens_of bafs_put_group_loose) fun _ => .ite (.pure _) (.pure _)

theorem bafs_ctrl_mmap_loosens {w : Vma} {vaddr : Nat} {fail : Option Errno} :
    Loosens (bafs_ctrl_mmap c w vaddr fail) :=
  .bind (loosens_of bafs_get_ctrl_loose) fun _ => .bind load_loosens fun _ =>
    .bind (loosens_of (io_remap_pfn_range_loose _ _ _ _ _ _)) fun _ =>
      .ite (.bind (loosens_of bafs_ctrl_release_loose) fun _ => .pure _) (.pure _)

theorem mmap_file_loosens (x : File) (w : Vma) (env : MmapEnv) : Loosens (mmap_file x w env) := by
  cases x with
  | core c => exact pin_bafs_mem_loosens w env.pin
  | ctrl x => exact .ite (.bind bafs_ctrl_mmap_loosens fun _ => .pure _) (pin_bafs_mem_loosens w env.pin)
  | group x =>
    refine .ite ?_ (.bind (pin_bafs_mem_loosens w env.pin) fun _ => .ite (.pure _) (.pure _))
    refine .bind (loosens_of bafs_get_group_loose) fun _ => .bind load_loosens fun y => ?_
    refine .bind (.iterate (fun ci acc => .bind bafs_ctrl_mmap_loosens fun _ =>
      .ite (.pure _) (.pure _)) _ _) fun r => ?_
    obtain ⟨acc, o⟩ := r
    cases o with
    | none => exact .bind (loosens_of bafs_put_group_loose) fun _ => .pure _
    | some ret => exact .bind (loosens_of bafs_put_group_loose) fun _ => .pure _

theorem close_vma_loosens (w : Vma) : Loosens (close_vma w) := by
  unfold close_vma
  cases w.vm_ops with
  | none => exact .pure _
  | some o => cases o; exact bafs_mem_release_loosens w

theorem open_vma_loosens (w : Vma) : Loosens (open_vma w) := by
  unfold open_vma
  cases w.vm_ops with
  | none => exact .pure _
  | some o => cases o; exact .pure _

/-- No request takes a block that is loose. -/
theorem step_loosens (r : Request) : Loosens (step r) := by
  have hmodify : ∀ f : State → State, (∀ s, (f s).owned = s.owned) → Loosens (modify f : Drv Unit) :=
    fun f hf => loosens_of (modify_loose hf)
  cases r with
  | probe pdev env =>
    exact .bind .get fun _ => .ite (.pure _)
      (.bind (loosens_of (bafs_ctrl_pci_probe_loose pdev env)) fun _ => .pure _)
  | remove slot =>
    refine .bind .get fun s => ?_
    cases s.drvdata.lookup slot with
    | none => exact .pure _
    | some c => exact .bind (loosens_of (bafs_ctrl_pci_remove_loose slot)) fun _ => .pure _
  | open_core task env =>
    intro s
    refine (bafs_core_open_loose task env s).bind fun r s₁ hs₁ => ?_
    refine wp_mono (add_file_loose (P := loose s) ?_) fun _ _ hs₂ => hs₂.ge
    rw [hs₁]
    cases r.2 <;> simp [File.blocks]
  | open_ctrl c task env =>
    refine .bind .get fun _ => .ite (.pure _) fun s => ?_
    exact (bafs_ctrl_open_loose task env).bind fun r s₁ hs₁ =>
      wp_mono (add_file_loose hs₁) fun _ _ hs₂ => hs₂.ge
  | open_group g task env =>
    refine .bind .get fun _ => .ite (.pure _) fun s => ?_
    exact (bafs_group_open_loose task env).bind fun r s₁ hs₁ =>
      wp_mono (add_file_loose hs₁) fun _ _ hs₂ => hs₂.ge
  | close i =>
    intro s
    show wp (do let s ← get; _) _ _ s
    rw [wp_bind, wp_get]
    cases hx : s.files.get i with
    | none => exact le_refl (loose s)
    | some x =>
      dsimp only
      rw [wp_bind, wp_modify]
      exact (release_file_le (loose_file_free hx).ge).bind fun _ _ hs₁ => hs₁
  | ioctl i cmd arg env =>
    refine .bind .get fun s => ?_
    cases s.files.get i with
    | none => exact .pure _
    | some x => exact .bind (ioctl_file_loosens x cmd arg env) fun _ => .pure _
  | mmap i mm a e pgoff env =>
    refine .bind .get fun s => ?_
    cases s.files.get i with
    | none => exact .pure _
    | some x =>
      refine .bind .get fun s => .ite (.bind (mmap_file_loosens x _ env) fun r => ?_) (.pure _)
      exact .ite (.pure _) (.bind (hmodify _ fun _ => rfl) fun _ => .pure _)
  | munmap i =>
    refine .bind .get fun s => ?_
    cases s.vmas.get i with
    | none => exact .pure _
    | some w =>
      exact .bind (.bind (hmodify _ fun _ => rfl) fun _ => close_vma_loosens w) fun _ => .pure _
  | split i a =>
    refine .bind .get fun s => ?_
    cases s.vmas.get i with
    | none => exact .pure _
    | some w =>
      exact .ite (.bind (hmodify _ fun _ => rfl) fun _ => .bind (open_vma_loosens _) fun _ => .pure _)
        (.pure _)
  | move i a =>
    refine .bind .get fun s => ?_
    cases s.vmas.get i with
    | none => exact .pure _
    | some w =>
      refine .bind .get fun s => .ite ?_ (.pure _)
      exact .bind (hmodify _ fun _ => rfl) fun _ => .bind (open_vma_loosens _) fun _ =>
        .bind (.bind (hmodify _ fun _ => rfl) fun _ => close_vma_loosens w) fun _ => .pure _
  | revoke t =>
    refine .bind .get fun s => ?_
    cases s.tables.get t with
    | none => exact .pure _
    | some x =>
      exact .ite (.bind (hmodify _ fun _ => rfl) fun _ =>
        .bind release_bafs_cuda_mem_loosens fun _ => .pure _) (.pure _)

end Requests

/-! ## Between two requests -/

/-- The invariant between two requests: no block or page is in two objects, or freed while it is in
one. -/
structure LoanInv (s : State) : Prop where
  inv : Inv s
  loans : 0 ≤ loose s

theorem LoanInv.init : LoanInv init where
  inv := inv_init
  loans i := by
    cases i with
    | block b => simp [loose, block_owners, BafsDriver.init, Heap.next, Heap.sum]
    | page p => simp [loose, page_owners, BafsDriver.init, Heap.next, Heap.sum]

theorem LoanInv.step (hi : LoanInv s) (r : Request) :
    wp (step r) (fun _ => True) (fun _ s' => LoanInv s') s :=
  wp_mono (wp_and (step_keeps_inv r hi.inv) (step_loosens r s)) fun _ _ hs' =>
    ⟨hs'.1, le_trans hi.loans hs'.2⟩

theorem LoanInv.run {rs : List Request} (hi : LoanInv s) (hr : Prog.run BafsDriver.step rs s = .ok s') :
    LoanInv s' :=
  ((always_iff_run.mp (always_of_step (E := fun _ => True) (fun _ r hi => LoanInv.step hi r)
    (fun _ hi => hi) rs hi)) rs (List.prefix_refl rs)).1 s' hr

theorem run_loanInv {rs : List Request} (hr : run step rs init = .ok s) : LoanInv s :=
  LoanInv.init.run hr

/-- A block is in one object at most, or has been freed once. -/
theorem block_once (hl : 0 ≤ loose s) (b : BlockId) :
    s.blocks.freed.count b + block_owners s b ≤ if b < s.blocks.next then 1 else 0 := by
  have hb := hl (.block b)
  simp only [loose, Pi.zero_apply] at hb
  split_ifs at hb ⊢ <;> omega

/-- A page is in one table at most, or has been freed once. -/
theorem page_once (hl : 0 ≤ loose s) (p : PageId) :
    s.pages.freed.count p + page_owners s p ≤ if p < s.pages.next then 1 else 0 := by
  have hp := hl (.page p)
  simp only [loose, Pi.zero_apply] at hp
  split_ifs at hp ⊢ <;> omega

/-- A block that is freed has been freed once. -/
theorem block_freed_once (hl : 0 ≤ loose s) (hb : b ∈ s.blocks.freed) : s.blocks.freed.count b = 1 := by
  have hone := block_once hl b
  have hpos := List.count_pos_iff.mpr hb
  split_ifs at hone <;> omega

theorem page_freed_once (hl : 0 ≤ loose s) (hp : p ∈ s.pages.freed) : s.pages.freed.count p = 1 := by
  have hone := page_once hl p
  have hpos := List.count_pos_iff.mpr hp
  split_ifs at hone <;> omega

/-- A block of an object has not been freed. -/
theorem block_not_freed (hl : 0 ≤ loose s) (hb : 0 < block_owners s b) :
    s.blocks.freed.count b = 0 := by
  have hone := block_once hl b
  split_ifs at hone <;> omega

theorem page_not_freed (hl : 0 ≤ loose s) (hp : 0 < page_owners s p) :
    s.pages.freed.count p = 0 := by
  have hone := page_once hl p
  split_ifs at hone <;> omega

/-- A block of an object has been allocated. -/
theorem LoanInv.lt_next (hi : LoanInv s) (hb : 0 < block_owners s b) : b < s.blocks.next := by
  have hone := block_once hi.loans b
  by_contra hlt
  rw [if_neg hlt] at hone
  omega

/-- A block that has been freed was allocated. -/
theorem block_freed_lt (hl : 0 ≤ loose s) (hb : b ∈ s.blocks.freed) : b < s.blocks.next := by
  have honce := block_once hl b
  have hpos := List.count_pos_iff.mpr hb
  by_contra hlt
  rw [if_neg hlt] at honce
  omega

theorem page_freed_lt (hl : 0 ≤ loose s) (hp : p ∈ s.pages.freed) : p < s.pages.next := by
  have honce := page_once hl p
  have hpos := List.count_pos_iff.mpr hp
  by_contra hlt
  rw [if_neg hlt] at honce
  omega

end BafsDriver
