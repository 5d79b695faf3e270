import BafsDriver.Proofs.View

/-!
# References

What it takes to use an object, and the specifications of the functions that take and drop a
reference. A reference that running code holds keeps its object alive, and so does one that an open
file, a group or the registry holds.
-/

namespace BafsDriver

open Prog

variable {h h' : Held Kind} {v : View} {s : State} {E : Fault → Prop}

/-! ## Contexts -/

/-- An open file or running code holds the context `c`. -/
def CtxHeld (h : Held Kind) (v : View) (c : CtxId) : Prop :=
  0 < (v.files.count fun f => f.ctx = c : ℕ) + h .ctx c

theorem CtxHeld.add {c : CtxId} (hc : CtxHeld h v c) (k : Kind) (i : Nat) :
    CtxHeld (h + tok k i) v c := by
  have := tok_nonneg k Kind.ctx i c
  unfold CtxHeld at *
  rw [Pi.add_apply, Pi.add_apply]
  omega

theorem CtxHeld.of_tok {c : CtxId} (hh : NonNeg h) : CtxHeld (h + tok Kind.ctx c) v c := by
  have := hh .ctx c (by decide)
  unfold CtxHeld
  rw [add_tok_self]
  omega

theorem CtxHeld.of_file {i : FileId} {f : File} (hh : NonNeg h) (hf : v.files.get i = some f) :
    CtxHeld h v f.ctx := by
  have := hh .ctx f.ctx (by decide)
  have : 0 < v.files.count fun g => g.ctx = f.ctx :=
    Heap.count_pos (p := fun g : File => g.ctx = f.ctx) hf rfl
  unfold CtxHeld
  omega

theorem At.ctx_live (hs : At h v s) {c : CtxId} (hc : CtxHeld h v c) :
    ∃ x, s.ctxs.get c = some x := by
  refine hs.wf.ctx.exists_of_pos ?_
  rw [← hs.view] at hc
  have : 0 < (s.files.count fun f => f.ctx = c : ℕ) + h .ctx c := hc
  unfold ctx_holders
  push_cast
  omega

theorem At.ctx_get (hs : At h v s) {c : CtxId} {x : BafsCtx} (hx : s.ctxs.get c = some x) :
    At (h + tok Kind.ctx c) v
      { s with ctxs := s.ctxs.set c { x with ref := x.ref + 1 } } := by
  refine ⟨hs.wf.ctx_ref hx rfl rfl rfl (fun _ _ hn => add_tok_off h hn) ?_ (Nat.succ_pos _),
    hs.view⟩
  rw [add_tok_self]
  push_cast
  omega

theorem ctx_kref_get_spec (hs : At h v s) {c : CtxId} (hc : CtxHeld h v c) :
    wp (ctx_kref_get c) E (fun _ s' => At (h + tok Kind.ctx c) v s') s := by
  obtain ⟨x, hx⟩ := hs.ctx_live hc
  exact (wp_ctx_upd hx).mpr (hs.ctx_get hx)

/-- A reference to a context is put while no other one to it is missing. -/
theorem bafs_put_ctx_at {c : CtxId} (hs : At (h + tok Kind.ctx c) v s) (hc : 0 ≤ h .ctx c) :
    wp (bafs_put_ctx c) E (fun _ s' => At h v s') s := by
  have hheld : CtxHeld (h + tok Kind.ctx c) v c := by
    unfold CtxHeld
    rw [add_tok_self]
    omega
  obtain ⟨x, hx⟩ := hs.ctx_live hheld
  have heq := hs.wf.ctx.eq c x hx
  have hpos := hs.wf.ctx.pos c x hx
  rw [add_tok_self] at heq
  have hoff : ∀ k j, ¬(k = .ctx ∧ j = c) → h k j = (h + tok Kind.ctx c) k j :=
    fun k j hn => (add_tok_off h hn).symm
  unfold bafs_put_ctx
  rw [wp_bind, wp_ctx_at hx, wp_bind, wp_ctx_upd hx]
  by_cases hr : x.ref = 1
  · rw [if_pos hr]
    unfold __bafs_core_ctx_release put_pid kfree
    rw [wp_bind, wp_ctx_at (Heap.get_set_self hx)]
    simp only [wp_bind, wp_modify, Heap.free_set]
    exact ⟨(hs.wf.ctx_free hx hoff (by omega) (by omega)).of_objects rfl, hs.view⟩
  · rw [if_neg hr]
    refine ⟨hs.wf.ctx_ref hx rfl rfl rfl hoff ?_ (show 0 < x.ref - 1 by omega), hs.view⟩
    rw [add_tok_self]
    show ((x.ref - 1 : ℕ) : ℤ) = _
    omega

theorem bafs_put_ctx_spec {c : CtxId} (hs : At (h + tok Kind.ctx c) v s) (hh : NonNeg h) :
    wp (bafs_put_ctx c) E (fun _ s' => At h v s') s :=
  bafs_put_ctx_at hs (hh .ctx c (by decide))

/-! ## Registrations -/

theorem At.mem_live (hs : At h v s) {m : MemId} {f : BafsMem} (hm : v.mems m = some f) :
    ∃ x, s.mems.get m = some x ∧ x.fields = f := by
  rw [← hs.view] at hm
  exact Option.map_eq_some_iff.mp hm

theorem At.mem_view (hs : At h v s) {m : MemId} {x : BafsMem} (hm : s.mems.get m = some x) :
    v.mems m = some x.fields := by
  rw [← hs.view]
  exact congrArg (Option.map BafsMem.fields) hm

/-- The list of a context holds its registrations. -/
theorem At.mem_list_iff (hs : At h v s) {c : CtxId} {y : BafsCtx} {m : MemId} {f : BafsMem}
    (hy : s.ctxs.get c = some y) (hm : v.mems m = some f) : m ∈ y.mem_list ↔ f.ctx = c := by
  obtain ⟨x, hx, rfl⟩ := hs.mem_live hm
  refine ⟨fun hl => ?_, fun (hc : x.ctx = c) => ?_⟩
  · obtain ⟨x', hx', hc⟩ := hs.wf.tables.listed c y m hy hl
    rw [hx] at hx'
    rw [Option.some.inj hx']
    exact hc
  · obtain ⟨y', hy', hl, -⟩ := hs.wf.tables.mem_listed m x hx
    rw [hc, hy] at hy'
    rw [Option.some.inj hy']
    exact hl

/-- The table of a context holds its registrations under their `mem_id`. -/
theorem At.mem_xa_iff (hs : At h v s) {c : CtxId} {y : BafsCtx} {i : Nat} {m : MemId}
    (hy : s.ctxs.get c = some y) :
    y.bafs_mem_xa.lookup i = some m ↔ ∃ f, v.mems m = some f ∧ f.ctx = c ∧ f.mem_id = i := by
  refine ⟨fun hl => ?_, ?_⟩
  · obtain ⟨-, x, hx, hc, hi⟩ := hs.wf.tables.stored c y i m hy hl
    exact ⟨_, hs.mem_view hx, hc, hi⟩
  · rintro ⟨f, hf, hc, hi⟩
    obtain ⟨x, hx, rfl⟩ := hs.mem_live hf
    obtain ⟨y', hy', -, hl⟩ := hs.wf.tables.mem_listed m x hx
    rw [show x.ctx = c from hc, hy] at hy'
    rw [Option.some.inj hy', ← hi]
    exact hl

/-- An update of a registration shows in the view as far as it changes fields. -/
theorem view_set_mem {m : MemId} {x x' : BafsMem} (hm : s.mems.get m = some x) :
    ({ s with mems := s.mems.set m x' } : State).view =
      { s.view with mems := Function.update s.view.mems m (some x'.fields) } := by
  refine view_mems (fun n => ?_) Heap.next_set
  rw [Heap.get_set hm, Function.update_apply]
  by_cases hn : n = m
  · rw [if_pos hn, if_pos hn]
    rfl
  · rw [if_neg hn, if_neg hn]
    rfl

/-- The count and the list of a registration do not show. -/
theorem At.view_set_mem {m : MemId} {x x' : BafsMem} (hs : At h v s) (hm : s.mems.get m = some x)
    (hf : x'.fields = x.fields) : ({ s with mems := s.mems.set m x' } : State).view = v := by
  have : s.view.mems m = some x'.fields := by
    rw [hf]
    exact congrArg (Option.map BafsMem.fields) hm
  rw [BafsDriver.view_set_mem hm, Function.update_eq_self_iff.mpr this.symm, ← hs.view]

theorem mem_kref_get_spec (hs : At h v s) {m : MemId} {f : BafsMem} (hm : v.mems m = some f) :
    wp (mem_kref_get m) E (fun _ s' => At (h + tok Kind.mem m) v s') s := by
  obtain ⟨x, hx, -⟩ := hs.mem_live hm
  refine (wp_mem_upd hx).mpr ⟨hs.wf.mem_set hx rfl rfl rfl (fun _ _ hn => add_tok_off h hn) ?_
    (Nat.succ_pos _), hs.view_set_mem hx rfl⟩
  rw [add_tok_self]
  push_cast
  omega

/-- Putting a reference while others are left does not release the registration. -/
theorem bafs_mem_put_at {m : MemId} {x : BafsMem} (hs : At (h + tok Kind.mem m) v s)
    (hx : s.mems.get m = some x) (hr : x.ref ≠ 1) :
    wp (bafs_mem_put m) E (fun _ s' => At h v s') s := by
  have heq := hs.wf.mem.eq m x hx
  have hpos := hs.wf.mem.pos m x hx
  rw [add_tok_self] at heq
  unfold bafs_mem_put
  rw [wp_bind, wp_mem_at hx, wp_bind, wp_mem_upd hx, if_neg hr]
  refine ⟨hs.wf.mem_set hx rfl rfl rfl (fun _ _ hn => (add_tok_off h hn).symm) ?_
    (show 0 < x.ref - 1 by omega), hs.view_set_mem hx rfl⟩
  rw [add_tok_self]
  show ((x.ref - 1 : ℕ) : ℤ) = _
  omega

/-- Putting a reference other than the first one does not release the registration. -/
theorem bafs_mem_put_spec {m : MemId} {f : BafsMem} (hs : At (h + tok Kind.mem m) v s)
    (hh : NonNeg h) (hm : v.mems m = some f) :
    wp (bafs_mem_put m) E (fun _ s' => At h v s') s := by
  obtain ⟨x, hx, -⟩ := hs.mem_live hm
  have heq := hs.wf.mem.eq m x hx
  have hc := hh .mem m (by decide)
  rw [add_tok_self] at heq
  exact bafs_mem_put_at hs hx (by omega)

/-! ## Controllers -/

/-- An open file, running code or a group holds the controller `c`. -/
def CtrlHeld (h : Held Kind) (v : View) (c : CtrlId) : Prop :=
  0 < (v.files.sum (File.ctrl_refs c) : ℕ) + h .ctrl c ∨
    ∃ g l, v.group_ctrls g = some l ∧ c ∈ l

theorem CtrlHeld.add {c : CtrlId} (hc : CtrlHeld h v c) (k : Kind) (i : Nat) :
    CtrlHeld (h + tok k i) v c := by
  refine hc.imp_left fun hp => ?_
  have := tok_nonneg k Kind.ctrl i c
  rw [Pi.add_apply, Pi.add_apply]
  omega

theorem CtrlHeld.add_toks {c : CtrlId} (hc : CtrlHeld h v c) (k : Kind) (l : List Nat) :
    CtrlHeld (h + toks k l) v c := by
  refine hc.imp_left fun hp => ?_
  have := toks_nonneg k Kind.ctrl l c
  rw [Pi.add_apply, Pi.add_apply]
  omega

theorem CtrlHeld.of_tok {c : CtrlId} (hh : NonNeg h) : CtrlHeld (h + tok Kind.ctrl c) v c := by
  have := hh .ctrl c (by decide)
  refine .inl ?_
  rw [add_tok_self]
  omega

theorem CtrlHeld.of_file {i : FileId} {x : BafsCtrlCtx} (hh : NonNeg h)
    (hf : v.files.get i = some (.ctrl x)) : CtrlHeld h v x.ctrl := by
  have := hh .ctrl x.ctrl (by decide)
  have hle := Heap.le_sum (f := File.ctrl_refs x.ctrl) hf
  have hone : File.ctrl_refs x.ctrl (.ctrl x) = 1 := if_pos rfl
  refine .inl ?_
  omega

theorem At.ctrl_live_at (hs : At h v s) {c : CtrlId} (hn : 0 ≤ h .ctrl c) (hc : CtrlHeld h v c) :
    ∃ x, s.ctrls.get c = some x := by
  refine hs.wf.ctrl.exists_of_pos ?_
  rw [← hs.view] at hc
  rcases hc with hp | ⟨g, l, hg, hl⟩
  · have : 0 < (s.files.sum (File.ctrl_refs c) : ℕ) + h .ctrl c := hp
    unfold ctrl_holders
    push_cast
    omega
  · obtain ⟨x, hx, rfl⟩ := Option.map_eq_some_iff.mp hg
    have h1 := Heap.le_sum (f := fun x : BafsGroup => x.ctrls.count c) hx
    have h2 := List.count_pos_iff.mpr hl
    have h3 : 0 < s.groups.sum fun x => x.ctrls.count c := by omega
    unfold ctrl_holders
    push_cast
    omega

theorem At.ctrl_live (hs : At h v s) (hh : NonNeg h) {c : CtrlId} (hc : CtrlHeld h v c) :
    ∃ x, s.ctrls.get c = some x :=
  hs.ctrl_live_at (hh .ctrl c (by decide)) hc

theorem At.ctrl_get (hs : At h v s) {c : CtrlId} {x : BafsCtrl} (hx : s.ctrls.get c = some x) :
    At (h + tok Kind.ctrl c) v { s with ctrls := s.ctrls.set c { x with ref := x.ref + 1 } } := by
  refine ⟨hs.wf.ctrl_ref hx (fun _ _ hn => add_tok_off h hn) ?_ (Nat.succ_pos _), hs.view⟩
  rw [add_tok_self]
  push_cast
  omega

theorem bafs_get_ctrl_at (hs : At h v s) {c : CtrlId} (hn : 0 ≤ h .ctrl c) (hc : CtrlHeld h v c) :
    wp (bafs_get_ctrl c) E (fun _ s' => At (h + tok Kind.ctrl c) v s') s := by
  obtain ⟨x, hx⟩ := hs.ctrl_live_at hn hc
  exact (wp_ctrl_upd hx).mpr (hs.ctrl_get hx)

theorem bafs_get_ctrl_spec (hs : At h v s) (hh : NonNeg h) {c : CtrlId} (hc : CtrlHeld h v c) :
    wp (bafs_get_ctrl c) E (fun _ s' => At (h + tok Kind.ctrl c) v s') s :=
  bafs_get_ctrl_at hs (hh .ctrl c (by decide)) hc

/-- A reference to a controller is put while no other one to it is missing. -/
theorem bafs_ctrl_release_at {c : CtrlId} (hs : At (h + tok Kind.ctrl c) v s) (hn : 0 ≤ h .ctrl c) :
    wp (bafs_ctrl_release c) E (fun _ s' => At h v s') s := by
  have hpos' : 0 < (h + tok Kind.ctrl c) .ctrl c := by
    rw [add_tok_self]
    omega
  obtain ⟨x, hx⟩ := hs.ctrl_live_at hpos'.le (.inl (by omega))
  have heq := hs.wf.ctrl.eq c x hx
  have hpos := hs.wf.ctrl.pos c x hx
  rw [add_tok_self] at heq
  have hoff : ∀ k j, ¬(k = .ctrl ∧ j = c) → h k j = (h + tok Kind.ctrl c) k j :=
    fun k j hn => (add_tok_off h hn).symm
  unfold bafs_ctrl_release
  rw [wp_bind, wp_ctrl_at hx, wp_bind, wp_ctrl_upd hx]
  by_cases hr : x.ref = 1
  · obtain ⟨w, hw, -⟩ := hs.wf.tree.ctrl hx
    rw [if_pos hr]
    unfold __bafs_ctrl_release put_core_device cdev_del bafs_put_minor_number kfree
    rw [wp_bind, wp_ctrl_at (Heap.get_set_self hx), wp_bind]
    refine (wp_device_destroy (v := w) (by exact hw)).mpr ?_
    simp only [wp_bind, wp_modify, Heap.free_set]
    exact ⟨(hs.wf.ctrl_free hx hw hoff (by omega) (by omega)).of_objects rfl, hs.view⟩
  · rw [if_neg hr]
    refine ⟨hs.wf.ctrl_ref hx hoff ?_ (show 0 < x.ref - 1 by omega), hs.view⟩
    rw [add_tok_self]
    omega

theorem bafs_ctrl_release_spec {c : CtrlId} (hs : At (h + tok Kind.ctrl c) v s) (hh : NonNeg h) :
    wp (bafs_ctrl_release c) E (fun _ s' => At h v s') s :=
  bafs_ctrl_release_at hs (hh .ctrl c (by decide))

/-! ## Groups -/

theorem At.group_live (hs : At h v s) {g : GroupId} {l : List CtrlId}
    (hg : v.group_ctrls g = some l) : ∃ x, s.groups.get g = some x ∧ x.ctrls = l := by
  rw [← hs.view] at hg
  exact Option.map_eq_some_iff.mp hg

theorem At.group_view (hs : At h v s) {g : GroupId} {x : BafsGroup} (hg : s.groups.get g = some x) :
    v.group_ctrls g = some x.ctrls := by
  rw [← hs.view]
  exact congrArg (Option.map BafsGroup.ctrls) hg

/-- What the count of a group is made of. -/
theorem At.group_eq (hs : At h v s) {g : GroupId} {x : BafsGroup} (hg : s.groups.get g = some x) :
    (x.ref : ℤ) = (v.files.sum (File.group_refs g) : ℕ) + h .group g := by
  rw [← hs.view]
  exact hs.wf.group.eq g x hg

/-- A group that exists is held. -/
theorem At.group_pos (hs : At h v s) {g : GroupId} {l : List CtrlId}
    (hg : v.group_ctrls g = some l) : 0 < (v.files.sum (File.group_refs g) : ℕ) + h .group g := by
  obtain ⟨x, hx, -⟩ := hs.group_live hg
  have := hs.group_eq hx
  have := hs.wf.group.pos g x hx
  omega

/-- The count of a group does not show. -/
theorem At.view_set_group {g : GroupId} {x : BafsGroup} {n : Nat} (hs : At h v s)
    (hg : s.groups.get g = some x) :
    ({ s with groups := s.groups.set g { x with ref := n } } : State).view = v := by
  have : (fun j => ((s.groups.set g { x with ref := n }).get j).map BafsGroup.ctrls) =
      fun j => (s.groups.get j).map BafsGroup.ctrls := by
    funext j
    rw [Heap.get_set hg]
    by_cases hj : j = g
    · rw [if_pos hj, hj, hg]
      rfl
    · rw [if_neg hj]
  rw [← hs.view]
  exact congrArg (fun G => { s.view with group_ctrls := G }) this

theorem At.group_get (hs : At h v s) {g : GroupId} {x : BafsGroup} (hx : s.groups.get g = some x) :
    At (h + tok Kind.group g) v { s with groups := s.groups.set g { x with ref := x.ref + 1 } } := by
  refine ⟨hs.wf.group_ref hx (fun _ _ hn => add_tok_off h hn) ?_ (Nat.succ_pos _),
    hs.view_set_group hx⟩
  rw [add_tok_self]
  push_cast
  omega

theorem bafs_get_group_spec (hs : At h v s) {g : GroupId} {l : List CtrlId}
    (hg : v.group_ctrls g = some l) :
    wp (bafs_get_group g) E (fun _ s' => At (h + tok Kind.group g) v s') s := by
  obtain ⟨x, hx, -⟩ := hs.group_live hg
  exact (wp_group_upd hx).mpr (hs.group_get hx)

theorem debug_group_live {g : GroupId} {x : BafsGroup} {Q : Unit → State → Prop}
    (hg : s.groups.get g = some x) : wp (debug_group g) E Q s ↔ Q () s := by
  unfold debug_group
  rw [wp_modify, hg]
  rfl

/-- Putting a reference while others are left does not release the group. -/
theorem bafs_put_group_spec {g : GroupId} {l : List CtrlId} (hs : At (h + tok Kind.group g) v s)
    (hg : v.group_ctrls g = some l) (hp : 0 < (v.files.sum (File.group_refs g) : ℕ) + h .group g) :
    wp (bafs_put_group g) E (fun _ s' => At h v s') s := by
  obtain ⟨x, hx, -⟩ := hs.group_live hg
  have heq := hs.group_eq hx
  rw [add_tok_self] at heq
  unfold bafs_put_group
  rw [wp_bind, debug_group_live hx, wp_bind, wp_group_at hx, wp_bind, wp_group_upd hx,
    if_neg (by omega)]
  refine (debug_group_live (Heap.get_set_self hx)).mpr ⟨hs.wf.group_ref hx (fun _ _ hn => (add_tok_off h hn).symm) ?_
    (show 0 < x.ref - 1 by omega), hs.view_set_group hx⟩
  rw [add_tok_self]
  omega

/-- A loop that drops one reference to each controller of a list. -/
theorem each_ctrl_release_spec {l : List CtrlId} (hs : At (h + toks Kind.ctrl l) v s)
    (hh : NonNeg h) : wp (each bafs_ctrl_release l) E (fun _ s' => At h v s') s := by
  refine wp_mono (wp_each (fun l s => At (h + toks Kind.ctrl l) v s) (fun c l s₁ h₁ => ?_) hs)
    fun _ s' hs' => hs'.congr (by rw [toks_nil, add_zero])
  refine bafs_ctrl_release_spec (h₁.congr ?_) (hh.toks _ _)
  rw [toks_cons]
  abel

/-- The view after the last reference to a group has been dropped: the debug message that follows
reads the group once more. -/
def View.release_group (v : View) (g : GroupId) : View :=
  { v with
    group_ctrls := Function.update v.group_ctrls g none
    stale_reads := g :: v.stale_reads }

/-- Putting the last reference releases the group. -/
theorem bafs_put_group_last {g : GroupId} {l : List CtrlId} (hs : At (h + tok Kind.group g) v s)
    (hh : NonNeg h) (hg : v.group_ctrls g = some l)
    (hz : (v.files.sum (File.group_refs g) : ℕ) + h .group g = 0) :
    wp (bafs_put_group g) E (fun _ s' => At h (v.release_group g) s') s := by
  obtain ⟨x, hx, -⟩ := hs.group_live hg
  obtain ⟨w, hw, -⟩ := hs.wf.tree.group hx
  have heq := hs.group_eq hx
  rw [add_tok_self] at heq
  unfold bafs_put_group
  rw [wp_bind, debug_group_live hx, wp_bind, wp_group_at hx, wp_bind, wp_group_upd hx,
    if_pos (by omega), wp_bind]
  unfold __bafs_group_release
  rw [wp_bind, wp_group_at (Heap.get_set_self hx), wp_bind]
  refine (wp_device_destroy (v := w) (by exact hw)).mpr ?_
  rw [wp_bind, wp_modify, wp_bind]
  simp only [Heap.free_set]
  have hfree : At (h + toks Kind.ctrl x.ctrls)
      { v with group_ctrls := Function.update v.group_ctrls g none } { s with
        groups := s.groups.free g
        devices := destroyed s.devices x.device w
        group_log := .release g :: s.group_log } := by
    refine ⟨hs.wf.group_free hx hw, ?_⟩
    rw [← hs.view]
    have h1 : (fun j => ((s.groups.free g).get j).map BafsGroup.ctrls) =
        Function.update (fun j => (s.groups.get j).map BafsGroup.ctrls) g none := by
      funext j
      rw [Heap.get_free, Function.update_apply]
      by_cases hj : j = g
      · rw [if_pos hj, if_pos hj]
        rfl
      · rw [if_neg hj, if_neg hj]
    have h2 : ∀ m, m ≠ GroupMark.release g →
        (GroupMark.release g :: s.group_log).count m = s.group_log.count m :=
      fun m hm => List.count_cons_of_ne hm.symm
    simp only [State.view, h1, h2 (.create _) (by simp), h2 (.delete _) (by simp)]
  refine wp_mono (each_ctrl_release_spec hfree hh) fun _ s₁ h₁ => ?_
  unfold kfree put_core_device cdev_del bafs_put_minor_number debug_group
  simp only [wp_bind, wp_modify]
  have hgone : s₁.groups.get g = none := by
    have := congrFun (congrArg View.group_ctrls h₁.view) g
    exact Option.map_eq_none_iff.mp (this.trans (Function.update_self ..))
  rw [hgone]
  exact ⟨h₁.wf.of_objects rfl,
    congrArg (fun u : View => { u with stale_reads := g :: u.stale_reads }) h₁.view⟩

/-- The view after a reference to the group `g` has been put, where `h` is what is left. -/
def View.put_group (v : View) (h : Held Kind) (g : GroupId) : View :=
  if (v.files.sum (File.group_refs g) : ℕ) + h .group g = 0 then v.release_group g else v

/-- Putting a reference releases the group if nothing else holds it. -/
theorem bafs_put_group_any {g : GroupId} {l : List CtrlId} (hs : At (h + tok Kind.group g) v s)
    (hh : NonNeg h) (hg : v.group_ctrls g = some l) :
    wp (bafs_put_group g) E (fun _ s' => At h (v.put_group h g) s') s := by
  have hpos := hs.group_pos hg
  rw [add_tok_self] at hpos
  unfold View.put_group
  by_cases hz : (v.files.sum (File.group_refs g) : ℕ) + h .group g = 0
  · rw [if_pos hz]
    exact bafs_put_group_last hs hh hg hz
  · rw [if_neg hz]
    exact bafs_put_group_spec hs hg (by omega)

/-! ## What a put leaves alone -/

/-- The part `f` of the state does not look at the controllers, the groups and their devices either. -/
structure Detached {γ : Type} (f : State → γ) : Prop extends Quiet f where
  ctrls : ∀ s c, f { s with ctrls := c } = f s
  groups : ∀ s g, f { s with groups := g } = f s
  devices : ∀ s d, f { s with devices := d } = f s
  ctrl_log : ∀ s l, f { s with ctrl_log := l } = f s
  group_log : ∀ s l, f { s with group_log := l } = f s
  stale_reads : ∀ s l, f { s with stale_reads := l } = f s

theorem load_preserves {α γ : Type} {H : State → Heap α} {e : Fault} {i : Nat} {f : State → γ} :
    Preserves (fun _ => True) (load H e i) f := by
  intro s
  exact wp_load_of (fun _ => trivial) fun a ha => rfl

/-- The functions for devices touch the devices only. -/
theorem device_upd_keeps {γ : Type} {f : State → γ} (hf : ∀ s d, f { s with devices := d } = f s)
    (d : DeviceId) (u : Device → Device) : Preserves (fun _ => True) (device_upd d u) f :=
  Preserves.bind load_preserves fun _ => Preserves.modify fun s => hf s _

theorem put_device_keeps {γ : Type} {f : State → γ} (hf : ∀ s d, f { s with devices := d } = f s)
    (d : DeviceId) : Preserves (fun _ => True) (put_device d) f :=
  Preserves.bind load_preserves fun _ => Preserves.bind (device_upd_keeps hf d _) fun _ =>
    Preserves.ite (Preserves.modify fun s => hf s _) (Preserves.pure _)

theorem device_destroy_keeps {γ : Type} {f : State → γ}
    (hf : ∀ s d, f { s with devices := d } = f s) (d : DeviceId) :
    Preserves (fun _ => True) (device_destroy d) f :=
  Preserves.bind (device_upd_keeps hf d _) fun _ => put_device_keeps hf d

/-- The put of a controller touches the controllers, the devices and the identifiers only. -/
theorem bafs_ctrl_release_keeps {γ : Type} {f : State → γ} (hq : Quiet f)
    (hc : ∀ s c, f { s with ctrls := c } = f s) (hd : ∀ s d, f { s with devices := d } = f s)
    (hl : ∀ s l, f { s with ctrl_log := l } = f s) (c : CtrlId) :
    Preserves (fun _ => True) (bafs_ctrl_release c) f := by
  have hrelease : Preserves (fun _ => True) (__bafs_ctrl_release c) f := by
    refine .bind load_preserves fun x => .bind (device_destroy_keeps hd x.device) fun _ => ?_
    refine .bind (put_core_device_quiet hq) fun _ => ?_
    refine .bind (cdev_del_quiet hq x.minor) fun _ => ?_
    refine .bind (.modify fun s => hq.ctrl_ids s _) fun _ => ?_
    refine .bind (bafs_put_minor_number_quiet hq x.minor) fun _ => ?_
    refine .bind (.modify fun s => ?_) fun _ => kfree_quiet hq x.blk
    exact (hl { s with ctrls := s.ctrls.free c } _).trans (hc s _)
  exact .bind load_preserves fun x =>
    .bind (.bind load_preserves fun _ => .modify fun s => hc s _) fun _ =>
      .ite hrelease (.pure ())

section Detached

variable {γ : Type} {f : State → γ}

theorem device_destroy_detached (hf : Detached f) (d : DeviceId) :
    Preserves (fun _ => True) (device_destroy d) f :=
  device_destroy_keeps hf.devices d

theorem bafs_get_ctrl_detached (hf : Detached f) (c : CtrlId) :
    Preserves (fun _ => True) (bafs_get_ctrl c) f :=
  .bind load_preserves fun _ => .modify fun s => hf.ctrls s _

theorem bafs_ctrl_release_detached (hf : Detached f) (c : CtrlId) :
    Preserves (fun _ => True) (bafs_ctrl_release c) f :=
  bafs_ctrl_release_keeps hf.toQuiet hf.ctrls hf.devices hf.ctrl_log c

theorem debug_group_detached (hf : Detached f) (g : GroupId) :
    Preserves (fun _ => True) (debug_group g) f := by
  refine .modify fun s => ?_
  split
  · rfl
  · exact hf.stale_reads s _

theorem bafs_get_group_detached (hf : Detached f) (g : GroupId) :
    Preserves (fun _ => True) (bafs_get_group g) f :=
  .bind load_preserves fun _ => .modify fun s => hf.groups s _

theorem bafs_put_group_detached (hf : Detached f) (g : GroupId) :
    Preserves (fun _ => True) (bafs_put_group g) f := by
  have hrelease : Preserves (fun _ => True) (__bafs_group_release g) f := by
    refine .bind load_preserves fun x => .bind (device_destroy_detached hf x.device) fun _ => ?_
    refine .bind (.modify fun s =>
      (hf.group_log { s with groups := s.groups.free g } _).trans (hf.groups s _)) fun _ => ?_
    refine .bind (.each (bafs_ctrl_release_detached hf) x.ctrls) fun _ => ?_
    refine .bind (kfree_quiet hf.toQuiet x.ctrls_blk) fun _ => ?_
    refine .bind (put_core_device_quiet hf.toQuiet) fun _ => ?_
    refine .bind (cdev_del_quiet hf.toQuiet x.minor) fun _ => ?_
    refine .bind (.modify fun s => hf.group_ids s _) fun _ => ?_
    exact .bind (bafs_put_minor_number_quiet hf.toQuiet x.minor) fun _ =>
      kfree_quiet hf.toQuiet x.blk
  refine .bind (debug_group_detached hf g) fun _ => .bind load_preserves fun x => ?_
  refine .bind (.bind load_preserves fun _ => .modify fun s => hf.groups s _) fun _ => ?_
  exact .ite (.bind hrelease fun _ => debug_group_detached hf g) (debug_group_detached hf g)

end Detached

/-- Parts of the state that the put of a controller or of a group leaves as they are. -/
def State.handles (s : State) :
    Heap BafsCtx × Heap File × AList (fun _ : Nat => CtrlId) := (s.ctxs, s.files, s.drvdata)

theorem detached_handles : Detached State.handles := by
  constructor <;> (try constructor) <;> intros <;> rfl

theorem load_handles {α : Type} {H : State → Heap α} {e : Fault} {i : Nat} :
    Preserves (fun _ => True) (load H e i) State.handles := load_preserves

theorem bafs_ctrl_release_handles (c : CtrlId) :
    Preserves (fun _ => True) (bafs_ctrl_release c) State.handles :=
  bafs_ctrl_release_detached detached_handles c

theorem bafs_put_group_handles (g : GroupId) :
    Preserves (fun _ => True) (bafs_put_group g) State.handles :=
  bafs_put_group_detached detached_handles g

end BafsDriver
