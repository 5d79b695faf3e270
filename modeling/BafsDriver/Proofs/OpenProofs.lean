import BafsDriver.Proofs.CreateProofs

/-!
# Controllers, contexts and open files

What the probe and the removal of a PCI device, and the opening and closing of a file do to the
state.
-/

set_option linter.style.nameCheck false

namespace BafsDriver

open Prog

variable {h h' : Held Kind} {v : View} {s : State} {E : Fault → Prop}

/-! ## Controllers -/

theorem bafs_ctrl_alloc_spec {pdev : PciDev} {env : CtrlAllocEnv} (hs : At h v s) :
    wp (bafs_ctrl_alloc pdev env) E (fun r s' => s'.drvdata = s.drvdata ∧
      At (h + toks Kind.ctrl r.2.toList) v s') s := by
  have hnone : ∀ s' : State, At h v s' →
      At (h + toks Kind.ctrl (none : Option CtrlId).toList) v s' := fun s' hs' => hs'.congr (by simp)
  unfold bafs_ctrl_alloc bafs_get_minor_number ida_simple_get
  rw [wp_bind, wp_kzalloc]
  cases env.kzalloc with
  | false => exact ⟨rfl, hnone _ hs⟩
  | true =>
  rw [if_pos rfl]
  cases env.pci_request_region with
  | some e => exact ⟨rfl, hnone _ (hs.of_eq rfl rfl)⟩
  | none =>
  cases env.pci_enable_device with
  | some e => exact ⟨rfl, hnone _ (hs.of_eq rfl rfl)⟩
  | none =>
  cases env.minor with
  | some e => exact ⟨rfl, hnone _ (hs.of_eq rfl rfl)⟩
  | none =>
  cases env.ctrl_id with
  | some e => exact ⟨rfl, hnone _ (hs.of_eq rfl rfl)⟩
  | none =>
  cases env.cdev_add with
  | some e => exact ⟨rfl, hnone _ (hs.of_eq rfl rfl)⟩
  | none =>
  cases env.device_create with
  | some e => exact ⟨rfl, hnone _ (hs.of_eq rfl rfl)⟩
  | none =>
    have htok : h + toks Kind.ctrl (some s.ctrls.next).toList = h + tok Kind.ctrl s.ctrls.next := by
      rw [Option.toList_some, toks_cons, toks_nil, add_zero]
    have hwf := hs.wf.ctrl_alloc
      (x := { blk := s.blocks.next, pdev, device := s.devices.next
              minor := lowestFree s.bafs_minor_ida, ctrl_id := lowestFree s.bafs_ctrl_ida, ref := 1 })
      rfl rfl
    exact ⟨rfl, (hwf.congr htok).of_objects rfl, hs.view⟩

/-- A probe leaves the view as it is. -/
theorem bafs_ctrl_pci_probe_spec {pdev : PciDev} {env : CtrlAllocEnv} (hs : At h v s)
    (hn : s.drvdata.lookup pdev.slot = none) :
    wp (bafs_ctrl_pci_probe pdev env) E (fun _ s' => At h v s') s := by
  unfold bafs_ctrl_pci_probe
  refine (bafs_ctrl_alloc_spec hs).bind fun r s₁ hr => ?_
  obtain ⟨ret, c⟩ := r
  obtain ⟨hd, hs₁⟩ := hr
  cases c with
  | none => exact hs₁.congr (by simp)
  | some c =>
    rw [Option.toList_some, toks_cons, toks_nil, add_zero] at hs₁
    exact ⟨hs₁.wf.bind (by rw [hd, hn]), hs₁.view⟩

/-- The removal of a device leaves the view as it is. -/
theorem bafs_ctrl_pci_remove_spec {slot : Nat} {c : CtrlId} (hs : At h v s) (hh : NonNeg h)
    (hb : s.drvdata.lookup slot = some c) :
    wp (bafs_ctrl_pci_remove slot c) E (fun _ s' => At h v s') s := by
  unfold bafs_ctrl_pci_remove
  rw [wp_bind, wp_modify]
  exact bafs_ctrl_release_spec ⟨hs.wf.unbind hb, hs.view⟩ hh

/-! ## Contexts -/

theorem At.publish_ctx (hs : At h v s) {blk : BlockId} {task : Task}
    (hn : s.bafs_global_ctx_xa.lookup task.tgid = none) :
    wp (publish_ctx (new_ctx blk task)) E (fun c s' => At (h + tok Kind.ctx c) v s') s := by
  unfold BafsDriver.publish_ctx
  rw [wp_bind, wp_get, wp_bind, wp_modify]
  exact ⟨hs.wf.ctx_alloc rfl rfl rfl hn, hs.view⟩

/-- A new context comes with a reference for its file. -/
theorem bafs_core_open_spec {task : Task} {env : CtxEnv} (hs : At h v s) :
    wp (bafs_core_open task env) E (fun r s' => At (h + toks Kind.ctx r.2.toList) v s') s := by
  have hnone : ∀ s' : State, At h v s' →
      At (h + toks Kind.ctx (none : Option CtxId).toList) v s' := fun s' hs' => hs'.congr (by simp)
  unfold bafs_core_open find_get_pid
  rw [wp_bind, wp_kzalloc]
  cases env.kzalloc with
  | false => exact hnone _ hs
  | true =>
  rw [if_pos rfl]
  cases env.find_get_pid with
  | false => exact hnone _ (hs.of_eq rfl rfl)
  | true =>
  dsimp only
  rw [wp_bind, if_pos rfl, wp_bind, wp_modify, wp_pure, if_pos rfl, wp_bind, wp_get]
  refine wp_ite (fun _ => hnone _ (hs.of_eq rfl rfl)) fun hn => ?_
  rw [not_or] at hn
  have hs₁ : At h v { s with
      blocks := s.blocks.alloc (), pids := task.tgid_struct :: s.pids } := hs.of_eq rfl rfl
  refine (hs₁.publish_ctx (Option.not_isSome_iff_eq_none.mp hn.2)).bind fun c s₂ hs₂ => ?_
  exact hs₂.congr (by simp [toks_cons])

/-- The context of a process comes with a reference for its file, whether it is new or not. -/
theorem bafs_get_ctx_spec {task : Task} {env : CtxEnv} (hs : At h v s) :
    wp (bafs_get_ctx task env) E (fun r s' => At (h + toks Kind.ctx r.toList) v s') s := by
  have hnone : ∀ s' : State, At h v s' →
      At (h + toks Kind.ctx (none : Option CtxId).toList) v s' := fun s' hs' => hs'.congr (by simp)
  unfold bafs_get_ctx find_get_pid
  rw [wp_bind, wp_kzalloc]
  cases env.kzalloc with
  | false => exact hnone _ hs
  | true =>
  rw [if_pos rfl]
  cases env.find_get_pid with
  | false => exact hnone _ (hs.of_eq rfl rfl)
  | true =>
  dsimp only
  rw [wp_bind, if_pos rfl, wp_bind, wp_modify, wp_pure, if_pos rfl, wp_bind, wp_get]
  have hs₁ : At h v { s with
      blocks := s.blocks.alloc (), pids := task.tgid_struct :: s.pids } := hs.of_eq rfl rfl
  cases env.xa_insert with
  | some e => exact hnone _ (hs.of_eq rfl rfl)
  | none =>
  cases hn : s.bafs_global_ctx_xa.lookup task.tgid with
  | none =>
    exact (hs₁.publish_ctx hn).bind fun c s₂ hs₂ => hs₂.congr (by simp [toks_cons])
  | some c =>
    obtain ⟨y, hy, -⟩ := (hs.wf.tables.global task.tgid c).mp hn
    dsimp only
    rw [wp_bind, ctx_kref_get]
    refine (wp_ctx_upd (x := y) (by exact hy)).mpr ?_
    have htok : h + toks Kind.ctx (some c).toList = h + tok Kind.ctx c := by
      rw [Option.toList_some, toks_cons, toks_nil, add_zero]
    exact ((hs₁.ctx_get hy).congr htok).of_eq rfl rfl

/-! ## open -/

/-- A file with the references that it takes over, on a group that exists. -/
def Opened (h : Held Kind) (v : View) (file : Option File) (s' : State) : Prop :=
  match file with
  | none => At h v s'
  | some f => (∀ g, 0 < f.group_refs g → ∃ l, v.group_ctrls g = some l) ∧ At (h + f.held) v s'

theorem At.group_lt (hs : At h v s) {g : GroupId} {l : List CtrlId}
    (hg : v.group_ctrls g = some l) : g < s.groups.next := by
  obtain ⟨x, hx, -⟩ := hs.group_live hg
  exact Heap.lt_next_of_get hx

/-- A new file takes over its references. -/
theorem add_file_spec {ret : Int} {file : Option File} (hs : Opened h v file s) :
    wp (add_file ret file) E (fun _ s' => match file with
      | none => At h v s'
      | some f => (∀ g, 0 < f.group_refs g → ∃ l, v.group_ctrls g = some l) ∧
        At h { v with files := v.files.alloc f } s') s := by
  unfold add_file
  cases file with
  | none => exact hs
  | some f =>
    obtain ⟨hg, hs⟩ := hs
    rw [wp_bind, wp_modify]
    refine ⟨hg, hs.wf.file_alloc fun g hn => ?_, ?_⟩
    · by_contra hne
      obtain ⟨l, hl⟩ := hg g (Nat.pos_of_ne_zero hne)
      exact absurd (hs.group_lt hl) (Nat.not_lt.mpr hn)
    · rw [← hs.view]
      rfl

theorem bafs_core_open_file {task : Task} {env : CtxEnv} (hs : At h v s) :
    wp (bafs_core_open task env) E (fun r s' => Opened h v (r.2.map .core) s') s := by
  refine wp_mono (bafs_core_open_spec hs) fun r s₁ hs₁ => ?_
  obtain ⟨ret, c⟩ := r
  cases c with
  | none => exact hs₁.congr (by simp)
  | some c =>
    refine ⟨fun g hg => absurd hg (Nat.lt_irrefl 0), hs₁.congr ?_⟩
    rw [Option.toList_some, toks_cons, toks_nil, add_zero]
    rfl

theorem bafs_ctrl_open_spec {c : CtrlId} {x : BafsCtrl} {task : Task} {env : OpenEnv}
    (hs : At h v s) (hh : NonNeg h) (hc : s.ctrls.get c = some x) :
    wp (bafs_ctrl_open c task env) E (fun r s' => Opened h v r.2 s' ∧
      ∀ f, r.2 = some f → ∃ blk ctx, f = .ctrl ⟨blk, c, ctx⟩) s := by
  unfold bafs_ctrl_open
  rw [wp_bind, bafs_get_ctrl, wp_ctrl_upd hc]
  refine (kzalloc_spec (hs.ctrl_get hc) env.kzalloc).bind fun blk s₁ hs₁ => ?_
  obtain ⟨-, hs₁⟩ := hs₁
  cases blk with
  | none =>
    exact (bafs_ctrl_release_spec hs₁ hh).bind fun _ s₂ hs₂ => ⟨hs₂, (fun f hf => by cases hf)⟩
  | some blk =>
    refine (bafs_get_ctx_spec hs₁).bind fun r s₂ hs₂ => ?_
    cases r with
    | none =>
      have hs₂ := hs₂.congr (k := h + tok Kind.ctrl c) (by simp)
      refine (hs₂.keep (kfree_quiet quiet_at _)).bind fun _ s₃ hs₃ => ?_
      exact (bafs_ctrl_release_spec hs₃ hh).bind fun _ s₄ hs₄ => ⟨hs₄, (fun f hf => by cases hf)⟩
    | some ctx =>
      refine ⟨⟨fun g hg => absurd hg (Nat.lt_irrefl 0), hs₂.congr ?_⟩, fun f hf => ?_⟩
      · rw [Option.toList_some, toks_cons, toks_nil, add_zero, File.held, add_assoc]
        exact congrArg _ (add_comm _ _)
      · exact ⟨blk, ctx, (Option.some.inj hf).symm⟩

theorem bafs_group_open_spec {g : GroupId} {l : List CtrlId} {task : Task} {env : OpenEnv}
    (hs : At h v s) (hg : v.group_ctrls g = some l) :
    wp (bafs_group_open g task env) E (fun r s' => Opened h v r.2 s' ∧
      ∀ f, r.2 = some f → ∃ blk ctx, f = .group ⟨blk, g, ctx⟩) s := by
  have hpos := hs.group_pos hg
  unfold bafs_group_open
  refine (bafs_get_group_spec hs hg).bind fun _ s₀ hs₀ => ?_
  refine (kzalloc_spec hs₀ env.kzalloc).bind fun blk s₁ hs₁ => ?_
  obtain ⟨-, hs₁⟩ := hs₁
  cases blk with
  | none =>
    exact (bafs_put_group_spec hs₁ hg hpos).bind fun _ s₂ hs₂ =>
      ⟨hs₂, (fun f hf => by cases hf)⟩
  | some blk =>
    refine (bafs_get_ctx_spec hs₁).bind fun r s₂ hs₂ => ?_
    cases r with
    | none =>
      have hs₂ := hs₂.congr (k := h + tok Kind.group g) (by simp)
      refine (hs₂.keep (kfree_quiet quiet_at _)).bind fun _ s₃ hs₃ => ?_
      exact (bafs_put_group_spec hs₃ hg hpos).bind fun _ s₄ hs₄ =>
        ⟨hs₄, (fun f hf => by cases hf)⟩
    | some ctx =>
      refine ⟨⟨fun g' hg' => ?_, hs₂.congr ?_⟩, fun f hf => ?_⟩
      · by_cases he : g = g'
        · exact ⟨l, he ▸ hg⟩
        · rw [File.group_refs, if_neg he] at hg'
          exact absurd hg' (Nat.lt_irrefl 0)
      · rw [Option.toList_some, toks_cons, toks_nil, add_zero, File.held, add_assoc]
        exact congrArg _ (add_comm _ _)
      · exact ⟨blk, ctx, (Option.some.inj hf).symm⟩

/-! ## close -/

/-- The view after the file `i` has been closed, where `h` is what is left. -/
def View.close_file (v : View) (h : Held Kind) (i : FileId) (x : File) : View :=
  let w := { v with files := v.files.free i }.sweep_ctx x.ctx
  match x with
  | .group y => w.put_group h y.group
  | _ => w

/-- The group of an open file has been released. -/
def group_gone (v : View) : File → Prop
  | .group y => v.group_ctrls y.group = none
  | _ => False

theorem At.close_file (hs : At h v s) {i : FileId} {x : File} (hx : v.files.get i = some x) :
    At (h + x.held) { v with files := v.files.free i } { s with files := s.files.free i } := by
  rw [← hs.view] at hx
  refine ⟨hs.wf.file_free hx, ?_⟩
  rw [← hs.view]
  rfl

/-- The close of a file sweeps its context and drops what the file held. -/
theorem release_file_spec {i : FileId} {x : File} (hs : At h v s) (hh : NonNeg h)
    (hx : v.files.get i = some x) (hE : group_gone v x → E .freed_group) :
    wp (release_file x) E (fun _ s' => ¬group_gone v x ∧ At h (v.close_file h i x) s')
      { s with files := s.files.free i } := by
  have hs₀ := hs.close_file hx
  cases x with
  | core c =>
    refine (sweep_stale_spec hs₀ (hh.tok _ _) (.of_tok hh)).bind fun _ s₁ hs₁ => ?_
    exact wp_mono (bafs_put_ctx_spec hs₁ hh) fun _ _ hs₂ => ⟨id, hs₂⟩
  | ctrl y =>
    have hs₀ := hs₀.congr (k := h + tok Kind.ctrl y.ctrl + tok Kind.ctx y.ctx)
      (by rw [File.held]; abel)
    refine (sweep_stale_spec hs₀ ((hh.tok _ _).tok _ _) (.of_tok (hh.tok _ _))).bind
      fun _ s₁ hs₁ => ?_
    refine (bafs_put_ctx_spec hs₁ (hh.tok _ _)).bind fun _ s₂ hs₂ => ?_
    refine (bafs_ctrl_release_spec hs₂ hh).bind fun _ s₃ hs₃ => ?_
    exact wp_mono (hs₃.keep (kfree_quiet quiet_at _)) fun _ _ hs₄ => ⟨id, hs₄⟩
  | group y =>
    have hs₀ := hs₀.congr (k := h + tok Kind.group y.group + tok Kind.ctx y.ctx)
      (by rw [File.held]; abel)
    refine (sweep_stale_spec hs₀ ((hh.tok _ _).tok _ _) (.of_tok (hh.tok _ _))).bind
      fun _ s₁ hs₁ => ?_
    refine (bafs_put_ctx_spec hs₁ (hh.tok _ _)).bind fun _ s₂ hs₂ => ?_
    cases hg : v.group_ctrls y.group with
    | none =>
      rw [wp_bind, bafs_put_group]
      have hgone : s₂.groups.get y.group = none := by
        have := congrFun (congrArg View.group_ctrls hs₂.view) y.group
        exact Option.map_eq_none_iff.mp (this.trans hg)
      rw [wp_bind, debug_group, wp_modify, hgone, wp_bind]
      exact wp_load_of (fun _ => hE hg) fun x hx => by cases hgone.symm.trans hx
    | some l =>
      refine (bafs_put_group_any (l := l) hs₂ hh hg).bind fun _ s₃ hs₃ => ?_
      refine wp_mono (hs₃.keep (kfree_quiet quiet_at _)) fun _ _ hs₄ => ⟨fun hgone => ?_, hs₄⟩
      cases (show v.group_ctrls y.group = none from hgone).symm.trans hg

end BafsDriver
