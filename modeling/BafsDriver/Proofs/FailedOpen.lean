import BafsDriver.Proofs.DmaMapResult
import BafsDriver.Proofs.Ownership
import BafsDriver.Scenario

/-!
# What a failed open leaves behind

The opens take a reference to the device, memory, a reference to the `struct pid` of the process and a
place in `bafs_global_ctx_xa`, and give back what they have when the next is refused. `bafs_get_ctx`
keeps the reference to the `struct pid` when the place is refused; `bafs_core_open` drops it.
-/

set_option linter.style.nameCheck false

namespace BafsDriver

open Prog

variable {s t u : State} {E : Fault → Prop} {task : Task} {c : CtrlId} {k : BafsCtrl} {g : GroupId}
  {z : BafsGroup} {lost : List Nat}

/-! ## The claim -/

/-- Nothing is left of what happened between the two states. -/
structure NoTrace (s t : State) : Prop where
  bafs_global_ctx_xa : t.bafs_global_ctx_xa = s.bafs_global_ctx_xa
  ctxs : t.ctxs = s.ctxs
  ctrls : t.ctrls = s.ctrls
  groups : t.groups = s.groups
  files : t.files = s.files
  pids : ∀ p, t.pids.count p = s.pids.count p
  /-- Every block that was allocated has been freed once, and no other. -/
  blocks : s.blocks.Returned t.blocks

/-- If the open fails it leaves no trace, and `private_data` unset. -/
def fails_clean {α : Type} (s : State) (r : Int × Option α) (t : State) : Prop :=
  r.1 ≠ 0 → r.2 = none ∧ NoTrace s t

/-- The context has its memory and the pid, but is refused its place in `bafs_global_ctx_xa`. -/
def CtxEnv.refused (env : CtxEnv) : Prop :=
  env.kzalloc = true ∧ env.find_get_pid = true ∧ env.xa_insert.isSome

/-- The open of a ctrl or group file is refused for this. -/
def OpenEnv.refused (env : OpenEnv) : Prop := env.kzalloc = true ∧ env.ctx.refused

instance (env : CtxEnv) : Decidable env.refused := inferInstanceAs (Decidable (_ ∧ _ ∧ _))

instance (env : OpenEnv) : Decidable env.refused := inferInstanceAs (Decidable (_ ∧ _))

/-! ## Unwinding -/

/-- Nothing is left but the references `lost` to `struct pid` objects. -/
structure Unwound (lost : List Nat) (s t : State) : Prop where
  bafs_global_ctx_xa : t.bafs_global_ctx_xa = s.bafs_global_ctx_xa
  ctxs : t.ctxs = s.ctxs
  ctrls : t.ctrls = s.ctrls
  groups : t.groups = s.groups
  files : t.files = s.files
  pids : t.pids = lost ++ s.pids
  blocks : s.blocks.Returned t.blocks

theorem Unwound.refl : Unwound [] s s := ⟨rfl, rfl, rfl, rfl, rfl, rfl, .refl _⟩

theorem Unwound.no_trace (hu : Unwound [] s t) : NoTrace s t :=
  ⟨hu.bafs_global_ctx_xa, hu.ctxs, hu.ctrls, hu.groups, hu.files, fun p => by rw [hu.pids]; rfl, hu.blocks⟩

/-- A lost reference is a trace. -/
theorem Unwound.trace {p : Nat} (hu : Unwound [p] s t) : ¬NoTrace s t := by
  intro hno
  have hp := hno.pids p
  rw [hu.pids, List.singleton_append, List.count_cons_self] at hp
  omega

/-- A block that was taken first is freed last. -/
theorem Unwound.free (hu : Unwound lost { s with blocks := s.blocks.alloc () } t)
    (hold : ∀ b ∈ s.blocks.freed, b < s.blocks.next) :
    Unwound lost s { t with blocks := t.blocks.free s.blocks.next } :=
  ⟨hu.1, hu.2, hu.3, hu.4, hu.5, hu.6, hu.blocks.bracket hold⟩

/-- The context for a new core file is made, or nothing is left of it. -/
theorem bafs_core_open_unwound {env : CtxEnv} (hold : ∀ b ∈ s.blocks.freed, b < s.blocks.next) :
    wp (bafs_core_open task env) E (fun r t => r.1 ≠ 0 → r.2 = none ∧ Unwound [] s t) s := by
  have hfree : Unwound [] s { s with blocks := (s.blocks.alloc ()).free s.blocks.next } :=
    Unwound.refl.free hold
  unfold bafs_core_open find_get_pid
  rw [wp_bind, wp_kzalloc]
  cases env.kzalloc with
  | false =>
    rw [if_neg (by decide)]
    exact fun _ => ⟨rfl, .refl⟩
  | true =>
    rw [if_pos rfl]
    cases env.find_get_pid with
    | false => exact fun _ => ⟨rfl, hfree⟩
    | true =>
      dsimp only
      rw [wp_bind, if_pos rfl, wp_bind, wp_modify, wp_pure, if_pos rfl, wp_bind, wp_get]
      refine wp_ite (fun _ => ?_) fun _ => ?_
      · unfold put_pid kfree
        rw [wp_bind, wp_modify, wp_bind, wp_modify]
        refine fun _ => ⟨rfl, ?_⟩
        show Unwound [] s { s with
          pids := (task.tgid_struct :: s.pids).erase task.tgid_struct
          blocks := (s.blocks.alloc ()).free s.blocks.next }
        rw [List.erase_cons_head]
        exact hfree
      · exact fun h0 => absurd rfl h0

/-- The context of a process is found or made, or nothing is left but the pid where the context is
refused its place. -/
theorem bafs_get_ctx_unwound {env : CtxEnv} (hl : ∀ c, s.bafs_global_ctx_xa.lookup task.tgid = some c →
      ∃ y, s.ctxs.get c = some y) (hold : ∀ b ∈ s.blocks.freed, b < s.blocks.next) :
    wp (bafs_get_ctx task env) E (fun r t => (env.refused → r = none) ∧
      (r = none → Unwound (if env.refused then [task.tgid_struct] else []) s t)) s := by
  have hfree : Unwound [] s { s with blocks := (s.blocks.alloc ()).free s.blocks.next } :=
    Unwound.refl.free hold
  unfold bafs_get_ctx find_get_pid
  rw [wp_bind, wp_kzalloc]
  cases hk : env.kzalloc with
  | false =>
    have hno : ¬env.refused := fun hr => by cases hk.symm.trans hr.1
    rw [if_neg (by decide), if_neg hno]
    exact ⟨fun hr => absurd hr hno, fun _ => .refl⟩
  | true =>
    rw [if_pos rfl]
    cases hp : env.find_get_pid with
    | false =>
      have hno : ¬env.refused := fun hr => by cases hp.symm.trans hr.2.1
      rw [if_neg hno]
      exact ⟨fun hr => absurd hr hno, fun _ => hfree⟩
    | true =>
      dsimp only
      rw [wp_bind, if_pos rfl, wp_bind, wp_modify, wp_pure, if_pos rfl, wp_bind, wp_get]
      cases hx : env.xa_insert with
      | some e =>
        have hyes : env.refused := ⟨hk, hp, by rw [hx]; rfl⟩
        rw [if_pos hyes]
        exact ⟨fun _ => rfl, fun _ => ⟨rfl, rfl, rfl, rfl, rfl, rfl, hfree.blocks⟩⟩
      | none =>
        have hno : ¬env.refused := fun hr => by
          have := hr.2.2
          rw [hx] at this
          cases this
        cases hn : s.bafs_global_ctx_xa.lookup task.tgid with
        | none => exact ⟨fun hr => absurd hr hno, fun hr => by cases hr⟩
        | some c =>
          obtain ⟨y, hy⟩ := hl c hn
          dsimp only
          rw [wp_bind, ctx_kref_get]
          refine (wp_ctx_upd (x := y) (by exact hy)).mpr ?_
          exact ⟨fun hr => absurd hr hno, fun hr => by cases hr⟩

/-- A reference to the controller was taken before, and is dropped now. -/
theorem Unwound.put_ctrl (hu : Unwound lost { s with ctrls := s.ctrls.set c { k with ref := k.ref + 1 } } t)
    (hk : s.ctrls.get c = some k) (hpos : 0 < k.ref) :
    wp (bafs_ctrl_release c) E (fun _ u => Unwound lost s u) t := by
  have hctrls : t.ctrls = s.ctrls.set c { k with ref := k.ref + 1 } := hu.ctrls
  have hget : t.ctrls.get c = some { k with ref := k.ref + 1 } := by
    rw [hctrls]
    exact Heap.get_set_self hk
  refine (wp_ctrl_release_kept hget (by show k.ref + 1 ≠ 1; omega)).mpr ?_
  refine ⟨hu.1, hu.2, ?_, hu.4, hu.5, hu.6, hu.7⟩
  show t.ctrls.set c _ = s.ctrls
  rw [hctrls, Heap.set_set, Nat.add_sub_cancel]
  exact Heap.set_self hk

theorem debug_group_exists {Q : Unit → State → Prop} (hz : s.groups.get g = some z) :
    wp (debug_group g) E Q s ↔ Q () s := by
  unfold debug_group
  rw [wp_modify, hz]
  rfl

theorem Unwound.put_group
    (hu : Unwound lost { s with groups := s.groups.set g { z with ref := z.ref + 1 } } t)
    (hz : s.groups.get g = some z) (hpos : 0 < z.ref) :
    wp (bafs_put_group g) E (fun _ u => Unwound lost s u) t := by
  have hgroups : t.groups = s.groups.set g { z with ref := z.ref + 1 } := hu.groups
  have hget : t.groups.get g = some { z with ref := z.ref + 1 } := by
    rw [hgroups]
    exact Heap.get_set_self hz
  have hne : z.ref + 1 ≠ 1 := by omega
  unfold bafs_put_group
  rw [wp_bind, debug_group_exists hget, wp_bind, wp_group_at hget, wp_bind, wp_group_upd hget,
    if_neg hne]
  refine (debug_group_exists (by exact Heap.get_set_self hget)).mpr ?_
  refine ⟨hu.1, hu.2, hu.3, ?_, hu.5, hu.6, hu.7⟩
  show t.groups.set g _ = s.groups
  rw [hgroups, Heap.set_set, Nat.add_sub_cancel]
  exact Heap.set_self hz

/-- What the opens of ctrl and group files do in the state `s₁`, in which they have the device, until
they give it back by `put`. -/
theorem open_unwound {env : OpenEnv} {put : Drv Unit} {file : BlockId → CtxId → File} {s₁ : State}
    (hput : ∀ lost t, Unwound lost s₁ t → wp put E (fun _ u => Unwound lost s u) t)
    (hl : ∀ c, s₁.bafs_global_ctx_xa.lookup task.tgid = some c → ∃ y, s₁.ctxs.get c = some y)
    (hold : ∀ b ∈ s₁.blocks.freed, b < s₁.blocks.next) :
    wp (do
      match ← kzalloc env.kzalloc with
      | none =>
        put
        pure (-ENOMEM, none)
      | some blk =>
        match ← bafs_get_ctx task env.ctx with
        | none =>
          kfree blk
          put
          pure (-EINVAL, none)
        | some ctx => pure (0, some (file blk ctx)) : Drv (Int × Option File)) E
      (fun r t => (env.refused → r.1 ≠ 0) ∧ (r.1 ≠ 0 →
        r.2 = none ∧ Unwound (if env.refused then [task.tgid_struct] else []) s t)) s₁ := by
  rw [wp_bind, wp_kzalloc]
  cases hz : env.kzalloc with
  | false =>
    have hno : ¬env.refused := fun hr => by cases hz.symm.trans hr.1
    rw [if_neg (by decide), if_neg hno]
    refine (hput [] s₁ .refl).bind fun _ u hu => ?_
    exact ⟨fun hr => absurd hr hno, fun _ => ⟨rfl, hu⟩⟩
  | true =>
    rw [if_pos rfl]
    have hsame : env.refused ↔ env.ctx.refused := ⟨fun hr => hr.2, fun hr => ⟨hz, hr⟩⟩
    have hold' : ∀ b ∈ (s₁.blocks.alloc ()).freed, b < (s₁.blocks.alloc ()).next := fun b hb => by
      rw [Heap.next_alloc]
      exact Nat.lt_succ_of_lt (hold b hb)
    refine (bafs_get_ctx_unwound (by exact hl) (by exact hold')).bind fun r t ht => ?_
    obtain ⟨hrefused, hnone⟩ := ht
    cases r with
    | some ctx =>
      have hno : ¬env.refused := fun hr => nomatch hrefused (hsame.mp hr)
      exact ⟨fun hr => absurd hr hno, fun h0 => absurd rfl h0⟩
    | none =>
      have hu := (hnone rfl).free hold
      unfold kfree
      dsimp only
      rw [wp_bind, wp_modify]
      refine (hput _ _ hu).bind fun _ u hu => ?_
      refine ⟨fun _ => (by decide : (-EINVAL : Int) ≠ 0), fun _ => ⟨rfl, ?_⟩⟩
      simp only [hsame]
      exact hu

/-- The open of a ctrl file that fails leaves nothing but the pid where the context is refused its
place. -/
theorem bafs_ctrl_open_unwound {env : OpenEnv} (hk : s.ctrls.get c = some k) (hpos : 0 < k.ref)
    (hl : ∀ c, s.bafs_global_ctx_xa.lookup task.tgid = some c → ∃ y, s.ctxs.get c = some y)
    (hold : ∀ b ∈ s.blocks.freed, b < s.blocks.next) :
    wp (bafs_ctrl_open c task env) E (fun r t => (env.refused → r.1 ≠ 0) ∧
      (r.1 ≠ 0 → r.2 = none ∧ Unwound (if env.refused then [task.tgid_struct] else []) s t)) s := by
  unfold bafs_ctrl_open bafs_get_ctrl
  rw [wp_bind, wp_ctrl_upd hk]
  exact open_unwound (fun _ _ hu => hu.put_ctrl hk hpos) hl hold

theorem bafs_group_open_unwound {env : OpenEnv} (hz : s.groups.get g = some z) (hpos : 0 < z.ref)
    (hl : ∀ c, s.bafs_global_ctx_xa.lookup task.tgid = some c → ∃ y, s.ctxs.get c = some y)
    (hold : ∀ b ∈ s.blocks.freed, b < s.blocks.next) :
    wp (bafs_group_open g task env) E (fun r t => (env.refused → r.1 ≠ 0) ∧
      (r.1 ≠ 0 → r.2 = none ∧ Unwound (if env.refused then [task.tgid_struct] else []) s t)) s := by
  unfold bafs_group_open bafs_get_group
  rw [wp_bind, wp_group_upd hz]
  exact open_unwound (fun _ _ hu => hu.put_group hz hpos) hl hold

/-- An open that unwinds but for the pid fails clean exactly if the context is not refused. -/
theorem fails_clean_iff {α : Type} {open_ : Drv (Int × Option α)} {env : OpenEnv}
    (hopen : ∀ E, wp open_ E (fun r t => (env.refused → r.1 ≠ 0) ∧ (r.1 ≠ 0 → r.2 = none ∧
      Unwound (if env.refused then [task.tgid_struct] else []) s t)) s) :
    wp open_ (fun _ => False) (fails_clean s) s ↔ ¬env.refused := by
  constructor
  · intro hclean hr
    obtain ⟨r, t, ⟨hfail, hu⟩, hc⟩ := wp_join (hopen fun _ => False) hclean fun _ he _ => he
    have hne := hfail hr
    have htrace := (hu hne).2
    rw [if_pos hr] at htrace
    exact htrace.trace (hc hne).2
  · intro hno
    refine wp_mono (hopen _) fun r t ht hne => ?_
    obtain ⟨hnone, hu⟩ := ht.2 hne
    rw [if_neg hno] at hu
    exact ⟨hnone, hu.no_trace⟩

/-- In every state that a run reaches an open of the core device that fails leaves no trace, and one
of a ctrl or group device exactly if the context is not refused its place in `bafs_global_ctx_xa`. -/
theorem failed_open_leaves_no_trace (rs : List Request) : Always step (fun _ => True) (fun s =>
    (∀ task env, wp (bafs_core_open task env) (fun _ => False) (fails_clean s) s) ∧
    (∀ c k task env, s.ctrls.get c = some k →
      (wp (bafs_ctrl_open c task env) (fun _ => False) (fails_clean s) s ↔ ¬env.refused)) ∧
    ∀ g z task env, s.groups.get g = some z →
      (wp (bafs_group_open g task env) (fun _ => False) (fails_clean s) s ↔ ¬env.refused)) rs init := by
  refine always_of_step (I := LoanInv) (fun s r hi => hi.step r) (fun s hi => ?_) rs .init
  obtain ⟨h, hl, hs⟩ := hi.inv.sane.at
  have hold : ∀ b ∈ s.blocks.freed, b < s.blocks.next := fun b hb => block_freed_lt hi.loans hb
  have hctx : ∀ tgid c, s.bafs_global_ctx_xa.lookup tgid = some c → ∃ y, s.ctxs.get c = some y := by
    intro tgid c hc
    obtain ⟨y, hy, -⟩ := (hs.wf.tables.global tgid c).mp hc
    exact ⟨y, hy⟩
  refine ⟨fun task env => ?_, fun c k task env hk => ?_, fun g z task env hz => ?_⟩
  · refine wp_mono (bafs_core_open_unwound hold) fun r t ht hne => ?_
    obtain ⟨hnone, hu⟩ := ht hne
    exact ⟨hnone, hu.no_trace⟩
  · have hpos := hs.wf.ctrl.pos c k hk
    exact fails_clean_iff fun E => bafs_ctrl_open_unwound hk hpos (hctx _) hold
  · have hpos := hs.wf.group.pos g z hz
    exact fails_clean_iff fun E => bafs_group_open_unwound hz hpos (hctx _) hold

/-- The place of the context is refused. -/
def no_place : OpenEnv := { granted_open with ctx := { granted_ctx with xa_insert := some ⟨12, by decide⟩ } }

/-- Whether the open of controller 0 fails and leaves a reference to the pid. -/
def pid_left (s : State) : Bool :=
  match bafs_ctrl_open 0 a_task no_place s with
  | .ok (r, t) => r.1 ≠ 0 && (s.ctrls.get 0).isSome && t.pids.count 1 ≠ s.pids.count 1
  | .error _ => false

/-- The reference to the pid is never dropped. -/
theorem refused_place_leaves_pid : ¬Always step (fun _ => True) (fun s =>
    ∀ c k task env, s.ctrls.get c = some k →
      wp (bafs_ctrl_open c task env) (fun _ => False) (fails_clean s) s) [.bind 0 0x100000 4096] init := by
  intro hall
  obtain ⟨s, hs, hp⟩ := hall.of_ends (p := pid_left) (by decide +kernel)
  unfold pid_left at hp
  cases hopen : bafs_ctrl_open 0 a_task no_place s with
  | error e =>
    rw [hopen] at hp
    cases hp
  | ok q =>
    obtain ⟨r, t⟩ := q
    rw [hopen] at hp
    simp only [Bool.and_eq_true, decide_eq_true_eq] at hp
    obtain ⟨⟨hne, hk⟩, hcount⟩ := hp
    obtain ⟨k, hk⟩ := Option.isSome_iff_exists.mp hk
    have hclean := wp_ok (hs 0 k a_task no_place hk) hopen
    exact hcount ((hclean hne).2.pids 1)

end BafsDriver
