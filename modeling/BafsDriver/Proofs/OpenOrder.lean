import BafsDriver.Proofs.RegProofs
import BafsDriver.Proofs.TraceProofs
import BafsDriver.Scenario

/-!
# The order of opens

The open of the core device makes the context of a process and fails where it has one; the opens of
the other devices share it.
-/

namespace BafsDriver

open Prog

variable {h h' : Held Kind} {v v' : View} {s s' : State} {r : Request} {E : Fault → Prop}

/-! ## The claim -/

/-- The task that a request opens a file for. -/
def Request.opener : Request → Option Task
  | .open_core task _ => some task
  | .open_ctrl _ task _ => some task
  | .open_group _ task _ => some task
  | _ => none

/-- Memory and the pid are there for a context. -/
def CtxEnv.grants (env : CtxEnv) : Prop :=
  env.kzalloc = true ∧ env.find_get_pid = true ∧ env.xa_insert = none

/-- The device exists, and memory and the pid are there. -/
def grants (s : State) : Request → Prop
  | .open_core _ env => env.grants
  | .open_ctrl c _ env => (s.ctrls.get c).isSome ∧ env.kzalloc = true ∧ env.ctx.grants
  | .open_group g _ env => (s.groups.get g).isSome ∧ env.kzalloc = true ∧ env.ctx.grants
  | _ => False

/-- As long as the file `x` is open under `f`, another file that the process opens gets its context. -/
def Shares (f : FileId) (x : File) (tgid : Nat) (s : State) : Prop :=
  s.files.get f = some x → ∀ r t, r.opener = some t → t.tgid = tgid → grants s r →
    wp (step r) (fun _ => True) (fun _ s' => ∀ y, s'.files = s.files.alloc y → y.ctx = x.ctx) s

/-- The request opens a file, and whatever the requests after it, all files that the process opens
while that one is open have its context. -/
def OpensShared (s : State) (r : Request) (t : Task) : Prop :=
  wp (step r) (fun _ => False) (fun reply s' => reply.ret = 0 ∧ ∃ x, s'.files = s.files.alloc x ∧
    ∀ rs, Always step (fun _ => True) (Shares s.files.next x t.tgid) rs s') s

/-- The request opens the core device for a process that has a context already. -/
def core_again (s : State) (r : Request) (t : Task) : Prop :=
  (∃ env, r = .open_core t env) ∧ (s.bafs_global_ctx_xa.lookup t.tgid).isSome

/-! ## What an open gets -/

/-- The context `c` is that of the process, in `s'` and, if it had one, in `s`. -/
def IsCtxOf (s : State) (tgid : Nat) (c : CtxId) (s' : State) : Prop :=
  s'.files = s.files ∧ s'.bafs_global_ctx_xa.lookup tgid = some c ∧
    ∀ c', s.bafs_global_ctx_xa.lookup tgid = some c' → c' = c

theorem publish_ctx_ctxOf {x : BafsCtx} (hn : s.bafs_global_ctx_xa.lookup x.tgid = none) :
    wp (publish_ctx x) E (fun c s' => IsCtxOf s x.tgid c s') s := by
  refine ⟨rfl, AList.lookup_insert .., fun c' hc => ?_⟩
  cases hn.symm.trans hc

theorem bafs_core_open_granted {task : Task} {env : CtxEnv} (hg : env.grants) :
    wp (bafs_core_open task env) E (fun r s' =>
      if (s.bafs_global_ctx_xa.lookup task.tgid).isSome then r.1 < 0 ∧ r.2 = none ∧ s'.files = s.files
      else ∃ c, r = (0, some c) ∧ IsCtxOf s task.tgid c s') s := by
  obtain ⟨hk, hp, hx⟩ := hg
  unfold bafs_core_open find_get_pid
  rw [hk, hp, wp_bind, wp_kzalloc, if_pos rfl]
  dsimp only
  rw [wp_bind, if_pos rfl, wp_bind, wp_modify, wp_pure, if_pos rfl, wp_bind, wp_get]
  rw [hx]
  refine wp_ite (fun hc => ?_) fun hc => ?_
  · have hc : (s.bafs_global_ctx_xa.lookup task.tgid).isSome := hc.resolve_left (by decide)
    simp only [if_pos hc]
    exact ⟨(by decide : -ENOMEM < 0), rfl, rfl⟩
  · rw [not_or] at hc
    simp only [if_neg hc.2]
    refine wp.bind (publish_ctx_ctxOf (Option.not_isSome_iff_eq_none.mp hc.2)) fun c s₁ hc₁ => ?_
    exact ⟨c, rfl, hc₁⟩

theorem bafs_get_ctx_granted {task : Task} {env : CtxEnv} (hg : env.grants)
    (hl : ∀ c, s.bafs_global_ctx_xa.lookup task.tgid = some c → ∃ y, s.ctxs.get c = some y) :
    wp (bafs_get_ctx task env) E (fun r s' => ∃ c, r = some c ∧ IsCtxOf s task.tgid c s') s := by
  obtain ⟨hk, hp, hx⟩ := hg
  unfold bafs_get_ctx find_get_pid
  rw [hk, hp, wp_bind, wp_kzalloc, if_pos rfl]
  dsimp only
  rw [wp_bind, if_pos rfl, wp_bind, wp_modify, wp_pure, if_pos rfl, wp_bind, wp_get, hx]
  cases hn : s.bafs_global_ctx_xa.lookup task.tgid with
  | none => exact wp.bind (publish_ctx_ctxOf hn) fun c s₁ hc₁ => ⟨c, rfl, hc₁⟩
  | some c =>
    obtain ⟨y, hy⟩ := hl c hn
    dsimp only
    rw [wp_bind, ctx_kref_get]
    refine (wp_ctx_upd (x := y) (by exact hy)).mpr ?_
    exact ⟨c, rfl, rfl, hn, fun c' hc' => Option.some.inj (hc'.symm.trans hn)⟩

/-- The global table names contexts that exist. -/
def Registered (s : State) : Prop :=
  ∀ t c, s.bafs_global_ctx_xa.lookup t = some c → ∃ y, s.ctxs.get c = some y

theorem bafs_ctrl_open_granted {c : CtrlId} {task : Task} {env : OpenEnv} (hr : Registered s)
    (hc : (s.ctrls.get c).isSome) (hk : env.kzalloc = true) (hg : env.ctx.grants) :
    wp (bafs_ctrl_open c task env) E (fun r s' => ∃ x, r = (0, some x) ∧
      IsCtxOf s task.tgid x.ctx s') s := by
  obtain ⟨z, hz⟩ := Option.isSome_iff_exists.mp hc
  unfold bafs_ctrl_open
  rw [wp_bind, bafs_get_ctrl, wp_ctrl_upd hz, hk, wp_bind, wp_kzalloc, if_pos rfl]
  refine (bafs_get_ctx_granted (s := { s with
    ctrls := s.ctrls.set c { z with ref := z.ref + 1 }, blocks := s.blocks.alloc () }) hg
    (hr task.tgid)).bind fun r s₁ hr₁ => ?_
  obtain ⟨ctx, rfl, hf, hl, ho⟩ := hr₁
  exact ⟨.ctrl ⟨_, c, ctx⟩, rfl, hf, hl, ho⟩

theorem bafs_group_open_granted {g : GroupId} {task : Task} {env : OpenEnv} (hr : Registered s)
    (hc : (s.groups.get g).isSome) (hk : env.kzalloc = true) (hg : env.ctx.grants) :
    wp (bafs_group_open g task env) E (fun r s' => ∃ x, r = (0, some x) ∧
      IsCtxOf s task.tgid x.ctx s') s := by
  obtain ⟨z, hz⟩ := Option.isSome_iff_exists.mp hc
  unfold bafs_group_open
  rw [wp_bind, bafs_get_group, wp_group_upd hz, hk, wp_bind, wp_kzalloc, if_pos rfl]
  refine (bafs_get_ctx_granted (s := { s with
    groups := s.groups.set g { z with ref := z.ref + 1 }, blocks := s.blocks.alloc () }) hg
    (hr task.tgid)).bind fun r s₁ hr₁ => ?_
  obtain ⟨ctx, rfl, hf, hl, ho⟩ := hr₁
  exact ⟨.group ⟨_, g, ctx⟩, rfl, hf, hl, ho⟩

/-- What a granted open comes to: it fails, or it opens a file with the context of the process. -/
def OpenResult (s : State) (r : Request) (t : Task) (reply : Reply) (s' : State) : Prop :=
  (core_again s r t ∧ reply.ret ≠ 0 ∧ s'.files = s.files) ∨
    (¬core_again s r t ∧ reply.ret = 0 ∧ ∃ x, s'.files = s.files.alloc x ∧
      s'.bafs_global_ctx_xa.lookup t.tgid = some x.ctx ∧
      ∀ c, s.bafs_global_ctx_xa.lookup t.tgid = some c → c = x.ctx)

theorem add_file_ctxOf {x : File} {t : Task} {s₁ : State} (hx : IsCtxOf s t.tgid x.ctx s₁)
    (hno : ¬core_again s r t) :
    wp (add_file 0 (some x)) E (fun reply s' => OpenResult s r t reply s') s₁ := by
  obtain ⟨hf, hl, hold⟩ := hx
  refine .inr ⟨hno, rfl, x, ?_, hl, hold⟩
  show s₁.files.alloc x = _
  rw [hf]

theorem step_open_granted {t : Task} (hr : Registered s) (ho : r.opener = some t) (hg : grants s r) :
    wp (step r) E (fun reply s' => OpenResult s r t reply s') s := by
  cases r with
  | open_core task env =>
    obtain rfl := Option.some.inj ho
    refine (bafs_core_open_granted hg).bind fun q s₁ hq => ?_
    by_cases hc : (s.bafs_global_ctx_xa.lookup task.tgid).isSome
    · rw [if_pos hc] at hq
      obtain ⟨ret, c⟩ := q
      obtain ⟨hret, hnone, hf⟩ := hq
      obtain rfl : c = none := hnone
      exact .inl ⟨⟨⟨env, rfl⟩, hc⟩, ne_of_lt hret, hf⟩
    · rw [if_neg hc] at hq
      obtain ⟨c, rfl, hc'⟩ := hq
      exact add_file_ctxOf (x := .core c) hc' fun hcore => hc hcore.2
  | open_ctrl c task env =>
    obtain rfl := Option.some.inj ho
    obtain ⟨hc, hk, hg⟩ := hg
    unfold step
    rw [wp_bind, wp_get]
    refine wp_ite (fun hn => ?_) fun _ => ?_
    · rw [Option.isNone_iff_eq_none.mp hn] at hc
      cases hc
    · refine (bafs_ctrl_open_granted hr hc hk hg).bind fun q s₁ hq => ?_
      obtain ⟨x, rfl, hx⟩ := hq
      refine add_file_ctxOf hx fun hcore => ?_
      obtain ⟨⟨env', he⟩, -⟩ := hcore
      cases he
  | open_group g task env =>
    obtain rfl := Option.some.inj ho
    obtain ⟨hc, hk, hg⟩ := hg
    unfold step
    rw [wp_bind, wp_get]
    refine wp_ite (fun hn => ?_) fun _ => ?_
    · rw [Option.isNone_iff_eq_none.mp hn] at hc
      cases hc
    · refine (bafs_group_open_granted hr hc hk hg).bind fun q s₁ hq => ?_
      obtain ⟨x, rfl, hx⟩ := hq
      refine add_file_ctxOf hx fun hcore => ?_
      obtain ⟨⟨env', he⟩, -⟩ := hcore
      cases he
  | _ => cases ho

/-! ## Files over a run -/

theorem Mmap.files {x : File} {env : MmapEnv} {vma : Vma} {w : Option Vma}
    (hm : Mmap h v s x vma env w h' v') : v'.files = v.files := by
  cases hm <;> rfl

theorem Ioctl.files {x : File} {cmd : Nat} {arg : IoctlArg} {env : IoctlEnv} {reply : IoctlReply}
    (hi : Ioctl h v s x cmd arg env reply h' v') : v'.files = v.files := by
  cases hi with
  | create hx hcmd hc => exact congrArg (·.2.2.2.2.1) hc.regs
  | delete hx hcmd hd => exact congrArg (·.2.2.2.2.1) hd.regs
  | _ => rfl

theorem View.revoke_mem_files {m : MemId} {f : BafsMem} : (v.revoke_mem m f).files = v.files := by
  unfold revoke_mem
  split <;> rfl

/-- What a request makes of the open files. -/
theorem Effect.files (he : Effect h v s r h' v') : v'.files = v.files ∨
    (∃ x, v'.files = v.files.alloc x) ∨ ∃ i, v'.files = v.files.free i := by
  cases he with
  | opened => exact .inr (.inl ⟨_, rfl⟩)
  | close => exact .inr (.inr ⟨_, congrArg (·.2.2.2.2.1) (View.close_file_regs v _ _ _)⟩)
  | ioctl hx hi => exact .inl hi.files
  | mmap hx hr hm => exact .inl hm.files
  | mmap_failed hx hr hm => exact .inl hm.files
  | revoke => exact .inl View.revoke_mem_files
  | _ => exact .inl rfl

/-- The file `x`, as long as it is open under `f`, has a context of the process. -/
structure FileOf (f : FileId) (x : File) (tgid : Nat) (s : State) : Prop where
  inv : Inv s
  lt : f < s.files.next
  ctx : s.files.get f = some x → s.bafs_global_ctx_xa.lookup tgid = some x.ctx

theorem FileOf.step {f : FileId} {x : File} {tgid : Nat} (r : Request) (hi : FileOf f x tgid s) :
    wp (BafsDriver.step r) (fun _ => True) (fun _ s' => FileOf f x tgid s') s := by
  obtain ⟨h, hl, hs, hw⟩ := step_inv r hi.inv
  refine wp_mono (wp_and (step_recorded r s (fun _ _ => trivial) fun _ _ => trivial) hw) fun _ s' hs' => ?_
  obtain ⟨⟨-, hctxs⟩, hinv, h', hl', hs', he⟩ := hs'
  have hfiles : s'.files = s.files ∨ (∃ x, s'.files = s.files.alloc x) ∨
      ∃ i, s'.files = s.files.free i := he.files
  refine ⟨hinv, ?_, fun hx => ?_⟩
  · have hlt := hi.lt
    obtain hf | ⟨x, hf⟩ | ⟨i, hf⟩ := hfiles
    · rwa [hf]
    · rw [hf, Heap.next_alloc]
      exact Nat.lt_succ_of_lt hlt
    · rwa [hf, Heap.next_free]
  · -- the file was open before, with a context of the process
    have hx₀ : s.files.get f = some x := by
      obtain hf | ⟨x', hf⟩ | ⟨i, hf⟩ := hfiles
      · rwa [hf] at hx
      · rw [hf] at hx
        exact (Heap.get_alloc_cases hx).resolve_left fun hn => absurd hn.1 hi.lt.ne
      · rw [hf] at hx
        exact (Heap.get_of_free hx).2
    obtain ⟨y, hy, ht⟩ := (hs.wf.tables.global tgid x.ctx).mp (hi.ctx hx₀)
    -- and the context is still there
    obtain ⟨y', hy'⟩ := hs'.ctx_live (CtxHeld.of_file hl'.nonneg (v := s'.view) hx)
    refine (hs'.wf.tables.global tgid x.ctx).mpr ⟨y', hy', ?_⟩
    obtain hn | ⟨y₀, hy₀, ht₀⟩ := hctxs.kept x.ctx y' hy'
    · exact absurd (Heap.lt_next_of_get hy) (not_lt.mpr hn)
    · rw [← ht₀.1, Option.some.inj (hy₀.symm.trans hy)]
      exact ht

theorem Inv.registered (hi : Inv s) : Registered s := by
  obtain ⟨h, -, hs⟩ := hi.sane.at
  intro t c hc
  obtain ⟨y, hy, -⟩ := (hs.wf.tables.global t c).mp hc
  exact ⟨y, hy⟩

theorem FileOf.shares {f : FileId} {x : File} {tgid : Nat} (hi : FileOf f x tgid s) :
    Shares f x tgid s := by
  intro hx r t ho ht hg
  refine wp_mono (step_open_granted hi.inv.registered ho hg) fun reply s' hs' y hy => ?_
  obtain ⟨-, -, hf⟩ | ⟨-, -, z, hz, -, hold⟩ := hs'
  · have := congrArg Heap.next (hf.symm.trans hy)
    simp at this
  · have hyz : y = z := by
      have := congrArg (fun F : Heap File => F.get s.files.next) (hy.symm.trans hz)
      simpa [Heap.get_alloc] using this
    rw [hyz]
    exact (hold x.ctx (ht ▸ hi.ctx hx)).symm

/-! ## The claim over runs -/

/-- A granted open succeeds and shares the context of the process, in every state that a run reaches,
exactly if it is not one of the core device for a process that has a context. -/
theorem open_order (rs : List Request) : Always step (fun _ => True) (fun s =>
    ∀ r t, r.opener = some t → grants s r → (OpensShared s r t ↔ ¬core_again s r t)) rs init := by
  refine always_of_inv (fun s hi r t ho hg => ?_) rs
  have hres := step_open_granted (E := fun _ => False) hi.registered ho hg
  constructor
  · intro hw hcore
    obtain ⟨reply, s', hs', hret, -⟩ := wp_join hres hw fun _ he _ => he
    obtain ⟨-, hne, -⟩ | ⟨hno, -⟩ := hs'
    · exact hne hret
    · exact hno hcore
  · intro hno
    refine wp_mono (wp_and hres (step_keeps_inv r hi)) fun reply s' hs' => ?_
    obtain ⟨⟨hcore, -⟩ | ⟨-, hret, x, hx, hl, -⟩, hi'⟩ := hs'
    · exact absurd hcore hno
    · refine ⟨hret, x, hx, fun rs => ?_⟩
      have hfile : FileOf s.files.next x t.tgid s' := by
        refine ⟨hi', ?_, fun _ => hl⟩
        rw [hx, Heap.next_alloc]
        exact Nat.lt_succ_self _
      exact always_of_step (fun _ r hi => FileOf.step r hi) (fun _ hi => hi.shares) rs hfile

/-- A ctrl file is open. -/
def ctrl_first : List Request := [.bind 0 0x100000 4096, .open_ctrl 0 a_task granted_open]

/-- The open of the core device fails after that of a ctrl device. -/
theorem core_after_ctrl : ∃ s, run step ctrl_first init = .ok s ∧
    grants s (.open_core a_task granted_ctx) ∧ ¬OpensShared s (.open_core a_task granted_ctx) a_task := by
  have hend : ends step (fun s => (step (.open_core a_task granted_ctx) s).toOption.any
      fun q => q.1.ret == -ENOMEM) ctrl_first init = true := by decide +kernel
  obtain ⟨hrun, hd⟩ := run_final hend
  generalize final step ctrl_first init = s at hrun hd
  refine ⟨s, hrun, ⟨rfl, rfl, rfl⟩, fun hw => ?_⟩
  unfold OpensShared wp at hw
  cases hc : step (.open_core a_task granted_ctx) s with
  | error e =>
    rw [hc] at hd
    cases hd
  | ok q =>
    rw [hc] at hd hw
    obtain ⟨hret, -⟩ := hw
    exact absurd (hret.symm.trans (beq_iff_eq.mp hd)) (by decide)

end BafsDriver
