import BafsDriver.Proofs.RegProofs

/-!
# The registry of contexts

Every run keeps one context for a process, counts what refers to it, and frees it when nothing does.
-/

namespace BafsDriver

open Prog

variable {s : State}

/-- The global table names the contexts by their processes, each counts the open files and the
registrations that refer to it, and each is freed once, when no file refers to it and its tables are
empty. -/
structure CtxRegistry (s : State) : Prop where
  registered : ∀ t c, s.bafs_global_ctx_xa.lookup t = some c ↔ ∃ y, s.ctxs.get c = some y ∧ y.tgid = t
  one_each : ∀ c d y z, s.ctxs.get c = some y → s.ctxs.get d = some z → y.tgid = z.tgid → c = d
  counted : ∀ c y, s.ctxs.get c = some y →
    y.ref = s.files.count (fun f => f.ctx = c) + s.mems.count fun x => x.ctx = c
  file_held : ∀ f x, s.files.get f = some x → ∃ y, s.ctxs.get x.ctx = some y
  mem_held : ∀ m x, s.mems.get m = some x → ∃ y, s.ctxs.get x.ctx = some y
  released : s.ctxs.FreedOnce fun c => (s.ctx_log.map CtxRelease.ctx).count c
  clear : ∀ e ∈ s.ctx_log, e.mem_list = [] ∧ e.bafs_mem_xa = ∅ ∧ e.files = 0

theorem Inv.ctxRegistry (hi : Inv s) : CtxRegistry s := by
  obtain ⟨h, hl, hs⟩ := hi.sane.at
  have hreg := hs.wf.tables.global
  refine ⟨hreg, fun c d y z hy hz ht => ?_, fun c y hy => ?_, fun f x hx => ?_, fun m x hm => ?_,
    hs.wf.logs.ctx, hs.wf.logs.ctx_clear⟩
  · have hc := (hreg y.tgid c).mpr ⟨y, hy, rfl⟩
    have hd := (hreg y.tgid d).mpr ⟨z, hz, ht.symm⟩
    exact Option.some.inj (hc.symm.trans hd)
  · have heq := hs.wf.ctx.eq c y hy
    rw [hl.ctx c, add_zero] at heq
    exact Int.ofNat_inj.mp heq
  · exact hs.ctx_live (CtxHeld.of_file hl.nonneg hx)
  · obtain ⟨y, hy, -⟩ := hs.wf.tables.mem_listed m x hm
    exact ⟨y, hy⟩

/-- The registry is right in every state that a run reaches, and no request uses a freed context. -/
theorem context_registry (rs : List Request) :
    Always step (fun e => e ≠ .freed_ctx) CtxRegistry rs init := by
  refine always_of_step (I := Inv) (fun s r hi => ?_) (fun s hi => hi.ctxRegistry) rs inv_init
  obtain ⟨h, -, -, hw⟩ := step_inv r hi
  refine wp_weaken (wp_mono hw fun _ s' hs' => hs'.1) fun e he => ?_
  cases he <;> exact fun hc => by cases hc

end BafsDriver
