import BafsDriver.Kernel

/-!
# Contexts

The part of `core.c` that makes, shares and drops the context of a process: `bafs_core_open`,
`bafs_get_ctx`, `bafs_put_ctx`.
-/

set_option linter.style.nameCheck false

namespace BafsDriver

open Prog

/-- A user process: `task_tgid_nr(current)`, its `struct pid` and its address space. -/
structure Task where
  tgid : Nat
  tgid_struct : Nat
  mm : Nat

/-- How the kernel answers while a context is made. -/
structure CtxEnv where
  kzalloc : Bool
  find_get_pid : Bool
  xa_insert : Option Errno

/-- `find_get_pid`, which takes a reference. -/
def find_get_pid (ok : Bool) (task : Task) : Drv Bool := do
  if ok then
    modify fun s => { s with pids := task.tgid_struct :: s.pids }
    pure true
  else
    pure false

def put_pid (pid : Nat) : Drv Unit := modify fun s => { s with pids := s.pids.erase pid }

/-- `kref_get(&ctx->ref)` -/
def ctx_kref_get (c : CtxId) : Drv Unit := ctx_upd c fun x => { x with ref := x.ref + 1 }

def __bafs_core_ctx_release (c : CtxId) : Drv Unit := do
  let x ← ctx_at c
  modify fun s => { s with bafs_global_ctx_xa := s.bafs_global_ctx_xa.erase x.tgid }
  put_pid x.tgid_struct
  -- the entries of `bafs_mem_xa` go with the context (`xa_destroy`)
  modify fun s => { s with
    ctxs := s.ctxs.free c
    ctx_log := ⟨c, x.mem_list, x.bafs_mem_xa, s.files.count fun f => f.ctx = c⟩ :: s.ctx_log }
  kfree x.blk

/-- `kref_put(&ctx->ref, __bafs_core_ctx_release)` -/
def bafs_put_ctx (c : CtxId) : Drv Unit := do
  let x ← ctx_at c
  ctx_upd c fun x => { x with ref := x.ref - 1 }
  if x.ref = 1 then __bafs_core_ctx_release c else pure ()

/-- The fields of a new context. -/
def new_ctx (blk : BlockId) (task : Task) : BafsCtx :=
  { blk, bafs_mem_xa := ∅, mem_list := [], ref := 1, tgid := task.tgid,
    tgid_struct := task.tgid_struct }

/-- Puts a new context into `bafs_global_ctx_xa`, where the index is free. -/
def publish_ctx (x : BafsCtx) : Drv CtxId := do
  let s ← get
  modify fun s => { s with
    ctxs := s.ctxs.alloc x
    bafs_global_ctx_xa := s.bafs_global_ctx_xa.insert x.tgid s.ctxs.next }
  pure s.ctxs.next

/-- The context for a new core file: the return code, and the context on success. -/
def bafs_core_open (task : Task) (env : CtxEnv) : Drv (Int × Option CtxId) := do
  match ← kzalloc env.kzalloc with
  | none => pure (-ENOMEM, none)
  | some blk =>
    if ← find_get_pid env.find_get_pid task then
      -- `xa_insert` fails with `-EBUSY` where the process has a context already
      if env.xa_insert.isSome ∨ ((← get).bafs_global_ctx_xa.lookup task.tgid).isSome then
        put_pid task.tgid_struct
        kfree blk
        pure (-ENOMEM, none)
      else
        let c ← publish_ctx (new_ctx blk task)
        pure (0, some c)
    else
      kfree blk
      pure (-EFAULT, none)

/-- The context of the process, made if it has none; `none` is a null pointer. -/
def bafs_get_ctx (task : Task) (env : CtxEnv) : Drv (Option CtxId) := do
  match ← kzalloc env.kzalloc with
  | none => pure none
  | some blk =>
    if ← find_get_pid env.find_get_pid task then
      match env.xa_insert, (← get).bafs_global_ctx_xa.lookup task.tgid with
      | some _, _ =>
        -- `out_free_mem_xa` does not put the pid
        kfree blk
        pure none
      | none, some c =>
        ctx_kref_get c
        put_pid task.tgid_struct
        kfree blk
        pure (some c)
      | none, none =>
        let c ← publish_ctx (new_ctx blk task)
        pure (some c)
    else
      kfree blk
      pure none

end BafsDriver
