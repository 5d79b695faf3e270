import BafsDriver.System

/-!
# Processes

The processes that use the driver. A file is closed when the last process that has it closes it or
exits, and the number of a process that has exited may be given to a new one, which has a `struct pid`
of its own.
-/

namespace BafsDriver

open Prog

/-- A live process, whose `struct pid` is its address in the table of processes: its number and the
device files that it has. -/
structure Process where
  tgid : Nat
  files : List FileId

/-- The live processes and the state of the module. -/
structure World where
  procs : Heap Process := {}
  driver : State := init

/-- The process as the driver sees it. -/
def task_of (p : Nat) (x : Process) : Task := { tgid := x.tgid, tgid_struct := p, mm := p }

/-- The device file that a process opens. -/
inductive DeviceFile where
  | core (env : CtxEnv)
  | ctrl (c : CtrlId) (env : OpenEnv)
  | group (g : GroupId) (env : OpenEnv)

/-- The open as a request to the driver. -/
def DeviceFile.open_request (t : Task) : DeviceFile → Request
  | .core env => .open_core t env
  | .ctrl c env => .open_ctrl c t env
  | .group g env => .open_group g t env

/-- What happens in the system. -/
inductive Act where
  /-- A process is created that has no device file. -/
  | spawn (tgid : Nat)
  /-- A child of the process `p` is created, which inherits its files. -/
  | fork (p tgid : Nat)
  | exit (p : Nat)
  /-- The process `p` passes the file `f` on to the process `q`. -/
  | pass (p : Nat) (f : FileId) (q : Nat)
  | open_file (p : Nat) (file : DeviceFile)
  | close_file (p : Nat) (f : FileId)
  /-- A request that opens and closes no file. -/
  | other (r : Request)

/-- No live process has the number. -/
def tgid_free (w : World) (tgid : Nat) : Bool :=
  (List.range w.procs.next).all fun p => (w.procs.get p).all fun x => x.tgid ≠ tgid

/-- Some live process has the file. -/
def file_used (w : World) (f : FileId) : Bool :=
  (List.range w.procs.next).any fun p => (w.procs.get p).any fun x => x.files.contains f

/-- Whether the request opens or closes a file. -/
def Request.for_file : Request → Bool
  | .open_core .. | .open_ctrl .. | .open_group .. | .close _ => true
  | _ => false

/-- A request to the driver. -/
def on_driver (r : Request) : Prog World Fault Reply := fun w =>
  match step r w.driver with
  | .ok (reply, s) => .ok (reply, { w with driver := s })
  | .error e => .error e

/-- A process no longer has the file. -/
def drop_file (f : FileId) : Prog World Fault Unit := do
  if file_used (← get) f then
    pure ()
  else
    let _ ← on_driver (.close f)

/-- What happens, where it is possible. -/
def act : Act → Prog World Fault Unit
  | .spawn tgid => do
    if tgid_free (← get) tgid then
      modify fun w => { w with procs := w.procs.alloc ⟨tgid, []⟩ }
    else
      pure ()
  | .fork p tgid => do
    match (← get).procs.get p with
    | none => pure ()
    | some x =>
      if tgid_free (← get) tgid then
        modify fun w => { w with procs := w.procs.alloc ⟨tgid, x.files⟩ }
      else
        pure ()
  | .exit p => do
    match (← get).procs.get p with
    | none => pure ()
    | some x =>
      modify fun w => { w with procs := w.procs.free p }
      each drop_file x.files
  | .pass p f q => do
    match (← get).procs.get p, (← get).procs.get q with
    | some x, some y =>
      if f ∈ x.files then
        modify fun w => { w with procs := w.procs.set q { y with files := f :: y.files } }
      else
        pure ()
    | _, _ => pure ()
  | .open_file p file => do
    match (← get).procs.get p with
    | none => pure ()
    | some x =>
      let f := (← get).driver.files.next
      let reply ← on_driver (file.open_request (task_of p x))
      if reply.ret < 0 then
        pure ()
      else
        modify fun w => { w with procs := w.procs.set p { x with files := f :: x.files } }
  | .close_file p f => do
    match (← get).procs.get p with
    | none => pure ()
    | some x =>
      if f ∈ x.files then
        modify fun w => { w with procs := w.procs.set p { x with files := x.files.erase f } }
        drop_file f
      else
        pure ()
  | .other r => do
    if r.for_file then
      pure ()
    else
      let _ ← on_driver r

end BafsDriver
