import BafsDriver.Lib.Stores
import BafsDriver.System

/-!
# User library

`lib/src/bafs.c`: the calls through which a program registers memory with an open ctrl or group file
and maps it, and those through which it creates and deletes groups. What a call makes of the state it
makes by the requests it sends.

Left out: the paths that print and the calls that send no other request (`bafs_ctrl_map` is one call
after the other).
-/

set_option linter.style.nameCheck false

namespace BafsDriver

open Prog

/-- `GROUP` -/
def GROUP : Nat := 1

/-- `NOT_GROUP` -/
def NOT_GROUP : Nat := 0

/-- `struct bafs_ctrl_t`; a negative `fd` is `none`. -/
structure BafsCtrlT where
  fd : Option FileId
  type : Nat

/-- The page offset that `mmap(2)` hands to the file for an offset in bytes, unless it refuses it. -/
def vm_pgoff_of (offset : Nat) : Option Nat :=
  if PAGE_SIZE ∣ offset then some (offset / PAGE_SIZE) else none

/-- The length of the VMA for a length in bytes. -/
def page_align (len : Nat) : Nat := (len + PAGE_SIZE - 1) / PAGE_SIZE * PAGE_SIZE

/-- `mmap(2)` at a fixed address. What is mapped there already goes first, by requests of its own. -/
def sys_mmap (fd : FileId) (mm addr len offset : Nat) (env : MmapEnv) : Drv Int := do
  match vm_pgoff_of offset with
  | none => pure (-EINVAL)
  | some vm_pgoff =>
    let r ← step (.mmap fd mm addr (addr + page_align len) vm_pgoff env)
    pure r.ret

/-- Sends a registration request. On success the result is 0 with the handle, else `errno`. -/
def ioctl_reg_mem_params (fd : FileId) (cmd : Nat) (size loc : BitVec 32) (arg : IoctlArg)
    (env : IoctlEnv) : Drv (Int × Option (BitVec 32)) := do
  let r ← step (.ioctl fd cmd { arg with reg_mem := { size, loc, handle := 0 } } env)
  if r.ret ≠ 0 then
    pure (-r.ret, none)
  else
    pure (0, r.reg_mem.map BAFS_IOC_REG_MEM_PARAMS.handle)

/-- `arg` is where the parameter block is put. -/
def bafs_ctrl_reg_mem (size loc : BitVec 32) (ctrl_handle : BafsCtrlT) (arg : IoctlArg)
    (env : IoctlEnv) : Drv (Int × Option (BitVec 32)) :=
  match ctrl_handle.fd with
  | none => pure (EINVAL, none)
  | some fd =>
    if ctrl_handle.type = GROUP then
      ioctl_reg_mem_params fd BAFS_GROUP_IOC_REG_MEM size loc arg env
    else if ctrl_handle.type = NOT_GROUP then
      ioctl_reg_mem_params fd BAFS_CTRL_IOC_REG_MEM size loc arg env
    else
      pure (EINVAL, none)

/-- The handle is the offset of the mmap. The result is 0 or `errno`. -/
def bafs_ctrl_pin_mem (mm addr : Nat) (size : BitVec 32) (ctrl_handle : BafsCtrlT)
    (handle : BitVec 32) (env : MmapEnv) : Drv Int :=
  match ctrl_handle.fd with
  | none => pure EINVAL
  | some fd => do
    let ret ← sys_mmap fd mm addr size.toNat handle.toNat env
    if ret < 0 then pure (-ret) else pure 0

/-! ## Groups -/

/-- `isspace` -/
def isspace (ch : Char) : Bool := ch.toNat = 32 || (9 ≤ ch.toNat && ch.toNat ≤ 13)

/-- `sscanf(str, "/dev/%s", name)`: the name, where the result is 1. -/
def sscanf_dev (str : Name) : Option Name :=
  if dev_path [] <+: str then
    let name := ((str.drop (dev_path []).length).dropWhile isspace).takeWhile fun ch => !isspace ch
    if name = [] then none else some name
  else
    none

/-- The string in a buffer of these bytes: what comes before the first NUL. -/
def c_string (bytes : List Nat) : Option Name :=
  if 0 ∈ bytes then some ((bytes.takeWhile fun b => b ≠ 0).map Char.ofNat) else none

/-- The names of the device files in `ctrl_names`, unless one of them has none. A name that is too long
for its slot runs on past it, and the driver finds no NUL in the slot. -/
def scan_names (ctrl_names : Nat → Name) (n_ctrls : Nat) : Option (List Name) :=
  (List.range n_ctrls).mapM fun i => sscanf_dev (ctrl_names i)

/-- A string in the memory of the caller, up to its NUL. -/
structure CString where
  chars : Name
  no_nul : ∀ ch ∈ chars, ch.toNat ≠ 0

def NUL : Char := Char.ofNat 0

/-- `sscanf(str, "/dev/%s", p)`: the memory with the name and a NUL at `p`, where the result is 1. -/
def sscanf_store (m : Memory Char) (p : Nat) (str : CString) : Option (Memory Char) :=
  (sscanf_dev str.chars).map fun name => m.store p (name ++ [NUL])

/-- What the driver copies from the slot at `p`. -/
def slot_string (m : Memory Char) (p : Nat) : Name :=
  (m.load p MAX_NAME_LEN).takeWhile fun ch => ch.toNat ≠ 0

/-- The loop over the names, each into its slot: the memory after the first `n` iterations, and whether
the loop is still running. -/
def scan_slots (m : Memory Char) (ctrl_names : Nat → CString) : Nat → Memory Char × Bool
  | 0 => (m, true)
  | i + 1 => match scan_slots m ctrl_names i with
    | (m, false) => (m, false)
    | (m, true) => match sscanf_store m (MAX_NAME_LEN * i) (ctrl_names i) with
      | none => (m, false)
      | some m => (m, true)

/-- What a library call does with its names: the memory of its slots, and the names that the driver finds
in them, if the ioctl is issued. -/
structure NameCall where
  slots : Memory Char
  given : Option (List Name)

/-- The names of `bafs_core_create_group`, in the memory that `calloc` returns. -/
def create_call (n_ctrls : Nat) (ctrl_names : Nat → CString) : NameCall :=
  match scan_slots ⟨fun _ => NUL, []⟩ ctrl_names n_ctrls with
  | (m, false) => ⟨m, none⟩
  | (m, true) => ⟨m, some ((List.range n_ctrls).map fun i => slot_string m (MAX_NAME_LEN * i))⟩

/-- The name of `bafs_core_delete_group`, in a buffer on the stack. -/
def delete_call (stack : Nat → Char) (group_name : CString) : NameCall :=
  match sscanf_store ⟨stack, []⟩ 0 group_name with
  | none => ⟨⟨stack, []⟩, none⟩
  | some m => ⟨m, some [slot_string m 0]⟩

/-- The process that calls the library, and how the system answers. -/
structure CoreCallEnv where
  task : Task
  open_core : CtxEnv
  calloc : Bool
  arg : IoctlArg
  ioctl : IoctlEnv

/-- `bafs_core_init`, where `bafs_core_fd` is negative: the file to use, or what `open` returned. -/
def bafs_core_init (bafs_core_fd : Option FileId) (env : CoreCallEnv) :
    Drv (Except Int FileId) := do
  match bafs_core_fd with
  | some fd => pure (.ok fd)
  | none =>
    let fd := (← get).files.next
    let r ← step (.open_core env.task env.open_core)
    if r.ret < 0 then pure (.error (-1)) else pure (.ok fd)

namespace Library

/-- The group's path is written to the address `ret_group_name`. -/
def bafs_core_create_group (n_ctrls : BitVec 32) (ctrl_names : Nat → Name) (ret_group_name : Nat)
    (bafs_core_fd : Option FileId) (env : CoreCallEnv) : Drv Int := do
  match ← bafs_core_init bafs_core_fd env with
  | .error ret => pure ret
  | .ok fd =>
    if env.calloc = false then
      pure ENOMEM
    else
      match scan_names ctrl_names n_ctrls.toNat with
      | none => pure EINVAL
      | some names =>
        let r ← step (.ioctl fd BAFS_CORE_IOC_CREATE_GROUP { env.arg with
          create_group := { n_ctrls, ctrls := fun i => names[i]?, group_name := ret_group_name } }
          env.ioctl)
        if r.ret ≠ 0 then pure (-r.ret) else pure 0

def bafs_core_delete_group (group_name : Name) (bafs_core_fd : Option FileId) (env : CoreCallEnv) :
    Drv Int := do
  match ← bafs_core_init bafs_core_fd env with
  | .error ret => pure ret
  | .ok fd =>
    match sscanf_dev group_name with
    | none => pure EINVAL
    | some group_dev_name =>
      let r ← step (.ioctl fd BAFS_CORE_IOC_DELETE_GROUP { env.arg with
        delete_group := { group_name := some group_dev_name } } env.ioctl)
      if r.ret ≠ 0 then pure (-r.ret) else pure 0

end Library

end BafsDriver
