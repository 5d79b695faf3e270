import BafsDriver.Module.Exit
import BafsDriver.Module.Files
import BafsDriver.System
import BafsDriver.Lib.Run
import BafsDriver.Lib.Script

/-!
# Making the devices, statement by statement

`bafs_group_alloc`, `bafs_ctrl_alloc` and `bafs_init` as threads that may be interrupted between any two
statements, and the opens of device files that other threads make meanwhile. A device file can be
opened as soon as its character device has been added, whatever is still to be written into the
object behind it.
-/

set_option linter.style.nameCheck false

namespace BafsDriver

open Prog Script

/-! ## Opens -/

/-- `refcount_inc`. A count of zero is saturated by it and stays so: neither `refcount_inc` nor
`refcount_dec_and_test` changes a saturated count. Nothing else reads a count, so that 0 stands for a
saturated one as well. -/
def refcount_inc (n : Nat) : Nat := if n = 0 then 0 else n + 1

/-- `bafs_ctrl_open` after its `bafs_get_ctrl`. -/
def ctrl_open_rest (c : CtrlId) (task : Task) (env : OpenEnv) : Drv (Int × Option File) := do
  match ← kzalloc env.kzalloc with
  | none =>
    bafs_ctrl_release c
    pure (-ENOMEM, none)
  | some blk =>
    match ← bafs_get_ctx task env.ctx with
    | none =>
      kfree blk
      bafs_ctrl_release c
      pure (-EINVAL, none)
    | some ctx => pure (0, some (.ctrl { blk, ctrl := c, ctx }))

/-- `bafs_group_open` after its `bafs_get_group`. -/
def group_open_rest (g : GroupId) (task : Task) (env : OpenEnv) : Drv (Int × Option File) := do
  match ← kzalloc env.kzalloc with
  | none =>
    bafs_put_group g
    pure (-ENOMEM, none)
  | some blk =>
    match ← bafs_get_ctx task env.ctx with
    | none =>
      kfree blk
      bafs_put_group g
      pure (-EINVAL, none)
    | some ctx => pure (0, some (.group { blk, group := g, ctx }))

theorem bafs_ctrl_open_eq (c : CtrlId) (task : Task) (env : OpenEnv) :
    bafs_ctrl_open c task env = (do bafs_get_ctrl c; ctrl_open_rest c task env) := rfl

theorem bafs_group_open_eq (g : GroupId) (task : Task) (env : OpenEnv) :
    bafs_group_open g task env = (do bafs_get_group g; group_open_rest g task env) := rfl

/-- An open of a device file: which device, by whom, and how the kernel answers. -/
inductive Opening where
  | core (task : Task) (env : CtxEnv)
  | ctrl (c : CtrlId) (task : Task) (env : OpenEnv)
  | group (g : GroupId) (task : Task) (env : OpenEnv)

/-- The open function of the device, once its character device has been added. -/
def open_device : Opening → Drv Int
  | .core task env => do
    if bafs_core_minor ∈ (← get).cdevs then
      let r ← bafs_core_open task env
      let reply ← add_file r.1 (r.2.map .core)
      pure reply.ret
    else
      pure (- ENXIO)
  | .ctrl c task env => do
    let s ← get
    match s.ctrls.get c with
    | none => pure (- ENXIO)
    | some x =>
      if x.minor ∈ s.cdevs then
        ctrl_upd c fun x => { x with ref := refcount_inc x.ref }
        let r ← ctrl_open_rest c task env
        let reply ← add_file r.1 r.2
        pure reply.ret
      else
        pure (- ENXIO)
  | .group g task env => do
    let s ← get
    match s.groups.get g with
    | none => pure (- ENXIO)
    | some x =>
      if x.minor ∈ s.cdevs then
        group_upd g fun x => { x with ref := refcount_inc x.ref }
        let r ← group_open_rest g task env
        let reply ← add_file r.1 r.2
        pure reply.ret
      else
        pure (- ENXIO)

/-! ## Statements -/

/-- The statements that write what an open may have written before. -/
inductive Stmt where
  | plain
  | kref_init (o : Drvdata)
  /-- The object is freed, as the function fails. -/
  | kfree (o : Drvdata)
  | xa_init_flags

/-- Code of the driver that is interrupted between its statements. -/
abbrev Steps := Script State Fault Stmt

/-- A statement that writes no count and no table of contexts. -/
def stmt {α : Type} (c : Drv α) : Steps α := single .plain c

def get_ctrl_id (fail : Option Errno) : Drv (Except Errno Nat) := do
  match ida_simple_get (← get).bafs_ctrl_ida fail with
  | .error e => pure (.error e)
  | .ok n =>
    modify fun s => { s with bafs_ctrl_ida := n :: s.bafs_ctrl_ida }
    pure (.ok n)

def put_ctrl_id (n : Nat) : Drv Unit :=
  modify fun s => { s with bafs_ctrl_ida := s.bafs_ctrl_ida.erase n }

def get_group_id (fail : Option Errno) : Drv (Except Errno Nat) := do
  match ida_simple_get (← get).bafs_group_ida fail with
  | .error e => pure (.error e)
  | .ok n =>
    modify fun s => { s with bafs_group_ida := n :: s.bafs_group_ida }
    pure (.ok n)

def put_group_id (n : Nat) : Drv Unit :=
  modify fun s => { s with bafs_group_ida := s.bafs_group_ida.erase n }

/-! ## bafs_ctrl_alloc -/

/-- The controller as it is when `cdev_add` is called: what `kzalloc` has left zero is the pointer to
the device and the count. -/
def place_ctrl (blk : BlockId) (pdev : PciDev) (minor ctrl_id : Nat) : Drv CtrlId := do
  let c := (← get).ctrls.next
  modify fun s => { s with
    ctrls := s.ctrls.alloc { blk, pdev, device := 0, minor, ctrl_id, ref := 0 } }
  pure c

/-- The labels from `out_ctrl_id_put` on. -/
def out_ctrl_id_put (c : CtrlId) (blk : BlockId) (minor ctrl_id : Nat) (e : Errno) :
    Steps (Int × Option CtrlId) := do
  stmt (put_ctrl_id ctrl_id)
  stmt (bafs_put_minor_number minor)
  single (.kfree (.ctrl c)) do
    modify fun s => { s with ctrls := s.ctrls.free c }
    kfree blk
  pure (e.ret, none)

/-- `bafs_ctrl_alloc` -/
def ctrl_alloc_steps (pdev : PciDev) (env : CtrlAllocEnv) : Steps (Int × Option CtrlId) := do
  match ← stmt (kzalloc env.kzalloc) with
  | none => pure (-ENOMEM, none)
  | some blk =>
    match env.pci_request_region, env.pci_enable_device with
    | some e, _ | none, some e =>
      stmt (kfree blk)
      pure (e.ret, none)
    | none, none =>
      match ← stmt (bafs_get_minor_number env.minor) with
      | .error e =>
        stmt (kfree blk)
        pure (e.ret, none)
      | .ok minor =>
        match ← stmt (get_ctrl_id env.ctrl_id) with
        | .error e =>
          stmt (bafs_put_minor_number minor)
          stmt (kfree blk)
          pure (e.ret, none)
        | .ok ctrl_id =>
          let c ← stmt (place_ctrl blk pdev minor ctrl_id)
          match env.cdev_add with
          | some e => out_ctrl_id_put c blk minor ctrl_id e
          | none =>
            stmt (cdev_add minor)
            stmt get_core_device
            match env.device_create with
            | some e =>
              stmt put_core_device
              stmt (cdev_del minor)
              out_ctrl_id_put c blk minor ctrl_id e
            | none =>
              stmt do
                let device ← device_create BAFS_CTRL_CLASS_NAME (ctrl_dev_name ctrl_id) (.ctrl c)
                ctrl_upd c fun x => { x with device }
              single (.kref_init (.ctrl c)) (ctrl_upd c fun x => { x with ref := 1 })
              pure (0, some c)

/-! ## bafs_group_alloc -/

/-- The loop that looks up the controller devices. -/
def find_ctrl_devices_steps (ctrls : List Name) : Steps (List DeviceId × Option Int) :=
  iterate (fun name devs => do
    match ← stmt (device_find_child_by_name name) with
    | none => pure (devs, some (-EINVAL))
    | some d =>
      let x ← stmt (device_at d)
      if x.cls.take BAFS_CTRL_CLASS_NAME.length ≠ BAFS_CTRL_CLASS_NAME then
        pure (devs, some (-EINVAL))
      else
        pure (devs ++ [d], none)) ctrls []

/-- The loop that takes a reference to each controller. -/
def get_ctrls_steps (devs : List DeviceId) : Steps (List CtrlId × Option Int) :=
  iterate (fun d ctrls => do
    let x ← stmt (device_at d)
    match x.drvdata with
    | none => pure (ctrls, some (-EFAULT))
    | some (.group _) => stmt (throw .wrong_type)
    | some (.ctrl c) =>
      stmt (bafs_get_ctrl c)
      pure (ctrls ++ [c], none)) devs []

/-- The group as it is when `cdev_add` is called. -/
def place_group (gblk cblk : BlockId) (group_id minor : Nat) (ctrls : List CtrlId) : Drv GroupId := do
  let g := (← get).groups.next
  modify fun s => { s with
    groups := s.groups.alloc
      { blk := gblk, ctrls_blk := cblk, ref := 0, group_id, minor, device := 0, ctrls } }
  pure g

/-- The labels from `out_put_devices` on, but for the `kfree` of the group. -/
def out_put_devices_steps (devs : List DeviceId) (dblk : BlockId) : Steps Unit := do
  each (fun d => stmt (put_device d)) devs.reverse
  stmt put_core_device
  stmt (kfree dblk)

/-- The labels from `out_free_ctrls` on, but for the `kfree` of the group. -/
def out_free_ctrls_steps (ctrls : List CtrlId) (cblk : BlockId) (devs : List DeviceId)
    (dblk : BlockId) : Steps Unit := do
  each (fun c => stmt (bafs_ctrl_release c)) ctrls.reverse
  stmt (kfree cblk)
  out_put_devices_steps devs dblk

/-- The labels from `out_minor_put` on. -/
def out_minor_put (g : GroupId) (ctrls : List CtrlId) (cblk : BlockId) (devs : List DeviceId)
    (dblk gblk : BlockId) (minor group_id : Nat) (e : Errno) : Steps (Int × Option GroupId) := do
  stmt (bafs_put_minor_number minor)
  stmt (put_group_id group_id)
  out_free_ctrls_steps ctrls cblk devs dblk
  single (.kfree (.group g)) do
    modify fun s => { s with groups := s.groups.free g }
    kfree gblk
  pure (e.ret, none)

/-- The part of `bafs_group_alloc` after the controllers have been taken. -/
def group_add_steps (ctrls : List CtrlId) (cblk : BlockId) (devs : List DeviceId)
    (dblk gblk : BlockId) (env : GroupAllocEnv) : Steps (Int × Option GroupId) := do
  match ← stmt (get_group_id env.group_id) with
  | .error e =>
    out_free_ctrls_steps ctrls cblk devs dblk
    stmt (kfree gblk)
    pure (e.ret, none)
  | .ok group_id =>
    match ← stmt (bafs_get_minor_number env.minor) with
    | .error e =>
      stmt (put_group_id group_id)
      out_free_ctrls_steps ctrls cblk devs dblk
      stmt (kfree gblk)
      pure (e.ret, none)
    | .ok minor =>
      let g ← stmt (place_group gblk cblk group_id minor ctrls)
      match env.cdev_add with
      | some e => out_minor_put g ctrls cblk devs dblk gblk minor group_id e
      | none =>
        stmt (cdev_add minor)
        match env.device_create with
        | some e =>
          stmt (cdev_del minor)
          out_minor_put g ctrls cblk devs dblk gblk minor group_id e
        | none =>
          stmt do
            let device ← device_create BAFS_GROUP_CLASS_NAME (group_dev_name group_id) (.group g)
            group_upd g fun x => { x with device }
          single (.kref_init (.group g)) (group_upd g fun x => { x with ref := 1 })
          each (fun d => stmt (put_device d)) devs
          stmt (kfree dblk)
          pure (0, some g)

/-- `bafs_group_alloc` -/
def group_alloc_steps (ctrls : List Name) (env : GroupAllocEnv) : Steps (Int × Option GroupId) := do
  match ← stmt (kzalloc env.kzalloc_group) with
  | none => pure (-ENOMEM, none)
  | some gblk =>
    match ← stmt (kzalloc env.kzalloc_ctrl_devices) with
    | none =>
      stmt (kfree gblk)
      pure (-ENOMEM, none)
    | some dblk =>
      stmt get_core_device
      match ← find_ctrl_devices_steps ctrls with
      | (devs, some ret) =>
        out_put_devices_steps devs dblk
        stmt (kfree gblk)
        pure (ret, none)
      | (devs, none) =>
        match ← stmt (kzalloc env.kzalloc_ctrls) with
        | none =>
          out_put_devices_steps devs dblk
          stmt (kfree gblk)
          pure (-ENOMEM, none)
        | some cblk =>
          match ← get_ctrls_steps devs with
          | (held, some ret) =>
            out_free_ctrls_steps held cblk devs dblk
            stmt (kfree gblk)
            pure (ret, none)
          | (held, none) => group_add_steps held cblk devs dblk gblk env

/-! ## bafs_init -/

/-- How the kernel answers while the module is loaded, and the PCI devices that the driver is probed
for. -/
structure InitEnv where
  alloc_chrdev_region : Option Errno
  core_class : Option Errno
  ctrl_class : Option Errno
  group_class : Option Errno
  minor : Option Errno
  cdev_add : Option Errno
  device_create : Option Errno
  pci_register_driver : Option Errno
  devices : List (PciDev × CtrlAllocEnv)

/-- `device_create` of the core device. -/
def create_core_device : Drv Unit :=
  modify fun s => { s with core_device := true, core_ref := s.core_ref + 1 }

/-- `bafs_ctrl_pci_probe` -/
def probe_steps (pdev : PciDev) (env : CtrlAllocEnv) : Steps Unit := do
  match (← ctrl_alloc_steps pdev env).2 with
  | none => pure ()
  | some c => stmt (modify fun s => { s with drvdata := s.drvdata.insert pdev.slot c })

/-- `bafs_init`. The classes and the region of device numbers are not part of the state. -/
def init_steps (env : InitEnv) : Steps Int := do
  match env.alloc_chrdev_region, env.core_class, env.ctrl_class, env.group_class with
  | some e, _, _, _ | none, some e, _, _ | none, none, some e, _ | none, none, none, some e =>
    pure e.ret
  | none, none, none, none =>
    match ← stmt (bafs_get_minor_number env.minor) with
    | .error e => pure e.ret
    | .ok minor =>
      match env.cdev_add with
      | some e =>
        stmt (cdev_del minor)
        pure e.ret
      | none =>
        stmt (cdev_add minor)
        match env.device_create with
        | some e =>
          stmt (cdev_del minor)
          pure e.ret
        | none =>
          stmt create_core_device
          match env.pci_register_driver with
          | some e =>
            stmt destroy_core_device
            stmt (cdev_del minor)
            pure e.ret
          | none =>
            each (fun d => probe_steps d.1 d.2) env.devices
            single .xa_init_flags (modify fun s => { s with bafs_global_ctx_xa := ∅ })
            pure 0

/-- The state before the module is loaded. -/
def unloaded : State := { core_device := false }

/-! ## The functions with the opens -/

/-- A function that makes devices. -/
inductive Setup where
  | bafs_group_alloc (ctrls : List Name) (env : GroupAllocEnv)
  | bafs_ctrl_alloc (pdev : PciDev) (env : CtrlAllocEnv)
  | bafs_init (env : InitEnv)

/-- The statements of the function; the result is its return code. -/
def Setup.steps : Setup → Steps Int
  | .bafs_group_alloc ctrls env => do
    let r ← group_alloc_steps ctrls env
    pure r.1
  | .bafs_ctrl_alloc pdev env => do
    let r ← ctrl_alloc_steps pdev env
    pure r.1
  | .bafs_init env => init_steps env

/-- The states in which the function is called: `bafs_init` before the module is there, the others in
whatever state the requests have led to. -/
def Setup.starts (f : Setup) (s : State) : Prop :=
  match f with
  | .bafs_init _ => s = unloaded
  | _ => ∃ rs, run step rs init = .ok s

/-- The threads: the function and the opens. -/
def Setup.threads (f : Setup) (opens : List Opening) : List (Steps Int) :=
  f.steps :: opens.map fun o => stmt (open_device o)

end BafsDriver
