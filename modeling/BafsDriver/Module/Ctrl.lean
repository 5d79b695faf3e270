import BafsDriver.Kernel

/-!
# Controllers

The part of `ctrl.c` that makes a controller for a PCI device and counts the references to it.
-/

set_option linter.style.nameCheck false

namespace BafsDriver

open Prog

/-- `kref_get(&ctrl->ref)` -/
def bafs_get_ctrl (c : CtrlId) : Drv Unit := ctrl_upd c fun x => { x with ref := x.ref + 1 }

def bafs_get_minor_number (fail : Option Errno) : Drv (Except Errno Nat) := do
  match ida_simple_get (← get).bafs_minor_ida fail with
  | .error e => pure (.error e)
  | .ok n =>
    modify fun s => { s with bafs_minor_ida := n :: s.bafs_minor_ida }
    pure (.ok n)

def bafs_put_minor_number (n : Nat) : Drv Unit :=
  modify fun s => { s with bafs_minor_ida := s.bafs_minor_ida.erase n }

/-- What `pci_disable_device`, `pci_release_region`, `pci_clear_master` and the put of the PCI
device undo is not part of the state. -/
def __bafs_ctrl_release (c : CtrlId) : Drv Unit := do
  let x ← ctrl_at c
  device_destroy x.device
  put_core_device
  cdev_del x.minor
  modify fun s => { s with bafs_ctrl_ida := s.bafs_ctrl_ida.erase x.ctrl_id }
  bafs_put_minor_number x.minor
  modify fun s => { s with ctrls := s.ctrls.free c, ctrl_log := c :: s.ctrl_log }
  kfree x.blk

/-- `kref_put(&ctrl->ref, __bafs_ctrl_release)` -/
def bafs_ctrl_release (c : CtrlId) : Drv Unit := do
  let x ← ctrl_at c
  ctrl_upd c fun x => { x with ref := x.ref - 1 }
  if x.ref = 1 then __bafs_ctrl_release c else pure ()

/-- How the kernel answers while a controller is made. -/
structure CtrlAllocEnv where
  kzalloc : Bool
  pci_request_region : Option Errno
  pci_enable_device : Option Errno
  minor : Option Errno
  ctrl_id : Option Errno
  cdev_add : Option Errno
  device_create : Option Errno

/-- `dev_name` of a controller: `BAFS_CTRL_DEVICE_NAME` with its number. -/
def ctrl_dev_name (ctrl_id : Nat) : Name := BAFS_CTRL_CLASS_NAME ++ decimal ctrl_id

/-- A controller for the PCI device `pdev`: the return code, and the controller on success. -/
def bafs_ctrl_alloc (pdev : PciDev) (env : CtrlAllocEnv) : Drv (Int × Option CtrlId) := do
  match ← kzalloc env.kzalloc with
  | none => pure (-ENOMEM, none)
  | some blk =>
    match env.pci_request_region, env.pci_enable_device with
    | some e, _ | none, some e =>
      kfree blk
      pure (e.ret, none)
    | none, none =>
      match ← bafs_get_minor_number env.minor with
      | .error e =>
        kfree blk
        pure (e.ret, none)
      | .ok minor =>
        match ida_simple_get (← get).bafs_ctrl_ida env.ctrl_id with
        | .error e =>
          bafs_put_minor_number minor
          kfree blk
          pure (e.ret, none)
        | .ok ctrl_id =>
          modify fun s => { s with bafs_ctrl_ida := ctrl_id :: s.bafs_ctrl_ida }
          match env.cdev_add with
          | some e =>
            modify fun s => { s with bafs_ctrl_ida := s.bafs_ctrl_ida.erase ctrl_id }
            bafs_put_minor_number minor
            kfree blk
            pure (e.ret, none)
          | none =>
            cdev_add minor
            get_core_device
            match env.device_create with
            | some e =>
              put_core_device
              cdev_del minor
              modify fun s => { s with bafs_ctrl_ida := s.bafs_ctrl_ida.erase ctrl_id }
              bafs_put_minor_number minor
              kfree blk
              pure (e.ret, none)
            | none =>
              let c := (← get).ctrls.next
              let device ← device_create BAFS_CTRL_CLASS_NAME (ctrl_dev_name ctrl_id) (.ctrl c)
              modify fun s => { s with
                ctrls := s.ctrls.alloc { blk, pdev, device, minor, ctrl_id, ref := 1 } }
              pure (0, some c)

/-- `bafs_ctrl_pci_probe`; on success the device is bound to the driver. -/
def bafs_ctrl_pci_probe (pdev : PciDev) (env : CtrlAllocEnv) : Drv Int := do
  let (ret, ctrl) ← bafs_ctrl_alloc pdev env
  match ctrl with
  | none => pure ret
  | some c =>
    modify fun s => { s with drvdata := s.drvdata.insert pdev.slot c }
    pure ret

/-- `bafs_ctrl_pci_remove`; the device is no longer bound afterwards. -/
def bafs_ctrl_pci_remove (slot : Nat) (c : CtrlId) : Drv Unit := do
  modify fun s => { s with drvdata := s.drvdata.erase slot }
  bafs_ctrl_release c

end BafsDriver
