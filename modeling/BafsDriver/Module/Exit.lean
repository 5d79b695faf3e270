import BafsDriver.Module.Ctrl

/-!
# Unloading

The end of the module (`core.c`). What it has not released by then stays behind.
-/

namespace BafsDriver

open Prog

/-- `bafs_core_minor` is the first minor that `bafs_init` gets. -/
def bafs_core_minor : Nat := 0

/-- `pci_unregister_driver`: the PCI core removes the driver from the devices that are bound to it. -/
def pci_unregister_driver : Drv Unit := do
  each (fun e => bafs_ctrl_pci_remove e.1 e.2) (← get).drvdata.entries

/-- `device_destroy` of the core device. -/
def destroy_core_device : Drv Unit := do
  modify fun s => { s with core_device := false }
  put_core_device

/-- `bafs_exit`. The classes and the region of device numbers are not part of the state. -/
def bafs_exit : Drv Unit := do
  pci_unregister_driver
  destroy_core_device
  cdev_del bafs_core_minor
  modify fun s => { s with bafs_global_ctx_xa := ∅ }
  bafs_put_minor_number bafs_core_minor

end BafsDriver
