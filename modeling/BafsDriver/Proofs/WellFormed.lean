import BafsDriver.System
import BafsDriver.Lib.Refcount

/-!
# The invariant of the module

`WF h s` says that in the state `s` every reference count is what the objects of the state hold plus
what running code holds (`h`), that the tables of each context name its registrations, that each
registration lists its DMA mappings, and that the children of the core device are the devices of the
controllers and groups.

It says nothing about what `vm_private_data`, `dma->mem` and the group of an open file point at:
these may dangle.
-/

namespace BafsDriver

open Prog

/-- What is counted by references. -/
inductive Kind where
  | ctx
  | mem
  | ctrl
  | group
  | device
  deriving DecidableEq

/-! ## Who holds what -/

/-- Open files and registrations hold their context. -/
def ctx_holders (s : State) (c : CtxId) : Nat :=
  s.files.count (fun f => f.ctx = c) + s.mems.count (fun x => x.ctx = c)

/-- DMA mappings hold their registration. -/
def dma_holders (s : State) (m : MemId) : Nat := s.dmas.count fun y => y.mem = m

/-- Whether an open file holds the controller `c`. -/
def File.ctrl_refs (c : CtrlId) : File → Nat
  | .ctrl x => if x.ctrl = c then 1 else 0
  | _ => 0

/-- Whether an open file holds the group `g`. -/
def File.group_refs (g : GroupId) : File → Nat
  | .group x => if x.group = g then 1 else 0
  | _ => 0

/-- The references of the PCI devices bound to the driver. -/
def bound_refs (s : State) (c : CtrlId) : Nat := (s.drvdata.entries.map fun e => e.2).count c

/-- Bound PCI devices, slots of groups, ctrl files and DMA mappings hold a controller. -/
def ctrl_holders (s : State) (c : CtrlId) : Nat :=
  bound_refs s c + s.groups.sum (fun x => x.ctrls.count c) + s.files.sum (File.ctrl_refs c) +
    s.dmas.count fun y => y.ctrl = c

/-- Group files hold their group. -/
def group_holders (s : State) (g : GroupId) : Nat := s.files.sum (File.group_refs g)

/-- The tree holds a device until it is destroyed. -/
def tree_refs (s : State) (d : DeviceId) : Nat :=
  (s.devices.get d).elim 0 fun x => if x.in_tree then 1 else 0

/-! ## The tables -/

/-- The global table names each context under its process, and the tables of each context name its
registrations, each under its `mem_id`. -/
structure CtxTables (s : State) : Prop where
  global : ∀ t c, s.bafs_global_ctx_xa.lookup t = some c ↔ ∃ y, s.ctxs.get c = some y ∧ y.tgid = t
  mem_listed : ∀ m x, s.mems.get m = some x → ∃ y, s.ctxs.get x.ctx = some y ∧
    m ∈ y.mem_list ∧ y.bafs_mem_xa.lookup x.mem_id = some m
  /-- The registrations of a context are listed from the newest to the oldest. -/
  newest_first : ∀ c y, s.ctxs.get c = some y → y.mem_list.Pairwise (· > ·)
  listed : ∀ c y m, s.ctxs.get c = some y → m ∈ y.mem_list →
    ∃ x, s.mems.get m = some x ∧ x.ctx = c
  stored : ∀ c y i m, s.ctxs.get c = some y → y.bafs_mem_xa.lookup i = some m →
    i < 2 ^ 31 ∧ ∃ x, s.mems.get m = some x ∧ x.ctx = c ∧ x.mem_id = i

theorem CtxTables.list_nodup {s : State} (ht : CtxTables s) {c : CtxId} {y : BafsCtx}
    (hy : s.ctxs.get c = some y) : y.mem_list.Nodup :=
  (ht.newest_first c y hy).imp fun h => Nat.ne_of_gt h

/-- Each registration lists the DMA mappings that point to it, each once. -/
structure DmaLists (s : State) : Prop where
  nodup : ∀ m x, s.mems.get m = some x → x.dma_list.Nodup
  listed : ∀ m x d, s.mems.get m = some x →
    (d ∈ x.dma_list ↔ ∃ y, s.dmas.get d = some y ∧ y.mem = m)

/-- A device as the object it belongs to knows it. -/
structure Node where
  device : DeviceId
  cls : Name
  name : Name

/-- The device of a controller or of a group. -/
def node_of (s : State) : Drvdata → Option Node
  | .ctrl c => (s.ctrls.get c).map fun x =>
    ⟨x.device, BAFS_CTRL_CLASS_NAME, ctrl_dev_name x.ctrl_id⟩
  | .group g => (s.groups.get g).map fun x =>
    ⟨x.device, BAFS_GROUP_CLASS_NAME, group_dev_name x.group_id⟩

/-- The device of a controller or group is a child of the core device under its name, with the object
as its driver data, and every child is one of them. -/
structure DeviceTree (s : State) : Prop where
  node : ∀ o n, node_of s o = some n → ∃ v, s.devices.get n.device = some v ∧ v.in_tree = true ∧
    v.drvdata = some o ∧ v.cls = n.cls ∧ v.name = n.name
  child : ∀ d v, s.devices.get d = some v → v.in_tree = true →
    ∃ o n, v.drvdata = some o ∧ node_of s o = some n ∧ n.device = d

/-- Nothing refers to an address that was never handed out. -/
structure Fresh (h : Held Kind) (s : State) : Prop where
  mem : ∀ m, s.mems.next ≤ m → dma_holders s m = 0 ∧ h .mem m = 0
  group : ∀ g, s.groups.next ≤ g → group_holders s g = 0 ∧ h .group g = 0

/-- Every object that is gone was released once, contexts when nothing referred to them, and only
groups that exist are created and deleted. -/
structure Logs (s : State) : Prop where
  mem : s.mems.FreedOnce fun m => s.mem_log.count m
  ctrl : s.ctrls.FreedOnce fun c => s.ctrl_log.count c
  group : s.groups.FreedOnce fun g => s.group_log.count (.release g)
  marked : ∀ g, s.groups.next ≤ g →
    s.group_log.count (.create g) = 0 ∧ s.group_log.count (.delete g) = 0
  ctx : s.ctxs.FreedOnce fun c => (s.ctx_log.map CtxRelease.ctx).count c
  /-- Nothing referred to a context that was released. -/
  ctx_clear : ∀ e ∈ s.ctx_log, e.mem_list = [] ∧ e.bafs_mem_xa = ∅ ∧ e.files = 0

/-- The invariant: `h` is what running code holds, and what was never given back. -/
structure WF (h : Held Kind) (s : State) : Prop where
  ctx : s.ctxs.Exact BafsCtx.ref fun c => ctx_holders s c + h .ctx c
  mem : s.mems.Counted BafsMem.ref fun m => 1 + dma_holders s m + h .mem m
  ctrl : s.ctrls.Exact BafsCtrl.ref fun c => ctrl_holders s c + h .ctrl c
  group : s.groups.Counted BafsGroup.ref fun g => group_holders s g + h .group g
  device : s.devices.Exact Device.ref fun d => tree_refs s d + h .device d
  tables : CtxTables s
  dmas : DmaLists s
  tree : DeviceTree s
  fresh : Fresh h s
  logs : Logs s

/-- No reference is missing; groups may have lost some to delete requests. -/
def NonNeg (h : Held Kind) : Prop := ∀ k i, k ≠ .group → 0 ≤ h k i

theorem NonNeg.tok {h : Held Kind} (hh : NonNeg h) (k : Kind) (i : Nat) : NonNeg (h + tok k i) :=
  fun k' j hk => add_nonneg (hh k' j hk) (tok_nonneg k k' i j)

theorem NonNeg.toks {h : Held Kind} (hh : NonNeg h) (k : Kind) (l : List Nat) :
    NonNeg (h + toks k l) :=
  fun k' j hk => add_nonneg (hh k' j hk) (toks_nonneg k k' l j)

/-! ## The part of the state that the invariant reads -/

structure Objects where
  ctxs : Heap BafsCtx
  mems : Heap BafsMem
  dmas : Heap BafsMemDma
  ctrls : Heap BafsCtrl
  groups : Heap BafsGroup
  files : Heap File
  devices : Heap Device
  bafs_global_ctx_xa : AList (fun _ : Nat => CtxId)
  drvdata : AList (fun _ : Nat => CtrlId)
  ctx_log : List CtxRelease
  mem_log : List MemId
  ctrl_log : List CtrlId
  group_log : List GroupMark

def State.objects (s : State) : Objects :=
  ⟨s.ctxs, s.mems, s.dmas, s.ctrls, s.groups, s.files, s.devices, s.bafs_global_ctx_xa, s.drvdata,
    s.ctx_log, s.mem_log, s.ctrl_log, s.group_log⟩

theorem WF.of_objects {h : Held Kind} {s s' : State} (hs : WF h s)
    (he : s'.objects = s.objects) : WF h s' := by
  cases s
  cases s'
  simp only [State.objects, Objects.mk.injEq] at he
  obtain ⟨rfl, rfl, rfl, rfl, rfl, rfl, rfl, rfl, rfl, rfl, rfl, rfl, rfl⟩ := he
  exact ⟨hs.ctx, hs.mem, hs.ctrl, hs.group, hs.device, ⟨hs.tables.1, hs.tables.2, hs.tables.3,
    hs.tables.4, hs.tables.5⟩, ⟨hs.dmas.1, hs.dmas.2⟩, ⟨hs.tree.1, hs.tree.2⟩,
    ⟨hs.fresh.1, hs.fresh.2⟩, ⟨hs.logs.1, hs.logs.2, hs.logs.3, hs.logs.4, hs.logs.5, hs.logs.6⟩⟩

theorem WF.congr {h h' : Held Kind} {s : State} (hs : WF h s) (he : h' = h) : WF h' s := he ▸ hs

end BafsDriver
