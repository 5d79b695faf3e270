import BafsDriver.Proofs.TreeProofs

/-!
# Assertions

What the specifications of the functions say about a state: the invariant with the references that
running code holds, and a view of the state in which the reference counts and the lists of DMA
mappings do not show. Most functions leave the view as it is.
-/

namespace BafsDriver

open Prog

/-- A registration without its count and its list. -/
def BafsMem.fields (x : BafsMem) : BafsMem := { x with ref := 0, dma_list := [] }

/-- The state up to reference counts, contexts, controllers and devices. -/
structure View where
  mems : MemId → Option BafsMem
  /-- The address of the next registration. -/
  mem_next : MemId
  /-- The registration and the controller of each DMA mapping. -/
  dmas : DmaId → Option (MemId × CtrlId)
  vmas : Heap Vma
  files : Heap File
  tables : Heap P2pPageTable
  /-- The controllers of the groups that exist. -/
  group_ctrls : GroupId → Option (List CtrlId)
  state_log : List StateChange
  created : GroupId → Nat
  deleted : GroupId → Nat
  stale_reads : List GroupId

def State.view (s : State) : View where
  mems m := (s.mems.get m).map BafsMem.fields
  mem_next := s.mems.next
  dmas d := (s.dmas.get d).map fun y => (y.mem, y.ctrl)
  vmas := s.vmas
  files := s.files
  tables := s.tables
  group_ctrls g := (s.groups.get g).map BafsGroup.ctrls
  state_log := s.state_log
  created g := s.group_log.count (.create g)
  deleted g := s.group_log.count (.delete g)
  stale_reads := s.stale_reads

/-- What a change of the registrations shows. -/
theorem view_mems {s : State} {M : Heap BafsMem} {N : MemId → Option BafsMem} {n : Nat}
    (hM : ∀ m, (M.get m).map BafsMem.fields = N m) (hn : M.next = n) :
    ({ s with mems := M } : State).view = { s.view with mems := N, mem_next := n } := by
  have : (fun m => (M.get m).map BafsMem.fields) = N := funext hM
  rw [State.view, this, hn]
  rfl

/-- The invariant holds with the references `h`, and the state looks like `v`. -/
structure At (h : Held Kind) (v : View) (s : State) : Prop where
  wf : WF h s
  view : s.view = v

variable {h : Held Kind} {v : View} {s : State}

namespace At

theorem congr {k : Held Kind} (hs : At h v s) (he : k = h) : At k v s := he ▸ hs

/-- The assertion depends on these parts only. -/
theorem of_eq {t : State} (hs : At h v s) (ho : t.objects = s.objects) (hv : t.view = s.view) :
    At h v t :=
  ⟨hs.wf.of_objects ho, hv.trans hs.view⟩

/-- A program that leaves these parts alone keeps the assertion. -/
theorem keep {α : Type} {c : Drv α} {E : Fault → Prop} (hs : At h v s)
    (hc : Preserves E c fun s => (s.objects, s.view)) : wp c E (fun _ s' => At h v s') s :=
  wp_mono (hc s) fun _ _ he => hs.of_eq (Prod.mk.inj he).1 (Prod.mk.inj he).2

end At

theorem quiet_at : Quiet fun s => (s.objects, s.view) where
  trace _ _ := rfl
  blocks _ _ := rfl
  pages _ _ := rfl
  mappings _ _ := rfl
  pids _ _ := rfl
  minors _ _ := rfl
  ctrl_ids _ _ := rfl
  group_ids _ _ := rfl
  cdevs _ _ := rfl
  core_ref _ _ := rfl

/-- Every registration passes the test. -/
def all_mems (p : BafsMem → Bool) (s : State) : Bool :=
  (List.range s.mems.next).all fun m => (s.mems.get m).all p

theorem all_mems_view {p : BafsMem → Bool} (hp : all_mems p s = true)
    (hf : ∀ x : BafsMem, p x.fields = p x) {m : MemId} {f : BafsMem} (hm : s.view.mems m = some f) :
    p f = true := by
  obtain ⟨x, hx, rfl⟩ := Option.map_eq_some_iff.mp hm
  have hall := List.all_eq_true.mp hp m (List.mem_range.mpr (Heap.lt_next_of_get hx))
  rw [hx] at hall
  rw [hf]
  exact hall

end BafsDriver
