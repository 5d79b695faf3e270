import BafsDriver.Proofs.SystemProofs

/-!
# Registrations and VMAs between requests

Where the registrations, the VMAs and the page tables after a request come from, and what follows for
every state that a run reaches, whatever the requests.
-/

set_option linter.style.nameCheck false

namespace BafsDriver

open Prog

variable {h h' : Held Kind} {v v' : View} {s : State} {r : Request}

/-! ## What the requests on groups leave alone -/

/-- The part of a view that groups have no part in. -/
def View.regs (v : View) : (MemId → Option BafsMem) × MemId × (DmaId → Option (MemId × CtrlId)) ×
    Heap Vma × Heap File × Heap P2pPageTable × List StateChange :=
  (v.mems, v.mem_next, v.dmas, v.vmas, v.files, v.tables, v.state_log)

theorem regs_state_log (hr : v'.regs = v.regs) : v'.state_log = v.state_log :=
  congrArg (·.2.2.2.2.2.2) hr

theorem View.put_group_regs (g : GroupId) : (v.put_group h g).regs = v.regs := by
  unfold put_group
  split <;> rfl

theorem Created.regs {params : BAFS_CORE_IOC_CREATE_GROUP_PARAMS} {env : CreateGroupEnv} {ret : Int}
    (hc : Created h v s params env ret h' v') : v'.regs = v.regs := by
  cases hc with
  | refused => rfl
  | undone => rfl
  | created => rfl

theorem Deleted.regs {params : BAFS_CORE_IOC_DELETE_GROUP_PARAMS} {copy : Bool} {ret : Int}
    (hd : Deleted h v s params copy ret h' v') : v'.regs = v.regs := by
  cases hd with
  | refused => rfl
  | deleted => exact View.put_group_regs _

/-- The close of a file sweeps its context, and nothing else of this shows. -/
theorem View.close_file_regs (v : View) (h : Held Kind) (i : FileId) (x : File) :
    (v.close_file h i x).regs = ({ v with files := v.files.free i }.sweep_ctx x.ctx).regs := by
  cases x with
  | group y => exact put_group_regs _
  | _ => rfl

/-! ## Registrations -/

theorem View.set_mem_mems {m : MemId} {f : BafsMem} :
    (v.set_mem m f).mems = Function.update v.mems m (some f) := rfl

theorem View.close_mem_mems {m : MemId} {f : BafsMem} :
    (v.close_mem m f).mems = Function.update v.mems m none := rfl

theorem View.pin_mem_mems {m : MemId} {f : BafsMem} {T : Heap P2pPageTable} :
    (v.pin_mem m f T).mems = Function.update v.mems m (some { f with state := .LIVE }) :=
  Function.update_idem ..

theorem View.revoke_mem_mems {m : MemId} {f : BafsMem} (hst : f.state ≠ .DEAD) :
    (v.revoke_mem m f).mems =
      Function.update v.mems m (some { f with state := .DEAD_CB, cuda_page_table := none }) := by
  rw [revoke_mem, if_neg hst]
  exact Function.update_idem ..

/-- Where the fields of the registration `m` after a request come from. -/
inductive RegOf (v : View) (m : MemId) : BafsMem → Prop
  | kept {f : BafsMem} (hm : v.mems m = some f) : RegOf v m f
  | made {blk : BlockId} {c : CtxId} {i size loc : Nat} (hm : m = v.mem_next)
      (hsize : size < 2 ^ 32) :
      RegOf v m (new_mem blk c i size loc).fields
  | pinned {f f' : BafsMem} {a : Nat} {T' : Heap P2pPageTable} {w : Vma} (hm : v.mems m = some f)
      (hp : Pinned m { f with vaddr := a } f' v.tables T' w) : RegOf v m { f' with state := .LIVE }
  | unpinned {f f' : BafsMem} {a : Nat} {T' : Heap P2pPageTable} (hm : v.mems m = some f)
      (hp : Unpinned m { f with vaddr := a } f' v.tables T') : RegOf v m f'
  | revoked {f : BafsMem} (hm : v.mems m = some f) (hst : f.state ≠ .DEAD) :
      RegOf v m { f with state := .DEAD_CB, cuda_page_table := none }

theorem RegOf.of_update {m n : MemId} {f g : BafsMem} (hg : RegOf v m g)
    (hf : Function.update v.mems m (some g) n = some f) : RegOf v n f := by
  by_cases hn : n = m
  · subst hn
    rw [Function.update_self] at hf
    rw [← Option.some.inj hf]
    exact hg
  · rw [Function.update_of_ne hn] at hf
    exact .kept hf

/-- What is left of the registrations is as it was. -/
theorem sweep_ctx_some {c : CtxId} {m : MemId} {f : BafsMem} (hf : (v.sweep_ctx c).mems m = some f) :
    v.mems m = some f ∧ (f.ctx ≠ c ∨ f.state ≠ .STALE) := by
  obtain ⟨hm, hp⟩ := Option.filter_eq_some_iff.mp hf
  exact ⟨hm, of_decide_eq_true hp⟩

theorem close_mem_some {m n : MemId} {f g : BafsMem} (hf : (v.close_mem m g).mems n = some f) :
    n ≠ m ∧ v.mems n = some f := by
  rw [View.close_mem_mems] at hf
  by_cases hn : n = m
  · subst hn
    rw [Function.update_self] at hf
    cases hf
  · rw [Function.update_of_ne hn] at hf
    exact ⟨hn, hf⟩

theorem regs_mems {m : MemId} {f : BafsMem} (hr : v'.regs = v.regs) (hf : v'.mems m = some f) :
    v.mems m = some f := by
  rwa [show v'.mems = v.mems from congrArg (·.1) hr] at hf

theorem Ioctl.reg_of {x : File} {cmd : Nat} {arg : IoctlArg} {env : IoctlEnv} {reply : IoctlReply}
    {m : MemId} {f : BafsMem} (hi : Ioctl h v s x cmd arg env reply h' v')
    (hf : v'.mems m = some f) : RegOf v m f := by
  cases hi with
  | reg_mem => exact RegOf.of_update (.made rfl arg.reg_mem.size.isLt) hf
  | reg_mem_fails => exact .kept hf
  | dma_map => exact .kept hf
  | create hx hcmd hc => exact .kept (regs_mems hc.regs hf)
  | delete hx hcmd hd => exact .kept (regs_mems hd.regs hf)
  | refused => exact .kept hf

theorem Mmap.reg_of {x : File} {vma : Vma} {env : MmapEnv} {w : Option Vma} {m : MemId} {f : BafsMem}
    (hm : Mmap h v s x vma env w h' v') (hf : v'.mems m = some f) : RegOf v m f := by
  cases hm with
  | pinned hp hsel hm hok hw hpin =>
    rw [View.pin_mem_mems] at hf
    exact RegOf.of_update (.pinned hm hpin) hf
  | unpinned hp hsel hm hno hpin => exact RegOf.of_update (.unpinned hm hpin) hf
  | _ => exact .kept hf

/-- Every registration after a request comes from one before it, or is new. -/
theorem Effect.reg_of {m : MemId} {f : BafsMem} (he : Effect h v s r h' v')
    (hf : v'.mems m = some f) : RegOf v m f := by
  cases he with
  | close => exact .kept (sweep_ctx_some (regs_mems (View.close_file_regs v _ _ _) hf)).1
  | ioctl hx hi => exact hi.reg_of hf
  | mmap hx hr hm => exact hm.reg_of hf
  | mmap_failed hx hr hm => exact hm.reg_of hf
  | munmap_mem hw hc hm => exact .kept (close_mem_some hf).2
  | move_mem hw hr hc hm => exact .kept (close_mem_some hf).2
  | @revoke t x g ht hp hm =>
    by_cases hst : g.state = .DEAD
    · rw [View.revoke_mem, if_pos hst] at hf
      exact .kept hf
    · rw [View.revoke_mem_mems hst] at hf
      exact RegOf.of_update (.revoked hm hst) hf
  | _ => exact .kept hf

/-! ## What stays -/

theorem update_kept {M : MemId → Option BafsMem} {m n : MemId} {f g : BafsMem} (hm : M n = some f) :
    ∃ f', Function.update M m (some g) n = some f' := by
  by_cases hn : n = m
  · exact ⟨g, by rw [hn, Function.update_self]⟩
  · exact ⟨f, by rw [Function.update_of_ne hn, hm]⟩

theorem Mmap.mem_kept {x : File} {vma : Vma} {env : MmapEnv} {w : Option Vma} {m : MemId}
    {f : BafsMem} (hm : Mmap h v s x vma env w h' v') (hf : v.mems m = some f) :
    ∃ f', v'.mems m = some f' := by
  cases hm with
  | pinned hp hsel hm hok hw hpin =>
    rw [View.pin_mem_mems]
    exact update_kept hf
  | unpinned => exact update_kept hf
  | _ => exact ⟨f, hf⟩

theorem Mmap.dmas {x : File} {vma : Vma} {env : MmapEnv} {w : Option Vma}
    (hm : Mmap h v s x vma env w h' v') : v'.dmas = v.dmas := by
  cases hm <;> rfl

theorem View.revoke_mem_dmas {m : MemId} {f : BafsMem} : (v.revoke_mem m f).dmas = v.dmas := by
  unfold revoke_mem
  split <;> rfl

theorem View.revoke_mem_kept {m n : MemId} {f g : BafsMem} (hn : v.mems n = some g) :
    ∃ g', (v.revoke_mem m f).mems n = some g' := by
  by_cases hst : f.state = .DEAD
  · rw [revoke_mem, if_pos hst]
    exact ⟨g, hn⟩
  · rw [revoke_mem_mems hst]
    exact update_kept hn

theorem Ioctl.mem_kept {x : File} {cmd : Nat} {arg : IoctlArg} {env : IoctlEnv} {reply : IoctlReply}
    {m : MemId} {f : BafsMem} (hi : Ioctl h v s x cmd arg env reply h' v') (hf : v.mems m = some f) :
    ∃ f', v'.mems m = some f' := by
  have hregs : v'.regs = v.regs → ∃ f', v'.mems m = some f' := fun he => by
    have hm : v'.mems = v.mems := congrArg (·.1) he
    exact ⟨f, hm ▸ hf⟩
  cases hi with
  | reg_mem => exact update_kept hf
  | create hx hcmd hc => exact hregs hc.regs
  | delete hx hcmd hd => exact hregs hd.regs
  | _ => exact ⟨f, hf⟩

/-! ## VMAs -/

/-- Where a VMA after a request comes from, if it was not there before, with `M` as the registrations
now: it is a piece of another one, or an mmap has made it. -/
inductive NewVma (v : View) (M : MemId → Option BafsMem) (w' : Vma) : Prop
  | piece {j : VmaId} {w : Vma} (hw : v.vmas.get j = some w) (hops : w'.vm_ops = w.vm_ops)
      (hm : w'.vm_private_data = w.vm_private_data)
      (hbar : ∀ q ∈ w'.remaps, ∃ q' ∈ w.remaps, q.bar = q'.bar)
  | bars (hops : w'.vm_ops = none) (hm : w'.vm_private_data = none)
  | pinned {m : MemId} {f : BafsMem} (hops : w'.vm_ops = some .bafs_mem_ops)
      (hm : w'.vm_private_data = some m) (hbar : ∀ q ∈ w'.remaps, q.bar = none)
      (hf : M m = some f) (hst : f.state = .LIVE)

theorem NewVma.lower {M : MemId → Option BafsMem} {i : VmaId} {w : Vma} (hw : v.vmas.get i = some w) (a : Nat) :
    NewVma v M (w.lower a) :=
  .piece hw rfl rfl fun q hq => ⟨q, List.mem_of_mem_filter hq, rfl⟩

theorem NewVma.upper {M : MemId → Option BafsMem} {i : VmaId} {w : Vma} (hw : v.vmas.get i = some w) (a : Nat) :
    NewVma v M (w.upper a) :=
  .piece hw rfl rfl fun q hq => ⟨q, List.mem_of_mem_filter hq, rfl⟩

theorem NewVma.moved {M : MemId → Option BafsMem} {i : VmaId} {w : Vma} (hw : v.vmas.get i = some w) (a : Nat) :
    NewVma v M (w.moved a) := by
  refine .piece hw rfl rfl fun q hq => ?_
  obtain ⟨q', hq', rfl⟩ := List.mem_map.mp hq
  exact ⟨q', hq', rfl⟩

theorem Mmap.new_vma {x : File} {env : MmapEnv} {mm a b pgoff : Nat} {w : Vma}
    (hm : Mmap h v s x (new_vma mm a b pgoff) env (some w) h' v') : NewVma v v'.mems w := by
  cases hm with
  | bars_mapped => exact .bars rfl rfl
  | @pinned m f f' w T' hp hsel hm hok hw hpin =>
    obtain ⟨u, ⟨pages, remaps, rfl, hbar⟩, rfl⟩ := hw
    refine .pinned (m := m) (f := { f' with state := .LIVE }) rfl rfl hbar ?_ rfl
    rw [View.pin_mem_mems, Function.update_self]

theorem Mmap.vmas {x : File} {env : MmapEnv} {vma : Vma} {w : Option Vma}
    (hm : Mmap h v s x vma env w h' v') : v'.vmas = v.vmas := by
  cases hm <;> rfl

theorem Ioctl.vmas {x : File} {cmd : Nat} {arg : IoctlArg} {env : IoctlEnv} {reply : IoctlReply}
    (hi : Ioctl h v s x cmd arg env reply h' v') : v'.vmas = v.vmas := by
  cases hi with
  | create hx hcmd hc => exact congrArg (·.2.2.2.1) hc.regs
  | delete hx hcmd hd => exact congrArg (·.2.2.2.1) hd.regs
  | _ => rfl

theorem View.revoke_mem_vmas {m : MemId} {f : BafsMem} : (v.revoke_mem m f).vmas = v.vmas := by
  unfold revoke_mem
  split <;> rfl

/-- Every VMA after a request was there before, or is new. -/
theorem Effect.vma_of {i : VmaId} {w : Vma} (he : Effect h v s r h' v')
    (hw : v'.vmas.get i = some w) : v.vmas.get i = some w ∨ NewVma v v'.mems w := by
  cases he with
  | @close j x hx hg =>
    rw [show (v.close_file h j x).vmas = v.vmas from
      congrArg (·.2.2.2.1) (View.close_file_regs v h j x)] at hw
    exact .inl hw
  | ioctl hx hi =>
    rw [hi.vmas] at hw
    exact .inl hw
  | mmap hx hr hm =>
    obtain ⟨-, rfl⟩ | hw := Heap.get_alloc_cases hw
    · exact .inr hm.new_vma
    · rw [hm.vmas] at hw
      exact .inl hw
  | mmap_failed hx hr hm =>
    rw [hm.vmas] at hw
    exact .inl hw
  | munmap hw' hc => exact .inl (Heap.get_of_free hw).2
  | munmap_mem hw' hc hm => exact .inl (Heap.get_of_free hw).2
  | @split j at_ w' hw' hat =>
    obtain ⟨-, rfl⟩ | hw := Heap.get_alloc_cases hw
    · exact .inr (.upper hw' at_)
    · obtain ⟨rfl, rfl⟩ | ⟨-, hw⟩ := Heap.get_set_cases hw' hw
      · exact .inr (.lower hw' at_)
      · exact .inl hw
  | @move j a w' hw' hr hc =>
    obtain ⟨-, rfl⟩ | hw := Heap.get_alloc_cases (Heap.get_of_free hw).2
    · exact .inr (.moved hw' a)
    · exact .inl hw
  | @move_mem j a w' m f hw' hr hc hm =>
    obtain ⟨-, rfl⟩ | hw := Heap.get_alloc_cases (Heap.get_of_free hw).2
    · exact .inr (.moved hw' a)
    · exact .inl hw
  | revoke ht hp hm =>
    rw [View.revoke_mem_vmas] at hw
    exact .inl hw
  | _ => exact .inl hw

/-! ## Page tables -/

/-- Where a page table after a request comes from: it has been there with the same registration,
perhaps pinned, or a pin has made it for a registration that exists. -/
inductive TableOf (v : View) (t : TableId) (x' : P2pPageTable) : Prop
  | kept {x : P2pPageTable} (ht : v.tables.get t = some x) (hd : x'.data = x.data)
      (hp : x'.pinned = true → x.pinned = true)
  | made {f : BafsMem} (ht : t = v.tables.next) (hf : v.mems x'.data = some f)

theorem unpinned_get {T : Heap P2pPageTable} {t u : TableId} {x : P2pPageTable}
    (hx : (unpinned T u).get t = some x) : ∃ y, T.get t = some y ∧ x.data = y.data ∧
      (x.pinned = true → t ≠ u ∧ y.pinned = true) := by
  unfold unpinned at hx
  cases hu : T.get u with
  | none =>
    rw [hu] at hx
    refine ⟨x, hx, rfl, fun hp => ⟨?_, hp⟩⟩
    rintro rfl
    cases hu.symm.trans hx
  | some y =>
    rw [hu] at hx
    obtain ⟨rfl, rfl⟩ | ⟨hne, hx⟩ := Heap.get_set_cases hu hx
    · exact ⟨y, hu, rfl, fun hp => by cases hp⟩
    · exact ⟨x, hx, rfl, fun hp => ⟨hne, hp⟩⟩

theorem TableOf.unpin {t u : TableId} {x : P2pPageTable}
    (hx : (unpinned v.tables u).get t = some x) : TableOf v t x := by
  obtain ⟨y, hy, hd, hp⟩ := unpinned_get hx
  exact .kept hy hd fun h => (hp h).2

theorem TableOf.released {t : TableId} {x : P2pPageTable} {f : BafsMem}
    (hx : (released_tables v.tables f).get t = some x) : TableOf v t x := by
  unfold released_tables at hx
  split at hx
  · exact .kept hx rfl id
  · split at hx
    · exact .unpin hx
    · exact .kept hx rfl id

theorem TableOf.alloc {t : TableId} {x : P2pPageTable} {m : MemId} {f : BafsMem} {pages : P2pPages}
    (hm : v.mems m = some f) (hx : (v.tables.alloc ⟨pages, m, true⟩).get t = some x) :
    TableOf v t x := by
  obtain ⟨ht, rfl⟩ | hx := Heap.get_alloc_cases hx
  · exact .made ht hm
  · exact .kept hx rfl id

theorem View.close_mem_tables {m : MemId} {f : BafsMem} :
    (v.close_mem m f).tables = released_tables v.tables f := rfl

theorem View.revoke_mem_tables {m : MemId} {f : BafsMem} : (v.revoke_mem m f).tables = v.tables := by
  unfold revoke_mem
  split <;> rfl

theorem Mmap.table_of {x : File} {env : MmapEnv} {vma : Vma} {w : Option Vma} {t : TableId}
    {y : P2pPageTable} (hm : Mmap h v s x vma env w h' v') (hy : v'.tables.get t = some y) :
    TableOf v t y := by
  cases hm with
  | @pinned m f f' w T' hp hsel hm hok hw hpin =>
    obtain ⟨-, -, -, rfl⟩ | ⟨-, -, -, pages, rfl⟩ := hpin.table
    · exact .kept hy rfl id
    · exact .alloc hm hy
  | @unpinned m f f' T' hp hsel hm hno hpin =>
    obtain rfl | ⟨pages, rfl⟩ := hpin.tables
    · exact .kept hy rfl id
    · obtain ⟨z, hz, hd, hpz⟩ := unpinned_get hy
      obtain ⟨ht, rfl⟩ | hz := Heap.get_alloc_cases hz
      · exact .made (f := f) ht (by rw [hd]; exact hm)
      · exact .kept hz hd fun h => (hpz h).2
  | _ => exact .kept hy rfl id

theorem Ioctl.tables {x : File} {cmd : Nat} {arg : IoctlArg} {env : IoctlEnv} {reply : IoctlReply}
    (hi : Ioctl h v s x cmd arg env reply h' v') : v'.tables = v.tables := by
  cases hi with
  | create hx hcmd hc => exact congrArg (·.2.2.2.2.2.1) hc.regs
  | delete hx hcmd hd => exact congrArg (·.2.2.2.2.2.1) hd.regs
  | _ => rfl

theorem Effect.table_of {t : TableId} {y : P2pPageTable} (he : Effect h v s r h' v')
    (hy : v'.tables.get t = some y) : TableOf v t y := by
  cases he with
  | @close j x hx hg =>
    rw [show (v.close_file h j x).tables = v.tables from
      congrArg (·.2.2.2.2.2.1) (View.close_file_regs v h j x)] at hy
    exact .kept hy rfl id
  | ioctl hx hi =>
    rw [hi.tables] at hy
    exact .kept hy rfl id
  | mmap hx hr hm => exact hm.table_of hy
  | mmap_failed hx hr hm => exact hm.table_of hy
  | munmap_mem hw hc hm => exact .released hy
  | move_mem hw hr hc hm => exact .released hy
  | revoke ht hp hm =>
    rw [View.revoke_mem_tables] at hy
    exact .unpin hy
  | _ => exact .kept hy rfl id

/-! ## What holds whatever the requests -/

/-- How the registrations, the VMAs and the page tables look between two requests. -/
structure Tidy (v : View) : Prop where
  /-- A VMA with a registration as its private data gives it up when it is closed. -/
  closes : ∀ i w, v.vmas.get i = some w → w.closes = w.vm_private_data
  /-- No registration is the private data of a VMA with a BAR. -/
  bars : ∀ i w q, v.vmas.get i = some w → q ∈ w.remaps → q.bar ≠ none → w.vm_private_data = none
  vma_made : ∀ i w m, v.vmas.get i = some w → w.vm_private_data = some m → m < v.mem_next
  /-- A registration that is mapped was pinned. -/
  pinned : ∀ i w m f, v.vmas.get i = some w → w.vm_private_data = some m → v.mems m = some f →
    f.state ≠ .STALE
  alive : ∀ m f, v.mems m = some f → f.state ≠ .DEAD
  fits : ∀ m f, v.mems m = some f → table_fits f
  cpu_only : ∀ m f, v.mems m = some f → f.loc ≠ BAFS_MEM_CPU → f.cpu_page_table = none
  size_lt : ∀ m f, v.mems m = some f → f.size < 2 ^ 32
  /-- A registration of CPU memory has no pages before it is pinned for the first time, and then as
  many as hold its bytes. -/
  sized : ∀ m f, v.mems m = some f → f.loc = BAFS_MEM_CPU → f.n_pages = 0 ∨
    f.page_size = PAGE_SIZE ∧ f.n_pages = pages_for f.size PAGE_SIZE PAGE_SHIFT
  bare : ∀ m f, v.mems m = some f → f.state = .STALE → f.cpu_page_table = none
  table_made : ∀ t x, v.tables.get t = some x → x.data < v.mem_next

theorem Effect.mem_next_le (he : Effect h v s r h' v') : v.mem_next ≤ v'.mem_next := by
  have hioctl : ∀ {x : File} {cmd : Nat} {arg : IoctlArg} {env : IoctlEnv} {reply : IoctlReply},
      Ioctl h v s x cmd arg env reply h' v' → v.mem_next ≤ v'.mem_next := fun hi => by
    cases hi with
    | reg_mem => exact Nat.le_succ _
    | reg_mem_fails hcmd hy hf hret hn => exact hn
    | create hx hcmd hc => exact (congrArg (·.2.1) hc.regs).ge
    | delete hx hcmd hd => exact (congrArg (·.2.1) hd.regs).ge
    | _ => exact le_rfl
  have hmmap : ∀ {x : File} {env : MmapEnv} {vma : Vma} {w : Option Vma} {v' : View} {h' : Held Kind},
      Mmap h v s x vma env w h' v' → v.mem_next ≤ v'.mem_next := fun hm => by
    cases hm <;> exact le_rfl
  cases he with
  | @close j x hx hg => exact (congrArg (·.2.1) (View.close_file_regs v h j x)).ge
  | ioctl hx hi => exact hioctl hi
  | mmap hx hr hm =>
    have := hmmap hm
    exact this
  | mmap_failed hx hr hm => exact hmmap hm
  | revoke ht hp hm =>
    unfold View.revoke_mem
    split <;> exact le_rfl
  | _ => exact le_rfl

theorem NewVma.tidy {w : Vma} (hw : NewVma v v'.mems w) (ht : Tidy v) :
    w.closes = w.vm_private_data ∧ ∀ q ∈ w.remaps, q.bar ≠ none → w.vm_private_data = none := by
  cases hw with
  | piece hw hops hm hbar =>
    refine ⟨?_, fun q hq hb => ?_⟩
    · rw [Vma.closes, hops, hm]
      exact ht.closes _ _ hw
    · obtain ⟨q', hq', he⟩ := hbar q hq
      rw [hm]
      exact ht.bars _ _ q' hw hq' (he ▸ hb)
  | bars hops hm =>
    refine ⟨?_, fun _ _ _ => hm⟩
    rw [Vma.closes, hops, hm]
    rfl
  | pinned hops hm hbar hf hst =>
    refine ⟨?_, fun q hq hb => absurd (hbar q hq) hb⟩
    rw [Vma.closes, hops, hm]
    rfl

/-- A registration that is not new has not become unpinned. -/
theorem RegOf.stale {m : MemId} {f : BafsMem} (hr : RegOf v m f) (hst : f.state = .STALE) :
    m = v.mem_next ∨ ∃ g, v.mems m = some g ∧ g.state = .STALE := by
  cases hr with
  | kept hm => exact .inr ⟨f, hm, hst⟩
  | made hm => exact .inl hm
  | pinned => cases hst
  | unpinned hm hp => exact .inr ⟨_, hm, hp.same.state.symm.trans hst⟩
  | revoked => cases hst

/-- Every request keeps this. -/
theorem Effect.tidy {s' : State} (he : Effect h v s r h' v') (hs : At h v s) (hs' : At h' v' s')
    (ht : Tidy v) : Tidy v' where
  closes i w hw := (he.vma_of hw).elim (ht.closes i w) fun hn => (hn.tidy ht).1
  bars i w q hw := (he.vma_of hw).elim (ht.bars i w q) fun hn => (hn.tidy ht).2 q
  vma_made i w m hw hm := by
    have hle := he.mem_next_le
    obtain hw | hw := he.vma_of hw
    · exact Nat.lt_of_lt_of_le (ht.vma_made i w m hw hm) hle
    · cases hw with
      | piece hw hops hm' hbar => exact Nat.lt_of_lt_of_le (ht.vma_made _ _ m hw (hm' ▸ hm)) hle
      | bars hops hm' => cases hm'.symm.trans hm
      | pinned hops hm' hbar hf hst =>
        obtain rfl := Option.some.inj (hm'.symm.trans hm)
        exact hs'.mem_lt hf
  pinned i w m f hw hm hf hst := by
    have hold : ∀ j u, v.vmas.get j = some u → u.vm_private_data = some m → False :=
      fun j u hu hum => by
        obtain rfl | ⟨g, hg, hgst⟩ := (he.reg_of hf).stale hst
        · exact absurd (ht.vma_made j u _ hu hum) (lt_irrefl _)
        · exact ht.pinned j u m g hu hum hg hgst
    obtain hw | hw := he.vma_of hw
    · exact hold i w hw hm
    · cases hw with
      | piece hw hops hm' hbar => exact hold _ _ hw (hm' ▸ hm)
      | bars hops hm' => cases hm'.symm.trans hm
      | pinned hops hm' hbar hf' hst' =>
        obtain rfl := Option.some.inj (hm'.symm.trans hm)
        obtain rfl := Option.some.inj (hf'.symm.trans hf)
        cases hst'.symm.trans hst
  alive m f hf := by
    cases he.reg_of hf with
    | kept hm => exact ht.alive m f hm
    | made hm => exact fun hst => by cases hst
    | pinned hm hp => exact fun hst => by cases hst
    | unpinned hm hp =>
      rw [hp.same.state]
      exact (ht.alive m _ hm :)
    | revoked hm hst => exact fun hst => by cases hst
  fits m f hf := by
    cases he.reg_of hf with
    | kept hm => exact ht.fits m f hm
    | made hm => exact fun _ p hp => by cases hp
    | pinned hm hp => exact hp.fits
    | unpinned hm hp => exact hp.fits (ht.fits m _ hm :)
    | revoked hm hst => exact (ht.fits m _ hm :)
  cpu_only m f hf hloc := by
    cases he.reg_of hf with
    | kept hm => exact ht.cpu_only m f hm hloc
    | made hm => rfl
    | pinned hm hp =>
      obtain ⟨hcpu, -⟩ | ⟨-, hcpu, -⟩ := hp.table
      · exact absurd (hp.same.loc.trans hcpu) hloc
      · exact hcpu.trans (ht.cpu_only m _ hm fun hl => hloc (hp.same.loc.trans hl) :)
    | unpinned hm hp =>
      obtain hcpu | hcpu := hp.cpu
      · exact hcpu.trans (ht.cpu_only m _ hm fun hl => hloc (hp.same.loc.trans hl) :)
      · exact hcpu
    | revoked hm hst => exact (ht.cpu_only m _ hm hloc :)
  size_lt m f hf := by
    cases he.reg_of hf with
    | kept hm => exact ht.size_lt m f hm
    | made hm hsize => exact hsize
    | pinned hm hp =>
      have hsize := hp.same.size
      dsimp only at hsize ⊢
      rw [hsize]
      exact (ht.size_lt m _ hm :)
    | unpinned hm hp =>
      rw [hp.same.size]
      exact (ht.size_lt m _ hm :)
    | revoked hm hst => exact (ht.size_lt m _ hm :)
  sized m f hf hloc := by
    cases he.reg_of hf with
    | kept hm => exact ht.sized m f hm hloc
    | made hm => exact .inl rfl
    | pinned hm hp => exact .inr (hp.sized hloc)
    | unpinned hm hp => exact .inr (hp.sized hloc)
    | revoked hm hst => exact (ht.sized m _ hm hloc :)
  bare m f hf hst := by
    cases he.reg_of hf with
    | kept hm => exact ht.bare m f hm hst
    | made hm => rfl
    | pinned hm hp => cases hst
    | unpinned hm hp =>
      obtain hcpu | hcpu := hp.cpu
      · exact hcpu.trans (ht.bare m _ hm (hp.same.state.symm.trans hst) :)
      · exact hcpu
    | revoked hm hst' => cases hst
  table_made t x hx := by
    refine Nat.lt_of_lt_of_le ?_ he.mem_next_le
    cases he.table_of hx with
    | kept hx hd hp => exact hd ▸ ht.table_made t _ hx
    | made ht' hf => exact hs.mem_lt hf

/-- A page offset selects at most one registration of a context. -/
theorem At.selects_unique (hs : At h v s) {c : CtxId} {vm_pgoff : Nat} {m n : MemId}
    (hm : Selects v c vm_pgoff m) (hn : Selects v c vm_pgoff n) : m = n := by
  obtain ⟨f, hf, hc, hi⟩ := hm
  obtain ⟨x, hx, rfl⟩ := hs.mem_live hf
  obtain ⟨y, hy, -⟩ := hs.wf.tables.mem_listed m x hx
  have hy : s.ctxs.get c = some y := by
    rw [← hy]
    exact congrArg s.ctxs.get hc.symm
  have h1 := (hs.mem_xa_iff hy).mpr ⟨_, hf, hc, hi⟩
  have h2 := (hs.mem_xa_iff hy).mpr hn
  exact Option.some.inj (h1.symm.trans h2)

/-! ## The invariant between requests -/

/-- The invariant of the module between two requests, with what the requests make of the
registrations, the VMAs and the page tables. -/
structure Inv (s : State) : Prop where
  sane : Sane s
  tidy : Tidy s.view

@[simp] theorem init_mems (m : MemId) : init.view.mems m = none :=
  congrArg (Option.map BafsMem.fields) (Heap.get_empty (i := m))

@[simp] theorem init_dmas (d : DmaId) : init.view.dmas d = none :=
  congrArg (Option.map fun y : BafsMemDma => (y.mem, y.ctrl)) (Heap.get_empty (i := d))

@[simp] theorem init_vmas (i : VmaId) : init.vmas.get i = none := Heap.get_empty

theorem inv_init : Inv init := by
  refine ⟨sane_init, ?_⟩
  have hvma : ∀ {i : VmaId} {w : Vma}, init.vmas.get i = some w → False := fun hw => by
    rw [init_vmas] at hw
    cases hw
  have hmem : ∀ {m : MemId} {f : BafsMem}, init.view.mems m = some f → False := fun hf => by
    rw [init_mems] at hf
    cases hf
  exact
    { closes := fun _ _ hw => (hvma hw).elim
      bars := fun _ _ _ hw => (hvma hw).elim
      vma_made := fun _ _ _ hw => (hvma hw).elim
      pinned := fun _ _ _ _ hw => (hvma hw).elim
      alive := fun _ _ hf => (hmem hf).elim
      fits := fun _ _ hf => (hmem hf).elim
      cpu_only := fun _ _ hf => (hmem hf).elim
      size_lt := fun _ _ hf => (hmem hf).elim
      sized := fun _ _ hf => (hmem hf).elim
      bare := fun _ _ hf => (hmem hf).elim
      table_made := fun _ _ hx => by
        cases (Heap.get_empty (i := _) : init.tables.get _ = none).symm.trans hx }

/-- Every request ends in one of its cases and keeps the invariant, or gets stuck in one of its
ways. -/
theorem step_inv (r : Request) (hi : Inv s) : ∃ h, Lost h ∧ At h s.view s ∧
    wp (step r) (Stuck s.view s r) (fun _ s' => Inv s' ∧ ∃ h', Lost h' ∧ At h' s'.view s' ∧
      Effect h s.view s r h' s'.view) s := by
  obtain ⟨h, hl, hs⟩ := hi.sane.at
  refine ⟨h, hl, hs, wp_mono (step_spec r hs hl) fun _ s' hs' => ?_⟩
  obtain ⟨h', v', he, hs'⟩ := hs'
  obtain rfl := hs'.view
  exact ⟨⟨⟨h', he.lost hl, hs'.wf⟩, he.tidy hs hs' hi.tidy⟩, h', he.lost hl, hs', he⟩

/-- Every request keeps the invariant. -/
theorem step_keeps_inv (r : Request) (hi : Inv s) :
    wp (step r) (fun _ => True) (fun _ s' => Inv s') s := by
  obtain ⟨h, -, -, hw⟩ := step_inv r hi
  exact wp_weaken (wp_mono hw fun _ s' hs' => hs'.1) fun _ _ => trivial

/-- What the invariant implies holds in every state that a run reaches. -/
theorem always_of_inv {P : State → Prop} (hP : ∀ s, Inv s → P s) (rs : List Request) :
    Always step (fun _ => True) P rs init :=
  always_of_step (I := Inv) (fun _ r hi => step_keeps_inv r hi) hP rs inv_init

/-- Every state that a run reaches keeps the invariant. -/
theorem run_inv {rs : List Request} (hr : run step rs init = .ok s) : Inv s :=
  (always_iff_run.mp (always_of_inv (fun _ hi => hi) rs) rs (List.prefix_refl rs)).1 s hr

end BafsDriver
