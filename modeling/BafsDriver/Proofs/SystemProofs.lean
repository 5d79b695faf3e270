import BafsDriver.Proofs.FileProofs
import BafsDriver.Lib.Run

/-!
# Requests

What a request makes of the references and of the view, case by case, and how it may get stuck. The
claims about runs are drawn from these cases.
-/

set_option linter.style.nameCheck false

namespace BafsDriver

open Prog

variable {h h' : Held Kind} {v v' : View} {s : State} {E : Fault → Prop}

/-! ## The cases -/

/-- The request opens a file. -/
def Request.opens : Request → Prop
  | .open_core .. | .open_ctrl .. | .open_group .. => True
  | _ => False

/-- The open file that the request names. -/
def Request.file : Request → Option FileId
  | .close f => some f
  | .ioctl f .. => some f
  | .mmap f .. => some f
  | _ => none

/-- The VMA that the request names. -/
def Request.vma : Request → Option VmaId
  | .munmap i => some i
  | .split i _ => some i
  | .move i _ => some i
  | _ => none

/-- The registration that the close of a VMA gives up. -/
def Vma.closes (w : Vma) : Option MemId := w.vm_ops.bind fun _ => w.vm_private_data

/-- What a request makes of the references `h` and of the view `v` of the state `s`. -/
inductive Effect (h : Held Kind) (v : View) (s : State) : Request → Held Kind → View → Prop
  | probe {pdev : PciDev} {env : CtrlAllocEnv} : Effect h v s (.probe pdev env) h v
  | remove {slot : Nat} : Effect h v s (.remove slot) h v
  | opened {r : Request} {f : File} (hr : r.opens)
      (hg : ∀ g, 0 < f.group_refs g → ∃ l, v.group_ctrls g = some l) :
      Effect h v s r h { v with files := v.files.alloc f }
  | not_opened {r : Request} (hr : r.opens) : Effect h v s r h v
  | close {i : FileId} {x : File} (hx : v.files.get i = some x) (hg : ¬group_gone v x) :
      Effect h v s (.close i) h (v.close_file h i x)
  | ioctl {i cmd : Nat} {x : File} {arg : IoctlArg} {env : IoctlEnv} {reply : IoctlReply}
      {h' : Held Kind} {v' : View} (hx : v.files.get i = some x)
      (hi : Ioctl h v s x cmd arg env reply h' v') : Effect h v s (.ioctl i cmd arg env) h' v'
  | mmap {i mm a b pgoff : Nat} {x : File} {env : MmapEnv} {w : Vma} {h' : Held Kind} {v' : View}
      (hx : v.files.get i = some x) (hr : range_free s mm a b)
      (hm : Mmap h v s x (new_vma mm a b pgoff) env (some w) h' v') :
      Effect h v s (.mmap i mm a b pgoff env) h' { v' with vmas := v'.vmas.alloc w }
  | mmap_failed {i mm a b pgoff : Nat} {x : File} {env : MmapEnv} {h' : Held Kind} {v' : View}
      (hx : v.files.get i = some x) (hr : range_free s mm a b)
      (hm : Mmap h v s x (new_vma mm a b pgoff) env none h' v') :
      Effect h v s (.mmap i mm a b pgoff env) h' v'
  | mmap_taken {i mm a b pgoff : Nat} {env : MmapEnv} (hr : ¬range_free s mm a b) :
      Effect h v s (.mmap i mm a b pgoff env) h v
  | no_file {r : Request} {i : FileId} (hr : r.file = some i) (hx : v.files.get i = none) :
      Effect h v s r h v
  | munmap {i : VmaId} {w : Vma} (hw : v.vmas.get i = some w) (hc : w.closes = none) :
      Effect h v s (.munmap i) h { v with vmas := v.vmas.free i }
  | munmap_mem {i : VmaId} {w : Vma} {m : MemId} {f : BafsMem} (hw : v.vmas.get i = some w)
      (hc : w.closes = some m) (hm : v.mems m = some f) :
      Effect h v s (.munmap i) h ({ v with vmas := v.vmas.free i }.close_mem m f)
  | split {i at_ : Nat} {w : Vma} (hw : v.vmas.get i = some w)
      (hat : w.vm_start < at_ ∧ at_ < w.vm_end ∧ PAGE_SIZE ∣ at_) :
      Effect h v s (.split i at_) h
        { v with vmas := (v.vmas.set i (w.lower at_)).alloc (w.upper at_) }
  | split_refused {i at_ : Nat} {w : Vma} (hw : v.vmas.get i = some w)
      (hat : ¬(w.vm_start < at_ ∧ at_ < w.vm_end ∧ PAGE_SIZE ∣ at_)) :
      Effect h v s (.split i at_) h v
  | move {i a : Nat} {w : Vma} (hw : v.vmas.get i = some w)
      (hr : range_free s w.mm a (a + (w.vm_end - w.vm_start))) (hc : w.closes = none) :
      Effect h v s (.move i a) h { v with vmas := (v.vmas.alloc (w.moved a)).free i }
  | move_mem {i a : Nat} {w : Vma} {m : MemId} {f : BafsMem} (hw : v.vmas.get i = some w)
      (hr : range_free s w.mm a (a + (w.vm_end - w.vm_start))) (hc : w.closes = some m)
      (hm : v.mems m = some f) :
      Effect h v s (.move i a) h
        ({ v with vmas := (v.vmas.alloc (w.moved a)).free i }.close_mem m f)
  | move_taken {i a : Nat} {w : Vma} (hw : v.vmas.get i = some w)
      (hr : ¬range_free s w.mm a (a + (w.vm_end - w.vm_start))) : Effect h v s (.move i a) h v
  | no_vma {r : Request} {i : VmaId} (hr : r.vma = some i) (hw : v.vmas.get i = none) :
      Effect h v s r h v
  | revoke {t : TableId} {x : P2pPageTable} {f : BafsMem} (ht : v.tables.get t = some x)
      (hp : x.pinned = true) (hm : v.mems x.data = some f) :
      Effect h v s (.revoke t) h ({ v with tables := unpinned v.tables t }.revoke_mem x.data f)
  | revoke_refused {t : TableId} (ht : ∀ x, v.tables.get t = some x → x.pinned = false) :
      Effect h v s (.revoke t) h v

/-- The request closes a VMA that gives up the registration `m`. -/
def closes_mem (v : View) (s : State) : Request → MemId → Prop
  | .munmap i, m => ∃ w, v.vmas.get i = some w ∧ w.closes = some m
  | .move i a, m => ∃ w, v.vmas.get i = some w ∧ w.closes = some m ∧
    range_free s w.mm a (a + (w.vm_end - w.vm_start))
  | _, _ => False

/-- How a request may get stuck. -/
inductive Stuck (v : View) (s : State) : Request → Fault → Prop
  /-- The page table of a registration that is released does not have all its pages. -/
  | table_short {r : Request} {m : MemId} {f : BafsMem} (hr : closes_mem v s r m)
      (hm : v.mems m = some f) (hf : ¬table_fits f) : Stuck v s r .out_of_bounds
  /-- A VMA still points to a registration that has been freed. -/
  | vma_freed {r : Request} {m : MemId} (hr : closes_mem v s r m) (hm : v.mems m = none) :
      Stuck v s r .freed_mem
  /-- The NVIDIA driver still knows a registration that has been freed. -/
  | table_freed {t : TableId} {x : P2pPageTable} (ht : v.tables.get t = some x)
      (hp : x.pinned = true) (hm : v.mems x.data = none) : Stuck v s (.revoke t) .freed_mem
  /-- An open file still points to a group that has been released. -/
  | group_freed {r : Request} {i : FileId} {x : File} (hr : r.file = some i)
      (hx : v.files.get i = some x) (hg : group_gone v x)
      (hp : ∀ mm a b pgoff env, r = .mmap i mm a b pgoff env → maps_bars x pgoff) :
      Stuck v s r .freed_group
  /-- A controller is taken for a group. -/
  | wrong_type {i : FileId} {c : CtxId} {arg : IoctlArg} {env : IoctlEnv}
      (hx : v.files.get i = some (.core c)) (hd : env.delete_group = true)
      (hn : ctrl_name s arg.delete_group.group_name) :
      Stuck v s (.ioctl i BAFS_CORE_IOC_DELETE_GROUP arg env) .wrong_type
  | wrong_table {i cmd : Nat} {x : File} {arg : IoctlArg} {env : IoctlEnv}
      (hx : v.files.get i = some x) (hcmd : dma_map_cmd x = some cmd)
      (hm : reads_wrong_table v x.ctx arg.dma_map_mem.vaddr) :
      Stuck v s (.ioctl i cmd arg env) .out_of_bounds
  | null_page_table {i cmd : Nat} {x : File} {arg : IoctlArg} {env : IoctlEnv}
      (hx : v.files.get i = some x) (hcmd : dma_map_cmd x = some cmd)
      (hm : reads_missing_table v x.ctx arg.dma_map_mem.vaddr) :
      Stuck v s (.ioctl i cmd arg env) .null_page_table

/-- The references that are held between two requests were never given back: none is to a context or
to a registration. -/
structure Lost (h : Held Kind) : Prop where
  nonneg : NonNeg h
  ctx : ∀ c, h .ctx c = 0
  mem : ∀ m, h .mem m = 0

theorem close_vma_spec {w : Vma} (hs : At h v s) (hl : Lost h)
    (hb : ∀ m f, w.closes = some m → v.mems m = some f → ¬table_fits f → E .out_of_bounds)
    (hf : ∀ m, w.closes = some m → v.mems m = none → E .freed_mem) :
    wp (close_vma w) E (fun _ s' => (w.closes = none ∧ At h v s') ∨
      ∃ m f, w.closes = some m ∧ v.mems m = some f ∧ At h (v.close_mem m f) s') s := by
  unfold close_vma Vma.closes at *
  cases ho : w.vm_ops with
  | none => exact .inl ⟨rfl, hs⟩
  | some o =>
    cases o
    rw [ho] at hf hb
    show wp (bafs_mem_release w) E _ s
    cases hm : w.vm_private_data with
    | none =>
      unfold bafs_mem_release
      rw [hm]
      exact .inl ⟨rfl, hs⟩
    | some m =>
      cases hv : v.mems m with
      | none =>
        unfold bafs_mem_release
        rw [hm, wp_bind]
        have hgone : s.mems.get m = none := by
          rw [← hs.view] at hv
          exact Option.map_eq_none_iff.mp hv
        exact wp_load_of (fun _ => hf m hm hv) fun x hx => by cases hgone.symm.trans hx
      | some f =>
        exact wp_mono (bafs_mem_release_spec hs hl.nonneg (hl.mem m) (hb m f hm hv) hm hv) fun _ s' hs' =>
          .inr ⟨m, f, rfl, hv, hs'⟩

/-! ## What a request does -/

/-- A request from the state `s` ends in one of its cases. -/
def Done (h : Held Kind) (v : View) (s : State) (r : Request) (s' : State) : Prop :=
  ∃ h' v', Effect h v s r h' v' ∧ At h' v' s'

/-- The VMAs do not matter to the invariant. -/
theorem At.with_vmas (hs : At h v s) (V : Heap Vma) :
    At h { v with vmas := V } { s with vmas := V } := by
  refine ⟨hs.wf.of_objects rfl, ?_⟩
  rw [← hs.view]
  rfl

theorem step_open_spec {r : Request} (hs : At h v s) (hl : Lost h) (hr : r.opens) :
    wp (step r) E (fun _ s' => Done h v s r s') s := by
  have hadd : ∀ {ret : Int} {file : Option File} {s₁ : State}, Opened h v file s₁ →
      wp (add_file ret file) E (fun _ s' => Done h v s r s') s₁ := fun {ret file s₁} ho => by
    refine wp_mono (add_file_spec ho) fun _ s₂ hs₂ => ?_
    cases file with
    | none => exact ⟨h, v, .not_opened hr, hs₂⟩
    | some f => exact ⟨h, _, .opened hr hs₂.1, hs₂.2⟩
  cases r with
  | open_core task env =>
    exact (bafs_core_open_file hs).bind fun r s₁ hs₁ => hadd hs₁
  | open_ctrl c task env =>
    unfold step
    rw [wp_bind, wp_get]
    refine wp_ite (fun _ => ⟨h, v, .not_opened hr, hs⟩) fun hc => ?_
    obtain ⟨x, hx⟩ := Option.ne_none_iff_exists'.mp (mt Option.isNone_iff_eq_none.mpr hc)
    exact (bafs_ctrl_open_spec hs hl.nonneg hx).bind fun r s₁ hs₁ => hadd hs₁.1
  | open_group g task env =>
    unfold step
    rw [wp_bind, wp_get]
    refine wp_ite (fun _ => ⟨h, v, .not_opened hr, hs⟩) fun hc => ?_
    obtain ⟨x, hx⟩ := Option.ne_none_iff_exists'.mp (mt Option.isNone_iff_eq_none.mpr hc)
    exact (bafs_group_open_spec hs (hs.group_view hx)).bind fun r s₁ hs₁ => hadd hs₁.1
  | _ => cases hr

theorem step_probe_spec {pdev : PciDev} {env : CtrlAllocEnv} (hs : At h v s) :
    wp (step (.probe pdev env)) E (fun _ s' => Done h v s (.probe pdev env) s') s := by
  unfold step
  rw [wp_bind, wp_get]
  refine wp_ite (fun _ => ⟨h, v, .probe, hs⟩) fun hd => ?_
  exact (bafs_ctrl_pci_probe_spec hs (Option.not_isSome_iff_eq_none.mp hd)).bind
    fun _ s₁ hs₁ => ⟨h, v, .probe, hs₁⟩

theorem step_remove_spec {slot : Nat} (hs : At h v s) (hl : Lost h) :
    wp (step (.remove slot)) E (fun _ s' => Done h v s (.remove slot) s') s := by
  unfold step
  rw [wp_bind, wp_get]
  cases hd : s.drvdata.lookup slot with
  | none => exact ⟨h, v, .remove, hs⟩
  | some c =>
    exact (bafs_ctrl_pci_remove_spec hs hl.nonneg hd).bind fun _ s₁ hs₁ => ⟨h, v, .remove, hs₁⟩

theorem At.files_eq (hs : At h v s) : s.files = v.files := congrArg View.files hs.view

theorem At.vmas_eq (hs : At h v s) : s.vmas = v.vmas := congrArg View.vmas hs.view

theorem At.tables_eq (hs : At h v s) : s.tables = v.tables := congrArg View.tables hs.view

theorem step_close_spec {i : FileId} (hs : At h v s) (hl : Lost h) :
    wp (step (.close i)) (Stuck v s (.close i)) (fun _ s' => Done h v s (.close i) s') s := by
  unfold step
  rw [wp_bind, wp_get, hs.files_eq]
  cases hx : v.files.get i with
  | none => exact ⟨h, v, .no_file rfl hx, hs⟩
  | some x =>
    dsimp only
    rw [wp_bind, wp_modify]
    refine (release_file_spec hs hl.nonneg hx fun hg => ?_).bind fun _ s₁ hs₁ =>
      ⟨h, _, .close hx hs₁.1, hs₁.2⟩
    exact .group_freed rfl hx hg (by rintro _ _ _ _ _ ⟨⟩)

theorem ioctl_file_spec {i cmd : Nat} {x : File} {arg : IoctlArg} {env : IoctlEnv} (hs : At h v s)
    (hl : Lost h) (hx : v.files.get i = some x) :
    wp (ioctl_file x cmd arg env) (Stuck v s (.ioctl i cmd arg env))
      (fun r s' => ∃ h' v', Ioctl h v s x cmd arg env r h' v' ∧ At h' v' s') s := by
  cases x with
  | core c =>
    have hc : CtxHeld h v (File.core c).ctx := .of_file hl.nonneg hx
    refine bafs_core_ioctl_spec hs hl.nonneg hc fun hcmd hd hn => ?_
    subst hcmd
    exact .wrong_type hx hd hn
  | ctrl y =>
    refine bafs_ctrl_ioctl_spec hs hl.nonneg hx (fun hcmd hm => ?_) fun hcmd hm => ?_
    · exact .wrong_table (x := .ctrl y) hx (by rw [hcmd]; rfl) hm
    · exact .null_page_table (x := .ctrl y) hx (by rw [hcmd]; rfl) hm
  | group y =>
    refine bafs_group_ioctl_spec hs hl.nonneg hx
      (fun hg => .group_freed (x := .group y) rfl hx hg (by rintro _ _ _ _ _ ⟨⟩)) (fun hcmd hm => ?_)
      fun hcmd hm => ?_
    · exact .wrong_table (x := .group y) hx (by rw [hcmd]; rfl) hm
    · exact .null_page_table (x := .group y) hx (by rw [hcmd]; rfl) hm

theorem step_ioctl_spec {i cmd : Nat} {arg : IoctlArg} {env : IoctlEnv} (hs : At h v s)
    (hl : Lost h) :
    wp (step (.ioctl i cmd arg env)) (Stuck v s (.ioctl i cmd arg env))
      (fun _ s' => Done h v s (.ioctl i cmd arg env) s') s := by
  unfold step
  rw [wp_bind, wp_get, hs.files_eq]
  cases hx : v.files.get i with
  | none => exact ⟨h, v, .no_file rfl hx, hs⟩
  | some x =>
    exact (ioctl_file_spec hs hl hx).bind fun r s₁ ⟨h', v', hi, hs₁⟩ => ⟨h', v', .ioctl hx hi, hs₁⟩

theorem step_mmap_spec {i mm a b pgoff : Nat} {env : MmapEnv} (hs : At h v s) (hl : Lost h) :
    wp (step (.mmap i mm a b pgoff env)) (Stuck v s (.mmap i mm a b pgoff env))
      (fun _ s' => Done h v s (.mmap i mm a b pgoff env) s') s := by
  unfold step
  rw [wp_bind, wp_get, hs.files_eq]
  cases hx : v.files.get i with
  | none => exact ⟨h, v, .no_file rfl hx, hs⟩
  | some x =>
    dsimp only
    rw [wp_bind, wp_get]
    refine wp_ite (fun hr => ?_) fun hr => ⟨h, v, .mmap_taken hr, hs⟩
    have hvm : (new_vma mm a b pgoff).vm_start < 2 ^ 64 := hr.1.trans hr.2.1
    refine (mmap_file_spec hs hl.nonneg hx hvm rfl fun hp hg => ?_).bind fun r s₁ hm => ?_
    · exact .group_freed rfl hx hg fun _ _ _ _ _ he => by cases he; exact hp
    obtain ⟨w, ret⟩ := r
    obtain ⟨h', v', hm, hs₁⟩ := hm
    refine wp_ite (fun hret => ?_) fun hret => ?_
    · rw [mmapped_failed hret] at hm
      exact ⟨h', v', .mmap_failed hx hr hm, hs₁⟩
    · rw [mmapped, if_neg hret] at hm
      rw [wp_bind, wp_modify]
      refine ⟨h', _, .mmap hx hr hm, ?_⟩
      rw [← hs₁.vmas_eq]
      exact hs₁.with_vmas _

theorem step_munmap_spec {i : VmaId} (hs : At h v s) (hl : Lost h) :
    wp (step (.munmap i)) (Stuck v s (.munmap i)) (fun _ s' => Done h v s (.munmap i) s') s := by
  unfold step
  rw [wp_bind, wp_get, hs.vmas_eq]
  cases hw : v.vmas.get i with
  | none => exact ⟨h, v, .no_vma rfl hw, hs⟩
  | some w =>
    dsimp only [unmap_vma]
    rw [wp_bind, wp_bind, wp_modify, hs.vmas_eq]
    refine wp_mono (close_vma_spec (hs.with_vmas (v.vmas.free i)) hl
      (fun m f hc hm hf => .table_short ⟨w, hw, hc⟩ hm hf)
      fun m hc hm => .vma_freed ⟨w, hw, hc⟩ hm) fun _ s₁ hs₁ => ?_
    obtain ⟨hc, hs₁⟩ | ⟨m, f, hc, hm, hs₁⟩ := hs₁
    · exact ⟨h, _, .munmap hw hc, hs₁⟩
    · exact ⟨h, _, .munmap_mem hw hc hm, hs₁⟩

/-- `vm_ops->open` is never set. -/
theorem open_vma_eq (w : Vma) : open_vma w = pure () := by
  unfold open_vma
  cases w.vm_ops with
  | none => rfl
  | some o => cases o; rfl

theorem step_split_spec {i at_ : Nat} (hs : At h v s) :
    wp (step (.split i at_)) E (fun _ s' => Done h v s (.split i at_) s') s := by
  unfold step
  rw [wp_bind, wp_get, hs.vmas_eq]
  cases hw : v.vmas.get i with
  | none => exact ⟨h, v, .no_vma rfl hw, hs⟩
  | some w =>
    refine wp_ite (fun hat => ?_) fun hat => ⟨h, v, .split_refused hw hat, hs⟩
    rw [wp_bind, wp_modify, open_vma_eq, hs.vmas_eq]
    exact ⟨h, _, .split hw hat, hs.with_vmas _⟩

theorem step_move_spec {i a : Nat} (hs : At h v s) (hl : Lost h) :
    wp (step (.move i a)) (Stuck v s (.move i a)) (fun _ s' => Done h v s (.move i a) s') s := by
  unfold step
  rw [wp_bind, wp_get, hs.vmas_eq]
  cases hw : v.vmas.get i with
  | none => exact ⟨h, v, .no_vma rfl hw, hs⟩
  | some w =>
    dsimp only
    rw [wp_bind, wp_get]
    refine wp_ite (fun hr => ?_) fun hr => ⟨h, v, .move_taken hw hr, hs⟩
    dsimp only [unmap_vma]
    rw [wp_bind, wp_modify, open_vma_eq, wp_bind, wp_pure, wp_bind, wp_bind, wp_modify, hs.vmas_eq]
    refine wp_mono (close_vma_spec (hs.with_vmas ((v.vmas.alloc (w.moved a)).free i)) hl
      (fun m f hc hm hf => .table_short ⟨w, hw, hc, hr⟩ hm hf)
      fun m hc hm => .vma_freed ⟨w, hw, hc, hr⟩ hm) fun _ s₁ hs₁ => ?_
    obtain ⟨hc, hs₁⟩ | ⟨m, f, hc, hm, hs₁⟩ := hs₁
    · exact ⟨h, _, .move hw hr hc, hs₁⟩
    · exact ⟨h, _, .move_mem hw hr hc hm, hs₁⟩

theorem step_revoke_spec {t : TableId} (hs : At h v s) :
    wp (step (.revoke t)) (Stuck v s (.revoke t)) (fun _ s' => Done h v s (.revoke t) s') s := by
  unfold step
  rw [wp_bind, wp_get, hs.tables_eq]
  cases ht : v.tables.get t with
  | none =>
    refine ⟨h, v, .revoke_refused fun x hx => ?_, hs⟩
    cases ht.symm.trans hx
  | some x =>
    refine wp_ite (fun hp => ?_) fun hp => ?_
    · rw [wp_bind, unpin, wp_modify, hs.tables_eq]
      have hs₁ : At h { v with tables := unpinned v.tables t }
          { s with tables := unpinned v.tables t } := by
        refine ⟨hs.wf.of_objects rfl, ?_⟩
        rw [← hs.view]
        rfl
      cases hm : v.mems x.data with
      | none =>
        rw [wp_bind, release_bafs_cuda_mem, wp_bind]
        have hgone : s.mems.get x.data = none := by
          rw [← hs.view] at hm
          exact Option.map_eq_none_iff.mp hm
        exact wp_load_of (fun _ => .table_freed ht hp hm) fun y hy => by cases hgone.symm.trans hy
      | some f =>
        exact (release_bafs_cuda_mem_spec hs₁ hm).bind fun _ s₂ hs₂ =>
          ⟨h, _, .revoke ht hp hm, hs₂⟩
    · refine ⟨h, v, .revoke_refused fun y hy => ?_, hs⟩
      obtain rfl := Option.some.inj (ht.symm.trans hy)
      simpa using hp

/-- Every request ends in one of its cases, or gets stuck in one of its ways. -/
theorem step_spec (r : Request) (hs : At h v s) (hl : Lost h) :
    wp (step r) (Stuck v s r) (fun _ s' => Done h v s r s') s := by
  cases r with
  | probe pdev env => exact step_probe_spec hs
  | remove slot => exact step_remove_spec hs hl
  | open_core task env => exact step_open_spec hs hl trivial
  | open_ctrl c task env => exact step_open_spec hs hl trivial
  | open_group g task env => exact step_open_spec hs hl trivial
  | close i => exact step_close_spec hs hl
  | ioctl i cmd arg env => exact step_ioctl_spec hs hl
  | mmap i mm a b pgoff env => exact step_mmap_spec hs hl
  | munmap i => exact step_munmap_spec hs hl
  | split i at_ => exact step_split_spec hs
  | move i a => exact step_move_spec hs hl
  | revoke t => exact step_revoke_spec hs

/-! ## The references that are lost -/

theorem Lost.add_toks {k : Kind} (hl : Lost h) (l : List Nat) (hc : k ≠ .ctx) (hm : k ≠ .mem) :
    Lost (h + toks k l) := by
  refine ⟨hl.nonneg.toks k l, fun c => ?_, fun m => ?_⟩
  · rw [Pi.add_apply, Pi.add_apply, hl.ctx, toks, if_neg hc.symm]
    rfl
  · rw [Pi.add_apply, Pi.add_apply, hl.mem, toks, if_neg hm.symm]
    rfl

theorem Lost.add_tok {k : Kind} (hl : Lost h) (i : Nat) (hc : k ≠ .ctx) (hm : k ≠ .mem) :
    Lost (h + tok k i) := by
  have := hl.add_toks [i] hc hm
  rwa [toks_cons, toks_nil, add_zero] at this

theorem Lost.sub_group (hl : Lost h) (g : GroupId) : Lost (h - tok Kind.group g) := by
  have hsub : ∀ k j, k ≠ .group → (h - tok Kind.group g) k j = h k j := fun k j hk => by
    rw [Pi.sub_apply, Pi.sub_apply, tok_ne hk, sub_zero]
  refine ⟨fun k j hk => ?_, fun c => ?_, fun m => ?_⟩
  · rw [hsub k j hk]
    exact hl.nonneg k j hk
  · rw [hsub .ctx c (by decide), hl.ctx]
  · rw [hsub .mem m (by decide), hl.mem]

theorem Created.lost {params : BAFS_CORE_IOC_CREATE_GROUP_PARAMS} {env : CreateGroupEnv} {ret : Int}
    (hc : Created h v s params env ret h' v') (hl : Lost h) : Lost h' := by
  cases hc with
  | refused => exact hl.add_toks _ (by decide) (by decide)
  | undone => exact hl
  | created => exact hl.add_tok _ (by decide) (by decide)

theorem Deleted.lost {params : BAFS_CORE_IOC_DELETE_GROUP_PARAMS} {copy : Bool} {ret : Int}
    (hd : Deleted h v s params copy ret h' v') (hl : Lost h) : Lost h' := by
  cases hd with
  | refused => exact hl
  | deleted => exact hl.sub_group _

theorem Ioctl.lost {x : File} {cmd : Nat} {arg : IoctlArg} {env : IoctlEnv} {reply : IoctlReply}
    (hi : Ioctl h v s x cmd arg env reply h' v') (hl : Lost h) : Lost h' := by
  cases hi with
  | reg_mem => exact hl
  | reg_mem_fails =>
    cases x with
    | core c => exact (add_zero h).symm ▸ hl
    | ctrl y => exact hl.add_tok _ (by decide) (by decide)
    | group y => exact hl.add_tok _ (by decide) (by decide)
  | dma_map => exact hl
  | create hx hcmd hc => exact hc.lost hl
  | delete hx hcmd hd => exact hd.lost hl
  | refused => exact hl

theorem Mmap.lost {x : File} {vma : Vma} {env : MmapEnv} {w : Option Vma}
    (hm : Mmap h v s x vma env w h' v') (hl : Lost h) : Lost h' := by
  cases hm with
  | bars_mapped => exact hl.add_toks _ (by decide) (by decide)
  | bars_failed => exact hl.add_toks _ (by decide) (by decide)
  | pinned | unpinned | unknown => exact hl

theorem Effect.lost {r : Request} (he : Effect h v s r h' v') (hl : Lost h) : Lost h' := by
  cases he with
  | ioctl hx hi => exact hi.lost hl
  | mmap hx hr hm => exact hm.lost hl
  | mmap_failed hx hr hm => exact hm.lost hl
  | _ => exact hl

/-! ## The invariant between requests -/

/-- The invariant of the module between two requests. -/
def Sane (s : State) : Prop := ∃ h, Lost h ∧ WF h s

theorem Sane.at (hs : Sane s) : ∃ h, Lost h ∧ At h s.view s := by
  obtain ⟨h, hl, hwf⟩ := hs
  exact ⟨h, hl, hwf, rfl⟩

theorem sane_init : Sane init := by
  have hempty : ∀ {α : Type} {i : Nat} {a : α}, ({} : Heap α).get i = some a → False :=
    fun ha => by rw [Heap.get_empty] at ha; cases ha
  refine ⟨0, ⟨fun _ _ _ => le_rfl, fun _ => rfl, fun _ => rfl⟩, ?_⟩
  exact
    { ctx := ⟨⟨fun _ _ ha => (hempty ha).elim, fun _ _ ha => (hempty ha).elim⟩, fun _ _ => rfl⟩
      mem := ⟨fun _ _ ha => (hempty ha).elim, fun _ _ ha => (hempty ha).elim⟩
      ctrl := ⟨⟨fun _ _ ha => (hempty ha).elim, fun _ _ ha => (hempty ha).elim⟩, fun _ _ => rfl⟩
      group := ⟨fun _ _ ha => (hempty ha).elim, fun _ _ ha => (hempty ha).elim⟩
      device := ⟨⟨fun _ _ ha => (hempty ha).elim, fun _ _ ha => (hempty ha).elim⟩,
        fun _ _ => rfl⟩
      tables :=
        { global := fun _ _ => ⟨(fun hl => by cases hl), fun ⟨_, hy, _⟩ => (hempty hy).elim⟩
          mem_listed := fun _ _ ha => (hempty ha).elim
          newest_first := fun _ _ ha => (hempty ha).elim
          listed := fun _ _ _ ha => (hempty ha).elim
          stored := fun _ _ _ _ ha => (hempty ha).elim }
      dmas := ⟨fun _ _ ha => (hempty ha).elim, fun _ _ _ ha => (hempty ha).elim⟩
      tree := ⟨(fun o n hn => by cases o <;> cases hn), fun _ _ ha => (hempty ha).elim⟩
      fresh := ⟨fun _ _ => ⟨rfl, rfl⟩, fun _ _ => ⟨rfl, rfl⟩⟩
      logs := ⟨fun _ => rfl, fun _ => rfl, fun _ => rfl, fun _ _ => ⟨rfl, rfl⟩, fun _ => rfl,
        fun e he => by cases he⟩ }

/-- Every request keeps the invariant. -/
theorem step_sane (r : Request) (hs : Sane s) :
    wp (step r) (fun _ => True) (fun _ s' => Sane s') s := by
  obtain ⟨h, hl, hs⟩ := hs.at
  refine wp_weaken (wp_mono (step_spec r hs hl) fun _ s' hs' => ?_) fun _ _ => trivial
  obtain ⟨h', v', he, hs'⟩ := hs'
  exact ⟨h', he.lost hl, hs'.wf⟩

/-- Every state that a run reaches keeps the invariant. -/
theorem run_sane {rs : List Request} (hr : run step rs init = .ok s) : Sane s :=
  (always_iff_run.mp (always_of_step (fun _ r hs => step_sane r hs) (fun _ hs => hs) rs sane_init)
    rs (List.prefix_refl rs)).1 s hr

end BafsDriver
