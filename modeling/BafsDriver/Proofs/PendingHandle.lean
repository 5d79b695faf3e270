import BafsDriver.Proofs.OpenOrder
import BafsDriver.Proofs.RegistrationTables

/-!
# Handles that are pending

The files of a process share its context, and the close of any of them frees the registrations of the
context that have not been mapped yet. So a handle that a file was given is lost when another file of
the process is closed before it is mapped, and only then.
-/

namespace BafsDriver

open Prog

variable {h h' : Held Kind} {v v' : View} {s s' : State} {r : Request}

/-! ## The claim -/

/-- The file `x` is open under `f`, and an mmap of the handle through it finds the registration `m`. -/
def HandleFinds (f : FileId) (x : File) (handle : BitVec 32) (m : MemId) (s : State) : Prop :=
  s.files.get f = some x ∧ ¬maps_bars x handle.toNat ∧
    ∃ y, s.ctxs.get x.ctx = some y ∧ pin_lookup y handle.toNat = some m

/-- The request does not close the file, and is none to a VMA. -/
def other_file (f : FileId) (_ : State) (r : Request) : Prop := r ≠ .close f ∧ r.vma = none

/-- The request does not close a file of the context while the registration has not been mapped. (The
close of a file whose group is gone gets stuck.) -/
def keeps_pending (x : File) (m : MemId) (s : State) : Request → Prop
  | .close g => ∀ z y, s.files.get g = some z → ¬group_gone s.view z → z.ctx = x.ctx →
    s.mems.get m = some y → y.state ≠ .STALE
  | _ => True

/-! ## What a request keeps -/

/-- A file stays open until it is closed. -/
theorem Effect.file_kept {f : FileId} {x : File} (he : Effect h v s r h' v') (hr : r ≠ .close f)
    (hx : v.files.get f = some x) : v'.files.get f = some x := by
  cases he with
  | opened hr hg => exact Heap.get_alloc_of_get hx
  | @close i y hy hg =>
    have hf : (v.close_file h i y).files = v.files.free i :=
      congrArg (·.2.2.2.2.1) (View.close_file_regs v _ _ _)
    rw [hf, Heap.get_free, if_neg (fun he => hr (by rw [he]))]
    exact hx
  | ioctl hy hi =>
    rw [hi.files]
    exact hx
  | mmap hy hm hi =>
    rw [hi.files]
    exact hx
  | mmap_failed hy hm hi =>
    rw [hi.files]
    exact hx
  | revoke =>
    rw [View.revoke_mem_files]
    exact hx
  | _ => exact hx

/-- But for VMAs that are closed, a registration goes only when a file of its context is closed before
it has been mapped. -/
theorem Effect.mem_left_iff {m : MemId} {f : BafsMem} (he : Effect h v s r h' v')
    (hr : r.vma = none) (hm : v.mems m = some f) :
    (∃ f', v'.mems m = some f') ↔
      ∀ g z, r = .close g → v.files.get g = some z → z.ctx = f.ctx → f.state ≠ .STALE := by
  have hleft : (∀ g z, r = .close g → v.files.get g = some z → False) →
      (∃ f', v'.mems m = some f') → ((∃ f', v'.mems m = some f') ↔
        ∀ g z, r = .close g → v.files.get g = some z → z.ctx = f.ctx → f.state ≠ .STALE) :=
    fun hno hm' => ⟨fun _ g z hg hz => (hno g z hg hz).elim, fun _ => hm'⟩
  cases he with
  | @close i x hx hg =>
    have hmems : (v.close_file h i x).mems = (v.sweep_ctx x.ctx).mems :=
      congrArg (·.1) (View.close_file_regs v h i x)
    rw [hmems]
    constructor
    · rintro ⟨f', hf'⟩ g z hg hz hc hst
      obtain rfl := Request.close.inj hg
      obtain rfl := Option.some.inj (hx.symm.trans hz)
      obtain ⟨hf, hkeep⟩ := Option.filter_eq_some_iff.mp hf'
      obtain rfl := Option.some.inj (hm.symm.trans hf)
      rcases of_decide_eq_true hkeep with hne | hne
      · exact hne hc.symm
      · exact hne hst
    · intro hall
      refine ⟨f, Option.filter_eq_some_iff.mpr ⟨hm, decide_eq_true ?_⟩⟩
      by_cases hc : f.ctx = x.ctx
      · exact .inr (hall i x rfl hx hc.symm)
      · exact .inl hc
  | ioctl hx hi => exact hleft (fun g z hg => by cases hg) (hi.mem_kept hm)
  | mmap hx hb hi => exact hleft (fun g z hg => by cases hg) (hi.mem_kept hm)
  | mmap_failed hx hb hi => exact hleft (fun g z hg => by cases hg) (hi.mem_kept hm)
  | revoke ht hp hm' => exact hleft (fun g z hg => by cases hg) (View.revoke_mem_kept hm)
  | opened ho hg =>
    exact hleft (fun g z hg hz => by rw [hg] at ho; exact ho) ⟨f, hm⟩
  | not_opened ho =>
    exact hleft (fun g z hg hz => by rw [hg] at ho; exact ho) ⟨f, hm⟩
  | no_file hf hx =>
    refine hleft (fun g z hg hz => ?_) ⟨f, hm⟩
    rw [hg] at hf
    obtain rfl := Option.some.inj hf
    rw [hx] at hz
    cases hz
  | no_vma hv hw => cases hr.symm.trans hv
  | munmap | munmap_mem | split | split_refused | move | move_mem | move_taken => cases hr
  | _ => exact hleft (fun g z hg => by cases hg) ⟨f, hm⟩

/-- What a handle finds in a state with the invariant. -/
theorem handleFinds_iff {f : FileId} {x : File} {handle : BitVec 32} {m : MemId} (hs : At h s.view s)
    (hl : Lost h) (hx : s.files.get f = some x) (hb : ¬maps_bars x handle.toNat) :
    HandleFinds f x handle m s ↔
      ∃ z, s.view.mems m = some z ∧ z.ctx = x.ctx ∧ z.mem_id = pin_id handle.toNat := by
  obtain ⟨y, hy⟩ := hs.ctx_live (CtxHeld.of_file hl.nonneg (v := s.view) hx)
  constructor
  · rintro ⟨-, -, y', hy', hm⟩
    exact (hs.mem_xa_iff hy').mp hm
  · intro hz
    exact ⟨hx, hb, y, hy, (hs.mem_xa_iff hy).mpr hz⟩

/-- What holds of the handle of the file `f` from the registration on, as long as the file is open. -/
structure PendingOf (f : FileId) (x : File) (handle : BitVec 32) (s : State) : Prop where
  inv : Inv s
  file : s.files.get f = some x
  pins : ¬maps_bars x handle.toNat

theorem PendingOf.step {f : FileId} {x : File} {handle : BitVec 32} (hi : PendingOf f x handle s)
    (hr : r ≠ .close f) :
    wp (BafsDriver.step r) (fun _ => True) (fun _ s' => PendingOf f x handle s') s := by
  obtain ⟨h, -, -, hw⟩ := step_inv r hi.inv
  refine wp_weaken (wp_mono hw fun _ s' hs' => ?_) fun _ _ => trivial
  obtain ⟨hinv, h', -, -, he⟩ := hs'
  have hfile : s'.view.files.get f = some x := he.file_kept hr hi.file
  exact ⟨hinv, hfile, hi.pins⟩

/-- A close gets stuck only on a file whose group is gone. -/
theorem Stuck.close_gone {g : FileId} {e : Fault} (hst : Stuck v s (.close g) e) :
    ∃ z, v.files.get g = some z ∧ group_gone v z := by
  cases hst with
  | table_short hr => exact hr.elim
  | vma_freed hr => exact hr.elim
  | group_freed hr hx hg hp =>
    obtain rfl := Option.some.inj hr
    exact ⟨_, hx, hg⟩

/-- The group of a file that has been closed was there. -/
theorem Effect.close_open {g : FileId} {z : File} (he : Effect h v s (.close g) h' v')
    (hz : v.files.get g = some z) : ¬group_gone v z := by
  cases he with
  | opened hr => exact hr.elim
  | not_opened hr => exact hr.elim
  | close hx hg =>
    obtain rfl := Option.some.inj (hz.symm.trans hx)
    exact hg
  | no_file hr hx =>
    obtain rfl := Option.some.inj hr
    cases hz.symm.trans hx
  | no_vma hr => cases hr

/-- One request keeps what the handle finds exactly if it meets the condition. -/
theorem PendingOf.finds_iff {f : FileId} {x : File} {handle : BitVec 32} {m : MemId}
    (hi : PendingOf f x handle s) (hm : HandleFinds f x handle m s) (hr : other_file f s r) :
    wp (BafsDriver.step r) (fun _ => True) (fun _ s' => HandleFinds f x handle m s') s ↔
      keeps_pending x m s r := by
  obtain ⟨h, hl, hs, hw⟩ := step_inv r hi.inv
  obtain ⟨z, hz, hc, hid⟩ := (handleFinds_iff hs hl hi.file hi.pins).mp hm
  obtain ⟨y, hy, rfl⟩ := hs.mem_live hz
  have hc : y.ctx = x.ctx := hc
  have hstep : wp (BafsDriver.step r) (Stuck s.view s r) (fun _ s' =>
      (HandleFinds f x handle m s' ↔
        ∀ g w, r = .close g → s.view.files.get g = some w → w.ctx = y.fields.ctx →
          y.fields.state ≠ .STALE)) s := by
    refine wp_mono hw fun _ s' hs' => ?_
    obtain ⟨-, h', hl', hs', he⟩ := hs'
    have hfile : s'.view.files.get f = some x := he.file_kept hr.1 hi.file
    refine (handleFinds_iff hs' hl' hfile hi.pins).trans (Iff.trans ?_ (he.mem_left_iff hr.2 hz))
    constructor
    · rintro ⟨z', hz', -⟩
      exact ⟨z', hz'⟩
    · rintro ⟨z', hz'⟩
      obtain ⟨f₀, hf₀, hfc, hfid⟩ := (he.reg_of hz').entry (Heap.lt_next_of_get hy)
      obtain rfl := Option.some.inj (hz.symm.trans hf₀)
      exact ⟨z', hz', hfc.trans hc, hfid.trans hid⟩
  constructor
  · intro hfinds
    cases r with
    | close g =>
      intro w y' hw' hg hwc hy' hst
      obtain rfl := Option.some.inj (hy.symm.trans hy')
      have hno : ∀ e, True → Stuck s.view s (.close g) e → False := by
        intro e _ hst
        obtain ⟨w', hw'', hg'⟩ := hst.close_gone
        have hw'' : s.files.get g = some w' := hw''
        obtain rfl := Option.some.inj (hw'.symm.trans hw'')
        exact hg hg'
      obtain ⟨_, s', hfind, hiff⟩ := wp_join hfinds hstep hno
      exact hiff.mp hfind g w rfl hw' (hwc.trans hc.symm) hst
    | _ => trivial
  · intro hkeep
    cases r with
    | close g =>
      by_cases hgone : ∃ w, s.files.get g = some w ∧ group_gone s.view w
      · -- nothing is left to show where the close gets stuck
        obtain ⟨w, hw', hgone⟩ := hgone
        refine wp_weaken (wp_mono hw fun _ s' hs' => ?_) fun _ _ => trivial
        obtain ⟨-, h', -, -, he⟩ := hs'
        exact absurd hgone (he.close_open hw')
      · refine wp_weaken (wp_mono hstep fun _ s' hs' => hs'.mpr ?_) fun _ _ => trivial
        intro g' w hg' hw' hwc
        obtain rfl := Request.close.inj hg'
        exact hkeep w y hw' (fun hg => hgone ⟨w, hw', hg⟩) (hwc.trans hc) hy
    | _ =>
      refine wp_weaken (wp_mono hstep fun _ s' hs' => hs'.mpr ?_) fun _ _ => trivial
      intro g w hg
      cases hg

/-! ## The claim over runs -/

theorem pin_id_succ {i : Nat} (hi : i < 2 ^ 31) : pin_id (i + 1) = i := by
  unfold pin_id u32 u64
  omega

/-- The handle of a registration finds it. -/
theorem HandleGiven.finds {f : FileId} {x : File} {handle : BitVec 32} (hg : HandleGiven s x handle s')
    (hi : Inv s') (hx : s'.files.get f = some x) : ∃ m z, s.mems.get m = none ∧
      s'.mems.get m = some z ∧ handle = handle_of z.mem_id ∧ PendingOf f x handle s' ∧
      HandleFinds f x handle m s' := by
  obtain ⟨m, z, hm, hz, hc, rfl, hpos, -⟩ := hg
  obtain ⟨h, hl, hs⟩ := hi.sane.at
  have hpins : ¬maps_bars x (handle_of z.mem_id).toNat := by
    cases x with
    | core c => exact id
    | ctrl y => exact Nat.ne_of_gt hpos
    | group y => exact Nat.ne_of_gt hpos
  have hid : z.mem_id = pin_id (handle_of z.mem_id).toNat := by
    rw [handle_of_toNat (hs.mem_id_lt hz), pin_id_succ (hs.mem_id_lt hz)]
  refine ⟨m, z, hm, hz, rfl, ⟨hi, hx, hpins⟩, (handleFinds_iff hs hl hx hpins).mpr ?_⟩
  exact ⟨z.fields, hs.mem_view hz, hc, hid⟩

/-- In every run after a registration in which its file stays open and no VMA is closed, the handle
finds the registration in every state exactly if no file of the context is closed before the
registration has been mapped. -/
theorem pending_handle (rs : List Request) : Always step (fun _ => True) (fun s =>
    ∀ f cmd arg env, wp (step (.ioctl f cmd arg env)) (fun _ => True) (fun r s₁ =>
      ∀ out, r.reg_mem = some out → ∃ x m z, s.files.get f = some x ∧ s.mems.get m = none ∧
        s₁.mems.get m = some z ∧ out.handle = handle_of z.mem_id ∧
        HandleFinds f x out.handle m s₁ ∧ ∀ rs', Along step (other_file f) rs' s₁ →
          (Always step (fun _ => True) (HandleFinds f x out.handle m) rs' s₁ ↔
            Along step (keeps_pending x m) rs' s₁)) s) rs init := by
  refine always_of_inv (fun s hi f cmd arg env => ?_) rs
  obtain ⟨h, -, -, hw⟩ := step_inv (.ioctl f cmd arg env) hi
  refine wp_mono (wp_and (step_handle_given hi) hw) fun r s₁ hs₁ out hout => ?_
  obtain ⟨hgiven, hi₁, h', -, -, he⟩ := hs₁
  obtain ⟨x, hx, hgiven⟩ := hgiven out hout
  have hx₁ : s₁.view.files.get f = some x := he.file_kept (fun hr => by cases hr) hx
  obtain ⟨m, z, hm, hz, hh, hp, hfinds⟩ := hgiven.finds hi₁ hx₁
  refine ⟨x, m, z, hx, hm, hz, hh, hfinds, fun rs' hother => ?_⟩
  refine always_iff_along_of (I := PendingOf f x out.handle) (D := other_file f)
    (fun s r hi _ hr _ => hi.step hr.1) (fun s r hi hm hr => hi.finds_iff hm hr) rs' hp hfinds hother

/-- A process opens the first ctrl device twice. -/
def opened_twice : List Request :=
  [.bind 0 0x100000 4096, .open_ctrl 0 a_task granted_open, .open_ctrl 0 a_task granted_open]

/-- Whether the close of the second file loses the handle that the first was given. -/
def loses_handle (s : State) : Bool :=
  match step (.reg_mem 0 BAFS_CTRL_IOC_REG_MEM 4096 BAFS_MEM_CPU) s with
  | .ok (r, s₁) =>
    match step (.close 1) s₁, s.files.get 0, r.reg_mem with
    | .ok (_, s₂), some x, some out =>
      (s₂.ctxs.get x.ctx).all fun y => (pin_lookup y out.handle.toNat).isNone
    | _, _, _ => false
  | .error _ => false

/-- The handle finds nothing any more after the other file has been closed. -/
theorem other_close_loses_handle : ∃ s r s₁ out x, run step opened_twice init = .ok s ∧
    step (.reg_mem 0 BAFS_CTRL_IOC_REG_MEM 4096 BAFS_MEM_CPU) s = .ok (r, s₁) ∧
    r.reg_mem = some out ∧ s.files.get 0 = some x ∧ Along step (other_file 0) [.close 1] s₁ ∧
    ∀ m, ¬Always step (fun _ => True) (HandleFinds 0 x out.handle m) [.close 1] s₁ := by
  have hend : ends step loses_handle opened_twice init = true := by decide +kernel
  obtain ⟨hrun, hd⟩ := run_final hend
  generalize final step opened_twice init = s at hrun hd
  unfold loses_handle at hd
  cases hreg : step (.reg_mem 0 BAFS_CTRL_IOC_REG_MEM 4096 BAFS_MEM_CPU) s with
  | error e =>
    rw [hreg] at hd
    cases hd
  | ok p =>
  obtain ⟨r, s₁⟩ := p
  rw [hreg] at hd
  dsimp only at hd
  split at hd
  · rename_i _ s₂ x out hclose hx hout
    have hother : other_file 0 s₁ (.close 1) := ⟨(fun he => by cases he), rfl⟩
    refine ⟨s, r, s₁, out, x, hrun, hreg, hout, hx, ⟨hother, ?_⟩, fun m hfinds => ?_⟩
    · exact wp_mono wp_true fun _ _ _ => trivial
    · obtain ⟨-, -, y, hy, hm⟩ := (wp_ok hfinds.2 hclose).here
      rw [hy, Option.all_some, hm] at hd
      cases hd
  · cases hd

end BafsDriver
