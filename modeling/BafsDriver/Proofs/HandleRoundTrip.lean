import BafsDriver.Library
import BafsDriver.Scenario
import BafsDriver.Proofs.RegProofs

/-!
# Handles of the library

The library passes the handle of a registration as the offset in bytes of the mmap, the driver takes
the offset in pages for the handle. So what a handle finds is not the registration it was given for.
-/

namespace BafsDriver

open Prog

variable {h h' : Held Kind} {v v' : View} {s s' : State}

/-- `bafs_ctrl_pin_mem` with this handle on the file `x` gets to `pin_bafs_mem`, which takes the
registration `m`. -/
def PinFinds (s : State) (x : File) (handle : BitVec 32) (m : MemId) : Prop :=
  ∃ vm_pgoff y, vm_pgoff_of handle.toNat = some vm_pgoff ∧ ¬maps_bars x vm_pgoff ∧
    s.ctxs.get x.ctx = some y ∧ pin_lookup y vm_pgoff = some m

/-- The handle of a registration with this index. -/
def handle_of (mem_id : Nat) : BitVec 32 := BitVec.ofNat 32 (mem_id + 1)

/-- The offset in pages of a handle is less than the handle. -/
theorem vm_pgoff_lt {n vm_pgoff : Nat} (hn : 0 < n) (hp : vm_pgoff_of n = some vm_pgoff) :
    0 < vm_pgoff ∧ vm_pgoff < n := by
  unfold vm_pgoff_of PAGE_SIZE at hp
  by_cases hd : 4096 ∣ n
  · rw [if_pos hd] at hp
    obtain rfl := Option.some.inj hp
    exact ⟨Nat.div_pos (Nat.le_of_dvd hn hd) (by decide), Nat.div_lt_self hn (by decide)⟩
  · rw [if_neg hd] at hp
    cases hp

/-- The index that a pin looks up differs from the one that the handle was made of. -/
theorem pin_id_ne {i vm_pgoff : Nat} (hi : i < 2 ^ 31)
    (hp : vm_pgoff_of (handle_of i).toNat = some vm_pgoff) : pin_id vm_pgoff ≠ i := by
  have htn : (handle_of i).toNat = i + 1 := by
    rw [handle_of, BitVec.toNat_ofNat]
    exact Nat.mod_eq_of_lt (by omega)
  rw [htn] at hp
  obtain ⟨hpos, hlt⟩ := vm_pgoff_lt (Nat.succ_pos i) hp
  have hid : pin_id vm_pgoff = vm_pgoff - 1 := by
    unfold pin_id u32 u64
    omega
  omega

/-- No pin finds a registration by its own handle. -/
theorem not_pinFinds {x : File} {m : MemId} {y : BafsMem} (hi : Inv s)
    (hm : s.mems.get m = some y) : ¬PinFinds s x (handle_of y.mem_id) m := by
  rintro ⟨vm_pgoff, z, hp, -, hz, hl⟩
  obtain ⟨h, -, hs⟩ := hi.sane.at
  obtain ⟨hlt, y', hy', -, hid⟩ := hs.wf.tables.stored _ _ _ _ hz hl
  obtain rfl := Option.some.inj (hm.symm.trans hy')
  rw [← hid] at hlt
  exact pin_id_ne hlt hp hid.symm

/-! ## The handle that a registration was given -/

/-- A registration that is not new has the index that it had. -/
theorem RegOf.mem_id {m : MemId} {f' : BafsMem} (hr : RegOf v m f') (hlt : m < v.mem_next) :
    ∃ f, v.mems m = some f ∧ f'.mem_id = f.mem_id := by
  cases hr with
  | kept hm => exact ⟨f', hm, rfl⟩
  | made hn => exact absurd hn hlt.ne
  | pinned hm hp => exact ⟨_, hm, hp.same.mem_id⟩
  | unpinned hm hp => exact ⟨_, hm, hp.same.mem_id⟩
  | revoked hm => exact ⟨_, hm, rfl⟩

/-- What holds of the registration `m` from its request on: while it exists its index is `i`, and its
address is not given out again. -/
structure HandleOf (m : MemId) (i : Nat) (s : State) : Prop where
  inv : Inv s
  lt : m < s.mems.next
  mem_id : ∀ y, s.mems.get m = some y → y.mem_id = i

theorem HandleOf.step {m : MemId} {i : Nat} (r : Request) (hi : HandleOf m i s) :
    wp (BafsDriver.step r) (fun _ => True) (fun _ s' => HandleOf m i s') s := by
  obtain ⟨h, -, hs, hw⟩ := step_inv r hi.inv
  refine wp_weaken (wp_mono hw fun _ s' hs' => ?_) fun _ _ => trivial
  obtain ⟨hinv, h', -, hs', he⟩ := hs'
  have hlt : m < s.view.mem_next := hi.lt
  refine ⟨hinv, Nat.lt_of_lt_of_le hlt he.mem_next_le, fun y hy => ?_⟩
  obtain ⟨f, hf, hid⟩ := (he.reg_of (hs'.mem_view hy)).mem_id hlt
  obtain ⟨x, hx, rfl⟩ := hs.mem_live hf
  exact hid.trans (hi.mem_id x hx)

/-- The ioctl that replies with a handle has made one registration, with the index that the handle is
made of. -/
theorem step_reg_mem_reply {fd : FileId} {cmd : Nat} {arg : IoctlArg} {env : IoctlEnv} (hi : Inv s) :
    wp (step (.ioctl fd cmd arg env)) (fun _ => True) (fun r s' => ∀ out, r.reg_mem = some out →
      ∃ f, out.handle = handle_of f.mem_id ∧ s'.view = s.view.add_mem f) s := by
  obtain ⟨h, hl, hs⟩ := hi.sane.at
  unfold step
  rw [wp_bind, wp_get]
  cases hx : s.files.get fd with
  | none =>
    intro out hout
    cases hout
  | some x =>
    refine wp.bind (wp_weaken (ioctl_file_spec hs hl hx) fun _ _ => trivial) fun r s₁ hr => ?_
    obtain ⟨h', v', hi', hs₁⟩ := hr
    intro out hout
    cases hi' with
    | reg_mem hcmd hy hok hid =>
      obtain rfl := Option.some.inj hout
      exact ⟨_, rfl, hs₁.view⟩
    | _ => cases hout

/-- The call makes the registration `m` and returns `handle`, which is made of its index. -/
structure Registers (s : State) (handle : BitVec 32) (m : MemId) (s' : State) : Prop where
  inv : Inv s'
  fresh : s.mems.get m = none
  made : ∃ y, s'.mems.get m = some y ∧ handle = handle_of y.mem_id

theorem ioctl_reg_mem_params_spec {fd : FileId} {cmd : Nat} {size loc : BitVec 32} {arg : IoctlArg}
    {env : IoctlEnv} (hi : Inv s) : wp (ioctl_reg_mem_params fd cmd size loc arg env)
      (fun _ => True) (fun r s' => ∀ handle, r = (0, some handle) →
        ∀ m, s.mems.get m = none → (s'.mems.get m).isSome → Registers s handle m s') s := by
  unfold ioctl_reg_mem_params
  refine (wp_and (step_keeps_inv _ hi) (step_reg_mem_reply hi)).bind fun r s₁ hr => ?_
  obtain ⟨hi₁, hr⟩ := hr
  refine wp_ite (fun _ handle hh => ?_) fun _ handle hh m hm hm' => ?_
  · cases (Prod.mk.inj hh).2
  · obtain ⟨out, hout, rfl⟩ := Option.map_eq_some_iff.mp (Prod.mk.inj hh).2
    obtain ⟨f, hf, hv⟩ := hr out hout
    obtain ⟨y, hy⟩ := Option.isSome_iff_exists.mp hm'
    refine ⟨hi₁, hm, y, hy, ?_⟩
    have hy' : s₁.view.mems m = some y.fields := congrArg (Option.map BafsMem.fields) hy
    have hm : s.view.mems m = none := congrArg (Option.map BafsMem.fields) hm
    rw [hv] at hy'
    have hy' : Function.update s.view.mems s.view.mem_next (some f) m = some y.fields := hy'
    by_cases hn : m = s.view.mem_next
    · rw [hn, Function.update_self] at hy'
      obtain rfl := Option.some.inj hy'
      exact hf
    · rw [Function.update_of_ne hn, hm] at hy'
      cases hy'

/-- What `bafs_ctrl_reg_mem` returns on success is the handle of the registration it has made. -/
theorem bafs_ctrl_reg_mem_spec {size loc : BitVec 32} {ctrl_handle : BafsCtrlT} {arg : IoctlArg}
    {env : IoctlEnv} (hi : Inv s) : wp (bafs_ctrl_reg_mem size loc ctrl_handle arg env)
      (fun _ => True) (fun r s' => ∀ handle, r = (0, some handle) →
        ∀ m, s.mems.get m = none → (s'.mems.get m).isSome → Registers s handle m s') s := by
  unfold bafs_ctrl_reg_mem
  cases ctrl_handle.fd with
  | none =>
    intro handle hh
    cases (Prod.mk.inj hh).2
  | some fd =>
    refine wp_ite (fun _ => ioctl_reg_mem_params_spec hi) fun _ =>
      wp_ite (fun _ => ioctl_reg_mem_params_spec hi) fun _ handle hh => ?_
    cases (Prod.mk.inj hh).2

/-! ## Handles over a run -/

/-- A controller with its ctrl file open. -/
def one_ctrl_file : List Request := [.bind 0 0x100000 4096, .open_ctrl 0 a_task granted_open]

/-- The ctrl file for the library. -/
def a_ctrl_handle : BafsCtrlT := { fd := some 0, type := NOT_GROUP }

end BafsDriver
