import BafsDriver.Module.Startup
import BafsDriver.Lib.Unseen
import BafsDriver.Proofs.TraceProofs
import BafsDriver.Scenario

/-!
# Creation that is not interrupted

The statements of `bafs_group_alloc` and `bafs_ctrl_alloc` one after another do what the function of
the requests does. They place the object before they know that nothing fails, so a failure uses up a
number of the heap; nothing else is different.
-/

set_option linter.style.nameCheck false

namespace BafsDriver

open Prog Script

/-! ## Programs that see no groups, or no controllers -/

def put_groups (G : Heap BafsGroup) (s : State) : State := { s with groups := G }

def put_ctrls (C : Heap BafsCtrl) (s : State) : State := { s with ctrls := C }

theorem load_error {α : Type} {H : State → Heap α} {e : Fault} {i : Nat} {s : State}
    (h : (H s).get i = none) : load H e i s = .error e := by
  unfold load
  rw [bind_ok (show (get : Drv State) s = .ok (s, s) from rfl), h]
  rfl

section Unseen

variable {γ : Type} {put : γ → State → State}

theorem load_unseen {α : Type} {H : State → Heap α} {e : Fault} {i : Nat}
    (hH : ∀ g s, H (put g s) = H s) : Unseen put (load H e i) := by
  intro g s
  cases hr : (H s).get i with
  | none =>
    have hg : (H (put g s)).get i = none := by rw [hH, hr]
    rw [load_error hr, load_error hg]
    rfl
  | some a =>
    have hg : (H (put g s)).get i = some a := by rw [hH, hr]
    rw [load_ok hr, load_ok hg]
    rfl

/-- What a failed creation undoes, apart from the object. -/
structure Undoes (put : γ → State → State) : Prop where
  blocks : ∀ g s b, put g { s with blocks := s.blocks.free b } =
    { put g s with blocks := (put g s).blocks.free b }
  core_ref : ∀ g s, put g { s with core_ref := s.core_ref - 1 } =
    { put g s with core_ref := (put g s).core_ref - 1 }
  minor : ∀ g s n, put g { s with bafs_minor_ida := s.bafs_minor_ida.erase n } =
    { put g s with bafs_minor_ida := (put g s).bafs_minor_ida.erase n }
  cdevs : ∀ g s n, put g { s with cdevs := s.cdevs.erase n } =
    { put g s with cdevs := (put g s).cdevs.erase n }

theorem undoes_groups : Undoes put_groups := by constructor <;> intros <;> rfl

theorem undoes_ctrls : Undoes put_ctrls := by constructor <;> intros <;> rfl

theorem kfree_unseen (hu : Undoes put) (b : BlockId) : Unseen put (kfree b) :=
  .modify fun g s => (hu.blocks g s b).symm

theorem put_core_device_unseen (hu : Undoes put) : Unseen put put_core_device :=
  .modify fun g s => (hu.core_ref g s).symm

theorem bafs_put_minor_number_unseen (hu : Undoes put) (n : Nat) :
    Unseen put (bafs_put_minor_number n) := .modify fun g s => (hu.minor g s n).symm

theorem cdev_del_unseen (hu : Undoes put) (n : Nat) : Unseen put (cdev_del n) :=
  .modify fun g s => (hu.cdevs g s n).symm

end Unseen

theorem device_at_unseen (d : DeviceId) : Unseen put_groups (device_at d) :=
  load_unseen fun _ _ => rfl

theorem ctrl_at_unseen (c : CtrlId) : Unseen put_groups (ctrl_at c) := load_unseen fun _ _ => rfl

theorem device_upd_unseen (d : DeviceId) (f : Device → Device) :
    Unseen put_groups (device_upd d f) :=
  (device_at_unseen d).bind fun _ => .modify fun _ _ => rfl

theorem ctrl_upd_unseen (c : CtrlId) (f : BafsCtrl → BafsCtrl) : Unseen put_groups (ctrl_upd c f) :=
  (ctrl_at_unseen c).bind fun _ => .modify fun _ _ => rfl

theorem put_device_unseen (d : DeviceId) : Unseen put_groups (put_device d) :=
  (device_at_unseen d).bind fun _ => (device_upd_unseen d _).bind fun _ =>
    .ite (.modify fun _ _ => rfl) (.pure ())

theorem bafs_ctrl_release_unseen (c : CtrlId) : Unseen put_groups (bafs_ctrl_release c) := by
  refine (ctrl_at_unseen c).bind fun x => (ctrl_upd_unseen c _).bind fun _ => .ite ?_ (.pure ())
  refine (ctrl_at_unseen c).bind fun y => ?_
  refine ((device_upd_unseen _ _).bind fun _ => put_device_unseen _).bind fun _ => ?_
  refine (put_core_device_unseen undoes_groups).bind fun _ => ?_
  refine (cdev_del_unseen undoes_groups _).bind fun _ => ?_
  have hmodify : ∀ f : State → State, (∀ G s, f (put_groups G s) = put_groups G (f s)) →
      Unseen put_groups (modify f : Drv Unit) := fun f hf => .modify hf
  refine (hmodify _ fun _ _ => rfl).bind fun _ => ?_
  refine (bafs_put_minor_number_unseen undoes_groups _).bind fun _ => ?_
  exact (hmodify _ fun _ _ => rfl).bind fun _ => kfree_unseen undoes_groups _

/-! ## Agreement -/

/-- The first state has the objects of the second, where an object that was made and freed may have
used up a number. -/
def SameObjects (s s' : State) : Prop := ∃ C G, s = { s' with ctrls := C, groups := G } ∧
  (∀ c, C.get c = s'.ctrls.get c) ∧ ∀ g, G.get g = s'.groups.get g

theorem SameObjects.refl (s : State) : SameObjects s s := ⟨s.ctrls, s.groups, rfl, fun _ => rfl,
  fun _ => rfl⟩

/-- Two outcomes agree: the same result or the same fault, with the same objects, and in the same state
where no object was placed in vain. -/
def Agrees {α : Type} (kept : Prop) :
    Except Fault (α × State) → Except Fault (α × State) → Prop
  | .ok (a, s), .ok (a', s') => a = a' ∧ (kept → s = s') ∧ SameObjects s s'
  | .error e, .error e' => e = e'
  | _, _ => False

section Agrees

variable {α β : Type} {kept : Prop} {s : State}

theorem Agrees.refl (r : Except Fault (α × State)) : Agrees kept r r := by
  cases r with
  | error e => exact rfl
  | ok p => exact ⟨rfl, fun _ => rfl, .refl p.2⟩

theorem Agrees.of_eq {r r' : Except Fault (α × State)} (h : r = r') : Agrees kept r r' :=
  h ▸ .refl r

theorem Agrees.eq {r r' : Except Fault (α × State)} (h : Agrees kept r r') (hk : kept) : r = r' := by
  cases r with
  | error e =>
    cases r' with
    | error e' => exact congrArg Except.error h
    | ok p' => exact h.elim
  | ok p =>
    cases r' with
    | error e' => exact h.elim
    | ok p' => exact congrArg Except.ok (Prod.ext h.1 (h.2.1 hk))

/-- Two programs that begin alike. -/
theorem agrees_bind {d : Drv β} {k k' : β → Drv α} (h : ∀ b s, Agrees kept (k b s) (k' b s)) :
    Agrees kept ((d >>= k) s) ((d >>= k') s) := by
  show Agrees kept (d s >>= fun r => k r.1 r.2) (d s >>= fun r => k' r.1 r.2)
  cases d s with
  | error e => exact rfl
  | ok r => exact h r.1 r.2

end Agrees

theorem Heap.get_alloc_free {α : Type} {H : Heap α} {a : α} (i : Nat) :
    ((H.alloc a).free H.next).get i = H.get i := by
  rw [Heap.get_free]
  by_cases hi : i = H.next
  · rw [if_pos hi, hi, Heap.get_next]
  · rw [if_neg hi, Heap.get_alloc, if_neg hi]

/-- A part of the state in which objects are placed. -/
structure Part {α : Type} (get : State → Heap α) (put : Heap α → State → State) : Prop where
  put_get : ∀ s, put (get s) s = s
  get_put : ∀ H s, get (put H s) = H
  put_put : ∀ H H' s, put H (put H' s) = put H s
  same : ∀ H s, (∀ i, H.get i = (get s).get i) → SameObjects (put H s) s

theorem part_groups : Part State.groups put_groups where
  put_get _ := rfl
  get_put _ _ := rfl
  put_put _ _ _ := rfl
  same H s h := ⟨s.ctrls, H, rfl, fun _ => rfl, h⟩

theorem part_ctrls : Part State.ctrls put_ctrls where
  put_get _ := rfl
  get_put _ _ := rfl
  put_put _ _ _ := rfl
  same H s h := ⟨H, s.groups, rfl, h, fun _ => rfl⟩

/-- An object that is placed, and freed after `c`, which does not see it. -/
theorem agrees_placed {α β : Type} {get : State → Heap α} {put : Heap α → State → State}
    (hp : Part get put) (a : α) (ret : β) {c d : Drv Unit} {kept : Prop} (hc : Unseen put c)
    (hd : Unseen put d) (hno : ¬kept) (s : State) :
    Agrees kept ((do
      c
      modify fun t => put ((get t).free (get s).next) t
      d
      pure ret : Drv β) (put ((get s).alloc a) s)) ((do c; d; pure ret : Drv β) s) := by
  have hcs := hc ((get s).alloc a) s
  cases hr : c s with
  | error e =>
    rw [hr] at hcs
    rw [bind_error hcs, bind_error hr]
    exact rfl
  | ok r =>
    obtain ⟨⟨⟩, t⟩ := r
    rw [hr] at hcs
    have ht := hc.stays hp.put_get hp.get_put hr
    have hm : (modify fun t => put ((get t).free (get s).next) t : Drv Unit)
        (put ((get s).alloc a) t) = .ok ((), put (((get s).alloc a).free (get s).next) t) := by
      show Except.ok ((), _) = _
      simp only [hp.get_put, hp.put_put]
    rw [bind_ok hcs, bind_ok hm, bind_ok hr]
    have hds := hd (((get s).alloc a).free (get s).next) t
    cases hr' : d t with
    | error e =>
      rw [hr'] at hds
      rw [bind_error hds, bind_error hr']
      exact rfl
    | ok r' =>
      obtain ⟨⟨⟩, u⟩ := r'
      rw [hr'] at hds
      have hu := hd.stays hp.put_get hp.get_put hr'
      rw [bind_ok hds, bind_ok hr']
      refine ⟨rfl, fun hk => absurd hk hno, hp.same _ _ fun i => ?_⟩
      rw [Heap.get_alloc_free, hu, ht]

/-! ## Objects that are placed and filled in -/

theorem Heap.get_alloc_next {α : Type} {H : Heap α} {a : α} : (H.alloc a).get H.next = some a := by
  rw [Heap.get_alloc, if_pos rfl]

theorem Heap.set_alloc_next {α : Type} {H : Heap α} {a b : α} :
    (H.alloc a).set H.next b = H.alloc b := by
  simp [Heap.set, Heap.alloc, Heap.next]

theorem ctrl_upd_ok {s : State} {c : CtrlId} {x : BafsCtrl} {f : BafsCtrl → BafsCtrl}
    (hx : s.ctrls.get c = some x) :
    ctrl_upd c f s = .ok ((), { s with ctrls := s.ctrls.set c (f x) }) :=
  bind_ok (load_ok hx)

theorem group_upd_ok {s : State} {g : GroupId} {x : BafsGroup} {f : BafsGroup → BafsGroup}
    (hx : s.groups.get g = some x) :
    group_upd g f s = .ok ((), { s with groups := s.groups.set g (f x) }) :=
  bind_ok (load_ok hx)

theorem get_ctrl_id_error {s : State} {fail : Option Errno} {e : Errno}
    (hid : ida_simple_get s.bafs_ctrl_ida fail = .error e) :
    get_ctrl_id fail s = .ok (.error e, s) := by
  unfold get_ctrl_id
  rw [bind_ok (show (get : Drv State) s = .ok (s, s) from rfl), hid]
  rfl

theorem get_ctrl_id_ok {s : State} {fail : Option Errno} {n : Nat}
    (hid : ida_simple_get s.bafs_ctrl_ida fail = .ok n) :
    get_ctrl_id fail s = .ok (.ok n, { s with bafs_ctrl_ida := n :: s.bafs_ctrl_ida }) := by
  unfold get_ctrl_id
  rw [bind_ok (show (get : Drv State) s = .ok (s, s) from rfl), hid]
  rfl

theorem get_group_id_error {s : State} {fail : Option Errno} {e : Errno}
    (hid : ida_simple_get s.bafs_group_ida fail = .error e) :
    get_group_id fail s = .ok (.error e, s) := by
  unfold get_group_id
  rw [bind_ok (show (get : Drv State) s = .ok (s, s) from rfl), hid]
  rfl

theorem get_group_id_ok {s : State} {fail : Option Errno} {n : Nat}
    (hid : ida_simple_get s.bafs_group_ida fail = .ok n) :
    get_group_id fail s = .ok (.ok n, { s with bafs_group_ida := n :: s.bafs_group_ida }) := by
  unfold get_group_id
  rw [bind_ok (show (get : Drv State) s = .ok (s, s) from rfl), hid]
  rfl

/-! ## bafs_ctrl_alloc -/

/-- The labels from `out_ctrl_id_put` on, after `c`. -/
theorem out_ctrl_id_put_whole (s : State) (x : BafsCtrl) (blk : BlockId) (minor ctrl_id : Nat)
    (e : Errno) {c : Drv Unit} {kept : Prop} (hno : ¬kept) (hc : Unseen put_ctrls c) :
    Agrees kept ((do c; (out_ctrl_id_put s.ctrls.next blk minor ctrl_id e).whole : Drv _)
        (put_ctrls (s.ctrls.alloc x) s))
      ((do c; put_ctrl_id ctrl_id; bafs_put_minor_number minor; kfree blk; pure (e.ret, none) :
        Drv (Int × Option CtrlId)) s) := by
  have hid : Unseen put_ctrls (put_ctrl_id ctrl_id) := .modify fun _ _ => rfl
  have := agrees_placed part_ctrls x (e.ret, (none : Option CtrlId))
    (hc.bind fun _ => hid.bind fun _ => bafs_put_minor_number_unseen undoes_ctrls minor)
    (kfree_unseen undoes_ctrls blk) hno s
  simp only [bind_assoc] at this
  simp only [out_ctrl_id_put, stmt, whole_bind, whole_single, whole_pure, bind_assoc]
  exact this

theorem place_ctrl_ok {s : State} {blk : BlockId} {pdev : PciDev} {minor ctrl_id : Nat} :
    place_ctrl blk pdev minor ctrl_id s = .ok (s.ctrls.next,
      put_ctrls (s.ctrls.alloc { blk, pdev, device := 0, minor, ctrl_id, ref := 0 }) s) := rfl

theorem ctrl_alloc_steps_whole (pdev : PciDev) (env : CtrlAllocEnv) (s : State) :
    Agrees (env.cdev_add = none ∧ env.device_create = none)
      ((ctrl_alloc_steps pdev env).whole s) (bafs_ctrl_alloc pdev env s) := by
  obtain ⟨kz, region, enable, minor, ctrl_id, cdev, device⟩ := env
  unfold ctrl_alloc_steps bafs_ctrl_alloc stmt
  rw [whole_bind, whole_single]
  refine agrees_bind fun b s => ?_
  cases b with
  | none => exact .refl _
  | some blk =>
    cases region with
    | some e => exact .of_eq (by rw [whole_bind, whole_single]; rfl)
    | none =>
    cases enable with
    | some e => exact .of_eq (by rw [whole_bind, whole_single]; rfl)
    | none =>
    dsimp only
    rw [whole_bind, whole_single]
    refine agrees_bind fun r s => ?_
    cases r with
    | error e => exact .of_eq (by rw [whole_bind, whole_single]; rfl)
    | ok m =>
    dsimp only
    rw [whole_bind, whole_single, bind_ok (show (get : Drv State) s = .ok (s, s) from rfl)]
    cases hid : ida_simple_get s.bafs_ctrl_ida ctrl_id with
    | error e =>
      rw [bind_ok (get_ctrl_id_error hid)]
      exact .of_eq (by simp only [whole_bind, whole_single]; rfl)
    | ok n =>
    rw [bind_ok (get_ctrl_id_ok hid)]
    dsimp only
    rw [whole_bind, whole_single, bind_ok place_ctrl_ok]
    cases cdev with
    | some e => exact out_ctrl_id_put_whole _ _ blk m n e (fun hk => by cases hk.1) (.pure ())
    | none =>
    cases device with
    | some e =>
      have hno : ¬((none : Option Errno) = none ∧ some e = none) := fun hk => by cases hk.2
      have hadd : Unseen put_ctrls (cdev_add m) := .modify fun _ _ => rfl
      have hget : Unseen put_ctrls get_core_device := .modify fun _ _ => rfl
      have := out_ctrl_id_put_whole { s with bafs_ctrl_ida := n :: s.bafs_ctrl_ida }
        ⟨blk, pdev, 0, m, n, 0⟩ blk m n e hno (hadd.bind fun _ => hget.bind fun _ =>
          (put_core_device_unseen undoes_ctrls).bind fun _ => cdev_del_unseen undoes_ctrls m)
      simp only [bind_assoc] at this
      simp only [whole_bind, whole_single]
      exact this
    | none =>
      refine .of_eq ?_
      simp only [whole_bind, whole_single, whole_pure, bind_assoc]
      refine (bind_ok rfl).trans ((bind_ok rfl).trans ((bind_ok rfl).trans ?_))
      refine (bind_ok (ctrl_upd_ok Heap.get_alloc_next)).trans ?_
      refine (bind_ok (ctrl_upd_ok (Heap.get_set_self Heap.get_alloc_next))).trans ?_
      simp only [put_ctrls, Heap.set_alloc_next]
      rfl

/-! ## bafs_group_alloc -/

theorem find_ctrl_devices_steps_whole (ctrls : List Name) :
    (find_ctrl_devices_steps ctrls).whole = find_ctrl_devices ctrls := by
  refine whole_iterate (fun name devs => ?_) ctrls []
  unfold stmt
  rw [whole_bind, whole_single]
  refine bind_congr fun r => ?_
  cases r with
  | none => rfl
  | some d =>
    dsimp only
    rw [whole_bind, whole_single]
    refine bind_congr fun x => ?_
    rw [whole_ite]
    rfl

theorem get_ctrls_steps_whole (devs : List DeviceId) :
    (get_ctrls_steps devs).whole = get_ctrls devs := by
  refine whole_iterate (fun d ctrls => ?_) devs []
  unfold stmt
  rw [whole_bind, whole_single]
  refine bind_congr fun x => ?_
  cases x.drvdata with
  | none => rfl
  | some o =>
    cases o with
    | group g => exact whole_single _ _
    | ctrl c => exact (whole_bind _ _).trans (by rw [whole_single]; rfl)

theorem out_put_devices_steps_whole (devs : List DeviceId) (dblk gblk : BlockId) :
    ((out_put_devices_steps devs dblk).whole >>= fun _ => kfree gblk) =
      out_put_devices devs dblk gblk := by
  unfold out_put_devices_steps out_put_devices stmt
  rw [whole_bind, whole_each (fun d => whole_single _ _)]
  simp only [whole_bind, whole_single, bind_assoc]

theorem out_free_ctrls_steps_whole (ctrls : List CtrlId) (cblk : BlockId) (devs : List DeviceId)
    (dblk gblk : BlockId) :
    ((out_free_ctrls_steps ctrls cblk devs dblk).whole >>= fun _ => kfree gblk) =
      out_free_ctrls ctrls cblk devs dblk gblk := by
  unfold out_free_ctrls_steps out_free_ctrls stmt
  rw [whole_bind, whole_each (fun c => whole_single _ _)]
  simp only [whole_bind, whole_single, bind_assoc, out_put_devices_steps_whole]

theorem out_free_ctrls_steps_unseen (ctrls : List CtrlId) (cblk : BlockId) (devs : List DeviceId)
    (dblk : BlockId) : Unseen put_groups (out_free_ctrls_steps ctrls cblk devs dblk).whole := by
  unfold out_free_ctrls_steps out_put_devices_steps stmt
  rw [whole_bind, whole_each (fun c => whole_single _ _)]
  simp only [whole_bind, whole_single]
  rw [whole_each (fun d => whole_single _ _)]
  refine (Unseen.each bafs_ctrl_release_unseen _).bind fun _ => ?_
  refine (kfree_unseen undoes_groups _).bind fun _ => ?_
  refine (Unseen.each put_device_unseen _).bind fun _ => ?_
  exact (put_core_device_unseen undoes_groups).bind fun _ => kfree_unseen undoes_groups _

/-- The labels from `out_minor_put` on, after `c`. -/
theorem out_minor_put_whole (s : State) (x : BafsGroup) (ctrls : List CtrlId) (cblk : BlockId)
    (devs : List DeviceId) (dblk gblk : BlockId) (minor group_id : Nat) (e : Errno) {c : Drv Unit}
    {kept : Prop} (hno : ¬kept) (hc : Unseen put_groups c) :
    Agrees kept ((do
        c
        (out_minor_put s.groups.next ctrls cblk devs dblk gblk minor group_id e).whole : Drv _)
        (put_groups (s.groups.alloc x) s))
      ((do
        c
        bafs_put_minor_number minor
        put_group_id group_id
        out_free_ctrls ctrls cblk devs dblk gblk
        pure (e.ret, none) : Drv (Int × Option GroupId)) s) := by
  have hid : Unseen put_groups (put_group_id group_id) := .modify fun _ _ => rfl
  have := agrees_placed part_groups x (e.ret, (none : Option GroupId))
    (hc.bind fun _ => (bafs_put_minor_number_unseen undoes_groups minor).bind fun _ =>
      hid.bind fun _ => out_free_ctrls_steps_unseen ctrls cblk devs dblk)
    (kfree_unseen undoes_groups gblk) hno s
  simp only [bind_assoc] at this
  rw [← out_free_ctrls_steps_whole]
  simp only [out_minor_put, stmt, whole_bind, whole_single, whole_pure, bind_assoc]
  exact this

theorem place_group_ok {s : State} {gblk cblk : BlockId} {group_id minor : Nat}
    {ctrls : List CtrlId} : place_group gblk cblk group_id minor ctrls s = .ok (s.groups.next,
      put_groups (s.groups.alloc
        { blk := gblk, ctrls_blk := cblk, ref := 0, group_id, minor, device := 0, ctrls }) s) := rfl

theorem group_add_steps_whole (ctrls : List CtrlId) (cblk : BlockId) (devs : List DeviceId)
    (dblk gblk : BlockId) (env : GroupAllocEnv) (s : State) :
    Agrees (env.cdev_add = none ∧ env.device_create = none)
      ((group_add_steps ctrls cblk devs dblk gblk env).whole s)
      (group_add ctrls cblk devs dblk gblk env s) := by
  obtain ⟨kg, kd, kc, group_id, minor, cdev, device⟩ := env
  have hout := out_free_ctrls_steps_whole ctrls cblk devs dblk gblk
  unfold group_add_steps group_add stmt
  rw [whole_bind, whole_single, bind_ok (show (get : Drv State) s = .ok (s, s) from rfl)]
  dsimp only
  cases hid : ida_simple_get s.bafs_group_ida group_id with
  | error e =>
    rw [bind_ok (get_group_id_error hid)]
    refine .of_eq ?_
    rw [← hout]
    simp only [whole_bind, whole_single, whole_pure, bind_assoc]
  | ok n =>
  rw [bind_ok (get_group_id_ok hid)]
  dsimp only
  rw [whole_bind, whole_single]
  have htaken : (modify fun s => { s with bafs_group_ida := n :: s.bafs_group_ida } : Drv Unit) s =
      .ok ((), { s with bafs_group_ida := n :: s.bafs_group_ida }) := rfl
  rw [bind_ok htaken]
  refine agrees_bind fun r s => ?_
  cases r with
  | error e =>
    refine .of_eq ?_
    rw [← hout]
    simp only [whole_bind, whole_single, whole_pure, bind_assoc]
    rfl
  | ok m =>
  dsimp only
  rw [whole_bind, whole_single, bind_ok place_group_ok]
  cases cdev with
  | some e => exact out_minor_put_whole _ _ ctrls cblk devs dblk gblk m n e (fun hk => by cases hk.1) (.pure ())
  | none =>
  cases device with
  | some e =>
    have hno : ¬((none : Option Errno) = none ∧ some e = none) := fun hk => by cases hk.2
    have hadd : Unseen put_groups (cdev_add m) := .modify fun _ _ => rfl
    have := out_minor_put_whole s ⟨gblk, cblk, 0, n, m, 0, ctrls⟩ ctrls cblk devs dblk gblk m n e
      hno (hadd.bind fun _ => cdev_del_unseen undoes_groups m)
    simp only [bind_assoc] at this
    simp only [whole_bind, whole_single]
    exact this
  | none =>
    refine .of_eq ?_
    simp only [whole_bind, whole_single, whole_pure, bind_assoc]
    rw [whole_each (fun d => whole_single _ _)]
    refine (bind_ok rfl).trans ((bind_ok rfl).trans ?_)
    refine (bind_ok (group_upd_ok Heap.get_alloc_next)).trans ?_
    refine (bind_ok (group_upd_ok (Heap.get_set_self Heap.get_alloc_next))).trans ?_
    simp only [put_groups, Heap.set_alloc_next]
    rfl

theorem group_alloc_steps_whole (ctrls : List Name) (env : GroupAllocEnv) (s : State) :
    Agrees (env.cdev_add = none ∧ env.device_create = none)
      ((group_alloc_steps ctrls env).whole s) (bafs_group_alloc ctrls env s) := by
  unfold group_alloc_steps bafs_group_alloc stmt
  rw [whole_bind, whole_single]
  refine agrees_bind fun b s => ?_
  cases b with
  | none => exact .refl _
  | some gblk =>
  dsimp only
  rw [whole_bind, whole_single]
  refine agrees_bind fun b s => ?_
  cases b with
  | none => exact .of_eq (by rw [whole_bind, whole_single]; rfl)
  | some dblk =>
  dsimp only
  rw [whole_bind, whole_single]
  refine agrees_bind fun _ s => ?_
  rw [whole_bind, find_ctrl_devices_steps_whole]
  refine agrees_bind fun r s => ?_
  obtain ⟨devs, fail⟩ := r
  cases fail with
  | some ret =>
    refine .of_eq ?_
    dsimp only
    rw [← out_put_devices_steps_whole]
    simp only [whole_bind, whole_single, whole_pure, bind_assoc]
  | none =>
  dsimp only
  rw [whole_bind, whole_single]
  refine agrees_bind fun b s => ?_
  cases b with
  | none =>
    refine .of_eq ?_
    rw [← out_put_devices_steps_whole]
    simp only [whole_bind, whole_single, whole_pure, bind_assoc]
  | some cblk =>
  dsimp only
  rw [whole_bind, get_ctrls_steps_whole]
  refine agrees_bind fun r s => ?_
  obtain ⟨held, fail⟩ := r
  cases fail with
  | some ret =>
    refine .of_eq ?_
    dsimp only
    rw [← out_free_ctrls_steps_whole]
    simp only [whole_bind, whole_single, whole_pure, bind_assoc]
  | none => exact group_add_steps_whole held cblk devs dblk gblk env s

/-! ## bafs_init -/

/-- The probes of the PCI devices that are there when the module is loaded. -/
def InitEnv.probes (env : InitEnv) : List Request := env.devices.map fun d => .probe d.1 d.2

/-- The load succeeds, and no probe fails after it has placed its controller. -/
structure InitEnv.Loads (env : InitEnv) : Prop where
  region : env.alloc_chrdev_region = none
  core_class : env.core_class = none
  ctrl_class : env.ctrl_class = none
  group_class : env.group_class = none
  minor : env.minor = none
  cdev_add : env.cdev_add = none
  device_create : env.device_create = none
  pci_register_driver : env.pci_register_driver = none
  devices : ∀ d ∈ env.devices, d.2.cdev_add = none ∧ d.2.device_create = none
  slots : (env.devices.map fun d => d.1.slot).Nodup

theorem bafs_ctrl_alloc_registry {E : Fault → Prop} {pdev : PciDev} {env : CtrlAllocEnv} (s : State) :
    wp (bafs_ctrl_alloc pdev env) E
      (fun _ s' => s'.bafs_global_ctx_xa = s.bafs_global_ctx_xa) s := by
  unfold bafs_ctrl_alloc bafs_get_minor_number ida_simple_get
  rw [wp_bind, wp_kzalloc]
  cases env.kzalloc with
  | false => exact rfl
  | true =>
  rw [if_pos rfl]
  rcases env.pci_request_region with _ | e
  · rcases env.pci_enable_device with _ | e
    · rcases env.minor with _ | e
      · rcases env.ctrl_id with _ | e
        · rcases env.cdev_add with _ | e
          · rcases env.device_create with _ | e
            · exact rfl
            · exact rfl
          · exact rfl
        · exact rfl
      · exact rfl
    · exact rfl
  · exact rfl

/-- A probe binds no other device and leaves the table of contexts as it is. -/
theorem step_probe_registry {E : Fault → Prop} (pdev : PciDev) (env : CtrlAllocEnv) (s : State) :
    wp (step (.probe pdev env)) E (fun _ s' => s'.bafs_global_ctx_xa = s.bafs_global_ctx_xa ∧
      ∀ slot, slot ≠ pdev.slot → s'.drvdata.lookup slot = s.drvdata.lookup slot) s := by
  refine wp_mono (wp_and (Q := fun _ s' => s'.bafs_global_ctx_xa = s.bafs_global_ctx_xa) ?_
    (step_probe_numbers (E := E) pdev env s)) fun _ s' hs' => ⟨hs'.1, hs'.2.2.1⟩
  unfold step
  rw [wp_bind, wp_get]
  refine wp_ite (fun _ => rfl) fun _ => ?_
  unfold bafs_ctrl_pci_probe
  rw [wp_bind]
  refine (bafs_ctrl_alloc_registry s).bind fun r s₁ hr => ?_
  obtain ⟨ret, c⟩ := r
  cases c with
  | none => exact hr
  | some c => exact hr

theorem probe_steps_whole {pdev : PciDev} {env : CtrlAllocEnv} {s : State}
    (hcdev : env.cdev_add = none) (hdevice : env.device_create = none)
    (hfree : s.drvdata.lookup pdev.slot = none) :
    (probe_steps pdev env).whole s = (fun r => ((), r.2)) <$> step (.probe pdev env) s := by
  have halloc : (ctrl_alloc_steps pdev env).whole = bafs_ctrl_alloc pdev env :=
    funext fun s => (ctrl_alloc_steps_whole pdev env s).eq ⟨hcdev, hdevice⟩
  have hstep : step (.probe pdev env) s =
      (bafs_ctrl_pci_probe pdev env >>= fun ret => pure { ret }) s := by
    show (if (s.drvdata.lookup pdev.slot).isSome then pure { ret := -EBUSY } else _ : Drv Reply) s = _
    rw [hfree]
    rfl
  rw [hstep]
  unfold probe_steps bafs_ctrl_pci_probe stmt
  rw [whole_bind, halloc]
  show (bafs_ctrl_alloc pdev env s >>= fun r => _) = _ <$> ((bafs_ctrl_alloc pdev env >>= _) >>= _) s
  rw [bind_assoc]
  show _ = _ <$> (bafs_ctrl_alloc pdev env s >>= fun r => _)
  cases bafs_ctrl_alloc pdev env s with
  | error e => rfl
  | ok p =>
    obtain ⟨⟨ret, c⟩, t⟩ := p
    cases c with
    | none => rfl
    | some c => rfl

/-- The probes of the load one after another, as requests. -/
theorem each_probe_whole {l : List (PciDev × CtrlAllocEnv)}
    (hl : ∀ d ∈ l, d.2.cdev_add = none ∧ d.2.device_create = none)
    (hslots : (l.map fun d => d.1.slot).Nodup) {s : State}
    (hfree : ∀ d ∈ l, s.drvdata.lookup d.1.slot = none) (hxa : s.bafs_global_ctx_xa = ∅) :
    (Script.each (fun d => probe_steps d.1 d.2) l).whole s =
        (fun t => ((), t)) <$> run step (l.map fun d => .probe d.1 d.2) s ∧
      ∀ t, run step (l.map fun d => .probe d.1 d.2) s = .ok t → t.bafs_global_ctx_xa = ∅ := by
  induction l generalizing s with
  | nil => exact ⟨rfl, fun t ht => Except.ok.inj ht ▸ hxa⟩
  | cons d l ih =>
    obtain ⟨hcdev, hdevice⟩ := hl d List.mem_cons_self
    obtain ⟨hd, hslots⟩ := List.nodup_cons.mp hslots
    have hwhole := probe_steps_whole hcdev hdevice (hfree d List.mem_cons_self)
    have hkeep := step_probe_registry (E := fun _ => True) d.1 d.2 s
    rw [Script.each, whole_bind, List.map_cons, run]
    cases hr : step (.probe d.1 d.2) s with
    | error e =>
      rw [hr] at hwhole
      exact ⟨bind_error hwhole, fun t ht => by cases ht⟩
    | ok r =>
      obtain ⟨reply, t⟩ := r
      rw [hr] at hwhole
      obtain ⟨hx, hdrv⟩ := wp_ok hkeep hr
      rw [bind_ok hwhole]
      refine ih (fun e he => hl e (List.mem_cons_of_mem _ he)) hslots (fun e he => ?_) (hx.trans hxa)
      rw [hdrv e.1.slot fun heq => hd (List.mem_map.mpr ⟨e, he, heq⟩)]
      exact hfree e (List.mem_cons_of_mem _ he)

theorem init_steps_whole {env : InitEnv} (h : env.Loads) :
    (init_steps env).whole unloaded = (fun t => (0, t)) <$> run step env.probes init := by
  have hdrv : ∀ d ∈ env.devices, init.drvdata.lookup d.1.slot = none := fun _ _ => rfl
  obtain ⟨heq, hxa⟩ := each_probe_whole h.devices h.slots hdrv rfl
  unfold init_steps stmt
  simp only [h.region, h.core_class, h.ctrl_class, h.group_class, h.minor, h.cdev_add,
    h.device_create, h.pci_register_driver]
  rw [whole_bind, whole_single, bind_ok (show bafs_get_minor_number none unloaded =
    .ok (.ok 0, { unloaded with bafs_minor_ida := [0] }) from rfl)]
  simp only [whole_bind, whole_single, whole_pure]
  refine (bind_ok rfl).trans ((bind_ok (show create_core_device _ = .ok ((), init) from rfl)).trans ?_)
  unfold InitEnv.probes
  cases hr : run step (env.devices.map fun d => .probe d.1 d.2) init with
  | error e =>
    rw [hr] at heq
    exact bind_error heq
  | ok t =>
    rw [hr] at heq
    rw [bind_ok heq]
    have hinit : { t with bafs_global_ctx_xa := ∅ } = t := by rw [← hxa t hr]
    exact congrArg (fun t => Except.ok ((0 : Int), t)) hinit

/-- Without interruption the statements of a creation do what the function of the requests does, and
loading the module with PCI devices is loading it without them and probing them one after another. -/
theorem creation_whole :
    (∀ ctrls env s, Agrees (env.cdev_add = none ∧ env.device_create = none)
      ((group_alloc_steps ctrls env).whole s) (bafs_group_alloc ctrls env s)) ∧
    (∀ pdev env s, Agrees (env.cdev_add = none ∧ env.device_create = none)
      ((ctrl_alloc_steps pdev env).whole s) (bafs_ctrl_alloc pdev env s)) ∧
    ∀ env, InitEnv.Loads env →
      (init_steps env).whole unloaded = (fun t => (0, t)) <$> run step env.probes init :=
  ⟨group_alloc_steps_whole, ctrl_alloc_steps_whole, fun _ => init_steps_whole⟩

/-- A load with two PCI devices, where nothing fails. -/
def load_two : InitEnv where
  alloc_chrdev_region := none
  core_class := none
  ctrl_class := none
  group_class := none
  minor := none
  cdev_add := none
  device_create := none
  pci_register_driver := none
  devices := [({ slot := 0, resource_start := 0, resource_len := PAGE_SIZE }, granted_ctrl),
    ({ slot := 1, resource_start := PAGE_SIZE, resource_len := PAGE_SIZE }, granted_ctrl)]

theorem creation_whole_load : ∃ t, run step load_two.probes init = .ok t ∧
    (init_steps load_two).whole unloaded = .ok (0, t) ∧ t.drvdata.keys = [1, 0] := by
  have hload : load_two.Loads := ⟨rfl, rfl, rfl, rfl, rfl, rfl, rfl, rfl, by decide, by decide⟩
  have hwhole := creation_whole.2.2 load_two hload
  obtain ⟨t, hr, ht⟩ : ∃ t, run step load_two.probes init = .ok t ∧ t.drvdata.keys = [1, 0] :=
    ⟨_, rfl, by decide +kernel⟩
  rw [hr] at hwhole
  exact ⟨t, hr, hwhole, ht⟩

end BafsDriver
