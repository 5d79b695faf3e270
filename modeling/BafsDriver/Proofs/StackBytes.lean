import BafsDriver.Lib.TwoRun
import BafsDriver.Proofs.GroupName

/-!
# Bytes of the stack

The buffer in which a creation formats the path of its group is written to user memory as a whole, with
what the stack held behind the path. Nothing else of the stack is seen.
-/

set_option linter.style.nameCheck false

namespace BafsDriver

open Prog

variable {h : Held Kind} {v : View} {s s' : State} {r r' : Request} {f : Nat → Nat}

/-! ## The claim -/

/-- The request where the stack held `f`. -/
def Request.with_stack (f : Nat → Nat) : Request → Request
  | .ioctl i cmd arg env =>
    .ioctl i cmd arg { env with create_group := { env.create_group with stack := f } }
  | r => r

/-- The requests are the same but for what the stack held. -/
def same_input (r r' : Request) : Prop := ∃ f, r' = r.with_stack f

/-- What a process sees of a run: what every request returned, and all that was written to user memory
up to then, with its place. -/
def seen (rs : List Request) (s : State) : List (Except Fault (Reply × List (Nat × List Nat))) :=
  observe step (calls Event.copied) rs s

/-- The path of the next group. -/
def next_path (s : State) : Name := dev_path (group_dev_name (lowestFree s.bafs_group_ida))

/-- The request makes a group whose path is shorter than the buffer, and bytes from behind it can be
written to user memory. -/
def leaks (s : State) : Request → Prop
  | .ioctl i cmd arg env => (∃ c, s.files.get i = some (.core c)) ∧ cmd = BAFS_CORE_IOC_CREATE_GROUP ∧
    group_made s arg.create_group env.create_group ∧
    (next_path s).length + 1 < MAX_NAME_LEN - env.create_group.copy_to_user
  | _ => False

/-! ## The path in its buffer -/

/-- The part of the buffer up to the NUL does not depend on the stack. -/
theorem snprintf_buffer_take {stack : Nat → Nat} {str : Name} {n : Nat}
    (hlen : str.length < MAX_NAME_LEN) (hn : n ≤ str.length + 1) :
    (snprintf_buffer f str).take n = (snprintf_buffer stack str).take n := by
  have hpath : ∀ stack, (snprintf_buffer stack str).take n = (str.map Char.toNat ++ [0]).take n := by
    intro stack
    have hle : n - (str.map Char.toNat ++ [0]).length = 0 := by
      simp
      omega
    rw [snprintf_buffer_eq hlen, List.append_cons, List.take_append, hle, List.take_zero,
      List.append_nil]
  rw [hpath, hpath]

/-- A byte behind the NUL is that of the stack. -/
theorem snprintf_buffer_behind {stack : Nat → Nat} {str : Name}
    (hlen : str.length + 1 < MAX_NAME_LEN) :
    (snprintf_buffer stack str)[str.length + 1]? = some (stack (str.length + 1)) := by
  unfold snprintf_buffer
  rw [List.getElem?_map, List.getElem?_range hlen]
  simp

/-! ## The creation of a group -/

/-- What is left of a creation when the path of its group is known. -/
def report_name (params : BAFS_CORE_IOC_CREATE_GROUP_PARAMS) (env : CreateGroupEnv) (g : GroupId)
    (blk : BlockId) (path : Name) (stack : Nat → Nat) : Drv Int :=
  if path.length ≥ MAX_NAME_LEN then do
    bafs_put_group g
    kfree blk
    pure (-EINVAL)
  else do
    let left ← copy_to_user env.copy_to_user params.group_name .group_name
      (snprintf_buffer stack path)
    if left ≠ 0 then
      bafs_put_group g
      kfree blk
      pure (-EFAULT)
    else
      kfree blk
      modify fun s => { s with group_log := .create g :: s.group_log }
      pure 0

/-- Whether a creation makes its group does not depend on the stack, nor does what it has done until
then. -/
theorem bafs_core_create_group_eq {params : BAFS_CORE_IOC_CREATE_GROUP_PARAMS}
    {env : CreateGroupEnv} (hs : At h v s) (hh : NonNeg h) :
    (¬group_made s params env ∧ ∃ q, ∀ f,
      bafs_core_create_group params { env with stack := f } s = q) ∨
    (group_made s params env ∧ ∃ g blk s₁, calls Event.copied s₁ = calls Event.copied s ∧ ∀ f,
      bafs_core_create_group params { env with stack := f } s =
        report_name params env g blk (next_path s) f s₁) := by
  by_cases h1 : env.copy_from_user = false
  · refine .inl ⟨(fun hm => by cases h1.symm.trans hm.1), .ok (-EFAULT, s), fun f => ?_⟩
    unfold bafs_core_create_group
    rw [if_pos (by exact h1)]
    rfl

  obtain ⟨blk, s₁, hk, ⟨⟨h2, hs₁⟩, hf₁⟩, hg₁⟩ := wp_ends (wp_and ((kzalloc_frame _).wp_and
    (kzalloc_spec (E := fun _ => False) hs env.kzalloc)) (kzalloc_adds (A := no_call) s))
  cases blk with
  | none =>
    refine .inl ⟨(fun hm => by cases h2.symm.trans hm.2.1), .ok (-ENOMEM, s₁), fun f => ?_⟩
    unfold bafs_core_create_group
    rw [if_neg (by exact h1), bind_ok hk]
    rfl
  | some blk =>
  have hnames : wp (copy_names params.ctrls params.n_ctrls.toNat) (fun _ => False) _ s₁ := copy_names_spec hs₁
  obtain ⟨⟨names, fail⟩, s₂, hn, rfl, hr⟩ := wp_ends hnames
  obtain ⟨hread, hr⟩ | ⟨hread, ret, hret, hr⟩ := hr
  · cases hr
    have hall : allocatable s₂ (name_list params.ctrls params.n_ctrls.toNat) env.alloc ↔
        allocatable s (name_list params.ctrls params.n_ctrls.toNat) env.alloc := by
      unfold allocatable
      simp only [frame_ctrl_named hf₁]
    have halloc : wp (bafs_group_alloc (name_list params.ctrls params.n_ctrls.toNat) env.alloc)
        (fun _ => False) _ s₂ := bafs_group_alloc_spec hs₁ hh
    obtain ⟨⟨ret, made⟩, s₃, ha, hr, hg₃⟩ := wp_ends (wp_and halloc (bafs_group_alloc_adds (A := no_call) s₂))
    obtain ⟨ha', g, l, hg, hnew, hid, hs₃⟩ | ⟨ha', hret, hr, -⟩ := hr
    · obtain rfl : made = some g := hg
      have hgl : (v.add_group g l).group_ctrls g = some l := Function.update_self ..
      obtain ⟨x, hx, -⟩ := hs₃.group_live hgl
      obtain ⟨w, hw, -, -, -, hname⟩ := hs₃.wf.tree.group hx
      have hpath : dev_path w.name = next_path s := by
        rw [hname, ((frame_lowest_numbers hf₁ x).mp (hid x hx)).1]
        rfl
      have hgroup : group_at g s₃ = .ok (x, s₃) := load_ok hx
      have hdevice : device_at x.device s₃ = .ok (w, s₃) := load_ok hw
      refine .inr ⟨⟨by simpa using h1, h2, hread, hall.mp ha'⟩, g, blk, s₃,
        hg₃.written.trans hg₁.written, fun f => ?_⟩
      unfold bafs_core_create_group report_name
      rw [if_neg (by exact h1), bind_ok hk]
      dsimp only
      rw [bind_ok hn]
      dsimp only
      rw [bind_ok ha]
      dsimp only
      rw [bind_ok hgroup, bind_ok hdevice, hpath]
    · obtain rfl : made = none := hr
      refine .inl ⟨fun hm => ha' (hall.mpr hm.2.2.2), (do kfree blk; pure ret : Drv Int) s₃, fun f => ?_⟩
      unfold bafs_core_create_group
      rw [if_neg (by exact h1), bind_ok hk]
      dsimp only
      rw [bind_ok hn]
      dsimp only
      rw [bind_ok ha]
  · obtain rfl : fail = some ret := hr
    refine .inl ⟨fun hm => hread hm.2.2.1, (do kfree blk; pure ret : Drv Int) s₂, fun f => ?_⟩
    unfold bafs_core_create_group
    rw [if_neg (by exact h1), bind_ok hk]
    dsimp only
    rw [bind_ok hn]

section Create

variable {params : BAFS_CORE_IOC_CREATE_GROUP_PARAMS} {env : CreateGroupEnv}

/-- Where no byte behind the path can be written, a creation does the same whatever the stack held. -/
theorem bafs_core_create_group_stack (hs : At h v s) (hh : NonNeg h)
    (hno : group_made s params env → MAX_NAME_LEN - env.copy_to_user ≤ (next_path s).length + 1) :
    bafs_core_create_group params { env with stack := f } s = bafs_core_create_group params env s := by
  obtain ⟨-, q, hq⟩ | ⟨hm, g, blk, s₁, -, heq⟩ := bafs_core_create_group_eq hs hh
  · exact (hq f).trans (hq env.stack).symm
  · refine (heq f).trans (Eq.trans ?_ (heq env.stack).symm)
    unfold report_name
    by_cases hlen : (next_path s).length ≥ MAX_NAME_LEN
    · rw [if_pos hlen, if_pos hlen]
    · have htake : (snprintf_buffer f (next_path s)).take (MAX_NAME_LEN - env.copy_to_user) =
          (snprintf_buffer env.stack (next_path s)).take (MAX_NAME_LEN - env.copy_to_user) :=
        snprintf_buffer_take (by omega) (hno hm)
      have hcopy : copy_to_user env.copy_to_user params.group_name .group_name
            (snprintf_buffer f (next_path s)) =
          copy_to_user env.copy_to_user params.group_name .group_name
            (snprintf_buffer env.stack (next_path s)) := by
        unfold copy_to_user
        unfold MAX_NAME_LEN at htake
        rw [snprintf_buffer_length, snprintf_buffer_length, htake]
      rw [if_neg hlen, if_neg hlen, hcopy]

/-- What a creation writes to user memory once it has made its group. -/
theorem bafs_core_create_group_copied (hs : At h v s) (hh : NonNeg h) (hm : group_made s params env)
    (hlen : (next_path s).length < MAX_NAME_LEN) :
    wp (bafs_core_create_group params env) (fun _ => True) (fun _ s' =>
      calls Event.copied s' = (params.group_name,
        (snprintf_buffer env.stack (next_path s)).take (MAX_NAME_LEN - env.copy_to_user)) ::
        calls Event.copied s) s := by
  obtain ⟨hno, -⟩ | ⟨-, g, blk, s₁, hcalls, heq⟩ := bafs_core_create_group_eq hs hh
  · exact absurd hm hno
  have hreport : wp (report_name params env g blk (next_path s) env.stack) (fun _ => True)
      (fun _ s' => calls Event.copied s' = (params.group_name,
        (snprintf_buffer env.stack (next_path s)).take (MAX_NAME_LEN - env.copy_to_user)) ::
        calls Event.copied s) s₁ := by
    have hundo : Adds no_call (do bafs_put_group g; kfree blk; pure (-EFAULT) : Drv Int) :=
      .bind bafs_put_group_adds fun _ => .bind kfree_adds fun _ => .pure _
    have hdone : Adds no_call (do
        kfree blk
        modify fun s => { s with group_log := .create g :: s.group_log }
        pure 0 : Drv Int) :=
      .bind kfree_adds fun _ => .bind (Adds.modify fun _ => rfl) fun _ => .pure _
    unfold report_name
    rw [if_neg (by omega)]
    refine copy_to_user_copied.bind fun left s₂ hs₂ => ?_
    have hcopied := hs₂.2.1
    rw [snprintf_buffer_length, hcalls] at hcopied
    refine wp_ite (fun _ => ?_) fun _ => ?_
    · exact wp_mono (hundo s₂) fun _ s₃ hg => hg.written.trans hcopied
    · exact wp_mono (hdone s₂) fun _ s₃ hg => hg.written.trans hcopied
  unfold wp at hreport ⊢
  rw [← heq env.stack] at hreport
  exact hreport

end Create

/-! ## One request -/

theorem step_ioctl {i : FileId} {x : File} {cmd : Nat} {arg : IoctlArg} {env : IoctlEnv}
    (hx : s.files.get i = some x) : step (.ioctl i cmd arg env) s =
      (do let r ← ioctl_file x cmd arg env
          pure { ret := r.ret, reg_mem := r.reg_mem } : Drv Reply) s := by
  have hget : (get : Drv State) s = .ok (s, s) := rfl
  simp only [step, bind_ok hget, hx]

theorem step_ioctl_closed {i : FileId} {cmd : Nat} {arg : IoctlArg} {env : IoctlEnv}
    (hx : s.files.get i = none) : step (.ioctl i cmd arg env) s = .ok ({ ret := -EBADF }, s) := by
  have hget : (get : Drv State) s = .ok (s, s) := rfl
  simp only [step, bind_ok hget, hx]
  rfl

/-- A request that writes no byte behind a path does the same whatever the stack held. -/
theorem step_stack (hi : Inv s) (hno : ¬leaks s r) : step (r.with_stack f) s = step r s := by
  cases r with
  | ioctl i cmd arg env =>
    cases hx : s.files.get i with
    | none => exact (step_ioctl_closed hx).trans (step_ioctl_closed hx).symm
    | some x =>
      show step (.ioctl i cmd arg
        { env with create_group := { env.create_group with stack := f } }) s = _
      rw [step_ioctl hx, step_ioctl hx]
      cases x with
      | ctrl y => rfl
      | group y => rfl
      | core c =>
      show (do let r ← bafs_core_ioctl c cmd arg
                { env with create_group := { env.create_group with stack := f } }
               pure { ret := r.ret, reg_mem := r.reg_mem } : Drv Reply) s =
        (do let r ← bafs_core_ioctl c cmd arg env
            pure { ret := r.ret, reg_mem := r.reg_mem } : Drv Reply) s
      unfold bafs_core_ioctl
      by_cases hcmd : cmd = BAFS_CORE_IOC_CREATE_GROUP
      · obtain ⟨h, hl, hs⟩ := hi.sane.at
        have hcreate : bafs_core_create_group arg.create_group
            { env.create_group with stack := f } s =
            bafs_core_create_group arg.create_group env.create_group s := by
          refine bafs_core_create_group_stack hs hl.nonneg fun hm => ?_
          by_contra hlt
          exact hno ⟨⟨c, hx⟩, hcmd, hm, not_le.mp hlt⟩
        rw [hcmd, if_neg (by decide), if_neg (by decide), if_pos rfl, if_neg (by decide),
          if_neg (by decide), if_pos rfl]
        exact bind_congr_at (bind_congr_at hcreate)
      · simp only [if_neg hcmd]
  | _ => rfl

/-- What a creation that goes past the path writes to user memory. -/
theorem step_leaks {i : FileId} {cmd : Nat} {arg : IoctlArg} {env : IoctlEnv} (hi : Inv s)
    (hr : leaks s (.ioctl i cmd arg env)) :
    wp (step (.ioctl i cmd arg env)) (fun _ => False) (fun _ s' => calls Event.copied s' =
      (arg.create_group.group_name, (snprintf_buffer env.create_group.stack (next_path s)).take
        (MAX_NAME_LEN - env.create_group.copy_to_user)) :: calls Event.copied s) s := by
  obtain ⟨⟨c, hx⟩, rfl, hm, hlen⟩ := hr
  obtain ⟨h, hl, hs⟩ := hi.sane.at
  have hends : wp (step (.ioctl i BAFS_CORE_IOC_CREATE_GROUP arg env)) (fun _ => False) _ s :=
    step_create hs hl.nonneg hx
  have hcopied : wp (bafs_core_create_group arg.create_group env.create_group) _ _ s :=
    bafs_core_create_group_copied hs hl.nonneg hm (by omega)
  suffices hcall : wp (step (.ioctl i BAFS_CORE_IOC_CREATE_GROUP arg env)) (fun _ => True)
      (fun _ s' => calls Event.copied s' = _) s from wp_mono (wp_and hends hcall) fun _ s' hs' => hs'.2
  unfold wp
  rw [step_ioctl hx]
  refine wp.bind (R := fun _ s' => calls Event.copied s' = _) ?_ fun _ _ hs' => hs'
  show wp (bafs_core_ioctl c BAFS_CORE_IOC_CREATE_GROUP arg env) _ _ _
  unfold bafs_core_ioctl
  rw [if_neg (by decide), if_neg (by decide), if_pos rfl]
  exact hcopied.bind fun ret s₁ hs₁ => wp_ite (fun _ => hs₁) fun _ => hs₁

/-- Where the stack held something else, a creation that goes past the path writes something else. -/
theorem seen_of_leaks (hi : Inv s) (hr : leaks s r) : ∃ r', same_input r r' ∧ seen [r'] s ≠ seen [r] s := by
  cases r with
  | ioctl i cmd arg env =>
    have hstep := step_leaks hi hr
    have hlen : (next_path s).length + 1 < MAX_NAME_LEN - env.create_group.copy_to_user := hr.2.2.2
    refine ⟨_, ⟨fun k => env.create_group.stack k + 1, rfl⟩, fun he => ?_⟩
    have hr' : leaks s (.ioctl i cmd arg { env with create_group :=
      { env.create_group with stack := fun k => env.create_group.stack k + 1 } }) := hr
    have hother := step_leaks hi hr'
    obtain ⟨a, s₁, hc, hs₁⟩ := wp_ends hstep
    obtain ⟨a', s₁', hc', hs₁'⟩ := wp_ends hother
    have hc' : step (Request.with_stack (fun k => env.create_group.stack k + 1)
        (.ioctl i cmd arg env)) s = .ok (a', s₁') := hc'
    unfold seen observe at he
    rw [hc, hc'] at he
    -- the bytes that were written, and the first behind the path among them
    have hcopied := congrArg Prod.snd (Except.ok.inj (List.cons.inj he).1)
    rw [hs₁, hs₁'] at hcopied
    have hbytes := congrArg (fun l => l[(next_path s).length + 1]?)
      (congrArg Prod.snd (List.cons.inj hcopied).1)
    simp only [List.getElem?_take_of_lt hlen] at hbytes
    rw [snprintf_buffer_behind (by omega), snprintf_buffer_behind (by omega)] at hbytes
    simp at hbytes
  | _ => exact hr.elim

/-! ## The claim over runs -/

/-- In every state that a run reaches, what is seen of the requests that follow does not depend on the
stack exactly if none of them writes a byte from behind its path. -/
theorem stack_bytes_stay (rs : List Request) : Always step (fun _ => True) (fun s => ∀ is,
    (∀ is', List.Forall₂ same_input is is' → seen is' s = seen is s) ↔
      Along step (fun s r => ¬leaks s r) is s) rs init := by
  refine always_of_inv (fun s hi is => ?_) rs
  refine observe_eq_iff_along (I := Inv) (fun s r hi _ => step_keeps_inv r hi)
    (fun s r r' hi hno hr => ?_) (fun s r hi hno => seen_of_leaks hi (not_not.mp hno)) (fun r => ?_)
    is hi
  · obtain ⟨f, rfl⟩ := hr
    exact step_stack hi hno
  · cases r with
    | ioctl i cmd arg env => exact ⟨env.create_group.stack, rfl⟩
    | _ => exact ⟨fun _ => 0, rfl⟩

/-- A group of the first controller is created. -/
def create_one : Request := .create 0 [ctrl_dev_name 0]

/-- Whether the creation of a group writes the same over a stack of zeros and over one of ones. -/
def shows_stack (s : State) : Bool :=
  match step create_one s, step (create_one.with_stack fun _ => 1) s with
  | .ok (_, s₁), .ok (_, s₂) => calls Event.copied s₁ ≠ calls Event.copied s₂
  | _, _ => false

/-- The bytes behind the path of a new group are those of the stack. -/
theorem stack_bytes_seen : ¬Always step (fun _ => True) (fun s => ∀ is is',
    List.Forall₂ same_input is is' → seen is' s = seen is s)
    [.bind 0 0x100000 4096, .open_core a_task granted_ctx] init := by
  intro ha
  have hend : ends step shows_stack [.bind 0 0x100000 4096, .open_core a_task granted_ctx] init =
      true := by decide +kernel
  obtain ⟨hrun, hshows⟩ := run_final hend
  generalize final step _ init = s at hrun hshows
  have hsame := (always_iff_run.mp ha _ (List.prefix_refl _)).1 s hrun
  have hseen := hsame [create_one] [create_one.with_stack fun _ => 1] (.cons ⟨_, rfl⟩ .nil)
  unfold shows_stack at hshows
  unfold seen observe at hseen
  cases hc : step create_one s with
  | error e =>
    rw [hc] at hshows
    cases hshows
  | ok q =>
    cases hc' : step (create_one.with_stack fun _ => 1) s with
    | error e =>
      rw [hc, hc'] at hshows
      cases hshows
    | ok q' =>
      rw [hc, hc'] at hshows hseen
      have hcopied := congrArg Prod.snd (Except.ok.inj (List.cons.inj hseen).1)
      exact of_decide_eq_true hshows hcopied.symm

end BafsDriver
