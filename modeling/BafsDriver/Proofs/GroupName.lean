import BafsDriver.Library
import BafsDriver.Proofs.MinorNumbers
import BafsDriver.Proofs.ProcessIsolation
import Mathlib.Data.List.TakeWhile

/-!
# The name of a new group

The path that a creation writes back to the caller is that of the device of the new group, whatever
was on the stack behind it, and the library and the driver find this group by it as long as it exists.
-/

set_option linter.style.nameCheck false

namespace BafsDriver

open Prog

variable {h h' : Held Kind} {v v' : View} {s s' : State} {r : Request} {g : GroupId}

/-! ## The claim -/

/-- The bytes that a call wrote to user memory, and where. -/
def Event.copied : Event → Option (Nat × List Nat)
  | .copy_to_user _ dst bytes => some (dst, bytes)
  | _ => none

/-- A group has been made, and nothing was written to user memory but the path of its device, to
`buf` and the bytes of a name from there on. -/
structure NameReturned (s : State) (buf : Nat) (g : GroupId) (path : Name) (s' : State) : Prop where
  fresh : s.groups.get g = none
  device : ∃ x d, s'.groups.get g = some x ∧ s'.devices.get x.device = some d ∧
    path = dev_path d.name
  written : ∃ bytes, calls Event.copied s' = (buf, bytes) :: calls Event.copied s ∧
    bytes.length = MAX_NAME_LEN ∧ c_string bytes = some path

/-- The library deletes the group `g` by this path, and nothing else, unless it cannot open the
core device. -/
def DeletesExactly (path : Name) (g : GroupId) (s : State) : Prop :=
  ∀ fd env, (∀ f, fd = some f → ∃ c, s.files.get f = some (.core c)) → env.ioctl.delete_group = true →
    wp (Library.bafs_core_delete_group path fd env) (fun _ => False) (fun ret s' =>
      (fd = none ∧ ret = -1 ∧ s'.view.deleted = s.view.deleted) ∨
        (ret = 0 ∧ s'.view.deleted = (s.view.mark_delete g).deleted)) s

/-! ## Names -/

theorem decimal_inj {m n : Nat} (hd : decimal m = decimal n) : m = n := by
  have hvalue := congrArg (fun l => Nat.ofDigitChars 10 l 0) hd
  simpa [decimal] using hvalue

theorem group_dev_name_inj {m n : Nat} (he : group_dev_name m = group_dev_name n) : m = n :=
  decimal_inj (List.append_cancel_left he)

theorem ctrl_ne_group {m n : Nat} : ctrl_dev_name m ≠ group_dev_name n := by
  unfold ctrl_dev_name group_dev_name BAFS_CTRL_CLASS_NAME BAFS_GROUP_CLASS_NAME
  simp

/-- A character that neither ends a string nor a name. -/
def plain (ch : Char) : Prop := ch.toNat ≠ 0 ∧ isspace ch = false

theorem plain_of_digit {ch : Char} (hd : ch.isDigit = true) : plain ch := by
  have hrange : 48 ≤ ch.toNat ∧ ch.toNat ≤ 57 := by
    simpa [Char.isDigit, UInt32.le_iff_toNat_le] using hd
  unfold plain isspace
  simp
  omega

theorem group_dev_name_plain {n : Nat} : ∀ ch ∈ group_dev_name n, plain ch := by
  intro ch hch
  rcases List.mem_append.mp hch with hch | hch
  · have hall : ∀ ch ∈ BAFS_GROUP_CLASS_NAME, ch.toNat ≠ 0 ∧ isspace ch = false := by
      simp [BAFS_GROUP_CLASS_NAME, isspace]
    exact hall ch hch
  · exact plain_of_digit (Nat.isDigit_of_mem_toDigits (by decide) (by decide) hch)

theorem dev_path_plain {n : Nat} : ∀ ch ∈ dev_path (group_dev_name n), plain ch := by
  intro ch hch
  rcases List.mem_append.mp hch with hch | hch
  · have hall : ∀ ch ∈ dev_path [], ch.toNat ≠ 0 ∧ isspace ch = false := by
      simp [dev_path, isspace]
    exact hall ch hch
  · exact group_dev_name_plain ch hch

/-- The library finds the name of the device in its path. -/
theorem sscanf_dev_path {name : Name} (hne : name ≠ []) (hp : ∀ ch ∈ name, plain ch) :
    sscanf_dev (dev_path name) = some name := by
  have hdrop : (dev_path name).drop (dev_path []).length = name := rfl
  have hskip : name.dropWhile isspace = name := by
    cases name with
    | nil => rfl
    | cons ch rest => exact List.dropWhile_cons_of_neg (by simp [(hp ch (List.mem_cons_self ..)).2])
  have htake : name.takeWhile (fun ch => !isspace ch) = name := by
    refine List.takeWhile_eq_self_iff.mpr fun ch hch => ?_
    simp [(hp ch hch).2]
  unfold sscanf_dev
  rw [if_pos ⟨name, rfl⟩, hdrop, hskip, htake, if_neg hne]

/-- What `snprintf` leaves in its buffer: the string, its NUL, and what was there before. -/
theorem snprintf_buffer_eq {stack : Nat → Nat} {str : Name} (hlen : str.length < MAX_NAME_LEN) :
    snprintf_buffer stack str = str.map Char.toNat ++ 0 ::
      (List.range (MAX_NAME_LEN - 1 - str.length)).map fun i => stack (str.length + 1 + i) := by
  apply List.ext_getElem?
  intro i
  unfold snprintf_buffer
  unfold MAX_NAME_LEN at *
  rcases Nat.lt_trichotomy i str.length with hi | rfl | hi
  · rw [List.getElem?_append_left (by simpa using hi)]
    have hne : i ≠ str.length := Nat.ne_of_lt hi
    simp [List.getElem?_range (show i < 20 by omega), hne, List.getElem?_eq_getElem hi]
  · rw [List.getElem?_append_right (by simp)]
    simp [List.getElem?_range hlen]
  · obtain ⟨k, rfl⟩ : ∃ k, i = str.length + 1 + k := ⟨i - (str.length + 1), by omega⟩
    have hidx : str.length + 1 + k - (str.map Char.toNat).length = k + 1 := by
      rw [List.length_map]
      omega
    rw [List.getElem?_append_right (by simp; omega), hidx, List.getElem?_cons_succ]
    simp only [List.getElem?_map]
    by_cases hk : str.length + 1 + k < 20
    · have hnone : str[str.length + 1 + k]? = none := List.getElem?_eq_none (by omega)
      rw [List.getElem?_range hk, List.getElem?_range (by omega)]
      simp [hnone]
      omega
    · rw [List.getElem?_eq_none (by simpa using hk), List.getElem?_eq_none (by simp; omega)]
      rfl

/-- The caller reads the string back, whatever was on the stack behind it. -/
theorem c_string_buffer {stack : Nat → Nat} {str : Name} (hlen : str.length < MAX_NAME_LEN)
    (hp : ∀ ch ∈ str, plain ch) : c_string (snprintf_buffer stack str) = some str := by
  have hbytes : ∀ b ∈ str.map Char.toNat, decide (b ≠ 0) = true := by
    intro b hb
    obtain ⟨ch, hch, rfl⟩ := List.mem_map.mp hb
    exact decide_eq_true (hp ch hch).1
  have hchars : (str.map Char.toNat).map Char.ofNat = str := by
    rw [List.map_map]
    exact List.map_id'' (fun ch => Char.ofNat_toNat ch) str
  unfold c_string
  rw [snprintf_buffer_eq hlen, if_pos (List.mem_append_right _ (List.mem_cons_self ..)),
    List.takeWhile_append_of_pos hbytes, List.takeWhile_cons_of_neg (by simp), List.append_nil,
    hchars]

/-! ## Lookups -/

/-- A child of the core device is found under its name, or another one under the same name. -/
theorem find_child_of {d : DeviceId} {w : Device} (hw : s.devices.get d = some w)
    (htree : w.in_tree = true) : ∃ e, find_child s w.name = some e := by
  have hmem : d ∈ children s := by
    refine List.mem_filter.mpr ⟨List.mem_range.mpr (Heap.lt_next_of_get hw), ?_⟩
    rw [hw]
    exact htree
  cases hf : find_child s w.name with
  | some e => exact ⟨e, rfl⟩
  | none =>
    have hno := List.find?_eq_none.mp hf d hmem
    rw [hw] at hno
    simp at hno

/-- A group that exists is found under the name of its device. -/
theorem WF.group_found (hs : WF h s) (hn : Numbered 0 s) {x : BafsGroup}
    (hg : s.groups.get g = some x) (hlen : (group_dev_name x.group_id).length < MAX_NAME_LEN) :
    group_named s (some (group_dev_name x.group_id)) g := by
  obtain ⟨w, hw, htree, -, -, hname⟩ := hs.tree.group hg
  obtain ⟨e, he⟩ := find_child_of hw htree
  rw [hname] at he
  obtain ⟨w', hw', htree', hname'⟩ := find_child_some he
  refine ⟨_, e, w', rfl, hlen, he, hw', ?_⟩
  obtain ⟨o, n, ho, hnode, rfl⟩ := hs.tree.child e w' hw' htree'
  obtain ⟨w'', hw'', -, -, -, hname''⟩ := hs.tree.node o n hnode
  obtain rfl := Option.some.inj (hw'.symm.trans hw'')
  cases o with
  | ctrl c =>
    obtain ⟨z, hz, rfl⟩ := Option.map_eq_some_iff.mp hnode
    exact absurd (hname''.symm.trans hname') ctrl_ne_group
  | group g' =>
    obtain ⟨z, hz, rfl⟩ := Option.map_eq_some_iff.mp hnode
    have hid : z.group_id = x.group_id := group_dev_name_inj (hname''.symm.trans hname')
    have hsame : g' = g := by
      refine hn.group_ids.unique g' g x.group_id ?_ ?_
      · rw [hz, ← hid]
        rfl
      · rw [hg]
        rfl
    rw [ho, hsame]

/-! ## What a creation writes -/

/-- A program without calls writes nothing. -/
theorem Grows.written (hg : Grows no_call s s') : calls Event.copied s' = calls Event.copied s :=
  hg.calls fun _ he => he.elim

/-- The group `g` is new, its device has its name, which fits, and the path was written to `buf`. -/
def Written (v : View) (s : State) (buf : Nat) (stack : Nat → Nat) (s' : State) : Prop :=
  ∃ g x d, v.group_ctrls g = none ∧ s'.groups.get g = some x ∧ s'.devices.get x.device = some d ∧
    d.name = group_dev_name x.group_id ∧ (dev_path d.name).length < MAX_NAME_LEN ∧
    calls Event.copied s' = (buf, snprintf_buffer stack (dev_path d.name)) :: calls Event.copied s

theorem copy_to_user_copied {E : Fault → Prop} {left dst : Nat} {source : CopySource}
    {words : List Nat} : wp (copy_to_user left dst source words) E (fun n s' =>
      n = min left words.length ∧ calls Event.copied s' =
        (dst, words.take (words.length - left)) :: calls Event.copied s ∧
      s'.groups = s.groups ∧ s'.devices = s.devices) s := ⟨rfl, rfl, rfl, rfl⟩

/-- A program that ends with an error code does not return 0. -/
theorem wp_not_zero {α : Type} {c : Drv α} {ret : Int} {P : Int → State → Prop} (hret : ret ≠ 0) :
    wp (do let _ ← c; pure ret) (fun _ => True) (fun r s' => r = 0 → P r s') s :=
  wp_true.bind fun _ _ _ h => absurd h hret

theorem bafs_core_create_group_written {params : BAFS_CORE_IOC_CREATE_GROUP_PARAMS}
    {env : CreateGroupEnv} (hs : At h v s) (hh : NonNeg h) :
    wp (bafs_core_create_group params env) (fun _ => True)
      (fun ret s' => ret = 0 → Written v s params.group_name env.stack s') s := by
  unfold bafs_core_create_group
  refine wp_ite (fun _ h0 => absurd h0 (by decide)) fun _ => ?_
  refine (wp_and (kzalloc_spec hs env.kzalloc) (kzalloc_adds (A := no_call) s)).bind
    fun blk s₁ hs₁ => ?_
  obtain ⟨⟨-, hs₁⟩, hg₁⟩ := hs₁
  cases blk with
  | none => exact fun h0 => absurd h0 (by decide)
  | some blk =>
  refine (copy_names_spec hs₁).bind fun r s₂ hr => ?_
  obtain ⟨rfl, hr⟩ := hr
  obtain ⟨-, rfl⟩ | ⟨-, ret, hret, hr⟩ := hr
  · refine (wp_and (bafs_group_alloc_spec hs₁ hh) (bafs_group_alloc_adds (A := no_call) s₂)).bind
      fun r s₃ hr => ?_
    obtain ⟨hr, hg₃⟩ := hr
    obtain ⟨ret, made⟩ := r
    obtain ⟨-, g, l, hg, hnew, -, hs₃⟩ | ⟨-, hret, hr, -⟩ := hr
    · obtain rfl : made = some g := hg
      have hgl : (v.add_group g l).group_ctrls g = some l := Function.update_self ..
      obtain ⟨x, hx, -⟩ := hs₃.group_live hgl
      obtain ⟨w, hw, -, -, -, hname⟩ := hs₃.wf.tree.group hx
      have hbefore : calls Event.copied s₃ = calls Event.copied s := hg₃.written.trans hg₁.written
      dsimp only
      rw [wp_bind, wp_group_at hx, wp_bind, wp_device_at hw]
      refine wp_ite (fun _ => ?_) fun hlen => ?_
      · exact wp_true.bind fun _ _ _ => wp_not_zero (by decide)
      · refine copy_to_user_copied.bind fun left s₄ hs₄ => ?_
        obtain ⟨rfl, hcopied, hgroups, hdevices⟩ := hs₄
        refine wp_ite (fun _ => ?_) fun h0 => ?_
        · exact wp_true.bind fun _ _ _ => wp_not_zero (by decide)
        · rw [snprintf_buffer_length] at h0
          have hall : env.copy_to_user = 0 := by omega
          intro _
          rw [hall, Nat.sub_zero, List.take_length, hbefore] at hcopied
          rw [← hgroups] at hx
          rw [← hdevices] at hw
          exact ⟨g, x, w, hnew.none, hx, hw, hname, by omega, hcopied⟩
    · obtain rfl : made = none := hr
      exact wp_not_zero (ne_of_lt hret)
  · obtain ⟨names, fail⟩ := r
    obtain rfl : _ = some ret := hr
    exact wp_not_zero (ne_of_lt hret)

/-- A creation request that succeeds has written the path; it was sent to the core device. -/
theorem step_create_written {f : FileId} {arg : IoctlArg} {env : IoctlEnv} (hi : Inv s) :
    wp (step (.ioctl f BAFS_CORE_IOC_CREATE_GROUP arg env)) (fun _ => True) (fun r s' =>
      r.ret = 0 → Written s.view s arg.create_group.group_name env.create_group.stack s') s := by
  obtain ⟨h, hl, hs⟩ := hi.sane.at
  unfold step
  rw [wp_bind, wp_get]
  cases hx : s.files.get f with
  | none => exact fun h0 => absurd h0 (by decide)
  | some x =>
  by_cases hcore : ∃ c, x = .core c
  · obtain ⟨c, rfl⟩ := hcore
    show wp (do let r ← bafs_core_ioctl c BAFS_CORE_IOC_CREATE_GROUP arg env; pure _) _ _ _
    unfold bafs_core_ioctl
    rw [if_neg (by decide), if_neg (by decide), if_pos rfl, wp_bind]
    refine (wp_and (bafs_core_create_group_written hs hl.nonneg)
      (bafs_core_create_group_spec (E := fun _ => True) hs hl.nonneg)).bind fun ret s₁ hr => ?_
    obtain ⟨hwritten, h', v', hc, -⟩ := hr
    refine wp_ite (fun hneg h0 => ?_) fun hneg _ => ?_
    · have h0 : ret = 0 := h0
      omega
    · have h0 : ret = 0 := by
        cases hc with
        | refused _ hret => exact absurd hret hneg
        | undone _ _ hret => exact absurd hret hneg
        | created => rfl
      exact hwritten h0
  · refine wp.bind (wp_weaken (ioctl_file_spec hs hl hx) fun _ _ => trivial) fun r s₁ hr => ?_
    obtain ⟨h', v', hi', -⟩ := hr
    intro h0
    have h0 : r.ret = 0 := h0
    exfalso
    cases hi' with
    | reg_mem hcmd =>
      cases x with
      | core c => exact hcore ⟨c, rfl⟩
      | ctrl y =>
        have hne : BAFS_CORE_IOC_CREATE_GROUP ≠ BAFS_CTRL_IOC_REG_MEM := by decide
        exact hne hcmd
      | group y =>
        have hne : BAFS_CORE_IOC_CREATE_GROUP ≠ BAFS_GROUP_IOC_REG_MEM := by decide
        exact hne hcmd
    | dma_map hcmd =>
      cases x with
      | core c => exact hcore ⟨c, rfl⟩
      | ctrl y =>
        have hne : some BAFS_CTRL_IOC_DMA_MAP_MEM ≠ some BAFS_CORE_IOC_CREATE_GROUP := by decide
        exact hne hcmd
      | group y =>
        have hne : some BAFS_GROUP_IOC_DMA_MAP_MEM ≠ some BAFS_CORE_IOC_CREATE_GROUP := by decide
        exact hne hcmd
    | create hx' => exact hcore ⟨_, hx'⟩
    | delete hx' => exact hcore ⟨_, hx'⟩
    | reg_mem_fails hcmd hy hf hret => exact ne_of_lt hret h0
    | refused hcmd hg hret => exact ne_of_lt hret h0

/-! ## What a deletion finds -/

theorem bafs_core_delete_group_ret {params : BAFS_CORE_IOC_DELETE_GROUP_PARAMS} {copy : Bool}
    (hc : copy = true) (hg : group_named s params.group_name g) :
    wp (bafs_core_delete_group params copy) (fun _ => True) (fun ret _ => 0 ≤ ret) s := by
  obtain ⟨str, d, w, hn, hlt, hd, hw, ho⟩ := hg
  unfold bafs_core_delete_group strncpy_from_user
  rw [if_neg (by simp [hc]), hn]
  dsimp only
  rw [if_pos hlt]
  dsimp only
  rw [if_neg (by omega), if_neg (by omega), device_find_child_by_name, wp_bind, wp_bind, wp_get, hd]
  dsimp only
  rw [wp_bind, wp_device_upd hw, wp_pure, wp_bind, wp_device_at (Heap.get_set_self hw)]
  dsimp only
  rw [ho]
  refine wp_true.bind fun _ _ _ => wp_true.bind fun _ _ _ => wp_true.bind fun _ _ _ => ?_
  exact Int.natCast_nonneg str.length

theorem View.put_group_deleted : (v.put_group h g).deleted = v.deleted := by
  unfold put_group
  split <;> rfl

/-- A deletion request for a name that a group has marks the deletion of this group. -/
theorem step_delete_group {f : FileId} {c : CtxId} {arg : IoctlArg} {env : IoctlEnv}
    (hs : At h s.view s) (hh : NonNeg h) (hf : s.files.get f = some (.core c))
    (hc : env.delete_group = true) (hg : group_named s arg.delete_group.group_name g) :
    wp (step (.ioctl f BAFS_CORE_IOC_DELETE_GROUP arg env)) (fun _ => False)
      (fun r s' => r.ret = 0 ∧ s'.view.deleted = (s.view.mark_delete g).deleted) s := by
  unfold step
  rw [wp_bind, wp_get, hf]
  show wp (do let r ← bafs_core_ioctl c BAFS_CORE_IOC_DELETE_GROUP arg env; pure _) _ _ _
  unfold bafs_core_ioctl
  rw [if_neg (by decide), if_neg (by decide), if_neg (by decide), if_pos rfl, wp_bind, wp_bind]
  have hspec : wp (bafs_core_delete_group arg.delete_group env.delete_group) (fun _ => False) _ s :=
    bafs_core_delete_group_spec hs hh fun _ hctrl => hg.not_ctrl hctrl
  refine wp_mono (wp_and hspec (bafs_core_delete_group_ret hc hg)) fun ret s₁ hr => ?_
  obtain ⟨⟨h', v', hdel, hs₁⟩, hret⟩ := hr
  rw [if_neg (not_lt.mpr hret)]
  refine ⟨rfl, ?_⟩
  rw [hs₁.view]
  cases hdel with
  | refused hno hneg => exact absurd hret (not_le.mpr hneg)
  | deleted hc' hg' hl =>
    obtain rfl := hg.unique hg'
    exact View.put_group_deleted

/-! ## The core device -/

/-- The groups are those that were there, and the same deletions have been made. -/
structure GroupsStay (s s' : State) : Prop where
  inv : Inv s'
  numbered : Numbered 0 s'
  grows : Grows no_call s s'
  ctrls : s'.view.group_ctrls = s.view.group_ctrls
  deleted : s'.view.deleted = s.view.deleted

theorem GroupsStay.refl (hi : Inv s) (hn : Numbered 0 s) : GroupsStay s s :=
  ⟨hi, hn, Std.Refl.refl s, rfl, rfl⟩

/-- An open of the core device gives a file of it, or an error code. -/
theorem step_open_core_file (t : Task) (env : CtxEnv) :
    wp (step (.open_core t env)) (fun _ => True) (fun r s' =>
      r.ret < 0 ∨ ∃ c, s'.files.get s.files.next = some (.core c)) s := by
  have hrefused : ∀ {q : Int × Option CtxId} {s₁ : State}, q.1 < 0 → q.2 = none →
      wp (add_file q.1 (q.2.map .core)) (fun _ => True) (fun r s' =>
        r.ret < 0 ∨ ∃ c, s'.files.get s.files.next = some (.core c)) s₁ := by
    intro q s₁ hret hnone
    rw [hnone]
    exact .inl hret
  show wp (do let q ← bafs_core_open t env; add_file q.1 (q.2.map .core)) _ _ _
  by_cases hg : env.grants
  · refine (bafs_core_open_granted hg).bind fun q s₁ hq => ?_
    split at hq
    · exact hrefused hq.1 hq.2.1
    · obtain ⟨c, rfl, hfiles, -⟩ := hq
      right
      refine ⟨c, ?_⟩
      show (s₁.files.alloc (.core c)).get s.files.next = _
      rw [← hfiles, Heap.get_alloc, if_pos rfl]
  · refine (bafs_core_open_refused hg).bind fun q s₁ hq => ?_
    exact hrefused hq.1 hq.2.1

theorem step_open_core_groups (t : Task) (env : CtxEnv) (hi : Inv s) (hn : Numbered 0 s) :
    wp (step (.open_core t env)) (fun _ => False) (fun _ s' => GroupsStay s s') s := by
  obtain ⟨h, hl, hs, hw⟩ := step_inv (.open_core t env) hi
  have hgrows : Adds no_call (step (.open_core t env)) :=
    .bind bafs_core_open_adds fun _ => add_file_adds
  have hends : wp (step (.open_core t env)) (fun _ => False) _ s := wp_weaken hw fun e he => by
    cases he with
    | table_short hr => exact hr
    | vma_freed hr => exact hr
    | group_freed hr => cases hr
  refine wp_mono (wp_and hends (hgrows s)) fun r s' hs' => ?_
  obtain ⟨⟨hi', h', -, -, he⟩, hg⟩ := hs'
  have hview : s'.view.group_ctrls = s.view.group_ctrls ∧ s'.view.deleted = s.view.deleted := by
    generalize s'.view = v' at he
    cases he with
    | opened => exact ⟨rfl, rfl⟩
    | not_opened => exact ⟨rfl, rfl⟩
    | no_file => exact ⟨rfl, rfl⟩
    | no_vma => exact ⟨rfl, rfl⟩
  exact ⟨hi', hg.numbers.numbered 0 hn, hg, hview.1, hview.2⟩

/-- The library has a file of the core device at hand, or cannot open one. -/
theorem bafs_core_init_spec {fd : Option FileId} {env : CoreCallEnv} (hi : Inv s)
    (hn : Numbered 0 s) : wp (bafs_core_init fd env) (fun _ => False) (fun r s' => GroupsStay s s' ∧
      (fd = none ∧ r = .error (-1) ∨ ∃ f, r = .ok f ∧
        (fd = some f ∧ s' = s ∨ ∃ c, s'.files.get f = some (.core c)))) s := by
  cases fd with
  | some f => exact ⟨.refl hi hn, .inr ⟨f, rfl, .inl ⟨rfl, rfl⟩⟩⟩
  | none =>
    unfold bafs_core_init
    dsimp only
    rw [wp_bind, wp_get]
    refine (wp_and (step_open_core_groups env.task env.open_core hi hn)
      (step_open_core_file env.task env.open_core)).bind fun r s' hs' => ?_
    obtain ⟨hstay, hret⟩ := hs'
    refine wp_ite (fun _ => ⟨hstay, .inl ⟨rfl, rfl⟩⟩) fun hpos => ?_
    exact ⟨hstay, .inr ⟨_, rfl, .inr (hret.resolve_left hpos)⟩⟩

/-! ## The number of a group -/

/-- Every request leaves the numbers of the groups that stay. -/
theorem step_groups_kept (r : Request) (s : State) :
    wp (step r) (fun _ => True) (fun _ s' => s.groups.Kept same_group s'.groups) s := by
  by_cases hp : r.probes
  · cases r with
    | probe pdev env =>
      refine wp_mono (step_probe_numbers pdev env s) fun _ s' hs' => ?_
      have hgroups : s'.groups = s.groups := by
        obtain ⟨-, x, -, -, he⟩ | ⟨-, he⟩ := hs'.2.2
        · exact congrArg (fun p => p.2.1) he
        · exact congrArg (fun p => p.2.1) he
      rw [hgroups]
      exact .refl same_group_refl _
    | _ => exact hp.elim
  · exact wp_mono (step_adds (A := any_call) r s hp (fun _ _ => trivial) fun _ _ => trivial)
      fun _ s' hs' => hs'.numbers.groups

/-- The group `g`, as long as it exists, has the number `n`. -/
structure GroupHas (g : GroupId) (n : Nat) (s : State) : Prop where
  inv : Inv s
  numbered : Numbered 0 s
  lt : g < s.groups.next
  number : ∀ x, s.groups.get g = some x → x.group_id = n

theorem group_id_kept {n : Nat} (hk : s.groups.Kept same_group s'.groups) (hlt : g < s.groups.next)
    (hn : ∀ x, s.groups.get g = some x → x.group_id = n) :
    g < s'.groups.next ∧ ∀ x, s'.groups.get g = some x → x.group_id = n := by
  refine ⟨hlt.trans_le hk.next_le, fun y hy => ?_⟩
  obtain hle | ⟨x, hx, hsame⟩ := hk.kept g y hy
  · exact absurd hlt (not_lt.mpr hle)
  · rw [hsame]
    exact hn x hx

theorem GroupHas.step {n : Nat} (r : Request) (hg : GroupHas g n s) :
    wp (BafsDriver.step r) (fun _ => True) (fun _ s' => GroupHas g n s') s := by
  have hminors := wp_and (step_groups_kept r s) (step_minors r hg.inv hg.numbered)
  refine wp_mono hminors fun _ s' hs' => ?_
  obtain ⟨hk, hi, hm⟩ := hs'
  obtain ⟨hlt, hnumber⟩ := group_id_kept hk hg.lt hg.number
  exact ⟨hi, hm.numbered, hlt, hnumber⟩

theorem GroupHas.stays {n : Nat} (hg : GroupHas g n s) (hs : GroupsStay s s') :
    GroupHas g n s' := by
  obtain ⟨hlt, hnumber⟩ := group_id_kept hs.grows.numbers.groups hg.lt hg.number
  exact ⟨hs.inv, hs.numbered, hlt, hnumber⟩

/-- The library deletes a group by the path of its device. -/
theorem GroupHas.deletes {n : Nat} (hg : GroupHas g n s)
    (hlen : (dev_path (group_dev_name n)).length < MAX_NAME_LEN) (hlive : (s.groups.get g).isSome) :
    DeletesExactly (dev_path (group_dev_name n)) g s := by
  intro fd env hfd hcopy
  unfold Library.bafs_core_delete_group
  refine (bafs_core_init_spec hg.inv hg.numbered).bind fun r s₁ hr => ?_
  obtain ⟨hstay, ⟨hnone, rfl⟩ | ⟨f, rfl, hf⟩⟩ := hr
  · exact .inl ⟨hnone, rfl, hstay.deleted⟩
  have hfile : ∃ c, s₁.files.get f = some (.core c) := by
    obtain ⟨rfl, rfl⟩ | hc := hf
    · exact hfd f rfl
    · exact hc
  obtain ⟨c, hc⟩ := hfile
  obtain ⟨h, hl, hs⟩ := hstay.inv.sane.at
  -- the group is still there, with its number
  obtain ⟨x, hx⟩ := Option.isSome_iff_exists.mp hlive
  have hview : s₁.view.group_ctrls g = some x.ctrls := by
    obtain ⟨h₀, -, hs₀⟩ := hg.inv.sane.at
    rw [hstay.ctrls, hs₀.group_view hx]
  obtain ⟨x₁, hx₁, -⟩ := hs.group_live hview
  have hnumber : x₁.group_id = n := (hg.stays hstay).number x₁ hx₁
  have hname : group_named s₁ (some (group_dev_name n)) g := by
    rw [← hnumber]
    refine hs.wf.group_found hstay.numbered hx₁ ?_
    rw [hnumber]
    unfold dev_path at hlen
    rw [List.length_append] at hlen
    omega
  have hne : group_dev_name n ≠ [] := by
    unfold group_dev_name BAFS_GROUP_CLASS_NAME
    simp
  dsimp only
  rw [sscanf_dev_path hne group_dev_name_plain]
  refine (step_delete_group hs hl.nonneg hc hcopy hname).bind fun r s₂ hr => ?_
  refine wp_ite (fun hret => absurd hr.1 hret) fun _ => .inr ⟨rfl, ?_⟩
  rw [hr.2]
  unfold View.mark_delete
  rw [hstay.deleted]

/-! ## The claim over runs -/

/-- Where the library has created a group, the path of the device is in the buffer and nothing else
has been written, and this group has its number from now on. -/
theorem create_group_named {n_ctrls : BitVec 32} {ctrl_names : Nat → Name} {buf : Nat}
    {fd : Option FileId} {env : CoreCallEnv} (hi : Inv s) (hn : Numbered 0 s) :
    wp (Library.bafs_core_create_group n_ctrls ctrl_names buf fd env) (fun _ => True)
      (fun ret s' => ret = 0 → ∃ g n, (dev_path (group_dev_name n)).length < MAX_NAME_LEN ∧
        NameReturned s buf g (dev_path (group_dev_name n)) s' ∧ GroupHas g n s') s := by
  unfold Library.bafs_core_create_group
  refine (wp_weaken (bafs_core_init_spec hi hn) fun _ h => h.elim).bind fun r s₁ hr => ?_
  obtain ⟨hstay, ⟨-, rfl⟩ | ⟨f, rfl, -⟩⟩ := hr
  · exact fun h0 => absurd h0 (by decide)
  dsimp only
  refine wp_ite (fun _ h0 => absurd h0 (by decide)) fun _ => ?_
  cases scan_names ctrl_names n_ctrls.toNat with
  | none => exact fun h0 => absurd h0 (by decide)
  | some names =>
  have hnumbered := step_minors (.ioctl f BAFS_CORE_IOC_CREATE_GROUP { env.arg with
    create_group := { n_ctrls, ctrls := fun i => names[i]?, group_name := buf } } env.ioctl)
    hstay.inv hstay.numbered
  refine (wp_and (step_create_written hstay.inv) hnumbered).bind fun r s₂ hr => ?_
  obtain ⟨hwritten, hi₂, hminors⟩ := hr
  refine wp_ite (fun hret h0 => absurd (neg_eq_zero.mp h0) hret) fun hret _ => ?_
  obtain ⟨g, x, d, hnone, hx, hd, hname, hlen, hcalls⟩ := hwritten (not_not.mp hret)
  have hpath : dev_path d.name = dev_path (group_dev_name x.group_id) := by rw [hname]
  rw [hpath] at hlen hcalls
  refine ⟨g, x.group_id, hlen, ⟨?_, ⟨x, d, hx, hd, hpath.symm⟩, ?_⟩, ?_⟩
  · rw [hstay.ctrls] at hnone
    exact group_none.mpr hnone
  · rw [hstay.grows.written] at hcalls
    exact ⟨_, hcalls, snprintf_buffer_length _ _, c_string_buffer hlen dev_path_plain⟩
  · refine ⟨hi₂, hminors.numbered, Heap.lt_next_of_get hx, fun y hy => ?_⟩
    rw [Option.some.inj (hy.symm.trans hx)]

/-- In every state that a run reaches, a group that the library creates has its path returned, and as
long as the group exists, the library deletes exactly this group by the path. -/
theorem group_name_round_trip (rs : List Request) : Always step (fun _ => True) (fun s =>
    ∀ n_ctrls ctrl_names buf fd env,
      wp (Library.bafs_core_create_group n_ctrls ctrl_names buf fd env) (fun _ => True)
        (fun ret s' => ret = 0 → ∃ g path, NameReturned s buf g path s' ∧ ∀ rs',
          Always step (fun _ => True) (fun t => (t.groups.get g).isSome → DeletesExactly path g t) rs' s')
        s) rs init := by
  refine always_of_step (I := fun s => Inv s ∧ Numbered 0 s) (fun s r hi => ?_) (fun s hi => ?_) rs
    ⟨inv_init, Numbered.init⟩
  · exact wp_mono (step_minors r hi.1 hi.2) fun _ s' hs' => ⟨hs'.1, hs'.2.numbered⟩
  · intro n_ctrls ctrl_names buf fd env
    refine wp_mono (create_group_named hi.1 hi.2) fun ret s' hs' h0 => ?_
    obtain ⟨g, n, hlen, hreturned, hhas⟩ := hs' h0
    refine ⟨g, dev_path (group_dev_name n), hreturned, fun rs' => ?_⟩
    exact always_of_step (fun _ r ht => GroupHas.step r ht) (fun _ ht => ht.deletes hlen) rs' hhas

end BafsDriver
