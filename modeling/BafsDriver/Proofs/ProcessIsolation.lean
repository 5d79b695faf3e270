import BafsDriver.Processes
import BafsDriver.Proofs.OpenOrder

/-!
# Processes and their contexts

The contexts are found by the number of the process, and what they know of its `struct pid` is never
compared. A context lives as long as a file of it is open, which may be longer than the process whose
it is, and then another process may have its number.
-/

namespace BafsDriver

open Prog

variable {s s' : State} {r : Request} {t : Task}

/-! ## The claim -/

/-- A context that another process made has the number of this one. -/
def stranger (s : State) (t : Task) : Prop :=
  ∃ c y, s.ctxs.get c = some y ∧ y.tgid = t.tgid ∧ y.tgid_struct ≠ t.tgid_struct

/-- The state without the entry of the global table for the number. -/
def without_entry (s : State) (tgid : Nat) : State :=
  { s with bafs_global_ctx_xa := s.bafs_global_ctx_xa.erase tgid }

/-- The file that the request opens gets a context that its process made, and where a context of another
process has its number, the request is only refused if it would be without that context too. -/
def isolated (s : State) (t : Task) (r : Request) : Prop :=
  wp (step r) (fun _ => False) (fun reply s' =>
    (∀ x, s'.files.get s.files.next = some x →
      ∃ y, s'.ctxs.get x.ctx = some y ∧ y.tgid_struct = t.tgid_struct) ∧
    (reply.ret ≠ 0 → stranger s t →
      wp (step r) (fun _ => True) (fun reply' _ => reply'.ret ≠ 0) (without_entry s t.tgid))) s

/-! ## Contexts that are made -/

/-- The contexts are those that were there and ones that the process `pid` made. -/
def MadeFor (pid : Nat) (s s' : State) : Prop := ∀ c y', s'.ctxs.get c = some y' →
  y'.tgid_struct = pid ∨ ∃ y, s.ctxs.get c = some y ∧ same_task y y'

instance {pid : Nat} : IsPreorder State (MadeFor pid) where
  refl _ c y hy := .inr ⟨y, hy, rfl, rfl⟩
  trans s₁ s₂ s₃ h h' := by
    intro c z hz
    obtain hp | ⟨y, hy, hyz⟩ := h' c z hz
    · exact .inl hp
    · obtain hp | ⟨x, hx, hxy⟩ := h c y hy
      · exact .inl (hyz.2.symm.trans hp)
      · exact .inr ⟨x, hx, same_task_trans x y z hxy hyz⟩

theorem MadeFor.of_eq {pid : Nat} (he : s'.ctxs = s.ctxs) : MadeFor pid s s' := by
  intro c y hy
  exact .inr ⟨y, he ▸ hy, rfl, rfl⟩

section Makes

variable {pid : Nat}

theorem load_makes {α : Type} {H : State → Heap α} {e : Fault} {i : Nat} :
    Evolves (MadeFor pid) (load H e i) := by
  intro s
  exact wp_load_of (fun _ => trivial) fun a ha => .of_eq rfl

theorem kzalloc_makes {ok : Bool} : Evolves (MadeFor pid) (kzalloc ok) :=
  .bind .get fun _ => .ite (.bind (.modify fun _ => .of_eq rfl) fun _ => .pure _) (.pure _)

theorem kfree_makes {b : BlockId} : Evolves (MadeFor pid) (kfree b) := .modify fun _ => .of_eq rfl

theorem find_get_pid_makes {ok : Bool} : Evolves (MadeFor pid) (find_get_pid ok t) :=
  .ite (.bind (.modify fun _ => .of_eq rfl) fun _ => .pure _) (.pure _)

theorem put_pid_makes {p : Nat} : Evolves (MadeFor pid) (put_pid p) := .modify fun _ => .of_eq rfl

/-- A program that leaves the contexts alone. -/
theorem makes_none {α : Type} {c : Drv α} (hc : Preserves (fun _ => True) c State.handles) :
    Evolves (MadeFor pid) c :=
  fun s => wp_mono (hc s) fun _ _ he => .of_eq (congrArg (fun p => p.1) he)

theorem publish_ctx_makes {blk : BlockId} :
    Evolves (MadeFor t.tgid_struct) (publish_ctx (new_ctx blk t)) := by
  refine .bind .get fun _ => .bind (.modify fun s => ?_) fun _ => .pure _
  intro c y hy
  obtain ⟨-, rfl⟩ | hy := Heap.get_alloc_cases hy
  · exact .inl rfl
  · exact .inr ⟨y, hy, rfl, rfl⟩

theorem ctx_kref_get_makes {c : CtxId} : Evolves (MadeFor pid) (ctx_kref_get c) := by
  intro s
  unfold ctx_kref_get ctx_upd
  rw [wp_bind]
  refine wp_load_of (fun _ => trivial) fun y hy => ?_
  intro d z hz
  obtain ⟨rfl, rfl⟩ | ⟨-, hz⟩ := Heap.get_set_cases hy hz
  · exact .inr ⟨y, hy, rfl, rfl⟩
  · exact .inr ⟨z, hz, rfl, rfl⟩

theorem bafs_core_open_makes {env : CtxEnv} :
    Evolves (MadeFor t.tgid_struct) (bafs_core_open t env) := by
  refine .bind kzalloc_makes fun blk => ?_
  cases blk with
  | none => exact .pure _
  | some blk =>
    refine .bind find_get_pid_makes fun ok => .ite (.bind .get fun _ => .ite ?_ ?_) ?_
    · exact .bind put_pid_makes fun _ => .bind kfree_makes fun _ => .pure _
    · exact .bind publish_ctx_makes fun _ => .pure _
    · exact .bind kfree_makes fun _ => .pure _

theorem bafs_get_ctx_makes {env : CtxEnv} :
    Evolves (MadeFor t.tgid_struct) (bafs_get_ctx t env) := by
  refine .bind kzalloc_makes fun blk => ?_
  cases blk with
  | none => exact .pure _
  | some blk =>
    refine .bind find_get_pid_makes fun ok => .ite (.bind .get fun s => ?_) ?_
    · cases env.xa_insert with
      | some e => exact .bind kfree_makes fun _ => .pure _
      | none =>
        cases s.bafs_global_ctx_xa.lookup t.tgid with
        | none => exact .bind publish_ctx_makes fun _ => .pure _
        | some c =>
          refine .bind ctx_kref_get_makes fun _ => .bind put_pid_makes fun _ => ?_
          exact .bind kfree_makes fun _ => .pure _
    · exact .bind kfree_makes fun _ => .pure _

theorem bafs_ctrl_open_makes {c : CtrlId} {env : OpenEnv} :
    Evolves (MadeFor t.tgid_struct) (bafs_ctrl_open c t env) := by
  have hget : Preserves (fun _ => True) (bafs_get_ctrl c) State.handles :=
    .bind load_handles fun _ => .modify fun _ => rfl
  refine .bind (makes_none hget) fun _ => .bind kzalloc_makes fun blk => ?_
  cases blk with
  | none => exact .bind (makes_none (bafs_ctrl_release_handles c)) fun _ => .pure _
  | some blk =>
    refine .bind bafs_get_ctx_makes fun ctx => ?_
    cases ctx with
    | none =>
      exact .bind kfree_makes fun _ =>
        .bind (makes_none (bafs_ctrl_release_handles c)) fun _ => .pure _
    | some ctx => exact .pure _

theorem bafs_group_open_makes {g : GroupId} {env : OpenEnv} :
    Evolves (MadeFor t.tgid_struct) (bafs_group_open g t env) := by
  have hget : Preserves (fun _ => True) (bafs_get_group g) State.handles :=
    .bind load_handles fun _ => .modify fun _ => rfl
  refine .bind (makes_none hget) fun _ => .bind kzalloc_makes fun blk => ?_
  cases blk with
  | none => exact .bind (makes_none (bafs_put_group_handles g)) fun _ => .pure _
  | some blk =>
    refine .bind bafs_get_ctx_makes fun ctx => ?_
    cases ctx with
    | none =>
      exact .bind kfree_makes fun _ =>
        .bind (makes_none (bafs_put_group_handles g)) fun _ => .pure _
    | some ctx => exact .pure _

theorem add_file_makes {ret : Int} {file : Option File} :
    Evolves (MadeFor pid) (add_file ret file) := by
  cases file with
  | none => exact .pure _
  | some x => exact .bind (.modify fun _ => .of_eq rfl) fun _ => .pure _

end Makes

theorem step_open_makes (ho : r.opener = some t) : Evolves (MadeFor t.tgid_struct) (step r) := by
  cases r with
  | open_core task env =>
    obtain rfl := Option.some.inj ho
    exact .bind bafs_core_open_makes fun _ => add_file_makes
  | open_ctrl c task env =>
    obtain rfl := Option.some.inj ho
    exact .bind .get fun _ => .ite (.pure _) (.bind bafs_ctrl_open_makes fun _ => add_file_makes)
  | open_group g task env =>
    obtain rfl := Option.some.inj ho
    exact .bind .get fun _ => .ite (.pure _) (.bind bafs_group_open_makes fun _ => add_file_makes)
  | _ => cases ho

/-! ## Opens that are refused -/

theorem bafs_core_open_refused {env : CtxEnv} (hg : ¬env.grants) :
    wp (bafs_core_open t env) (fun _ => True)
      (fun q s' => q.1 < 0 ∧ q.2 = none ∧ s'.files = s.files) s := by
  unfold bafs_core_open find_get_pid
  rw [wp_bind, wp_kzalloc]
  cases hk : env.kzalloc with
  | false => exact ⟨(by decide : -ENOMEM < 0), rfl, rfl⟩
  | true =>
  rw [if_pos rfl]
  cases hp : env.find_get_pid with
  | false => exact ⟨(by decide : -EFAULT < 0), rfl, rfl⟩
  | true =>
  dsimp only
  rw [wp_bind, if_pos rfl, wp_bind, wp_modify, wp_pure, if_pos rfl, wp_bind, wp_get]
  cases hx : env.xa_insert with
  | none => exact absurd ⟨hk, hp, hx⟩ hg
  | some e =>
    rw [if_pos (.inl rfl)]
    exact ⟨(by decide : -ENOMEM < 0), rfl, rfl⟩

theorem bafs_get_ctx_refused {env : CtxEnv} (hg : ¬env.grants) :
    wp (bafs_get_ctx t env) (fun _ => True) (fun q s' => q = none ∧ s'.files = s.files) s := by
  unfold bafs_get_ctx find_get_pid
  rw [wp_bind, wp_kzalloc]
  cases hk : env.kzalloc with
  | false => exact ⟨rfl, rfl⟩
  | true =>
  rw [if_pos rfl]
  cases hp : env.find_get_pid with
  | false => exact ⟨rfl, rfl⟩
  | true =>
  dsimp only
  rw [wp_bind, if_pos rfl, wp_bind, wp_modify, wp_pure, if_pos rfl, wp_bind, wp_get]
  cases hx : env.xa_insert with
  | none => exact absurd ⟨hk, hp, hx⟩ hg
  | some e => exact ⟨rfl, rfl⟩

/-- The end of an open that fails: the reference to the device is put, and no file is added. -/
theorem refused_end {c : Drv Unit} {e : Int} {F : Heap File} (he : e < 0)
    (hc : Preserves (fun _ => True) c State.handles) (hf : s.files = F) :
    wp (do c; pure (e, none)) (fun _ => True)
      (fun (q : Int × Option File) s' => q.1 < 0 ∧ q.2 = none ∧ s'.files = F) s := by
  refine wp.bind (hc s) fun _ s₁ hs₁ => ?_
  have hsame : s₁.files = s.files := congrArg (fun p => p.2.1) hs₁
  exact ⟨he, rfl, hsame.trans hf⟩

theorem bafs_ctrl_open_refused {c : CtrlId} {env : OpenEnv}
    (hg : ¬(env.kzalloc = true ∧ env.ctx.grants)) :
    wp (bafs_ctrl_open c t env) (fun _ => True)
      (fun q s' => q.1 < 0 ∧ q.2 = none ∧ s'.files = s.files) s := by
  unfold bafs_ctrl_open bafs_get_ctrl ctrl_upd
  rw [wp_bind, wp_bind]
  refine wp_load_of (fun _ => trivial) fun x hx => ?_
  rw [wp_modify, wp_bind, wp_kzalloc]
  cases hk : env.kzalloc with
  | false => exact refused_end (by decide : -ENOMEM < 0) (bafs_ctrl_release_handles c) rfl
  | true =>
  refine (bafs_get_ctx_refused fun h => hg ⟨hk, h⟩).bind fun ctx s₁ hs₁ => ?_
  obtain ⟨rfl, hf⟩ := hs₁
  refine wp.bind (R := fun _ s₂ => s₂.files = s.files) hf fun _ s₂ hs₂ => ?_
  exact refused_end (by decide : -EINVAL < 0) (bafs_ctrl_release_handles c) hs₂

theorem bafs_group_open_refused {g : GroupId} {env : OpenEnv}
    (hg : ¬(env.kzalloc = true ∧ env.ctx.grants)) :
    wp (bafs_group_open g t env) (fun _ => True)
      (fun q s' => q.1 < 0 ∧ q.2 = none ∧ s'.files = s.files) s := by
  unfold bafs_group_open bafs_get_group group_upd
  rw [wp_bind, wp_bind]
  refine wp_load_of (fun _ => trivial) fun x hx => ?_
  rw [wp_modify, wp_bind, wp_kzalloc]
  cases hk : env.kzalloc with
  | false => exact refused_end (by decide : -ENOMEM < 0) (bafs_put_group_handles g) rfl
  | true =>
  refine (bafs_get_ctx_refused fun h => hg ⟨hk, h⟩).bind fun ctx s₁ hs₁ => ?_
  obtain ⟨rfl, hf⟩ := hs₁
  refine wp.bind (R := fun _ s₂ => s₂.files = s.files) hf fun _ s₂ hs₂ => ?_
  exact refused_end (by decide : -EINVAL < 0) (bafs_put_group_handles g) hs₂

/-- Where the kernel does not grant what an open needs, it fails, whatever the global table is. -/
theorem step_open_refused (ho : r.opener = some t) (hg : ¬grants s r) :
    wp (step r) (fun _ => True) (fun reply s' => reply.ret < 0 ∧ s'.files = s.files) s := by
  cases r with
  | open_core task env =>
    refine (bafs_core_open_refused hg).bind fun q s₁ hq => ?_
    obtain ⟨ret, x⟩ := q
    obtain ⟨hret, rfl, hf⟩ := hq
    exact ⟨hret, hf⟩
  | open_ctrl c task env =>
    refine wp_ite (fun _ => ⟨(by decide : -EINVAL < 0), rfl⟩) fun hc => ?_
    have hc : (s.ctrls.get c).isSome := Option.isSome_iff_ne_none.mpr (by simpa using hc)
    refine (bafs_ctrl_open_refused fun h => hg ⟨hc, h⟩).bind fun q s₁ hq => ?_
    obtain ⟨ret, x⟩ := q
    obtain ⟨hret, rfl, hf⟩ := hq
    exact ⟨hret, hf⟩
  | open_group g task env =>
    refine wp_ite (fun _ => ⟨(by decide : -EINVAL < 0), rfl⟩) fun hc => ?_
    have hc : (s.groups.get g).isSome := Option.isSome_iff_ne_none.mpr (by simpa using hc)
    refine (bafs_group_open_refused fun h => hg ⟨hc, h⟩).bind fun q s₁ hq => ?_
    obtain ⟨ret, x⟩ := q
    obtain ⟨hret, rfl, hf⟩ := hq
    exact ⟨hret, hf⟩
  | _ => cases ho

/-- What the kernel grants does not depend on the global table. -/
theorem grants_without_entry {n : Nat} : grants (without_entry s n) r ↔ grants s r := by
  cases r <;> rfl

/-! ## The condition -/

theorem Inv.stranger_entry (hi : Inv s) (hs : stranger s t) : ∃ c y,
    s.bafs_global_ctx_xa.lookup t.tgid = some c ∧ s.ctxs.get c = some y ∧
      y.tgid_struct ≠ t.tgid_struct := by
  obtain ⟨c, y, hy, ht, hne⟩ := hs
  obtain ⟨h, -, hat⟩ := hi.sane.at
  exact ⟨c, y, (hat.wf.tables.global t.tgid c).mpr ⟨y, hy, ht⟩, hy, hne⟩

theorem Inv.registered_without (hi : Inv s) {n : Nat} : Registered (without_entry s n) := by
  intro m c hc
  by_cases hmn : m = n
  · rw [hmn, without_entry, AList.lookup_erase] at hc
    cases hc
  · exact hi.registered m c ((AList.lookup_erase_ne hmn).symm.trans hc)

/-- An open that is granted while a context of another process has the number goes wrong: it is refused
if it is of the core device, and shares that context otherwise. -/
theorem not_isolated (hi : Inv s) (ho : r.opener = some t) (hg : grants s r) (hs : stranger s t) :
    ¬isolated s t r := by
  intro hw
  obtain ⟨c, y, hc, hy, hne⟩ := hi.stranger_entry hs
  have hres := step_open_granted (E := fun _ => False) hi.registered ho hg
  have hrec := step_recorded (A := any_call) r s (fun _ _ => trivial) fun _ _ => trivial
  obtain ⟨reply, s', ⟨hres, ⟨-, hctxs⟩⟩, hown, href⟩ :=
    wp_join (wp_and hres hrec) hw fun _ he _ => he
  obtain ⟨hcore, hret, -⟩ | ⟨-, -, x, hx, -, hold⟩ := hres
  · -- without the entry, the core device would be opened
    have hopen := step_open_granted (E := fun _ => False) (hi.registered_without (n := t.tgid)) ho
      (grants_without_entry.mpr hg)
    obtain ⟨reply', s'', hopen, hne'⟩ := wp_join hopen (href hret hs) fun _ he _ => he
    obtain ⟨⟨-, hentry⟩, -⟩ | ⟨-, hret', -⟩ := hopen
    · rw [without_entry, AList.lookup_erase] at hentry
      cases hentry
    · exact hne' hret'
  · obtain ⟨y', hy', hp⟩ := hown x (by rw [hx, Heap.get_alloc, if_pos rfl])
    rw [← hold c hc] at hy'
    obtain hn | ⟨y₀, hy₀, hsame⟩ := hctxs.kept c y' hy'
    · exact absurd (Heap.lt_next_of_get hy) (not_lt.mpr hn)
    · rw [hy] at hy₀
      obtain rfl := Option.some.inj hy₀
      exact hne (hsame.2.trans hp)

theorem isolated_of (hi : Inv s) (ho : r.opener = some t) (hc : grants s r → ¬stranger s t) :
    isolated s t r := by
  obtain ⟨h, hl, hat⟩ := hi.sane.at
  have hopens : r.opens := by
    cases r with
    | open_core | open_ctrl | open_group => trivial
    | _ => cases ho
  have hdone := step_open_spec (E := fun _ => False) hat hl hopens
  by_cases hg : grants s r
  · have hno := hc hg
    have hres := step_open_granted (E := fun _ => True) hi.registered ho hg
    refine wp_mono (wp_and hdone (wp_and hres (step_open_makes ho s))) fun reply s' hs' => ?_
    obtain ⟨⟨h', v', he, hs'⟩, hres, hmade⟩ := hs'
    refine ⟨fun x hx => ?_, fun _ hst => absurd hst hno⟩
    -- the context of the new file is a new one or one of the process
    have hfile : v'.files.get s.files.next = some x := by
      rw [← hs'.view]
      exact hx
    obtain ⟨y, hy⟩ := hs'.ctx_live (CtxHeld.of_file (he.lost hl).nonneg hfile)
    refine ⟨y, hy, ?_⟩
    obtain hp | ⟨y₀, hy₀, hsame⟩ := hmade x.ctx y hy
    · exact hp
    · by_contra hne
      obtain ⟨-, -, hf⟩ | ⟨-, -, z, hz, hentry, -⟩ := hres
      · rw [hf, Heap.get_next] at hx
        cases hx
      · have hzx : z = x := by
          rw [hz, Heap.get_alloc, if_pos rfl] at hx
          exact Option.some.inj hx
        obtain ⟨y', hy', htgid⟩ := (hs'.wf.tables.global t.tgid z.ctx).mp hentry
        rw [hzx, hy] at hy'
        obtain rfl := Option.some.inj hy'
        exact hno ⟨x.ctx, y₀, hy₀, hsame.1.trans htgid, fun hp => hne (hsame.2.symm.trans hp)⟩
  · refine wp_mono (wp_and hdone (step_open_refused ho hg)) fun reply s' hs' => ?_
    obtain ⟨-, hret, hf⟩ := hs'
    refine ⟨fun x hx => ?_, fun _ _ => ?_⟩
    · rw [hf, Heap.get_next] at hx
      cases hx
    · refine wp_mono (step_open_refused ho (mt grants_without_entry.mp hg)) ?_
      intro reply' _ hr'
      exact ne_of_lt hr'.1

theorem isolated_iff (hi : Inv s) (ho : r.opener = some t) :
    isolated s t r ↔ (grants s r → ¬stranger s t) :=
  ⟨fun hw hg hs => not_isolated hi ho hg hs hw, isolated_of hi ho⟩

/-! ## Histories of processes -/

theorem wp_on_driver {E : Fault → Prop} {Q : Reply → World → Prop} {w : World}
    (h : wp (step r) E (fun reply s => Q reply { w with driver := s }) w.driver) :
    wp (on_driver r) E Q w := by
  unfold wp on_driver at *
  cases hr : step r w.driver with
  | error e =>
    rw [hr] at h
    exact h
  | ok q =>
    rw [hr] at h
    exact h

/-- The driver keeps its invariant. -/
def Kept (w w' : World) : Prop := Inv w.driver → Inv w'.driver

instance : IsPreorder World Kept where
  refl _ h := h
  trans _ _ _ h h' hi := h' (h hi)

theorem on_driver_kept : Evolves Kept (on_driver r) := by
  intro w
  by_cases hi : Inv w.driver
  · exact wp_on_driver (wp_mono (step_keeps_inv r hi) fun _ s hs _ => hs)
  · exact wp_on_driver (wp_mono wp_true fun _ s _ h => absurd h hi)

theorem procs_kept {f : World → Heap Process} :
    Evolves Kept (modify fun w => { w with procs := f w } : Prog World Fault Unit) :=
  .modify fun _ h => h

theorem drop_file_kept {f : FileId} : Evolves Kept (drop_file f) :=
  .bind .get fun _ => .ite (.pure _) (.bind on_driver_kept fun _ => .pure _)

theorem act_kept (a : Act) : Evolves Kept (act a) := by
  cases a with
  | spawn tgid => exact .bind .get fun _ => .ite procs_kept (.pure _)
  | fork p tgid =>
    refine .bind .get fun w => ?_
    cases w.procs.get p with
    | none => exact .pure _
    | some x => exact .bind .get fun _ => .ite procs_kept (.pure _)
  | exit p =>
    refine .bind .get fun w => ?_
    cases w.procs.get p with
    | none => exact .pure _
    | some x => exact .bind procs_kept fun _ => .each (fun _ => drop_file_kept) _
  | pass p f q =>
    refine .bind .get fun w => .bind .get fun w' => ?_
    cases w.procs.get p with
    | none => exact .pure _
    | some x =>
      cases w'.procs.get q with
      | none => exact .pure _
      | some y => exact .ite procs_kept (.pure _)
  | open_file p file =>
    refine .bind .get fun w => ?_
    cases w.procs.get p with
    | none => exact .pure _
    | some x =>
      exact .bind .get fun _ => .bind on_driver_kept fun _ => .ite (.pure _) procs_kept
  | close_file p f =>
    refine .bind .get fun w => ?_
    cases w.procs.get p with
    | none => exact .pure _
    | some x => exact .ite (.bind procs_kept fun _ => drop_file_kept) (.pure _)
  | other r => exact .ite (.pure _) (.bind on_driver_kept fun _ => .pure _)

theorem open_request_opener (file : DeviceFile) : (file.open_request t).opener = some t := by
  cases file <;> rfl

/-- In every history, an open by a live process keeps it apart from the others exactly if the kernel
does not grant it or no context that another process made has the number of the process. -/
theorem process_isolation (as : List Act) : Always act (fun _ => True) (fun w : World =>
    ∀ p x (file : DeviceFile), w.procs.get p = some x →
      (isolated w.driver (task_of p x) (file.open_request (task_of p x)) ↔
        (grants w.driver (file.open_request (task_of p x)) → ¬stranger w.driver (task_of p x))))
    as {} := by
  refine always_of_step (I := fun w => Inv w.driver) (fun w a hi => ?_) (fun w hi => ?_) as inv_init
  · exact wp_mono (act_kept a w) fun _ w' hw' => hw' hi
  · intro p x file hp
    exact isolated_iff hi (open_request_opener file)

/-- A process opens the core device, has a child and exits; another process gets its number. -/
def reused_number : List Act :=
  [.other (.bind 0 0x100000 4096), .spawn 7, .open_file 0 (.core granted_ctx), .fork 0 8, .exit 0,
    .spawn 7]

/-- Whether a ctrl file that the process 2 opens gets a context of another process. -/
def gets_other_context (w : World) : Bool :=
  (w.procs.get 2).any fun x =>
    match step (.open_ctrl 0 (task_of 2 x) granted_open) w.driver with
    | .ok (_, s) => (s.files.get w.driver.files.next).any fun y =>
      (s.ctxs.get y.ctx).any fun z => z.tgid_struct ≠ 2
    | .error _ => false

/-- The later process shares the context that its predecessor made. -/
theorem reused_number_shares : ¬Always act (fun _ => True) (fun w : World =>
    ∀ p x (file : DeviceFile), w.procs.get p = some x →
      isolated w.driver (task_of p x) (file.open_request (task_of p x))) reused_number {} := by
  intro ha
  obtain ⟨w, hw, hd⟩ := ha.of_ends (p := gets_other_context) (by decide +kernel)
  unfold gets_other_context at hd
  rw [Option.any_eq_true] at hd
  obtain ⟨x, hx, hd⟩ := hd
  have hown := hw 2 x (.ctrl 0 granted_open) hx
  cases hc : step (.open_ctrl 0 (task_of 2 x) granted_open) w.driver with
  | error e =>
    rw [hc] at hd
    cases hd
  | ok q =>
    rw [hc] at hd
    simp only [Option.any_eq_true] at hd
    obtain ⟨y, hy, z, hz, hne⟩ := hd
    obtain ⟨z', hz', hp⟩ := (wp_ok hown hc).1 y hy
    rw [hz] at hz'
    obtain rfl := Option.some.inj hz'
    rw [hp] at hne
    simp [task_of] at hne

end BafsDriver
