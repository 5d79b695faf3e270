import BafsDriver.Module.Startup
import BafsDriver.Proofs.DmaMapResult
import BafsDriver.Proofs.RegProofs
import BafsDriver.Scenario
import Mathlib.Algebra.Group.Prod
import Mathlib.Algebra.Order.Group.Multiset

/-!
# Opens during initialisation

A device file can be opened as soon as `cdev_add` has been called. The count of the object behind it is
set by `kref_init` at the end of the function that makes it, and `bafs_init` makes
`bafs_global_ctx_xa` after the core device, so an open that comes before is forgotten.

The proof follows one thread at a time. The function that makes the devices holds the object whose
count is still to be set, of which there is at most one, and the references to controllers that it
has taken for a group.
-/

set_option linter.style.nameCheck false

namespace BafsDriver

open Prog Script

variable {E : Fault → Prop} {s₀ s s' : State} {f : Setup} {a : Drvdata}

/-- The count that an object stores. -/
def count_of (s : State) : Drvdata → Option Nat
  | .ctrl c => (s.ctrls.get c).map BafsCtrl.ref
  | .group g => (s.groups.get g).map BafsGroup.ref

/-- The number of files that are open on the device of an object. -/
def files_on (s : State) : Drvdata → Nat
  | .ctrl c => s.files.sum (File.ctrl_refs c)
  | .group g => s.files.sum (File.group_refs g)

/-- The number of files that have been opened since the state `s₀`, where none has been closed. -/
def opened (s₀ s : State) (a : Drvdata) : Nat := files_on s a - files_on s₀ a

/-- What the opens since `s₀` have taken is there: each reference is counted, over those that were
counted before, or over the first one of a new object, and each context is in `bafs_global_ctx_xa`. -/
structure Published (s₀ s : State) : Prop where
  counted : ∀ a, 0 < opened s₀ s a →
    ∃ n, count_of s a = some n ∧ (count_of s₀ a).getD 1 + opened s₀ s a ≤ n
  entered : ∀ c y, s.ctxs.get c = some y → s.bafs_global_ctx_xa.lookup y.tgid = some c

/-- The statement does not write over what an open has written: no file is open on the object whose
count it sets or which it frees, and there is no context yet when it makes the table of contexts. -/
def unopened : Stmt → State → Prop
  | .plain, _ => True
  | .kref_init a, s => files_on s a = 0
  | .kfree a, s => files_on s a = 0
  | .xa_init_flags, s => s.bafs_global_ctx_xa.keys = []

instance (p : Stmt) (s : State) : Decidable (unopened p s) :=
  match p with
  | .plain => inferInstanceAs (Decidable True)
  | .kref_init a => inferInstanceAs (Decidable (files_on s a = 0))
  | .kfree a => inferInstanceAs (Decidable (files_on s a = 0))
  | .xa_init_flags => inferInstanceAs (Decidable (s.bafs_global_ctx_xa.keys = []))

/-! ## What is counted -/

/-- The objects that the function makes. -/
def Setup.makes : Setup → Drvdata → Prop
  | .bafs_group_alloc .., .group _ => True
  | .bafs_ctrl_alloc .., .ctrl _ => True
  | .bafs_init _, .ctrl _ => True
  | _, _ => False

/-- The references among `held` that are to the object. -/
def refs (held : Multiset CtrlId) : Drvdata → Nat
  | .ctrl c => held.count c
  | .group _ => 0

theorem refs_cons_self {held : Multiset CtrlId} {c : CtrlId} :
    refs (c ::ₘ held) (.ctrl c) = refs held (.ctrl c) + 1 := Multiset.count_cons_self c held

theorem refs_cons_ne {held : Multiset CtrlId} {c : CtrlId} (ha : a ≠ .ctrl c) :
    refs (c ::ₘ held) a = refs held a := by
  cases a with
  | ctrl i => exact Multiset.count_cons_of_ne (fun h => ha (congrArg _ h)) held
  | group g => rfl

/-- The count and the number of files of the object `a`, where `o` is the object whose count is not
set yet, and `held` is what the function has taken. -/
inductive Tally (f : Setup) (s₀ : State) (o : Option Drvdata) (held : Multiset CtrlId)
    (a : Drvdata) : Option Nat → Nat → Prop where
  | gone (ho : o ≠ some a) (hr : refs held a = 0) : Tally f s₀ o held a none (files_on s₀ a)
  | unset {k : Nat} (ho : o = some a) (hm : f.makes a) (hnew : count_of s₀ a = none)
      (hr : refs held a = 0) (hk : files_on s₀ a ≤ k) : Tally f s₀ o held a (some 0) k
  | set {n k : Nat} (ho : o ≠ some a) (hn : 0 < n) (hk : files_on s₀ a ≤ k)
      (heq : n + files_on s₀ a = (count_of s₀ a).getD 1 + k + refs held a) :
      Tally f s₀ o held a (some n) k

/-- Each context is in the table of contexts. -/
def Entered (s : State) : Prop :=
  ∀ c y, s.ctxs.get c = some y → s.bafs_global_ctx_xa.lookup y.tgid = some c

/-- The invariant while the function runs that was called in `s₀`. -/
structure Loading (f : Setup) (s₀ : State) (o : Option Drvdata) (held : Multiset CtrlId)
    (s : State) : Prop where
  tally : ∀ a, Tally f s₀ o held a (count_of s a) (files_on s a)
  entered : Entered s
  ctrls_next : s₀.ctrls.next ≤ s.ctrls.next
  groups_next : s₀.groups.next ≤ s.groups.next
  /-- A controller counted its files before. -/
  floor : ∀ c n, count_of s₀ (.ctrl c) = some n → files_on s₀ (.ctrl c) ≤ n

/-- What the invariant reads. -/
def State.openable (s : State) :
    Heap BafsCtx × AList (fun _ : Nat => CtxId) × Heap BafsCtrl × Heap BafsGroup × Heap File :=
  (s.ctxs, s.bafs_global_ctx_xa, s.ctrls, s.groups, s.files)

theorem quiet_openable : Quiet State.openable := by
  constructor <;> intros <;> rfl

theorem files_on_congr (hf : s'.files = s.files) (b : Drvdata) : files_on s' b = files_on s b := by
  cases b with
  | ctrl c => rw [files_on, files_on, hf]
  | group g => rw [files_on, files_on, hf]

theorem Entered.congr (he : Entered s) (hc : s'.ctxs = s.ctxs)
    (hx : s'.bafs_global_ctx_xa = s.bafs_global_ctx_xa) : Entered s' := by
  unfold Entered
  rw [hc, hx]
  exact he

theorem Loading.of_counts {o : Option Drvdata} {held : Multiset CtrlId} (hl : Loading f s₀ o held s)
    (hc : ∀ b, count_of s' b = count_of s b) (hf : ∀ b, files_on s' b = files_on s b)
    (hx : Entered s') (hcn : s.ctrls.next ≤ s'.ctrls.next) (hgn : s.groups.next ≤ s'.groups.next) :
    Loading f s₀ o held s' := by
  refine ⟨fun b => ?_, hx, hl.ctrls_next.trans hcn, hl.groups_next.trans hgn, hl.floor⟩
  rw [hc, hf]
  exact hl.tally b

theorem Loading.congr {o : Option Drvdata} {held : Multiset CtrlId} (hl : Loading f s₀ o held s)
    (he : s'.openable = s.openable) : Loading f s₀ o held s' := by
  unfold State.openable at he
  simp only [Prod.mk.injEq] at he
  obtain ⟨hctxs, hxa, hctrls, hgroups, hfiles⟩ := he
  refine hl.of_counts (fun b => ?_) (files_on_congr hfiles) (hl.entered.congr hctxs hxa) (by rw [hctrls])
    (by rw [hgroups])
  cases b with
  | ctrl c => rw [count_of, count_of, hctrls]
  | group g => rw [count_of, count_of, hgroups]

/-- The step from `s` to `s'` changes the object `a` and its files, and no other. -/
structure Changes (a : Drvdata) (s s' : State) : Prop where
  count : ∀ b, b ≠ a → count_of s' b = count_of s b
  files : ∀ b, b ≠ a → files_on s' b = files_on s b
  ctrls_next : s.ctrls.next ≤ s'.ctrls.next
  groups_next : s.groups.next ≤ s'.groups.next

theorem Tally.congr {o o' : Option Drvdata} {held held' : Multiset CtrlId} {n : Option Nat} {k : Nat}
    (ht : Tally f s₀ o held a n k) (ho : o = some a ↔ o' = some a)
    (hr : refs held' a = refs held a) : Tally f s₀ o' held' a n k := by
  cases ht with
  | gone hne h0 => exact .gone (fun h => hne (ho.mpr h)) (hr.trans h0)
  | unset h hm hnew h0 hk => exact .unset (ho.mp h) hm hnew (hr.trans h0) hk
  | set hne hn hk heq => exact .set (fun h => hne (ho.mpr h)) hn hk (hr ▸ heq)

/-- A step that changes one object has to be followed there only. -/
theorem Loading.change {o o' : Option Drvdata} {held held' : Multiset CtrlId}
    (hl : Loading f s₀ o held s) (hc : Changes a s s') (hx : Entered s')
    (ha : Tally f s₀ o' held' a (count_of s' a) (files_on s' a))
    (ho : ∀ b, b ≠ a → (o = some b ↔ o' = some b))
    (hr : ∀ b, b ≠ a → refs held' b = refs held b) : Loading f s₀ o' held' s' := by
  refine ⟨fun b => ?_, hx, hl.ctrls_next.trans hc.ctrls_next, hl.groups_next.trans hc.groups_next,
    hl.floor⟩
  by_cases hb : b = a
  · exact hb ▸ ha
  · rw [hc.count b hb, hc.files b hb]
    exact (hl.tally b).congr (ho b hb) (hr b hb)

/-- When every count is set, what the opens have taken is there. -/
theorem Loading.published {held : Multiset CtrlId} (hl : Loading f s₀ none held s) :
    Published s₀ s := by
  refine ⟨fun a ha => ?_, hl.entered⟩
  unfold opened at ha ⊢
  have ht := hl.tally a
  generalize hn : count_of s a = n at ht
  generalize hk : files_on s a = k at ht ha
  cases ht with
  | gone ho hr => omega
  | unset ho => cases ho
  | @set n k ho hpos hle heq => exact ⟨n, rfl, by omega⟩

/-- The states in which the functions are called. -/
theorem Loading.start (hs : f.starts s) : Loading f s none 0 s := by
  have hinit : ∀ {α : Type} (H : Heap α), H = {} → ∀ i, H.get i = none := fun H hH i => by
    rw [hH]
    exact Heap.get_empty
  by_cases hu : s = unloaded
  · subst hu
    refine ⟨fun a => ?_, fun c y hy => ?_, le_rfl, le_rfl, fun c n hn => ?_⟩
    · cases a with
      | ctrl c => exact .gone (by simp) rfl
      | group g => exact .gone (by simp) rfl
    · exact absurd hy (by simp [unloaded])
    · exact absurd hn (by simp [unloaded, count_of])
  · obtain ⟨rs, hrs⟩ : ∃ rs, run step rs init = .ok s := by
      cases f with
      | bafs_group_alloc ctrls env => exact hs
      | bafs_ctrl_alloc pdev env => exact hs
      | bafs_init env => exact absurd hs hu
    obtain ⟨h, hl, hwf⟩ := (run_inv hrs).sane
    refine ⟨fun a => ?_, fun c y hy => (hwf.tables.global y.tgid c).mpr ⟨y, hy, rfl⟩, le_rfl, le_rfl,
      fun c n hn => ?_⟩
    · cases hn : count_of s a with
      | none => exact .gone (by simp) (by cases a <;> rfl)
      | some n =>
        refine .set (by simp) ?_ le_rfl ?_
        · cases a with
          | ctrl c =>
            obtain ⟨x, hx, rfl⟩ := Option.map_eq_some_iff.mp hn
            exact hwf.ctrl.pos c x hx
          | group g =>
            obtain ⟨x, hx, rfl⟩ := Option.map_eq_some_iff.mp hn
            exact hwf.group.pos g x hx
        · have hr : refs 0 a = 0 := by cases a <;> rfl
          rw [hn, hr]
          rfl
    · obtain ⟨x, hx, rfl⟩ := Option.map_eq_some_iff.mp hn
      have heq := hwf.ctrl.eq c x hx
      have hnn := hl.nonneg .ctrl c (by simp)
      unfold ctrl_holders at heq
      have hle : s.files.sum (File.ctrl_refs c) ≤ x.ref := by omega
      exact hle

/-! ## Changes of one object -/

theorem count_of_group {H : Heap BafsGroup} {g : GroupId} (hg : ∀ i, i ≠ g → H.get i = s.groups.get i)
    (hs : s'.groups = H) (hc : s'.ctrls = s.ctrls) :
    ∀ b, b ≠ .group g → count_of s' b = count_of s b := by
  intro b hb
  cases b with
  | ctrl c => rw [count_of, count_of, hc]
  | group i => rw [count_of, count_of, hs, hg i fun h => hb (congrArg _ h)]

theorem count_of_ctrl {H : Heap BafsCtrl} {c : CtrlId} (hH : ∀ i, i ≠ c → H.get i = s.ctrls.get i)
    (hs : s'.ctrls = H) (hg : s'.groups = s.groups) :
    ∀ b, b ≠ .ctrl c → count_of s' b = count_of s b := by
  intro b hb
  cases b with
  | ctrl i => rw [count_of, count_of, hs, hH i fun h => hb (congrArg _ h)]
  | group g => rw [count_of, count_of, hg]

/-- A step that replaces, adds or frees a controller. -/
theorem Changes.ctrl {H : Heap BafsCtrl} {c : CtrlId} (hH : ∀ i, i ≠ c → H.get i = s.ctrls.get i)
    (hn : s.ctrls.next ≤ H.next) (hs : s'.ctrls = H) (hg : s'.groups = s.groups)
    (hf : s'.files = s.files) : Changes (.ctrl c) s s' :=
  ⟨count_of_ctrl hH hs hg, fun b _ => files_on_congr hf b, hs ▸ hn, (congrArg Heap.next hg).ge⟩

/-- A step that replaces, adds or frees a group. -/
theorem Changes.group {H : Heap BafsGroup} {g : GroupId}
    (hH : ∀ i, i ≠ g → H.get i = s.groups.get i) (hn : s.groups.next ≤ H.next) (hs : s'.groups = H)
    (hc : s'.ctrls = s.ctrls) (hf : s'.files = s.files) : Changes (.group g) s s' :=
  ⟨count_of_group hH hs hc, fun b _ => files_on_congr hf b, (congrArg Heap.next hc).ge, hs ▸ hn⟩

section Steps

variable {held : Multiset CtrlId} {o : Option Drvdata}

/-- An object that is added has no count yet. -/
theorem Loading.place (hl : Loading f s₀ none held s) (hc : Changes a s s') (hx : Entered s')
    (hf : files_on s' a = files_on s a) (hold : count_of s a = none) (hnew : count_of s' a = some 0)
    (h₀ : count_of s₀ a = none) (hm : f.makes a) : Loading f s₀ (some a) held s' := by
  refine hl.change hc hx ?_ (fun b hb => ?_) fun _ _ => rfl
  · have ht := hl.tally a
    rw [hold] at ht
    rw [hnew, hf]
    generalize files_on s a = k at ht
    cases ht with
    | gone ho hr => exact .unset rfl hm h₀ hr le_rfl
  · simp [Ne.symm hb]

/-- `kref_init`, before which nothing has been opened. -/
theorem Loading.kref_init (hl : Loading f s₀ (some a) held s) (hc : Changes a s s')
    (hx : Entered s') (hf : files_on s' a = files_on s a) (hz : files_on s a = 0)
    (hnew : count_of s' a = some 1) : Loading f s₀ none held s' := by
  refine hl.change hc hx ?_ (fun b hb => ?_) fun _ _ => rfl
  · have ht := hl.tally a
    rw [hnew, hf, hz]
    rw [hz] at ht
    generalize count_of s a = n at ht
    generalize hk : 0 = k at ht
    cases ht with
    | gone ho hr => exact absurd rfl ho
    | unset ho hm h₀ hr hle =>
      refine .set (by simp) (by omega) hle ?_
      rw [h₀, hr]
      simp only [Option.getD_none]
      omega
    | set ho hn hle heq => exact absurd rfl ho
  · simp [Ne.symm hb]

/-- An object that is freed, on which nothing has been opened. -/
theorem Loading.kfree (hl : Loading f s₀ (some a) held s) (hc : Changes a s s') (hx : Entered s')
    (hf : files_on s' a = files_on s a) (hz : files_on s a = 0) (hnew : count_of s' a = none) :
    Loading f s₀ none held s' := by
  refine hl.change hc hx ?_ (fun b hb => ?_) fun _ _ => rfl
  · have ht := hl.tally a
    have hle : files_on s₀ a ≤ files_on s a := by
      generalize count_of s a = n at ht
      generalize files_on s a = k at ht
      cases ht with
      | gone ho hr => exact le_rfl
      | unset ho hm h₀ hr hle => exact hle
      | set ho hn hle heq => exact hle
    have hr : refs held a = 0 := by
      generalize count_of s a = n at ht
      generalize files_on s a = k at ht
      cases ht with
      | gone ho hr => exact hr
      | unset ho hm h₀ hr hle => exact hr
      | set ho hn hle heq => exact absurd rfl ho
    have hk : files_on s' a = files_on s₀ a := by omega
    rw [hnew, hk]
    exact .gone (by simp) hr
  · simp [Ne.symm hb]

/-- A reference to a controller is taken by a function that makes no controllers. -/
theorem Loading.get_ctrl {c : CtrlId} {n : Nat} (hl : Loading f s₀ o held s)
    (hc : Changes (.ctrl c) s s') (hx : Entered s') (hm : ¬f.makes (.ctrl c))
    (hf : files_on s' (.ctrl c) = files_on s (.ctrl c)) (hold : count_of s (.ctrl c) = some n)
    (hnew : count_of s' (.ctrl c) = some (n + 1)) : Loading f s₀ o (c ::ₘ held) s' := by
  refine hl.change hc hx ?_ (fun _ _ => Iff.rfl) fun b hb => ?_
  · have ht := hl.tally (.ctrl c)
    rw [hold] at ht
    rw [hnew, hf]
    generalize files_on s (.ctrl c) = k at ht
    cases ht with
    | unset ho h => exact absurd h hm
    | set ho hn hk heq =>
      refine .set ho (Nat.succ_pos n) hk ?_
      rw [refs_cons_self]
      omega
  · exact refs_cons_ne hb

/-- A reference to a controller is given back. -/
theorem Loading.put_ctrl {c : CtrlId} {n : Nat} (hl : Loading f s₀ o (c ::ₘ held) s)
    (hc : Changes (.ctrl c) s s') (hx : Entered s')
    (hf : files_on s' (.ctrl c) = files_on s (.ctrl c)) (hold : count_of s (.ctrl c) = some n)
    (hnew : count_of s' (.ctrl c) = if n = 1 then none else some (n - 1)) :
    Loading f s₀ o held s' := by
  refine hl.change hc hx ?_ (fun _ _ => Iff.rfl) fun b hb => ?_
  · have ht := hl.tally (.ctrl c)
    have hrefs : refs (c ::ₘ held) (.ctrl c) = refs held (.ctrl c) + 1 := refs_cons_self
    have hfloor := hl.floor c
    rw [hold] at ht
    rw [hnew, hf]
    generalize hk' : files_on s (.ctrl c) = k at ht
    cases ht with
    | unset ho hm h₀ hr => omega
    | set ho hn hk heq =>
      have hbase : files_on s₀ (.ctrl c) ≤ (count_of s₀ (.ctrl c)).getD 1 ∨
          count_of s₀ (.ctrl c) = none := by
        cases h₀ : count_of s₀ (.ctrl c) with
        | none => exact .inr rfl
        | some b => exact .inl (hfloor b h₀)
      have hbase' : count_of s₀ (.ctrl c) = none → (count_of s₀ (.ctrl c)).getD 1 = 1 := fun h => by
        rw [h]
        rfl
      by_cases h1 : n = 1
      · rw [if_pos h1]
        have hkeq : k = files_on s₀ (.ctrl c) := by
          rcases hbase with hle | hnone
          · omega
          · have := hbase' hnone
            omega
        rw [hkeq]
        refine .gone ho ?_
        rcases hbase with hle | hnone
        · omega
        · have := hbase' hnone
          omega
      · rw [if_neg h1]
        exact .set ho (by omega) hk (by omega)
  · exact (refs_cons_ne hb).symm

/-- An open that succeeds takes a reference, unless it comes before the count is set. -/
theorem Loading.open {n : Nat} (hl : Loading f s₀ o held s) (hc : Changes a s s') (hx : Entered s')
    (hf : files_on s' a = files_on s a + 1) (hold : count_of s a = some n)
    (hnew : count_of s' a = some (refcount_inc n)) : Loading f s₀ o held s' := by
  refine hl.change hc hx ?_ (fun _ _ => Iff.rfl) fun _ _ => rfl
  have ht := hl.tally a
  rw [hold] at ht
  rw [hnew, hf]
  generalize files_on s a = k at ht
  unfold refcount_inc
  cases ht with
  | unset ho hm h₀ hr hk =>
    rw [if_pos rfl]
    exact .unset ho hm h₀ hr (by omega)
  | set ho hn hk heq =>
    rw [if_neg (by omega)]
    exact .set ho (by omega) (by omega) (by omega)

end Steps

/-! ## Opens -/

/-- The objects that are counted, and the files. -/
def State.counters (s : State) : Heap BafsCtrl × Heap BafsGroup × Heap File :=
  (s.ctrls, s.groups, s.files)

theorem Entered.keep (he : Entered s) (hs : s'.openable = s.openable) :
    Entered s' ∧ s'.counters = s.counters := by
  have hctxs : s'.ctxs = s.ctxs := congrArg (fun x => x.1) hs
  have hxa : s'.bafs_global_ctx_xa = s.bafs_global_ctx_xa := congrArg (fun x => x.2.1) hs
  exact ⟨he.congr hctxs hxa, congrArg (fun x => x.2.2) hs⟩

/-- A new context is entered. -/
theorem publish_ctx_entered {x : BafsCtx} (he : Entered s)
    (hn : s.bafs_global_ctx_xa.lookup x.tgid = none) :
    wp (publish_ctx x) E (fun _ s' => Entered s' ∧ s'.counters = s.counters) s := by
  refine ⟨fun c y hy => ?_, rfl⟩
  rcases Heap.get_alloc_cases hy with hnew | hold
  · obtain ⟨rfl, rfl⟩ := hnew
    exact AList.lookup_insert _
  · have hin := he c y hold
    have hne : y.tgid ≠ x.tgid := fun h => by
      rw [h, hn] at hin
      cases hin
    exact (AList.lookup_insert_ne hne).trans hin

/-- A context that is found or made is entered; a failure changes nothing of what is counted. -/
theorem bafs_get_ctx_entered {task : Task} {env : CtxEnv} (he : Entered s) :
    wp (bafs_get_ctx task env) (fun _ => True) (fun r s' => Entered s' ∧ s'.counters = s.counters ∧
      (r = none → s'.openable = s.openable)) s := by
  unfold bafs_get_ctx
  rw [wp_bind]
  refine wp_mono (kzalloc_quiet quiet_openable env.kzalloc s) fun b s₁ h₁ => ?_
  have hfail : ∀ t : State, t.openable = s.openable → Entered t ∧ t.counters = s.counters ∧
      ((none : Option CtxId) = none → t.openable = s.openable) := fun t ht => by
    obtain ⟨hx, hc⟩ := he.keep ht
    exact ⟨hx, hc, fun _ => ht⟩
  cases b with
  | none => exact hfail s₁ h₁
  | some blk =>
  refine (find_get_pid_quiet quiet_openable env.find_get_pid task s₁).bind fun ok s₂ h₂ => ?_
  have h₂ := h₂.trans h₁
  refine wp_ite (fun _ => ?_) fun _ => ?_
  · rw [wp_bind, wp_get]
    cases env.xa_insert with
    | some e =>
      rw [wp_bind]
      exact wp_mono (kfree_quiet quiet_openable blk s₂) fun _ s₃ h₃ => hfail s₃ (h₃.trans h₂)
    | none =>
      obtain ⟨hx₂, hc₂⟩ := he.keep h₂
      cases hn : s₂.bafs_global_ctx_xa.lookup task.tgid with
      | none =>
        dsimp only
        rw [wp_bind]
        refine wp_mono (publish_ctx_entered hx₂ (by exact hn)) fun c s₃ h₃ => ?_
        exact ⟨h₃.1, h₃.2.trans hc₂, fun h => nomatch h⟩
      | some c =>
        dsimp only
        unfold ctx_kref_get ctx_upd ctx_at
        rw [wp_bind, wp_bind]
        refine wp_load_of (fun _ => trivial) fun y hy => ?_
        refine ⟨fun i z hz => ?_, hc₂, fun h => nomatch h⟩
        rcases Heap.get_set_cases hy hz with hself | hother
        · obtain ⟨rfl, rfl⟩ := hself
          exact hx₂ i y hy
        · exact hx₂ i z hother.2
  · rw [wp_bind]
    exact wp_mono (kfree_quiet quiet_openable blk s₂) fun _ s₃ h₃ => hfail s₃ (h₃.trans h₂)

theorem bafs_core_open_entered {task : Task} {env : CtxEnv} (he : Entered s) :
    wp (bafs_core_open task env) E (fun _ s' => Entered s' ∧ s'.counters = s.counters) s := by
  unfold bafs_core_open
  rw [wp_bind]
  refine wp_mono (kzalloc_quiet quiet_openable env.kzalloc s) fun b s₁ h₁ => ?_
  cases b with
  | none => exact he.keep h₁
  | some blk =>
  refine (find_get_pid_quiet quiet_openable env.find_get_pid task s₁).bind fun ok s₂ h₂ => ?_
  have h₂ := h₂.trans h₁
  refine wp_ite (fun _ => ?_) fun _ => ?_
  · rw [wp_bind, wp_get]
    refine wp_ite (fun _ => ?_) fun hn => ?_
    · refine (put_pid_quiet quiet_openable task.tgid_struct s₂).bind fun _ s₃ h₃ => ?_
      rw [wp_bind]
      exact wp_mono (kfree_quiet quiet_openable blk s₃) fun _ s₄ h₄ =>
        he.keep (h₄.trans (h₃.trans h₂))
    · rw [not_or] at hn
      obtain ⟨hx₂, hc₂⟩ := he.keep h₂
      rw [wp_bind]
      refine wp_mono (publish_ctx_entered hx₂ (Option.not_isSome_iff_eq_none.mp hn.2))
        fun c s₃ h₃ => ?_
      exact ⟨h₃.1, h₃.2.trans hc₂⟩
  · rw [wp_bind]
    exact wp_mono (kfree_quiet quiet_openable blk s₂) fun _ s₃ h₃ => he.keep (h₃.trans h₂)

/-- The put that follows the get of an open that fails. -/
theorem refcount_inc_undone {n : Nat} :
    refcount_inc n ≠ 1 ∧ refcount_inc n - 1 = n := by
  unfold refcount_inc
  by_cases hn : n = 0
  · rw [if_pos hn]
    omega
  · rw [if_neg hn]
    omega

/-- The state when the count of a controller has been raised. -/
def State.ctrl_up (s : State) (c : CtrlId) (x : BafsCtrl) : State :=
  { s with ctrls := s.ctrls.set c { x with ref := refcount_inc x.ref } }

/-- The state when the count of a group has been raised. -/
def State.group_up (s : State) (g : GroupId) (x : BafsGroup) : State :=
  { s with groups := s.groups.set g { x with ref := refcount_inc x.ref } }

theorem ctrl_put_undone {t : State} {c : CtrlId} {x : BafsCtrl} (hx : s.ctrls.get c = some x)
    (ht : t.openable = (s.ctrl_up c x).openable) :
    wp (bafs_ctrl_release c) E (fun _ s' => s'.openable = s.openable) t := by
  obtain ⟨hne, hback⟩ := refcount_inc_undone (n := x.ref)
  have hctrls : t.ctrls = (s.ctrl_up c x).ctrls := congrArg (fun x => x.2.2.1) ht
  have hget : t.ctrls.get c = some { x with ref := refcount_inc x.ref } := by
    rw [hctrls]
    exact Heap.get_set_self hx
  refine (wp_ctrl_release_kept hget hne).mpr ?_
  unfold State.openable at ht ⊢
  simp only [Prod.mk.injEq] at ht ⊢
  refine ⟨ht.1, ht.2.1, ?_, ht.2.2.2⟩
  rw [hctrls]
  unfold State.ctrl_up
  rw [Heap.set_set]
  simp only [hback]
  exact Heap.set_self hx

theorem group_put_undone {t : State} {g : GroupId} {x : BafsGroup} (hx : s.groups.get g = some x)
    (ht : t.openable = (s.group_up g x).openable) :
    wp (bafs_put_group g) E (fun _ s' => s'.openable = s.openable) t := by
  obtain ⟨hne, hback⟩ := refcount_inc_undone (n := x.ref)
  have hgroups : t.groups = (s.group_up g x).groups := congrArg (fun x => x.2.2.2.1) ht
  have hget : t.groups.get g = some { x with ref := refcount_inc x.ref } := by
    rw [hgroups]
    exact Heap.get_set_self hx
  unfold bafs_put_group
  rw [wp_bind, debug_group_live hget, wp_bind, wp_group_at hget, wp_bind, wp_group_upd hget,
    if_neg hne]
  refine (debug_group_live (Heap.get_set_self hget)).mpr ?_
  unfold State.openable at ht ⊢
  simp only [Prod.mk.injEq] at ht ⊢
  refine ⟨ht.1, ht.2.1, ht.2.2.1, ?_, ht.2.2.2.2⟩
  rw [hgroups]
  unfold State.group_up
  rw [Heap.set_set]
  simp only [hback]
  exact Heap.set_self hx

/-- The rest of an open of a controller: it fails and gives its reference back, or leaves it to the
file. -/
theorem ctrl_open_rest_kept {c : CtrlId} {x : BafsCtrl} {task : Task} {env : OpenEnv}
    (he : Entered s) (hx : s.ctrls.get c = some x) :
    wp (ctrl_open_rest c task env) (fun _ => True) (fun r s' =>
      (r.2 = none ∧ s'.openable = s.openable) ∨ (∃ y, r.2 = some (.ctrl y) ∧ y.ctrl = c ∧
        Entered s' ∧ s'.counters = (s.ctrl_up c x).counters)) (s.ctrl_up c x) := by
  unfold ctrl_open_rest
  refine (kzalloc_quiet quiet_openable env.kzalloc _).bind fun b s₁ h₁ => ?_
  cases b with
  | none => exact (ctrl_put_undone hx h₁).bind fun _ s₂ h₂ => .inl ⟨rfl, h₂⟩
  | some blk =>
  obtain ⟨he₁, hc₁⟩ := Entered.keep (s := s.ctrl_up c x) he h₁
  refine (bafs_get_ctx_entered he₁).bind fun r s₂ h₂ => ?_
  obtain ⟨he₂, hc₂, hnone⟩ := h₂
  cases r with
  | none =>
    have h₂ := (hnone rfl).trans h₁
    refine (kfree_quiet quiet_openable blk s₂).bind fun _ s₃ h₃ => ?_
    exact (ctrl_put_undone hx (h₃.trans h₂)).bind fun _ s₄ h₄ => .inl ⟨rfl, h₄⟩
  | some ctx => exact .inr ⟨_, rfl, rfl, he₂, hc₂.trans hc₁⟩

theorem group_open_rest_kept {g : GroupId} {x : BafsGroup} {task : Task} {env : OpenEnv}
    (he : Entered s) (hx : s.groups.get g = some x) :
    wp (group_open_rest g task env) (fun _ => True) (fun r s' =>
      (r.2 = none ∧ s'.openable = s.openable) ∨ (∃ y, r.2 = some (.group y) ∧ y.group = g ∧
        Entered s' ∧ s'.counters = (s.group_up g x).counters)) (s.group_up g x) := by
  unfold group_open_rest
  refine (kzalloc_quiet quiet_openable env.kzalloc _).bind fun b s₁ h₁ => ?_
  cases b with
  | none => exact (group_put_undone hx h₁).bind fun _ s₂ h₂ => .inl ⟨rfl, h₂⟩
  | some blk =>
  obtain ⟨he₁, hc₁⟩ := Entered.keep (s := s.group_up g x) he h₁
  refine (bafs_get_ctx_entered he₁).bind fun r s₂ h₂ => ?_
  obtain ⟨he₂, hc₂, hnone⟩ := h₂
  cases r with
  | none =>
    have h₂ := (hnone rfl).trans h₁
    refine (kfree_quiet quiet_openable blk s₂).bind fun _ s₃ h₃ => ?_
    exact (group_put_undone hx (h₃.trans h₂)).bind fun _ s₄ h₄ => .inl ⟨rfl, h₄⟩
  | some ctx => exact .inr ⟨_, rfl, rfl, he₂, hc₂.trans hc₁⟩

/-- The references of a new file to the object. -/
def File.refs_to (x : File) : Drvdata → Nat
  | .ctrl c => x.ctrl_refs c
  | .group g => x.group_refs g

theorem files_on_alloc {x : File} (hf : s'.files = s.files.alloc x) (b : Drvdata) :
    files_on s' b = files_on s b + x.refs_to b := by
  cases b with
  | ctrl c =>
    rw [files_on, files_on, hf, Heap.sum_alloc]
    rfl
  | group g =>
    rw [files_on, files_on, hf, Heap.sum_alloc]
    rfl

/-- An open of a device file keeps the invariant. -/
theorem open_device_loading {o : Option Drvdata} {held : Multiset CtrlId}
    (hl : Loading f s₀ o held s) (r : Opening) :
    wp (open_device r) (fun _ => True) (fun _ s' => Loading f s₀ o held s') s := by
  cases r with
  | core task env =>
    unfold open_device
    rw [wp_bind, wp_get]
    refine wp_ite (fun _ => ?_) fun _ => hl
    refine (bafs_core_open_entered hl.entered).bind fun r s₁ h₁ => ?_
    obtain ⟨he, hc⟩ := h₁
    unfold State.counters at hc
    simp only [Prod.mk.injEq] at hc
    obtain ⟨hctrls, hgroups, hfiles⟩ := hc
    have hcount : ∀ t : State, t.ctrls = s₁.ctrls → t.groups = s₁.groups →
        ∀ b, count_of t b = count_of s b := fun t hc hg b => by
      cases b with
      | ctrl c => rw [count_of, count_of, hc, hctrls]
      | group g => rw [count_of, count_of, hg, hgroups]
    have hcn := (congrArg Heap.next hctrls).ge
    have hgn := (congrArg Heap.next hgroups).ge
    obtain ⟨ret, ctx⟩ := r
    cases ctx with
    | none => exact hl.of_counts (hcount _ rfl rfl) (files_on_congr hfiles) he hcn hgn
    | some c =>
      -- a core file refers to no controller and to no group
      refine hl.of_counts (hcount _ rfl rfl) (fun b => ?_) he hcn hgn
      rw [files_on_alloc (s := s) (x := .core c) (by rw [← hfiles])]
      cases b <;> rfl
  | ctrl c task env =>
    unfold open_device
    rw [wp_bind, wp_get]
    cases hx : s.ctrls.get c with
    | none => exact hl
    | some x =>
    refine wp_ite (fun _ => ?_) fun _ => hl
    rw [wp_bind, wp_ctrl_upd hx]
    refine (ctrl_open_rest_kept hl.entered hx).bind fun r s₁ h₁ => ?_
    obtain ⟨ret, file⟩ := r
    rcases h₁ with ⟨hr, hs⟩ | ⟨y, hr, rfl, he, hc⟩
    · obtain rfl : file = none := hr
      exact hl.congr hs
    · obtain rfl : file = some (.ctrl y) := hr
      unfold State.counters State.ctrl_up at hc
      simp only [Prod.mk.injEq] at hc
      obtain ⟨hctrls, hgroups, hfiles⟩ := hc
      let t : State := { s₁ with files := s₁.files.alloc (.ctrl y) }
      have hfiles' : ∀ b, files_on t b = files_on s b + (File.ctrl y).refs_to b :=
        files_on_alloc (congrArg (·.alloc (.ctrl y)) hfiles)
      show Loading f s₀ o held t
      refine hl.open (a := .ctrl y.ctrl) (n := x.ref) ⟨?_, fun b hb => ?_, ?_, ?_⟩ he ?_ ?_ ?_
      · exact count_of_ctrl (fun i hi => Heap.get_set_ne hi) hctrls hgroups
      · rw [hfiles' b]
        cases b with
        | ctrl i =>
          have hi : y.ctrl ≠ i := fun h => hb (congrArg Drvdata.ctrl h.symm)
          simp [File.refs_to, File.ctrl_refs, hi]
        | group g => rfl
      · show s.ctrls.next ≤ s₁.ctrls.next
        rw [hctrls, Heap.next_set]
      · exact (congrArg Heap.next hgroups).ge
      · rw [hfiles']
        simp [File.refs_to, File.ctrl_refs]
      · simp [count_of, hx]
      · show (s₁.ctrls.get y.ctrl).map BafsCtrl.ref = _
        rw [hctrls, Heap.get_set_self hx]
        rfl
  | group g task env =>
    unfold open_device
    rw [wp_bind, wp_get]
    cases hx : s.groups.get g with
    | none => exact hl
    | some x =>
    refine wp_ite (fun _ => ?_) fun _ => hl
    rw [wp_bind, wp_group_upd hx]
    refine (group_open_rest_kept hl.entered hx).bind fun r s₁ h₁ => ?_
    obtain ⟨ret, file⟩ := r
    rcases h₁ with ⟨hr, hs⟩ | ⟨y, hr, rfl, he, hc⟩
    · obtain rfl : file = none := hr
      exact hl.congr hs
    · obtain rfl : file = some (.group y) := hr
      unfold State.counters State.group_up at hc
      simp only [Prod.mk.injEq] at hc
      obtain ⟨hctrls, hgroups, hfiles⟩ := hc
      let t : State := { s₁ with files := s₁.files.alloc (.group y) }
      have hfiles' : ∀ b, files_on t b = files_on s b + (File.group y).refs_to b :=
        files_on_alloc (congrArg (·.alloc (.group y)) hfiles)
      show Loading f s₀ o held t
      refine hl.open (a := .group y.group) (n := x.ref) ⟨?_, fun b hb => ?_, ?_, ?_⟩ he ?_ ?_ ?_
      · exact count_of_group (fun i hi => Heap.get_set_ne hi) hgroups hctrls
      · rw [hfiles' b]
        cases b with
        | ctrl c => rfl
        | group i =>
          have hi : y.group ≠ i := fun h => hb (congrArg Drvdata.group h.symm)
          simp [File.refs_to, File.group_refs, hi]
      · exact (congrArg Heap.next hctrls).ge
      · show s.groups.next ≤ s₁.groups.next
        rw [hgroups, Heap.next_set]
      · rw [hfiles']
        simp [File.refs_to, File.group_refs]
      · simp [count_of, hx]
      · show (s₁.groups.get y.group).map BafsGroup.ref = _
        rw [hgroups, Heap.get_set_self hx]
        rfl

/-! ## The statements -/

/-- What a thread holds: the object whose count it has not set yet, under a mark that only one thread
has, and references to controllers. -/
abbrev Taken := Multiset (Option Drvdata) × Multiset CtrlId

/-- The function between two objects, or before `kref_init` of one. -/
def running (o : Option Drvdata) (held : Multiset CtrlId) : Taken := ({o}, held)

/-- The invariant of all threads. -/
def Shared (f : Setup) (s₀ : State) (h : Taken) (s : State) : Prop :=
  ∃ o, h.1 = {o} ∧ Loading f s₀ o h.2 s

/-- The script keeps the invariant at each statement. -/
abbrev LoadSafe {α : Type} (f : Setup) (s₀ : State) (Q : α → Taken → Prop) (t : Steps α) (h : Taken) :
    Prop :=
  Safe (Shared f s₀) unopened (fun _ => True) Q t h

theorem singleton_of_add {α : Type} {H : Multiset α} {x y : α}
    (h : H + ({x} : Multiset α) = ({y} : Multiset α)) :
    H = 0 ∧ x = y := by
  have hcard := congrArg Multiset.card h
  rw [Multiset.card_add, Multiset.card_singleton, Multiset.card_singleton] at hcard
  have hH : H = 0 := Multiset.card_eq_zero.mp (by omega)
  rw [hH, zero_add] at h
  exact ⟨hH, Multiset.singleton_inj.mp h⟩

/-- The thread that has the mark knows the object whose count is not set. -/
theorem Shared.running {H : Taken} {o : Option Drvdata} {held : Multiset CtrlId}
    (h : Shared f s₀ (H + BafsDriver.running o held) s) :
    H.1 = 0 ∧ Loading f s₀ o (H.2 + held) s := by
  obtain ⟨o', ho, hl⟩ := h
  obtain ⟨hH, rfl⟩ := singleton_of_add (H := H.1) ho
  exact ⟨hH, hl⟩

theorem Shared.of_loading {H : Taken} {o : Option Drvdata} {held : Multiset CtrlId} (hH : H.1 = 0)
    (hl : Loading f s₀ o (H.2 + held) s) : Shared f s₀ (H + BafsDriver.running o held) s := by
  refine ⟨o, ?_, hl⟩
  show H.1 + ({o} : Multiset (Option Drvdata)) = {o}
  rw [hH, zero_add]

section Scripts

variable {α β : Type} {Q : α → Taken → Prop} {h : Taken} {held : Multiset CtrlId}
  {o : Option Drvdata}

/-- A statement that changes nothing of what the invariant reads. -/
theorem kept_stmt {c : Drv β} {k : β → Steps α} (hc : Preserves (fun _ => True) c State.openable)
    (hk : ∀ b, LoadSafe f s₀ Q (k b) h) : LoadSafe f s₀ Q (stmt c >>= k) h := by
  refine Safe.bind (Q := fun _ h' => h' = h) (safe_single fun H s hs _ => ?_) fun b h' hh => hh ▸ hk b
  refine wp_mono (hc s) fun b s' he => ?_
  obtain ⟨o, ho, hl⟩ := hs
  exact ⟨h, ⟨o, ho, hl.congr he⟩, rfl⟩

/-- A statement of the function that moves the invariant. -/
theorem kept_single {p : Stmt} {c : Drv β} {k : β → Steps α} {q : Option Drvdata}
    {l : Multiset CtrlId}
    (hc : ∀ H s, Loading f s₀ o (H + held) s → unopened p s →
      wp c (fun _ => True) (fun _ s' => Loading f s₀ q (H + l) s') s)
    (hk : ∀ b, LoadSafe f s₀ Q (k b) (running q l)) :
    LoadSafe f s₀ Q (single p c >>= k) (running o held) := by
  refine Safe.bind (Q := fun _ h₁ => h₁ = running q l) (safe_single fun H s hs hp => ?_)
    fun b _ hb => hb ▸ hk b
  obtain ⟨hH, hl⟩ := hs.running
  refine wp_mono (hc H.2 s hl hp) fun b s' hb => ?_
  exact ⟨_, .of_loading hH hb, rfl⟩

theorem put_device_openable (d : DeviceId) :
    Preserves (fun _ => True) (put_device d) State.openable :=
  put_device_keeps (fun _ _ => rfl) d

theorem device_find_child_openable (name : Name) :
    Preserves (fun _ => True) (device_find_child_by_name name) State.openable := by
  refine .bind .get fun s => ?_
  cases find_child s name with
  | none => exact .pure _
  | some d => exact .bind (device_upd_keeps (fun _ _ => rfl) d _) fun _ => .pure _

theorem get_ctrl_id_openable (fail : Option Errno) :
    Preserves (fun _ => True) (get_ctrl_id fail) State.openable := by
  refine .bind .get fun s => ?_
  cases ida_simple_get s.bafs_ctrl_ida fail with
  | error e => exact .pure _
  | ok n => exact .bind (.modify fun _ => rfl) fun _ => .pure _

theorem get_group_id_openable (fail : Option Errno) :
    Preserves (fun _ => True) (get_group_id fail) State.openable := by
  refine .bind .get fun s => ?_
  cases ida_simple_get s.bafs_group_ida fail with
  | error e => exact .pure _
  | ok n => exact .bind (.modify fun _ => rfl) fun _ => .pure _

end Scripts

/-! ### Controllers -/

section Statements

variable {held : Multiset CtrlId} {o : Option Drvdata} {c : CtrlId} {g : GroupId}

theorem place_ctrl_loading {blk : BlockId} {pdev : PciDev} {minor ctrl_id : Nat}
    (hl : Loading f s₀ none held s) (hm : ∀ c, f.makes (.ctrl c)) :
    wp (place_ctrl blk pdev minor ctrl_id) E
      (fun c s' => Loading f s₀ (some (.ctrl c)) held s') s := by
  unfold place_ctrl
  rw [wp_bind, wp_get, wp_bind, wp_modify, wp_pure]
  have hold : s₀.ctrls.get s.ctrls.next = none := by
    by_contra hne
    obtain ⟨x, hx⟩ := Option.ne_none_iff_exists'.mp hne
    exact absurd (Heap.lt_next_of_get hx) (Nat.not_lt.mpr hl.ctrls_next)
  refine hl.place (.ctrl (fun i hi => ?_) (by rw [Heap.next_alloc]; exact Nat.le_succ _) rfl rfl rfl)
    hl.entered (files_on_congr rfl _) ?_ ?_ ?_ (hm _)
  · rw [Heap.get_alloc, if_neg hi]
  · rw [count_of, Heap.get_next]
    rfl
  · rw [count_of, Heap.get_alloc, if_pos rfl]
    rfl
  · rw [count_of, hold]
    rfl

theorem place_group_loading {gblk cblk : BlockId} {group_id minor : Nat} {ctrls : List CtrlId}
    (hl : Loading f s₀ none held s) (hm : ∀ g, f.makes (.group g)) :
    wp (place_group gblk cblk group_id minor ctrls) E
      (fun g s' => Loading f s₀ (some (.group g)) held s') s := by
  unfold place_group
  rw [wp_bind, wp_get, wp_bind, wp_modify, wp_pure]
  have hold : s₀.groups.get s.groups.next = none := by
    by_contra hne
    obtain ⟨x, hx⟩ := Option.ne_none_iff_exists'.mp hne
    exact absurd (Heap.lt_next_of_get hx) (Nat.not_lt.mpr hl.groups_next)
  refine hl.place (.group (fun i hi => ?_) (by rw [Heap.next_alloc]; exact Nat.le_succ _) rfl rfl rfl)
    hl.entered (files_on_congr rfl _) ?_ ?_ ?_ (hm _)
  · rw [Heap.get_alloc, if_neg hi]
  · rw [count_of, Heap.get_next]
    rfl
  · rw [count_of, Heap.get_alloc, if_pos rfl]
    rfl
  · rw [count_of, hold]
    rfl

/-- A step that replaces a controller, and the count that it leaves. -/
theorem changes_set_ctrl {x : BafsCtrl} (hx : s.ctrls.get c = some x) (x' : BafsCtrl) :
    Changes (.ctrl c) s { s with ctrls := s.ctrls.set c x' } ∧
      count_of { s with ctrls := s.ctrls.set c x' } (.ctrl c) = some x'.ref := by
  constructor
  · exact .ctrl (fun i hi => Heap.get_set_ne hi) (by rw [Heap.next_set]) rfl rfl rfl
  · rw [count_of, Heap.get_set_self hx]
    rfl

theorem changes_set_group {x : BafsGroup} (hx : s.groups.get g = some x) (x' : BafsGroup) :
    Changes (.group g) s { s with groups := s.groups.set g x' } ∧
      count_of { s with groups := s.groups.set g x' } (.group g) = some x'.ref := by
  constructor
  · exact .group (fun i hi => Heap.get_set_ne hi) (by rw [Heap.next_set]) rfl rfl rfl
  · rw [count_of, Heap.get_set_self hx]
    rfl

/-- An update that leaves the count of its object. -/
theorem Loading.keeps_count (hl : Loading f s₀ o held s) {a : Drvdata} (hc : Changes a s s')
    (hcount : count_of s' a = count_of s a) (hf : s'.files = s.files) (hx : Entered s') :
    Loading f s₀ o held s' := by
  refine hl.of_counts (fun b => ?_) (files_on_congr hf) hx hc.ctrls_next hc.groups_next
  by_cases hb : b = a
  · exact hb ▸ hcount
  · exact hc.count b hb

theorem ctrl_device_loading {cls name : Name} (hl : Loading f s₀ o held s) :
    wp (do let device ← device_create cls name (.ctrl c); ctrl_upd c fun x => { x with device })
      (fun _ => True) (fun _ s' => Loading f s₀ o held s') s := by
  rw [wp_bind]
  show wp (ctrl_upd c _) _ _ _
  unfold ctrl_upd ctrl_at
  rw [wp_bind]
  refine wp_load_of (fun _ => trivial) fun x hx => ?_
  have hs : s.ctrls.get c = some x := hx
  obtain ⟨hc, hn⟩ := changes_set_ctrl hs { x with device := s.devices.next }
  refine Loading.congr (hl.keeps_count hc ?_ rfl hl.entered) rfl
  rw [hn, count_of, hs]
  rfl

theorem group_device_loading {cls name : Name} (hl : Loading f s₀ o held s) :
    wp (do let device ← device_create cls name (.group g); group_upd g fun x => { x with device })
      (fun _ => True) (fun _ s' => Loading f s₀ o held s') s := by
  rw [wp_bind]
  show wp (group_upd g _) _ _ _
  unfold group_upd group_at
  rw [wp_bind]
  refine wp_load_of (fun _ => trivial) fun x hx => ?_
  have hs : s.groups.get g = some x := hx
  obtain ⟨hc, hn⟩ := changes_set_group hs { x with device := s.devices.next }
  refine Loading.congr (hl.keeps_count hc ?_ rfl hl.entered) rfl
  rw [hn, count_of, hs]
  rfl

theorem ctrl_kref_init_loading (hl : Loading f s₀ (some (.ctrl c)) held s)
    (hz : files_on s (.ctrl c) = 0) :
    wp (ctrl_upd c fun x => { x with ref := 1 }) (fun _ => True)
      (fun _ s' => Loading f s₀ none held s') s := by
  unfold ctrl_upd ctrl_at
  rw [wp_bind]
  refine wp_load_of (fun _ => trivial) fun x hx => ?_
  obtain ⟨hc, hn⟩ := changes_set_ctrl hx { x with ref := 1 }
  exact hl.kref_init hc hl.entered (files_on_congr rfl _) hz hn

theorem group_kref_init_loading (hl : Loading f s₀ (some (.group g)) held s)
    (hz : files_on s (.group g) = 0) :
    wp (group_upd g fun x => { x with ref := 1 }) (fun _ => True)
      (fun _ s' => Loading f s₀ none held s') s := by
  unfold group_upd group_at
  rw [wp_bind]
  refine wp_load_of (fun _ => trivial) fun x hx => ?_
  obtain ⟨hc, hn⟩ := changes_set_group hx { x with ref := 1 }
  exact hl.kref_init hc hl.entered (files_on_congr rfl _) hz hn

theorem ctrl_kfree_loading {blk : BlockId} (hl : Loading f s₀ (some (.ctrl c)) held s)
    (hz : files_on s (.ctrl c) = 0) :
    wp (do modify fun s : State => { s with ctrls := s.ctrls.free c }; kfree blk) E
      (fun _ s' => Loading f s₀ none held s') s := by
  rw [wp_bind, wp_modify]
  refine hl.kfree (.ctrl (H := s.ctrls.free c) (fun i hi => ?_) (by rw [Heap.next_free]) rfl rfl rfl)
    hl.entered (files_on_congr rfl _) hz ?_
  · rw [Heap.get_free, if_neg hi]
  · show ((s.ctrls.free c).get c).map BafsCtrl.ref = none
    rw [Heap.get_free_self]
    rfl

theorem group_kfree_loading {blk : BlockId} (hl : Loading f s₀ (some (.group g)) held s)
    (hz : files_on s (.group g) = 0) :
    wp (do modify fun s : State => { s with groups := s.groups.free g }; kfree blk) E
      (fun _ s' => Loading f s₀ none held s') s := by
  rw [wp_bind, wp_modify]
  refine hl.kfree (.group (H := s.groups.free g) (fun i hi => ?_) (by rw [Heap.next_free]) rfl rfl rfl)
    hl.entered (files_on_congr rfl _) hz ?_
  · rw [Heap.get_free, if_neg hi]
  · show ((s.groups.free g).get g).map BafsGroup.ref = none
    rw [Heap.get_free_self]
    rfl

theorem bafs_get_ctrl_loading (hl : Loading f s₀ o held s) (hm : ¬f.makes (.ctrl c)) :
    wp (bafs_get_ctrl c) (fun _ => True) (fun _ s' => Loading f s₀ o (c ::ₘ held) s') s := by
  unfold bafs_get_ctrl ctrl_upd ctrl_at
  rw [wp_bind]
  refine wp_load_of (fun _ => trivial) fun x hx => ?_
  obtain ⟨hc, hn⟩ := changes_set_ctrl hx { x with ref := x.ref + 1 }
  refine hl.get_ctrl hc hl.entered hm (files_on_congr rfl _) ?_ hn
  rw [count_of, hx]
  rfl

theorem __bafs_ctrl_release_ctrls {x : BafsCtrl} (hx : s.ctrls.get c = some x) :
    wp (__bafs_ctrl_release c) (fun _ => True) (fun _ s' => s'.ctrls = s.ctrls.free c) s := by
  have hq : Quiet State.ctrls := by
    constructor <;> intros <;> rfl
  unfold __bafs_ctrl_release
  rw [wp_bind, wp_ctrl_at hx]
  refine (device_destroy_keeps (f := State.ctrls) (fun _ _ => rfl) _ s).bind fun _ s₁ h₁ => ?_
  refine (put_core_device_quiet hq s₁).bind fun _ s₂ h₂ => ?_
  refine (cdev_del_quiet hq x.minor s₂).bind fun _ s₃ h₃ => ?_
  rw [wp_bind, wp_modify]
  refine (bafs_put_minor_number_quiet hq x.minor _).bind fun _ s₄ h₄ => ?_
  rw [wp_bind, wp_modify]
  refine wp_mono (kfree_quiet hq x.blk _) fun _ s₅ h₅ => ?_
  rw [h₅]
  show s₄.ctrls.free c = s.ctrls.free c
  rw [h₄]
  show s₃.ctrls.free c = s.ctrls.free c
  rw [h₃, h₂, h₁]

/-- What the put of a controller does to the controllers. -/
theorem bafs_ctrl_release_ctrls :
    wp (bafs_ctrl_release c) (fun _ => True) (fun _ s' => ∃ x, s.ctrls.get c = some x ∧
      s'.ctrls = if x.ref = 1 then s.ctrls.free c
        else s.ctrls.set c { x with ref := x.ref - 1 }) s := by
  unfold bafs_ctrl_release ctrl_at
  rw [wp_bind]
  refine wp_load_of (fun _ => trivial) fun x hx => ?_
  rw [wp_bind, wp_ctrl_upd hx]
  refine wp_ite (fun h1 => ?_) fun h1 => ⟨x, hx, by rw [if_neg h1]⟩
  refine wp_mono (__bafs_ctrl_release_ctrls (by exact Heap.get_set_self hx)) fun _ s' h' => ?_
  refine ⟨x, hx, ?_⟩
  rw [if_pos h1, h']
  exact Heap.free_set

theorem bafs_ctrl_release_loading (hl : Loading f s₀ o (c ::ₘ held) s) :
    wp (bafs_ctrl_release c) (fun _ => True) (fun _ s' => Loading f s₀ o held s') s := by
  let frame : State → _ := fun s => (s.ctxs, s.bafs_global_ctx_xa, s.groups, s.files)
  have hq : Quiet frame := by
    constructor <;> intros <;> rfl
  have hkeep := bafs_ctrl_release_keeps hq (fun _ _ => rfl) (fun _ _ => rfl) (fun _ _ => rfl) c s
  refine wp_mono (wp_and bafs_ctrl_release_ctrls hkeep) fun _ s' h' => ?_
  obtain ⟨⟨x, hx, hctrls⟩, hframe⟩ := h'
  simp only [frame, Prod.mk.injEq] at hframe
  obtain ⟨hctxs, hxa, hgroups, hfiles⟩ := hframe
  have hold : count_of s (.ctrl c) = some x.ref := by
    rw [count_of, hx]
    rfl
  refine hl.put_ctrl (n := x.ref) (.ctrl (H := s'.ctrls) ?_ ?_ rfl hgroups hfiles)
    (hl.entered.congr hctxs hxa) (files_on_congr hfiles _) hold ?_
  · intro i hi
    rw [hctrls]
    by_cases h1 : x.ref = 1
    · rw [if_pos h1, Heap.get_free, if_neg hi]
    · rw [if_neg h1, Heap.get_set_ne hi]
  · rw [hctrls]
    by_cases h1 : x.ref = 1
    · rw [if_pos h1, Heap.next_free]
    · rw [if_neg h1, Heap.next_set]
  · show (s'.ctrls.get c).map BafsCtrl.ref = _
    rw [hctrls]
    by_cases h1 : x.ref = 1
    · rw [if_pos h1, if_pos h1, Heap.get_free_self]
      rfl
    · rw [if_neg h1, if_neg h1, Heap.get_set_self hx]
      rfl

end Statements

/-! ## The functions -/

/-- The function is not between `cdev_add` and `kref_init`. -/
def Idle (h : Taken) : Prop := ∃ held, h = running none held

theorem idle {held : Multiset CtrlId} : Idle (running none held) := ⟨held, rfl⟩

section Functions

variable {h : Taken} {held : Multiset CtrlId} {o : Option Drvdata}

theorem out_ctrl_id_put_kept {c : CtrlId} {blk : BlockId} {minor ctrl_id : Nat} {e : Errno} :
    LoadSafe f s₀ (fun _ => Idle) (out_ctrl_id_put c blk minor ctrl_id e)
      (running (some (.ctrl c)) held) := by
  refine kept_stmt (.modify fun _ => rfl) fun _ => ?_
  refine kept_stmt (bafs_put_minor_number_quiet quiet_openable minor) fun _ => ?_
  refine kept_single (fun H s hl hz => ctrl_kfree_loading hl hz) fun _ => ?_
  exact safe_pure idle

theorem ctrl_alloc_steps_kept {pdev : PciDev} {env : CtrlAllocEnv} (hm : ∀ c, f.makes (.ctrl c)) :
    LoadSafe f s₀ (fun _ => Idle) (ctrl_alloc_steps pdev env) (running none held) := by
  unfold ctrl_alloc_steps
  refine kept_stmt (kzalloc_quiet quiet_openable env.kzalloc) fun b => ?_
  cases b with
  | none => exact safe_pure idle
  | some blk =>
  have hrefused : ∀ e : Errno, LoadSafe f s₀ (fun _ => Idle) (do
      stmt (kfree blk)
      pure (e.ret, none) : Steps (Int × Option CtrlId)) (running none held) := fun e =>
    kept_stmt (kfree_quiet quiet_openable blk) fun _ => safe_pure idle
  cases env.pci_request_region with
  | some e => exact hrefused e
  | none =>
  cases env.pci_enable_device with
  | some e => exact hrefused e
  | none =>
  refine kept_stmt (bafs_get_minor_number_quiet quiet_openable env.minor) fun r => ?_
  cases r with
  | error e => exact hrefused e
  | ok minor =>
  refine kept_stmt (get_ctrl_id_openable env.ctrl_id) fun r => ?_
  cases r with
  | error e =>
    refine kept_stmt (bafs_put_minor_number_quiet quiet_openable minor) fun _ => ?_
    exact hrefused e
  | ok ctrl_id =>
  let placed : CtrlId → Taken := fun c => running (some (.ctrl c)) held
  refine Safe.bind (Q := fun c h' => h' = placed c) (safe_single fun H s hs _ => ?_) fun c h' hc => ?_
  · obtain ⟨hH, hl⟩ := hs.running
    exact wp_mono (place_ctrl_loading hl hm) fun c s' hs' => ⟨_, .of_loading hH hs', rfl⟩
  subst hc
  cases env.cdev_add with
  | some e => exact out_ctrl_id_put_kept
  | none =>
  refine kept_stmt (cdev_add_quiet quiet_openable minor) fun _ => ?_
  refine kept_stmt (get_core_device_quiet quiet_openable) fun _ => ?_
  cases env.device_create with
  | some e =>
    refine kept_stmt (put_core_device_quiet quiet_openable) fun _ => ?_
    refine kept_stmt (cdev_del_quiet quiet_openable minor) fun _ => ?_
    exact out_ctrl_id_put_kept
  | none =>
  refine kept_single (fun H s hl _ => ctrl_device_loading hl) fun _ => ?_
  refine kept_single (fun H s hl hz => ctrl_kref_init_loading hl hz) fun _ => ?_
  exact safe_pure idle

/-! ### Groups -/

theorem find_ctrl_devices_steps_kept {ctrls : List Name} :
    LoadSafe f s₀ (fun _ h' => h' = h) (find_ctrl_devices_steps ctrls) h := by
  refine safe_iterate (fun _ _ h' => h' = h) (fun name names devs h' hh => ?_) (fun _ _ hh => hh) rfl
  subst hh
  refine kept_stmt (device_find_child_openable name) fun r => ?_
  cases r with
  | none => exact safe_pure ⟨fun _ => rfl, fun _ => rfl⟩
  | some d =>
  refine kept_stmt load_preserves fun x => ?_
  exact safe_ite (fun _ => safe_pure ⟨fun _ => rfl, fun _ => rfl⟩)
    fun _ => safe_pure ⟨fun _ => rfl, fun _ => rfl⟩

theorem get_ctrls_steps_kept {devs : List DeviceId} (hm : ∀ c, ¬f.makes (.ctrl c)) :
    LoadSafe f s₀ (fun r h' => h' = running none r.1) (get_ctrls_steps devs) (running none 0) := by
  refine safe_iterate (fun _ (ctrls : List CtrlId) h' => h' = running none (ctrls : Multiset CtrlId))
    (fun d ds ctrls h' hh => ?_) (fun _ _ hh => hh) rfl
  subst hh
  refine kept_stmt load_preserves fun x => ?_
  cases x.drvdata with
  | none => exact safe_pure ⟨fun _ => rfl, fun _ => rfl⟩
  | some a =>
  cases a with
  | group g => exact safe_single fun _ _ _ _ => trivial
  | ctrl c =>
    have hnext : running none (c ::ₘ (ctrls : Multiset CtrlId)) =
        running none ((ctrls ++ [c] : List CtrlId) : Multiset CtrlId) := by
      have hperm : (c :: ctrls).Perm (ctrls ++ [c]) := (List.perm_append_singleton c ctrls).symm
      rw [Multiset.cons_coe, Multiset.coe_eq_coe.mpr hperm]
    have hget : ∀ H s, Loading f s₀ none (H + (ctrls : Multiset CtrlId)) s → unopened .plain s →
        wp (bafs_get_ctrl c) (fun _ => True)
          (fun _ s' => Loading f s₀ none (H + c ::ₘ (ctrls : Multiset CtrlId)) s') s := by
      intro H s hl _
      rw [Multiset.add_cons]
      exact bafs_get_ctrl_loading hl (hm c)
    refine kept_single hget fun _ => ?_
    exact safe_pure ⟨fun _ => hnext, fun _ => hnext⟩

theorem put_devices_kept {devs : List DeviceId} :
    LoadSafe f s₀ (fun _ h' => h' = h) (each (fun d => stmt (put_device d)) devs) h := by
  refine safe_each (fun _ h' => h' = h) (fun d ds h' hh => ?_) rfl
  subst hh
  refine safe_single fun H s hs _ => wp_mono (put_device_openable d s) fun _ s' hs' => ?_
  obtain ⟨o, ho, hl⟩ := hs
  exact ⟨h', ⟨o, ho, hl.congr hs'⟩, rfl⟩

theorem out_put_devices_steps_kept {devs : List DeviceId} {dblk : BlockId} :
    LoadSafe f s₀ (fun _ h' => h' = h) (out_put_devices_steps devs dblk) h := by
  refine put_devices_kept.bind fun _ h' hh => ?_
  subst hh
  refine kept_stmt (put_core_device_quiet quiet_openable) fun _ => ?_
  refine safe_single fun H s hs _ => wp_mono (kfree_quiet quiet_openable dblk s) fun _ s' hs' => ?_
  obtain ⟨o, ho, hl⟩ := hs
  exact ⟨h', ⟨o, ho, hl.congr hs'⟩, rfl⟩

theorem out_free_ctrls_steps_kept {ctrls : List CtrlId} {cblk dblk : BlockId} {devs : List DeviceId} :
    LoadSafe f s₀ (fun _ h' => h' = running o 0) (out_free_ctrls_steps ctrls cblk devs dblk)
      (running o ctrls) := by
  have heach : LoadSafe f s₀ (fun _ h' => h' = running o 0)
      (each (fun c => stmt (bafs_ctrl_release c)) ctrls.reverse) (running o ctrls) := by
    refine safe_each (fun (rest : List CtrlId) h' => h' = running o (rest : Multiset CtrlId))
      (fun c cs h' hh => ?_) (congrArg (running o) (Multiset.coe_reverse ctrls).symm)
    subst hh
    refine safe_single fun H s hs _ => ?_
    obtain ⟨hH, hl⟩ := hs.running
    rw [← Multiset.cons_coe, Multiset.add_cons] at hl
    exact wp_mono (bafs_ctrl_release_loading hl) fun _ s' hs' => ⟨_, .of_loading hH hs', rfl⟩
  refine heach.bind fun _ h' hh => ?_
  subst hh
  refine kept_stmt (kfree_quiet quiet_openable cblk) fun _ => ?_
  exact out_put_devices_steps_kept

theorem out_minor_put_kept {g : GroupId} {ctrls : List CtrlId} {cblk dblk gblk : BlockId}
    {devs : List DeviceId} {minor group_id : Nat} {e : Errno} :
    LoadSafe f s₀ (fun _ => Idle) (out_minor_put g ctrls cblk devs dblk gblk minor group_id e)
      (running (some (.group g)) ctrls) := by
  refine kept_stmt (bafs_put_minor_number_quiet quiet_openable minor) fun _ => ?_
  refine kept_stmt (.modify fun _ => rfl) fun _ => ?_
  refine out_free_ctrls_steps_kept.bind fun _ h' hh => ?_
  subst hh
  refine kept_single (fun H s hl hz => group_kfree_loading hl hz) fun _ => ?_
  exact safe_pure idle

theorem group_add_steps_kept {ctrls : List CtrlId} {cblk dblk gblk : BlockId} {devs : List DeviceId}
    {env : GroupAllocEnv} (hm : ∀ g, f.makes (.group g)) :
    LoadSafe f s₀ (fun _ => Idle) (group_add_steps ctrls cblk devs dblk gblk env)
      (running none ctrls) := by
  have hrefused : ∀ e : Errno, LoadSafe f s₀ (fun _ => Idle) (do
      out_free_ctrls_steps ctrls cblk devs dblk
      stmt (kfree gblk)
      pure (e.ret, none) : Steps (Int × Option GroupId)) (running none ctrls) := fun e => by
    refine out_free_ctrls_steps_kept.bind fun _ h' hh => ?_
    subst hh
    exact kept_stmt (kfree_quiet quiet_openable gblk) fun _ => safe_pure idle
  unfold group_add_steps
  refine kept_stmt (get_group_id_openable env.group_id) fun r => ?_
  cases r with
  | error e => exact hrefused e
  | ok group_id =>
  refine kept_stmt (bafs_get_minor_number_quiet quiet_openable env.minor) fun r => ?_
  cases r with
  | error e =>
    refine kept_stmt (.modify fun _ => rfl) fun _ => ?_
    exact hrefused e
  | ok minor =>
  let placed : GroupId → Taken := fun g => running (some (.group g)) ctrls
  refine Safe.bind (Q := fun g h' => h' = placed g) (safe_single fun H s hs _ => ?_) fun g h' hg => ?_
  · obtain ⟨hH, hl⟩ := hs.running
    exact wp_mono (place_group_loading hl hm) fun g s' hs' => ⟨_, .of_loading hH hs', rfl⟩
  subst hg
  cases env.cdev_add with
  | some e => exact out_minor_put_kept
  | none =>
  refine kept_stmt (cdev_add_quiet quiet_openable minor) fun _ => ?_
  cases env.device_create with
  | some e =>
    refine kept_stmt (cdev_del_quiet quiet_openable minor) fun _ => ?_
    exact out_minor_put_kept
  | none =>
  refine kept_single (fun H s hl _ => group_device_loading hl) fun _ => ?_
  refine kept_single (fun H s hl hz => group_kref_init_loading hl hz) fun _ => ?_
  refine put_devices_kept.bind fun _ h' hh => ?_
  subst hh
  exact kept_stmt (kfree_quiet quiet_openable dblk) fun _ => safe_pure idle

theorem group_alloc_steps_kept {ctrls : List Name} {env : GroupAllocEnv}
    (hg : ∀ g, f.makes (.group g)) (hc : ∀ c, ¬f.makes (.ctrl c)) :
    LoadSafe f s₀ (fun _ => Idle) (group_alloc_steps ctrls env) (running none 0) := by
  unfold group_alloc_steps
  refine kept_stmt (kzalloc_quiet quiet_openable env.kzalloc_group) fun b => ?_
  cases b with
  | none => exact safe_pure idle
  | some gblk =>
  refine kept_stmt (kzalloc_quiet quiet_openable env.kzalloc_ctrl_devices) fun b => ?_
  cases b with
  | none => exact kept_stmt (kfree_quiet quiet_openable gblk) fun _ => safe_pure idle
  | some dblk =>
  refine kept_stmt (get_core_device_quiet quiet_openable) fun _ => ?_
  refine find_ctrl_devices_steps_kept.bind fun r h' hh => ?_
  subst hh
  obtain ⟨devs, ret⟩ := r
  have hrefused : ∀ ret : Int, LoadSafe f s₀ (fun _ => Idle) (do
      out_put_devices_steps devs dblk
      stmt (kfree gblk)
      pure (ret, none) : Steps (Int × Option GroupId)) (running none 0) := fun ret => by
    refine out_put_devices_steps_kept.bind fun _ h' hh => ?_
    subst hh
    exact kept_stmt (kfree_quiet quiet_openable gblk) fun _ => safe_pure idle
  cases ret with
  | some ret => exact hrefused ret
  | none =>
  refine kept_stmt (kzalloc_quiet quiet_openable env.kzalloc_ctrls) fun b => ?_
  cases b with
  | none => exact hrefused (-ENOMEM)
  | some cblk =>
  refine (get_ctrls_steps_kept hc).bind fun r h' hh => ?_
  subst hh
  obtain ⟨ctrls, ret⟩ := r
  cases ret with
  | none => exact group_add_steps_kept hg
  | some ret =>
    refine out_free_ctrls_steps_kept.bind fun _ h' hh => ?_
    subst hh
    exact kept_stmt (kfree_quiet quiet_openable gblk) fun _ => safe_pure idle

/-! ### The module -/

theorem probe_steps_kept {pdev : PciDev} {env : CtrlAllocEnv} (hm : ∀ c, f.makes (.ctrl c)) :
    LoadSafe f s₀ (fun _ => Idle) (probe_steps pdev env) (running none held) := by
  refine (ctrl_alloc_steps_kept hm).bind fun r h' hh => ?_
  obtain ⟨held', rfl⟩ := hh
  obtain ⟨ret, c⟩ := r
  cases c with
  | none => exact safe_pure idle
  | some c =>
    refine safe_single fun H s hs _ => ⟨running none held', ?_, idle⟩
    obtain ⟨hH, hl⟩ := hs.running
    exact .of_loading hH (hl.congr rfl)

theorem init_steps_kept {env : InitEnv} (hm : ∀ c, f.makes (.ctrl c)) :
    LoadSafe f s₀ (fun _ => Idle) (init_steps env) (running none 0) := by
  have hrefused : ∀ e : Errno, LoadSafe f s₀ (fun _ => Idle) (pure e.ret : Steps Int) (running none 0) :=
    fun e => safe_pure idle
  unfold init_steps
  cases env.alloc_chrdev_region with
  | some e => exact hrefused e
  | none =>
  cases env.core_class with
  | some e => exact hrefused e
  | none =>
  cases env.ctrl_class with
  | some e => exact hrefused e
  | none =>
  cases env.group_class with
  | some e => exact hrefused e
  | none =>
  refine kept_stmt (bafs_get_minor_number_quiet quiet_openable env.minor) fun r => ?_
  cases r with
  | error e => exact hrefused e
  | ok minor =>
  cases env.cdev_add with
  | some e => exact kept_stmt (cdev_del_quiet quiet_openable minor) fun _ => hrefused e
  | none =>
  refine kept_stmt (cdev_add_quiet quiet_openable minor) fun _ => ?_
  cases env.device_create with
  | some e => exact kept_stmt (cdev_del_quiet quiet_openable minor) fun _ => hrefused e
  | none =>
  refine kept_stmt (.modify fun _ => rfl) fun _ => ?_
  cases env.pci_register_driver with
  | some e =>
    refine kept_stmt (.modify fun _ => rfl) fun _ => ?_
    exact kept_stmt (cdev_del_quiet quiet_openable minor) fun _ => hrefused e
  | none =>
  refine Safe.bind (safe_each (fun _ => Idle) (fun d ds h' hh => ?_) idle) fun _ h' hh => ?_
  · obtain ⟨held', rfl⟩ := hh
    exact probe_steps_kept hm
  · obtain ⟨held', rfl⟩ := hh
    refine kept_single (q := none) (l := held') (fun H s hl hz => ?_) fun _ => safe_pure idle
    -- with no entry in the table there is no context
    have hno : ∀ c, s.ctxs.get c = none := fun c => by
      by_contra hne
      obtain ⟨y, hy⟩ := Option.ne_none_iff_exists'.mp hne
      have hin : y.tgid ∈ s.bafs_global_ctx_xa.keys :=
        AList.mem_keys.mp (AList.lookup_isSome.mp (Option.isSome_of_eq_some (hl.entered c y hy)))
      rw [show s.bafs_global_ctx_xa.keys = [] from hz] at hin
      cases hin
    refine hl.of_counts (fun _ => rfl) (fun _ => rfl) (fun c y hy => ?_) le_rfl le_rfl
    have hnone := hno c
    rw [show s.ctxs.get c = some y from hy] at hnone
    cases hnone

end Functions

/-! ## All threads -/

theorem setup_kept (f : Setup) : LoadSafe f s₀ (fun _ => Idle) f.steps (running none 0) := by
  cases f with
  | bafs_group_alloc ctrls env =>
    have hg : ∀ g, (Setup.bafs_group_alloc ctrls env).makes (.group g) := fun _ => trivial
    exact (group_alloc_steps_kept hg fun _ => id).bind fun _ _ hh => safe_pure hh
  | bafs_ctrl_alloc pdev env =>
    have hc : ∀ c, (Setup.bafs_ctrl_alloc pdev env).makes (.ctrl c) := fun _ => trivial
    exact (ctrl_alloc_steps_kept hc).bind fun _ _ hh => safe_pure hh
  | bafs_init env =>
    have hc : ∀ c, (Setup.bafs_init env).makes (.ctrl c) := fun _ => trivial
    exact init_steps_kept hc

theorem opening_kept (r : Opening) : LoadSafe f s₀ (fun _ _ => True) (stmt (open_device r)) 0 := by
  refine safe_single fun H s hs _ => ?_
  obtain ⟨o, ho, hl⟩ := hs
  rw [add_zero] at ho hl
  refine wp_mono (open_device_loading hl r) fun _ s' hl' => ⟨0, ⟨o, ?_, ?_⟩, trivial⟩
  · rw [add_zero]
    exact ho
  · rw [add_zero]
    exact hl'

/-- Whatever opens come between the statements of `bafs_group_alloc`, `bafs_ctrl_alloc` or `bafs_init`:
when the function is done, every reference that they have taken is counted and every context that
they have made is in the table, provided that `kref_init`, a `kfree` on failure and `xa_init_flags`
each come before the first open that they would write over. -/
theorem opens_published (f : Setup) (opens : List Opening) (sched : List Nat) (hs : f.starts s)
    (hk : Meets unopened sched (f.threads opens) s) :
    Throughout (fun _ => True)
      (fun ts t => (∃ ret, ts[0]? = some (.done ret)) → Published s t) sched (f.threads opens) s := by
  have hall : AllSafe (Shared f s) unopened (fun _ => True) (fun i _ h => i = 0 → Idle h)
      (f.threads opens) s := by
    refine ⟨running none 0 :: opens.map fun _ => 0, by simp [Setup.threads], ?_, none, ?_, ?_⟩
    · intro i t h ht hh
      cases i with
      | zero =>
        obtain rfl : f.steps = t := Option.some.inj ht
        obtain rfl : running none 0 = h := Option.some.inj hh
        exact (setup_kept f).mono fun _ _ hidle _ => hidle
      | succ i =>
        have ht : (opens.map fun o => stmt (open_device o))[i]? = some t := ht
        have hh : (opens.map fun _ => (0 : Taken))[i]? = some h := hh
        rw [List.getElem?_map, Option.map_eq_some_iff] at ht hh
        obtain ⟨r, -, rfl⟩ := ht
        obtain ⟨_, -, rfl⟩ := hh
        exact (opening_kept r).mono fun _ _ _ h0 => absurd h0 (Nat.succ_ne_zero i)
    · simp [running]
    · have hsum : (running none 0 :: opens.map fun _ => (0 : Taken)).sum.2 = 0 := by simp [running]
      rw [hsum]
      exact .start hs
  refine (hall.throughout hk).mono fun ts t h hret => ?_
  obtain ⟨ret, hret⟩ := hret
  obtain ⟨H, h, hsafe, hI⟩ := h.at hret
  obtain ⟨held, rfl⟩ : Idle h := hsafe rfl
  exact hI.running.2.published

/-- A schedule of the creation of a group without controllers, with one open of its device after the
first `n` statements. -/
def open_after (n : Nat) : List Nat := List.replicate n 0 ++ 1 :: List.replicate 14 0

theorem opens_published_late : ∃ t, Published init t ∧ opened init t (.group 0) = 1 := by
  have h := opens_published (.bafs_group_alloc [] granted_group) [.group 0 a_task granted_open]
    (open_after 10) ⟨[], rfl⟩
    (meets_of_tests (k := fun p s => decide (unopened p s)) (fun _ _ => of_decide_eq_true)
      (by decide +kernel))
  obtain ⟨ts, t, hp, htest⟩ := h.of_ends
    (p := fun rs t => decide (rs[0]? = some (some 0) ∧ opened init t (.group 0) = 1))
    (by decide +kernel)
  obtain ⟨hdone, hopen⟩ := of_decide_eq_true htest
  rw [List.getElem?_map, Option.map_eq_some_iff] at hdone
  obtain ⟨t₀, ht₀, hres⟩ := hdone
  refine ⟨t, hp ⟨0, ?_⟩, hopen⟩
  rw [ht₀, done_of_result hres]

/-- An open before `kref_init` is lost. -/
example : ends (fun rs t => decide (rs[0]? = some (some 0) ∧ opened init t (.group 0) = 1 ∧
      count_of t (.group 0) = some 1)) (open_after 9)
    ((Setup.bafs_group_alloc [] granted_group).threads [.group 0 a_task granted_open]) init = true := by
  decide +kernel

end BafsDriver
