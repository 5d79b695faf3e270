import BafsDriver.Proofs.RegProofs
import BafsDriver.Scenario
import Mathlib.Data.List.Count

/-!
# The references to a controller

Besides its PCI device, the groups, the open files and the DMA mappings, a mapping of the BAR holds a
reference to a controller. A BAR mapping has no `vm_ops`, so nothing drops that reference when the VMA
goes; a registration request that fails skips the put of a ctrl file, and a group mapping that fails
half-way keeps the references it has taken. The balance holds exactly along the runs in which none of
this happens.
-/

namespace BafsDriver

open Prog

variable {h h' : Held Kind} {v v' : View} {s s' : State} {r : Request}

/-- The segments of existing VMAs in which the BAR of the controller `c` is mapped. -/
def bar_segments (V : Heap Vma) (c : CtrlId) : Nat :=
  V.sum fun w => (w.remaps.map Remap.bar).count (some c)

/-- The count of a controller, 0 where there is none. -/
def ctrl_ref (s : State) (c : CtrlId) : Nat := (s.ctrls.get c).elim 0 BafsCtrl.ref

/-- The count of each controller is the number of those that hold it, and a controller is released
once, when nothing holds it. -/
structure CtrlBalanced (s : State) : Prop where
  counted : ∀ c, ctrl_ref s c = ctrl_holders s c + bar_segments s.vmas c
  released : ∀ c < s.ctrls.next, ctrl_holders s c + bar_segments s.vmas c = 0 →
    s.ctrls.get c = none ∧ s.ctrl_log.count c = 1
  freed_once : s.ctrls.FreedOnce fun c => s.ctrl_log.count c

/-- The request drops every reference that it should: no registration of a ctrl file fails, no mapping
of BARs fails after its first segment, no VMA with a BAR is unmapped, and no segment is cut. -/
def keeps_ctrl (s : State) : Request → Prop
  | .ioctl i cmd _ env => ∀ x y, s.files.get i = some (.ctrl x) → cmd = BAFS_CTRL_IOC_REG_MEM →
    s.ctxs.get x.ctx = some y → ¬reg_mem_fails y.bafs_mem_xa env.reg_mem
  | .mmap i mm a b pgoff env => ∀ x l q, s.files.get i = some x → range_free s mm a b →
    maps_bars x pgoff → bar_ctrls s.view x = some l → (bar_remaps s a 0 l)[0]? = some q →
    seg_ok env.bar 0 q → ∀ (j : Nat) (p : Remap), (bar_remaps s a 0 l)[j]? = some p →
      seg_ok env.bar j p
  | .munmap i => ∀ w, s.vmas.get i = some w → ∀ q ∈ w.remaps, q.bar = none
  | .split i a => ∀ w, s.vmas.get i = some w →
    w.vm_start < a ∧ a < w.vm_end ∧ PAGE_SIZE ∣ a →
    ∀ q ∈ w.remaps, q.bar ≠ none → ¬(q.addr < a ∧ a < q.addr + q.size)
  | _ => True

/-! ## Segments -/

theorem count_bar_eq_zero {l : List Remap} :
    (∀ c, (l.map Remap.bar).count (some c) = 0) ↔ ∀ q ∈ l, q.bar = none := by
  constructor
  · intro hz q hq
    cases hb : q.bar with
    | none => rfl
    | some c =>
      have hmem : some c ∈ l.map Remap.bar := List.mem_map.mpr ⟨q, hq, hb⟩
      exact absurd hmem (List.count_eq_zero.mp (hz c))
  · intro hn c
    apply List.count_eq_zero.mpr
    intro hmem
    obtain ⟨q, hq, hb⟩ := List.mem_map.mp hmem
    rw [hn q hq] at hb
    cases hb

/-- Two tests of which each segment passes one count those twice that pass both. -/
theorem count_filter_add {l : List Remap} {p q : Remap → Prop} [DecidablePred p] [DecidablePred q]
    (hpq : ∀ x, p x ∨ q x) (c : CtrlId) :
    (((l.filter fun x => p x).map Remap.bar).count (some c) : ℕ) +
        ((l.filter fun x => q x).map Remap.bar).count (some c) =
      (l.map Remap.bar).count (some c) +
        ((l.filter fun x => p x ∧ q x).map Remap.bar).count (some c) := by
  simp only [Bool.decide_and]
  induction l with
  | nil => simp
  | cons x l ih =>
    have hx := hpq x
    by_cases hp : p x
    · by_cases hq : q x
      · simp [hp, hq, List.count_cons]
        omega
      · simp [hp, hq, List.count_cons]
        omega
    · have hq : q x := hx.resolve_left hp
      simp [hp, hq, List.count_cons]
      omega

/-- The pieces of a VMA have its segments, and those twice that the cut goes through. -/
theorem count_pieces (w : Vma) (a : Nat) (c : CtrlId) :
    ((w.lower a).remaps.map Remap.bar).count (some c) +
        ((w.upper a).remaps.map Remap.bar).count (some c) =
      (w.remaps.map Remap.bar).count (some c) +
        ((w.remaps.filter fun q => q.addr < a ∧ a < q.addr + q.size).map Remap.bar).count (some c) := by
  have hcut : ∀ q : Remap, (q.addr < a ∧ (a ≤ q.addr ∨ a < q.addr + q.size)) ↔
      (q.addr < a ∧ a < q.addr + q.size) := by
    intro q
    omega
  have h := count_filter_add (l := w.remaps) (p := fun q => q.addr < a)
    (q := fun q => a ≤ q.addr ∨ a < q.addr + q.size) (fun q => by omega) c
  simp only [hcut] at h
  exact h

theorem count_moved (w : Vma) (a : Nat) (c : CtrlId) :
    ((w.moved a).remaps.map Remap.bar).count (some c) = (w.remaps.map Remap.bar).count (some c) := by
  have : (w.moved a).remaps.map Remap.bar = w.remaps.map Remap.bar := by
    unfold Vma.moved
    rw [List.map_map]
    rfl
  rw [this]

theorem count_bar_remaps (a : Nat) (l : List CtrlId) (c : CtrlId) :
    ((bar_remaps s a 0 l).map Remap.bar).count (some c) = l.count c := by
  rw [bars_of_remaps]
  exact List.count_map_of_injective l some (Option.some_injective _) c

theorem count_no_bar {w : Vma} (hw : ∀ q ∈ w.remaps, q.bar = none) (c : CtrlId) :
    (w.remaps.map Remap.bar).count (some c) = 0 := count_bar_eq_zero.mpr hw c

/-! ## The balance -/

/-- The references to controllers that are never given back are those of BAR mappings. -/
def Balanced (h : Held Kind) (V : Heap Vma) : Prop := ∀ c, h .ctrl c = bar_segments V c

theorem ctrl_ref_eq (hs : At h v s) (c : CtrlId) :
    (ctrl_ref s c : ℤ) = ctrl_holders s c + h .ctrl c := by
  unfold ctrl_ref
  cases hx : s.ctrls.get c with
  | none =>
    have := hs.wf.ctrl.none c hx
    simp only [Option.elim_none]
    omega
  | some x => exact hs.wf.ctrl.eq c x hx

theorem ctrlBalanced_iff (hs : At h v s) : CtrlBalanced s ↔ Balanced h s.vmas := by
  constructor
  · intro hp c
    have h1 := hp.counted c
    have h2 := ctrl_ref_eq hs c
    omega
  · intro hb
    have hcount : ∀ c, ctrl_ref s c = ctrl_holders s c + bar_segments s.vmas c := by
      intro c
      have h1 := hb c
      have h2 := ctrl_ref_eq hs c
      omega
    refine ⟨hcount, ?_, hs.wf.logs.ctrl⟩
    intro c hc hz
    have hnone : s.ctrls.get c = none := by
      cases hx : s.ctrls.get c with
      | none => rfl
      | some x =>
        have hpos := hs.wf.ctrl.pos c x hx
        have := hcount c
        rw [hz, ctrl_ref, hx] at this
        simp only [Option.elim_some] at this
        omega
    refine ⟨hnone, ?_⟩
    exact (hs.wf.logs.ctrl c).trans (if_pos ⟨hc, hnone⟩)

/-- Where the lost references and the segments change by the same numbers, the balance is kept. -/
theorem balanced_add {V V' : Heap Vma} {n : CtrlId → ℤ} {k : CtrlId → ℤ} (hb : Balanced h V)
    (hh : ∀ c, h' .ctrl c = h .ctrl c + n c)
    (hV : ∀ c, (bar_segments V' c : ℤ) = bar_segments V c + k c) :
    Balanced h' V' ↔ ∀ c, n c = k c := by
  constructor
  · intro hb' c
    have h1 := hb c
    have h2 := hb' c
    have h3 := hh c
    have h4 := hV c
    omega
  · intro hnk c
    have h1 := hb c
    have h2 := hnk c
    have h3 := hh c
    have h4 := hV c
    omega

/-! ## What a request changes -/

theorem balanced_same {V V' : Heap Vma} (hb : Balanced h V) (hh : ∀ c, h' .ctrl c = h .ctrl c)
    (hV : ∀ c, bar_segments V' c = bar_segments V c) : Balanced h' V' := by
  intro c
  rw [hh c, hV c]
  exact hb c

/-- A VMA goes, and nothing is dropped for its segments. -/
theorem balanced_free {V : Heap Vma} {i : VmaId} {w : Vma} (hb : Balanced h V)
    (hw : V.get i = some w) : Balanced h (V.free i) ↔ ∀ q ∈ w.remaps, q.bar = none := by
  have hsum : ∀ c, (bar_segments (V.free i) c : ℤ) =
      bar_segments V c + -((w.remaps.map Remap.bar).count (some c) : ℕ) := by
    intro c
    have := Heap.sum_free (f := fun w : Vma => (w.remaps.map Remap.bar).count (some c)) hw
    unfold bar_segments
    omega
  rw [balanced_add hb (fun c => (add_zero _).symm) hsum, ← count_bar_eq_zero]
  constructor
  · intro hz c
    have := hz c
    omega
  · intro hz c
    have := hz c
    omega

/-- A VMA that is cut in two has the segments twice that the cut goes through. -/
theorem balanced_split {V : Heap Vma} {i : VmaId} {w : Vma} {a : Nat} (hb : Balanced h V)
    (hw : V.get i = some w) : Balanced h ((V.set i (w.lower a)).alloc (w.upper a)) ↔
      ∀ q ∈ w.remaps, q.bar ≠ none → ¬(q.addr < a ∧ a < q.addr + q.size) := by
  have hsum : ∀ c, (bar_segments ((V.set i (w.lower a)).alloc (w.upper a)) c : ℤ) =
      bar_segments V c +
        (((w.remaps.filter fun q => q.addr < a ∧ a < q.addr + q.size).map Remap.bar).count
          (some c) : ℕ) := by
    intro c
    have h1 := Heap.sum_set (f := fun w : Vma => (w.remaps.map Remap.bar).count (some c))
      (a := w.lower a) hw
    have h2 := count_pieces w a c
    unfold bar_segments
    rw [Heap.sum_alloc]
    omega
  rw [balanced_add hb (fun c => (add_zero _).symm) hsum]
  have hzero : (∀ c, (0 : ℤ) = (((w.remaps.filter fun q =>
      q.addr < a ∧ a < q.addr + q.size).map Remap.bar).count (some c) : ℕ)) ↔
      ∀ q ∈ w.remaps.filter fun q => q.addr < a ∧ a < q.addr + q.size, q.bar = none := by
    rw [← count_bar_eq_zero]
    constructor
    · intro hz c
      have := hz c
      omega
    · intro hz c
      have := hz c
      omega
  rw [hzero]
  constructor
  · intro hn q hq hbar hcut
    exact hbar (hn q (List.mem_filter.mpr ⟨hq, decide_eq_true hcut⟩))
  · intro hn q hq
    obtain ⟨hq, hcut⟩ := List.mem_filter.mp hq
    by_contra hbar
    exact hn q hq hbar (of_decide_eq_true hcut)

theorem segments_move {V : Heap Vma} {i : VmaId} {w : Vma} (hw : V.get i = some w) (a : Nat)
    (c : CtrlId) : bar_segments ((V.alloc (w.moved a)).free i) c = bar_segments V c := by
  have h1 := Heap.sum_free (f := fun w : Vma => (w.remaps.map Remap.bar).count (some c))
    (Heap.get_alloc_of_get (a := w.moved a) hw)
  rw [Heap.sum_alloc, count_moved] at h1
  unfold bar_segments
  omega

theorem lost_ctrl (x : File) (c : CtrlId) : x.lost .ctrl c = (x.ctrl_refs c : ℕ) := by
  cases x with
  | core d => rfl
  | ctrl y =>
    show tok Kind.ctrl y.ctrl .ctrl c = ((if y.ctrl = c then 1 else 0 : ℕ) : ℤ)
    rw [tok_kind]
    by_cases hc : y.ctrl = c
    · simp [hc]
    · simp [hc, Ne.symm hc]
  | group y => exact tok_ne (by decide) ..

/-- A registration that fails leaves no reference to a controller exactly if the file is not one of a
controller. -/
theorem lost_no_ctrl {x : File} : (∀ c, x.lost .ctrl c = 0) ↔ ∀ y, x ≠ .ctrl y := by
  constructor
  · rintro hz y rfl
    have := hz y.ctrl
    rw [lost_ctrl, File.ctrl_refs, if_pos rfl] at this
    cases this
  · intro hn c
    rw [lost_ctrl]
    cases x with
    | ctrl y => exact absurd rfl (hn y)
    | _ => rfl

theorem Created.ctrl {params : BAFS_CORE_IOC_CREATE_GROUP_PARAMS} {env : CreateGroupEnv} {ret : Int}
    (hc : Created h v s params env ret h' v') (c : CtrlId) : h' .ctrl c = h .ctrl c := by
  cases hc with
  | refused => exact add_eq_left.mpr (if_neg (by decide))
  | undone => rfl
  | created => exact add_tok_off h (by simp)

theorem Deleted.ctrl {params : BAFS_CORE_IOC_DELETE_GROUP_PARAMS} {copy : Bool} {ret : Int}
    (hd : Deleted h v s params copy ret h' v') (c : CtrlId) : h' .ctrl c = h .ctrl c := by
  cases hd with
  | refused => rfl
  | @deleted g l hc hg hl =>
    show h .ctrl c - tok Kind.group g .ctrl c = h .ctrl c
    rw [tok_ne (by decide), sub_zero]

/-- What an ioctl keeps, exactly if it is no registration of a ctrl file that fails. -/
theorem Ioctl.balanced_iff {i : FileId} {x : File} {cmd : Nat} {arg : IoctlArg} {env : IoctlEnv}
    {reply : IoctlReply} (hi : Ioctl h s.view s x cmd arg env reply h' v')
    (hx : s.files.get i = some x) (hb : Balanced h s.vmas) :
    Balanced h' v'.vmas ↔ keeps_ctrl s (.ioctl i cmd arg env) := by
  have hV : v'.vmas = s.vmas := hi.vmas
  rw [hV]
  have htrue : (∀ c, h' .ctrl c = h .ctrl c) → cmd ≠ BAFS_CTRL_IOC_REG_MEM ∨
      (∀ y, x ≠ .ctrl y) →
      (Balanced h' s.vmas ↔ keeps_ctrl s (.ioctl i cmd arg env)) := by
    intro hc hno
    refine iff_of_true (balanced_same hb hc fun _ => rfl) ?_
    intro y z hy hcmd hz
    obtain rfl := Option.some.inj (hx.symm.trans hy)
    rcases hno with hno | hno
    · exact absurd hcmd hno
    · exact absurd rfl (hno y)
  cases hi with
  | @reg_mem y blk j hcmd hy hok hj =>
    refine iff_of_true hb ?_
    intro z y' hz hcmd' hy'
    obtain rfl := Option.some.inj (hx.symm.trans hz)
    obtain rfl := Option.some.inj (hy.symm.trans hy')
    exact hok
  | @reg_mem_fails y ret n hcmd hy hf hret hn =>
    rw [balanced_add hb (fun c => rfl) (fun c => (add_zero _).symm), lost_no_ctrl]
    constructor
    · intro hno z y' hz
      obtain rfl := Option.some.inj (hx.symm.trans hz)
      exact absurd rfl (hno z)
    · rintro hk z rfl
      exact hk z y hx hcmd hy hf
  | @dma_map ds D hcmd hD =>
    refine htrue (fun _ => rfl) (.inl ?_)
    rintro rfl
    cases x with
    | core c => cases hcmd
    | ctrl y => cases hcmd
    | group y => cases hcmd
  | create hx' hcmd hc =>
    refine htrue hc.ctrl (.inr ?_)
    rintro y rfl
    cases hx'
  | delete hx' hcmd hd =>
    refine htrue hd.ctrl (.inr ?_)
    rintro y rfl
    cases hx'
  | refused hcmd hg hret =>
    by_cases hctrl : ∃ y, x = .ctrl y
    · obtain ⟨y, rfl⟩ := hctrl
      exact htrue (fun _ => rfl) (.inl hcmd)
    · exact htrue (fun _ => rfl) (.inr fun y hy => hctrl ⟨y, hy⟩)

theorem toks_take_zero {l : List CtrlId} {j : Nat} (hj : j < l.length) :
    (∀ c, toks Kind.ctrl (l.take j) .ctrl c = 0) ↔ j = 0 := by
  constructor
  · intro hz
    by_contra h0
    obtain ⟨c, l', rfl⟩ : ∃ c l', l = c :: l' := by
      cases l with
      | nil => exact absurd hj (Nat.not_lt_zero j)
      | cons c l' => exact ⟨c, l', rfl⟩
    obtain ⟨k, rfl⟩ := Nat.exists_eq_succ_of_ne_zero h0
    have hzc := hz c
    rw [List.take_succ_cons, toks_cons, Pi.add_apply, Pi.add_apply, tok_self] at hzc
    have := toks_nonneg Kind.ctrl Kind.ctrl (l'.take k) c
    omega
  · rintro rfl c
    rw [List.take_zero, toks_nil]
    rfl

/-- What an mmap keeps that sets up a VMA: the segments of BARs are as many as the references. -/
theorem Mmap.balanced {x : File} {env : MmapEnv} {mm a b pgoff : Nat} {w : Vma}
    (hm : Mmap h s.view s x (BafsDriver.new_vma mm a b pgoff) env (some w) h' v') (hb : Balanced h s.vmas) :
    Balanced h' (v'.vmas.alloc w) := by
  have hV : v'.vmas = s.vmas := hm.vmas
  rw [hV]
  intro c
  have hsum : bar_segments (s.vmas.alloc w) c =
      bar_segments s.vmas c + (w.remaps.map Remap.bar).count (some c) := Heap.sum_alloc
  rw [hsum]
  have hbc := hb c
  cases hm with
  | @bars_mapped l hp hl hok =>
    rw [count_bar_remaps, Pi.add_apply, Pi.add_apply]
    have : toks Kind.ctrl l .ctrl c = l.count c := if_pos rfl
    rw [this]
    omega
  | pinned hp hsel hm hok hw hf =>
    obtain ⟨u, ⟨pages, remaps, rfl, hbar⟩, rfl⟩ := hw
    rw [count_no_bar hbar]
    omega

/-- What an mmap keeps that fails: it leaves references behind exactly if it fails after the first
segment. -/
theorem Mmap.balanced_iff {i : FileId} {x : File} {env : MmapEnv} {mm a b pgoff : Nat}
    (hm : Mmap h s.view s x (BafsDriver.new_vma mm a b pgoff) env none h' v') (hx : s.files.get i = some x)
    (hr : range_free s mm a b) (hb : Balanced h s.vmas) :
    Balanced h' v'.vmas ↔ keeps_ctrl s (.mmap i mm a b pgoff env) := by
  have hV : v'.vmas = s.vmas := hm.vmas
  rw [hV]
  cases hm with
  | @bars_failed l j q hp hl hj hno hok =>
    have hlt : j < l.length := by
      have := (List.getElem?_eq_some_iff.mp hj).1
      rwa [length_bar_remaps] at this
    rw [balanced_add hb (fun c => rfl) (fun c => (add_zero _).symm), toks_take_zero hlt]
    constructor
    · rintro rfl y l' p hy _ _ hl' hp0 hok0
      obtain rfl := Option.some.inj (hx.symm.trans hy)
      obtain rfl := Option.some.inj (hl.symm.trans hl')
      cases hj.symm.trans hp0
      exact absurd hok0 hno
    · intro hk
      by_contra h0
      have hpos : 0 < j := Nat.pos_of_ne_zero h0
      have hlen : 0 < (bar_remaps s a 0 l).length := by
        rw [length_bar_remaps]
        omega
      have hfirst : (bar_remaps s a 0 l)[0]? = some ((bar_remaps s a 0 l)[0]) :=
        List.getElem?_eq_getElem hlen
      exact hno (hk x l _ hx hr hp hl hfirst (hok 0 hpos _ hfirst) j q hj)
  | unpinned hp hsel hm hno hf =>
    refine iff_of_true hb ?_
    intro y l p hy _ hnp
    obtain rfl := Option.some.inj (hx.symm.trans hy)
    exact absurd hnp hp
  | unknown hp hsel =>
    refine iff_of_true hb ?_
    intro y l p hy _ hnp
    obtain rfl := Option.some.inj (hx.symm.trans hy)
    exact absurd hnp hp

theorem keeps_ctrl_opens (hr : r.opens) : keeps_ctrl s r := by
  cases r <;> trivial

theorem keeps_ctrl_no_file {i : FileId} (hr : r.file = some i) (hx : s.files.get i = none) :
    keeps_ctrl s r := by
  cases r with
  | close f => trivial
  | ioctl f cmd arg env =>
    cases hr
    intro x y hx'
    cases hx.symm.trans hx'
  | mmap f mm a b pgoff env =>
    cases hr
    intro x l q hx'
    cases hx.symm.trans hx'
  | _ => cases hr

theorem keeps_ctrl_no_vma {i : VmaId} (hr : r.vma = some i) (hw : s.vmas.get i = none) :
    keeps_ctrl s r := by
  cases r with
  | munmap j =>
    cases hr
    intro w hw'
    cases hw.symm.trans hw'
  | split j a =>
    cases hr
    intro w hw'
    cases hw.symm.trans hw'
  | move => trivial
  | _ => cases hr

/-- The references stay balanced exactly if the request drops all that it should. -/
theorem Effect.balanced_iff (he : Effect h s.view s r h' v') (hb : Balanced h s.vmas) :
    Balanced h' v'.vmas ↔ keeps_ctrl s r := by
  have hmunmap : ∀ {i w}, s.vmas.get i = some w →
      (Balanced h (s.vmas.free i) ↔ keeps_ctrl s (.munmap i)) := by
    intro i w hw
    rw [balanced_free hb hw]
    constructor
    · intro hn u hu
      obtain rfl := Option.some.inj (hw.symm.trans hu)
      exact hn
    · intro hk
      exact hk w hw
  have hmove : ∀ {i w} (a : Nat), s.vmas.get i = some w →
      Balanced h ((s.vmas.alloc (w.moved a)).free i) := by
    intro i w a hw
    exact balanced_same hb (fun _ => rfl) (segments_move hw a)
  cases he with
  | probe | remove => exact iff_of_true hb trivial
  | opened hr hg => exact iff_of_true hb (keeps_ctrl_opens hr)
  | not_opened hr => exact iff_of_true hb (keeps_ctrl_opens hr)
  | @close i x hx hg =>
    rw [show (s.view.close_file h i x).vmas = s.vmas from
      congrArg (·.2.2.2.1) (View.close_file_regs s.view h i x)]
    exact iff_of_true hb trivial
  | ioctl hx hi => exact hi.balanced_iff hx hb
  | @mmap i mm a b pgoff x env w _ v₁ hx hr hm =>
    refine iff_of_true (hm.balanced hb) ?_
    intro y l p hy _ hp hl hp0 hok0
    obtain rfl := Option.some.inj (hx.symm.trans hy)
    cases hm with
    | bars_mapped hp' hl' hok =>
      obtain rfl := Option.some.inj (hl.symm.trans hl')
      exact hok
    | pinned hnp => exact absurd hp hnp
  | mmap_failed hx hr hm => exact hm.balanced_iff hx hr hb
  | mmap_taken hr =>
    refine iff_of_true hb ?_
    intro x l q _ hr'
    exact absurd hr' hr
  | no_file hr hx => exact iff_of_true hb (keeps_ctrl_no_file hr hx)
  | munmap hw hc => exact hmunmap hw
  | munmap_mem hw hc hm => exact hmunmap hw
  | @split i a w hw hat =>
    refine (balanced_split (a := a) hb hw).trans ?_
    constructor
    · intro hn u hu _
      obtain rfl := Option.some.inj (hw.symm.trans hu)
      exact hn
    · intro hk
      exact hk w hw hat
  | @split_refused i a w hw hat =>
    refine iff_of_true hb ?_
    intro u hu hat'
    obtain rfl := Option.some.inj (hw.symm.trans hu)
    exact absurd hat' hat
  | move hw hr hc => exact iff_of_true (hmove _ hw) trivial
  | move_mem hw hr hc hm => exact iff_of_true (hmove _ hw) trivial
  | move_taken => exact iff_of_true hb trivial
  | no_vma hr hw => exact iff_of_true hb (keeps_ctrl_no_vma hr hw)
  | @revoke t x f ht' hp hm =>
    rw [View.revoke_mem_vmas]
    exact iff_of_true hb trivial
  | revoke_refused => exact iff_of_true hb trivial

/-- A request that gets stuck has not dropped too little before, and never uses a controller that has
been released. -/
theorem keeps_ctrl_of_stuck {e : Fault} (hst : Stuck s.view s r e) (ht : Tidy s.view) :
    keeps_ctrl s r ∧ e ≠ .freed_ctrl := by
  have hcloses : ∀ {m}, closes_mem s.view s r m → keeps_ctrl s r := by
    intro m hr
    cases r with
    | munmap i =>
      obtain ⟨w, hw, hc⟩ := hr
      intro u hu q hq
      obtain rfl := Option.some.inj (hw.symm.trans hu)
      by_contra hbar
      have hnone := ht.bars i w q hw hq hbar
      rw [← ht.closes i w hw] at hnone
      cases hnone.symm.trans hc
    | move i a => trivial
    | _ => exact hr.elim
  have hdma : ∀ {i cmd x arg env}, s.files.get i = some x → dma_map_cmd x = some cmd →
      keeps_ctrl s (.ioctl i cmd arg env) := by
    rintro i cmd x arg env hx hcmd y z hy rfl
    obtain rfl := Option.some.inj (hx.symm.trans hy)
    cases hcmd
  cases hst with
  | table_short hr => exact ⟨hcloses hr, by decide⟩
  | vma_freed hr => exact ⟨hcloses hr, by decide⟩
  | table_freed => exact ⟨trivial, by decide⟩
  | @group_freed r i x hr hx hg hp =>
    refine ⟨?_, by decide⟩
    cases x with
    | core c => exact hg.elim
    | ctrl y => exact hg.elim
    | group y =>
      cases r with
      | close f => trivial
      | ioctl f cmd arg env =>
        cases hr
        intro z _ hz
        cases hx.symm.trans hz
      | mmap f mm a b pgoff env =>
        cases hr
        intro z l q hz _ _ hl
        obtain rfl := Option.some.inj (hx.symm.trans hz)
        cases hl.symm.trans hg
      | _ => cases hr
  | @wrong_type i c arg env hx hd hn =>
    refine ⟨?_, by decide⟩
    intro y z hy
    cases hx.symm.trans hy
  | wrong_table hx hcmd hm => exact ⟨hdma hx hcmd, by decide⟩
  | null_page_table hx hcmd hm => exact ⟨hdma hx hcmd, by decide⟩

theorem balanced_init : CtrlBalanced init := by
  obtain ⟨h, hl, hs⟩ := sane_init.at
  refine (ctrlBalanced_iff hs).mpr ?_
  intro c
  have hpos := hl.nonneg .ctrl c (by decide)
  have hnone : init.ctrls.get c = none := Heap.get_empty
  have hdue := hs.wf.ctrl.none c hnone
  have hbars : bar_segments init.vmas c = 0 := rfl
  rw [hbars]
  omega

/-- In every run the count of each controller is the number of those that hold it, exactly if every
request drops the references that it should. -/
theorem ctrl_accounting (rs : List Request) :
    Always step (fun e => e ≠ .freed_ctrl) CtrlBalanced rs init ↔ Along step keeps_ctrl rs init := by
  refine always_iff_along (I := Inv) (fun s r hi _ _ => ?_) (fun s r hi hp => ?_) rs inv_init
    balanced_init
  · obtain ⟨h, -, -, hw⟩ := step_inv r hi
    exact wp_weaken (wp_mono hw fun _ s' hs' => hs'.1) fun _ _ => trivial
  · obtain ⟨h, -, hs, hstep⟩ := step_inv r hi
    have hb := (ctrlBalanced_iff hs).mp hp
    constructor
    · intro hw
      by_contra hk
      obtain ⟨-, s', ⟨-, h', -, hs', he⟩, hp'⟩ := wp_join hstep hw fun e he _ =>
        hk (keeps_ctrl_of_stuck he hi.tidy).1
      exact hk ((he.balanced_iff hb).mp ((ctrlBalanced_iff hs').mp hp'))
    · intro hk
      refine wp_weaken (wp_mono hstep fun _ s' hs' => ?_) fun e he =>
        (keeps_ctrl_of_stuck he hi.tidy).2
      obtain ⟨-, h', -, hs', he⟩ := hs'
      exact (ctrlBalanced_iff hs').mpr ((he.balanced_iff hb).mpr hk)

/-- The BAR of a controller is mapped and unmapped. -/
def bar_unmapped : List Request :=
  [.bind 0 0x100000 4096, .open_ctrl 0 a_task granted_open, .map 0 0x10000 1 0, .munmap 0, .close 0,
    .remove 0]

/-- The controller is left with a reference that nothing holds. -/
theorem bar_unmapped_leaks :
    ¬Always step (fun e => e ≠ .freed_ctrl) CtrlBalanced bar_unmapped init := by
  intro h
  obtain ⟨s, hs, hd⟩ := h.of_ends (p := fun s => ctrl_ref s 0 == 1 && ctrl_holders s 0 == 0 &&
    bar_segments s.vmas 0 == 0) (by decide +kernel)
  simp only [Bool.and_eq_true, beq_iff_eq] at hd
  obtain ⟨⟨href, hhold⟩, hbars⟩ := hd
  have := hs.counted 0
  omega

end BafsDriver
