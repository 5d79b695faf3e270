import BafsDriver.Proofs.RegProofs
import BafsDriver.Scenario

/-!
# The pieces of a mapping

The kernel copies a VMA that is split or moved with its `vm_ops` and `vm_private_data`, and closes each
copy. `bafs_mem_ops` has no `open`, so a copy has no reference of its own: the first piece that is
closed releases the registration, whatever is left. A registration that was pinned once is released
with the last piece exactly if no piece is moved and none is unmapped while there is another.
-/

namespace BafsDriver

open Prog

variable {h h' : Held Kind} {v v' : View} {s s' : State} {r : Request} {m : MemId}

/-- The VMA `i` points to the registration `m`. -/
def piece (s : State) (m : MemId) (i : VmaId) : Prop :=
  ∃ w, s.vmas.get i = some w ∧ w.vm_private_data = some m

/-- The request splits, moves or unmaps a VMA of the registration `m`. -/
def cuts (m : MemId) (s : State) (r : Request) : Prop := ∃ i, r.vma = some i ∧ piece s m i

/-- The registration `m` is there as long as a VMA points to it, and is released once when there is
none left. -/
structure PiecesKeep (m : MemId) (s : State) : Prop where
  held : (∃ i, piece s m i) → (∃ x, s.mems.get m = some x) ∧ s.mem_log.count m = 0
  released : (∀ i, ¬piece s m i) → s.mems.get m = none ∧ s.mem_log.count m = 1

/-- The request unmaps no VMA of `m` while there is another, and moves none. -/
def unmaps_last (m : MemId) (s : State) : Request → Prop
  | .munmap i => ∀ j, piece s m j → j = i
  | .move i a => ∀ w, s.vmas.get i = some w →
    ¬range_free s w.mm a (a + (w.vm_end - w.vm_start))
  | _ => True

/-- The log follows the registrations. -/
theorem piecesKeep_iff (hs : At h s.view s) (hlt : m < s.mems.next) :
    PiecesKeep m s ↔ ((∃ i, piece s m i) ↔ ∃ f, s.view.mems m = some f) := by
  have hlog := hs.wf.logs.mem m
  constructor
  · intro hp
    constructor
    · intro hpc
      obtain ⟨⟨x, hx⟩, -⟩ := hp.held hpc
      exact ⟨_, hs.mem_view hx⟩
    · rintro ⟨f, hf⟩
      obtain ⟨x, hx, -⟩ := hs.mem_live hf
      by_contra hno
      have hgone := (hp.released fun i hi => hno ⟨i, hi⟩).1
      cases hgone.symm.trans hx
  · intro hiff
    constructor
    · intro hpc
      obtain ⟨f, hf⟩ := hiff.mp hpc
      obtain ⟨x, hx, -⟩ := hs.mem_live hf
      refine ⟨⟨x, hx⟩, hlog.trans (if_neg ?_)⟩
      rintro ⟨-, hnone⟩
      cases hnone.symm.trans hx
    · intro hno
      have hnone : s.mems.get m = none := by
        cases hx : s.mems.get m with
        | none => rfl
        | some x =>
          obtain ⟨i, hi⟩ := hiff.mpr ⟨_, hs.mem_view hx⟩
          exact absurd hi (hno i)
      exact ⟨hnone, hlog.trans (if_pos ⟨hlt, hnone⟩)⟩

/-- A request on a VMA of a registration that exists does not get stuck. -/
theorem not_stuck_of_cuts {e : Fault} (hst : Stuck s.view s r e) (ht : Tidy s.view)
    (hc : cuts m s r) (hm : ∃ f, s.view.mems m = some f) : False := by
  obtain ⟨i, hi, w, hw, hwm⟩ := hc
  obtain ⟨f, hf⟩ := hm
  have hone : ∀ n, closes_mem s.view s r n → n = m := by
    intro n hn
    have hclose : ∀ u, s.view.vmas.get i = some u → u.closes = some n → n = m := by
      intro u hu hcl
      obtain rfl := Option.some.inj (hw.symm.trans hu)
      exact Option.some.inj (hcl.symm.trans ((ht.closes i w hw).trans hwm))
    cases r with
    | munmap j =>
      cases hi
      obtain ⟨u, hu, hcl⟩ := hn
      exact hclose u hu hcl
    | move j a =>
      cases hi
      obtain ⟨u, hu, hcl, -⟩ := hn
      exact hclose u hu hcl
    | _ => exact hn.elim
  cases hst with
  | table_short hr hm' hf' => exact hf' (ht.fits _ _ hm')
  | vma_freed hr hm' =>
    rw [hone _ hr] at hm'
    cases hm'.symm.trans hf
  | group_freed hr => cases r <;> cases hr <;> cases hi
  | table_freed => cases hi
  | wrong_type => cases hi
  | wrong_table => cases hi
  | null_page_table => cases hi

theorem close_mem_none {f : BafsMem} : (v.close_mem m f).mems m = none := by
  rw [View.close_mem_mems, Function.update_self]

/-- One request on a VMA of the registration. -/
theorem Effect.pieces_iff (he : Effect h s.view s r h' v') (ht : Tidy s.view)
    (hc : cuts m s r) (hm : ∃ f, s.view.mems m = some f) :
    ((∃ i w, v'.vmas.get i = some w ∧ w.vm_private_data = some m) ↔ ∃ f, v'.mems m = some f) ↔
      unmaps_last m s r := by
  obtain ⟨i, hi, w, hw, hwm⟩ := hc
  have hcl : w.closes = some m := (ht.closes i w hw).trans hwm
  cases he with
  | @split j at_ u hu hat =>
    cases hi
    obtain rfl := Option.some.inj (hw.symm.trans hu)
    refine iff_of_true (iff_of_true ⟨s.view.vmas.next, w.upper at_, ?_, hwm⟩ hm) trivial
    show ((s.view.vmas.set i (w.lower at_)).alloc (w.upper at_)).get s.view.vmas.next = _
    rw [Heap.get_alloc, if_pos Heap.next_set.symm]
  | split_refused hu =>
    cases hi
    exact iff_of_true (iff_of_true ⟨i, w, hw, hwm⟩ hm) trivial
  | munmap hu hnone =>
    cases hi
    obtain rfl := Option.some.inj (hw.symm.trans hu)
    cases hnone.symm.trans hcl
  | @munmap_mem j u n f hu hcl' hf =>
    cases hi
    obtain rfl := Option.some.inj (hw.symm.trans hu)
    obtain rfl := Option.some.inj (hcl.symm.trans hcl')
    rw [close_mem_none]
    constructor
    · intro hiff j hj
      by_contra hne
      obtain ⟨u, hu', hum⟩ := hj
      obtain ⟨g, hg⟩ := hiff.mp ⟨j, u, by
        rw [show (View.close_mem _ m f).vmas = s.view.vmas.free i from rfl, Heap.get_free,
          if_neg hne]
        exact hu', hum⟩
      cases hg
    · intro hk
      refine iff_of_false ?_ (by rintro ⟨g, hg⟩; cases hg)
      rintro ⟨j, u, hu', hum⟩
      obtain ⟨hne, hu'⟩ := Heap.get_of_free hu'
      exact hne (hk j ⟨u, hu', hum⟩)
  | move hu hr hnone =>
    cases hi
    obtain rfl := Option.some.inj (hw.symm.trans hu)
    cases hnone.symm.trans hcl
  | @move_mem j a u n f hu hr hcl' hf =>
    cases hi
    obtain rfl := Option.some.inj (hw.symm.trans hu)
    obtain rfl := Option.some.inj (hcl.symm.trans hcl')
    refine iff_of_false ?_ fun hk => hk w hw hr
    rw [close_mem_none]
    intro hiff
    -- the copy still points to the registration
    have hne : s.view.vmas.next ≠ i := (Heap.lt_next_of_get hw).ne'
    have hcopy : ((s.view.vmas.alloc (w.moved a)).free i).get s.view.vmas.next =
        some (w.moved a) := by
      rw [Heap.get_free, if_neg hne, Heap.get_alloc, if_pos rfl]
    obtain ⟨g, hg⟩ := hiff.mp ⟨_, _, hcopy, hwm⟩
    cases hg
  | move_taken hu hr =>
    cases hi
    refine iff_of_true (iff_of_true ⟨i, w, hw, hwm⟩ hm) fun u hu' => ?_
    obtain rfl := Option.some.inj (hw.symm.trans hu)
    obtain rfl := Option.some.inj (hw.symm.trans hu')
    exact hr
  | no_vma hi' hnone =>
    obtain rfl := Option.some.inj (hi.symm.trans hi')
    cases hnone.symm.trans hw
  | no_file hf => cases r <;> cases hf <;> cases hi
  | opened hr | not_opened hr => cases r <;> first | exact hr.elim | cases hi
  | _ => cases hi

/-- A registration of two pages is mapped. -/
def mapped_once : List Request :=
  [.open_core a_task granted_ctx, .reg_mem 0 BAFS_CORE_IOC_REG_MEM 8192 BAFS_MEM_CPU,
    .map 0 0x10000 2 1]

/-- The registration 0 is live, and the VMA 0 is the only one there is. -/
def one_mapped (s : State) : Bool :=
  (s.mems.get 0).any (fun x => x.state = .LIVE) && s.vmas.next == 1 &&
    (s.vmas.get 0).any fun w => w.vm_private_data = some 0

theorem one_mapped_spec (hs : one_mapped s = true) :
    (∃ x, s.mems.get 0 = some x ∧ x.state = .LIVE) ∧ ∀ j, piece s 0 j ↔ j = 0 := by
  simp only [one_mapped, Bool.and_eq_true, Option.any_eq_true, decide_eq_true_eq,
    beq_iff_eq] at hs
  obtain ⟨⟨⟨x, hx, hlive⟩, hnext⟩, w, hw, hwm⟩ := hs
  refine ⟨⟨x, hx, hlive⟩, fun j => ?_⟩
  constructor
  · rintro ⟨u, hu, -⟩
    have hlt : j < s.vmas.next := Heap.lt_next_of_get hu
    rw [hnext] at hlt
    exact Nat.lt_one_iff.mp hlt
  · rintro rfl
    exact ⟨w, hw, hwm⟩

theorem cuts_whole (hs : one_mapped s = true) : Along step (cuts 0) [.munmap 0] s := by
  refine ⟨⟨0, rfl, ((one_mapped_spec hs).2 0).mpr rfl⟩, ?_⟩
  unfold wp
  cases step (.munmap 0) s <;> trivial

theorem mapped_once_ends : ends step one_mapped mapped_once init = true := by decide +kernel

/-- The first of the two pages is unmapped alone. -/
def first_page : List Request := [.split 0 0x11000, .munmap 0]

end BafsDriver
