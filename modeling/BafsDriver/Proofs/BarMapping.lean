import BafsDriver.Proofs.RegProofs
import BafsDriver.Scenario

/-!
# Where the registers of a controller are mapped

`bafs_ctrl_mmap` hands the start of BAR 0 to `io_remap_pfn_range` as a page frame number without
shifting it, so the VMA shows physical memory at `PAGE_SIZE` times the address of the BAR. The layout of
a group is right: the BARs follow each other as long as they fit into the address space.
-/

namespace BafsDriver

open Prog

variable {h : Held Kind} {v : View} {s : State} {l : List CtrlId} {a i j off : Nat} {c : CtrlId}

/-- A range of the list maps the user address `addr` to the physical address `phys`. -/
def maps_to (R : List Remap) (addr phys : Nat) : Prop :=
  ∃ q ∈ R, ∃ o < q.size, addr = q.addr + o ∧ phys = q.pfn * PAGE_SIZE + o

/-- The ranges have no address in common. -/
def apart (q q' : Remap) : Prop :=
  ∀ x, ¬((q.addr ≤ x ∧ x < q.addr + q.size) ∧ q'.addr ≤ x ∧ x < q'.addr + q'.size)

/-- The length of the BARs before that of controller `i`. -/
def bar_off (s : State) (l : List CtrlId) (i : Nat) : Nat := ((l.take i).map (bar_len s)).sum

/-- The BARs of the controllers are mapped one after another from `vm_start` on, each in a range of its
own. -/
structure BarsInPlace (s : State) (l : List CtrlId) (vm_start : Nat) (R : List Remap) : Prop where
  mapped : ∀ i c, l[i]? = some c → ∀ o < bar_len s c,
    maps_to R (vm_start + bar_off s l i + o) (bar_start s c + o)
  apart : R.Pairwise apart

/-- Each BAR is empty or starts at the physical address 0, and all fit into the address space. -/
def bars_low (s : State) (l : List CtrlId) (vm_start : Nat) : Prop :=
  (∀ c ∈ l, bar_len s c = 0 ∨ bar_start s c = 0) ∧ vm_start + bar_off s l l.length ≤ 2 ^ 64

/-- Every mmap of BARs that succeeds puts them in their place exactly if they start at 0 and fit. -/
def BarMmaps (s : State) : Prop :=
  ∀ f x l mm vm_start vm_end env, s.files.get f = some x → bar_ctrls s.view x = some l →
    range_free s mm vm_start vm_end →
    wp (mmap_file x (new_vma mm vm_start vm_end 0) env) (fun _ => False) (fun r _ => r.2 = 0 →
      (BarsInPlace s l vm_start r.1.remaps ↔ bars_low s l vm_start)) s

/-! ## The layout -/

theorem bar_off_cons (i : Nat) : bar_off s (c :: l) (i + 1) = bar_len s c + bar_off s l i := by
  simp [bar_off]

theorem bar_off_succ (hi : l[i]? = some c) : bar_off s l (i + 1) = bar_off s l i + bar_len s c := by
  simp [bar_off, List.take_add_one, hi]

theorem bar_off_mono (hij : i ≤ j) : bar_off s l i ≤ bar_off s l j := by
  induction j, hij using Nat.le_induction with
  | base => exact le_rfl
  | succ j hij ih =>
    cases hj : l[j]? with
    | some c =>
      rw [bar_off_succ hj]
      omega
    | none =>
      have : l.take (j + 1) = l.take j := by simp [List.take_add_one, hj]
      unfold bar_off at ih ⊢
      rw [this]
      exact ih

/-- The range that is asked for controller `i`. -/
theorem getElem_bar_remaps : (bar_remaps s a off l)[i]? = l[i]?.map fun c =>
    ⟨u64 (a + off + bar_off s l i), bar_start s c, bar_len s c, some c⟩ := by
  induction l generalizing off i with
  | nil => rfl
  | cons c l ih =>
    cases i with
    | zero => simp [bar_remaps, bar_off]
    | succ i =>
      rw [bar_remaps, List.getElem?_cons_succ, ih, List.getElem?_cons_succ, bar_off_cons]
      have : u64 (a + u64 (off + bar_len s c) + bar_off s l i) =
          u64 (a + off + (bar_len s c + bar_off s l i)) := by
        unfold u64
        omega
      rw [this]

theorem getElem_bar_remaps_zero : (bar_remaps s a 0 l)[i]? = l[i]?.map fun c =>
    ⟨u64 (a + bar_off s l i), bar_start s c, bar_len s c, some c⟩ := getElem_bar_remaps

/-- Two controllers of the list are mapped apart where their ranges do not run past the end of the
address space. -/
theorem bar_remaps_apart (hfit : a + bar_off s l l.length ≤ 2 ^ 64) :
    (bar_remaps s a 0 l).Pairwise apart := by
  rw [List.pairwise_iff_getElem]
  intro i j hi hj hij
  have hi' := List.getElem?_eq_getElem hi
  have hj' := List.getElem?_eq_getElem hj
  rw [getElem_bar_remaps_zero] at hi' hj'
  obtain ⟨c, hc, hqi⟩ := Option.map_eq_some_iff.mp hi'
  obtain ⟨d, hd, hqj⟩ := Option.map_eq_some_iff.mp hj'
  rw [← hqi, ← hqj]
  intro x hx
  obtain ⟨⟨hx1, hx2⟩, hx3, hx4⟩ := hx
  dsimp only at hx1 hx2 hx3 hx4
  have hlt := (List.getElem?_eq_some_iff.mp hd).1
  have h1 := bar_off_succ (s := s) hc
  have h2 := bar_off_mono (s := s) (l := l) (show i + 1 ≤ j from hij)
  have h3 := bar_off_succ (s := s) hd
  have h4 := bar_off_mono (s := s) (l := l) (show j + 1 ≤ l.length from hlt)
  have h5 : u64 (a + bar_off s l i) = a + bar_off s l i := Nat.mod_eq_of_lt (by omega)
  have h6 : u64 (a + bar_off s l j) = a + bar_off s l j := Nat.mod_eq_of_lt (by omega)
  omega

/-- Where the BARs are in their place, each address of a BAR is mapped by the range of its controller,
which starts at the physical page that the BAR has for an address. -/
theorem bars_low_of_mapped (hstart : a < 2 ^ 64)
    (hok : ∀ q ∈ bar_remaps s a 0 l, q.addr + q.size ≤ 2 ^ 64)
    (hp : BarsInPlace s l a (bar_remaps s a 0 l)) : bars_low s l a := by
  -- no address of a BAR is past the end of the address space
  have hbound : ∀ i c, l[i]? = some c → ∀ o < bar_len s c, a + bar_off s l i + o < 2 ^ 64 := by
    intro i c hc o ho
    obtain ⟨q, hq, o', ho', haddr, -⟩ := hp.mapped i c hc o ho
    have := hok q hq
    omega
  constructor
  · intro c hc
    obtain ⟨i, hi⟩ := List.getElem?_of_mem hc
    by_contra hno
    rw [not_or] at hno
    have hpos : 0 < bar_len s c := Nat.pos_of_ne_zero hno.1
    have hlow := hbound i c hi 0 hpos
    obtain ⟨q, hq, o, ho, haddr, hphys⟩ := hp.mapped i c hi 0 hpos
    have hown : (bar_remaps s a 0 l)[i]? =
        some ⟨a + bar_off s l i, bar_start s c, bar_len s c, some c⟩ := by
      rw [getElem_bar_remaps_zero, hi]
      have : u64 (a + bar_off s l i) = a + bar_off s l i := Nat.mod_eq_of_lt (by omega)
      rw [Option.map_some, this]
    obtain ⟨k, hk⟩ := List.getElem?_of_mem hq
    have hik : k = i := by
      by_contra hne
      obtain ⟨hklt, hk'⟩ := List.getElem?_eq_some_iff.mp hk
      obtain ⟨hilt, hi'⟩ := List.getElem?_eq_some_iff.mp hown
      have hpw := List.pairwise_iff_getElem.mp hp.apart
      rcases Nat.lt_or_gt_of_ne hne with hlt | hgt
      · have hap := hpw k i hklt hilt hlt
        rw [hk', hi'] at hap
        refine hap (a + bar_off s l i) ⟨⟨by omega, by omega⟩, ?_, ?_⟩
        · exact le_rfl
        · show a + bar_off s l i < a + bar_off s l i + bar_len s c
          omega
      · have hap := hpw i k hilt hklt hgt
        rw [hk', hi'] at hap
        refine hap (a + bar_off s l i) ⟨⟨?_, ?_⟩, by omega, by omega⟩
        · exact le_rfl
        · show a + bar_off s l i < a + bar_off s l i + bar_len s c
          omega
    subst hik
    obtain rfl := Option.some.inj (hk.symm.trans hown)
    dsimp only at haddr hphys
    unfold PAGE_SIZE at hphys
    omega
  · -- the end of the last BAR that is not empty is in the address space
    have hall : ∀ i ≤ l.length, a + bar_off s l i ≤ 2 ^ 64 := by
      intro i hi
      induction i with
      | zero =>
        have : bar_off s l 0 = 0 := by simp [bar_off]
        omega
      | succ i ih =>
        have hlt : i < l.length := hi
        have hc : l[i]? = some l[i] := List.getElem?_eq_getElem hlt
        have hih := ih (by omega)
        rw [bar_off_succ hc]
        by_cases hz : bar_len s l[i] = 0
        · omega
        · have := hbound i _ hc (bar_len s l[i] - 1) (by omega)
          omega
    exact hall l.length le_rfl

theorem bars_in_place_iff (hstart : a < 2 ^ 64)
    (hok : ∀ q ∈ bar_remaps s a 0 l, q.addr + q.size ≤ 2 ^ 64) :
    BarsInPlace s l a (bar_remaps s a 0 l) ↔ bars_low s l a := by
  refine ⟨bars_low_of_mapped hstart hok, ?_⟩
  rintro ⟨hzero, hfit⟩
  refine ⟨?_, bar_remaps_apart hfit⟩
  intro i c hc o ho
  have hlt := (List.getElem?_eq_some_iff.mp hc).1
  have h1 := bar_off_succ (s := s) hc
  have h2 := bar_off_mono (s := s) (l := l) (show i + 1 ≤ l.length from hlt)
  have haddr : u64 (a + bar_off s l i) = a + bar_off s l i := Nat.mod_eq_of_lt (by omega)
  have hq : (bar_remaps s a 0 l)[i]? =
      some ⟨a + bar_off s l i, bar_start s c, bar_len s c, some c⟩ := by
    rw [getElem_bar_remaps_zero, hc, Option.map_some, haddr]
  refine ⟨_, List.mem_of_getElem? hq, o, ho, rfl, ?_⟩
  have hs : bar_start s c = 0 := by
    rcases hzero c (List.mem_of_getElem? hc) with hz | hz
    · omega
    · exact hz
  dsimp only
  rw [hs, Nat.zero_mul]

/-! ## The mmap -/

theorem bar_mmaps (hi : Inv s) : BarMmaps s := by
  intro f x l mm a b env hx hl hr
  obtain ⟨h, hlost, hs⟩ := hi.sane.at
  have hvm : a < 2 ^ 64 := hr.1.trans hr.2.1
  have hmaps : maps_bars x 0 := by
    cases x with
    | core c => cases hl
    | ctrl y => rfl
    | group y => rfl
  refine wp_mono (mmap_file_spec hs hlost.nonneg hx hvm rfl fun _ hg => ?_) fun r s' hm hret => ?_
  · cases x with
    | core c => exact hg
    | ctrl y => exact hg
    | group y => cases hl.symm.trans hg
  · obtain ⟨h', v', hm, -⟩ := hm
    obtain ⟨w, ret⟩ := r
    obtain rfl : ret = 0 := hret
    rw [mmapped_ok] at hm
    cases hm with
    | bars_mapped hp hl' hok =>
      obtain rfl := Option.some.inj (hl.symm.trans hl')
      refine bars_in_place_iff hvm fun q hq => ?_
      obtain ⟨k, hk⟩ := List.getElem?_of_mem hq
      exact (hok k q hk).2
    | pinned hnp => exact absurd hmaps hnp

/-- In every state that a run reaches, a mapping of BARs that succeeds shows each of them at its place
exactly if they start at the physical address 0 and fit into the address space. -/
theorem bar_mapping (rs : List Request) : Always step (fun _ => True) BarMmaps rs init := by
  refine always_of_step (I := Inv) (fun s r hi => ?_) (fun s hi => bar_mmaps hi) rs inv_init
  obtain ⟨h, -, -, hw⟩ := step_inv r hi
  exact wp_weaken (wp_mono hw fun _ s' hs' => hs'.1) fun _ _ => trivial

/-- The state with a controller whose BAR is at `0x100000`, and an open file of the controller. -/
def one_ctrl : List Request := [.bind 0 0x100000 4096, .open_ctrl 0 a_task granted_open]

/-- The BAR of the controller is mapped through the file 0. -/
def one_bar (s : State) : Drv (Vma × Int) :=
  match s.files.get 0 with
  | some x => mmap_file x (new_vma 1 0x10000 0x11000 0) granted_mmap
  | none => pure (new_vma 1 0x10000 0x11000 0, -EBADF)

/-- The mmap succeeds, and the first address of the VMA shows the physical address `0x100000000`. -/
theorem bar_mapped_elsewhere : ∃ s r s', run step one_ctrl init = .ok s ∧ one_bar s s = .ok (r, s') ∧
    r.2 = 0 ∧ ¬BarsInPlace s [0] 0x10000 r.1.remaps := by
  have hend : ends step (fun s => bar_start s 0 == 0x100000 && bar_len s 0 == 4096 &&
      match one_bar s s with
      | .ok (r, _) => decide (r.2 = 0) &&
        decide (r.1.remaps = [⟨0x10000, 0x100000, 4096, some 0⟩])
      | .error _ => false) one_ctrl init = true := by decide +kernel
  obtain ⟨hrun, hd⟩ := run_final hend
  generalize final step one_ctrl init = s at hrun hd
  simp only [Bool.and_eq_true, beq_iff_eq] at hd
  obtain ⟨⟨hstart, hlen⟩, hd⟩ := hd
  cases hm : one_bar s s with
  | error e =>
    rw [hm] at hd
    cases hd
  | ok p =>
    rw [hm] at hd
    obtain ⟨r, s'⟩ := p
    simp only [Bool.and_eq_true, decide_eq_true_eq] at hd
    obtain ⟨hret, hre⟩ := hd
    refine ⟨s, r, s', hrun, hm, hret, fun hp => ?_⟩
    obtain ⟨q, hq, o, ho, haddr, hphys⟩ := hp.mapped 0 0 rfl 0 (by rw [hlen]; decide)
    rw [hre, List.mem_singleton] at hq
    subst hq
    rw [hstart] at hphys
    unfold PAGE_SIZE at hphys
    dsimp only at hphys
    omega

end BafsDriver
