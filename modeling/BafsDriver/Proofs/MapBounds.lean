import BafsDriver.Proofs.BarMapping
import BafsDriver.Proofs.TraceProofs

/-!
# What the kernel is asked to map

A CPU registration is mapped by `vm_map_pages_zero`, which looks at the VMA itself. The loops over the
pages of the NVIDIA driver and over the BARs of the controllers run over the size of the registration
and over the BARs, and do not look where the VMA ends: what they ask for is inside the VMA exactly if
the ranges they come to fit into it.
-/

set_option linter.style.nameCheck false

namespace BafsDriver

open Prog

variable {h : Held Kind} {v : View} {s : State} {a b k : Nat} {fail : Nat → Option Errno}

/-- The start and the length of the range that a call asks the kernel to map. -/
def Event.range : Event → Option (Nat × Nat)
  | .vm_map_pages_zero first last => some (first, last - first)
  | .io_remap_pfn_range addr _ size => some (addr, size)
  | _ => none

/-- Every address of the range is one of the VMA. -/
def inside (vm_start vm_end : Nat) (q : Nat × Nat) : Prop :=
  ∀ o < q.2, vm_start ≤ q.1 + o ∧ q.1 + o < vm_end

/-- The ranges that an mmap asks the kernel to map are inside the VMA. It gets stuck only on the
controllers of a group that is gone. -/
def AsksInside (s : State) (x : File) (mm vm_start vm_end vm_pgoff : Nat) (env : MmapEnv) : Prop :=
  wp (mmap_file x (new_vma mm vm_start vm_end vm_pgoff) env)
    (fun e => e = .freed_group ∧ group_gone s.view x)
    (fun _ s' => ∃ new, calls Event.range s' = new ++ calls Event.range s ∧
      ∀ q ∈ new, inside vm_start vm_end q) s

/-- The BARs fit into the VMA one after another, as far as the kernel maps those before. -/
def bars_fit (s : State) (l : List CtrlId) (vm_start vm_end : Nat) (fail : Nat → Option Errno) :
    Prop :=
  ∀ i c, l[i]? = some c → (∀ j < i, fail j = none) →
    bar_len s c = 0 ∨ vm_start + bar_off s l (i + 1) ≤ vm_end

/-- The pages of a CUDA registration fit into the VMA, as far as the NVIDIA driver and the kernel let
the loop get. -/
def pages_fit (x : BafsMem) (vm_start vm_end : Nat) (env : PinEnv) : Prop :=
  ∀ table page_size page_shift, env.nvidia_p2p_get_pages = .ok table →
    table.version_compatible = true → cuda_page_size table.page_size = some (page_size, page_shift) →
    vm_start &&& mask_for page_size = vm_start →
    pages_for x.size page_size page_shift = table.physical_address.length →
    ∀ i < pages_for x.size page_size page_shift, (∀ j < i, env.io_remap_pfn_range j = none) →
      vm_start + (i + 1) * page_size ≤ vm_end

/-- What the mmap maps fits into the VMA. -/
def fits_vma (s : State) (x : File) (vm_start vm_end vm_pgoff : Nat) (env : MmapEnv) : Prop :=
  (maps_bars x vm_pgoff → ∀ l, bar_ctrls s.view x = some l →
    bars_fit s l vm_start vm_end env.bar) ∧
  (¬maps_bars x vm_pgoff → ∀ m y, Selects s.view x.ctx vm_pgoff m → s.mems.get m = some y →
    y.loc = BAFS_MEM_CUDA → pages_fit y vm_start vm_end env.pin)

/-! ## Ranges that are asked for one after another -/

/-- The ranges of the list that are asked for: a loop stops at the first that is refused. -/
def asked_ranges (fail : Nat → Option Errno) : Nat → List (Nat × Nat) → List (Nat × Nat)
  | _, [] => []
  | k, q :: R => q :: if fail k = none ∧ q.1 + q.2 ≤ 2 ^ 64 then asked_ranges fail (k + 1) R else []

/-- Ranges that follow each other from `a` on are asked for inside the VMA exactly if those that the
loop comes to fit. -/
theorem asked_inside_iff {R : List (Nat × Nat)} (off : Nat → Nat)
    (hR : ∀ i q, R[i]? = some q → q.1 = u64 (a + off i) ∧ off (i + 1) = off i + q.2)
    (h0 : a + off 0 ≤ b) (hb : b < 2 ^ 64) :
    (∀ q ∈ asked_ranges fail k R, inside a b q) ↔
      ∀ i q, R[i]? = some q → (∀ j < i, fail (k + j) = none) → q.2 = 0 ∨ a + off (i + 1) ≤ b := by
  induction R generalizing off k with
  | nil => simp [asked_ranges]
  | cons q R ih =>
    have hoff : off 1 = off 0 + q.2 := (hR 0 q rfl).2
    have haddr : q.1 = a + off 0 := (hR 0 q rfl).1.trans (Nat.mod_eq_of_lt (by omega))
    have hin : inside a b q ↔ q.2 = 0 ∨ a + off 1 ≤ b := by
      constructor
      · intro hq
        by_cases hz : q.2 = 0
        · exact .inl hz
        · have := hq (q.2 - 1) (by omega)
          omega
      · rintro (hz | hle) o ho
        · omega
        · omega
    have htail : ∀ i q', R[i]? = some q' →
        q'.1 = u64 (a + off (i + 1)) ∧ off (i + 1 + 1) = off (i + 1) + q'.2 :=
      fun i q' hq' => hR (i + 1) q' hq'
    unfold asked_ranges
    constructor
    · intro hall i q' hq' hok
      have hq := hin.mp (hall q List.mem_cons_self)
      cases i with
      | zero =>
        obtain rfl : q = q' := Option.some.inj hq'
        exact hq
      | succ i =>
        have hk : fail k = none := hok 0 (Nat.zero_lt_succ i)
        have hle : a + off 1 ≤ b := by omega
        rw [if_pos ⟨hk, by omega⟩] at hall
        refine (ih (k := k + 1) (fun i => off (i + 1)) htail hle).mp
          (fun q hq => hall q (List.mem_cons_of_mem _ hq)) i q' hq' fun j hj => ?_
        have := hok (j + 1) (by omega)
        rwa [show k + (j + 1) = k + 1 + j by omega] at this
    · intro hfit q' hq'
      have hq : q.2 = 0 ∨ a + off 1 ≤ b := hfit 0 q rfl fun j hj => absurd hj (Nat.not_lt_zero j)
      rcases List.mem_cons.mp hq' with rfl | hq'
      · exact hin.mpr hq
      · have hle : a + off 1 ≤ b := by omega
        split at hq'
        · rename_i hok
          refine (ih (k := k + 1) (fun i => off (i + 1)) htail hle).mpr
            (fun i p hp hokp => hfit (i + 1) p hp fun j hj => ?_) q' hq'
          cases j with
          | zero => exact hok.1
          | succ j =>
            have := hokp j (by omega)
            rwa [show k + 1 + j = k + (j + 1) by omega] at this
        · cases hq'

/-! ## What the loops ask for -/

theorem io_remap_pfn_range_asks {vma : Vma} {addr pfn size : Nat} {bar : Option CtrlId}
    {fail : Option Errno} : wp (io_remap_pfn_range vma addr pfn size bar fail) (fun _ => True)
      (fun r s' => calls Event.range s' = (addr, size) :: calls Event.range s ∧
        s'.ctrls = s.ctrls ∧ r.1.vm_start = vma.vm_start ∧
        if fail = none ∧ addr + size ≤ 2 ^ 64 then r.2 = 0 else r.2 < 0) s := by
  unfold io_remap_pfn_range
  rw [wp_bind, emit, wp_modify]
  cases fail with
  | some e => exact ⟨rfl, rfl, rfl, by rw [if_neg (by rintro ⟨hn, -⟩; cases hn)]; exact e.ret_neg⟩
  | none =>
    refine wp_ite (fun hl => ?_) fun hl => ?_
    · exact ⟨rfl, rfl, rfl, by rw [if_neg (by omega)]; exact (by decide : -EINVAL < 0)⟩
    · exact ⟨rfl, rfl, rfl, by rw [if_pos ⟨rfl, by omega⟩]⟩

/-- The range of page `i` of a CUDA registration. -/
def cuda_range (x : BafsMem) (i : Nat) : Nat × Nat :=
  (u64 (x.vaddr + u64 (i * x.page_size)), remap_len i x.page_size x.size)

theorem remap_pages_asks {x : BafsMem} {pages : List Nat} {vma : Vma} :
    wp (remap_pages x pages fail vma) (fun _ => True) (fun _ s' => calls Event.range s' =
      (asked_ranges fail 0 ((List.range x.n_pages).map (cuda_range x))).reverse ++
        calls Event.range s) s := by
  unfold remap_pages
  rw [List.range_eq_range']
  generalize 0 = k
  generalize x.n_pages = n
  induction n generalizing k vma s with
  | zero => exact rfl
  | succ n ih =>
    rw [List.range'_succ, iterate, wp_bind, List.map_cons, asked_ranges]
    cases pages[k]? with
    | none => trivial
    | some phys =>
      refine io_remap_pfn_range_asks.bind fun r s₁ hr => ?_
      obtain ⟨w, ret⟩ := r
      obtain ⟨hcalls, -, -, hret⟩ := hr
      by_cases hok : fail k = none ∧ (cuda_range x k).1 + (cuda_range x k).2 ≤ 2 ^ 64
      · have hret : ret = 0 := (if_pos hok).mp hret
        subst hret
        rw [wp_pure, if_pos hok]
        refine wp_mono (ih (k + 1)) fun _ s₂ hs₂ => ?_
        rw [hs₂, hcalls, List.reverse_cons, List.append_assoc]
        rfl
      · have hret : ret < 0 := (if_neg hok).mp hret
        rw [wp_pure, if_neg hok, if_pos (by omega)]
        exact hcalls

/-- A call that asks for no range. -/
def no_range (e : Event) : Prop := e.range = none

theorem table_call_no_range {e : Event} (he : table_call e) : no_range e := by
  cases e with
  | nvidia_p2p_put_pages | nvidia_p2p_free_page_table => rfl
  | _ => exact he.elim

/-- A program that asks for no range leaves those that were asked for. -/
theorem Adds.asks {α : Type} {c : Drv α} (hc : Adds no_range c) :
    Preserves (fun _ => True) c (BafsDriver.calls Event.range) := hc.calls fun _ he => he

theorem bafs_ctrl_mmap_asks {c : CtrlId} {vma : Vma} {vaddr : Nat} {fail : Option Errno} :
    wp (bafs_ctrl_mmap c vma vaddr fail) (fun _ => True) (fun r s' =>
      calls Event.range s' = (vaddr, bar_len s c) :: calls Event.range s ∧
        if fail = none ∧ vaddr + bar_len s c ≤ 2 ^ 64 then
          r.2.1 = 0 ∧ r.2.2 = bar_len s c ∧ r.1.vm_start = vma.vm_start ∧
            ∀ d, bar_len s' d = bar_len s d
        else r.2.1 < 0) s := by
  unfold bafs_ctrl_mmap
  cases hx : s.ctrls.get c with
  | none =>
    rw [wp_bind, bafs_get_ctrl, ctrl_upd, wp_bind]
    exact wp_load_of (fun _ => trivial) fun x hx' => by cases hx.symm.trans hx'
  | some x =>
    have hlen : bar_len s c = x.pdev.resource_len := by simp [bar_len, hx]
    rw [wp_bind, bafs_get_ctrl, wp_ctrl_upd hx, wp_bind, wp_ctrl_at (Heap.get_set_self hx)]
    refine io_remap_pfn_range_asks.bind fun r s₁ hr => ?_
    obtain ⟨w, ret⟩ := r
    obtain ⟨hcalls, hctrls, hstart, hret⟩ := hr
    rw [hlen]
    by_cases hok : fail = none ∧ vaddr + x.pdev.resource_len ≤ 2 ^ 64
    · obtain rfl : ret = 0 := (if_pos hok).mp hret
      dsimp only
      rw [if_neg (by decide), wp_pure, if_pos hok]
      refine ⟨hcalls, rfl, rfl, hstart, fun d => ?_⟩
      unfold bar_len
      rw [hctrls, Heap.get_set hx]
      by_cases hd : d = c
      · simp [hd, hx]
      · simp [hd]
    · have hret : ret < 0 := (if_neg hok).mp hret
      dsimp only
      rw [if_pos hret]
      refine (bafs_ctrl_release_adds.asks s₁).bind fun _ s₂ hs₂ => ?_
      rw [wp_pure, if_neg hok]
      exact ⟨hs₂.trans hcalls, hret⟩

/-- The ranges of the BARs, one after another from the offset `off` on. -/
def bar_ranges (s : State) (vm_start : Nat) : Nat → List CtrlId → List (Nat × Nat)
  | _, [] => []
  | off, c :: l => (u64 (vm_start + off), bar_len s c) ::
    bar_ranges s vm_start (u64 (off + bar_len s c)) l

theorem bar_ranges_congr {s' : State} (hs : ∀ c, bar_len s' c = bar_len s c) :
    bar_ranges s' = bar_ranges s := by
  funext a off l
  induction l generalizing off with
  | nil => rfl
  | cons c l ih => rw [bar_ranges, bar_ranges, hs c, ih]

theorem getElem_bar_ranges {l : List CtrlId} {off i : Nat} : (bar_ranges s a off l)[i]? =
    l[i]?.map fun c => (u64 (a + off + bar_off s l i), bar_len s c) := by
  induction l generalizing off i with
  | nil => rfl
  | cons c l ih =>
    cases i with
    | zero => simp [bar_ranges, bar_off]
    | succ i =>
      rw [bar_ranges, List.getElem?_cons_succ, ih, List.getElem?_cons_succ, bar_off_cons]
      have : u64 (a + u64 (off + bar_len s c) + bar_off s l i) =
          u64 (a + off + (bar_len s c + bar_off s l i)) := by
        unfold u64
        omega
      rw [this]

theorem group_mmap_loop_asks {l : List CtrlId} {vma : Vma} :
    wp (group_mmap_loop fail l.zipIdx vma) (fun _ => True) (fun _ s' => calls Event.range s' =
      (asked_ranges fail 0 (bar_ranges s vma.vm_start 0 l)).reverse ++ calls Event.range s) s := by
  unfold group_mmap_loop
  have hgen : ∀ (l : List CtrlId) (k : Nat) (acc : Vma × Nat) (s : State),
      acc.1.vm_start = vma.vm_start → wp (iterate (fun ci acc => do
        let r ← bafs_ctrl_mmap ci.1 acc.1 (u64 (acc.1.vm_start + acc.2)) (fail ci.2)
        if r.2.1 < 0 then
          pure (acc, some r.2.1)
        else
          pure ((r.1, u64 (acc.2 + r.2.2)), none)) (l.zipIdx k) acc) (fun _ => True)
        (fun _ s' => calls Event.range s' =
          (asked_ranges fail k (bar_ranges s vma.vm_start acc.2 l)).reverse ++
            calls Event.range s) s := by
    intro l
    induction l with
    | nil => exact fun _ _ _ _ => rfl
    | cons c l ih =>
      intro k acc s hstart
      rw [List.zipIdx_cons, iterate, wp_bind, bar_ranges, asked_ranges]
      refine bafs_ctrl_mmap_asks.bind fun r s₁ hr => ?_
      obtain ⟨w, ret, size⟩ := r
      rw [hstart] at hr
      obtain ⟨hcalls, hr⟩ := hr
      by_cases hok : fail k = none ∧ u64 (vma.vm_start + acc.2) + bar_len s c ≤ 2 ^ 64
      · obtain ⟨hret, hsize, hw, hlen⟩ := (if_pos hok).mp hr
        obtain rfl : ret = 0 := hret
        obtain rfl : size = bar_len s c := hsize
        dsimp only
        rw [if_neg (by decide), wp_pure, if_pos hok]
        refine wp_mono (ih (k + 1) _ s₁ hw) fun _ s₂ hs₂ => ?_
        rw [hs₂, hcalls, bar_ranges_congr hlen, List.reverse_cons, List.append_assoc]
        rfl
      · have hret : ret < 0 := (if_neg hok).mp hr
        dsimp only
        rw [if_pos hret, wp_pure, if_neg hok]
        exact hcalls
  exact hgen l 0 (vma, 0) s rfl

/-- The BARs are asked for inside the VMA exactly if they fit. -/
theorem bars_asked_inside_iff {l : List CtrlId} (ha : a ≤ b) (hb : b < 2 ^ 64) :
    (∀ q ∈ asked_ranges fail 0 (bar_ranges s a 0 l), inside a b q) ↔ bars_fit s l a b fail := by
  have hR : ∀ i q, (bar_ranges s a 0 l)[i]? = some q →
      q.1 = u64 (a + bar_off s l i) ∧ bar_off s l (i + 1) = bar_off s l i + q.2 := by
    intro i q hq
    rw [getElem_bar_ranges] at hq
    obtain ⟨c, hc, rfl⟩ := Option.map_eq_some_iff.mp hq
    exact ⟨rfl, bar_off_succ hc⟩
  have h0 : a + bar_off s l 0 ≤ b := by
    simp [bar_off]
    exact ha
  rw [asked_inside_iff _ hR h0 hb]
  constructor
  · intro hall i c hc hok
    have hq : (bar_ranges s a 0 l)[i]? = some (u64 (a + 0 + bar_off s l i), bar_len s c) := by
      rw [getElem_bar_ranges, hc]
      rfl
    exact hall i _ hq fun j hj => by rw [Nat.zero_add]; exact hok j hj
  · intro hfit i q hq hok
    rw [getElem_bar_ranges] at hq
    obtain ⟨c, hc, rfl⟩ := Option.map_eq_some_iff.mp hq
    exact hfit i c hc fun j hj => by simpa using hok j hj

/-! ## Pages of the NVIDIA driver -/

theorem cuda_page_size_eq {p : P2pPageSize} {page_size page_shift : Nat}
    (hp : cuda_page_size p = some (page_size, page_shift)) :
    page_size = 2 ^ page_shift ∧ page_size ≤ 2 ^ 17 := by
  cases p <;> cases hp <;> decide

/-- The pages that hold `size` bytes start inside them. -/
theorem page_lt {size page_size page_shift i : Nat} (hp : page_size = 2 ^ page_shift)
    (hle : page_size ≤ 2 ^ 17) (hsize : size < 2 ^ 32) (hi : i < pages_for size page_size page_shift) :
    i * page_size < size := by
  have hpos : 0 < page_size := by
    rw [hp]
    exact Nat.two_pow_pos page_shift
  have hu : u64 (size + page_size - 1) = size + page_size - 1 := Nat.mod_eq_of_lt (by omega)
  rw [pages_for, hu, Nat.shiftRight_eq_div_pow, ← hp] at hi
  have hle := (Nat.le_div_iff_mul_le hpos).mp (Nat.succ_le_of_lt hi)
  rw [Nat.succ_mul] at hle
  omega

/-- A whole page is asked for, whatever is left of the registration. -/
theorem remap_len_eq {size page_size i : Nat} (hle : page_size ≤ 2 ^ 17) (hsize : size < 2 ^ 32)
    (hi : i * page_size < size) : remap_len i page_size size = page_size := by
  have hu : u64 (i * page_size) = i * page_size := Nat.mod_eq_of_lt (by omega)
  have hu32 : u32 page_size = page_size := Nat.mod_eq_of_lt (by omega)
  rw [remap_len, hu, if_neg (by omega), hu32]

theorem pages_asked_inside_iff {x : BafsMem} {page_shift : Nat} (fail : Nat → Option Errno) (hp : x.page_size = 2 ^ page_shift)
    (hle : x.page_size ≤ 2 ^ 17) (hsize : x.size < 2 ^ 32)
    (hn : x.n_pages = pages_for x.size x.page_size page_shift) (ha : x.vaddr ≤ b)
    (hb : b < 2 ^ 64) :
    (∀ q ∈ asked_ranges fail 0 ((List.range x.n_pages).map (cuda_range x)), inside x.vaddr b q) ↔
      ∀ i < x.n_pages, (∀ j < i, fail j = none) → x.vaddr + (i + 1) * x.page_size ≤ b := by
  have hpos : 0 < x.page_size := by
    rw [hp]
    exact Nat.two_pow_pos page_shift
  have hget : ∀ i < x.n_pages, ((List.range x.n_pages).map (cuda_range x))[i]? =
      some (u64 (x.vaddr + i * x.page_size), x.page_size) := by
    intro i hi
    have hlt := page_lt hp hle hsize (hn ▸ hi)
    have hu : u64 (i * x.page_size) = i * x.page_size := Nat.mod_eq_of_lt (by omega)
    rw [List.getElem?_map, List.getElem?_range hi, Option.map_some, cuda_range,
      remap_len_eq hle hsize hlt, hu]
  have hlen : ∀ i q, ((List.range x.n_pages).map (cuda_range x))[i]? = some q → i < x.n_pages := by
    intro i q hq
    have := (List.getElem?_eq_some_iff.mp hq).1
    simpa using this
  have hR : ∀ i q, ((List.range x.n_pages).map (cuda_range x))[i]? = some q →
      q.1 = u64 (x.vaddr + i * x.page_size) ∧ (i + 1) * x.page_size = i * x.page_size + q.2 := by
    intro i q hq
    obtain rfl := Option.some.inj ((hget i (hlen i q hq)).symm.trans hq)
    exact ⟨rfl, Nat.succ_mul i x.page_size⟩
  rw [asked_inside_iff (fun i => i * x.page_size) hR (by simpa using ha) hb]
  constructor
  · intro hall i hi hok
    have := hall i _ (hget i hi) fun j hj => by simpa using hok j hj
    rcases this with hz | hle
    · dsimp only at hz
      omega
    · exact hle
  · intro hfit i q hq hok
    exact .inr (hfit i (hlen i q hq) fun j hj => by simpa using hok j hj)

/-! ## The mmap functions -/

/-- What is asked for is inside the VMA exactly if `P` holds. -/
def AsksIff (a b : Nat) (P : Prop) (s s' : State) : Prop :=
  ∃ new, calls Event.range s' = new ++ calls Event.range s ∧ ((∀ q ∈ new, inside a b q) ↔ P)

theorem AsksIff.none {P : Prop} {s' : State} (hP : P)
    (hs : calls Event.range s' = calls Event.range s) : AsksIff a b P s s' :=
  ⟨[], hs, iff_of_true (fun q hq => by cases hq) hP⟩

theorem AsksIff.after {P : Prop} {s' s₂ : State} (h : AsksIff a b P s s')
    (hs : calls Event.range s₂ = calls Event.range s') : AsksIff a b P s s₂ := by
  obtain ⟨new, hnew, hiff⟩ := h
  exact ⟨new, hs.trans hnew, hiff⟩

theorem AsksIff.before {P : Prop} {s' s₂ : State} (h : AsksIff a b P s' s₂)
    (hs : calls Event.range s' = calls Event.range s) : AsksIff a b P s s₂ := by
  obtain ⟨new, hnew, hiff⟩ := h
  exact ⟨new, hs ▸ hnew, hiff⟩

theorem delete_page_table_asks {m : MemId} {t : TableId} :
    Preserves (fun _ => True) (delete_page_table m t) (calls Event.range) :=
  (delete_page_table_adds.mono fun _ => table_call_no_range).asks

theorem pin_bafs_cuda_mem_asks {m : MemId} {x : BafsMem} {vma : Vma} {env : PinEnv}
    (hx : s.mems.get m = some x) (hva : x.vaddr = vma.vm_start) (hsize : x.size < 2 ^ 32)
    (hle : vma.vm_start ≤ vma.vm_end) (hend : vma.vm_end < 2 ^ 64) :
    wp (pin_bafs_cuda_mem m vma env) (fun _ => True)
      (fun _ s' => AsksIff vma.vm_start vma.vm_end (pages_fit x vma.vm_start vma.vm_end env) s s')
      s := by
  unfold pin_bafs_cuda_mem nvidia_p2p_get_pages
  cases hans : env.nvidia_p2p_get_pages with
  | error e =>
    refine .none ?_ rfl
    intro table ps sh htable
    cases hans.symm.trans htable
  | ok table =>
    dsimp only
    rw [wp_bind, wp_bind, wp_get, wp_bind, wp_modify, wp_pure]
    dsimp only
    rw [wp_bind]
    refine (wp_mem_upd (x := x) (by exact hx)).mpr ?_
    -- where the loop is not reached, nothing is asked for
    have hfail : ∀ (s₁ : State) (ret : Int), calls Event.range s₁ = calls Event.range s →
        pages_fit x vma.vm_start vma.vm_end env →
        wp (do delete_page_table m s.tables.next; pure (vma, ret)) (fun _ => True)
          (fun _ s' => AsksIff vma.vm_start vma.vm_end
            (pages_fit x vma.vm_start vma.vm_end env) s s') s₁ := by
      intro s₁ ret hs₁ hfit
      refine (delete_page_table_asks s₁).bind fun _ s₂ hs₂ => ?_
      exact .none hfit (hs₂.trans hs₁)
    have hset := Heap.get_set_self (a := { x with cuda_page_table := some s.tables.next }) hx
    refine wp_ite (fun h1 => ?_) fun h1 => ?_
    · refine hfail _ _ rfl ?_
      intro table' ps sh htable hv
      obtain rfl := Except.ok.inj (hans.symm.trans htable)
      cases h1.symm.trans hv
    cases hsz : cuda_page_size table.page_size with
    | none =>
      refine hfail _ _ rfl ?_
      intro table' ps sh htable hv hps
      obtain rfl := Except.ok.inj (hans.symm.trans htable)
      cases hsz.symm.trans hps
    | some p =>
      obtain ⟨page_size, page_shift⟩ := p
      obtain ⟨hpow, hpage⟩ := cuda_page_size_eq hsz
      dsimp only
      rw [wp_bind]
      refine (wp_mem_upd (by exact hset)).mpr ?_
      rw [wp_bind]
      refine (wp_mem_at (by exact Heap.get_set_self hset)).mpr ?_
      refine wp_ite (fun h2 => ?_) fun h2 => ?_
      · refine hfail _ _ rfl ?_
        intro table' ps sh htable hv hps hmask
        obtain rfl := Except.ok.inj (hans.symm.trans htable)
        obtain ⟨rfl, rfl⟩ := Prod.mk.inj (Option.some.inj (hsz.symm.trans hps))
        rw [← hva] at hmask
        exact absurd hmask h2
      rw [wp_bind]
      refine (wp_mem_upd (by exact Heap.get_set_self hset)).mpr ?_
      rw [wp_bind]
      refine (wp_mem_at (by exact Heap.get_set_self (Heap.get_set_self hset))).mpr ?_
      refine wp_ite (fun h3 => ?_) fun h3 => ?_
      · refine hfail _ _ rfl ?_
        intro table' ps sh htable hv hps hmask hlen
        obtain rfl := Except.ok.inj (hans.symm.trans htable)
        obtain ⟨rfl, rfl⟩ := Prod.mk.inj (Option.some.inj (hsz.symm.trans hps))
        exact absurd hlen h3
      have hiff := pages_asked_inside_iff (b := vma.vm_end)
        (x := { x with
          cuda_page_table := some s.tables.next, page_size, page_shift
          page_mask := mask_for page_size, n_pages := pages_for x.size page_size page_shift })
        env.io_remap_pfn_range hpow hpage hsize rfl (by rw [hva]; exact hle) hend
      have hfit : pages_fit x vma.vm_start vma.vm_end env ↔
          ∀ i < pages_for x.size page_size page_shift, (∀ j < i, env.io_remap_pfn_range j = none) →
            x.vaddr + (i + 1) * page_size ≤ vma.vm_end := by
        rw [hva]
        constructor
        · intro hfit
          refine hfit table page_size page_shift hans (by simpa using h1) hsz ?_ (not_not.mp h3)
          rw [← hva]
          exact not_not.mp h2
        · intro hall table' ps sh htable _ hps _ _
          obtain rfl := Except.ok.inj (hans.symm.trans htable)
          obtain ⟨rfl, rfl⟩ := Prod.mk.inj (Option.some.inj (hsz.symm.trans hps))
          exact hall
      rw [← hva] at hfit ⊢
      refine remap_pages_asks.bind fun r s₇ hr => ?_
      obtain ⟨w, fail⟩ := r
      have hasks : AsksIff x.vaddr vma.vm_end (pages_fit x x.vaddr vma.vm_end env) s s₇ := by
        refine ⟨_, hr, ?_⟩
        rw [hfit, ← hiff]
        simp only [List.mem_reverse]
      cases fail with
      | some ret =>
        refine (delete_page_table_asks s₇).bind fun _ s₈ hs₈ => ?_
        exact hasks.after hs₈
      | none => exact hasks

theorem vm_map_pages_zero_asks {vma : Vma} {pages : List PageId} {fail : Option Errno} :
    wp (vm_map_pages_zero vma pages fail) (fun _ => True) (fun _ s' => calls Event.range s' =
      (vma.vm_start, vma.vm_end - vma.vm_start) :: calls Event.range s) s := by
  unfold vm_map_pages_zero
  rw [wp_bind, emit, wp_modify]
  refine wp_ite (fun _ => rfl) fun _ => ?_
  cases fail <;> exact rfl

/-- The VMA itself is all that is asked for. -/
theorem pin_bafs_cpu_mem_asks {m : MemId} {vma : Vma} {env : PinEnv}
    (hle : vma.vm_start ≤ vma.vm_end) : wp (pin_bafs_cpu_mem m vma env) (fun _ => True)
      (fun _ s' => AsksIff vma.vm_start vma.vm_end True s s') s := by
  unfold pin_bafs_cpu_mem
  refine (mem_upd_adds.asks s).bind fun _ s₁ hs₁ => ?_
  refine (Adds.load.asks s₁).bind fun x s₂ hs₂ => ?_
  have hs₂ := hs₂.trans hs₁
  refine wp_ite (fun _ => .none trivial hs₂) fun _ => ?_
  refine (kzalloc_adds.asks s₂).bind fun blk s₃ hs₃ => ?_
  have hs₃ := hs₃.trans hs₂
  cases blk with
  | none =>
    refine (mem_upd_adds.asks s₃).bind fun _ s₄ hs₄ => ?_
    exact .none trivial (hs₄.trans hs₃)
  | some blk =>
    refine (alloc_pages_adds.asks s₃).bind fun r s₄ hs₄ => ?_
    obtain ⟨pages, fail⟩ := r
    refine (mem_upd_adds.asks s₄).bind fun _ s₅ hs₅ => ?_
    have hs₅ := hs₅.trans (hs₄.trans hs₃)
    cases fail with
    | some ret =>
      refine (clean_page_table_adds.asks s₅).bind fun _ s₆ hs₆ => ?_
      exact .none trivial (hs₆.trans hs₅)
    | none =>
      refine vm_map_pages_zero_asks.bind fun r s₆ hs₆ => ?_
      have hin : inside vma.vm_start vma.vm_end (vma.vm_start, vma.vm_end - vma.vm_start) := by
        intro o ho
        dsimp only at ho ⊢
        omega
      have hasks : AsksIff vma.vm_start vma.vm_end True s s₆ := by
        refine ⟨[_], by rw [hs₆, hs₅]; rfl, iff_of_true ?_ trivial⟩
        intro q hq
        rw [List.mem_singleton.mp hq]
        exact hin
      refine wp_ite (fun _ => ?_) fun _ => hasks
      refine (clean_page_table_adds.asks s₆).bind fun _ s₇ hs₇ => ?_
      exact hasks.after hs₇

/-- A pin through the context `c` asks for ranges inside the VMA exactly if the registration it finds
fits. -/
theorem pin_bafs_mem_asks {c : CtxId} (vma : Vma) (env : PinEnv) (hs : At h v s) (hh : NonNeg h)
    (hc : CtxHeld h v c) (hsize : ∀ m x, s.mems.get m = some x → x.size < 2 ^ 32)
    (hle : vma.vm_start ≤ vma.vm_end) (hend : vma.vm_end < 2 ^ 64) :
    wp (pin_bafs_mem vma c env) (fun _ => True) (fun _ s' => AsksIff vma.vm_start vma.vm_end
      (∀ m x, Selects v c vma.vm_pgoff m → s.mems.get m = some x → x.loc = BAFS_MEM_CUDA →
        pages_fit x vma.vm_start vma.vm_end env) s s') s := by
  obtain ⟨y, hy⟩ := hs.ctx_live hc
  have hsel : ∀ m, pin_lookup y vma.vm_pgoff = some m ↔ Selects v c vma.vm_pgoff m := fun m =>
    hs.mem_xa_iff hy
  unfold pin_bafs_mem
  rw [wp_bind, ctx_kref_get, wp_ctx_upd hy, wp_bind, wp_ctx_at (Heap.get_set_self hy)]
  refine (bafs_put_ctx_adds.asks.wp_and (bafs_put_ctx_spec (hs.ctx_get hy) hh)).bind
    fun _ s₁ hs₁ => ?_
  obtain ⟨hs₁, ha₁⟩ := hs₁
  have ha₁ : calls Event.range s₁ = calls Event.range s := ha₁
  have hl : pin_lookup { y with ref := y.ref + 1 } vma.vm_pgoff = pin_lookup y vma.vm_pgoff := rfl
  rw [hl]
  cases hm : pin_lookup y vma.vm_pgoff with
  | none =>
    refine .none ?_ ha₁
    intro m x hm'
    rw [(hsel m).mpr hm'] at hm
    cases hm
  | some m =>
    obtain ⟨-, x, hx, -⟩ := hs.wf.tables.stored c y _ m hy hm
    have hf := hs.mem_view hx
    have hunique : ∀ n, Selects v c vma.vm_pgoff n → n = m := by
      intro n hn
      have := (hsel n).mpr hn
      exact Option.some.inj (this.symm.trans hm)
    refine (mem_kref_get_adds.asks.wp_and (mem_kref_get_spec hs₁ hf)).bind fun _ s₂ hs₂ => ?_
    obtain ⟨hs₂, ha₂⟩ := hs₂
    refine (mem_upd_adds.asks.wp_and (mem_upd_spec hs₂ hf)).bind fun _ s₃ hs₃ => ?_
    obtain ⟨hs₃, ha₃⟩ := hs₃
    have ha₃ := ha₃.trans (ha₂.trans ha₁)
    refine (Adds.load.asks.wp_and (mem_at_spec hs₃ View.set_mem_self)).bind fun x' s₄ hx' => ?_
    obtain ⟨⟨hxf, hx', -⟩, ha₄⟩ := hx'
    have ha₄ := ha₄.trans ha₃
    have hloc : x'.loc = x.loc := by
      show x'.fields.loc = x.loc
      rw [hxf]
      rfl
    have hsz : x'.size = x.size := by
      show x'.fields.size = x.size
      rw [hxf]
      rfl
    have hva : x'.vaddr = vma.vm_start := congrArg BafsMem.vaddr hxf
    have hput : ∀ {P : Prop} {s₅ s₆ : State}, AsksIff vma.vm_start vma.vm_end P s s₅ →
        calls Event.range s₆ = calls Event.range s₅ →
        wp (bafs_mem_put m) (fun _ => True)
          (fun _ s' => AsksIff vma.vm_start vma.vm_end P s s') s₆ := by
      intro P s₅ s₆ hasks hs₆
      refine wp_mono ((bafs_mem_put_adds.mono fun _ => table_call_no_range).asks s₆) fun _ s₇ hs₇ => ?_
      exact hasks.after (hs₇.trans hs₆)
    have hpin : wp (pin_by_loc m x'.loc vma env) (fun _ => True) (fun _ s' =>
        AsksIff vma.vm_start vma.vm_end (∀ m x, Selects v c vma.vm_pgoff m → s.mems.get m = some x →
          x.loc = BAFS_MEM_CUDA → pages_fit x vma.vm_start vma.vm_end env) s s') s₄ := by
      unfold pin_by_loc
      refine wp_ite (fun hcpu => ?_) fun hcpu => wp_ite (fun hcuda => ?_) fun hcuda => ?_
      · refine wp_mono (pin_bafs_cpu_mem_asks hle) fun _ s₅ hs₅ => ?_
        obtain ⟨new, hnew, hiff⟩ := hs₅.before ha₄
        refine ⟨new, hnew, hiff.trans (iff_of_true trivial ?_)⟩
        intro n z hn hz hl
        obtain rfl := hunique n hn
        obtain rfl := Option.some.inj (hx.symm.trans hz)
        rw [hloc, hl] at hcpu
        exact absurd hcpu (by decide)
      · refine wp_mono (pin_bafs_cuda_mem_asks hx' hva (hsz ▸ hsize m x hx) hle hend)
          fun _ s₅ hs₅ => ?_
        obtain ⟨new, hnew, hiff⟩ := hs₅.before ha₄
        refine ⟨new, hnew, hiff.trans ?_⟩
        have hfit : pages_fit x' vma.vm_start vma.vm_end env ↔
            pages_fit x vma.vm_start vma.vm_end env := by
          unfold pages_fit
          rw [hsz]
        rw [hfit]
        constructor
        · intro hp n z hn hz _
          obtain rfl := hunique n hn
          obtain rfl := Option.some.inj (hx.symm.trans hz)
          exact hp
        · intro hall
          exact hall m x ((hsel m).mp hm) hx (hloc ▸ hcuda)
      · refine .none ?_ ha₄
        intro n z hn hz hl
        obtain rfl := hunique n hn
        obtain rfl := Option.some.inj (hx.symm.trans hz)
        exact absurd (hloc.trans hl) hcuda
    refine hpin.bind fun r s₅ hs₅ => ?_
    obtain ⟨w, ret⟩ := r
    refine wp_ite (fun _ => (hput hs₅ rfl).bind fun _ _ hs₆ => hs₆) fun _ => ?_
    refine (set_state_adds.asks s₅).bind fun _ s₆ hs₆ => ?_
    exact (hput hs₅ hs₆).bind fun _ _ hs₇ => hs₇

/-- An mmap of BARs asks for them one after another. -/
theorem mmap_bars_asks {x : File} {mm pgoff : Nat} {env : MmapEnv} (hp : maps_bars x pgoff)
    (ha : a < 2 ^ 64) : wp (mmap_file x (new_vma mm a b pgoff) env) (fun _ => True) (fun _ s' =>
      ∃ l, bar_ctrls s.view x = some l ∧ calls Event.range s' =
        (asked_ranges env.bar 0 (bar_ranges s a 0 l)).reverse ++ calls Event.range s) s := by
  cases x with
  | core c => exact hp.elim
  | ctrl y =>
    have hone : asked_ranges env.bar 0 (bar_ranges s a 0 [y.ctrl]) = [(a, bar_len s y.ctrl)] := by
      have : u64 (a + 0) = a := Nat.mod_eq_of_lt ha
      rw [bar_ranges, bar_ranges, asked_ranges, this]
      split <;> rfl
    unfold mmap_file __bafs_ctrl_mmap
    refine wp_ite (fun _ => ?_) fun hn => absurd hp hn
    refine bafs_ctrl_mmap_asks.bind fun r s₁ hr₁ => ⟨[y.ctrl], rfl, ?_⟩
    rw [hone]
    exact hr₁.1
  | group y =>
    unfold mmap_file bafs_group_mmap
    refine wp_ite (fun _ => ?_) fun hn => absurd hp hn
    cases hg : s.groups.get y.group with
    | none =>
      rw [wp_bind, bafs_get_group, group_upd, wp_bind]
      exact wp_load_of (fun _ => trivial) fun x hx => by cases hg.symm.trans hx
    | some z =>
      have hl : bar_ctrls s.view (.group y) = some z.ctrls := by
        show (s.groups.get y.group).map BafsGroup.ctrls = some z.ctrls
        rw [hg]
        rfl
      rw [wp_bind, bafs_get_group, wp_group_upd hg, wp_bind, wp_group_at (Heap.get_set_self hg)]
      refine group_mmap_loop_asks.bind fun r s₁ hr₁ => ?_
      have hcong : ∀ g, bar_ranges { s with groups := g } = bar_ranges s :=
        fun g => bar_ranges_congr fun _ => rfl
      rw [hcong] at hr₁
      have hput : wp (bafs_put_group y.group) (fun _ => True) (fun _ s' =>
          ∃ l, bar_ctrls s.view (.group y) = some l ∧ calls Event.range s' =
            (asked_ranges env.bar 0 (bar_ranges s a 0 l)).reverse ++ calls Event.range s) s₁ :=
        wp_mono (bafs_put_group_adds.asks s₁) fun _ s₂ hs₂ => ⟨z.ctrls, hl, hs₂.trans hr₁⟩
      obtain ⟨acc, fail⟩ := r
      cases fail with
      | some ret => exact hput.bind fun _ _ hs₂ => hs₂
      | none => exact hput.bind fun _ _ hs₂ => hs₂

theorem mmap_file_asks {f : FileId} {x : File} {mm pgoff : Nat} {env : MmapEnv} (hi : Inv s)
    (hx : s.files.get f = some x) (hr : range_free s mm a b) :
    wp (mmap_file x (new_vma mm a b pgoff) env) (fun _ => True)
      (fun _ s' => AsksIff a b (fits_vma s x a b pgoff env) s s') s := by
  obtain ⟨h, hlost, hs⟩ := hi.sane.at
  have hctx := CtxHeld.of_file hlost.nonneg (v := s.view) hx
  have hsize : ∀ m x, s.mems.get m = some x → x.size < 2 ^ 32 := fun m x hm =>
    hi.tidy.size_lt m x.fields (hs.mem_view hm)
  have hle : a ≤ b := hr.1.le
  -- without BARs the file does not matter
  have hpin : ¬maps_bars x pgoff → wp (pin_bafs_mem (new_vma mm a b pgoff) x.ctx env.pin)
      (fun _ => True) (fun _ s' => AsksIff a b (fits_vma s x a b pgoff env) s s') s := by
    intro hp
    have hvma := pin_bafs_mem_asks (c := x.ctx) (new_vma mm a b pgoff) env.pin hs hlost.nonneg hctx
      hsize hle hr.2.1
    refine wp_mono hvma fun _ s' hs' => ?_
    obtain ⟨new, hnew, hiff⟩ := hs'
    refine ⟨new, hnew, hiff.trans ?_⟩
    exact ⟨fun hq => ⟨fun hp' => absurd hp' hp, fun _ => hq⟩, fun hq => hq.2 hp⟩
  have hbars : ∀ {l}, maps_bars x pgoff → bar_ctrls s.view x = some l →
      (bars_fit s l a b env.bar ↔ fits_vma s x a b pgoff env) := by
    intro l hp hl
    constructor
    · intro hq
      refine ⟨fun _ l' hl' => ?_, fun hp' => absurd hp hp'⟩
      obtain rfl := Option.some.inj (hl.symm.trans hl')
      exact hq
    · intro hq
      exact hq.1 hp l hl
  by_cases hp : maps_bars x pgoff
  · refine wp_mono (mmap_bars_asks hp (hr.1.trans hr.2.1)) fun _ s' hs' => ?_
    obtain ⟨l, hl, hcalls⟩ := hs'
    refine ⟨_, hcalls, ?_⟩
    rw [← hbars hp hl, ← bars_asked_inside_iff hle hr.2.1]
    simp only [List.mem_reverse]
  · cases x with
    | core c => exact hpin hp
    | ctrl y =>
      unfold mmap_file __bafs_ctrl_mmap
      exact wp_ite (fun hp' => absurd hp' hp) fun _ => hpin hp
    | group y =>
      unfold mmap_file bafs_group_mmap
      refine wp_ite (fun hp' => absurd hp' hp) fun _ => (hpin hp).bind fun r s₁ hr₁ => ?_
      obtain ⟨w, ret⟩ := r
      exact wp_ite (fun _ => hr₁) fun _ => hr₁

/-- What an mmap asks the kernel to map is inside the VMA exactly if what it maps fits. -/
theorem asks_inside_iff {f : FileId} {x : File} {mm pgoff : Nat} {env : MmapEnv} (hi : Inv s)
    (hx : s.files.get f = some x) (hr : range_free s mm a b) :
    AsksInside s x mm a b pgoff env ↔ fits_vma s x a b pgoff env := by
  obtain ⟨h, hlost, hs⟩ := hi.sane.at
  have hspec : wp (mmap_file x (new_vma mm a b pgoff) env)
      (fun e => e = .freed_group ∧ group_gone s.view x) _ s :=
    mmap_file_spec hs hlost.nonneg hx (hr.1.trans hr.2.1) rfl fun _ hg => ⟨rfl, hg⟩
  have hasks := wp_and hspec (mmap_file_asks hi hx hr)
  constructor
  · intro hw
    by_cases hgone : maps_bars x pgoff ∧ group_gone s.view x
    · refine ⟨fun _ l hl => ?_, fun hp => absurd hgone.1 hp⟩
      cases x with
      | core c => exact hgone.2.elim
      | ctrl y => exact hgone.2.elim
      | group y => cases hl.symm.trans hgone.2
    · have hrun : wp (mmap_file x (new_vma mm a b pgoff) env) (fun _ => False) _ s :=
        mmap_file_spec hs hlost.nonneg hx (hr.1.trans hr.2.1) rfl fun hp hg => hgone ⟨hp, hg⟩
      obtain ⟨r, s', ⟨-, new, hnew, hiff⟩, new', hnew', hin⟩ :=
        wp_join (wp_and hrun (mmap_file_asks hi hx hr)) hw
          fun e he _ => he
      obtain rfl := List.append_cancel_right (hnew.symm.trans hnew')
      exact hiff.mp hin
  · intro hfit
    refine wp_mono hasks fun _ s' hs' => ?_
    obtain ⟨-, new, hnew, hiff⟩ := hs'
    exact ⟨new, hnew, hiff.mpr hfit⟩

/-- In every state that a run reaches, an mmap asks the kernel for ranges inside its VMA only, exactly
if what it maps fits into the VMA. -/
theorem map_bounds (rs : List Request) : Always step (fun _ => True) (fun s =>
    ∀ f x mm vm_start vm_end vm_pgoff env, s.files.get f = some x → range_free s mm vm_start vm_end →
      (AsksInside s x mm vm_start vm_end vm_pgoff env ↔
        fits_vma s x vm_start vm_end vm_pgoff env)) rs init := by
  refine always_of_step (I := Inv) (fun s r hi => ?_) (fun s hi f x mm a b pgoff env hx hr => ?_) rs
    inv_init
  · obtain ⟨h, -, -, hw⟩ := step_inv r hi
    exact wp_weaken (wp_mono hw fun _ s' hs' => hs'.1) fun _ _ => trivial
  · exact asks_inside_iff hi hx hr

/-- A controller has a BAR of two pages, and its ctrl file is open. -/
def two_page_bar : List Request := [.bind 0 0x100000 8192, .open_ctrl 0 a_task granted_open]

/-- The BAR of two pages is mapped into a VMA of one. -/
theorem bar_past_end : ∃ s x, run step two_page_bar init = .ok s ∧ s.files.get 0 = some x ∧
    range_free s 1 0x10000 0x11000 ∧ ¬AsksInside s x 1 0x10000 0x11000 0 granted_mmap := by
  have hend : ends step (fun s => bar_len s 0 == 8192 && decide (range_free s 1 0x10000 0x11000) &&
      (s.files.get 0).any fun x => x.ctrl_refs 0 == 1) two_page_bar init = true := by decide +kernel
  obtain ⟨hrun, hd⟩ := run_final hend
  generalize final step two_page_bar init = s at hrun hd
  simp only [Bool.and_eq_true, beq_iff_eq, decide_eq_true_eq, Option.any_eq_true] at hd
  obtain ⟨⟨hlen, hr⟩, x, hx, hc⟩ := hd
  refine ⟨s, x, hrun, hx, hr, fun hasks => ?_⟩
  have hfit := (asks_inside_iff (run_inv hrun) hx hr).mp hasks
  cases x with
  | ctrl y =>
    have hbar := hfit.1 rfl [y.ctrl] rfl 0 y.ctrl rfl fun j hj => absurd hj (Nat.not_lt_zero j)
    have hy : y.ctrl = 0 := by
      by_contra hne
      simp [File.ctrl_refs, hne] at hc
    simp [bar_off, hy, hlen] at hbar
  | core c => cases hc
  | group y => cases hc

end BafsDriver
