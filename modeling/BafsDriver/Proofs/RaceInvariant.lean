import BafsDriver.Module.Threads
import BafsDriver.Proofs.DmaMapResult
import BafsDriver.Proofs.MemLifetime
import BafsDriver.Proofs.TraceProofs

/-!
# References of several threads

What holds between the steps of DMA-map requests, closes of VMAs and revocations, whatever their order:
every count is what the objects of the state and the threads hold, and every pointer leads to an object
that exists. A registration has lost its first reference once its VMA is closed; then it lives as long
as a thread or a DMA mapping holds it.
-/

set_option linter.style.nameCheck false

namespace BafsDriver

open Prog

/-! ## What threads hold -/

/-- The number of references that threads hold to each object. -/
abbrev Holding := Kind → Nat → ℕ

/-- One reference. -/
def one_ref (k : Kind) (i : Nat) : Holding := fun k' j => if k' = k ∧ j = i then 1 else 0

/-- The references as those of running code. -/
def refs_held (T : Holding) : Held Kind := fun k i => T k i

section Holding

variable {T T' : Holding} {k : Kind} {i : Nat}

@[simp] theorem refs_held_zero : refs_held 0 = 0 := rfl

@[simp] theorem refs_held_add : refs_held (T + T') = refs_held T + refs_held T' := by
  funext k i
  exact Int.natCast_add (T k i) (T' k i)

@[simp] theorem refs_held_one : refs_held (one_ref k i) = tok k i := by
  funext k' j
  unfold refs_held one_ref tok
  by_cases hj : k' = k ∧ j = i
  · rw [if_pos hj, if_pos hj]
    rfl
  · rw [if_neg hj, if_neg hj]
    rfl

theorem refs_held_nonneg : 0 ≤ refs_held T k i := Int.natCast_nonneg (T k i)

theorem one_ref_pos : 0 < (T + one_ref k i) k i := by
  show 0 < T k i + one_ref k i k i
  unfold one_ref
  rw [if_pos ⟨rfl, rfl⟩]
  exact Nat.succ_pos _

theorem one_ref_off {k' : Kind} {j : Nat} (hn : k' ≠ k) : (T + one_ref k i) k' j = T k' j := by
  show T k' j + one_ref k i k' j = T k' j
  unfold one_ref
  rw [if_neg fun he => hn he.1, Nat.add_zero]

end Holding

variable {h : Held Kind} {T : Holding} {v v' : View} {s₀ s : State} {E : Fault → Prop}

/-! ## Pointers and counts -/

/-- A VMA that gives up the registration when it is closed is open. -/
def has_vma (V : Heap Vma) (m : MemId) : Prop := ∃ i w, V.get i = some w ∧ w.closes = some m

/-- The VMA that the registration had in the state `s₀` has been closed. -/
def vma_closed (s₀ : State) (v : View) (m : MemId) : Prop := has_vma s₀.vmas m ∧ ¬has_vma v.vmas m

/-- Every VMA, every DMA mapping and every page table that can be revoked leads to a registration. -/
structure Pointers (v : View) : Prop where
  vma : ∀ i w m, v.vmas.get i = some w → w.closes = some m → ∃ f, v.mems m = some f
  dma : ∀ d m c, v.dmas d = some (m, c) → ∃ f, v.mems m = some f
  table : ∀ t x, v.tables.get t = some x → x.pinned = true → ∃ f, v.mems x.data = some f ∧
    f.loc = BAFS_MEM_CUDA ∧ f.cuda_page_table = some t ∧ f.state ≠ .DEAD_CB ∧ f.state ≠ .STALE

/-- The states in which threads may start: no registration has two VMAs or has lost its page table, and
no open file is on a group that has been released. -/
structure Tame (s₀ : State) : Prop where
  pointers : Pointers s₀.view
  one_vma : ∀ i j w u m, s₀.vmas.get i = some w → s₀.vmas.get j = some u → w.closes = some m →
    u.closes = some m → i = j
  tables : ∀ m f, s₀.view.mems m = some f → ¬missing_table f
  groups : ∀ i x, s₀.files.get i = some (.group x) → ∃ l, s₀.view.group_ctrls x.group = some l

/-- What holds of the references `h` that no thread holds and of the view between two steps. -/
structure Ground (s₀ : State) (h : Held Kind) (v : View) : Prop where
  solid : ∀ k i, k ≠ .group → k ≠ .mem → 0 ≤ h k i
  /-- The first reference to a registration is there until its VMA is closed. -/
  mapped : ∀ m f, v.mems m = some f → ¬vma_closed s₀ v m → h .mem m = 0
  closed : ∀ m f, v.mems m = some f → vma_closed s₀ v m → h .mem m = -1
  vmas : ∀ i w, v.vmas.get i = some w → s₀.vmas.get i = some w
  files : v.files = s₀.files
  group_ctrls : v.group_ctrls = s₀.view.group_ctrls
  groups : ∀ g l, v.group_ctrls g = some l → 0 < (v.files.sum (File.group_refs g) : ℕ) + h .group g
  pointers : Pointers v
  readable : ∀ m f, v.mems m = some f → table_fits f ∧ ¬missing_table f ∧ f.state ≠ .DEAD

/-- The page tables that stay pinned when a registration is released. -/
theorem released_tables_pinned {D : Heap P2pPageTable} {f : BafsMem} {t : TableId} {x : P2pPageTable}
    (ht : (released_tables D f).get t = some x) (hp : x.pinned = true) : D.get t = some x ∧
      ¬(f.loc = BAFS_MEM_CUDA ∧ f.cuda_page_table = some t ∧ f.state ≠ .DEAD_CB ∧
        f.state ≠ .STALE) := by
  unfold released_tables at ht
  by_cases hcb : f.state = .STALE ∨ f.state = .DEAD_CB ∨ f.loc ≠ BAFS_MEM_CUDA
  · rw [if_pos hcb] at ht
    refine ⟨ht, fun ⟨hloc, _, hst, hst'⟩ => ?_⟩
    rcases hcb with he | he | he
    · exact hst' he
    · exact hst he
    · exact he hloc
  rw [if_neg hcb] at ht
  cases hf : f.cuda_page_table with
  | none =>
    rw [hf] at ht
    exact ⟨ht, fun he => by cases he.2.1⟩
  | some t' =>
    rw [hf] at ht
    dsimp only [unpinned] at ht
    cases hu : D.get t' with
    | none =>
      rw [hu] at ht
      refine ⟨ht, fun he => ?_⟩
      obtain rfl := Option.some.inj he.2.1
      cases hu.symm.trans ht
    | some u =>
      rw [hu] at ht
      obtain ⟨-, rfl⟩ | ⟨hne, ht⟩ := Heap.get_set_cases hu ht
      · cases hp
      · exact ⟨ht, fun he => hne (Option.some.inj he.2.1).symm⟩

theorem unpinned_pinned {D : Heap P2pPageTable} {t u : TableId} {x : P2pPageTable}
    (hu : (unpinned D t).get u = some x) (hp : x.pinned = true) : u ≠ t ∧ D.get u = some x := by
  unfold unpinned at hu
  cases ht : D.get t with
  | none =>
    rw [ht] at hu
    refine ⟨fun he => ?_, hu⟩
    subst he
    cases ht.symm.trans hu
  | some y =>
    rw [ht] at hu
    obtain ⟨-, rfl⟩ | hu := Heap.get_set_cases ht hu
    · cases hp
    · exact hu

namespace Ground

theorem drop_dma (hg : Ground s₀ h v) (d : DmaId) : Ground s₀ h (v.drop_dma d) := by
  obtain ⟨h1, h2, h3, h4, h5, h6, h7, ⟨h8, h9, h10⟩, h11⟩ := hg
  refine ⟨h1, h2, h3, h4, h5, h6, h7, ⟨h8, fun e m c he => ?_, h10⟩, h11⟩
  have he : Function.update v.dmas d none e = some (m, c) := he
  rw [Function.update_apply] at he
  by_cases hed : e = d
  · rw [if_pos hed] at he
    cases he
  · rw [if_neg hed] at he
    exact h9 e m c he

theorem drop_dmas (hg : Ground s₀ h v) (l : List DmaId) : Ground s₀ h (v.drop_dmas l) := by
  induction l generalizing v with
  | nil =>
    rw [View.drop_dmas_nil]
    exact hg
  | cons d l ih =>
    rw [← View.drop_dmas_cons]
    exact ih (hg.drop_dma d)

theorem add_dma {d : DmaId} {m : MemId} {c : CtrlId} {f : BafsMem} (hg : Ground s₀ h v)
    (hm : v.mems m = some f) : Ground s₀ h (v.add_dma d m c) := by
  obtain ⟨h1, h2, h3, h4, h5, h6, h7, ⟨h8, h9, h10⟩, h11⟩ := hg
  refine ⟨h1, h2, h3, h4, h5, h6, h7, ⟨h8, fun e n c' he => ?_, h10⟩, h11⟩
  have he : Function.update v.dmas d (some (m, c)) e = some (n, c') := he
  rw [Function.update_apply] at he
  by_cases hed : e = d
  · rw [if_pos hed] at he
    obtain ⟨rfl, -⟩ := Prod.mk.inj (Option.some.inj he)
    exact ⟨f, hm⟩
  · rw [if_neg hed] at he
    exact h9 e n c' he

/-- A registration that nothing points to is released. -/
theorem release {m : MemId} {f : BafsMem} (hg : Ground s₀ h v) (hm : v.mems m = some f)
    (hv : ¬has_vma v.vmas m) (hd : ∀ d c, v.dmas d ≠ some (m, c)) :
    Ground s₀ h (v.release_mem m f) := by
  obtain ⟨h1, h2, h3, h4, h5, h6, h7, ⟨h8, h9, h10⟩, h11⟩ := hg
  have hold : ∀ n g, (v.release_mem m f).mems n = some g → v.mems n = some g := by
    intro n g hn
    have hn : Function.update v.mems m none n = some g := hn
    rw [Function.update_apply] at hn
    by_cases hnm : n = m
    · rw [if_pos hnm] at hn
      cases hn
    · rw [if_neg hnm] at hn
      exact hn
  have hkept : ∀ n, n ≠ m → (∃ g, v.mems n = some g) → ∃ g, (v.release_mem m f).mems n = some g := by
    rintro n hnm ⟨g, hn⟩
    exact ⟨g, (Function.update_of_ne hnm _ _).trans hn⟩
  refine ⟨h1, fun n g hn => h2 n g (hold n g hn), fun n g hn => h3 n g (hold n g hn), h4, h5, h6, h7,
    ⟨fun i w n hw hc => ?_, fun d n c hdn => ?_, fun t x ht hp => ?_⟩,
    fun n g hn => h11 n g (hold n g hn)⟩
  · exact hkept n (fun he => hv ⟨i, w, hw, he ▸ hc⟩) (h8 i w n hw hc)
  · exact hkept n (fun he => hd d c (he ▸ hdn)) (h9 d n c hdn)
  · obtain ⟨ht, hno⟩ := released_tables_pinned ht hp
    obtain ⟨g, hgm, hrest⟩ := h10 t x ht hp
    refine ⟨g, (Function.update_of_ne (fun hx => hno ?_) _ _).trans hgm, hrest⟩
    obtain rfl := Option.some.inj (hm.symm.trans (hx ▸ hgm))
    exact hrest

/-- A VMA that belongs to no registration is closed. -/
theorem unmap {i : VmaId} {w : Vma} (hg : Ground s₀ h v) (hw : v.vmas.get i = some w)
    (hc : w.closes = none) : Ground s₀ h { v with vmas := v.vmas.free i } := by
  obtain ⟨h1, h2, h3, h4, h5, h6, h7, ⟨h8, h9, h10⟩, h11⟩ := hg
  have hsame : ∀ m, has_vma (v.vmas.free i) m ↔ has_vma v.vmas m := by
    refine fun m => ⟨fun ⟨j, u, hu, hm⟩ => ⟨j, u, (Heap.get_of_free hu).2, hm⟩, ?_⟩
    rintro ⟨j, u, hu, hm⟩
    refine ⟨j, u, ?_, hm⟩
    rw [Heap.get_free, if_neg fun he => ?_, hu]
    obtain rfl := Option.some.inj (hw.symm.trans (he ▸ hu))
    cases hc.symm.trans hm
  have hcl : ∀ m, vma_closed s₀ { v with vmas := v.vmas.free i } m ↔ vma_closed s₀ v m :=
    fun m => and_congr_right fun _ => not_congr (hsame m)
  exact ⟨h1, fun m f hm hn => h2 m f hm fun hn' => hn ((hcl m).mpr hn'),
    fun m f hm hn => h3 m f hm ((hcl m).mp hn), fun j u hu => h4 j u (Heap.get_of_free hu).2, h5, h6,
    h7, ⟨fun j u m hu hm => h8 j u m (Heap.get_of_free hu).2 hm, h9, h10⟩, h11⟩

/-- The VMA of a registration is closed, which loses its first reference. -/
theorem close {i : VmaId} {w : Vma} {m : MemId} (hg : Ground s₀ h v) (ht : Tame s₀)
    (hw : v.vmas.get i = some w) (hc : w.closes = some m) :
    Ground s₀ (h - tok Kind.mem m) { v with vmas := v.vmas.free i } := by
  obtain ⟨h1, h2, h3, h4, h5, h6, h7, ⟨h8, h9, h10⟩, h11⟩ := hg
  have hsame : ∀ n, n ≠ m → (has_vma (v.vmas.free i) n ↔ has_vma v.vmas n) := by
    refine fun n hn => ⟨fun ⟨j, u, hu, hm⟩ => ⟨j, u, (Heap.get_of_free hu).2, hm⟩, ?_⟩
    rintro ⟨j, u, hu, hm⟩
    refine ⟨j, u, ?_, hm⟩
    rw [Heap.get_free, if_neg fun he => ?_, hu]
    obtain rfl := Option.some.inj (hw.symm.trans (he ▸ hu))
    exact hn (Option.some.inj (hm.symm.trans hc))
  have hcl : ∀ n, n ≠ m →
      (vma_closed s₀ { v with vmas := v.vmas.free i } n ↔ vma_closed s₀ v n) :=
    fun n hn => and_congr_right fun _ => not_congr (hsame n hn)
  have hself : vma_closed s₀ { v with vmas := v.vmas.free i } m := by
    refine ⟨⟨i, w, h4 i w hw, hc⟩, fun ⟨j, u, hu, hm⟩ => ?_⟩
    obtain ⟨hne, hu⟩ := Heap.get_of_free hu
    exact hne (ht.one_vma j i u w m (h4 j u hu) (h4 i w hw) hm hc)
  have hoff : ∀ k n, ¬(k = Kind.mem ∧ n = m) → (h - tok Kind.mem m) k n = h k n := by
    intro k n hn
    show h k n - tok Kind.mem m k n = h k n
    unfold tok
    rw [if_neg hn, sub_zero]
  refine ⟨fun k n hk hk' => ?_, fun n f hn hno => ?_, fun n f hn hyes => ?_,
    fun j u hu => h4 j u (Heap.get_of_free hu).2, h5, h6, fun g l hl => ?_,
    ⟨fun j u n hu hn => h8 j u n (Heap.get_of_free hu).2 hn, h9, h10⟩, h11⟩
  · rw [hoff k n fun he => hk' he.1]
    exact h1 k n hk hk'
  · by_cases hnm : n = m
    · exact absurd (hnm ▸ hself) hno
    · rw [hoff _ n fun he => hnm he.2]
      exact h2 n f hn fun hcn => hno ((hcl n hnm).mpr hcn)
  · by_cases hnm : n = m
    · subst hnm
      have hz := h2 n f hn fun hcn => hcn.2 ⟨i, w, hw, hc⟩
      show h .mem n - tok Kind.mem n .mem n = -1
      rw [hz, tok_self]
      rfl
    · rw [hoff _ n fun he => hnm he.2]
      exact h3 n f hn ((hcl n hnm).mp hyes)
  · rw [hoff _ g fun he => by cases he.1]
    exact h7 g l hl

/-- The pages of a registration are revoked. -/
theorem revoke {t : TableId} {x : P2pPageTable} {f : BafsMem} (hg : Ground s₀ h v)
    (ht : v.tables.get t = some x) (hp : x.pinned = true) (hm : v.mems x.data = some f) :
    Ground s₀ h ({ v with tables := unpinned v.tables t }.revoke_mem x.data f) := by
  obtain ⟨h1, h2, h3, h4, h5, h6, h7, ⟨h8, h9, h10⟩, h11⟩ := hg
  have hst := (h11 x.data f hm).2.2
  obtain ⟨g, hgm, hloc, htab, -⟩ := h10 t x ht hp
  obtain rfl := Option.some.inj (hm.symm.trans hgm)
  have hmems := View.revoke_mem_mems (v := { v with tables := unpinned v.tables t }) (m := x.data) hst
  have hkept : ∀ n, (∃ g, v.mems n = some g) →
      ∃ g, ({ v with tables := unpinned v.tables t }.revoke_mem x.data f).mems n = some g := by
    rintro n ⟨g, hn⟩
    rw [hmems, Function.update_apply]
    by_cases hnm : n = x.data
    · rw [if_pos hnm]
      exact ⟨_, rfl⟩
    · rw [if_neg hnm]
      exact ⟨g, hn⟩
  have hold : ∀ n g, ({ v with tables := unpinned v.tables t }.revoke_mem x.data f).mems n = some g →
      ∃ g₀, v.mems n = some g₀ ∧ (table_fits g₀ ∧ ¬missing_table g₀ ∧ g₀.state ≠ .DEAD →
        table_fits g ∧ ¬missing_table g ∧ g.state ≠ .DEAD) := by
    intro n g hn
    rw [hmems, Function.update_apply] at hn
    by_cases hnm : n = x.data
    · rw [if_pos hnm] at hn
      refine ⟨f, hnm ▸ hm, fun ⟨hfit, hmiss, _⟩ => ?_⟩
      rw [← Option.some.inj hn]
      exact ⟨hfit, hmiss, fun he => by cases he⟩
    · rw [if_neg hnm] at hn
      exact ⟨g, hn, id⟩
  have hrest : ({ v with tables := unpinned v.tables t }.revoke_mem x.data f).vmas = v.vmas ∧
      ({ v with tables := unpinned v.tables t }.revoke_mem x.data f).dmas = v.dmas ∧
      ({ v with tables := unpinned v.tables t }.revoke_mem x.data f).files = v.files ∧
      ({ v with tables := unpinned v.tables t }.revoke_mem x.data f).group_ctrls = v.group_ctrls ∧
      ({ v with tables := unpinned v.tables t }.revoke_mem x.data f).tables =
        unpinned v.tables t := by
    unfold View.revoke_mem
    rw [if_neg hst]
    exact ⟨rfl, rfl, rfl, rfl, rfl⟩
  obtain ⟨hv, hd, hf, hgc, hT⟩ := hrest
  generalize { v with tables := unpinned v.tables t }.revoke_mem x.data f = v' at *
  have hcl : ∀ n, vma_closed s₀ v' n ↔ vma_closed s₀ v n := fun n => by
    unfold vma_closed
    rw [hv]
  refine ⟨h1, fun n g hn hno => ?_, fun n g hn hyes => ?_, hv ▸ h4, hf ▸ h5, hgc ▸ h6, ?_,
    ⟨fun i w n hw hc => hkept n (h8 i w n (hv ▸ hw) hc), fun d n c hdn => hkept n (h9 d n c (hd ▸ hdn)),
      fun u y hu hup => ?_⟩, fun n g hn => ?_⟩
  · obtain ⟨g₀, hn₀, -⟩ := hold n g hn
    exact h2 n g₀ hn₀ fun hcn => hno ((hcl n).mpr hcn)
  · obtain ⟨g₀, hn₀, -⟩ := hold n g hn
    exact h3 n g₀ hn₀ ((hcl n).mp hyes)
  · rw [hgc, hf]
    exact h7
  · obtain ⟨hne, hu⟩ := unpinned_pinned (hT ▸ hu) hup
    obtain ⟨g, hgm', hgl, hgt, hrest⟩ := h10 u y hu hup
    have hnm : y.data ≠ x.data := fun he => by
      obtain rfl := Option.some.inj (hm.symm.trans (he ▸ hgm'))
      exact hne (Option.some.inj (hgt.symm.trans htab))
    refine ⟨g, ?_, hgl, hgt, hrest⟩
    rw [hmems, Function.update_of_ne hnm]
    exact hgm'
  · obtain ⟨g₀, hn₀, hr⟩ := hold n g hn
    exact hr (h11 n g₀ hn₀)

end Ground

/-! ## Steps -/

/-- What is there in the second view was there in the first, and a registration whose VMA was closed in
between has no DMA mapping. -/
structure Below (v v' : View) : Prop where
  mems : ∀ m f, v'.mems m = some f → v.mems m = some f
  dmas : ∀ d p, v'.dmas d = some p → v.dmas d = some p
  closed : ∀ m, has_vma v.vmas m → ¬has_vma v'.vmas m → ∀ d c, v'.dmas d ≠ some (m, c)

theorem Below.refl (v : View) : Below v v :=
  ⟨fun _ _ h => h, fun _ _ h => h, fun _ hv hn => absurd hv hn⟩

theorem Below.trans {v'' : View} (hb : Below v v') (hb' : Below v' v'') : Below v v'' := by
  refine ⟨fun m f h => hb.mems m f (hb'.mems m f h), fun d p h => hb.dmas d p (hb'.dmas d p h),
    fun m hv hn d c hd => ?_⟩
  by_cases hv' : has_vma v'.vmas m
  · exact hb'.closed m hv' hn d c hd
  · exact hb.closed m hv hv' d c (hb'.dmas d _ hd)

theorem Below.release_mem {m : MemId} {f : BafsMem} : Below v (v.release_mem m f) := by
  refine ⟨fun n g hn => ?_, fun _ _ h => h, fun _ hv hn => absurd hv hn⟩
  have hn : Function.update v.mems m none n = some g := hn
  rw [Function.update_apply] at hn
  by_cases hnm : n = m
  · rw [if_pos hnm] at hn
    cases hn
  · rw [if_neg hnm] at hn
    exact hn

theorem Below.drop_dma {d : DmaId} : Below v (v.drop_dma d) := by
  refine ⟨fun _ _ h => h, fun e p he => ?_, fun _ hv hn => absurd hv hn⟩
  have he : Function.update v.dmas d none e = some p := he
  rw [Function.update_apply] at he
  by_cases hed : e = d
  · rw [if_pos hed] at he
    cases he
  · rw [if_neg hed] at he
    exact he

/-- The invariant between two steps: the threads hold `T`, and `h` are the references that are missing
or were never given back. -/
structure Racing (s₀ : State) (h : Held Kind) (T : Holding) (v : View) (s : State) : Prop where
  at_view : At (h + refs_held T) v s
  ground : Ground s₀ h v
  held : ∀ m, 0 < T .mem m → ∃ f, v.mems m = some f

/-- The threads hold `T` afterwards, and nothing was added. -/
def Leaves (s₀ : State) (h : Held Kind) (T : Holding) (v : View) (s' : State) : Prop :=
  ∃ v', Racing s₀ h T v' s' ∧ Below v v'

/-- A controller that an open file or a group holds. -/
def ctrl_known (s₀ : State) (c : CtrlId) : Prop :=
  (∃ i x, s₀.files.get i = some (.ctrl x) ∧ x.ctrl = c) ∨
    ∃ g l, s₀.view.group_ctrls g = some l ∧ c ∈ l

/-- What the threads hold to a registration that is gone does not count. -/
theorem WF.forget_mem {m : MemId} (hs : WF (h + tok Kind.mem m) s) (hm : s.mems.get m = none)
    (hlt : m < s.mems.next) : WF h s := by
  have hoff : ∀ k i, ¬(k = Kind.mem ∧ i = m) → h k i = (h + tok Kind.mem m) k i :=
    fun k i hn => (add_tok_off h hn).symm
  refine ⟨hs.ctx.congr fun c => ?_, ⟨fun i x hi => ?_, hs.mem.pos⟩, hs.ctrl.congr fun c => ?_,
    hs.group.congr fun g => ?_, hs.device.congr fun d => ?_, hs.tables, hs.dmas, hs.tree,
    ⟨fun i hi => ⟨(hs.fresh.mem i hi).1, ?_⟩, fun g hg => ⟨(hs.fresh.group g hg).1, ?_⟩⟩, hs.logs⟩
  · rw [hoff .ctx c fun he => by cases he.1]
  · rw [hs.mem.eq i x hi, hoff .mem i fun he => ?_]
    cases hm.symm.trans (he.2 ▸ hi)
  · rw [hoff .ctrl c fun he => by cases he.1]
  · rw [hoff .group g fun he => by cases he.1]
  · rw [hoff .device d fun he => by cases he.1]
  · rw [hoff .mem i fun he => Nat.ne_of_gt (Nat.lt_of_lt_of_le hlt hi) he.2]
    exact (hs.fresh.mem i hi).2
  · rw [hoff .group g fun he => by cases he.1]
    exact (hs.fresh.group g hg).2

namespace Racing

theorem leaves (hr : Racing s₀ h T v s) : Leaves s₀ h T v s := ⟨v, hr, .refl v⟩

theorem solid (hr : Racing s₀ h T v s) {k : Kind} (i : Nat) (hk : k ≠ .group) (hk' : k ≠ .mem) :
    0 ≤ (h + refs_held T) k i :=
  add_nonneg (hr.ground.solid k i hk hk') refs_held_nonneg

/-- A step that changes nothing of what the invariant reads. -/
theorem keep {α : Type} {c : Drv α} (hr : Racing s₀ h T v s)
    (hc : Preserves E c fun s => (s.objects, s.view)) :
    wp c E (fun _ s' => Racing s₀ h T v s') s :=
  wp_mono (hr.at_view.keep hc) fun _ _ hs => ⟨hs, hr.ground, hr.held⟩

/-- A step that changes references only. -/
theorem with_at {T' : Holding} {s' : State} (hr : Racing s₀ h T v s)
    (hs : At (h + refs_held T') v s') (hT : ∀ m, T' .mem m = T .mem m) : Racing s₀ h T' v s' :=
  ⟨hs, hr.ground, fun m hm => hr.held m (hT m ▸ hm)⟩

/-- The references with one of them set apart. -/
theorem split {k : Kind} {i : Nat} (hr : Racing s₀ h (T + one_ref k i) v s) : At (h + refs_held T + tok k i) v s :=
  hr.at_view.congr (by rw [refs_held_add, refs_held_one, add_assoc])

theorem joined {k : Kind} {i : Nat} (hs : At (h + refs_held T + tok k i) v s) :
    At (h + refs_held (T + one_ref k i)) v s :=
  hs.congr (by rw [refs_held_add, refs_held_one, add_assoc])

end Racing

/-- A reference to a registration that exists is added. -/
theorem held_add_one {m : MemId} {f : BafsMem} (hT : ∀ n, 0 < T .mem n → ∃ g, v.mems n = some g)
    (hm : v.mems m = some f) : ∀ n, 0 < (T + one_ref .mem m) .mem n → ∃ g, v.mems n = some g := by
  intro n hn
  by_cases hnm : n = m
  · exact ⟨f, hnm ▸ hm⟩
  · refine hT n ?_
    have hoff : (T + one_ref .mem m) .mem n = T .mem n := by
      show T .mem n + one_ref .mem m .mem n = T .mem n
      unfold one_ref
      rw [if_neg fun he => hnm he.2, Nat.add_zero]
    exact hoff ▸ hn

/-- A thread puts a reference to a registration, which is released if its VMA is closed and nothing
else holds it. -/
theorem racing_mem_put {m : MemId} (hr : Racing s₀ h (T + one_ref .mem m) v s) :
    wp (bafs_mem_put m) E (fun _ s' => Leaves s₀ h T v s') s := by
  obtain ⟨f, hm⟩ := hr.held m one_ref_pos
  have hs := hr.split
  obtain ⟨x, hx, rfl⟩ := hs.mem_live hm
  by_cases hone : x.ref = 1
  · have hsum := hs.wf.mem.eq m x hx
    rw [add_tok_self, hone, Pi.add_apply, Pi.add_apply] at hsum
    have hT : 0 ≤ refs_held T .mem m := refs_held_nonneg
    -- the first reference is gone, so the VMA is closed
    have hcl : vma_closed s₀ v m := by
      by_contra hno
      have := hr.ground.mapped m _ hm hno
      omega
    have hminus := hr.ground.closed m _ hm hcl
    have hTz : T .mem m = 0 := by
      have : refs_held T .mem m = (T .mem m : ℤ) := rfl
      omega
    have hd : ∀ d c, v.dmas d ≠ some (m, c) := hs.dma_holders_eq_zero.mp (by omega)
    have hctx : 0 ≤ (h + refs_held T + tok Kind.mem m) .ctx x.ctx :=
      add_nonneg (add_nonneg (hr.ground.solid _ _ (by decide) (by decide)) refs_held_nonneg)
        (tok_nonneg ..)
    refine wp_mono (bafs_mem_put_last_at hs hctx
      (fun hf => absurd (hr.ground.readable m _ hm).1 hf) hx hone) fun _ s' hs' => ?_
    refine ⟨_, ⟨⟨hs'.wf.forget_mem ?_ ?_, hs'.view⟩, hr.ground.release hm hcl.2 hd, fun n hn => ?_⟩,
      .release_mem⟩
    · have hgone : s'.view.mems m = none := by
        rw [hs'.view]
        exact Function.update_self ..
      exact Option.map_eq_none_iff.mp hgone
    · have hnext : s'.mems.next = v.mem_next := congrArg View.mem_next hs'.view
      rw [hnext]
      exact hs.mem_lt hm
    · have hnm : n ≠ m := fun he => by
        rw [he, hTz] at hn
        exact absurd hn (Nat.lt_irrefl 0)
      obtain ⟨g, hg⟩ := hr.held n (Nat.lt_of_lt_of_le hn (Nat.le_add_right _ _))
      exact ⟨g, (Function.update_of_ne hnm _ _).trans hg⟩
  · refine wp_mono (bafs_mem_put_at hs hx hone) fun _ s' hs' => ⟨v, ⟨hs', hr.ground, fun n hn => ?_⟩,
      .refl v⟩
    exact hr.held n (Nat.lt_of_lt_of_le hn (Nat.le_add_right _ _))

theorem racing_ctx_put {c : CtxId} (hr : Racing s₀ h (T + one_ref .ctx c) v s) :
    wp (bafs_put_ctx c) E (fun _ s' => Racing s₀ h T v s') s :=
  wp_mono (bafs_put_ctx_at hr.split (add_nonneg (hr.ground.solid _ _ (by decide) (by decide))
    refs_held_nonneg)) fun _ _ hs => hr.with_at hs fun m => (one_ref_off (by decide)).symm

theorem racing_ctrl_put {c : CtrlId} (hr : Racing s₀ h (T + one_ref .ctrl c) v s) :
    wp (bafs_ctrl_release c) E (fun _ s' => Racing s₀ h T v s') s :=
  wp_mono (bafs_ctrl_release_at hr.split (add_nonneg (hr.ground.solid _ _ (by decide) (by decide))
    refs_held_nonneg)) fun _ _ hs => hr.with_at hs fun m => (one_ref_off (by decide)).symm

theorem Racing.ctrl_held {c : CtrlId} (hr : Racing s₀ h T v s) (hc : ctrl_known s₀ c) :
    CtrlHeld (h + refs_held T) v c := by
  rcases hc with ⟨i, x, hx, rfl⟩ | ⟨g, l, hg, hl⟩
  · rw [← hr.ground.files] at hx
    have hle := Heap.le_sum (f := File.ctrl_refs x.ctrl) hx
    have hone : File.ctrl_refs x.ctrl (.ctrl x) = 1 := if_pos rfl
    have := hr.solid (k := .ctrl) x.ctrl (by decide) (by decide)
    refine .inl ?_
    omega
  · exact .inr ⟨g, l, (congrFun hr.ground.group_ctrls g).trans hg, hl⟩

theorem racing_ctrl_get {c : CtrlId} (hr : Racing s₀ h T v s) (hc : ctrl_known s₀ c) :
    wp (bafs_get_ctrl c) E (fun _ s' => Racing s₀ h (T + one_ref .ctrl c) v s') s :=
  wp_mono (bafs_get_ctrl_at hr.at_view (hr.solid _ (by decide) (by decide)) (hr.ctrl_held hc))
    fun _ _ hs => hr.with_at (Racing.joined hs) fun m => one_ref_off (by decide)

theorem racing_group_get {g : GroupId} {l : List CtrlId} (hr : Racing s₀ h T v s)
    (hg : s₀.view.group_ctrls g = some l) :
    wp (bafs_get_group g) E (fun _ s' => Racing s₀ h (T + one_ref .group g) v s') s :=
  wp_mono (bafs_get_group_spec hr.at_view ((congrFun hr.ground.group_ctrls g).trans hg))
    fun _ _ hs => hr.with_at (Racing.joined hs) fun m => one_ref_off (by decide)

theorem racing_group_put {g : GroupId} {l : List CtrlId} (hr : Racing s₀ h (T + one_ref .group g) v s)
    (hg : s₀.view.group_ctrls g = some l) :
    wp (bafs_put_group g) E (fun _ s' => Racing s₀ h T v s') s := by
  have hg := (congrFun hr.ground.group_ctrls g).trans hg
  have hpos := hr.ground.groups g l hg
  have hT : 0 ≤ refs_held T .group g := refs_held_nonneg
  refine wp_mono (bafs_put_group_spec hr.split hg ?_) fun _ _ hs =>
    hr.with_at hs fun m => (one_ref_off (by decide)).symm
  rw [Pi.add_apply, Pi.add_apply]
  omega

/-! ### DMA mappings -/

section Map

variable {c : CtrlId} {m : MemId} {x : BafsMem} {blk : BlockId} {n_dma_addrs user ctrl_id : Nat}
  {env : DmaMapEnv}

theorem racing_lookup {i : FileId} {y : File} {vaddr : Nat} (hr : Racing s₀ h T v s)
    (hy : s₀.files.get i = some y) :
    wp (bafs_get_mem_with_ctx vaddr y.ctx) E (fun r s' => ∃ v', Racing s₀ h
      (T + r.elim 0 (one_ref .mem)) v' s' ∧ Below v v') s := by
  rw [← hr.ground.files] at hy
  have hctx : CtxHeld (h + refs_held T) v y.ctx := by
    have hpos := Heap.count_pos (p := fun f : File => f.ctx = y.ctx) hy rfl
    have := hr.solid (k := .ctx) y.ctx (by decide) (by decide)
    unfold CtxHeld
    omega
  obtain ⟨z, hz⟩ := hr.at_view.ctx_live hctx
  refine wp_mono (bafs_get_mem_with_ctx_exact hr.at_view hz) fun r s' hs' => ?_
  obtain ⟨hfound, hnone, hsome⟩ := hs'
  refine ⟨v, ?_, .refl v⟩
  cases r with
  | none =>
    rw [hnone rfl]
    exact hr
  | some m =>
    obtain ⟨f, hm, -⟩ := ((hfound m).mp rfl).1
    obtain ⟨x, hx, -⟩ := hr.at_view.mem_live hm
    have hget := mem_kref_get_spec (E := E) hr.at_view hm
    unfold mem_kref_get at hget
    rw [wp_mem_upd hx] at hget
    rw [hsome m x rfl hx]
    exact ⟨Racing.joined hget, hr.ground, held_add_one hr.held hm⟩

theorem racing_delete_dma (hr : Racing s₀ h (T + one_ref .mem m + one_ref .ctrl c) v s) :
    wp (delete_dma blk c m) E (fun _ s' => Leaves s₀ h T v s') s := by
  unfold delete_dma
  refine (hr.keep (kfree_quiet quiet_at _)).bind fun _ s₁ hr₁ => ?_
  exact (racing_ctrl_put hr₁).bind fun _ s₂ hr₂ => racing_mem_put hr₂

/-- What the mapping of pages comes to: it fails and gives its references back, or it has filled an
object. -/
def Filled (s₀ : State) (h : Held Kind) (T : Holding) (v : View) (c : CtrlId) (m : MemId)
    (y : Option BafsMemDma) (s' : State) : Prop :=
  (y = none ∧ Leaves s₀ h T v s') ∨ ∃ z, y = some z ∧ z.mem = m ∧ z.ctrl = c ∧
    Racing s₀ h (T + one_ref .mem m + one_ref .ctrl c) v s'

theorem racing_map_cpu (hr : Racing s₀ h (T + one_ref .mem m + one_ref .ctrl c) v s)
    (hm : v.mems m = some x.fields) (hloc : x.loc = BAFS_MEM_CPU) :
    wp (map_cpu c m x blk n_dma_addrs user ctrl_id env) E
      (fun r s' => Filled s₀ h T v c m r.2.2 s') s := by
  obtain ⟨hfits, hmiss, -⟩ := hr.ground.readable m _ hm
  have hdelete : ∀ {s : State} {ret : Int} {n : Nat},
      Racing s₀ h (T + one_ref .mem m + one_ref .ctrl c) v s →
      wp (do delete_dma blk c m; pure (ret, n, none)) E
        (fun r s' => Filled s₀ h T v c m r.2.2 s') s :=
    fun hr => (racing_delete_dma hr).bind fun _ _ hl => .inl ⟨rfl, hl⟩
  unfold map_cpu
  refine (hr.keep (kzalloc_quiet quiet_at _)).bind fun r s₁ hr₁ => ?_
  cases r with
  | none => exact hdelete hr₁
  | some ablk =>
    refine (map_addrs_spec hr₁.at_view (fun hn hp => absurd ⟨hloc, hn, hp⟩ hmiss)
      fun p hp hlen => absurd (hfits hloc p hp).1 hlen).bind fun r s₂ hs₂ => ?_
    obtain ⟨addrs, fail⟩ := r
    have hr₂ := hr₁.with_at hs₂.2 fun _ => rfl
    cases fail with
    | some ret => exact (hr₂.keep (unmap_back_quiet quiet_at _ _ _)).bind fun _ s₃ hr₃ => hdelete hr₃
    | none =>
      refine (hr₂.keep (copy_to_user_quiet quiet_at _ _ _ _)).bind fun left s₃ hr₃ => ?_
      refine wp_ite (fun _ => ?_) fun _ => .inr ⟨_, rfl, rfl, rfl, hr₃⟩
      exact (hr₃.keep (unmap_back_quiet quiet_at _ _ _)).bind fun _ s₄ hr₄ => hdelete hr₄

theorem racing_map_cuda (hr : Racing s₀ h (T + one_ref .mem m + one_ref .ctrl c) v s) :
    wp (map_cuda c m x blk n_dma_addrs user ctrl_id env) E
      (fun r s' => Filled s₀ h T v c m r.2.2 s') s := by
  have hdelete : ∀ {s : State} {ret : Int} {n : Nat},
      Racing s₀ h (T + one_ref .mem m + one_ref .ctrl c) v s →
      wp (do delete_dma blk c m; pure (ret, n, none)) E
        (fun r s' => Filled s₀ h T v c m r.2.2 s') s :=
    fun hr => (racing_delete_dma hr).bind fun _ _ hl => .inl ⟨rfl, hl⟩
  unfold map_cuda
  refine (nvidia_p2p_dma_map_pages_spec hr.at_view c x.cuda_page_table _).bind fun r s₁ hs₁ => ?_
  have hr₁ := hr.with_at hs₁.2 fun _ => rfl
  cases r with
  | error ret => exact hdelete hr₁
  | ok p =>
    rw [wp_bind, wp_get]
    refine (hr₁.keep (copy_to_user_quiet quiet_at _ _ _ _)).bind fun left s₂ hr₂ => ?_
    refine wp_ite (fun _ => ?_) fun _ => .inr ⟨_, rfl, rfl, rfl, hr₂⟩
    exact (hr₂.keep (emit_quiet quiet_at _)).bind fun _ s₃ hr₃ => hdelete hr₃

theorem racing_map_pages (hr : Racing s₀ h (T + one_ref .mem m) v s) (hc : ctrl_known s₀ c) :
    wp (map_pages c m n_dma_addrs user ctrl_id env) E
      (fun r s' => Filled s₀ h T v c m r.2.2 s') s := by
  unfold map_pages
  refine (hr.keep (kzalloc_quiet quiet_at _)).bind fun r s₁ hr₁ => ?_
  cases r with
  | none => exact (racing_mem_put hr₁).bind fun _ _ hl => .inl ⟨rfl, hl⟩
  | some blk =>
    refine (racing_ctrl_get hr₁ hc).bind fun _ s₂ hr₂ => ?_
    obtain ⟨f, hm⟩ := hr.held m one_ref_pos
    refine (mem_at_spec hr₂.at_view hm).bind fun x s₃ hs₃ => ?_
    obtain ⟨rfl, -, hs₃⟩ := hs₃
    have hr₃ := hr₂.with_at hs₃ fun _ => rfl
    refine wp_ite (fun hloc => racing_map_cpu hr₃ hm hloc) fun _ => ?_
    refine wp_ite (fun _ => racing_map_cuda hr₃) fun _ => ?_
    exact (racing_delete_dma hr₃).bind fun _ _ hl => .inl ⟨rfl, hl⟩

/-- The references of the thread go to the mapping that is inserted. -/
theorem racing_publish {y : BafsMemDma}
    (hr : Racing s₀ h (T + one_ref .mem y.mem + one_ref .ctrl y.ctrl) v s) :
    wp (publish_dma y) E (fun d s' => Racing s₀ h T (v.add_dma d y.mem y.ctrl) s') s := by
  have hpos : 0 < (T + one_ref .mem y.mem + one_ref .ctrl y.ctrl) .mem y.mem := by
    rw [one_ref_off (by decide)]
    exact one_ref_pos
  obtain ⟨f, hm⟩ := hr.held y.mem hpos
  have hs : At (h + refs_held T + tok Kind.mem y.mem + tok Kind.ctrl y.ctrl) v s :=
    hr.at_view.congr (by simp only [refs_held_add, refs_held_one, add_assoc])
  refine wp_mono (publish_dma_spec hs hm) fun d s' hs' => ⟨hs'.2, hr.ground.add_dma hm, fun n hn => ?_⟩
  refine hr.held n ?_
  rw [one_ref_off (by decide)]
  exact Nat.lt_of_lt_of_le hn (Nat.le_add_right _ _)

/-- A mapping that is still there is taken back. -/
theorem racing_unmap {d : DmaId} {p : MemId × CtrlId} (hr : Racing s₀ h T v s)
    (hd : v.dmas d = some p) :
    wp (bafs_ctrl_dma_unmap_mem d) E (fun _ s' => Leaves s₀ h T v s') s := by
  obtain ⟨m, c⟩ := p
  obtain ⟨f, hm⟩ := hr.ground.pointers.dma d m c hd
  obtain ⟨y, hy, rfl, -⟩ := hr.at_view.dma_live hd
  unfold bafs_ctrl_dma_unmap_mem
  rw [wp_bind, wp_dma_at hy]
  refine (unmap_dma_at hr.at_view (hr.solid _ (by decide) (by decide)) hd hm).bind fun _ s₁ hs₁ => ?_
  have hr₁ : Racing s₀ h (T + one_ref .mem y.mem) (v.drop_dma d) s₁ :=
    ⟨Racing.joined hs₁, hr.ground.drop_dma d, held_add_one hr.held hm⟩
  refine wp_mono (racing_mem_put hr₁) fun _ s₂ hs₂ => ?_
  obtain ⟨v', hr₂, hb⟩ := hs₂
  exact ⟨v', hr₂, .trans .drop_dma hb⟩

end Map

/-! ### The close of a VMA and the callback -/

theorem close_vma_none {w : Vma} (hc : w.closes = none) : close_vma w = pure () := by
  unfold close_vma
  unfold Vma.closes at hc
  cases ho : w.vm_ops with
  | none => rfl
  | some o =>
    cases o
    rw [ho] at hc
    show bafs_mem_release w = pure ()
    have hnone : w.vm_private_data = none := hc
    unfold bafs_mem_release
    rw [hnone]

theorem close_vma_some {w : Vma} {m : MemId} (hc : w.closes = some m) :
    close_vma w = bafs_mem_release w ∧ w.vm_private_data = some m := by
  unfold close_vma
  unfold Vma.closes at hc
  cases ho : w.vm_ops with
  | none =>
    rw [ho] at hc
    cases hc
  | some o =>
    cases o
    rw [ho] at hc
    exact ⟨rfl, hc⟩

/-- The close of a VMA takes the DMA mappings and the first reference of its registration, which the
threads may still hold. -/
theorem racing_close {i : VmaId} {w : Vma} {m : MemId} (ht : Tame s₀) (hr : Racing s₀ h T v s)
    (hw : v.vmas.get i = some w) (hc : w.closes = some m) (hp : w.vm_private_data = some m) :
    wp (bafs_mem_release w) E (fun _ s' => Leaves s₀ (h - tok Kind.mem m) T v s')
      { s with vmas := v.vmas.free i } := by
  obtain ⟨f, hm⟩ := hr.ground.pointers.vma i w m hw hc
  obtain ⟨x, hx, rfl⟩ := hr.at_view.mem_live hm
  obtain ⟨y, hy, -⟩ := hr.at_view.wf.tables.mem_listed m x hx
  have hz : h .mem m = 0 := hr.ground.mapped m _ hm fun hcl => hcl.2 ⟨i, w, hw, hc⟩
  have hs := (hr.at_view.with_vmas (v.vmas.free i)).ctx_get (c := x.ctx) (by exact hy)
  have hctrl : ∀ c, 0 ≤ (h + refs_held T + tok Kind.ctx x.ctx) .ctrl c := fun c =>
    add_nonneg (hr.solid c (by decide) (by decide)) (tok_nonneg ..)
  have hmem : 0 ≤ (h + refs_held T + tok Kind.ctx x.ctx) .mem m := by
    have hT : 0 ≤ refs_held T .mem m := refs_held_nonneg
    rw [add_tok_off _ fun he => (by cases he.1), Pi.add_apply, Pi.add_apply, hz]
    omega
  unfold bafs_mem_release
  rw [hp, wp_bind, wp_mem_at (by exact hx), wp_bind, ctx_kref_get, wp_ctx_upd (by exact hy), wp_bind]
  refine wp_mono (wp_each (Closing (h + refs_held T + tok Kind.ctx x.ctx) m x.fields
    (View.drop_dmas _ x.dma_list)) (fun d l s₂ hl => hl.round_at hctrl hmem)
    (hs.closing (by exact hx))) ?_
  rintro _ s₂ ⟨u, hs₂, hu, -, -, heq⟩
  rw [View.drop_dmas_nil] at heq
  subst heq
  have hr₂ : Racing s₀ (h - tok Kind.mem m) (T + one_ref .ctx x.ctx + one_ref .mem m)
      ({ v with vmas := v.vmas.free i }.drop_dmas x.dma_list) s₂ := by
    refine ⟨hs₂.congr ?_, (hr.ground.close ht hw hc).drop_dmas _, held_add_one (fun n hn => ?_) hu⟩
    · rw [refs_held_add, refs_held_add, refs_held_one, refs_held_one]
      abel
    · rw [one_ref_off (by decide)] at hn
      exact hr.held n hn
  refine (racing_mem_put hr₂).bind fun _ s₃ hs₃ => ?_
  obtain ⟨v', hr₃, hb⟩ := hs₃
  have hfirst : Below v ({ v with vmas := v.vmas.free i }.drop_dmas x.dma_list) := by
    refine ⟨fun _ _ h => h, fun d p hd => ?_, ?_⟩
    · have hd : (if d ∈ x.dma_list then none else v.dmas d) = some p := hd
      by_cases hin : d ∈ x.dma_list
      · rw [if_pos hin] at hd
        cases hd
      · rw [if_neg hin] at hd
        exact hd
    · rintro n ⟨j, z, hz', hn⟩ hno d c hd
      have hd' : (if d ∈ x.dma_list then none else v.dmas d) = some (n, c) := hd
      -- only the VMA that is closed was there before
      have hji : j = i := by
        by_contra hne
        exact hno ⟨j, z, (Heap.get_free.trans (if_neg hne)).trans hz', hn⟩
      subst hji
      obtain rfl := Option.some.inj (hw.symm.trans hz')
      obtain rfl := Option.some.inj (hc.symm.trans hn)
      by_cases hin : d ∈ x.dma_list
      · rw [if_pos hin] at hd'
        cases hd'
      · rw [if_neg hin] at hd'
        obtain ⟨y, hy, hym, -⟩ := hr.at_view.dma_live hd'
        exact hin ((hr.at_view.wf.dmas.listed m x d hx).mpr ⟨y, hy, hym⟩)
  exact wp_mono (racing_ctx_put hr₃) fun _ s₄ hr₄ => ⟨v', hr₄, hfirst.trans hb⟩

theorem racing_munmap {i : VmaId} (ht : Tame s₀) (hr : Racing s₀ h T v s) :
    wp (step (.munmap i)) E (fun _ s' => ∃ h', Leaves s₀ h' T v s') s := by
  unfold step
  rw [wp_bind, wp_get, hr.at_view.vmas_eq]
  cases hw : v.vmas.get i with
  | none => exact ⟨h, hr.leaves⟩
  | some w =>
    dsimp only [unmap_vma]
    rw [wp_bind, wp_bind, wp_modify, hr.at_view.vmas_eq]
    cases hc : w.closes with
    | none =>
      rw [close_vma_none hc]
      refine ⟨h, _, ⟨hr.at_view.with_vmas _, hr.ground.unmap hw hc, hr.held⟩, fun _ _ h => h,
        fun _ _ h => h, ?_⟩
      rintro n ⟨j, z, hz, hn⟩ hno
      refine absurd ⟨j, z, (Heap.get_free.trans (if_neg fun hji => ?_)).trans hz, hn⟩ hno
      obtain rfl := Option.some.inj (hw.symm.trans (hji ▸ hz))
      cases hc.symm.trans hn
    | some m =>
      obtain ⟨heq, hp⟩ := close_vma_some hc
      rw [heq]
      exact wp_mono (racing_close ht hr hw hc hp) fun _ s' hl => ⟨_, hl⟩

/-- The pages of the registration `m` are revoked: no DMA mapping of it keeps a mapping of the NVIDIA
driver. -/
structure Revoked (v v' : View) (m : MemId) (s' : State) : Prop where
  mems : ∃ f, v.mems m = some f ∧ v'.mems = Function.update v.mems m
    (some { f with state := .DEAD_CB, cuda_page_table := none })
  dmas : v'.dmas = v.dmas
  vmas : v'.vmas = v.vmas
  bare : ∀ d y, s'.dmas.get d = some y → y.mem = m → y.cuda_mapping = none

/-- The callback leaves no DMA mapping of its registration a mapping of the NVIDIA driver. -/
theorem release_bafs_cuda_mem_bare {m : MemId} {x : BafsMem} (hs : At h v s)
    (hx : s.mems.get m = some x) (hst : x.state ≠ .DEAD) :
    wp (release_bafs_cuda_mem m) (fun _ => True) (fun _ s' => ∀ d y, s'.dmas.get d = some y →
      y.mem = m → y.cuda_mapping = none) s := by
  have hinit : At h v s ∧ (∀ d ∈ x.dma_list, ∃ c, v.dmas d = some (m, c)) ∧
      ∀ d y, s.dmas.get d = some y → y.mem = m → d ∈ x.dma_list ∨ y.cuda_mapping = none := by
    refine ⟨hs, fun d hd => ?_, fun d y hy hym => .inl ?_⟩
    · obtain ⟨y, hy, hym⟩ := (hs.wf.dmas.listed m x d hx).mp hd
      exact ⟨y.ctrl, by rw [hs.dma_view hy, hym]⟩
    · exact (hs.wf.dmas.listed m x d hx).mpr ⟨y, hy, hym⟩
  unfold release_bafs_cuda_mem
  rw [wp_bind, wp_mem_at hx, if_pos hst, wp_bind]
  refine wp_mono (wp_each (fun l t => At h v t ∧ (∀ d ∈ l, ∃ c, v.dmas d = some (m, c)) ∧
    ∀ d y, t.dmas.get d = some y → y.mem = m → d ∈ l ∨ y.cuda_mapping = none) ?_ hinit) ?_
  · rintro d l t ⟨ht, hl, hbare⟩
    obtain ⟨c, hc⟩ := hl d List.mem_cons_self
    obtain ⟨y, hy, -⟩ := ht.dma_live hc
    have hrest : ∀ e ∈ l, ∃ c, v.dmas e = some (m, c) := fun e he => hl e (List.mem_cons_of_mem _ he)
    rw [wp_bind, wp_dma_at hy]
    cases hp : y.cuda_mapping with
    | none =>
      refine ⟨ht, hrest, fun e z hz hzm => (hbare e z hz hzm).elim (fun he => ?_) .inr⟩
      rcases List.mem_cons.mp he with rfl | he
      · obtain rfl := Option.some.inj (hy.symm.trans hz)
        exact .inr hp
      · exact .inl he
    | some p =>
      dsimp only
      rw [wp_bind, emit, wp_modify, wp_modify]
      refine ⟨(ht.set_dma (z := { y with cuda_mapping := none }) hy rfl rfl).of_eq rfl rfl, hrest,
        fun e z hz hzm => ?_⟩
      obtain ⟨-, rfl⟩ | ⟨hne, hz⟩ := Heap.get_set_cases hy hz
      · exact .inr rfl
      · refine (hbare e z hz hzm).elim (fun he => ?_) .inr
        rcases List.mem_cons.mp he with he | he
        · exact absurd he hne
        · exact .inl he
  · rintro _ t ⟨-, -, hbare⟩
    refine (set_state_adds (A := no_call) t).bind fun _ t₁ hg₁ => ?_
    rw [wp_bind, nvidia_p2p_free_page_table, emit, wp_modify]
    refine wp_mono (mem_upd_adds (A := no_call) _) fun _ t₂ hg₂ d y hy hym => ?_
    have h₁ : t₁.dmas = t.dmas := (Prod.mk.inj (hg₁.still fun _ he => he)).1
    have h₂ : t₂.dmas = t₁.dmas := (Prod.mk.inj (hg₂.still fun _ he => he)).1
    rw [h₂, h₁] at hy
    exact (hbare d y hy hym).resolve_left List.not_mem_nil

theorem racing_revoke {t : TableId} (hr : Racing s₀ h T v s) :
    wp (step (.revoke t)) E (fun _ s' => s' = s ∨
      ∃ m v', Racing s₀ h T v' s' ∧ Revoked v v' m s') s := by
  unfold step
  rw [wp_bind, wp_get, hr.at_view.tables_eq]
  cases ht : v.tables.get t with
  | none => exact .inl rfl
  | some x =>
    refine wp_ite (fun hp => ?_) fun _ => .inl rfl
    obtain ⟨f, hm, -⟩ := hr.ground.pointers.table t x ht hp
    have hst := (hr.ground.readable x.data f hm).2.2
    rw [wp_bind, unpin, wp_modify, hr.at_view.tables_eq]
    have hs₁ : At (h + refs_held T) { v with tables := unpinned v.tables t }
        { s with tables := unpinned v.tables t } := by
      refine ⟨hr.at_view.wf.of_objects rfl, ?_⟩
      rw [← hr.at_view.view]
      rfl
    obtain ⟨y, hy, rfl⟩ := hr.at_view.mem_live hm
    refine (wp_and (release_bafs_cuda_mem_spec hs₁ hm) (release_bafs_cuda_mem_bare (x := y) hs₁
      (by exact hy) (by exact hst))).bind fun _ s₂ hs₂ => .inr ⟨x.data, _, ⟨hs₂.1, hr.ground.revoke ht hp hm,
        fun n hn => ?_⟩, ⟨y.fields, hm, View.revoke_mem_mems hst⟩, ?_, ?_, hs₂.2⟩
    · obtain ⟨g, hg⟩ := hr.held n hn
      rw [View.revoke_mem_mems hst, Function.update_apply]
      by_cases hnm : n = x.data
      · rw [if_pos hnm]
        exact ⟨_, rfl⟩
      · rw [if_neg hnm]
        exact ⟨g, hg⟩
    · unfold View.revoke_mem
      rw [if_neg hst]
      rfl
    · unfold View.revoke_mem
      rw [if_neg hst]
      rfl

/-! ## What the DMA mappings keep -/

/-- Every DMA mapping was there before, but may have lost its mapping of the NVIDIA driver. -/
def Fewer (s s' : State) : Prop := ∀ d y', s'.dmas.get d = some y' → ∃ y, s.dmas.get d = some y ∧
  y'.mem = y.mem ∧ (y'.cuda_mapping = none ∨ y'.cuda_mapping = y.cuda_mapping)

theorem Fewer.of_eq {s' : State} (hd : s'.dmas = s.dmas) : Fewer s s' :=
  fun _ y hy => ⟨y, hd ▸ hy, rfl, .inr rfl⟩

instance : IsPreorder State Fewer where
  refl _ := .of_eq rfl
  trans s₁ s₂ s₃ h h' d y₃ hy₃ := by
    obtain ⟨y₂, hy₂, hm, hc⟩ := h' d y₃ hy₃
    obtain ⟨y₁, hy₁, hm', hc'⟩ := h d y₂ hy₂
    refine ⟨y₁, hy₁, hm.trans hm', hc.elim .inl fun hc => ?_⟩
    exact hc'.elim (fun hn => .inl (hc.trans hn)) fun he => .inr (hc.trans he)

theorem fewer_of_adds {α : Type} {A : Event → Prop} {c : Drv α} (hc : Adds A c) (hA : frees_none A) :
    Evolves Fewer c :=
  Evolves.mono hc fun _ _ hg => .of_eq (Prod.mk.inj (hg.still hA)).1

theorem quiet_dma_heap : Quiet State.dmas := by constructor <;> intros <;> rfl

theorem fewer_of_quiet {α : Type} {c : Drv α} (hc : Preserves (fun _ => True) c State.dmas) :
    Evolves Fewer c := fun s => wp_mono (hc s) fun _ _ hd => .of_eq hd

theorem fewer_load {α : Type} {H : State → Heap α} {e : Fault} {i : Nat} :
    Evolves Fewer (load H e i) := fewer_of_quiet load_preserves

theorem table_call_frees_none : frees_none table_call := fun _ he => he

theorem bafs_mem_put_fewer {m : MemId} : Evolves Fewer (bafs_mem_put m) :=
  fewer_of_adds bafs_mem_put_adds table_call_frees_none

theorem delete_dma_fewer {blk : BlockId} {c : CtrlId} {m : MemId} :
    Evolves Fewer (delete_dma blk c m) := fewer_of_adds delete_dma_adds table_call_frees_none

theorem map_addrs_fewer {c : CtrlId} {x : BafsMem} {map_gran : Nat} {answer : Nat → Option Nat} :
    Evolves Fewer (map_addrs c x map_gran answer) := by
  refine .iterate (fun i addrs => ?_) _ _
  cases x.cpu_page_table with
  | none => exact .throw _
  | some t =>
    dsimp only
    cases t.2[i]? with
    | none => exact .throw _
    | some p =>
      unfold dma_map_single
      cases answer i with
      | none => exact .pure _
      | some addr =>
        exact .bind (.bind (fewer_of_quiet (emit_quiet quiet_dma_heap _)) fun _ => .pure _) fun r => by
          cases r with
          | none => exact .pure _
          | some addr => exact .pure _

theorem map_pages_fewer {c : CtrlId} {m : MemId} {n_dma_addrs user ctrl_id : Nat} {env : DmaMapEnv} :
    Evolves Fewer (map_pages c m n_dma_addrs user ctrl_id env) := by
  have hback : ∀ (addrs : List Nat) (g : Nat), Evolves Fewer (unmap_back c addrs g) :=
    fun addrs g => fewer_of_quiet (unmap_back_quiet quiet_dma_heap _ _ _)
  refine .bind (fewer_of_quiet (kzalloc_quiet quiet_dma_heap _)) fun r => ?_
  cases r with
  | none => exact .bind bafs_mem_put_fewer fun _ => .pure _
  | some blk =>
    refine .bind (fewer_of_adds (A := no_call) bafs_get_ctrl_adds fun _ he => he) fun _ =>
      .bind fewer_load fun x => .ite ?_ (.ite ?_ (.bind delete_dma_fewer fun _ => .pure _))
    · refine .bind (fewer_of_quiet (kzalloc_quiet quiet_dma_heap _)) fun r => ?_
      cases r with
      | none => exact .bind delete_dma_fewer fun _ => .pure _
      | some ablk =>
        refine .bind map_addrs_fewer fun r => ?_
        obtain ⟨mapped, fail⟩ := r
        cases fail with
        | some ret => exact .bind (hback _ _) fun _ => .bind delete_dma_fewer fun _ => .pure _
        | none =>
          exact .bind (fewer_of_quiet (copy_to_user_quiet quiet_dma_heap _ _ _ _)) fun _ =>
            .ite (.bind (hback _ _) fun _ => .bind delete_dma_fewer fun _ => .pure _) (.pure _)
    · refine .bind (fewer_of_quiet (nvidia_p2p_dma_map_pages_quiet quiet_dma_heap _ _ _)) fun r => ?_
      cases r with
      | error ret => exact .bind delete_dma_fewer fun _ => .pure _
      | ok p =>
        exact .bind .get fun _ => .bind (fewer_of_quiet (copy_to_user_quiet quiet_dma_heap _ _ _ _))
          fun _ => .ite (.bind (fewer_of_quiet (emit_quiet quiet_dma_heap _)) fun _ =>
            .bind delete_dma_fewer fun _ => .pure _) (.pure _)

theorem unmap_dma_fewer {d : DmaId} : Evolves Fewer (unmap_dma d) := by
  refine .bind fewer_load fun y => .bind fewer_load fun x => .bind ?_ fun _ =>
    .bind (fewer_of_quiet (undo_mapping_quiet quiet_dma_heap _ _)) fun _ => .bind ?_ fun _ =>
    .bind (fewer_of_quiet (kfree_quiet quiet_dma_heap _)) fun _ =>
      fewer_of_adds (A := no_call) bafs_ctrl_release_adds fun _ he => he
  · exact fewer_of_adds (A := no_call) mem_upd_adds fun _ he => he
  · exact Evolves.modify fun s e y hy => ⟨y, (Heap.get_of_free hy).2, rfl, .inr rfl⟩

theorem bafs_ctrl_dma_unmap_mem_fewer {d : DmaId} : Evolves Fewer (bafs_ctrl_dma_unmap_mem d) :=
  .bind fewer_load fun _ => .bind unmap_dma_fewer fun _ => bafs_mem_put_fewer

theorem bafs_mem_release_fewer {w : Vma} : Evolves Fewer (bafs_mem_release w) := by
  unfold bafs_mem_release
  cases w.vm_private_data with
  | none => exact .pure _
  | some m =>
    exact .bind fewer_load fun x =>
      .bind (fewer_of_adds (A := no_call) ctx_kref_get_adds fun _ he => he) fun _ =>
      .bind (.each (fun _ => .bind unmap_dma_fewer fun _ => bafs_mem_put_fewer) _) fun _ =>
      .bind bafs_mem_put_fewer fun _ => fewer_of_adds (A := no_call) bafs_put_ctx_adds fun _ he => he

theorem munmap_fewer {i : VmaId} : Evolves Fewer (step (.munmap i)) := by
  refine .bind .get fun s => ?_
  cases s.vmas.get i with
  | none => exact .pure _
  | some w =>
    refine .bind (.bind (Evolves.modify fun _ => .of_eq rfl) fun _ => ?_) fun _ => .pure _
    cases hc : w.closes with
    | none =>
      rw [close_vma_none hc]
      exact .pure _
    | some m =>
      rw [(close_vma_some hc).1]
      exact bafs_mem_release_fewer

theorem revoke_fewer {t : TableId} : Evolves Fewer (step (.revoke t)) := by
  refine .bind .get fun s => ?_
  cases s.tables.get t with
  | none => exact .pure _
  | some x =>
    refine .ite (.bind (Evolves.modify fun _ => .of_eq rfl) fun _ => .bind ?_ fun _ => .pure _) (.pure _)
    refine .bind fewer_load fun y => .ite ?_ (.pure _)
    refine .bind (.each (fun d s₁ => ?_) _) fun _ =>
      .bind (fewer_of_adds (A := no_call) set_state_adds fun _ he => he) fun _ =>
      .bind (fewer_of_quiet (emit_quiet quiet_dma_heap _)) fun _ =>
      fewer_of_adds (A := no_call) mem_upd_adds fun _ he => he
    rw [wp_bind]
    refine wp_load_of (fun _ => trivial) fun z hz => ?_
    cases z.cuda_mapping with
    | none => exact .of_eq rfl
    | some p =>
      intro e y' hy'
      obtain ⟨rfl, rfl⟩ | ⟨-, hy'⟩ := Heap.get_set_cases hz hy'
      · exact ⟨z, hz, rfl, .inl rfl⟩
      · exact ⟨y', hy', rfl, .inr rfl⟩

end BafsDriver
