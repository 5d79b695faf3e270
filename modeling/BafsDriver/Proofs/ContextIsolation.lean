import BafsDriver.Proofs.MemLifetime
import BafsDriver.Proofs.StateMachine
import BafsDriver.Proofs.VmaClose
import BafsDriver.Proofs.VmaPieces

/-!
# Contexts keep to themselves

Whatever goes through the files of other contexts, the VMAs of their registrations and the callbacks
for their pages leaves what a context has as it is: its registrations with their counts and handles,
their DMA mappings, VMAs and page tables.
-/

set_option linter.style.nameCheck false

namespace BafsDriver

open Prog

variable {h h' : Held Kind} {v v' v'' : View} {s s' : State} {r : Request} {c : CtxId}

/-! ## Page tables and their registrations -/

/-- The page table of a registration of CUDA memory has been made for it. -/
def TablesOwned (v : View) : Prop := ∀ m f t, v.mems m = some f → f.cuda_page_table = some t →
  ∃ y, v.tables.get t = some y ∧ y.data = m

theorem unpinned_data {T : Heap P2pPageTable} {t u : TableId} {y : P2pPageTable}
    (hy : T.get t = some y) : ∃ z, (unpinned T u).get t = some z ∧ z.data = y.data := by
  unfold unpinned
  cases hu : T.get u with
  | none => exact ⟨y, hy, rfl⟩
  | some x =>
    by_cases ht : t = u
    · subst ht
      obtain rfl := Option.some.inj (hu.symm.trans hy)
      exact ⟨_, Heap.get_set_self hy, rfl⟩
    · exact ⟨y, (Heap.get_set_ne ht).trans hy, rfl⟩

theorem released_data {T : Heap P2pPageTable} {f : BafsMem} {t : TableId} {y : P2pPageTable}
    (hy : T.get t = some y) : ∃ z, (released_tables T f).get t = some z ∧ z.data = y.data := by
  unfold released_tables
  split
  · exact ⟨y, hy, rfl⟩
  · split
    · exact unpinned_data hy
    · exact ⟨y, hy, rfl⟩

/-- A page table stays with its registration. -/
theorem Mmap.table_kept {x : File} {vma : Vma} {env : MmapEnv} {w : Option Vma} {t : TableId}
    {y : P2pPageTable} (hm : Mmap h v s x vma env w h' v') (hy : v.tables.get t = some y) :
    ∃ z, v'.tables.get t = some z ∧ z.data = y.data := by
  cases hm with
  | pinned hp hsel hm hok hw hpin =>
    rcases hpin.table with ⟨-, -, -, hT⟩ | ⟨-, -, -, pages, hT⟩
    · exact ⟨y, hT ▸ hy, rfl⟩
    · exact ⟨y, hT ▸ Heap.get_alloc_of_get hy, rfl⟩
  | unpinned hp hsel hm hno hpin =>
    rcases hpin.tables with hT | ⟨pages, hT⟩
    · exact ⟨y, hT ▸ hy, rfl⟩
    · obtain ⟨z, hz, hd⟩ := unpinned_data (u := v.tables.next) (Heap.get_alloc_of_get hy)
      exact ⟨z, hT ▸ hz, hd⟩
  | _ => exact ⟨y, hy, rfl⟩

theorem Effect.table_kept {t : TableId} {y : P2pPageTable} (he : Effect h v s r h' v')
    (hy : v.tables.get t = some y) : ∃ z, v'.tables.get t = some z ∧ z.data = y.data := by
  cases he with
  | @close i x hx hg =>
    have ht : (v.close_file h i x).tables = v.tables :=
      congrArg (·.2.2.2.2.2.1) (View.close_file_regs v h i x)
    exact ⟨y, ht ▸ hy, rfl⟩
  | ioctl hx hi => exact ⟨y, hi.tables ▸ hy, rfl⟩
  | mmap hx hr hm => exact hm.table_kept hy
  | mmap_failed hx hr hm => exact hm.table_kept hy
  | munmap_mem hw hc hm => exact released_data hy
  | move_mem hw hr hc hm => exact released_data hy
  | revoke ht hp hm =>
    rw [View.revoke_mem_tables]
    exact unpinned_data hy
  | _ => exact ⟨y, hy, rfl⟩

/-- The page table that a registration has after an mmap is one that it had, or that the pin has made
for it. -/
theorem Mmap.table_own {x : File} {vma : Vma} {env : MmapEnv} {w : Option Vma} {m : MemId}
    {f : BafsMem} {t : TableId} (hm : Mmap h v s x vma env w h' v') (hf : v'.mems m = some f)
    (ht : f.cuda_page_table = some t) :
    (∃ g, v.mems m = some g ∧ g.cuda_page_table = some t) ∨
      ∃ y, v'.tables.get t = some y ∧ y.data = m := by
  cases hm with
  | @pinned n g g' w T' hp hsel hn hok hw hpin =>
    rw [View.pin_mem_mems] at hf
    rcases update_cases hf with ⟨rfl, he⟩ | ⟨-, hf⟩
    · obtain rfl := Option.some.inj he
      rcases hpin.table with ⟨-, -, hcuda, -⟩ | ⟨-, -, hcuda, pages, hT⟩
      · exact .inl ⟨g, hn, hcuda.symm.trans ht⟩
      · obtain rfl := Option.some.inj (hcuda.symm.trans ht)
        refine .inr ⟨⟨pages, m, true⟩, ?_, rfl⟩
        show T'.get v.tables.next = some _
        rw [hT, Heap.get_alloc, if_pos rfl]
    · exact .inl ⟨f, hf, ht⟩
  | @unpinned n g g' T' hp hsel hn hno hpin =>
    rcases update_cases hf with ⟨rfl, he⟩ | ⟨-, hf⟩
    · obtain rfl := Option.some.inj he
      rcases hpin.cuda with hcuda | hcuda
      · exact .inl ⟨g, hn, hcuda.symm.trans ht⟩
      · cases hcuda.symm.trans ht
    · exact .inl ⟨f, hf, ht⟩
  | _ => exact .inl ⟨f, hf, ht⟩

/-- Every request leaves each page table to its registration. -/
theorem Effect.tables_owned (he : Effect h v s r h' v') (hd : Tidy v) (ho : TablesOwned v) :
    TablesOwned v' := by
  intro m f t hf ht
  have hold : ∀ {g : BafsMem}, v.mems m = some g → g.cuda_page_table = some t →
      ∃ y, v'.tables.get t = some y ∧ y.data = m := by
    intro g hg hgt
    obtain ⟨y, hy, hdy⟩ := ho m g t hg hgt
    obtain ⟨z, hz, hdz⟩ := he.table_kept hy
    exact ⟨z, hz, hdz.trans hdy⟩
  cases he with
  | close hx hg => exact hold (sweep_ctx_some (regs_mems (View.close_file_regs v h _ _) hf)).1 ht
  | ioctl hx hi =>
    cases hi with
    | reg_mem =>
      rcases update_cases hf with ⟨-, he⟩ | ⟨-, hf⟩
      · obtain rfl := Option.some.inj he
        cases ht
      · exact hold hf ht
    | create hx hcmd hc => exact hold (regs_mems hc.regs hf) ht
    | delete hx hcmd hd => exact hold (regs_mems hd.regs hf) ht
    | _ => exact hold hf ht
  | mmap hx hr hm => exact (hm.table_own hf ht).elim (fun ⟨g, hg, hgt⟩ => hold hg hgt) id
  | mmap_failed hx hr hm => exact (hm.table_own hf ht).elim (fun ⟨g, hg, hgt⟩ => hold hg hgt) id
  | munmap_mem hw hc hm => exact hold (close_mem_some hf).2 ht
  | move_mem hw hr hc hm => exact hold (close_mem_some hf).2 ht
  | revoke ht' hp hm =>
    rw [View.revoke_mem_mems (hd.alive _ _ hm)] at hf
    rcases update_cases hf with ⟨-, he⟩ | ⟨-, hf⟩
    · obtain rfl := Option.some.inj he
      cases ht
    · exact hold hf ht
  | _ => exact hold hf ht

/-! ## What a context has -/

/-- The registration `m` is one of the context `c`. -/
def Owns (v : View) (c : CtxId) (m : MemId) : Prop := ∃ f, v.mems m = some f ∧ f.ctx = c

/-- What the context `c` has is as it was. -/
structure SameFor (c : CtxId) (v v' : View) : Prop where
  mems : ∀ m f, f.ctx = c → (v'.mems m = some f ↔ v.mems m = some f)
  dmas : ∀ d m k, Owns v c m → (v'.dmas d = some (m, k) ↔ v.dmas d = some (m, k))
  vmas : ∀ i w m, Owns v c m → w.vm_private_data = some m →
    (v'.vmas.get i = some w ↔ v.vmas.get i = some w)
  tables : ∀ t y, Owns v c y.data → (v'.tables.get t = some y ↔ v.tables.get t = some y)

theorem SameFor.refl (c : CtxId) (v : View) : SameFor c v v :=
  ⟨fun _ _ _ => Iff.rfl, fun _ _ _ _ => Iff.rfl, fun _ _ _ _ _ => Iff.rfl, fun _ _ _ => Iff.rfl⟩

theorem SameFor.owns (hs : SameFor c v v') {m : MemId} (hm : Owns v c m) : Owns v' c m := by
  obtain ⟨f, hf, hc⟩ := hm
  exact ⟨f, (hs.mems m f hc).mpr hf, hc⟩

theorem SameFor.trans (hs : SameFor c v v') (hs' : SameFor c v' v'') : SameFor c v v'' where
  mems m f hf := (hs'.mems m f hf).trans (hs.mems m f hf)
  dmas d m k hm := (hs'.dmas d m k (hs.owns hm)).trans (hs.dmas d m k hm)
  vmas i w m hm hw := (hs'.vmas i w m (hs.owns hm) hw).trans (hs.vmas i w m hm hw)
  tables t y hy := (hs'.tables t y (hs.owns hy)).trans (hs.tables t y hy)

/-- What shows in none of the four parts. -/
theorem SameFor.of_regs (hr : v'.regs = v.regs) : SameFor c v v' := by
  have hm : v'.mems = v.mems := congrArg (·.1) hr
  have hd : v'.dmas = v.dmas := congrArg (·.2.2.1) hr
  have hv : v'.vmas = v.vmas := congrArg (·.2.2.2.1) hr
  have ht : v'.tables = v.tables := congrArg (·.2.2.2.2.2.1) hr
  refine ⟨fun m f _ => ?_, fun d m k _ => ?_, fun i w m _ _ => ?_, fun t y _ => ?_⟩
  · rw [hm]
  · rw [hd]
  · rw [hv]
  · rw [ht]

/-- A registration of another context is updated, with its page tables and DMA mappings. -/
theorem SameFor.update {m : MemId} {o : Option BafsMem} (hm : ¬Owns v c m)
    (ho : ∀ f, o = some f → f.ctx ≠ c) (hmems : v'.mems = Function.update v.mems m o)
    (hdmas : ∀ d n k, n ≠ m → (v'.dmas d = some (n, k) ↔ v.dmas d = some (n, k)))
    (hvmas : v'.vmas = v.vmas)
    (htables : ∀ t y, y.data ≠ m → (v'.tables.get t = some y ↔ v.tables.get t = some y)) :
    SameFor c v v' := by
  have hne : ∀ {n}, Owns v c n → n ≠ m := by
    rintro n hn rfl
    exact hm hn
  refine ⟨fun n f hf => ?_, fun d n k hn => hdmas d n k (hne hn), fun _ _ _ _ _ => by rw [hvmas],
    fun t y hy => htables t y (hne hy)⟩
  rw [hmems]
  by_cases hn : n = m
  · subst hn
    rw [Function.update_self]
    exact iff_of_false (fun he => ho f he hf) fun he => hm ⟨f, he, hf⟩
  · rw [Function.update_of_ne hn]

/-- A VMA of another context comes. -/
theorem SameFor.alloc_vma {w : Vma} (hw : ∀ m, w.vm_private_data = some m → ¬Owns v c m) :
    SameFor c v { v with vmas := v.vmas.alloc w } := by
  refine ⟨fun _ _ _ => Iff.rfl, fun _ _ _ _ => Iff.rfl, fun i u m hm hu => ?_, fun _ _ _ => Iff.rfl⟩
  show (v.vmas.alloc w).get i = some u ↔ _
  rw [Heap.get_alloc]
  by_cases hi : i = v.vmas.next
  · subst hi
    rw [if_pos rfl, Heap.get_next]
    apply iff_of_false
    · intro he
      obtain rfl := Option.some.inj he
      exact hw m hu hm
    · simp
  · rw [if_neg hi]

/-- A VMA of another context goes. -/
theorem SameFor.free_vma {i : VmaId} {w : Vma} (hi : v.vmas.get i = some w)
    (hw : ∀ m, w.vm_private_data = some m → ¬Owns v c m) :
    SameFor c v { v with vmas := v.vmas.free i } := by
  refine ⟨fun _ _ _ => Iff.rfl, fun _ _ _ _ => Iff.rfl, fun j u m hm hu => ?_, fun _ _ _ => Iff.rfl⟩
  show (v.vmas.free i).get j = some u ↔ _
  rw [Heap.get_free]
  by_cases hj : j = i
  · subst hj
    rw [if_pos rfl]
    apply iff_of_false
    · simp
    · intro he
      obtain rfl := Option.some.inj (hi.symm.trans he)
      exact hw m hu hm
  · rw [if_neg hj]

/-- A VMA of another context is cut. -/
theorem SameFor.set_vma {i : VmaId} {w w₁ : Vma} (hi : v.vmas.get i = some w)
    (hw : ∀ m, w.vm_private_data = some m → ¬Owns v c m)
    (he : w₁.vm_private_data = w.vm_private_data) :
    SameFor c v { v with vmas := v.vmas.set i w₁ } := by
  refine ⟨fun _ _ _ => Iff.rfl, fun _ _ _ _ => Iff.rfl, fun j u m hm hu => ?_, fun _ _ _ => Iff.rfl⟩
  show (v.vmas.set i w₁).get j = some u ↔ _
  by_cases hj : j = i
  · subst hj
    rw [Heap.get_set_self hi, hi]
    apply iff_of_false
    · intro he'
      obtain rfl := Option.some.inj he'
      exact hw m (he ▸ hu) hm
    · intro he'
      obtain rfl := Option.some.inj he'
      exact hw m hu hm
  · rw [Heap.get_set_ne hj]

/-- The page tables of other registrations stay when one of `m` is given back. -/
theorem unpinned_other {T : Heap P2pPageTable} {t u : TableId} {y : P2pPageTable} {m : MemId}
    (hu : ∀ x, T.get u = some x → x.data = m) (hy : y.data ≠ m) :
    (unpinned T u).get t = some y ↔ T.get t = some y := by
  unfold unpinned
  cases hx : T.get u with
  | none => rfl
  | some x =>
    by_cases ht : t = u
    · subst ht
      rw [Heap.get_set_self hx, hx]
      apply iff_of_false
      · intro he
        exact hy (Option.some.inj he ▸ hu x hx)
      · intro he
        exact hy (Option.some.inj he ▸ hu x hx)
    · rw [Heap.get_set_ne ht]

theorem released_other {m : MemId} {f : BafsMem} {t : TableId} {y : P2pPageTable}
    (ho : TablesOwned v) (hm : v.mems m = some f) (hy : y.data ≠ m) :
    (released_tables v.tables f).get t = some y ↔ v.tables.get t = some y := by
  unfold released_tables
  split
  · rfl
  · split
    · rename_i u hu
      refine unpinned_other (fun x hx => ?_) hy
      obtain ⟨z, hz, hd⟩ := ho m f u hm hu
      obtain rfl := Option.some.inj (hz.symm.trans hx)
      exact hd
    · rfl

/-- A registration of another context goes with its DMA mappings. -/
theorem SameFor.close_mem {m : MemId} {f : BafsMem} (ho : TablesOwned v) (hf : v.mems m = some f)
    (hm : ¬Owns v c m) : SameFor c v (v.close_mem m f) := by
  refine .update hm (fun g hg => by cases hg) rfl (fun d n k hn => ?_) rfl
    fun t y hy => released_other ho hf hy
  show (v.dmas d).filter _ = _ ↔ _
  rw [Option.filter_eq_some_iff]
  simp [hn]

/-! ## What a request leaves alone -/

/-- The request goes through a file of the context `c`, or a VMA or the pages of one of its
registrations. -/
def through (c : CtxId) (s : State) (r : Request) : Prop :=
  (∃ i x, r.file = some i ∧ s.files.get i = some x ∧ x.ctx = c) ∨
  (∃ i w m, r.vma = some i ∧ s.vmas.get i = some w ∧ w.vm_private_data = some m ∧
    Owns s.view c m) ∨
  ∃ t y, r = .revoke t ∧ s.tables.get t = some y ∧ Owns s.view c y.data

theorem Ioctl.same_for {x : File} {cmd : Nat} {arg : IoctlArg} {env : IoctlEnv} {reply : IoctlReply}
    (hi : Ioctl h v s x cmd arg env reply h' v') (hnew : v.mems v.mem_next = none)
    (hx : x.ctx ≠ c) : SameFor c v v' := by
  cases hi with
  | reg_mem =>
    refine .update (m := v.mem_next) ?_ (fun f hf => ?_) rfl (fun _ _ _ _ => Iff.rfl) rfl
      fun _ _ _ => Iff.rfl
    · rintro ⟨f, hf, -⟩
      cases hnew.symm.trans hf
    · obtain rfl := Option.some.inj hf
      exact hx
  | reg_mem_fails => exact ⟨fun _ _ _ => Iff.rfl, fun _ _ _ _ => Iff.rfl, fun _ _ _ _ _ => Iff.rfl,
      fun _ _ _ => Iff.rfl⟩
  | @dma_map ds D hcmd hD =>
    refine ⟨fun _ _ _ => Iff.rfl, fun d m k hm => ?_, fun _ _ _ _ _ => Iff.rfl, fun _ _ _ => Iff.rfl⟩
    by_cases hd : d ∈ ds
    · obtain ⟨hnone, n, k', hDd, ⟨⟨g, hg, hgc, -⟩, -⟩⟩ := hD.new d hd
      show D d = _ ↔ _
      rw [hDd, hnone]
      apply iff_of_false
      · intro he
        obtain ⟨rfl, -⟩ := Prod.mk.inj (Option.some.inj he)
        obtain ⟨f, hf, hfc⟩ := hm
        obtain rfl := Option.some.inj (hg.symm.trans hf)
        exact hx (hgc.symm.trans hfc)
      · simp
    · show D d = _ ↔ _
      rw [hD.old d hd]
  | create _ hcmd hc => exact .of_regs hc.regs
  | delete _ hcmd hd => exact .of_regs hd.regs
  | refused => exact .refl c v

theorem Selects.not_owns {ctx : CtxId} {vm_pgoff : Nat} {m : MemId} (hs : Selects v ctx vm_pgoff m)
    (hx : ctx ≠ c) : ¬Owns v c m := by
  obtain ⟨f, hf, hc, -⟩ := hs
  rintro ⟨g, hg, hgc⟩
  obtain rfl := Option.some.inj (hf.symm.trans hg)
  exact hx (hc.symm.trans hgc)

theorem Mmap.same_for {x : File} {mm a b pgoff : Nat} {env : MmapEnv} {w : Vma}
    (hm : Mmap h v s x (BafsDriver.new_vma mm a b pgoff) env (some w) h' v') (hx : x.ctx ≠ c) :
    SameFor c v { v' with vmas := v'.vmas.alloc w } := by
  cases hm with
  | bars_mapped => exact .alloc_vma fun m hm => by cases hm
  | @pinned m f f' w T' hp hsel hm hok hw hpin =>
    have hno := hsel.not_owns hx
    have hc : f'.ctx ≠ c := by
      intro he
      exact hno ⟨f, hm, hpin.same.ctx.symm.trans he⟩
    have hsame : SameFor c v (v.pin_mem m f' T') := by
      refine .update hno (fun g hg => ?_) View.pin_mem_mems (fun _ _ _ _ => Iff.rfl) rfl
        fun t y hy => ?_
      · obtain rfl := Option.some.inj hg
        exact hc
      · show T'.get t = some y ↔ _
        rcases hpin.table with ⟨-, -, -, rfl⟩ | ⟨-, -, -, pages, rfl⟩
        · rfl
        · rw [Heap.get_alloc]
          by_cases ht : t = v.tables.next
          · subst ht
            rw [if_pos rfl, Heap.get_next]
            apply iff_of_false
            · intro he
              exact hy (Option.some.inj he ▸ rfl)
            · simp
          · rw [if_neg ht]
    refine hsame.trans (.alloc_vma fun n hn => ?_)
    obtain ⟨u, -, rfl⟩ := hw
    obtain rfl := Option.some.inj hn
    rintro ⟨g, hg, hgc⟩
    exact hno ⟨g, (hsame.mems m g hgc).mp hg, hgc⟩

theorem Mmap.same_for_failed {x : File} {vma : Vma} {env : MmapEnv}
    (hm : Mmap h v s x vma env none h' v') (hx : x.ctx ≠ c) : SameFor c v v' := by
  cases hm with
  | @unpinned m f f' T' hp hsel hm hno hpin =>
    have hnot := hsel.not_owns hx
    refine .update hnot (fun g hg => ?_) rfl (fun _ _ _ _ => Iff.rfl) rfl fun t y hy => ?_
    · obtain rfl := Option.some.inj hg
      intro he
      exact hnot ⟨f, hm, hpin.same.ctx.symm.trans he⟩
    · show T'.get t = some y ↔ _
      rcases hpin.tables with rfl | ⟨pages, rfl⟩
      · rfl
      · rw [unpinned_other (m := m) (fun z hz => ?_) hy, Heap.get_alloc]
        · by_cases ht : t = v.tables.next
          · subst ht
            rw [if_pos rfl, Heap.get_next]
            apply iff_of_false
            · intro he
              exact hy (Option.some.inj he ▸ rfl)
            · simp
          · rw [if_neg ht]
        · rw [Heap.get_alloc, if_pos rfl] at hz
          exact Option.some.inj hz ▸ rfl
  | _ => exact .refl c v

/-- What does not go through what a context has leaves it as it is. -/
theorem Effect.same_for (he : Effect h s.view s r h' v') (hs : At h s.view s) (ht : Tidy s.view)
    (ho : TablesOwned s.view) (hn : ¬through c s r) : SameFor c s.view v' := by
  have hfile : ∀ {i x}, r.file = some i → s.files.get i = some x → x.ctx ≠ c :=
    fun hr hx hc => hn (.inl ⟨_, _, hr, hx, hc⟩)
  have hvma : ∀ {i w}, r.vma = some i → s.vmas.get i = some w →
      ∀ m, w.vm_private_data = some m → ¬Owns s.view c m :=
    fun hr hw m hm hown => hn (.inr (.inl ⟨_, _, m, hr, hw, hm, hown⟩))
  cases he with
  | opened hr hg => exact ⟨fun _ _ _ => Iff.rfl, fun _ _ _ _ => Iff.rfl, fun _ _ _ _ _ => Iff.rfl,
      fun _ _ _ => Iff.rfl⟩
  | @close i x hx hg =>
    have hc := hfile rfl hx
    have hswept : SameFor c s.view ({ s.view with files := s.view.files.free i }.sweep_ctx x.ctx) := by
      refine ⟨fun m f hf => ?_, fun _ _ _ _ => Iff.rfl, fun _ _ _ _ _ => Iff.rfl,
        fun _ _ _ => Iff.rfl⟩
      show (s.view.mems m).filter _ = _ ↔ _
      have hne : f.ctx ≠ x.ctx := fun he => hc (he.symm.trans hf)
      rw [Option.filter_eq_some_iff]
      simp [hne]
    exact hswept.trans (.of_regs (View.close_file_regs s.view h i x))
  | ioctl hx hi =>
    refine hi.same_for ?_ (hfile rfl hx)
    cases hm : s.view.mems s.view.mem_next with
    | none => rfl
    | some f => exact absurd (hs.mem_lt hm) (lt_irrefl _)
  | mmap hx hr hm => exact hm.same_for (hfile rfl hx)
  | mmap_failed hx hr hm => exact hm.same_for_failed (hfile rfl hx)
  | munmap hw hc => exact .free_vma hw (hvma rfl hw)
  | @munmap_mem i w m f hw hc hm =>
    refine (SameFor.free_vma hw (hvma rfl hw)).trans (.close_mem ho hm ?_)
    exact hvma rfl hw m ((ht.closes i w hw).symm.trans hc)
  | @split i a w hw hat =>
    refine (show SameFor c s.view { s.view with vmas := s.view.vmas.set i (w.lower a) } from
      .set_vma hw (hvma rfl hw) rfl).trans (.alloc_vma ?_)
    exact fun m hm => hvma rfl hw m hm
  | @move i a w hw hr hc =>
    exact (SameFor.alloc_vma (w := w.moved a) fun m hm => hvma rfl hw m hm).trans
      (.free_vma (Heap.get_alloc_of_get hw) (hvma rfl hw))
  | @move_mem i a w m f hw hr hc hm =>
    refine (SameFor.alloc_vma (w := w.moved a) fun m hm => hvma rfl hw m hm).trans ?_
    refine (SameFor.free_vma (v := { s.view with vmas := s.view.vmas.alloc (w.moved a) })
      (Heap.get_alloc_of_get hw) (hvma rfl hw)).trans (.close_mem ho hm ?_)
    exact hvma rfl hw m ((ht.closes i w hw).symm.trans hc)
  | @revoke t x f hx hp hm =>
    have hno : ¬Owns s.view c x.data := fun hown => hn (.inr (.inr ⟨t, x, rfl, hx, hown⟩))
    refine .update (m := x.data) (o := some { f with state := .DEAD_CB, cuda_page_table := none })
      hno (fun g hg => ?_) (View.revoke_mem_mems (ht.alive _ f hm)) (fun d n k _ => ?_)
      View.revoke_mem_vmas fun u y hy => ?_
    · obtain rfl := Option.some.inj hg
      exact fun hc => hno ⟨f, hm, hc⟩
    · rw [View.revoke_mem_dmas]
    · rw [View.revoke_mem_tables]
      refine unpinned_other (fun z hz => ?_) hy
      obtain rfl := Option.some.inj (hx.symm.trans hz)
      rfl
  | _ => exact .refl c s.view

/-! ## Runs -/

/-- What the context `c` has is as it was, to the last reference: its registrations, DMA mappings,
VMAs and page tables, and what its handles and addresses stand for. -/
structure Untouched (c : CtxId) (s s' : State) : Prop where
  mems : ∀ m x, s.mems.get m = some x → x.ctx = c → ∃ x', s'.mems.get m = some x' ∧
    x'.fields = x.fields ∧ x'.ref = x.ref ∧ x'.dma_list.Perm x.dma_list
  no_new : ∀ m x, s'.mems.get m = some x → x.ctx = c → ∃ y, s.mems.get m = some y ∧ y.ctx = c
  dmas : ∀ d m k, Owns s.view c m →
    ((∃ y, s'.dmas.get d = some y ∧ y.mem = m ∧ y.ctrl = k) ↔
      ∃ y, s.dmas.get d = some y ∧ y.mem = m ∧ y.ctrl = k)
  vmas : ∀ i w m, Owns s.view c m → w.vm_private_data = some m →
    (s'.vmas.get i = some w ↔ s.vmas.get i = some w)
  tables : ∀ t y, Owns s.view c y.data → (s'.tables.get t = some y ↔ s.tables.get t = some y)
  handles : ∀ vm_pgoff m, Selects s'.view c vm_pgoff m ↔ Selects s.view c vm_pgoff m
  addresses : ∀ vaddr m, Found s'.view c vaddr m ↔ Found s.view c vaddr m

theorem view_dma_iff {d : DmaId} {m : MemId} {k : CtrlId} :
    (∃ y, s.dmas.get d = some y ∧ y.mem = m ∧ y.ctrl = k) ↔ s.view.dmas d = some (m, k) := by
  show _ ↔ (s.dmas.get d).map _ = _
  simp [Option.map_eq_some_iff]

theorem SameFor.untouched (hs : SameFor c s.view s'.view) (hi : Inv s) (hi' : Inv s') :
    Untouched c s s' := by
  obtain ⟨h, -, hat⟩ := hi.sane.at
  obtain ⟨h', -, hat'⟩ := hi'.sane.at
  refine ⟨fun m x hx hc => ?_, fun m x hx hc => ?_, fun d m k hm => ?_, hs.vmas, hs.tables,
    fun p m => ?_, fun a m => ?_⟩
  · obtain ⟨x', hx', hf⟩ := hat'.mem_live ((hs.mems m x.fields hc).mpr (hat.mem_view hx))
    have hperm : x'.dma_list.Perm x.dma_list := by
      rw [List.perm_ext_iff_of_nodup (hat'.wf.dmas.nodup m x' hx') (hat.wf.dmas.nodup m x hx)]
      intro d
      rw [hat'.wf.dmas.listed m x' d hx', hat.wf.dmas.listed m x d hx]
      have hown : Owns s.view c m := ⟨x.fields, hat.mem_view hx, hc⟩
      constructor
      · rintro ⟨y, hy, hym⟩
        have hd := (hs.dmas d m y.ctrl hown).mp (view_dma_iff.mp ⟨y, hy, hym, rfl⟩)
        obtain ⟨z, hz, hzm, -⟩ := view_dma_iff.mpr hd
        exact ⟨z, hz, hzm⟩
      · rintro ⟨y, hy, hym⟩
        have hd := (hs.dmas d m y.ctrl hown).mpr (view_dma_iff.mp ⟨y, hy, hym, rfl⟩)
        obtain ⟨z, hz, hzm, -⟩ := view_dma_iff.mpr hd
        exact ⟨z, hz, hzm⟩
    refine ⟨x', hx', hf, ?_, hperm⟩
    rw [hi'.mem_ref hx', hi.mem_ref hx, hperm.length_eq]
  · obtain ⟨y, hy, hf⟩ := hat.mem_live ((hs.mems m x.fields hc).mp (hat'.mem_view hx))
    exact ⟨y, hy, (congrArg BafsMem.ctx hf).trans hc⟩
  · rw [view_dma_iff, view_dma_iff]
    exact hs.dmas d m k hm
  · unfold Selects
    constructor
    · rintro ⟨f, hf, hc, hid⟩
      exact ⟨f, (hs.mems m f hc).mp hf, hc, hid⟩
    · rintro ⟨f, hf, hc, hid⟩
      exact ⟨f, (hs.mems m f hc).mpr hf, hc, hid⟩
  · unfold Found
    constructor
    · rintro ⟨⟨f, hf, hc, hm⟩, hnew⟩
      exact ⟨⟨f, (hs.mems m f hc).mp hf, hc, hm⟩,
        fun n g hg hgc => hnew n g ((hs.mems n g hgc).mpr hg) hgc⟩
    · rintro ⟨⟨f, hf, hc, hm⟩, hnew⟩
      exact ⟨⟨f, (hs.mems m f hc).mpr hf, hc, hm⟩,
        fun n g hg hgc => hnew n g ((hs.mems n g hgc).mp hg) hgc⟩

theorem run_tables_owned {rs : List Request} (hr : run step rs init = .ok s) :
    TablesOwned s.view := by
  have hall : Always step (fun _ => True) (fun s => TablesOwned s.view) rs init := by
    refine always_of_step (I := fun s => Inv s ∧ TablesOwned s.view) (fun s r hi => ?_)
      (fun s hi => hi.2) rs ⟨inv_init, fun m f t hf => ?_⟩
    · obtain ⟨h, -, -, hstep⟩ := step_inv r hi.1
      refine wp_weaken (wp_mono hstep fun _ s' hs' => ?_) fun _ _ => trivial
      obtain ⟨hi', h', -, -, he⟩ := hs'
      exact ⟨hi', he.tables_owned hi.1.tidy hi.2⟩
    · rw [init_mems] at hf
      cases hf
  exact (always_iff_run.mp hall rs (List.prefix_refl rs)).1 s hr

/-- Whether the request goes through nothing that the context `c` has. -/
def passes_by (c : CtxId) (s : State) (r : Request) : Bool :=
  (r.file.all fun i => (s.files.get i).all fun x => decide (x.ctx ≠ c)) &&
    (r.vma.all fun i => (s.vmas.get i).all fun w => w.vm_private_data.all fun m =>
      (s.mems.get m).all fun y => decide (y.ctx ≠ c)) &&
    match r with
    | .revoke _ => false
    | _ => true

theorem not_through_of_test (hp : passes_by c s r = true) : ¬through c s r := by
  simp only [passes_by, Bool.and_eq_true, Option.all_eq_true] at hp
  obtain ⟨⟨hfile, hvma⟩, hrevoke⟩ := hp
  rintro (⟨i, x, hr, hx, hc⟩ | ⟨i, w, m, hr, hw, hm, f, hf, hc⟩ | ⟨t, y, rfl, -⟩)
  · exact of_decide_eq_true (hfile i hr x hx) hc
  · obtain ⟨y, hy, rfl⟩ := Option.map_eq_some_iff.mp hf
    exact of_decide_eq_true (hvma i hr w hw m hm y hy) hc
  · cases hrevoke

/-- Another process registers memory, maps it, unmaps it, and closes its file. -/
def used_by_another : List Request :=
  [.open_core { tgid := 2, tgid_struct := 2, mm := 2 } granted_ctx,
    .reg_mem 1 BAFS_CORE_IOC_REG_MEM 4096 BAFS_MEM_CPU, .map 1 0x20000 1 1, .munmap 1, .close 1]

end BafsDriver
