import BafsDriver.Proofs.RegProofs
import BafsDriver.Scenario

/-!
# The states of a registration

A registration is made `STALE`, becomes `LIVE` when it is pinned, and `DEAD` when its VMA is closed,
by way of `DEAD_CB` if its pages are revoked before. Nothing in the driver asks for the state before a
pin, so the order is kept exactly along the runs in which no pin of a registration that has left
`STALE` succeeds.
-/

namespace BafsDriver

open Prog

variable {h h' : Held Kind} {v v' : View} {s s' : State} {r : Request}

/-- The changes of state that are meant. -/
def advances : STATE → STATE → Prop
  | .STALE, .LIVE => True
  | .LIVE, .DEAD => True
  | .LIVE, .DEAD_CB => True
  | .DEAD_CB, .DEAD => True
  | _, _ => False

/-- The states that the registration `m` has had, from the last to the first. -/
def history (L : List StateChange) (m : MemId) : List STATE :=
  (L.filter fun e => e.mem = m).map StateChange.new ++ [.STALE]

/-- Every registration has moved as it is meant to, and one whose pages were revoked has no page
table. -/
structure StateMachine (s : State) : Prop where
  moves : ∀ m, (history s.state_log m).IsChain fun new old => advances old new
  current : ∀ m x, s.mems.get m = some x → (history s.state_log m).head? = some x.state
  revoked : ∀ m x, s.mems.get m = some x → x.state = .DEAD_CB →
    x.cuda_page_table = none ∧ x.cpu_page_table = none

/-- The request is no mmap in which a registration that has left `STALE` is pinned. -/
def pins_stale (s : State) : Request → Prop
  | .mmap i mm a b pgoff env => ∀ x m f, s.files.get i = some x → range_free s mm a b →
    ¬maps_bars x pgoff → Selects s.view x.ctx pgoff m → s.view.mems m = some f →
    pinnable f (new_vma mm a b pgoff) env.pin → f.state = .STALE
  | _ => True

/-! ## Histories -/

theorem history_cons_self {L : List StateChange} {m : MemId} {old new : STATE} :
    history (⟨m, old, new⟩ :: L) m = new :: history L m := by
  simp [history]

theorem history_cons_ne {L : List StateChange} {m n : MemId} {old new : STATE} (hn : n ≠ m) :
    history (⟨m, old, new⟩ :: L) n = history L n := by
  simp [history, hn.symm]

/-- A registration without changes is as it was made. -/
theorem history_fresh {L : List StateChange} {m : MemId} (hm : ∀ e ∈ L, e.mem ≠ m) :
    history L m = [.STALE] := by
  have : L.filter (fun e => e.mem = m) = [] :=
    List.filter_eq_nil_iff.mpr fun e he => by simpa using hm e he
  rw [history, this]
  rfl

/-- All histories move as meant. -/
def Moves (L : List StateChange) : Prop :=
  ∀ m, (history L m).IsChain fun new old => advances old new

/-- A change of state that is logged keeps the histories in order exactly if it is meant. -/
theorem moves_cons {L : List StateChange} {m : MemId} {old new : STATE} (hL : Moves L)
    (hm : (history L m).head? = some old) : Moves (⟨m, old, new⟩ :: L) ↔ advances old new := by
  obtain ⟨rest, hrest⟩ := List.head?_eq_some_iff.mp hm
  refine ⟨fun hmv => ?_, fun ha n => ?_⟩
  · have := hmv m
    rw [history_cons_self, hrest] at this
    exact (List.isChain_cons_cons.mp this).1
  · by_cases hn : n = m
    · subst hn
      have := hL n
      rw [hrest] at this
      rw [history_cons_self, hrest]
      exact List.isChain_cons_cons.mpr ⟨ha, this⟩
    · rw [history_cons_ne hn]
      exact hL n

/-! ## The invariant -/

/-- What is kept as long as no pin of a registration that has left `STALE` succeeds: the log tells the
state of every registration, and a page table of the NVIDIA driver that is pinned belongs to a
registration that is live, or gone. -/
structure Logged (v : View) : Prop where
  current : ∀ m f, v.mems m = some f → (history v.state_log m).head? = some f.state
  logged : ∀ e ∈ v.state_log, e.mem < v.mem_next
  table_live : ∀ t x f, v.tables.get t = some x → x.pinned = true → v.mems x.data = some f →
    f.state = .LIVE ∧ f.loc = BAFS_MEM_CUDA
  table_sole : ∀ t u x y f, v.tables.get t = some x → v.tables.get u = some y → x.pinned = true →
    y.pinned = true → x.data = y.data → v.mems x.data = some f → t = u
  revoked : ∀ m f, v.mems m = some f → f.state = .DEAD_CB →
    f.cuda_page_table = none ∧ f.cpu_page_table = none

/-- A request that only gives up registrations and page tables. -/
theorem Logged.shrink (hL : Logged v) (hm : ∀ m f, v'.mems m = some f → v.mems m = some f)
    (hn : v.mem_next ≤ v'.mem_next) (hl : v'.state_log = v.state_log)
    (ht : ∀ t x, v'.tables.get t = some x → x.pinned = true →
      ∃ y, v.tables.get t = some y ∧ x.data = y.data ∧ y.pinned = true) : Logged v' where
  current m f hf := by
    rw [hl]
    exact hL.current m f (hm m f hf)
  logged e he := by
    rw [hl] at he
    exact Nat.lt_of_lt_of_le (hL.logged e he) hn
  table_live t x f hx hp hf := by
    obtain ⟨y, hy, hd, hpy⟩ := ht t x hx hp
    exact hL.table_live t y f hy hpy (hd ▸ hm _ f hf)
  table_sole t u x y f hx hy hp hq hd hf := by
    obtain ⟨x', hx', hdx, hpx⟩ := ht t x hx hp
    obtain ⟨y', hy', hdy, hpy⟩ := ht u y hy hq
    exact hL.table_sole t u x' y' f hx' hy' hpx hpy (hdx ▸ hdy ▸ hd) (hdx ▸ hm _ f hf)
  revoked m f hf := hL.revoked m f (hm m f hf)

theorem Logged.same (hL : Logged v) (hr : v'.regs = v.regs) : Logged v' := by
  have hm : v'.mems = v.mems := congrArg (·.1) hr
  have hn : v'.mem_next = v.mem_next := congrArg (·.2.1) hr
  have ht : v'.tables = v.tables := congrArg (·.2.2.2.2.2.1) hr
  have hl : v'.state_log = v.state_log := congrArg (·.2.2.2.2.2.2) hr
  refine hL.shrink (fun m f hf => hm ▸ hf) hn.ge hl fun t x hx hp => ?_
  rw [ht] at hx
  exact ⟨x, hx, rfl, hp⟩

/-- The new registration has no history and no page table. -/
theorem Logged.add_mem {f : BafsMem} (hL : Logged v) (ht : Tidy v) (hst : f.state = .STALE) :
    Logged (v.add_mem f) := by
  have hmems : ∀ m g, (v.add_mem f).mems m = some g →
      (m = v.mem_next ∧ g = f) ∨ (m ≠ v.mem_next ∧ v.mems m = some g) := by
    intro m g hg
    have hg : Function.update v.mems v.mem_next (some f) m = some g := hg
    by_cases hm : m = v.mem_next
    · rw [hm, Function.update_self] at hg
      exact .inl ⟨hm, (Option.some.inj hg).symm⟩
    · rw [Function.update_of_ne hm] at hg
      exact .inr ⟨hm, hg⟩
  have htable : ∀ t x, v.tables.get t = some x → x.data ≠ v.mem_next :=
    fun t x hx => Nat.ne_of_lt (ht.table_made t x hx)
  have hold : ∀ t x g, v.tables.get t = some x → (v.add_mem f).mems x.data = some g →
      v.mems x.data = some g := by
    intro t x g hx hg
    obtain ⟨hm, -⟩ | ⟨-, hg⟩ := hmems _ g hg
    · exact absurd hm (htable t x hx)
    · exact hg
  refine ⟨fun m g hg => ?_, fun e he => ?_, fun t x g hx hp hg => ?_,
    fun t u x y g hx hy hp hq hd hg => ?_, fun m g hg hcb => ?_⟩
  · obtain ⟨rfl, rfl⟩ | ⟨-, hg⟩ := hmems m g hg
    · rw [hst, show (v.add_mem g).state_log = v.state_log from rfl,
        history_fresh fun e he => Nat.ne_of_lt (hL.logged e he)]
      rfl
    · exact hL.current m g hg
  · exact Nat.lt_succ_of_lt (hL.logged e he)
  · exact hL.table_live t x g hx hp (hold t x g hx hg)
  · exact hL.table_sole t u x y g hx hy hp hq hd (hold t x g hx hg)
  · obtain ⟨-, rfl⟩ | ⟨-, hg⟩ := hmems m g hg
    · cases hst.symm.trans hcb
    · exact hL.revoked m g hg hcb

/-- What an update of a registration leaves of the others. -/
theorem update_cases {M : MemId → Option BafsMem} {m n : MemId} {o : Option BafsMem} {g : BafsMem}
    (hg : Function.update M m o n = some g) : (n = m ∧ o = some g) ∨ (n ≠ m ∧ M n = some g) := by
  by_cases hn : n = m
  · rw [hn, Function.update_self] at hg
    exact .inl ⟨hn, hg⟩
  · rw [Function.update_of_ne hn] at hg
    exact .inr ⟨hn, hg⟩

/-- A change of state that is logged and made. -/
theorem current_cons {L : List StateChange} {M : MemId → Option BafsMem} {m : MemId}
    {old new : STATE} {o : Option BafsMem}
    (hL : ∀ n g, M n = some g → (history L n).head? = some g.state)
    (ho : ∀ g, o = some g → g.state = new) :
    ∀ n g, Function.update M m o n = some g →
      (history (⟨m, old, new⟩ :: L) n).head? = some g.state := by
  intro n g hg
  obtain ⟨rfl, ho'⟩ | ⟨hn, hM⟩ := update_cases hg
  · rw [history_cons_self, ho g ho']
    rfl
  · rw [history_cons_ne hn]
    exact hL n g hM

theorem Logged.pin_mem {m : MemId} {f f' : BafsMem} {a : Nat} {T' : Heap P2pPageTable} {w : Vma}
    (hL : Logged v) (hm : v.mems m = some f) (hlt : m < v.mem_next) (hst : f.state = .STALE)
    (hp : Pinned m { f with vaddr := a } f' v.tables T' w) : Logged (v.pin_mem m f' T') := by
  have hmems : ∀ n g, (v.pin_mem m f' T').mems n = some g →
      (n = m ∧ some { f' with state := .LIVE } = some g) ∨ (n ≠ m ∧ v.mems n = some g) := by
    intro n g hg
    rw [View.pin_mem_mems] at hg
    exact update_cases hg
  -- no page table that is pinned belongs to a registration that is `STALE`
  have hother : ∀ t x, v.tables.get t = some x → x.pinned = true → x.data ≠ m := by
    intro t x hx hpin hd
    have := (hL.table_live t x f hx hpin (hd ▸ hm)).1
    cases this.symm.trans hst
  have htable : ∀ t x, T'.get t = some x → x.pinned = true →
      (t = v.tables.next ∧ x.data = m ∧ f.loc = BAFS_MEM_CUDA) ∨ v.tables.get t = some x := by
    intro t x hx hpin
    rcases hp.table with ⟨-, -, -, rfl⟩ | ⟨hloc, -, -, pages, rfl⟩
    · exact .inr hx
    · obtain ⟨ht, rfl⟩ | hx := Heap.get_alloc_cases hx
      · exact .inl ⟨ht, rfl, hloc⟩
      · exact .inr hx
  refine ⟨?_, fun e he => ?_, fun t x g hx hpin hg => ?_,
    fun t u x y g hx hy hpin hq hd hg => ?_, fun n g hg hcb => ?_⟩
  · intro n g hg
    rw [View.pin_mem_mems] at hg
    exact current_cons hL.current (fun g hg => by cases hg; rfl) n g hg
  · obtain rfl | he := List.mem_cons.mp he
    · exact hlt
    · exact hL.logged e he
  · obtain ⟨-, hd, hloc⟩ | hx := htable t x hx hpin
    · obtain ⟨-, hg⟩ | ⟨hne, -⟩ := hmems _ g hg
      · cases hg
        exact ⟨rfl, hp.same.loc.trans hloc⟩
      · exact absurd hd hne
    · obtain ⟨hd, -⟩ | ⟨-, hg⟩ := hmems _ g hg
      · exact absurd hd (hother t x hx hpin)
      · exact hL.table_live t x g hx hpin hg
  · obtain ⟨ht, hdx, -⟩ | hx := htable t x hx hpin
    · obtain ⟨hu, -⟩ | hy := htable u y hy hq
      · exact ht.trans hu.symm
      · exact absurd (hd.symm.trans hdx) (hother u y hy hq)
    · obtain ⟨-, hdy, -⟩ | hy := htable u y hy hq
      · exact absurd (hd.trans hdy) (hother t x hx hpin)
      · obtain ⟨hdm, -⟩ | ⟨-, hg⟩ := hmems _ g hg
        · exact absurd hdm (hother t x hx hpin)
        · exact hL.table_sole t u x y g hx hy hpin hq hd hg
  · obtain ⟨-, hg⟩ | ⟨-, hg⟩ := hmems n g hg
    · cases hg
      cases hcb
    · exact hL.revoked n g hg hcb

theorem Logged.unpinned {m : MemId} {f f' : BafsMem} {a : Nat} {T' : Heap P2pPageTable}
    (hL : Logged v) (hm : v.mems m = some f)
    (hp : Unpinned m { f with vaddr := a } f' v.tables T') :
    Logged ({ v with tables := T' }.set_mem m f') := by
  have hstate : f'.state = f.state := hp.same.state
  have hmems : ∀ n g, Function.update v.mems m (some f') n = some g →
      ∃ g', v.mems n = some g' ∧ g.state = g'.state ∧ g.loc = g'.loc ∧
        (g'.cuda_page_table = none → g.cuda_page_table = none) ∧
        (g'.cpu_page_table = none → g.cpu_page_table = none) := by
    intro n g hg
    obtain ⟨rfl, hf'⟩ | ⟨-, hg⟩ := update_cases hg
    · cases hf'
      exact ⟨f, hm, hstate, hp.same.loc, fun hn => hp.cuda.elim (·.trans hn) id,
        fun hn => hp.cpu.elim (·.trans hn) id⟩
    · exact ⟨g, hg, rfl, rfl, id, id⟩
  have htable : ∀ t x, T'.get t = some x → x.pinned = true →
      ∃ y, v.tables.get t = some y ∧ x.data = y.data ∧ y.pinned = true := by
    intro t x hx hpin
    obtain rfl | ⟨pages, rfl⟩ := hp.tables
    · exact ⟨x, hx, rfl, hpin⟩
    · obtain ⟨y, hy, hd, hpy⟩ := unpinned_get hx
      obtain ⟨ht, -⟩ | hy := Heap.get_alloc_cases hy
      · exact absurd ht (hpy hpin).1
      · exact ⟨y, hy, hd, (hpy hpin).2⟩
  refine ⟨fun n g hg => ?_, hL.logged, fun t x g hx hpin hg => ?_,
    fun t u x y g hx hy hpin hq hd hg => ?_, fun n g hg hcb => ?_⟩
  · obtain ⟨g', hg', hst, -⟩ := hmems n g hg
    rw [hst]
    exact hL.current n g' hg'
  · obtain ⟨y, hy, hd, hpy⟩ := htable t x hx hpin
    obtain ⟨g', hg', hst, hloc, -⟩ := hmems _ g hg
    rw [hst, hloc]
    exact hL.table_live t y g' hy hpy (hd ▸ hg')
  · obtain ⟨x', hx', hdx, hpx⟩ := htable t x hx hpin
    obtain ⟨y', hy', hdy, hpy⟩ := htable u y hy hq
    obtain ⟨g', hg', -⟩ := hmems _ g hg
    exact hL.table_sole t u x' y' g' hx' hy' hpx hpy (hdx ▸ hdy ▸ hd) (hdx ▸ hg')
  · obtain ⟨g', hg', hst, -, hcuda, hcpu⟩ := hmems n g hg
    obtain ⟨hc, hp⟩ := hL.revoked n g' hg' (hst.symm.trans hcb)
    exact ⟨hcuda hc, hcpu hp⟩

theorem released_pinned {T : Heap P2pPageTable} {f : BafsMem} {t : TableId} {x : P2pPageTable}
    (hx : (released_tables T f).get t = some x) (hp : x.pinned = true) :
    ∃ y, T.get t = some y ∧ x.data = y.data ∧ y.pinned = true := by
  unfold released_tables at hx
  split at hx
  · exact ⟨x, hx, rfl, hp⟩
  · split at hx
    · obtain ⟨y, hy, hd, hpy⟩ := unpinned_get hx
      exact ⟨y, hy, hd, (hpy hp).2⟩
    · exact ⟨x, hx, rfl, hp⟩

theorem Logged.close_mem {m : MemId} {f : BafsMem} (hL : Logged v)
    (hlt : m < v.mem_next) : Logged (v.close_mem m f) := by
  have hL' : Logged { v.close_mem m f with state_log := v.state_log } :=
    hL.shrink (fun n g hg => (close_mem_some (g := f) hg).2) le_rfl rfl fun t x hx hp => released_pinned hx hp
  refine ⟨?_, fun e he => ?_, hL'.table_live, hL'.table_sole, hL'.revoked⟩
  · show ∀ n g, Function.update v.mems m none n = some g →
      (history (released_log v.state_log m f) n).head? = some g.state
    unfold released_log
    split
    · exact hL'.current
    · exact current_cons hL.current fun g hg => by cases hg
  · have he : e ∈ released_log v.state_log m f := he
    unfold released_log at he
    split at he
    · exact hL.logged e he
    · obtain rfl | he := List.mem_cons.mp he
      · exact hlt
      · exact hL.logged e he

/-- A revocation takes the only page table of its registration away. -/
theorem Logged.revoke {t : TableId} {x : P2pPageTable} {f : BafsMem} (hL : Logged v) (ht : Tidy v)
    (hx : v.tables.get t = some x) (hp : x.pinned = true) (hm : v.mems x.data = some f)
    (hlt : x.data < v.mem_next) :
    Logged ({ v with tables := BafsDriver.unpinned v.tables t }.revoke_mem x.data f) := by
  have hlive : f.state = .LIVE ∧ f.loc = BAFS_MEM_CUDA := hL.table_live t x f hx hp hm
  have hdead : f.state ≠ .DEAD := by
    rw [hlive.1]
    decide
  have hcpu : f.cpu_page_table = none := by
    refine ht.cpu_only _ f hm ?_
    rw [hlive.2]
    decide
  have htable : ∀ u y, (BafsDriver.unpinned v.tables t).get u = some y → y.pinned = true →
      ∃ z, v.tables.get u = some z ∧ y.data = z.data ∧ z.pinned = true ∧ z.data ≠ x.data := by
    intro u y hy hpin
    obtain ⟨z, hz, hd, hpz⟩ := unpinned_get hy
    refine ⟨z, hz, hd, (hpz hpin).2, fun he => (hpz hpin).1 ?_⟩
    exact hL.table_sole u t z x f hz hx (hpz hpin).2 hp he (he ▸ hm)
  have hv : ({ v with tables := BafsDriver.unpinned v.tables t } : View).revoke_mem x.data f =
      { v with
        tables := BafsDriver.unpinned v.tables t
        mems := Function.update v.mems x.data
          (some { f with state := .DEAD_CB, cuda_page_table := none })
        state_log := ⟨x.data, f.state, .DEAD_CB⟩ :: v.state_log } := by
    unfold View.revoke_mem
    rw [if_neg hdead]
    unfold View.set_state View.set_mem
    simp only [Function.update_idem]
  rw [hv]
  refine ⟨current_cons hL.current fun g hg => by cases hg; rfl, fun e he => ?_,
    fun u y g hy hpin hg => ?_, fun u w y z g hy hz hpin hq hd hg => ?_, fun n g hg hcb => ?_⟩
  · obtain rfl | he := List.mem_cons.mp he
    · exact hlt
    · exact hL.logged e he
  · obtain ⟨z, hz, hd, hpz, hne⟩ := htable u y hy hpin
    obtain ⟨he, -⟩ | ⟨-, hg⟩ := update_cases hg
    · exact absurd (hd.symm.trans he) hne
    · exact hL.table_live u z g hz hpz (hd ▸ hg)
  · obtain ⟨y', hy', hdy, hpy, hne⟩ := htable u y hy hpin
    obtain ⟨z', hz', hdz, hpz, -⟩ := htable w z hz hq
    obtain ⟨he, -⟩ | ⟨-, hg⟩ := update_cases hg
    · exact absurd (hdy.symm.trans he) hne
    · exact hL.table_sole u w y' z' g hy' hz' hpy hpz (hdy ▸ hdz ▸ hd) (hdy ▸ hg)
  · obtain ⟨-, hg⟩ | ⟨-, hg⟩ := update_cases hg
    · cases hg
      exact ⟨rfl, hcpu⟩
    · exact hL.revoked n g hg hcb

/-! ## What a request leaves behind -/

theorem Effect.logged (he : Effect h s.view s r h' v') (hs : At h s.view s) (ht : Tidy s.view)
    (hL : Logged s.view) (hk : pins_stale s r) : Logged v' := by
  have hmmap : ∀ {i mm a b pgoff : Nat} {x : File} {env : MmapEnv} {w : Option Vma} {h' : Held Kind}
      {v' : View}, s.files.get i = some x → range_free s mm a b →
      pins_stale s (.mmap i mm a b pgoff env) →
      Mmap h s.view s x (new_vma mm a b pgoff) env w h' v' → Logged v' := by
    intro i mm a b pgoff x env w h' v' hx hr hk hm
    cases hm with
    | pinned hp hsel hm hok hw hf =>
      exact hL.pin_mem hm (hs.mem_lt hm) (hk x _ _ hx hr hp hsel hm hok) hf
    | unpinned hp hsel hm hno hf => exact hL.unpinned hm hf
    | _ => exact hL
  cases he with
  | opened hr hg =>
    exact hL.shrink (fun m f hf => hf) le_rfl rfl fun t x hx hp => ⟨x, hx, rfl, hp⟩
  | @close i x hx hg =>
    have hr := View.close_file_regs s.view h i x
    refine Logged.same (v := { s.view with files := s.view.files.free i }.sweep_ctx x.ctx) ?_ hr
    exact hL.shrink (fun m f hf => (sweep_ctx_some hf).1) le_rfl rfl
      fun t x hx hp => ⟨x, hx, rfl, hp⟩
  | ioctl hx hi =>
    cases hi with
    | reg_mem => exact hL.add_mem ht rfl
    | reg_mem_fails hcmd hy hf hret hn =>
      exact hL.shrink (fun m f hf => hf) hn rfl fun t x hx hp => ⟨x, hx, rfl, hp⟩
    | dma_map => exact hL.shrink (fun m f hf => hf) le_rfl rfl fun t x hx hp => ⟨x, hx, rfl, hp⟩
    | create hx' hcmd hc => exact hL.same hc.regs
    | delete hx' hcmd hd => exact hL.same hd.regs
    | refused => exact hL
  | mmap hx hr hm =>
    exact (hmmap hx hr hk hm).shrink (fun m f hf => hf) le_rfl rfl fun t x hx hp => ⟨x, hx, rfl, hp⟩
  | mmap_failed hx hr hm => exact hmmap hx hr hk hm
  | munmap_mem hw hc hm =>
    refine Logged.close_mem ?_ (hs.mem_lt hm)
    exact hL.shrink (fun m f hf => hf) le_rfl rfl fun t x hx hp => ⟨x, hx, rfl, hp⟩
  | move_mem hw hr hc hm =>
    refine Logged.close_mem ?_ (hs.mem_lt hm)
    exact hL.shrink (fun m f hf => hf) le_rfl rfl fun t x hx hp => ⟨x, hx, rfl, hp⟩
  | revoke hx hp hm => exact hL.revoke ht hx hp hm (hs.mem_lt hm)
  | munmap | split | move =>
    exact hL.shrink (fun m f hf => hf) le_rfl rfl fun t x hx hp => ⟨x, hx, rfl, hp⟩
  | _ => exact hL

theorem pins_stale_of_not_mmap (hr : ∀ i mm a b pgoff env, r ≠ .mmap i mm a b pgoff env) :
    pins_stale s r := by
  cases r with
  | mmap i mm a b pgoff env => exact absurd rfl (hr i mm a b pgoff env)
  | _ => trivial

/-- A pin that fails to find its registration `STALE` is a request of an open file. -/
theorem pins_stale_no_file {i : FileId} (hr : r.file = some i) (hx : s.files.get i = none) :
    pins_stale s r := by
  cases r with
  | mmap j mm a b pgoff env =>
    cases hr
    intro x m f hx'
    cases hx.symm.trans hx'
  | _ => trivial

theorem moves_release {L : List StateChange} {m : MemId} {f : BafsMem} (hL : Moves L)
    (hm : (history L m).head? = some f.state) (hf : f.state ≠ .DEAD) :
    Moves (released_log L m f) := by
  unfold released_log
  split
  · exact hL
  · rename_i hst
    refine (moves_cons hL hm).mpr ?_
    cases hs : f.state with
    | STALE => exact absurd hs hst
    | LIVE => trivial
    | DEAD => exact absurd hs hf
    | DEAD_CB => trivial

/-- The histories stay in order exactly if the request does not pin a registration that has left
`STALE`. -/
theorem Effect.moves_iff (he : Effect h s.view s r h' v') (hs : At h s.view s) (ht : Tidy s.view)
    (hL : Logged s.view) (hmv : Moves s.view.state_log) :
    Moves v'.state_log ↔ pins_stale s r := by
  cases he with
  | probe | remove | revoke_refused | munmap | split | split_refused | move | move_taken =>
    exact iff_of_true hmv trivial
  | opened hr | not_opened hr =>
    refine iff_of_true hmv (pins_stale_of_not_mmap ?_)
    rintro i mm a b pgoff env rfl
    exact hr
  | @close i x hx hg =>
    have hr := View.close_file_regs s.view h i x
    rw [regs_state_log hr]
    exact iff_of_true hmv trivial
  | ioctl hx hi =>
    refine iff_of_true ?_ trivial
    cases hi with
    | create hx' hcmd hc =>
      rw [regs_state_log hc.regs]
      exact hmv
    | delete hx' hcmd hd =>
      rw [regs_state_log hd.regs]
      exact hmv
    | _ => exact hmv
  | @mmap i mm a b pgoff x env w _ v₁ hx hr hm =>
    cases hm with
    | bars_mapped hp hl hok =>
      refine iff_of_true hmv fun y m f hy _ hnp => ?_
      cases hx.symm.trans hy
      exact absurd hp hnp
    | @pinned m f f' w T' hp hsel hm hok hw hf =>
      have hst : f'.state = f.state := hf.same.state
      have hcur := hL.current m f hm
      rw [← hst] at hcur
      refine (moves_cons hmv hcur).trans ⟨fun ha y n g hy _ _ hsel' hn _ => ?_, fun hk => ?_⟩
      · cases hx.symm.trans hy
        obtain rfl := hs.selects_unique hsel hsel'
        cases hm.symm.trans hn
        rw [hst] at ha
        cases hfs : f.state with
        | STALE => rfl
        | LIVE | DEAD | DEAD_CB =>
          rw [hfs] at ha
          exact ha.elim
      · rw [hst, hk x m f hx hr hp hsel hm hok]
        trivial
  | @mmap_failed i mm a b pgoff x env _ v₁ hx hr hm =>
    cases hm with
    | bars_failed hp hl hj hno hok =>
      refine iff_of_true hmv fun y m f hy _ hnp => ?_
      cases hx.symm.trans hy
      exact absurd hp hnp
    | @unpinned m f f' T' hp hsel hm hno hf =>
      refine iff_of_true hmv fun y n g hy _ _ hsel' hn hok => ?_
      cases hx.symm.trans hy
      obtain rfl := hs.selects_unique hsel hsel'
      cases hm.symm.trans hn
      exact absurd hok hno
    | unknown hp hsel =>
      refine iff_of_true hmv fun y n g hy _ _ hsel' => ?_
      cases hx.symm.trans hy
      exact absurd hsel' (hsel n)
  | mmap_taken hr =>
    refine iff_of_true hmv fun x m f hx hr' => ?_
    exact absurd hr' hr
  | no_file hr hx => exact iff_of_true hmv (pins_stale_no_file hr hx)
  | no_vma hr hw =>
    refine iff_of_true hmv (pins_stale_of_not_mmap ?_)
    rintro i mm a b pgoff env rfl
    cases hr
  | munmap_mem hw hc hm =>
    exact iff_of_true (moves_release hmv (hL.current _ _ hm) (ht.alive _ _ hm)) trivial
  | move_mem hw hr hc hm =>
    exact iff_of_true (moves_release hmv (hL.current _ _ hm) (ht.alive _ _ hm)) trivial
  | @revoke t x f hx hp hm =>
    refine iff_of_true ?_ trivial
    have hst := (hL.table_live t x f hx hp hm).1
    unfold View.revoke_mem
    rw [if_neg (ht.alive _ _ hm)]
    refine (moves_cons hmv (hL.current _ _ hm)).mpr ?_
    rw [hst]
    trivial

/-- A pin of a registration that has left `STALE` does not get stuck. -/
theorem pins_stale_of_stuck {e : Fault} (hst : Stuck s.view s r e) : pins_stale s r := by
  cases hst with
  | table_short hr | vma_freed hr =>
    cases r with
    | mmap => exact hr.elim
    | _ => trivial
  | @group_freed r i x hr hx hg hp =>
    cases r with
    | mmap j mm a b pgoff env =>
      cases hr
      intro y m f hy _ hnp
      cases hx.symm.trans hy
      exact absurd (hp _ _ _ _ _ rfl) hnp
    | _ => trivial
  | _ => trivial

theorem stateMachine_iff (hs : At h s.view s) (hL : Logged s.view) :
    StateMachine s ↔ Moves s.state_log := by
  refine ⟨fun hp => hp.moves, fun hm => ⟨hm, fun m x hx => ?_, fun m x hx hcb => ?_⟩⟩
  · exact hL.current m x.fields (hs.mem_view hx)
  · exact hL.revoked m x.fields (hs.mem_view hx) hcb

theorem logged_init : Logged init.view := by
  refine ⟨fun m f hf => ?_, fun e he => ?_, fun t x f hx => ?_, fun t u x y f hx => ?_,
    fun m f hf => ?_⟩
  · rw [init_mems] at hf
    cases hf
  · cases he
  · cases (Heap.get_empty : init.tables.get t = none).symm.trans hx
  · cases (Heap.get_empty : init.tables.get t = none).symm.trans hx
  · rw [init_mems] at hf
    cases hf

/-- In every run every registration moves as it is meant to, and gets no page table after its pages
have been revoked, exactly if no registration is pinned that has left `STALE`. -/
theorem state_machine (rs : List Request) :
    Always step (fun _ => True) StateMachine rs init ↔ Along step pins_stale rs init := by
  refine always_iff_along (I := fun s => Inv s ∧ Logged s.view) (fun s r hi _ hk => ?_)
    (fun s r hi hp => ?_) rs ⟨inv_init, logged_init⟩ ?_
  · obtain ⟨h, -, hs, hstep⟩ := step_inv r hi.1
    refine wp_weaken (wp_mono hstep fun _ s' hs' => ?_) fun _ _ => trivial
    obtain ⟨hi', h', -, -, he⟩ := hs'
    exact ⟨hi', he.logged hs hi.1.tidy hi.2 hk⟩
  · obtain ⟨h, -, hs, hstep⟩ := step_inv r hi.1
    refine ⟨fun hw => ?_, fun hk => wp_weaken (wp_mono hstep fun _ s' hs' => ?_) fun _ _ => trivial⟩
    · by_contra hk
      have hno : ∀ e, Stuck s.view s r e → True → False := fun e he _ =>
        hk (pins_stale_of_stuck he)
      obtain ⟨-, s', ⟨-, h', -, hs', he⟩, hp'⟩ := wp_join hstep hw hno
      exact hk ((he.moves_iff hs hi.1.tidy hi.2 hp.moves).mp hp'.moves)
    · obtain ⟨-, h', -, hs', he⟩ := hs'
      refine (stateMachine_iff hs' (he.logged hs hi.1.tidy hi.2 hk)).mpr ?_
      exact (he.moves_iff hs hi.1.tidy hi.2 hp.moves).mpr hk
  · obtain ⟨h, -, hs⟩ := sane_init.at
    refine (stateMachine_iff hs logged_init).mpr fun m => ?_
    exact List.isChain_singleton _

/-- A registration is mapped twice. -/
def mapped_again : List Request :=
  [.open_core a_task granted_ctx, .reg_mem 0 BAFS_CORE_IOC_REG_MEM 4096 BAFS_MEM_CPU,
    .map 0 0x10000 1 1, .map 0 0x20000 1 1]

/-- The second pin succeeds on a registration that is `LIVE`. -/
theorem mapped_again_live : ¬Always step (fun _ => True) StateMachine mapped_again init := by
  intro h
  obtain ⟨s, hs, hd⟩ := h.of_ends (p := fun s =>
    history s.state_log 0 = [.LIVE, .LIVE, .STALE]) (by decide +kernel)
  have := hs.moves 0
  rw [of_decide_eq_true hd] at this
  exact (List.isChain_cons_cons.mp this).1

end BafsDriver
