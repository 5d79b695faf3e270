import BafsDriver.Proofs.RegProofs
import BafsDriver.Scenario

/-!
# Lookup by address

When `bafs_get_mem_with_ctx` finds the registration that is mapped at an address, and nothing else.
The lookup skips the registrations that are given up, not those that are not pinned yet, and a pin
writes the address before it can fail.
-/

namespace BafsDriver

open Prog

variable {h h' : Held Kind} {v v' : View} {s s' : State} {r : Request} {E : Fault → Prop}

/-! ## The claim -/

/-- The page table that the location asks for is there, with all pages. -/
def table_present (x : BafsMem) : Prop :=
  (x.loc = BAFS_MEM_CPU ∧ ∃ p, x.cpu_page_table = some p ∧ p.2.length = x.n_pages) ∨
    (x.loc = BAFS_MEM_CUDA ∧ x.cuda_page_table ≠ none)

/-- The registration `m` of the context is live, and a VMA that starts at `vaddr` maps it. -/
def MappedAt (s : State) (c : CtxId) (vaddr : Nat) (m : MemId) : Prop :=
  ∃ x, s.mems.get m = some x ∧ x.ctx = c ∧ x.state = .LIVE ∧ table_present x ∧
    ∃ i w, s.vmas.get i = some w ∧ w.vm_private_data = some m ∧ w.vm_start = vaddr

/-- The lookup finds the registration that is mapped at the address, and nothing else. -/
def LookupExact (s : State) (c : CtxId) (vaddr : Nat) : Prop :=
  wp (bafs_get_mem_with_ctx vaddr c) (fun _ => False)
    (fun r _ => ∀ m, r = some m ↔ MappedAt s c vaddr m) s

/-- A registration that is not pinned has the address, and is newer than every live one that has
it. -/
def stale_first (s : State) (c : CtxId) (vaddr : Nat) : Prop :=
  ∃ m x, s.mems.get m = some x ∧ x.ctx = c ∧ x.state = .STALE ∧ x.vaddr = vaddr ∧
    ∀ n y, s.mems.get n = some y → y.ctx = c → y.state = .LIVE → y.vaddr = vaddr → n < m

/-- The request pins no registration that is live. Where it pins one for good, this was not pinned
before, and no other live one of the context has the address. It does not map for DMA what is not
pinned, and it leaves VMAs whole and in place. -/
def pins_once (s : State) : Request → Prop
  | .mmap f mm a b pgoff env => ∀ x m y, s.files.get f = some x → ¬maps_bars x pgoff →
    Selects s.view x.ctx pgoff m → s.mems.get m = some y → y.state ≠ .LIVE ∧
      (pinnable y (new_vma mm a b pgoff) env.pin → y.state = .STALE ∧
        ∀ n z, s.mems.get n = some z → z.ctx = y.ctx → z.state = .LIVE → z.vaddr ≠ a)
  | .ioctl f cmd arg _ => ∀ x, s.files.get f = some x → dma_map_cmd x = some cmd →
    ¬stale_first s x.ctx arg.dma_map_mem.vaddr
  | .split .. | .move .. => False
  | _ => True

/-! ## Where live registrations are mapped -/

/-- Every live registration has its page table and one VMA, which starts at its address; no other one
of the context has that address. -/
structure Placed (v : View) : Prop where
  one : ∀ i j w u m, v.vmas.get i = some w → v.vmas.get j = some u → w.vm_private_data = some m →
    u.vm_private_data = some m → i = j
  table : ∀ m f, v.mems m = some f → f.state = .LIVE → table_present f
  mapped : ∀ m f, v.mems m = some f → f.state = .LIVE →
    ∃ i w, v.vmas.get i = some w ∧ w.vm_private_data = some m ∧ w.vm_start = f.vaddr
  apart : ∀ m n f g, v.mems m = some f → v.mems n = some g → f.state = .LIVE → g.state = .LIVE →
    f.ctx = g.ctx → f.vaddr = g.vaddr → m = n

/-- It is enough that no registration becomes live and that the VMAs of the live ones stay. -/
theorem Placed.mono (hp : Placed v)
    (hm : ∀ m f, v'.mems m = some f → f.state = .LIVE → v.mems m = some f)
    (hv : ∀ i w, v'.vmas.get i = some w → v.vmas.get i = some w)
    (hl : ∀ i w m f, v.vmas.get i = some w → w.vm_private_data = some m → v'.mems m = some f →
      f.state = .LIVE → v'.vmas.get i = some w) : Placed v' where
  one i j w u m hi hj := hp.one i j w u m (hv i w hi) (hv j u hj)
  table m f hf hst := hp.table m f (hm m f hf hst) hst
  mapped m f hf hst := by
    obtain ⟨i, w, hw, hwm, ha⟩ := hp.mapped m f (hm m f hf hst) hst
    exact ⟨i, w, hl i w m f hw hwm hf hst, hwm, ha⟩
  apart m n f g hf hg hst hst' := hp.apart m n f g (hm m f hf hst) (hm n g hg hst') hst hst'

/-- A change of one registration that does not make it live. -/
theorem Placed.update (hp : Placed v) {m : MemId} {f : BafsMem} (hst : f.state ≠ .LIVE)
    (hm : v'.mems = Function.update v.mems m (some f)) (hv : v'.vmas = v.vmas) : Placed v' := by
  refine hp.mono (fun n g hg hl => ?_) (fun i w hw => hv ▸ hw) fun i w n g hw _ _ _ => hv.symm ▸ hw
  rw [hm] at hg
  by_cases hn : n = m
  · rw [hn, Function.update_self] at hg
    obtain rfl := Option.some.inj hg
    exact absurd hl hst
  · rwa [Function.update_of_ne hn] at hg

/-- The same registrations and VMAs. -/
theorem Placed.same (hp : Placed v) (hr : v'.regs = v.regs) : Placed v' := by
  have hm : v'.mems = v.mems := congrArg (·.1) hr
  have hv : v'.vmas = v.vmas := congrArg (·.2.2.2.1) hr
  exact hp.mono (fun m f hf _ => hm ▸ hf) (fun i w hw => hv ▸ hw) fun i w n g hw _ _ _ => hv.symm ▸ hw

theorem Placed.close_mem (hp : Placed v) {i : VmaId} {w : Vma} {m : MemId} {f : BafsMem}
    (hw : v.vmas.get i = some w) (hwm : w.vm_private_data = some m) :
    Placed ({ v with vmas := v.vmas.free i }.close_mem m f) := by
  refine hp.mono (fun n g hg _ => (close_mem_some hg).2) (fun j u hu => (Heap.get_of_free hu).2)
    fun j u n g hu hun hg _ => ?_
  have hj : j ≠ i := by
    rintro rfl
    obtain rfl := Option.some.inj (hw.symm.trans hu)
    exact (close_mem_some hg).1 (Option.some.inj (hun.symm.trans hwm))
  show (v.vmas.free i).get j = some u
  rw [Heap.get_free, if_neg hj]
  exact hu

/-- A VMA without a registration goes. -/
theorem Placed.free_vma (hp : Placed v) {i : VmaId} {w : Vma} (hw : v.vmas.get i = some w)
    (hwm : w.vm_private_data = none) : Placed { v with vmas := v.vmas.free i } := by
  refine hp.mono (fun n g hg _ => hg) (fun j u hu => (Heap.get_of_free hu).2)
    fun j u n g hu hun _ _ => ?_
  have hj : j ≠ i := by
    rintro rfl
    obtain rfl := Option.some.inj (hw.symm.trans hu)
    cases hwm.symm.trans hun
  show (v.vmas.free i).get j = some u
  rw [Heap.get_free, if_neg hj]
  exact hu

/-- A VMA without a registration is added. -/
theorem Placed.add_vma (hp : Placed v) {w : Vma} (hwm : w.vm_private_data = none) :
    Placed { v with vmas := v.vmas.alloc w } where
  one i j u u' m hi hj hm hm' := by
    obtain ⟨-, rfl⟩ | hi := Heap.get_alloc_cases hi
    · cases hwm.symm.trans hm
    · obtain ⟨-, rfl⟩ | hj := Heap.get_alloc_cases hj
      · cases hwm.symm.trans hm'
      · exact hp.one i j u u' m hi hj hm hm'
  table := hp.table
  mapped m f hf hst := by
    obtain ⟨i, u, hu, hum, ha⟩ := hp.mapped m f hf hst
    exact ⟨i, u, Heap.get_alloc_of_get hu, hum, ha⟩
  apart := hp.apart

/-- A registration that no VMA maps yet is pinned in a new VMA. -/
theorem Placed.pin (hp : Placed v) {m : MemId} {f f' : BafsMem} {T' : Heap P2pPageTable} {vma w : Vma}
    (hw : MemVma vma m w) (hm : v.mems m = some f)
    (hpin : Pinned m { f with vaddr := vma.vm_start } f' v.tables T' w)
    (hno : ∀ i u, v.vmas.get i = some u → u.vm_private_data ≠ some m)
    (hapart : ∀ n g, v.mems n = some g → g.ctx = f.ctx → g.state = .LIVE → g.vaddr ≠ vma.vm_start) :
    Placed { v.pin_mem m f' T' with vmas := v.vmas.alloc w } := by
  have hwm : w.vm_private_data = some m ∧ w.vm_start = vma.vm_start := by
    obtain ⟨u, ⟨pages, remaps, rfl, -⟩, rfl⟩ := hw
    exact ⟨rfl, rfl⟩
  have hmems : (v.pin_mem m f' T').mems = Function.update v.mems m (some { f' with state := .LIVE }) :=
    View.pin_mem_mems
  have hcases : ∀ {n : MemId} {g : BafsMem}, (v.pin_mem m f' T').mems n = some g →
      (n = m ∧ g = { f' with state := .LIVE }) ∨ (n ≠ m ∧ v.mems n = some g) := fun {n g} hg => by
    rw [hmems] at hg
    by_cases hn : n = m
    · rw [hn, Function.update_self] at hg
      exact .inl ⟨hn, (Option.some.inj hg).symm⟩
    · rw [Function.update_of_ne hn] at hg
      exact .inr ⟨hn, hg⟩
  have hvaddr : f'.vaddr = vma.vm_start := hpin.same.vaddr
  have hctx : f'.ctx = f.ctx := hpin.same.ctx
  constructor
  · intro i j u u' n hi hj hn hn'
    obtain ⟨hi', rfl⟩ | hi' := Heap.get_alloc_cases hi
    · obtain rfl := Option.some.inj (hwm.1.symm.trans hn)
      obtain ⟨hj', -⟩ | hj' := Heap.get_alloc_cases hj
      · exact hi'.trans hj'.symm
      · exact absurd hn' (hno j u' hj')
    · obtain ⟨-, rfl⟩ | hj' := Heap.get_alloc_cases hj
      · obtain rfl := Option.some.inj (hwm.1.symm.trans hn')
        exact absurd hn (hno i u hi')
      · exact hp.one i j u u' n hi' hj' hn hn'
  · intro n g hg hst
    obtain ⟨rfl, rfl⟩ | ⟨-, hg'⟩ := hcases hg
    · obtain ⟨hloc, hcpu, -⟩ | ⟨hloc, -, hcuda, -⟩ := hpin.table
      · exact .inl ⟨hpin.same.loc.trans hloc, hcpu⟩
      · refine .inr ⟨hpin.same.loc.trans hloc, ?_⟩
        show f'.cuda_page_table ≠ none
        rw [hcuda]
        exact Option.some_ne_none _
    · exact hp.table n g hg' hst
  · intro n g hg hst
    obtain ⟨rfl, rfl⟩ | ⟨-, hg'⟩ := hcases hg
    · refine ⟨v.vmas.next, w, ?_, hwm.1, hwm.2.trans hvaddr.symm⟩
      show (v.vmas.alloc w).get v.vmas.next = some w
      rw [Heap.get_alloc, if_pos rfl]
    · obtain ⟨i, u, hu, hun, ha⟩ := hp.mapped n g hg' hst
      exact ⟨i, u, Heap.get_alloc_of_get hu, hun, ha⟩
  · intro n k g g' hg hk hst hst' hc ha
    obtain ⟨hn, rfl⟩ | ⟨-, hg'⟩ := hcases hg
    · obtain ⟨hkm, -⟩ | ⟨-, hk'⟩ := hcases hk
      · exact hn.trans hkm.symm
      · exact absurd (ha.symm.trans hvaddr) (hapart k g' hk' (hc.symm.trans hctx) hst')
    · obtain ⟨-, rfl⟩ | ⟨-, hk'⟩ := hcases hk
      · exact absurd (ha.trans hvaddr) (hapart n g hg' (hc.trans hctx) hst)
      · exact hp.apart n k g g' hg' hk' hst hst' hc ha

theorem Ioctl.placed {x : File} {cmd : Nat} {arg : IoctlArg} {env : IoctlEnv} {reply : IoctlReply}
    (hi : Ioctl h v s x cmd arg env reply h' v') (hp : Placed v) : Placed v' := by
  cases hi with
  | reg_mem =>
    refine hp.update (m := v.mem_next) (f := (new_mem _ x.ctx _ _ _).fields) (fun hl => ?_) rfl rfl
    cases hl
  | reg_mem_fails => exact hp.mono (fun _ _ hf _ => hf) (fun _ _ hw => hw) fun _ _ _ _ hw _ _ _ => hw
  | dma_map => exact hp.mono (fun _ _ hf _ => hf) (fun _ _ hw => hw) fun _ _ _ _ hw _ _ _ => hw
  | create hx hcmd hc => exact hp.same hc.regs
  | delete hx hcmd hd => exact hp.same hd.regs
  | refused => exact hp

/-- What the pins of a run along `pins_once` find and leave. -/
theorem pins_once.pin {f : FileId} {x : File} {mm a b pgoff : Nat} {env : MmapEnv} {m : MemId}
    {g : BafsMem} (hk : pins_once s (.mmap f mm a b pgoff env)) (hs : At h s.view s)
    (hx : s.files.get f = some x) (hbar : ¬maps_bars x pgoff) (hsel : Selects s.view x.ctx pgoff m)
    (hm : s.view.mems m = some g) : g.state ≠ .LIVE ∧
      (pinnable g (new_vma mm a b pgoff) env.pin → g.state = .STALE ∧
        ∀ n f', s.view.mems n = some f' → f'.ctx = g.ctx → f'.state = .LIVE → f'.vaddr ≠ a) := by
  obtain ⟨y, hy, rfl⟩ := hs.mem_live hm
  obtain ⟨hlive, hpin⟩ := hk x m y hx hbar hsel hy
  refine ⟨hlive, fun hok => ?_⟩
  obtain ⟨hstale, hapart⟩ := hpin hok
  refine ⟨hstale, fun n f' hn => ?_⟩
  obtain ⟨z, hz, rfl⟩ := hs.mem_live hn
  exact hapart n z hz

/-- Every request that meets the condition keeps the live registrations in place. -/
theorem Effect.placed (he : Effect h s.view s r h' v') (hs : At h s.view s) (ht : Tidy s.view)
    (hp : Placed s.view) (hk : pins_once s r) : Placed v' := by
  cases he with
  | opened => exact hp.mono (fun _ _ hf _ => hf) (fun _ _ hw => hw) fun _ _ _ _ hw _ _ _ => hw
  | @close i x hx hg =>
    have hr := View.close_file_regs s.view h i x
    have hm : (s.view.close_file h i x).mems = (s.view.sweep_ctx x.ctx).mems := congrArg (·.1) hr
    have hv : (s.view.close_file h i x).vmas = s.view.vmas := congrArg (·.2.2.2.1) hr
    refine hp.mono (fun m f hf _ => ?_) (fun i w hw => hv ▸ hw) fun i w m f hw _ _ _ => hv.symm ▸ hw
    rw [hm] at hf
    exact (sweep_ctx_some hf).1
  | ioctl hx hi => exact hi.placed hp
  | @mmap f mm a b pgoff x env w h' v' hx hr hm =>
    cases hm with
    | bars_mapped => exact hp.add_vma rfl
    | @pinned m g f' w T' hbar hsel hm hok hw hpin =>
      obtain ⟨-, hpins⟩ := hk.pin hs hx hbar hsel hm
      obtain ⟨hstale, hapart⟩ := hpins hok
      exact hp.pin hw hm hpin (fun i u hu hum => ht.pinned i u m g hu hum hm hstale) hapart
  | @mmap_failed f mm a b pgoff x env h' v' hx hr hm =>
    cases hm with
    | bars_failed => exact hp
    | @unpinned m g f' T' hbar hsel hm hno hpin =>
      obtain ⟨hlive, -⟩ := hk.pin hs hx hbar hsel hm
      refine hp.update (m := m) (f := f') (fun hl => hlive ?_) rfl rfl
      exact hpin.same.state.symm.trans hl
    | unknown => exact hp
  | munmap hw hc => exact hp.free_vma hw ((ht.closes _ _ hw).symm.trans hc)
  | munmap_mem hw hc hm => exact hp.close_mem hw ((ht.closes _ _ hw).symm.trans hc)
  | split => exact hk.elim
  | move => exact hk.elim
  | move_mem => exact hk.elim
  | @revoke t x f ht' hpin hm =>
    by_cases hst : f.state = .DEAD
    · exact absurd hst (ht.alive _ f hm)
    · refine hp.update (m := x.data) (f := { f with state := .DEAD_CB, cuda_page_table := none })
        (fun hl => by cases hl) (View.revoke_mem_mems hst) View.revoke_mem_vmas
  | _ => exact hp

/-! ## The lookup -/

/-- Where live registrations are in place, the ones that are mapped at an address are those that have
it. -/
theorem Placed.mappedAt_iff (hs : At h s.view s) (hp : Placed s.view) {c : CtxId} {vaddr : Nat}
    {m : MemId} : MappedAt s c vaddr m ↔
      ∃ f, s.view.mems m = some f ∧ f.ctx = c ∧ f.state = .LIVE ∧ f.vaddr = vaddr := by
  constructor
  · rintro ⟨x, hx, hc, hst, -, i, w, hw, hwm, ha⟩
    obtain ⟨j, u, hu, hum, hu'⟩ := hp.mapped m x.fields (hs.mem_view hx) hst
    obtain rfl := hp.one i j w u m hw hu hwm hum
    obtain rfl := Option.some.inj (hw.symm.trans hu)
    exact ⟨_, hs.mem_view hx, hc, hst, hu'.symm.trans ha⟩
  · rintro ⟨f, hf, hc, hst, ha⟩
    obtain ⟨x, hx, rfl⟩ := hs.mem_live hf
    obtain ⟨i, w, hw, hwm, hw'⟩ := hp.mapped m x.fields hf hst
    exact ⟨x, hx, hc, hst, hp.table m x.fields hf hst, i, w, hw, hwm, hw'.trans ha⟩

/-- Where a registration passes the test, one is found. -/
theorem At.found_exists (hs : At h v s) {c : CtxId} {vaddr : Nat} {m : MemId} {f : BafsMem}
    (hm : v.mems m = some f) (hc : f.ctx = c) (hp : lookup_matches vaddr f) :
    ∃ n, Found v c vaddr n := by
  obtain ⟨x, hx, rfl⟩ := hs.mem_live hm
  obtain ⟨y, hy, hl, -⟩ := hs.wf.tables.mem_listed m x hx
  have hy : s.ctxs.get c = some y := hc ▸ hy
  cases hn : first_match v vaddr y.mem_list with
  | some n => exact ⟨n, (hs.found_iff hy).mp hn⟩
  | none =>
    have := List.find?_eq_none.mp hn m hl
    simp [hm, hp] at this

theorem lookup_matches.state {f : BafsMem} {vaddr : Nat} (hp : lookup_matches vaddr f) :
    f.state = .STALE ∨ f.state = .LIVE := by
  obtain ⟨-, hdead, hcb⟩ := hp
  cases hst : f.state with
  | STALE => exact .inl rfl
  | LIVE => exact .inr rfl
  | DEAD => exact absurd hst hdead
  | DEAD_CB => exact absurd hst hcb

/-- One that is not pinned comes first exactly if it is the one found. -/
theorem stale_first_iff (hs : At h s.view s) {c : CtxId} {vaddr : Nat} : stale_first s c vaddr ↔
    ∃ m f, Found s.view c vaddr m ∧ s.view.mems m = some f ∧ f.state = .STALE := by
  constructor
  · rintro ⟨m, x, hx, hc, hst, ha, hfirst⟩
    have hm : lookup_matches vaddr x.fields := by
      refine ⟨ha, fun hd => ?_, fun hd => ?_⟩ <;> cases hst.symm.trans hd
    obtain ⟨n, hn⟩ := hs.found_exists (hs.mem_view hx) hc hm
    obtain ⟨f, hf, hfc, hfm⟩ := hn.1
    refine ⟨n, f, hn, hf, hfm.state.resolve_right fun hlive => ?_⟩
    obtain ⟨y, hy, rfl⟩ := hs.mem_live hf
    have hlt := hfirst n y hy hfc hlive hfm.1
    exact absurd (hn.2 m _ (hs.mem_view hx) hc hm) (not_le.mpr hlt)
  · rintro ⟨m, f, ⟨⟨g, hg, hc, hm⟩, hnew⟩, hf, hst⟩
    obtain rfl := Option.some.inj (hg.symm.trans hf)
    obtain ⟨x, hx, rfl⟩ := hs.mem_live hf
    refine ⟨m, x, hx, hc, hst, hm.1, fun n y hy hyc hlive ha => ?_⟩
    have hle : n ≤ m := by
      refine hnew n _ (hs.mem_view hy) hyc ⟨ha, fun hd => ?_, fun hd => ?_⟩ <;>
        cases hlive.symm.trans hd
    refine lt_of_le_of_ne hle ?_
    rintro rfl
    obtain rfl := Option.some.inj (hx.symm.trans hy)
    cases hlive.symm.trans hst

/-- Where live registrations are in place, a lookup is exact exactly if no registration that is not
pinned comes first. -/
theorem lookupExact_iff (hi : Inv s) (hp : Placed s.view) {c : CtxId} {y : BafsCtx} {vaddr : Nat}
    (hy : s.ctxs.get c = some y) : LookupExact s c vaddr ↔ ¬stale_first s c vaddr := by
  obtain ⟨h, hl, hs⟩ := hi.sane.at
  have hw : wp (bafs_get_mem_with_ctx vaddr c) (fun _ => False) _ s :=
    bafs_get_mem_with_ctx_spec hs hl.nonneg hy
  rw [stale_first_iff hs]
  constructor
  · rintro hex ⟨m, f, hm, hf, hst⟩
    obtain ⟨r, s', ⟨hr, -⟩, hr'⟩ := wp_join hw hex fun e he _ => he
    obtain ⟨g, hg, -, hlive, -⟩ := (hp.mappedAt_iff hs).mp ((hr' m).mp ((hr m).mpr hm))
    obtain rfl := Option.some.inj (hf.symm.trans hg)
    cases hst.symm.trans hlive
  · intro hno
    refine wp_mono hw fun r s' hr m => ?_
    rw [hr.1 m, hp.mappedAt_iff hs]
    have hlive : ∀ n f, Found s.view c vaddr n → s.view.mems n = some f → lookup_matches vaddr f →
        f.state = .LIVE := fun n f hn hf hm => hm.state.resolve_left fun hst => hno ⟨n, f, hn, hf, hst⟩
    constructor
    · intro hm
      obtain ⟨f, hf, hc, hmatch⟩ := hm.1
      exact ⟨f, hf, hc, hlive m f hm hf hmatch, hmatch.1⟩
    · rintro ⟨f, hf, hc, hst, ha⟩
      have hmatch : lookup_matches vaddr f :=
        ⟨ha, (fun hd => by cases hst.symm.trans hd), fun hd => by cases hst.symm.trans hd⟩
      obtain ⟨n, hn⟩ := hs.found_exists hf hc hmatch
      obtain ⟨g, hg, hgc, hmatch⟩ := hn.1
      have hgl := hlive n g hn hg hmatch
      rwa [hp.apart m n f g hf hg hst hgl (hc.trans hgc.symm) (ha.trans hmatch.1.symm)]

/-! ## The claim over runs -/

/-- A lookup that gets as far as a DMA mapping finds no registration without its page table. -/
theorem not_reads_missing (hs : At h s.view s) (hp : Placed s.view) {c : CtxId} {vaddr : Nat}
    (hno : ¬stale_first s c vaddr) : ¬reads_missing_table s.view c vaddr := by
  rintro ⟨m, f, hm, hf, hcpu, hnone, -⟩
  obtain ⟨g, hg, -, hmatch⟩ := hm.1
  obtain rfl := Option.some.inj (hg.symm.trans hf)
  have hst : g.state = .LIVE := hmatch.state.resolve_left fun hst =>
    hno ((stale_first_iff hs).mpr ⟨m, g, hm, hf, hst⟩)
  obtain ⟨-, p, hpt, -⟩ | ⟨hcuda, -⟩ := hp.table m g hf hst
  · cases hpt.symm.trans hnone
  · cases hcuda.symm.trans hcpu

theorem placed_init : Placed init.view := by
  have hvma : ∀ {i : VmaId} {w : Vma}, init.view.vmas.get i = some w → False := fun hw => by
    cases (init_vmas _).symm.trans hw
  have hmem : ∀ {m : MemId} {f : BafsMem}, init.view.mems m = some f → False := fun hf => by
    cases (init_mems _).symm.trans hf
  exact
    { one := fun _ _ _ _ _ hw => (hvma hw).elim
      table := fun _ _ hf => (hmem hf).elim
      mapped := fun _ _ hf => (hmem hf).elim
      apart := fun _ _ _ _ hf => (hmem hf).elim }

/-- In every state of a run along `pins_once`, a lookup finds what is mapped at the address, and
nothing else, exactly if no registration that is not pinned comes first; and no request of the run
reads a missing page table. -/
theorem lookup_exact (rs : List Request) (hk : Along step pins_once rs init) :
    Always step (fun e => e ≠ .null_page_table ∧ e ≠ .out_of_bounds) (fun s =>
      ∀ c y vaddr, s.ctxs.get c = some y → (LookupExact s c vaddr ↔ ¬stale_first s c vaddr)) rs init := by
  refine always_of_along (I := fun s => Inv s ∧ Placed s.view) (fun s r hi hk => ?_)
    (fun s hi c y vaddr hy => lookupExact_iff hi.1 hi.2 hy) ⟨inv_init, ?_⟩ hk
  · obtain ⟨hi, hp⟩ := hi
    obtain ⟨h, -, hs, hw⟩ := step_inv r hi
    refine wp_weaken (wp_mono hw fun _ s' hs' => ?_) fun e he => ?_
    · obtain ⟨hinv, h', -, -, he⟩ := hs'
      exact ⟨hinv, he.placed hs hi.tidy hp hk⟩
    · cases he with
      | table_short hr hm hf => exact absurd (hi.tidy.fits _ _ hm) hf
      | wrong_table hx hcmd hm =>
        obtain ⟨m, f, -, hf, hshort⟩ := hm
        exact absurd (hi.tidy.fits m f hf) hshort
      | null_page_table hx hcmd hm => exact absurd hm (not_reads_missing hs hp (hk _ hx hcmd))
      | _ => exact ⟨by decide, by decide⟩
  · exact placed_init

/-- A page that is registered and pinned through a ctrl file. -/
def one_pin : List Request :=
  [.bind 0 0x100000 4096, .open_ctrl 0 a_task granted_open, .reg_mem 0 BAFS_CTRL_IOC_REG_MEM 4096 0,
    .map 0 0x10000 1 1]

/-- A test that implies the condition on the requests of `one_pin`. -/
def one_pin_test (s : State) : Request → Bool
  | .probe .. | .open_ctrl .. => true
  | .ioctl _ cmd _ _ => cmd == BAFS_CTRL_IOC_REG_MEM
  | .mmap .. => s.mems.next == 1 && (s.mems.get 0).all fun x => x.state == .STALE
  | _ => false

theorem pins_once_of_test (h : one_pin_test s r = true) : pins_once s r := by
  cases r with
  | ioctl f cmd arg env =>
    intro x hx hcmd
    obtain rfl : cmd = BAFS_CTRL_IOC_REG_MEM := beq_iff_eq.mp h
    cases x with
    | core c => cases hcmd
    | ctrl y => exact absurd (Option.some.inj hcmd) (by decide)
    | group y => exact absurd (Option.some.inj hcmd) (by decide)
  | mmap f mm a b pgoff env =>
    obtain ⟨hn, hst⟩ := Bool.and_eq_true_iff.mp h
    have hstale : ∀ n y, s.mems.get n = some y → y.state = .STALE := fun n y hy => by
      have hlt := Heap.lt_next_of_get hy
      rw [beq_iff_eq.mp hn] at hlt
      obtain rfl : n = 0 := by omega
      rw [hy] at hst
      exact beq_iff_eq.mp hst
    intro x m y hx hbar hsel hy
    refine ⟨fun hlive => ?_, fun _ => ⟨hstale m y hy, fun n z hz _ hlive => ?_⟩⟩
    · cases (hstale m y hy).symm.trans hlive
    · cases (hstale n z hz).symm.trans hlive
  | split => cases h
  | move => cases h
  | _ => trivial

/-- The lookups are exact while a page is registered and pinned. -/
theorem lookup_exact_one_pin : Always step (fun e => e ≠ .null_page_table ∧ e ≠ .out_of_bounds)
    (fun s => ∀ c y vaddr, s.ctxs.get c = some y →
      (LookupExact s c vaddr ↔ ¬stale_first s c vaddr)) one_pin init :=
  lookup_exact one_pin
    (along_of_tests (k := one_pin_test) (fun _ _ => pins_once_of_test) (by decide +kernel))

/-- A registration of two pages, and an mmap of it for which there is no memory. -/
def failed_pin : List Request :=
  [.bind 0 0x100000 4096, .open_ctrl 0 a_task granted_open, .reg_mem 0 BAFS_CTRL_IOC_REG_MEM 8192 0,
    .mmap 0 1 0x10000 0x12000 1
      { granted_mmap with pin := { granted_mmap.pin with alloc_page := fun _ => false } }]

/-- The registration is found at the address of the failed mmap, and a DMA-map request reads the page
table that it does not have. -/
theorem failed_pin_found : ∃ s, run step failed_pin init = .ok s ∧ (s.ctxs.get 0).isSome ∧
    ¬LookupExact s 0 0x10000 ∧
    wp (step (.dma_map 0 0x10000)) (fun e => e = .null_page_table) (fun _ _ => False) s := by
  have hend : ends step (fun s => (s.ctxs.get 0).isSome &&
      ((s.mems.get 0).any fun x => x.state == .STALE) &&
      (match bafs_get_mem_with_ctx 0x10000 0 s with
        | .ok (r, _) => r == some 0
        | .error _ => false) &&
      (match step (.dma_map 0 0x10000) s with
        | .ok _ => false
        | .error e => e == .null_page_table)) failed_pin init = true := by decide +kernel
  obtain ⟨hrun, hd⟩ := run_final hend
  generalize final step failed_pin init = s at hrun hd
  simp only [Bool.and_eq_true, Option.any_eq_true, beq_iff_eq] at hd
  obtain ⟨⟨⟨hctx, x, hx, hst⟩, hfound⟩, hmap⟩ := hd
  refine ⟨s, hrun, hctx, fun hex => ?_, ?_⟩
  · unfold LookupExact wp at hex
    cases hc : bafs_get_mem_with_ctx 0x10000 0 s with
    | error e =>
      rw [hc] at hfound
      cases hfound
    | ok p =>
      rw [hc] at hfound hex
      obtain ⟨y, hy, -, hlive, -⟩ := (hex 0).mp (beq_iff_eq.mp hfound)
      obtain rfl := Option.some.inj (hx.symm.trans hy)
      cases hst.symm.trans hlive
  · unfold wp
    cases hc : step (.dma_map 0 0x10000) s with
    | error e =>
      rw [hc] at hmap
      exact beq_iff_eq.mp hmap
    | ok p =>
      rw [hc] at hmap
      cases hmap

end BafsDriver
