import BafsDriver.Proofs.AddressBuffer

/-!
# Where the DMA mappings come from

A request keeps a DMA mapping, up to the mapping of the NVIDIA driver, or makes it for a registration
that it finds, with an address for every page that the registration has. What was mapped while the
registration was pinned keeps as many addresses as there are pages.
-/

namespace BafsDriver

open Prog

variable {h h' : Held Kind} {v v' : View} {s s' : State} {r : Request} {d : DmaId} {y' : BafsMemDma}

/-- Where the DMA mapping `d` after a request comes from; `M` gives the registrations then. -/
inductive DmaOf (s : State) (M : MemId → Option BafsMem) (d : DmaId) (y' : BafsMemDma) : Prop
  | kept {y : BafsMemDma} (hy : s.dmas.get d = some y) (hsame : same_dma y y') : DmaOf s M d y'
  | made {f : BafsMem} (hd : s.dmas.get d = none) (hM : M = s.view.mems) (hf : M y'.mem = some f)
      (hu : Undoable f y') (hfull : f.loc = BAFS_MEM_CPU → y'.singles.length = f.n_pages) :
      DmaOf s M d y'

theorem MapAnswer.dma_of {x : File} {arg : IoctlArg} {env : IoctlEnv} {ret : Int}
    (ha : MapAnswer s.view s x arg env ret s') (hy : s'.dmas.get d = some y') :
    DmaOf s s.view.mems d y' := by
  have hu : Underway s.view.mems s s' := by
    cases ha with
    | nothing _ _ _ hu => exact hu
    | mapped _ _ _ _ _ _ _ _ _ hu => exact hu
  cases hd : s.dmas.get d with
  | some y =>
    obtain rfl := Option.some.inj (hy.symm.trans (hu.old d y hd))
    exact .kept hd (same_dma_refl y')
  | none =>
    obtain ⟨f, hf, hundo, hfull, -⟩ := hu.new d y' hd hy
    exact .made hd rfl hf hundo hfull

/-- Every DMA mapping after a request was there before, or is new. -/
theorem step_dma_of (r : Request) (hi : Inv s) : wp (step r) (fun _ => True) (fun _ s' =>
    ∀ d y', s'.dmas.get d = some y' → DmaOf s s'.view.mems d y') s := by
  obtain ⟨h, hlost, hs, hstep⟩ := step_inv r hi
  have hquiet : ¬r.maps_dma s → wp (step r) (fun _ => True) (fun _ s' =>
      ∀ d y', s'.dmas.get d = some y' → DmaOf s s'.view.mems d y') s := by
    intro hno
    refine wp_mono (step_recorded r s (fun _ he => he) fun hm => absurd hm hno) fun _ s' hg d y' hy' => ?_
    obtain ⟨y, hy, hsame⟩ := hg.get_dma hy'
    exact .kept hy hsame
  have hclosed : (∃ i, r.vma = some i) → wp (step r) (fun _ => True) (fun _ s' =>
      ∀ d y', s'.dmas.get d = some y' → DmaOf s s'.view.mems d y') s := by
    rintro ⟨i, hr⟩
    refine wp_mono (wp_and (step_recorded r s (A := any_call) (fun _ _ => trivial) fun _ _ => trivial)
      hstep) fun _ s' hs' d y' hy' => ?_
    obtain ⟨hg, -, h', -, hat, he⟩ := hs'
    obtain ⟨y, hy, -⟩ := hs.dma_live (he.closed_dma hr (hat.dma_view hy'))
    obtain hlt | ⟨y, hy, hsame⟩ := hg.dmas.kept d y' hy'
    · exact absurd (Heap.lt_next_of_get hy) (Nat.not_lt.mpr hlt)
    · exact .kept hy hsame
  cases r with
  | munmap i => exact hclosed ⟨i, rfl⟩
  | move i a => exact hclosed ⟨i, rfl⟩
  | ioctl i cmd arg env =>
    by_cases hm : ∃ x, s.files.get i = some x ∧ dma_map_cmd x = some cmd
    · obtain ⟨x, hx, hcmd⟩ := hm
      have hmap : wp (step (.ioctl i cmd arg env)) (fun _ => True)
          (fun _ s' => ∃ ret, MapAnswer s.view s x arg env ret s') s := by
        unfold step
        rw [wp_bind, wp_get, hx]
        exact (ioctl_map_answer hs hlost.nonneg hx hcmd fun _ _ hm => hi.tidy.paged hm).bind
          fun r s' ha => ⟨r.ret, ha⟩
      refine wp_mono (wp_and hmap hstep) fun _ s' hs' d y' hy' => ?_
      obtain ⟨⟨ret, ha⟩, -, h', -, -, he⟩ := hs'
      rw [he.dma_map_mems hx hcmd]
      exact ha.dma_of hy'
    · exact hquiet hm
  | _ => exact hquiet fun hm => hm

/-! ## Every run -/

/-- Whatever its requests, a run leaves the DMA mappings of CPU memory with addresses, and those that
hold pages with all of their registration. -/
theorem step_dmaInv (r : Request) (hi : DmaInv s) :
    wp (step r) (fun _ => True) (fun _ s' => DmaInv s') s := by
  obtain ⟨h, hlost, hs, hstep⟩ := step_inv r hi.inv
  refine wp_mono (wp_and (step_dma_of r hi.inv) hstep) fun _ s' hs' => ?_
  obtain ⟨hof, hi', h', -, hat, he⟩ := hs'
  refine ⟨hi', ?_⟩
  by_cases hmade : ∃ d y', s'.dmas.get d = some y' ∧ s.dmas.get d = none
  · -- a request that maps for DMA leaves the registrations as they are
    have hM : s'.view.mems = s.view.mems := by
      obtain ⟨d, y', hy', hd⟩ := hmade
      cases hof d y' hy' with
      | kept hy => cases hd.symm.trans hy
      | made _ hM => exact hM
    rw [hM] at hof ⊢
    refine ⟨fun d y' f hy' hf hloc => ?_, fun d y' hy' hne => ?_⟩
    · cases hof d y' hy' with
      | @kept y hy hsame =>
        have haddrs : y'.addrs = y.addrs := by rw [hsame]
        have hmem : y'.mem = y.mem := by rw [hsame]
        rw [haddrs]
        exact hi.chunked.addrs d y f hy (hmem ▸ hf) hloc
      | made _ _ hf' hu =>
        obtain rfl := Option.some.inj (hf.symm.trans hf')
        exact hu.addrs hloc
    · cases hof d y' hy' with
      | @kept y hy hsame =>
        have hsingles := same_dma_singles y y' hsame
        have hmem : y'.mem = y.mem := by rw [hsame]
        have hgran : y'.map_gran = y.map_gran := by rw [hsame]
        rw [hsingles] at hne
        obtain ⟨f, hf, hch⟩ := hi.chunked.whole d y hy hne
        refine ⟨f, hmem.symm ▸ hf, hch.loc, hch.state, ?_, hgran.trans hch.gran⟩
        rw [hsingles]
        exact hch.length
      | made _ _ hf hu => exact ⟨_, hf, hu.whole hne⟩
  · refine hi.chunked.step he hs hat hi.inv.tidy fun d y' hy' => ?_
    cases hof d y' hy' with
    | kept hy hsame => exact ⟨_, hy, hsame⟩
    | made hd => exact absurd ⟨d, y', hy', hd⟩ hmade

theorem dmaInv_init : DmaInv init := ⟨inv_init, init_chunked⟩

theorem run_dmaInv {rs : List Request} (hr : run step rs init = .ok s) : DmaInv s :=
  ((always_iff_run.mp (always_of_step (E := fun _ => True) (fun _ r hi => step_dmaInv r hi)
    (fun _ hi => hi) rs dmaInv_init)) rs (List.prefix_refl rs)).1 s hr

/-! ## What was mapped while its registration was pinned -/

/-- A live registration of CPU memory has as many pages as hold its bytes. -/
def LiveSized (v : View) : Prop := ∀ m f, v.mems m = some f → f.loc = BAFS_MEM_CPU →
  f.state = .LIVE → f.n_pages = pages_for f.size PAGE_SIZE PAGE_SHIFT

theorem Effect.live_sized (he : Effect h v s r h' v') (hz : LiveSized v) : LiveSized v' := by
  intro m f hf hloc hst
  cases he.reg_of hf with
  | kept hm => exact hz m f hm hloc hst
  | made hm => cases hst
  | pinned hm hp => exact (hp.sized hloc).2
  | unpinned hm hp => exact (hp.sized hloc).2
  | revoked hm => cases hst

/-- The DMA mapping has an address for each page of its registration, if that is of CPU memory, and
these are as many as hold its bytes. -/
def AllPages (v : View) (y : BafsMemDma) : Prop := ∀ f, v.mems y.mem = some f →
  f.loc = BAFS_MEM_CPU →
    y.singles.length = f.n_pages ∧ f.n_pages = pages_for f.size PAGE_SIZE PAGE_SHIFT

/-- No request changes the number of pages that a registration has once it is pinned. -/
theorem Effect.all_pages {y : BafsMemDma} (he : Effect h v s r h' v') (ha : AllPages v y)
    (hy : y.mem ≠ v.mem_next) : AllPages v' y := by
  intro f' hf' hloc
  have hrepinned : ∀ {f : BafsMem}, v.mems y.mem = some f → f'.loc = f.loc → f'.size = f.size →
      f'.n_pages = pages_for f'.size PAGE_SIZE PAGE_SHIFT →
      y.singles.length = f'.n_pages ∧ f'.n_pages = pages_for f'.size PAGE_SIZE PAGE_SHIFT := by
    intro f hm hl hsize hn
    obtain ⟨hlen, hf⟩ := ha f hm (hl.symm.trans hloc)
    refine ⟨hlen.trans (hf.trans ?_), hn⟩
    rw [hn, hsize]
  cases he.reg_of hf' with
  | kept hm => exact ha f' hm hloc
  | made hm => exact absurd hm hy
  | pinned hm hp => exact hrepinned hm hp.same.loc hp.same.size (hp.sized hloc).2
  | unpinned hm hp => exact hrepinned hm hp.same.loc hp.same.size (hp.sized hloc).2
  | revoked hm => exact (ha _ hm hloc :)

/-- If the request makes the DMA mapping `d`, its registration is live. -/
def made_live (d : DmaId) (s : State) (r : Request) : Prop :=
  s.dmas.get d = none → wp (step r) (fun _ => True) (fun _ s' =>
    ∀ y, s'.dmas.get d = some y → ∃ x, s.mems.get y.mem = some x ∧ x.state = .LIVE) s

/-- What holds of the DMA mapping `d` in a run in which it is made for a live registration. -/
structure LiveMapped (d : DmaId) (s : State) : Prop where
  inv : DmaInv s
  sized : LiveSized s.view
  all_pages : ∀ y, s.dmas.get d = some y → AllPages s.view y

theorem LiveMapped.step (hl : LiveMapped d s) (hm : made_live d s r) :
    wp (step r) (fun _ => True) (fun _ s' => LiveMapped d s') s := by
  obtain ⟨h, hlost, hs, hstep⟩ := step_inv r hl.inv.inv
  have hkeep := wp_and (step_dmaInv r hl.inv) (wp_and (step_dma_of r hl.inv.inv) hstep)
  have hafter : ∀ s', (∀ d y', s'.dmas.get d = some y' → DmaOf s s'.view.mems d y') →
      (∃ h', Lost h' ∧ At h' s'.view s' ∧ Effect h s.view s r h' s'.view) →
      (∀ y, s.dmas.get d = none → s'.dmas.get d = some y →
        ∃ x, s.mems.get y.mem = some x ∧ x.state = .LIVE) →
      LiveSized s'.view ∧ ∀ y, s'.dmas.get d = some y → AllPages s'.view y := by
    rintro s' hof ⟨h', -, -, he⟩ hmade
    refine ⟨he.live_sized hl.sized, fun y' hy' => ?_⟩
    cases hof d y' hy' with
    | @kept y hy hsame =>
      have hmem : y'.mem = y.mem := by rw [hsame]
      have ha := he.all_pages (hl.all_pages y hy) (hs.dma_reg_made hy)
      unfold AllPages
      rw [same_dma_singles y y' hsame, hmem]
      exact ha
    | @made f hd hM hf hu hfull =>
      obtain ⟨x, hx, hst⟩ := hmade y' hd hy'
      have hfx : s.view.mems y'.mem = some x.fields := congrArg (Option.map BafsMem.fields) hx
      rw [hM] at hf
      obtain rfl := Option.some.inj (hf.symm.trans hfx)
      intro g hg hloc
      rw [hM] at hg
      obtain rfl := Option.some.inj (hg.symm.trans hfx)
      exact ⟨hfull hloc, hl.sized _ _ hfx hloc hst⟩
  cases hd : s.dmas.get d with
  | none =>
    refine wp_mono (wp_and hkeep (hm hd)) fun _ s' hs' => ?_
    obtain ⟨⟨hi', hof, -, he⟩, hmade⟩ := hs'
    obtain ⟨hz, ha⟩ := hafter s' hof he fun y _ hy => hmade y hy
    exact ⟨hi', hz, ha⟩
  | some y =>
    refine wp_mono hkeep fun _ s' hs' => ?_
    obtain ⟨hi', hof, -, he⟩ := hs'
    obtain ⟨hz, ha⟩ := hafter s' hof he fun _ hnone => by cases hd.symm.trans hnone
    exact ⟨hi', hz, ha⟩

/-- A DMA mapping that was made for a live registration of CPU memory has an address for each page
that the registration has, however the run goes on. -/
theorem run_all_pages {rs : List Request} (hr : run step rs init = .ok s)
    (hd : Along step (made_live d) rs init) {y : BafsMemDma} (hy : s.dmas.get d = some y) :
    AllPages s.view y := by
  have h0 : LiveMapped d init := by
    refine ⟨dmaInv_init, fun m f hf => ?_, fun y hy => (init_no_dma hy).elim⟩
    rw [init_mems] at hf
    cases hf
  have ha := always_of_along (E := fun _ => True) (I := LiveMapped d) (P := LiveMapped d)
    (fun _ _ hl hm => hl.step hm) (fun _ hl => hl) h0 hd
  exact ((always_iff_run.mp ha rs (List.prefix_refl rs)).1 s hr).all_pages y hy

end BafsDriver
