import BafsDriver.Proofs.VmaClose
import BafsDriver.Proofs.Chunks
import BafsDriver.Proofs.PageOffset

/-!
# The pages of a registration of CPU memory

`pin_bafs_cpu_mem` takes one page after another for a new page table, and frees those that it has when
something fails. `__bafs_mem_release` frees as many as the registration counts. What the pin gets is
what is freed, on the one way or on the other.
-/

set_option linter.style.nameCheck false

namespace BafsDriver

open Prog

variable {h h' : Held Kind} {v v' : View} {s t u : State} {E : Fault → Prop} {m : MemId}
  {x y : BafsMem} {vma : Vma} {env : PinEnv} {pages : List PageId} {blk : BlockId}

/-! ## The pages that a pin gets -/

/-- The pages of the list have been taken one after another, and nothing else has happened. -/
structure PagesTaken (pages : List PageId) (s t : State) : Prop where
  new : pages = List.range' s.pages.next pages.length
  next : t.pages.next = s.pages.next + pages.length
  freed : t.pages.freed = s.pages.freed
  rest : t = { s with pages := t.pages }

theorem PagesTaken.nil : PagesTaken [] s s := ⟨rfl, rfl, rfl, rfl⟩

theorem PagesTaken.alloc_page {ok : Bool} (hp : PagesTaken pages s t) : wp (alloc_page ok) E
    (fun r t' => PagesTaken (pages ++ r.toList) s t') t := by
  cases ok with
  | false =>
    show PagesTaken (pages ++ []) s t
    rwa [List.append_nil]
  | true =>
    refine ⟨?_, ?_, hp.freed, ?_⟩
    · rw [List.length_append, List.range'_append_1.symm, ← hp.new]
      exact congrArg (fun i => pages ++ [i]) hp.next
    · show (t.pages.alloc ()).next = _
      rw [Heap.next_alloc, hp.next, List.length_append]
      rfl
    · exact congrArg (fun u : State => { u with pages := t.pages.alloc () }) hp.rest

theorem alloc_pages_taken {ok : Nat → Bool} {n : Nat} : wp (alloc_pages ok n) E
    (fun r t => PagesTaken r.1 s t ∧ match r.2 with
      | none => r.1.length = n
      | some ret => ret ≠ 0) s := by
  unfold alloc_pages
  refine wp_iterate_range (fun i pages t => PagesTaken pages s t ∧ pages.length = i)
    (fun i pages t _ hi => ?_) (fun _ _ hp => hp) ⟨.nil, rfl⟩
  obtain ⟨hp, rfl⟩ := hi
  refine hp.alloc_page.bind fun r t' hp' => ?_
  cases r with
  | none =>
    rw [Option.toList_none, List.append_nil] at hp'
    exact ⟨hp', show (-ENOMEM : Int) ≠ 0 by decide⟩
  | some p => exact ⟨hp', List.length_append⟩

/-! ## What a pin leaves -/

/-- Every page and the page table that the pin has got have been freed once, and nothing else; the
registration has no page table. -/
structure RolledBack (m : MemId) (s t : State) : Prop where
  pages : s.pages.Returned t.pages
  table : s.blocks.Returned t.blocks
  unset : ∀ y, t.mems.get m = some y → y.cpu_page_table = none

/-- The registration has the page table `blk` with the pages that the pin has got, as many as it
counts and as hold its bytes; nothing has been freed. -/
structure HoldsPages (m : MemId) (x : BafsMem) (blk : BlockId) (pages : List PageId) (s t : State) :
    Prop where
  mem : ∃ y, t.mems.get m = some y ∧ y.loc = x.loc ∧ y.cpu_page_table = some (blk, pages) ∧
    y.n_pages = pages.length
  covers : x.size ≤ pages.length * PAGE_SIZE ∧ (pages.length - 1) * PAGE_SIZE < x.size
  pages_new : pages = List.range' s.pages.next pages.length ∧
    t.pages.next = s.pages.next + pages.length
  table_new : blk = s.blocks.next ∧ t.blocks.next = s.blocks.next + 1
  none_freed : t.pages.freed = s.pages.freed ∧ t.blocks.freed = s.blocks.freed

/-- The new page table of the registration `m` is freed with its pages. -/
theorem clean_page_table_returns (hx : t.mems.get m = some x) (hp : pages = List.range' s.pages.next pages.length)
    (hnext : t.pages.next = s.pages.next + pages.length) (hfreed : t.pages.freed = s.pages.freed)
    (hblocks : t.blocks = s.blocks.alloc ()) (hold : ∀ p ∈ s.pages.freed, p < s.pages.next)
    (holdb : ∀ b ∈ s.blocks.freed, b < s.blocks.next) :
    wp (clean_page_table m s.blocks.next pages) E (fun _ t' => RolledBack m s t') t := by
  unfold clean_page_table kfree
  refine free_each_exact.bind fun _ t₁ ht₁ => ?_
  subst ht₁
  rw [wp_bind, wp_modify]
  refine (wp_mem_upd (by exact hx)).mpr ⟨?_, ?_, fun y hy => ?_⟩
  · refine .of_freed (.of_eq hp) ?_ ?_ hold
    · exact Heap.next_foldl.trans hnext
    · show ((pages.reverse).foldl Heap.free t.pages).freed = _
      rw [Heap.freed_foldl, List.reverse_reverse, hfreed]
  · refine .of_freed (l := [s.blocks.next]) (.refl _) ?_ ?_ holdb
    · show (t.blocks.free _).next = _
      rw [Heap.next_free, hblocks, Heap.next_alloc]
      rfl
    · show (t.blocks.free _).freed = _
      rw [Heap.freed_free, hblocks, Heap.freed_alloc]
      rfl
  · rw [Option.some.inj ((Heap.get_set_self (by exact hx)).symm.trans hy).symm]

/-- The pages of a registration of CPU memory hold its bytes, and one page less would not. -/
theorem pages_cover {size n : Nat} (hsize : size < 2 ^ 32) (hn : n = pages_for size PAGE_SIZE PAGE_SHIFT)
    (hpos : n ≠ 0) : size ≤ n * PAGE_SIZE ∧ (n - 1) * PAGE_SIZE < size := by
  rw [pages_for_eq (.inl rfl) hsize] at hn
  have hP : PAGE_SIZE = 4096 := rfl
  rw [hP] at hn ⊢
  have hdiv := Nat.div_add_mod (size + 4096 - 1) 4096
  have hmod := Nat.mod_lt (size + 4096 - 1) (show 0 < 4096 by norm_num)
  omega

/-- An update of the registration, which touches neither pages nor blocks. -/
theorem mem_upd_pages {f : BafsMem → BafsMem} (hx : s.mems.get m = some x) :
    wp (mem_upd m f) E (fun _ t => t.mems.get m = some (f x) ∧ t.pages = s.pages ∧
      t.blocks = s.blocks) s :=
  (wp_mem_upd hx).mpr ⟨Heap.get_set_self hx, rfl, rfl⟩

theorem vm_map_pages_zero_pages {fail : Option Errno} : wp (vm_map_pages_zero vma pages fail) E
    (fun r t => t.mems = s.mems ∧ t.pages = s.pages ∧ t.blocks = s.blocks ∧
      (r.2 = 0 → pages.length ≠ 0)) s := by
  unfold vm_map_pages_zero emit
  rw [wp_bind, wp_modify]
  refine wp_ite (fun _ => ⟨rfl, rfl, rfl, fun h0 => ?_⟩) fun hroom => ?_
  · exact absurd h0 (show (- ENXIO : Int) ≠ 0 by decide)
  · have hpos : pages.length ≠ 0 := fun h0 => hroom (.inl h0)
    cases fail with
    | none => exact ⟨rfl, rfl, rfl, fun _ => hpos⟩
    | some e => exact ⟨rfl, rfl, rfl, fun _ => hpos⟩

theorem pin_bafs_cpu_mem_balanced (hx : s.mems.get m = some x) (ht : x.cpu_page_table = none)
    (hsize : x.size < 2 ^ 32) (hold : ∀ p ∈ s.pages.freed, p < s.pages.next)
    (holdb : ∀ b ∈ s.blocks.freed, b < s.blocks.next) :
    wp (pin_bafs_cpu_mem m vma env) E (fun r t => (r.2 ≠ 0 → RolledBack m s t) ∧
      (r.2 = 0 → ∃ blk pages, t.mems.get m = some (cpu_fields x (some (blk, pages))) ∧
        HoldsPages m x blk pages s t)) s := by
  have hkeep : ∀ {y : BafsMem} {s₁ : State}, s₁.mems.get m = some y → y.cpu_page_table = none →
      s₁.pages = s.pages → s₁.blocks = s.blocks → RolledBack m s s₁ := by
    intro y s₁ hget hy hpages hblocks
    refine ⟨hpages ▸ .refl _, hblocks ▸ .refl _, fun z hz => ?_⟩
    rw [Option.some.inj (hz.symm.trans hget)]
    exact hy
  have hfail : ∀ {ret : Int} {P Q : Prop}, ret ≠ 0 → P → (ret ≠ 0 → P) ∧ (ret = 0 → Q) :=
    fun hret hP => ⟨fun _ => hP, fun h0 => absurd h0 hret⟩
  unfold pin_bafs_cpu_mem
  refine (mem_upd_pages hx).bind fun _ s₁ hs₁ => ?_
  obtain ⟨hx₁, hp₁, hb₁⟩ := hs₁
  rw [wp_bind, wp_mem_at hx₁]
  refine wp_ite (fun _ => hfail (show (-EINVAL : Int) ≠ 0 by decide) (hkeep hx₁ ht hp₁ hb₁)) fun _ => ?_
  rw [wp_bind, wp_kzalloc]
  cases hcalloc : env.kcalloc with
  | false =>
    rw [if_neg (by decide)]
    refine (mem_upd_pages hx₁).bind fun _ s₂ hs₂ => ?_
    obtain ⟨hx₂, hp₂, hb₂⟩ := hs₂
    exact hfail (show (-ENOMEM : Int) ≠ 0 by decide) (hkeep hx₂ rfl (hp₂.trans hp₁) (hb₂.trans hb₁))
  | true =>
  rw [if_pos rfl]
  refine alloc_pages_taken.bind fun r s₂ hr => ?_
  obtain ⟨pages, fail⟩ := r
  obtain ⟨hp, hlen⟩ := hr
  have hx₂ : s₂.mems.get m = _ := (congrArg (fun s : State => s.mems.get m) hp.rest).trans hx₁
  refine (mem_upd_pages hx₂).bind fun _ s₃ hs₃ => ?_
  obtain ⟨hx₃, hp₃, hb₃⟩ := hs₃
  have hnew : pages = List.range' s.pages.next pages.length := hp₁ ▸ hp.new
  have hnext : s₃.pages.next = s.pages.next + pages.length := by
    rw [hp₃, hp.next]
    exact congrArg (fun P : Heap Unit => P.next + pages.length) hp₁
  have hfreed : s₃.pages.freed = s.pages.freed := by
    rw [hp₃, hp.freed]
    exact congrArg Heap.freed hp₁
  have hblocks : s₃.blocks = s.blocks.alloc () := by
    rw [hb₃, congrArg State.blocks hp.rest]
    exact congrArg (fun B : Heap Unit => B.alloc ()) hb₁
  have hblk : s₁.blocks.next = s.blocks.next := congrArg Heap.next hb₁
  rw [hblk] at hx₃ ⊢
  have hclean : ∀ {s₄ : State}, s₄.mems = s₃.mems → s₄.pages = s₃.pages → s₄.blocks = s₃.blocks →
      wp (clean_page_table m s.blocks.next pages) E (fun _ t => RolledBack m s t) s₄ :=
    fun hm₄ hp₄ hb₄ => clean_page_table_returns ((congrArg (Heap.get · m) hm₄).trans hx₃) hnew
      (hp₄ ▸ hnext) (hp₄ ▸ hfreed) (hb₄.trans hblocks) hold holdb
  cases fail with
  | some ret =>
    exact (hclean rfl rfl rfl).bind fun _ t hback => hfail hlen hback
  | none =>
    have hlen : pages.length = pages_for x.size PAGE_SIZE PAGE_SHIFT := hlen
    have hnomem : (-ENOMEM : Int) ≠ 0 := by decide
    refine vm_map_pages_zero_pages.bind fun r s₄ hs₄ => ?_
    obtain ⟨w, ret⟩ := r
    obtain ⟨hm₄, hp₄, hb₄, hmapped⟩ := hs₄
    refine wp_ite (fun _ => ?_) fun hret => ⟨fun h0 => absurd rfl h0, fun _ => ?_⟩
    · exact (hclean hm₄ hp₄ hb₄).bind fun _ t hback => hfail hnomem hback
    have hx₄ := (congrArg (Heap.get · m) hm₄).trans hx₃
    refine ⟨s.blocks.next, pages, hx₄, ⟨_, hx₄, rfl, rfl, hlen.symm⟩, pages_cover hsize hlen (hmapped (not_not.mp hret)), ⟨hnew, hp₄ ▸ hnext⟩, ⟨rfl, ?_⟩,
      hp₄ ▸ hfreed, ?_⟩
    · rw [hb₄, hblocks, Heap.next_alloc]
    · rw [hb₄, hblocks, Heap.freed_alloc]

/-! ## The request that pins -/

theorem HoldsPages.congr (hh : HoldsPages m x blk pages s t)
    (hm : ∀ y, t.mems.get m = some y → ∃ z, u.mems.get m = some z ∧
      z.loc = y.loc ∧ z.cpu_page_table = y.cpu_page_table ∧ z.n_pages = y.n_pages)
    (hp : u.pages = t.pages) (hb : u.blocks = t.blocks) : HoldsPages m x blk pages s u := by
  obtain ⟨y, hy, hloc, htable, hn⟩ := hh.mem
  obtain ⟨z, hz, hzl, hzt, hzn⟩ := hm y hy
  exact ⟨⟨z, hz, hzl.trans hloc, hzt.trans htable, hzn.trans hn⟩, hh.covers, hp ▸ hh.pages_new, hb ▸ hh.table_new,
    by rw [hp, hb]; exact hh.none_freed⟩

/-- The state in which `pin_bafs_mem` calls the function for the location. -/
def pinning (s : State) (m : MemId) (x : BafsMem) (vm_start : Nat) : State :=
  { s with mems := s.mems.set m { x with ref := x.ref + 1, vaddr := vm_start } }

theorem pin_bafs_mem_holds {c : CtxId} (hs : At h v s) (hc : CtxHeld h v c)
    (hm : Selects v c vma.vm_pgoff m) (hx : s.mems.get m = some x) (hloc : x.loc = BAFS_MEM_CPU)
    (ht : x.cpu_page_table = none) (hsize : x.size < 2 ^ 32)
    (hold : ∀ p ∈ s.pages.freed, p < s.pages.next) (holdb : ∀ b ∈ s.blocks.freed, b < s.blocks.next) :
    wp (pin_bafs_mem vma c env) (fun _ => True)
      (fun r t => r.2 = 0 → ∃ blk pages, HoldsPages m x blk pages s t) s := by
  obtain ⟨y, hy⟩ := hs.ctx_live hc
  have hpos := hs.wf.ctx.pos c y hy
  have hmpos := hs.wf.mem.pos m x hx
  have hl : pin_lookup { y with ref := y.ref + 1 } vma.vm_pgoff = some m := (hs.mem_xa_iff hy).mpr hm
  unfold pin_bafs_mem
  rw [wp_bind, ctx_kref_get, wp_ctx_upd hy, wp_bind, wp_ctx_at (Heap.get_set_self hy), wp_bind,
    wp_put_ctx_kept (by exact Heap.get_set_self hy) (by show y.ref + 1 ≠ 1; omega), hl]
  dsimp only
  rw [wp_bind, mem_kref_get, wp_mem_upd (by exact hx), wp_bind,
    wp_mem_upd (by exact Heap.get_set_self hx), wp_bind,
    wp_mem_at (by exact Heap.get_set_self (Heap.get_set_self hx))]
  refine wp.bind (R := fun r t => r.2 = 0 → ∃ blk pages, t.mems.get m = some (cpu_fields
    { x with ref := x.ref + 1, vaddr := vma.vm_start } (some (blk, pages))) ∧
    HoldsPages m x blk pages s t) ?_ fun r t hr => ?_
  · unfold pin_by_loc
    rw [if_pos hloc]
    refine wp_mono (pin_bafs_cpu_mem_balanced (Heap.get_set_self (by exact Heap.get_set_self hx)) ht
      hsize hold holdb) fun r t hr h0 => ?_
    obtain ⟨blk, pages, hget, hh⟩ := hr.2 h0
    exact ⟨blk, pages, hget, hh.mem, hh.covers, hh.pages_new, hh.table_new, hh.none_freed⟩
  obtain ⟨w, ret⟩ := r
  refine wp_ite (fun hret => ?_) fun hret => ?_
  · exact wp.bind wp_true fun _ t' _ h0 => absurd h0 hret
  · obtain ⟨blk, pages, hget, hh⟩ := hr (not_not.mp hret)
    unfold set_state
    rw [wp_bind, wp_bind, wp_mem_at hget, wp_bind, wp_modify, wp_mem_upd (by exact hget), wp_bind,
      wp_mem_put_kept (by exact Heap.get_set_self hget) (by show x.ref + 1 ≠ 1; omega)]
    refine fun _ => ⟨blk, pages, hh.congr (fun y hy => ?_) rfl rfl⟩
    obtain rfl := Option.some.inj (hget.symm.trans hy)
    exact ⟨_, Heap.get_set_self (Heap.get_set_self hget), rfl, rfl, rfl⟩

/-- An mmap that maps no BAR pins the registration that its page offset selects. -/
theorem wp_mmap_pin {i : FileId} {f : File} {mm a b pgoff : Nat} {env : MmapEnv} {P : State → Prop}
    (hf : s.files.get i = some f) (hr : range_free s mm a b) (hp : ¬maps_bars f pgoff)
    (hP : ∀ V t, P t → P { t with vmas := V })
    (h : wp (pin_bafs_mem (new_vma mm a b pgoff) f.ctx env.pin) E (fun _ t => P t) s) :
    wp (step (.mmap i mm a b pgoff env)) E (fun _ t => P t) s := by
  have hfile : wp (mmap_file f (new_vma mm a b pgoff) env) E (fun _ t => P t) s := by
    cases f with
    | core c => exact h
    | ctrl y =>
      exact wp_ite (fun h0 => absurd h0 hp) fun _ => h
    | group y =>
      refine wp_ite (fun h0 => absurd h0 hp) fun _ => h.bind fun r t ht => ?_
      exact wp_ite (fun _ => ht) fun _ => ht
  unfold step
  rw [wp_bind, wp_get, hf]
  dsimp only
  rw [wp_bind, wp_get, if_pos hr]
  refine hfile.bind fun r t ht => ?_
  refine wp_ite (fun _ => ht) fun _ => ?_
  rw [wp_bind, wp_modify]
  exact hP _ t ht

/-- The request is an mmap whose page offset selects the registration `m`. -/
def pins_mem (m : MemId) (s : State) (r : Request) : Prop :=
  ∃ i mm a b pgoff env f, r = .mmap i mm a b pgoff env ∧ s.files.get i = some f ∧
    Selects s.view f.ctx pgoff m

/-- A request that does not pin the registration leaves it as it is, but for a revocation of its
pages. -/
theorem Effect.reg_kept {r : Request} {f : BafsMem} (he : Effect h s.view s r h' v')
    (hm : m < s.mems.next) (hno : ¬pins_mem m s r) (hf : v'.mems m = some f) :
    s.view.mems m = some f ∨ ∃ g, s.view.mems m = some g ∧
      f = { g with state := .DEAD_CB, cuda_page_table := none } := by
  have hupdate : ∀ {M : MemId → Option BafsMem} {n : MemId} {g : BafsMem}, n ≠ m →
      Function.update M n (some g) m = some f → M m = some f := fun hn hf => by
    rwa [Function.update_of_ne (Ne.symm hn)] at hf
  cases he with
  | close => exact .inl (sweep_ctx_some (regs_mems (View.close_file_regs _ _ _ _) hf)).1
  | ioctl hx hi =>
    cases hi with
    | reg_mem => exact .inl (hupdate (Nat.ne_of_gt hm) hf)
    | create hx hcmd hc => exact .inl (regs_mems hc.regs hf)
    | delete hx hcmd hd => exact .inl (regs_mems hd.regs hf)
    | _ => exact .inl hf
  | @mmap i mm a b pgoff f env w h' v' hx hr hmap =>
    cases hmap with
    | @pinned n g g' w T' hp hsel hn hok hw hpin =>
      have hne : n ≠ m := fun hnm => hno ⟨i, mm, a, b, pgoff, env, f, rfl, hx, hnm ▸ hsel⟩
      refine .inl (hupdate hne (g := { g' with state := .LIVE }) ?_)
      rw [← View.pin_mem_mems]
      exact hf
    | _ => exact .inl hf
  | @mmap_failed i mm a b pgoff f env h' v' hx hr hmap =>
    cases hmap with
    | @unpinned n g g' T' hp hsel hn hno' hpin =>
      have hne : n ≠ m := fun hnm => hno ⟨i, mm, a, b, pgoff, env, f, rfl, hx, hnm ▸ hsel⟩
      exact .inl (hupdate hne hf)
    | _ => exact .inl hf
  | munmap_mem hw hc hm' => exact .inl (close_mem_some hf).2
  | move_mem hw hr hc hm' => exact .inl (close_mem_some hf).2
  | @revoke t x g ht hp hg =>
    by_cases hst : g.state = .DEAD
    · rw [View.revoke_mem, if_pos hst] at hf
      exact .inl hf
    · rw [View.revoke_mem_mems hst] at hf
      by_cases hm' : m = x.data
      · subst hm'
        rw [Function.update_self] at hf
        exact .inr ⟨g, hg, (Option.some.inj hf).symm⟩
      · exact .inl (hupdate (Ne.symm hm') hf)
  | _ => exact .inl hf

theorem Selects.not_bars {f : File} {pgoff : Nat} (hs : At h v s)
    (hsel : Selects v f.ctx pgoff m) : ¬maps_bars f pgoff := by
  obtain ⟨g, hg, -, hid⟩ := hsel
  obtain ⟨x, hx, rfl⟩ := hs.mem_live hg
  have hlt := hs.mem_id_lt hx
  intro hbars
  have hzero : pgoff = 0 := by
    cases f with
    | core c => exact hbars.elim
    | ctrl y => exact hbars
    | group y => exact hbars
  rw [hzero, pin_id_zero] at hid
  have hid : x.mem_id = 2 ^ 32 - 1 := hid
  omega

/-- A registration that was not pinned and is live after an mmap has the pages of this pin. -/
theorem mmap_holds_pages {i : FileId} {mm a b pgoff : Nat} {env : MmapEnv} (hi : LoanInv s)
    (hx : s.mems.get m = some x) (hst : x.state = .STALE) (hloc : x.loc = BAFS_MEM_CPU) :
    wp (step (.mmap i mm a b pgoff env)) (fun _ => True) (fun _ t => ∀ y, t.mems.get m = some y →
      y.state = .LIVE → ∃ blk pages, HoldsPages m x blk pages s t) s := by
  obtain ⟨h, hl, hs, hstep⟩ := step_inv (.mmap i mm a b pgoff env) hi.inv
  have hxv : s.view.mems m = some x.fields := hs.mem_view hx
  by_cases hpins : pins_mem m s (.mmap i mm a b pgoff env)
  · obtain ⟨_, _, _, _, _, _, f, heq, hf, hsel⟩ := hpins
    cases heq
    by_cases hr : range_free s mm a b
    · have hctx : CtxHeld h s.view f.ctx := CtxHeld.of_file hl.nonneg hf
      have hbare := hi.inv.tidy.bare m x.fields hxv hst
      have hpin : wp (pin_bafs_mem (new_vma mm a b pgoff) f.ctx env.pin) _ _ s :=
        pin_bafs_mem_holds hs hctx hsel hx hloc hbare (hi.inv.tidy.size_lt m x.fields hxv)
          (fun p hp => page_freed_lt hi.loans hp) fun b hb => block_freed_lt hi.loans hb
      have hleft : wp (pin_bafs_mem (new_vma mm a b pgoff) f.ctx env.pin) _ _ s :=
        pin_bafs_mem_leaves hs hctx hsel hx
      refine wp_mmap_pin hf hr (hsel.not_bars hs) (fun V t ht y hy hlive => ?_) ?_
      · obtain ⟨blk, pages, hh⟩ := ht y hy hlive
        exact ⟨blk, pages, hh.congr (fun z hz => ⟨z, hz, rfl, rfl, rfl⟩) rfl rfl⟩
      · refine wp_mono (wp_and hpin hleft) fun r t ht y hy hlive => ?_
        by_cases h0 : r.2 = 0
        · exact ht.1 h0
        · rw [Option.some.inj (hy.symm.trans (ht.2 h0).mem)] at hlive
          have hstale : (pin_left x a env.pin).state = x.state := pin_left_state
          cases hlive.symm.trans (hstale.trans hst)
    · unfold step
      rw [wp_bind, wp_get, hf]
      dsimp only
      rw [wp_bind, wp_get, if_neg hr]
      intro y hy hlive
      obtain rfl := Option.some.inj (hx.symm.trans hy)
      cases hlive.symm.trans hst
  · refine wp_mono (wp_weaken hstep fun _ _ => trivial) fun r t ht y hy hlive => ?_
    obtain ⟨-, h', -, hs', he⟩ := ht
    have hstale : x.fields.state = .STALE := hst
    have hlive : y.fields.state = .LIVE := hlive
    obtain hkept | ⟨g, hg, hgy⟩ := he.reg_kept (Heap.lt_next_of_get hx) hpins (hs'.mem_view hy)
    · rw [← Option.some.inj (hxv.symm.trans hkept), hstale] at hlive
      cases hlive
    · rw [hgy] at hlive
      cases hlive

/-! ## Until the release -/

/-- The registration is one of CPU memory that has been pinned and has the page table `blk` with these
pages, as many as it counts. -/
structure BafsMem.HasPages (y : BafsMem) (blk : BlockId) (pages : List PageId) : Prop where
  cpu : y.loc = BAFS_MEM_CPU
  pinned : y.state ≠ .STALE
  table : y.cpu_page_table = some (blk, pages)
  count : y.n_pages = pages.length

/-- The registration `m`, while it exists, has these pages. -/
structure KeepsPages (m : MemId) (blk : BlockId) (pages : List PageId) (s : State) : Prop where
  made : m < s.mems.next
  keeps : ∀ y, s.mems.get m = some y → y.HasPages blk pages

/-- A request that does not pin the registration leaves its page table alone. -/
theorem KeepsPages.step {r : Request} (hk : KeepsPages m blk pages s) (hi : Inv s)
    (hno : ¬pins_mem m s r) :
    wp (step r) (fun _ => True) (fun _ t => Inv t ∧ KeepsPages m blk pages t) s := by
  obtain ⟨h, hl, hs, hstep⟩ := step_inv r hi
  refine wp_mono (wp_weaken hstep fun _ _ => trivial) fun _ t ht => ?_
  obtain ⟨hit, h', -, hs', he⟩ := ht
  have hnext : s.mems.next ≤ t.mems.next := he.mem_next_le
  refine ⟨hit, Nat.lt_of_lt_of_le hk.made hnext, fun y hy => ?_⟩
  obtain hkept | ⟨g, hg, hgy⟩ := he.reg_kept hk.made hno (hs'.mem_view hy)
  · obtain ⟨z, hz, hzy⟩ := hs.mem_live hkept
    have hold := hk.keeps z hz
    have hnew : z.fields.HasPages blk pages := ⟨hold.cpu, hold.pinned, hold.table, hold.count⟩
    rw [hzy] at hnew
    exact ⟨hnew.cpu, hnew.pinned, hnew.table, hnew.count⟩
  · obtain ⟨z, hz, rfl⟩ := hs.mem_live hg
    have hold := hk.keeps z hz
    have hnew : y.fields.HasPages blk pages := by
      rw [hgy]
      exact ⟨hold.cpu, STATE.noConfusion, hold.table, hold.count⟩
    exact ⟨hnew.cpu, hnew.pinned, hnew.table, hnew.count⟩

theorem KeepsPages.run {rs : List Request} (hk : KeepsPages m blk pages t) (hi : Inv t)
    (hno : Along BafsDriver.step (fun s r => ¬pins_mem m s r) rs t)
    (hr : Prog.run BafsDriver.step rs t = .ok u) : KeepsPages m blk pages u := by
  have hall := always_of_along (I := fun s => Inv s ∧ KeepsPages m blk pages s)
    (fun s r hI hK => hI.2.step hI.1 hK) (fun _ hI => hI.2) ⟨hi, hk⟩ hno
  exact (always_iff_run.mp hall rs (List.prefix_refl rs)).1 u hr

/-! ## The release -/

/-- The pages have been freed once each, and no other page; the page table has been freed once. -/
structure PagesFreed (blk : BlockId) (pages : List PageId) (u w : State) : Prop where
  freed : w.pages.freed = pages.reverse ++ u.pages.freed
  pages_once : ∀ p ∈ pages, u.pages.freed.count p = 0 ∧ w.pages.freed.count p = 1
  table_once : u.blocks.freed.count blk = 0 ∧ w.blocks.freed.count blk = 1

/-- What a release has freed, if what it leaves is in order. -/
theorem BafsMem.HasPages.freed {w : State} (hp : y.HasPages blk pages) (hy : u.mems.get m = some y)
    (hu : 0 ≤ loose u) (hw : 0 ≤ loose w)
    (hpages : w.pages.freed = (released_pages y).reverse ++ u.pages.freed)
    (hblks : ∀ b ∈ released_blks y, b ∈ w.blocks.freed) : PagesFreed blk pages u w := by
  have htable : y.table_pages = pages := by
    unfold BafsMem.table_pages
    rw [hp.table]
    rfl
  have hreleased : released_pages y = pages := by
    unfold released_pages
    rw [if_pos hp.cpu, htable, hp.count, List.take_length]
  rw [hreleased] at hpages
  have hblk : blk ∈ released_blks y := by
    unfold released_blks
    rw [if_pos hp.cpu, hp.table]
    exact List.mem_singleton_self blk
  refine ⟨hpages, fun p hin => ⟨page_not_freed hu (page_owners_pos hy (htable ▸ hin)),
    page_freed_once hw ?_⟩, block_not_freed hu (block_owners_mem hy ?_),
    block_freed_once hw (hblks blk hblk)⟩
  · rw [hpages]
    exact List.mem_append_left _ (List.mem_reverse.mpr hin)
  · unfold BafsMem.blocks
    rw [hp.table]
    exact List.mem_cons_of_mem _ (List.mem_singleton_self blk)

theorem BafsMem.HasPages.release (hp : y.HasPages blk pages) (hi : LoanInv u)
    (hy : u.mems.get m = some y) :
    wp (__bafs_mem_release m) E (fun _ w => PagesFreed blk pages u w) u := by
  obtain ⟨h, hl, hs⟩ := hi.inv.sane.at
  obtain ⟨z, hz, -⟩ := hs.wf.tables.mem_listed m y hy
  have hfits : table_fits y := hi.inv.tidy.fits m y.fields (hs.mem_view hy)
  refine wp_mono (wp_and (__bafs_mem_release_effect hy hz hp.pinned hfits)
    (__bafs_mem_release_loosens u)) fun _ w hw => ?_
  obtain ⟨hrel, hle⟩ := hw
  refine hp.freed hy hi.loans (le_trans hi.loans hle) ?_ fun b hb => hrel.freed b ?_
  · rw [hrel.pages, Heap.freed_foldl]
  · exact List.mem_append_left _ (List.mem_cons_of_mem _ hb)

/-- The request that closes the VMA of the registration. -/
theorem BafsMem.HasPages.close {r : Request} (hp : y.HasPages blk pages) (hi : LoanInv u)
    (hy : u.mems.get m = some y) (hr : closes_mem u.view u r m) :
    wp (BafsDriver.step r) E (fun _ w => PagesFreed blk pages u w) u := by
  refine wp_mono (wp_and (hi.inv.close_gone hr hy) (step_loosens r u)) fun _ w hw => ?_
  obtain ⟨⟨V, hg⟩, hle⟩ := hw
  refine hp.freed hy hi.loans (le_trans hi.loans hle) ?_ fun b hb => hg.freed b (.inl ?_)
  · rw [hg.pages, Heap.freed_foldl]
  · exact List.mem_append_left _ (List.mem_cons_of_mem _ hb)

/-! ## The claim -/

/-- Whether the request is no mmap. -/
def no_mmap : Request → Bool
  | .mmap .. => false
  | _ => true

theorem not_pins_of_test {r : Request} (hr : no_mmap r = true) : ¬pins_mem m s r := by
  rintro ⟨i, mm, a, b, pgoff, env, f, rfl, -, -⟩
  cases hr

/-- Whether registration 0 is one of CPU memory that was never pinned, can be pinned, and then be mapped
for DMA. -/
def pins_and_maps (s : State) : Bool :=
  match step (.map 0 0x10000 1 1) s with
  | .error _ => false
  | .ok (_, t) => (s.mems.get 0).any (fun x => x.state = .STALE ∧ x.loc = BAFS_MEM_CPU) &&
      (t.mems.get 0).any (fun y => y.state = .LIVE) && tests step (fun _ r => no_mmap r) [.dma_map 0 0x10000] t &&
      ends step (fun u => (u.mems.get 0).isSome && (u.dmas.get 0).isSome) [.dma_map 0 0x10000] t

end BafsDriver
