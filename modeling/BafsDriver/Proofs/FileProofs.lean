import BafsDriver.Proofs.OpenProofs

/-!
# Requests on open files

What an ioctl and an mmap make of the references and of the view, case by case.
-/

set_option linter.style.nameCheck false

namespace BafsDriver

open Prog

variable {h h' : Held Kind} {v : View} {s : State} {E : Fault → Prop}

/-! ## ioctl -/

/-- The number of the registration request on a file. -/
def reg_cmd : File → Nat
  | .core _ => BAFS_CORE_IOC_REG_MEM
  | .ctrl _ => BAFS_CTRL_IOC_REG_MEM
  | .group _ => BAFS_GROUP_IOC_REG_MEM

/-- The number of the DMA-map request on a file. -/
def dma_map_cmd : File → Option Nat
  | .core _ => none
  | .ctrl _ => some BAFS_CTRL_IOC_DMA_MAP_MEM
  | .group _ => some BAFS_GROUP_IOC_DMA_MAP_MEM

/-- What a registration request that is refused leaves behind: `goto out` skips the put. -/
def File.lost : File → Held Kind
  | .core _ => 0
  | .ctrl y => tok .ctrl y.ctrl
  | .group y => tok .group y.group

/-- The request is one of the core device that creates or deletes a group. -/
def group_cmd (x : File) (cmd : Nat) : Prop :=
  ∃ c, x = .core c ∧ (cmd = BAFS_CORE_IOC_CREATE_GROUP ∨ cmd = BAFS_CORE_IOC_DELETE_GROUP)

/-- What an ioctl makes of the references and of the view, with what it replies. -/
inductive Ioctl (h : Held Kind) (v : View) (s : State) (x : File) (cmd : Nat) (arg : IoctlArg)
    (env : IoctlEnv) : IoctlReply → Held Kind → View → Prop
  | reg_mem {y : BafsCtx} {blk : BlockId} {i : Nat} (hcmd : cmd = reg_cmd x)
      (hy : s.ctxs.get x.ctx = some y) (hok : ¬reg_mem_fails y.bafs_mem_xa env.reg_mem)
      (hi : xa_alloc y.bafs_mem_xa env.reg_mem.xa_alloc = some i) :
      Ioctl h v s x cmd arg env
        ⟨0, some { arg.reg_mem with handle := BitVec.ofNat 32 (i + 1) }⟩ h
        (v.add_mem (new_mem blk x.ctx i arg.reg_mem.size.toNat arg.reg_mem.loc.toNat).fields)
  | reg_mem_fails {y : BafsCtx} {ret : Int} {n : Nat} (hcmd : cmd = reg_cmd x)
      (hy : s.ctxs.get x.ctx = some y) (hf : reg_mem_fails y.bafs_mem_xa env.reg_mem) (hret : ret < 0)
      (hn : v.mem_next ≤ n) :
      Ioctl h v s x cmd arg env (.code ret) (h + x.lost) { v with mem_next := n }
  | dma_map {ds : List DmaId} {D : DmaId → Option (MemId × CtrlId)}
      (hcmd : dma_map_cmd x = some cmd) (hD : Mapped v x.ctx arg.dma_map_mem.vaddr ds D) :
      Ioctl h v s x cmd arg env (.code 0) h { v with dmas := D }
  | create {c : CtxId} {ret : Int} {h' : Held Kind} {v' : View} (hx : x = .core c)
      (hcmd : cmd = BAFS_CORE_IOC_CREATE_GROUP)
      (hc : Created h v s arg.create_group env.create_group ret h' v') :
      Ioctl h v s x cmd arg env (.code (min ret 0)) h' v'
  | delete {c : CtxId} {ret : Int} {h' : Held Kind} {v' : View} (hx : x = .core c)
      (hcmd : cmd = BAFS_CORE_IOC_DELETE_GROUP)
      (hd : Deleted h v s arg.delete_group env.delete_group ret h' v') :
      Ioctl h v s x cmd arg env (.code (min ret 0)) h' v'
  | refused {ret : Int} (hcmd : cmd ≠ reg_cmd x) (hg : ¬group_cmd x cmd) (hret : ret < 0) :
      Ioctl h v s x cmd arg env (.code ret) h v

/-- A registration through the file `x`, with `h'` as the references in between. -/
theorem ioctl_reg_mem {x : File} {arg : IoctlArg} {env : IoctlEnv} (hs : At h' v s)
    (hh : NonNeg h') (hx : CtxHeld h' v x.ctx) :
    wp (bafs_core_reg_mem arg.argp arg.reg_mem x.ctx env.reg_mem) E (fun r s' =>
      ∃ y, s.ctxs.get x.ctx = some y ∧
        ((r.1 < 0 ∧ reg_mem_fails y.bafs_mem_xa env.reg_mem ∧
            ∃ n, v.mem_next ≤ n ∧ At h' { v with mem_next := n } s') ∨
          (r.1 = 0 ∧ ¬reg_mem_fails y.bafs_mem_xa env.reg_mem ∧ ∃ blk i,
            xa_alloc y.bafs_mem_xa env.reg_mem.xa_alloc = some i ∧
            r.2 = { arg.reg_mem with handle := BitVec.ofNat 32 (i + 1) } ∧
            At h' (v.add_mem
              (new_mem blk x.ctx i arg.reg_mem.size.toNat arg.reg_mem.loc.toNat).fields) s'))) s := by
  obtain ⟨y, hy⟩ := hs.ctx_live hx
  refine wp_mono (bafs_core_reg_mem_spec hs hh hy) fun r s₁ hr => ⟨y, hy, ?_⟩
  by_cases hf : reg_mem_fails y.bafs_mem_xa env.reg_mem
  · rw [if_pos hf] at hr
    exact .inl ⟨hr.1, hf, hr.2⟩
  · rw [if_neg hf] at hr
    obtain ⟨hret, blk, i, hi, hout, hs₁⟩ := hr
    exact .inr ⟨hret, hf, blk, i, hi, hout, hs₁⟩

/-- The reply to a request whose function returned `ret`. -/
theorem reply_code (ret : Int) :
    (if ret < 0 then pure (.code ret) else pure (.code 0) : Drv IoctlReply) =
      pure (.code (min ret 0)) := by
  by_cases hr : ret < 0
  · rw [if_pos hr, min_eq_left hr.le]
  · rw [if_neg hr, min_eq_right (not_lt.mp hr)]

theorem bafs_core_ioctl_spec {c : CtxId} {cmd : Nat} {arg : IoctlArg} {env : IoctlEnv}
    (hs : At h v s) (hh : NonNeg h) (hc : CtxHeld h v c)
    (hE : cmd = BAFS_CORE_IOC_DELETE_GROUP → env.delete_group = true →
      ctrl_name s arg.delete_group.group_name → E .wrong_type) :
    wp (bafs_core_ioctl c cmd arg env) E (fun r s' => ∃ h' v',
      Ioctl h v s (.core c) cmd arg env r h' v' ∧ At h' v' s') s := by
  unfold bafs_core_ioctl
  simp only [reply_code]
  refine wp_ite (fun hty => ?_) fun _ => wp_ite (fun h1 => ?_) fun h1 => wp_ite (fun h2 => ?_)
    fun h2 => wp_ite (fun h3 => ?_) fun h3 => ?_
  · refine ⟨h, v, .refused ?_ ?_ (by decide), hs⟩
    · rintro rfl
      exact hty (show _IOC_TYPE BAFS_CORE_IOC_REG_MEM = BAFS_CORE_IOCTL by decide)
    · rintro ⟨c, -, rfl | rfl⟩ <;> exact hty (by decide)
  · refine (ioctl_reg_mem (x := .core c) hs hh hc).bind fun r s₁ hr => ?_
    obtain ⟨ret, out⟩ := r
    obtain ⟨y, hy, ⟨hret, hf, n, hn, hs₁⟩ | ⟨hret, hf, blk, i, hi, hout, hs₁⟩⟩ := hr
    · have hret : ret < 0 := hret
      dsimp only
      rw [if_pos hret]
      exact ⟨_, _, .reg_mem_fails h1 hy hf hret hn, hs₁.congr (add_zero h)⟩
    · obtain rfl : ret = 0 := hret
      obtain rfl : out = _ := hout
      exact ⟨h, _, .reg_mem h1 hy hf hi, hs₁⟩
  · refine (bafs_core_create_group_spec hs hh).bind fun ret s₁ hr => ?_
    obtain ⟨h', v', hr, -, hs₁⟩ := hr
    exact ⟨h', v', .create rfl h2 hr, hs₁⟩
  · refine (bafs_core_delete_group_spec hs hh (hE h3)).bind fun ret s₁ hr => ?_
    obtain ⟨h', v', hr, hs₁⟩ := hr
    exact ⟨h', v', .delete rfl h3 hr, hs₁⟩
  · refine ⟨h, v, .refused h1 ?_ (by decide), hs⟩
    rintro ⟨c, -, h | h⟩
    · exact h2 h
    · exact h3 h

theorem not_group_cmd_ctrl {y : BafsCtrlCtx} {cmd : Nat} : ¬group_cmd (.ctrl y) cmd := by
  rintro ⟨c, hc, -⟩
  cases hc

theorem not_group_cmd_group {y : BafsGroupCtx} {cmd : Nat} : ¬group_cmd (.group y) cmd := by
  rintro ⟨c, hc, -⟩
  cases hc

/-- The newest registration at the address of a DMA-map request has lost its page table. -/
def reads_missing_table (v : View) (ctx : CtxId) (vaddr : Nat) : Prop :=
  ∃ m f, Found v ctx vaddr m ∧ v.mems m = some f ∧ missing_table f

/-- The newest registration at the address of a DMA-map request has a page table of the wrong
length. -/
def reads_wrong_table (v : View) (ctx : CtxId) (vaddr : Nat) : Prop :=
  ∃ m f, Found v ctx vaddr m ∧ v.mems m = some f ∧ ¬table_fits f

theorem bafs_ctrl_ioctl_spec {i : FileId} {y : BafsCtrlCtx} {cmd : Nat} {arg : IoctlArg}
    {env : IoctlEnv} (hs : At h v s) (hh : NonNeg h) (hi : v.files.get i = some (.ctrl y))
    (hb : cmd = BAFS_CTRL_IOC_DMA_MAP_MEM → reads_wrong_table v y.ctx arg.dma_map_mem.vaddr →
      E .out_of_bounds)
    (hE : cmd = BAFS_CTRL_IOC_DMA_MAP_MEM → reads_missing_table v y.ctx arg.dma_map_mem.vaddr →
      E .null_page_table) :
    wp (bafs_ctrl_ioctl y cmd arg env) E (fun r s' => ∃ h' v',
      Ioctl h v s (.ctrl y) cmd arg env r h' v' ∧ At h' v' s') s := by
  have hctx := CtxHeld.of_file hh hi
  have hctrl := CtrlHeld.of_file hh hi
  unfold bafs_ctrl_ioctl
  obtain ⟨x, hx⟩ := hs.ctrl_live hh hctrl
  rw [wp_bind, bafs_get_ctrl, wp_ctrl_upd hx]
  have hs₀ := hs.ctrl_get hx
  simp only [reply_code]
  refine wp_ite (fun hty => ?_) fun _ => wp_ite (fun h1 => ?_) fun h1 => wp_ite (fun h2 => ?_)
    fun h2 => ?_
  · refine (bafs_ctrl_release_spec hs₀ hh).bind fun _ s₁ hs₁ => ?_
    refine ⟨h, v, .refused ?_ not_group_cmd_ctrl (by decide), hs₁⟩
    rintro rfl
    exact hty (show _IOC_TYPE BAFS_CTRL_IOC_REG_MEM = BAFS_CTRL_IOCTL by decide)
  · refine (ioctl_reg_mem (x := .ctrl y) hs₀ (hh.tok _ _) (hctx.add _ _)).bind fun r s₁ hr => ?_
    obtain ⟨ret, out⟩ := r
    obtain ⟨z, hz, ⟨hret, hf, n, hn, hs₁⟩ | ⟨hret, hf, blk, i, hi, hout, hs₁⟩⟩ := hr
    · have hret : ret < 0 := hret
      dsimp only
      rw [if_pos hret]
      exact ⟨_, _, .reg_mem_fails h1 hz hf hret hn, hs₁⟩
    · obtain rfl : ret = 0 := hret
      obtain rfl : out = _ := hout
      refine (bafs_ctrl_release_spec hs₁ hh).bind fun _ s₂ hs₂ => ?_
      exact ⟨h, _, .reg_mem h1 hz hf hi, hs₂⟩
  · refine (__bafs_ctrl_dma_map_mem_spec hs₀ (hh.tok _ _) (hctx.add _ _) (hctrl.add _ _)
      (fun m f hm hf ht => hb h2 ⟨m, f, hm, hf, ht⟩)
      fun m f hm hf ht => hE h2 ⟨m, f, hm, hf, ht⟩).bind fun ret s₁ hr => ?_
    have hcmd : dma_map_cmd (.ctrl y) = some cmd := congrArg some h2.symm
    obtain ⟨hret, hs₁⟩ | ⟨rfl, m, d, hm, hd, hs₁⟩ := hr
    · refine (bafs_ctrl_release_spec hs₁ hh).bind fun _ s₂ hs₂ => ?_
      refine ⟨h, v, .refused h1 not_group_cmd_ctrl ?_, hs₂⟩
      rw [min_eq_left hret.le]
      exact hret
    · refine (bafs_ctrl_release_spec hs₁ hh).bind fun _ s₂ hs₂ => ?_
      exact ⟨h, _, .dma_map hcmd (Mapped.nil.add hd hm y.ctrl), hs₂⟩
  · refine (bafs_ctrl_release_spec hs₀ hh).bind fun _ s₁ hs₁ => ?_
    exact ⟨h, v, .refused h1 not_group_cmd_ctrl (by decide), hs₁⟩

theorem bafs_group_ioctl_spec {i : FileId} {y : BafsGroupCtx} {cmd : Nat} {arg : IoctlArg}
    {env : IoctlEnv} (hs : At h v s) (hh : NonNeg h) (hi : v.files.get i = some (.group y))
    (hg : group_gone v (.group y) → E .freed_group)
    (hb : cmd = BAFS_GROUP_IOC_DMA_MAP_MEM → reads_wrong_table v y.ctx arg.dma_map_mem.vaddr →
      E .out_of_bounds)
    (hE : cmd = BAFS_GROUP_IOC_DMA_MAP_MEM → reads_missing_table v y.ctx arg.dma_map_mem.vaddr →
      E .null_page_table) :
    wp (bafs_group_ioctl y cmd arg env) E (fun r s' => ∃ h' v',
      Ioctl h v s (.group y) cmd arg env r h' v' ∧ At h' v' s') s := by
  have hctx := CtxHeld.of_file hh hi
  unfold bafs_group_ioctl
  cases hl : v.group_ctrls y.group with
  | none =>
    rw [wp_bind, bafs_get_group, group_upd, wp_bind]
    have hgone : s.groups.get y.group = none := by
      rw [← hs.view] at hl
      exact Option.map_eq_none_iff.mp hl
    exact wp_load_of (fun _ => hg hl) fun x hx => by cases hgone.symm.trans hx
  | some l =>
  have hpos := hs.group_pos hl
  obtain ⟨x, hx, -⟩ := hs.group_live hl
  rw [wp_bind, bafs_get_group, wp_group_upd hx]
  have hs₀ := hs.group_get hx
  simp only [reply_code]
  refine wp_ite (fun hty => ?_) fun _ => wp_ite (fun h1 => ?_) fun h1 => wp_ite (fun h2 => ?_)
    fun h2 => ?_
  · refine (bafs_put_group_spec hs₀ hl hpos).bind fun _ s₁ hs₁ => ?_
    refine ⟨h, v, .refused ?_ not_group_cmd_group (by decide), hs₁⟩
    rintro rfl
    exact hty (show _IOC_TYPE BAFS_GROUP_IOC_REG_MEM = BAFS_GROUP_IOCTL by decide)
  · refine (ioctl_reg_mem (x := .group y) hs₀ (hh.tok _ _) (hctx.add _ _)).bind fun r s₁ hr => ?_
    obtain ⟨ret, out⟩ := r
    obtain ⟨z, hz, ⟨hret, hf, n, hn, hs₁⟩ | ⟨hret, hf, blk, i, hi, hout, hs₁⟩⟩ := hr
    · have hret : ret < 0 := hret
      dsimp only
      rw [if_pos hret]
      exact ⟨_, _, .reg_mem_fails h1 hz hf hret hn, hs₁⟩
    · obtain rfl : ret = 0 := hret
      obtain rfl : out = _ := hout
      refine (bafs_put_group_spec (l := l) hs₁ hl hpos).bind fun _ s₂ hs₂ => ?_
      exact ⟨h, _, .reg_mem h1 hz hf hi, hs₂⟩
  · refine (bafs_group_dma_map_mem_spec hs₀ (hh.tok _ _) hl (hctx.add _ _)
      (fun m f hm hf ht => hb h2 ⟨m, f, hm, hf, ht⟩)
      fun m f hm hf ht => hE h2 ⟨m, f, hm, hf, ht⟩).bind fun ret s₁ hr => ?_
    have hcmd : dma_map_cmd (.group y) = some cmd := congrArg some h2.symm
    obtain ⟨hret, hs₁⟩ | ⟨rfl, ds, D, hD, hs₁⟩ := hr
    · refine (bafs_put_group_spec hs₁ hl hpos).bind fun _ s₂ hs₂ => ?_
      refine ⟨h, v, .refused h1 not_group_cmd_group ?_, hs₂⟩
      rw [min_eq_left hret.le]
      exact hret
    · refine (bafs_put_group_spec (l := l) hs₁ hl hpos).bind fun _ s₂ hs₂ => ?_
      exact ⟨h, _, .dma_map hcmd hD, hs₂⟩
  · refine (bafs_put_group_spec hs₀ hl hpos).bind fun _ s₁ hs₁ => ?_
    exact ⟨h, v, .refused h1 not_group_cmd_group (by decide), hs₁⟩

/-! ## Mapping of registers -/

/-- The start of BAR 0 of a controller. -/
def bar_start (s : State) (c : CtrlId) : Nat := (s.ctrls.get c).elim 0 fun x => x.pdev.resource_start

/-- The length of BAR 0 of a controller. -/
def bar_len (s : State) (c : CtrlId) : Nat := (s.ctrls.get c).elim 0 fun x => x.pdev.resource_len

/-- The ranges that are asked for to map the BARs of the controllers one after another, the first of
them at the offset `off` of the VMA. -/
def bar_remaps (s : State) (vm_start : Nat) : Nat → List CtrlId → List Remap
  | _, [] => []
  | off, c :: l => ⟨u64 (vm_start + off), bar_start s c, bar_len s c, some c⟩ ::
    bar_remaps s vm_start (u64 (off + bar_len s c)) l

/-- The kernel maps the range `r` for controller `j`. -/
def seg_ok (fail : Nat → Option Errno) (j : Nat) (r : Remap) : Prop :=
  fail j = none ∧ r.addr + r.size ≤ 2 ^ 64

/-- The ranges depend on the controllers only. -/
theorem bar_remaps_congr {s' : State} (hc : s'.ctrls = s.ctrls) :
    bar_remaps s' = bar_remaps s := by
  funext a off l
  induction l generalizing off with
  | nil => rfl
  | cons c l ih =>
    have h1 : bar_start s' c = bar_start s c := by rw [bar_start, bar_start, hc]
    have h2 : bar_len s' c = bar_len s c := by rw [bar_len, bar_len, hc]
    rw [bar_remaps, bar_remaps, h1, h2, ih]

theorem length_bar_remaps {a o : Nat} {l : List CtrlId} :
    (bar_remaps s a o l).length = l.length := by
  induction l generalizing o with
  | nil => rfl
  | cons c l ih => rw [bar_remaps, List.length_cons, List.length_cons, ih]

/-- The segments are those of the controllers. -/
theorem bars_of_remaps {a off : Nat} {l : List CtrlId} :
    (bar_remaps s a off l).map Remap.bar = l.map some := by
  induction l generalizing off with
  | nil => rfl
  | cons c l ih => rw [bar_remaps, List.map_cons, List.map_cons, ih]

theorem quiet_ctrls : Quiet State.ctrls := by constructor <;> intros <;> rfl

theorem bafs_ctrl_mmap_spec {c : CtrlId} {x : BafsCtrl} {vma : Vma} {vaddr : Nat}
    {fail : Option Errno} (hs : At h v s) (hh : NonNeg h) (hx : s.ctrls.get c = some x) :
    wp (bafs_ctrl_mmap c vma vaddr fail) E (fun r s' =>
      (r.2.1 = 0 ∧ (fail = none ∧ vaddr + x.pdev.resource_len ≤ 2 ^ 64) ∧
        r.2.2 = x.pdev.resource_len ∧ r.1 = { vma with remaps := vma.remaps ++
          [⟨vaddr, x.pdev.resource_start, x.pdev.resource_len, some c⟩] } ∧
        s'.ctrls = s.ctrls.set c { x with ref := x.ref + 1 } ∧ At (h + tok Kind.ctrl c) v s') ∨
      (r.2.1 < 0 ∧ ¬(fail = none ∧ vaddr + x.pdev.resource_len ≤ 2 ^ 64) ∧ At h v s')) s := by
  unfold bafs_ctrl_mmap
  rw [wp_bind, bafs_get_ctrl, wp_ctrl_upd hx, wp_bind, wp_ctrl_at (Heap.get_set_self hx)]
  refine ((io_remap_pfn_range_quiet (E := fun _ => True) quiet_ctrls _ _ _ _ _ _).wp_and
    (io_remap_pfn_range_spec (hs.ctrl_get hx) vma vaddr x.pdev.resource_start x.pdev.resource_len
      (some c) fail)).bind fun r s₁ hr => ?_
  obtain ⟨w, ret⟩ := r
  obtain ⟨⟨hs₁, ⟨hret, hok, hw⟩ | ⟨hret, hok, -⟩⟩, hctrls⟩ := hr
  · obtain rfl : ret = 0 := hret
    dsimp only
    rw [if_neg (by decide)]
    exact .inl ⟨rfl, hok, rfl, hw, hctrls, hs₁⟩
  · have hret : ret < 0 := hret
    dsimp only
    rw [if_pos hret]
    exact (bafs_ctrl_release_spec hs₁ hh).bind fun _ s₂ hs₂ => .inr ⟨hret, hok, hs₂⟩

/-- The loop maps all BARs, or fails at the first that is refused and keeps the references to the
controllers before it. -/
theorem group_mmap_loop_spec {l : List CtrlId} {vma : Vma} {fail : Nat → Option Errno}
    (hs : At h v s) (hh : NonNeg h) (hc : ∀ c ∈ l, CtrlHeld h v c) (hre : vma.remaps = []) :
    wp (group_mmap_loop fail l.zipIdx vma) E (fun r s' =>
      match r.2 with
      | none => (∀ (j : Nat) (q : Remap), (bar_remaps s vma.vm_start 0 l)[j]? = some q → seg_ok fail j q) ∧
        r.1.1 = { vma with remaps := bar_remaps s vma.vm_start 0 l } ∧
        At (h + toks Kind.ctrl l) v s'
      | some ret => ret < 0 ∧ ∃ (j : Nat) (q : Remap), (bar_remaps s vma.vm_start 0 l)[j]? = some q ∧
        ¬seg_ok fail j q ∧
        (∀ i < j, ∀ q, (bar_remaps s vma.vm_start 0 l)[i]? = some q → seg_ok fail i q) ∧
        At (h + toks Kind.ctrl (l.take j)) v s') s := by
  have hlen := length_bar_remaps (s := s) (a := vma.vm_start) (o := 0) (l := l)
  generalize hR : bar_remaps s vma.vm_start 0 l = R at hlen
  unfold group_mmap_loop
  refine wp_iterate (fun bs acc s₁ => ∃ done rest R₁, bs = rest.zipIdx done.length ∧
      l = done ++ rest ∧ acc.1 = { vma with remaps := R₁ } ∧ R₁.length = done.length ∧
      R₁ ++ bar_remaps s vma.vm_start acc.2 rest = R ∧
      (∀ i < done.length, ∀ q, R[i]? = some q → seg_ok fail i q) ∧
      (∀ c, bar_start s₁ c = bar_start s c ∧ bar_len s₁ c = bar_len s c) ∧
      At (h + toks Kind.ctrl done) v s₁) (fun ci bs acc s₁ hinv => ?_) (fun acc s₁ hinv => ?_)
    ⟨[], l, [], rfl, rfl, by rw [← hre], rfl, (by exact hR), (fun i hi => by cases hi), fun c => ⟨rfl, rfl⟩,
      hs.congr (by simp)⟩
  · obtain ⟨done, rest, R₁, hbs, hl, hw, hR₁, hcat, hok, hbar, hs₁⟩ := hinv
    obtain ⟨c, rest, rfl⟩ : ∃ c rest', rest = c :: rest' := by
      cases rest with
      | nil => cases hbs
      | cons c rest => exact ⟨c, rest, rfl⟩
    rw [List.zipIdx_cons] at hbs
    obtain ⟨rfl, rfl⟩ := List.cons.inj hbs
    have hcl : c ∈ l := by rw [hl]; simp
    have hh₁ := hh.toks .ctrl done
    obtain ⟨x, hx⟩ := hs₁.ctrl_live hh₁ ((hc c hcl).add_toks _ _)
    obtain ⟨hstart, hlen₁⟩ := hbar c
    have hx₁ : bar_start s c = x.pdev.resource_start ∧ bar_len s c = x.pdev.resource_len := by
      rw [← hstart, ← hlen₁]
      simp [bar_start, bar_len, hx]
    -- the segment of this controller
    have hseg : R[done.length]? = some ⟨u64 (vma.vm_start + acc.2), x.pdev.resource_start,
        x.pdev.resource_len, some c⟩ := by
      rw [← hcat, List.getElem?_append_right (by omega), hR₁, Nat.sub_self, bar_remaps, hx₁.1, hx₁.2]
      rfl
    have hwv : acc.1.vm_start = vma.vm_start := by rw [hw]
    refine (bafs_ctrl_mmap_spec hs₁ hh₁ hx).bind fun r s₂ hr => ?_
    obtain ⟨w, ret, size⟩ := r
    rw [hwv] at hr
    obtain ⟨hret, hko, hsize, hw', hctrls, hs₂⟩ | ⟨hret, hko, hs₂⟩ := hr
    · obtain rfl : ret = 0 := hret
      obtain rfl : size = x.pdev.resource_len := hsize
      dsimp only
      rw [if_neg (by decide)]
      refine ⟨done ++ [c], rest, R₁ ++ [⟨u64 (vma.vm_start + acc.2), x.pdev.resource_start,
        x.pdev.resource_len, some c⟩], ?_, ?_, ?_, ?_, ?_, fun i hi q hq => ?_, fun c' => ?_, ?_⟩
      · rw [List.length_append, List.length_singleton]
      · rw [hl, List.append_assoc, List.singleton_append]
      · rw [hw', hw]
      · rw [List.length_append, List.length_append, hR₁]
        rfl
      · rw [← hcat, bar_remaps, hx₁.1, hx₁.2, List.append_assoc]
        rfl
      · rw [List.length_append, List.length_singleton] at hi
        rcases Nat.lt_succ_iff_lt_or_eq.mp hi with hi | rfl
        · exact hok i hi q hq
        · rw [← Option.some.inj (hseg.symm.trans hq)]
          exact hko
      · rw [← (hbar c').1, ← (hbar c').2]
        unfold bar_start bar_len
        rw [hctrls, Heap.get_set hx]
        by_cases hcc : c' = c
        · rw [if_pos hcc, hcc, hx]
          exact ⟨rfl, rfl⟩
        · rw [if_neg hcc]
          exact ⟨rfl, rfl⟩
      · refine hs₂.congr ?_
        rw [toks_append, toks_cons, toks_nil, add_zero, add_assoc]
    · have hret : ret < 0 := hret
      dsimp only
      rw [if_pos hret]
      refine ⟨hret, done.length, _, hseg, hko, hok, hs₂.congr ?_⟩
      rw [hl, List.take_left]
  · obtain ⟨done, rest, R₁, hbs, hl, hw, hR₁, hcat, hok, hbar, hs₁⟩ := hinv
    have hrest : rest = [] := by
      cases rest with
      | nil => rfl
      | cons c rest => cases hbs
    subst hrest
    rw [List.append_nil] at hl
    rw [bar_remaps, List.append_nil] at hcat
    subst hl hcat
    refine ⟨fun j q hj => hok j ?_ q hj, hw, hs₁⟩
    have := (List.getElem?_eq_some_iff.mp hj).1
    omega

/-! ## mmap -/

/-- The controllers whose BARs an mmap with page offset 0 maps. -/
def bar_ctrls (v : View) : File → Option (List CtrlId)
  | .core _ => none
  | .ctrl y => some [y.ctrl]
  | .group y => v.group_ctrls y.group

/-- The page offset stands for the BARs. -/
def maps_bars (x : File) (vm_pgoff : Nat) : Prop :=
  match x with
  | .core _ => False
  | _ => vm_pgoff = 0

/-- What an mmap makes of the references and of the view, before the VMA is added; on success the VMA
as the driver leaves it. -/
inductive Mmap (h : Held Kind) (v : View) (s : State) (x : File) (vma : Vma) (env : MmapEnv) :
    Option Vma → Held Kind → View → Prop
  | bars_mapped {l : List CtrlId} (hp : maps_bars x vma.vm_pgoff) (hl : bar_ctrls v x = some l)
      (hok : ∀ (j : Nat) (q : Remap), (bar_remaps s vma.vm_start 0 l)[j]? = some q →
        seg_ok env.bar j q) :
      Mmap h v s x vma env (some { vma with remaps := bar_remaps s vma.vm_start 0 l })
        (h + toks Kind.ctrl l) v
  | bars_failed {l : List CtrlId} {j : Nat} {q : Remap} (hp : maps_bars x vma.vm_pgoff)
      (hl : bar_ctrls v x = some l) (hj : (bar_remaps s vma.vm_start 0 l)[j]? = some q)
      (hno : ¬seg_ok env.bar j q)
      (hok : ∀ i < j, ∀ q, (bar_remaps s vma.vm_start 0 l)[i]? = some q → seg_ok env.bar i q) :
      Mmap h v s x vma env none (h + toks Kind.ctrl (l.take j)) v
  | pinned {m : MemId} {f f' : BafsMem} {w : Vma} {T' : Heap P2pPageTable}
      (hp : ¬maps_bars x vma.vm_pgoff) (hsel : Selects v x.ctx vma.vm_pgoff m)
      (hm : v.mems m = some f) (hok : pinnable f vma env.pin) (hw : MemVma vma m w)
      (hf : Pinned m { f with vaddr := vma.vm_start } f' v.tables T' w) :
      Mmap h v s x vma env (some w) h (v.pin_mem m f' T')
  | unpinned {m : MemId} {f f' : BafsMem} {T' : Heap P2pPageTable}
      (hp : ¬maps_bars x vma.vm_pgoff) (hsel : Selects v x.ctx vma.vm_pgoff m)
      (hm : v.mems m = some f) (hno : ¬pinnable f vma env.pin)
      (hf : Unpinned m { f with vaddr := vma.vm_start } f' v.tables T') :
      Mmap h v s x vma env none h ({ v with tables := T' }.set_mem m f')
  | unknown (hp : ¬maps_bars x vma.vm_pgoff)
      (hsel : ∀ m, ¬Selects v x.ctx vma.vm_pgoff m) : Mmap h v s x vma env none h v

/-- The VMA that an mmap function with this result has set up. -/
def mmapped (r : Vma × Int) : Option Vma := if r.2 < 0 then none else some r.1

theorem mmapped_ok {w : Vma} : mmapped (w, 0) = some w := if_neg (lt_irrefl (0 : Int))

theorem mmapped_failed {w : Vma} {ret : Int} (hret : ret < 0) : mmapped (w, ret) = none := if_pos hret

theorem pin_mmap {x : File} {vma : Vma} {env : MmapEnv} (hs : At h v s) (hh : NonNeg h)
    (hx : CtxHeld h v x.ctx) (hp : ¬maps_bars x vma.vm_pgoff) (hre : vma.remaps = []) :
    wp (pin_bafs_mem vma x.ctx env.pin) E (fun r s' => r.2 ≤ 0 ∧ ∃ h' v',
      Mmap h v s x vma env (mmapped r) h' v' ∧ At h' v' s') s := by
  refine wp_mono (pin_bafs_mem_spec hs hh hx hre) fun r s₁ hr => ?_
  obtain ⟨w, ret⟩ := r
  obtain ⟨hsel, hret, hs₁⟩ | ⟨m, f, hsel, hm, hr⟩ := hr
  · have hret : ret < 0 := hret
    refine ⟨hret.le, h, v, ?_, hs₁⟩
    rw [mmapped_failed hret]
    exact .unknown hp hsel
  · obtain ⟨hok, hret, hw, f', T', hf, hs₁⟩ | ⟨hno, hret, f', T', hf, hs₁⟩ := hr
    · obtain rfl : ret = 0 := hret
      exact ⟨le_rfl, h, _, .pinned hp hsel hm hok hw hf, hs₁⟩
    · have hret : ret < 0 := hret
      refine ⟨hret.le, h, _, ?_, hs₁⟩
      rw [mmapped_failed hret]
      exact .unpinned hp hsel hm hno hf

theorem mmap_file_spec {i : FileId} {x : File} {vma : Vma} {env : MmapEnv} (hs : At h v s)
    (hh : NonNeg h) (hi : v.files.get i = some x) (hvm : vma.vm_start < 2 ^ 64)
    (hre : vma.remaps = []) (hg : maps_bars x vma.vm_pgoff → group_gone v x → E .freed_group) :
    wp (mmap_file x vma env) E (fun r s' => ∃ h' v',
      Mmap h v s x vma env (mmapped r) h' v' ∧ At h' v' s') s := by
  have hctx := CtxHeld.of_file hh hi
  cases x with
  | core c => exact wp_mono (pin_mmap (x := .core c) hs hh hctx id hre) fun _ _ hr => hr.2
  | ctrl y =>
    unfold mmap_file __bafs_ctrl_mmap
    refine wp_ite (fun hp => ?_) fun hp => ?_
    · have hctrl := CtrlHeld.of_file hh hi
      obtain ⟨z, hz⟩ := hs.ctrl_live hh hctrl
      have hR : bar_remaps s vma.vm_start 0 [y.ctrl] =
          [⟨vma.vm_start, z.pdev.resource_start, z.pdev.resource_len, some y.ctrl⟩] := by
        have hu : u64 (vma.vm_start + 0) = vma.vm_start := Nat.mod_eq_of_lt hvm
        rw [bar_remaps, bar_remaps, hu, bar_start, bar_len, hz]
        rfl
      refine (bafs_ctrl_mmap_spec hs hh hz).bind fun r s₁ hr => ?_
      obtain ⟨w, ret, size⟩ := r
      obtain ⟨hret, hok, -, hw, -, hs₁⟩ | ⟨hret, hno, hs₁⟩ := hr
      · obtain rfl : ret = 0 := hret
        obtain rfl : w = _ := hw
        refine ⟨h + toks Kind.ctrl [y.ctrl], v, ?_,
          hs₁.congr (by rw [toks_cons, toks_nil, add_zero])⟩
        have := @Mmap.bars_mapped h v s (.ctrl y) vma env [y.ctrl] hp rfl fun j q hq => ?_
        · rw [hR] at this
          rw [mmapped_ok, hre]
          exact this
        · rw [hR] at hq
          obtain ⟨rfl, rfl⟩ : j = 0 ∧ _ = q := by
            cases j with
            | zero => exact ⟨rfl, Option.some.inj hq⟩
            | succ j => cases hq
          exact hok
      · have hret : ret < 0 := hret
        refine ⟨_, v, ?_, hs₁.congr (k := h + toks Kind.ctrl ([y.ctrl].take 0)) (by simp)⟩
        rw [mmapped_failed hret]
        have hq : (bar_remaps s vma.vm_start 0 [y.ctrl])[0]? =
            some ⟨vma.vm_start, z.pdev.resource_start, z.pdev.resource_len, some y.ctrl⟩ := by
          rw [hR]
          rfl
        exact .bars_failed hp rfl hq hno fun i hi => absurd hi (Nat.not_lt_zero i)
    · exact wp_mono (pin_mmap (x := .ctrl y) hs hh hctx hp hre) fun _ _ hr => hr.2
  | group y =>
    unfold mmap_file bafs_group_mmap
    refine wp_ite (fun hp => ?_) fun hp => ?_
    · cases hl : v.group_ctrls y.group with
      | none =>
        rw [wp_bind, bafs_get_group, group_upd, wp_bind]
        have hgone : s.groups.get y.group = none := by
          rw [← hs.view] at hl
          exact Option.map_eq_none_iff.mp hl
        exact wp_load_of (fun _ => hg hp hl) fun x hx => by cases hgone.symm.trans hx
      | some l =>
        have hpos := hs.group_pos hl
        obtain ⟨z, hz, rfl⟩ := hs.group_live hl
        rw [wp_bind, bafs_get_group, wp_group_upd hz, wp_bind, wp_group_at (Heap.get_set_self hz)]
        have hc : ∀ c ∈ z.ctrls, CtrlHeld (h + tok Kind.group y.group) v c := fun c hc =>
          .inr ⟨y.group, z.ctrls, hl, hc⟩
        refine (group_mmap_loop_spec (hs.group_get hz) (hh.tok _ _) hc hre).bind fun r s₁ hr => ?_
        obtain ⟨acc, fail⟩ := r
        have hcong : bar_remaps { s with
            groups := s.groups.set y.group { z with ref := z.ref + 1 } } = bar_remaps s :=
          bar_remaps_congr rfl
        simp only [hcong] at hr
        have hswap : ∀ k, h + tok Kind.group y.group + toks Kind.ctrl k =
            h + toks Kind.ctrl k + tok Kind.group y.group := fun k => add_right_comm _ _ _
        have hpos' : ∀ k, 0 < (v.files.sum (File.group_refs y.group) : ℕ) +
            (h + toks Kind.ctrl k) .group y.group := fun k => by
          have : toks Kind.ctrl k .group y.group = 0 := if_neg (by decide)
          rw [Pi.add_apply, Pi.add_apply, this]
          omega
        cases fail with
        | some ret =>
          obtain ⟨hret, j, q, hj, hno, hok, hs₁⟩ := hr
          refine (bafs_put_group_spec (hs₁.congr (hswap _).symm) hl (hpos' _)).bind
            fun _ s₂ hs₂ => ?_
          refine ⟨_, v, ?_, hs₂⟩
          rw [mmapped_failed hret]
          exact .bars_failed hp hl hj hno hok
        | none =>
          obtain ⟨hok, hw, hs₁⟩ := hr
          refine (bafs_put_group_spec (hs₁.congr (hswap _).symm) hl (hpos' _)).bind
            fun _ s₂ hs₂ => ?_
          refine ⟨_, v, ?_, hs₂⟩
          rw [hw, mmapped_ok]
          exact .bars_mapped (by exact hp) hl hok
    · refine (pin_mmap (x := .group y) hs hh hctx hp hre).bind fun r s₁ hr => ?_
      obtain ⟨w, ret⟩ := r
      obtain ⟨hret, hr⟩ := hr
      have hret : ret ≤ 0 := hret
      refine wp_ite (fun _ => hr) fun h0 => ?_
      obtain rfl : ret = 0 := le_antisymm hret (not_lt.mp h0)
      exact hr

end BafsDriver
