import BafsDriver.Proofs.VmaClose
import BafsDriver.Scenario

/-!
# The sweep of a closed file

The release functions of the three devices sweep the list of the context in the same way: a
registration that was never mapped is unlinked and freed and puts the context. The sweep holds the lock
of the context and drops references to it, so the context has to have one for each registration that is
swept, and one more for the file itself.
-/

namespace BafsDriver

open Prog

variable {s t u : State} {E : Fault → Prop} {c : CtxId} {m : MemId} {y z : BafsCtx} {i : FileId} {f : File}

/-! ## The claim -/

/-- The registration `m` was never mapped. -/
def is_stale (s : State) (m : MemId) : Bool := (s.mems.get m).any fun x => x.state = .STALE

/-- The registrations of the context that the sweep takes, in its order. -/
def swept (s : State) (y : BafsCtx) : List MemId := y.mem_list.filter (is_stale s)

/-- The registrations of the context that stay. -/
def kept (s : State) (y : BafsCtx) : List MemId := y.mem_list.filter fun m => !is_stale s m

/-- The list of the context `c`, which is `y`, has its registrations, each once, and each is in the table
under its identifier. -/
structure Listed (s : State) (c : CtxId) (y : BafsCtx) : Prop where
  ctx : s.ctxs.get c = some y
  nodup : y.mem_list.Nodup
  mem : ∀ m ∈ y.mem_list, ∃ x, s.mems.get m = some x ∧ x.ctx = c ∧ y.bafs_mem_xa.lookup x.mem_id = some m

/-- The state `t` after the sweep of the context `c`, which was `y` in the state `s`: the context is
there. -/
structure Swept (s : State) (c : CtxId) (y : BafsCtx) (t : State) : Prop where
  /-- The registrations that stay are in the list, in their order, and in the table, where those that
  were swept are not; and the context has one reference less for each of these. -/
  ctx : ∃ z, t.ctxs.get c = some z ∧ z.mem_list = kept s y ∧ z.ref + (swept s y).length = y.ref ∧
    (∀ m x, s.mems.get m = some x → (m ∈ kept s y → z.bafs_mem_xa.lookup x.mem_id = some m) ∧
      (m ∈ swept s y → z.bafs_mem_xa.lookup x.mem_id = none)) ∧
    z.tgid = y.tgid ∧ z.tgid_struct = y.tgid_struct
  mems : ∀ m, t.mems.get m = if m ∈ swept s y then none else s.mems.get m
  mem_log : t.mem_log = (swept s y).reverse ++ s.mem_log
  /-- No context has been released. -/
  ctx_log : t.ctx_log = s.ctx_log
  freed : t.ctxs.freed = s.ctxs.freed
  others : ∀ d, d ≠ c → t.ctxs.get d = s.ctxs.get d

/-- The state `u` after the reference of the file has been dropped in the state `t` after the sweep. -/
structure OwnPut (s : State) (c : CtxId) (y : BafsCtx) (t u : State) : Prop where
  ctx : ∀ z, t.ctxs.get c = some z →
    u.ctxs.get c = if z.ref = 1 then none else some { z with ref := z.ref - 1 }
  others : ∀ d, d ≠ c → u.ctxs.get d = t.ctxs.get d
  mems : u.mems = t.mems
  /-- The context is gone exactly if nothing but the file and the registrations held it, and no
  registration is left. -/
  gone : u.ctxs.get c = none ↔ y.ref = y.mem_list.length + 1 ∧ kept s y = []

/-- What is left of the release of a file when it has given up its context. -/
def release_rest : File → Drv Unit
  | .core _ => pure ()
  | .ctrl x => do
    bafs_ctrl_release x.ctrl
    kfree x.blk
  | .group x => do
    bafs_put_group x.group
    kfree x.blk

/-- The contexts and the registrations. -/
def State.contexts (s : State) : Heap BafsCtx × Heap BafsMem × AList (fun _ : Nat => CtxId) ×
    List CtxRelease × List MemId :=
  (s.ctxs, s.mems, s.bafs_global_ctx_xa, s.ctx_log, s.mem_log)

/-! ## The sweep -/

/-- The identifiers of the registrations of a list. -/
def mem_ids (s : State) (l : List MemId) : List Nat := l.filterMap fun m => (s.mems.get m).map BafsMem.mem_id

/-- The context `z` after the registrations of `done` have been looked at and those of `rest` have not,
in the sweep of the context `y`. -/
structure SweptCtx (s : State) (y : BafsCtx) (done rest : List MemId) (z : BafsCtx) : Prop where
  list : z.mem_list = (done.filter fun m => !is_stale s m) ++ rest
  ref : z.ref + (done.filter (is_stale s)).length = y.ref
  table : ∀ i, z.bafs_mem_xa.lookup i =
    if i ∈ mem_ids s (done.filter (is_stale s)) then none else y.bafs_mem_xa.lookup i
  tgid : z.tgid = y.tgid
  tgid_struct : z.tgid_struct = y.tgid_struct

/-- The state in the midst of the sweep. -/
structure Sweeping (s : State) (c : CtxId) (y : BafsCtx) (done rest : List MemId) (t : State) : Prop where
  ctx : ∃ z, t.ctxs.get c = some z ∧ SweptCtx s y done rest z
  mems : ∀ m, t.mems.get m = if m ∈ done.filter (is_stale s) then none else s.mems.get m
  mem_log : t.mem_log = (done.filter (is_stale s)).reverse ++ s.mem_log
  ctx_log : t.ctx_log = s.ctx_log
  freed : t.ctxs.freed = s.ctxs.freed
  others : ∀ d, d ≠ c → t.ctxs.get d = s.ctxs.get d

theorem Sweeping.start (hl : Listed s c y) : Sweeping s c y [] y.mem_list s where
  ctx := ⟨y, hl.ctx, rfl, rfl, fun _ => (if_neg List.not_mem_nil).symm, rfl, rfl⟩
  mems _ := (if_neg List.not_mem_nil).symm
  mem_log := rfl
  ctx_log := rfl
  freed := rfl
  others _ _ := rfl

theorem filter_stale (hs : is_stale s m = true) (l : List MemId) :
    (l ++ [m]).filter (is_stale s) = l.filter (is_stale s) ++ [m] ∧
      ((l ++ [m]).filter fun m => !is_stale s m) = l.filter fun m => !is_stale s m := by
  simp [List.filter_append, hs]

theorem filter_not_stale (hs : is_stale s m = false) (l : List MemId) :
    (l ++ [m]).filter (is_stale s) = l.filter (is_stale s) ∧
      ((l ++ [m]).filter fun m => !is_stale s m) = (l.filter fun m => !is_stale s m) ++ [m] := by
  simp [List.filter_append, hs]

/-- A registration that was mapped stays. -/
theorem SweptCtx.keep {done rest : List MemId} (hz : SweptCtx s y done (m :: rest) z)
    (hs : is_stale s m = false) : SweptCtx s y (done ++ [m]) rest z := by
  obtain ⟨hswept, hkept⟩ := filter_not_stale hs done
  refine ⟨?_, ?_, ?_, hz.tgid, hz.tgid_struct⟩
  · rw [hkept, hz.list, List.append_assoc]
    rfl
  · rw [hswept]
    exact hz.ref
  · rw [hswept]
    exact hz.table

/-- A registration that was not is taken out of the list and of the table, and puts the context. -/
theorem SweptCtx.take {done rest : List MemId} {x : BafsMem} (hz : SweptCtx s y done (m :: rest) z)
    (hs : is_stale s m = true) (hm : m ∉ done) (hx : s.mems.get m = some x) (hr : 0 < z.ref) :
    SweptCtx s y (done ++ [m]) rest { z with
      mem_list := z.mem_list.erase m
      bafs_mem_xa := z.bafs_mem_xa.erase x.mem_id
      ref := z.ref - 1 } := by
  obtain ⟨hswept, hkept⟩ := filter_stale hs done
  have hids : mem_ids s (done.filter (is_stale s) ++ [m]) =
      mem_ids s (done.filter (is_stale s)) ++ [x.mem_id] := by
    unfold mem_ids
    rw [List.filterMap_append, List.filterMap_cons, hx]
    rfl
  refine ⟨?_, ?_, fun i => ?_, hz.tgid, hz.tgid_struct⟩
  · have hno : m ∉ done.filter fun m => !is_stale s m := fun hin => hm (List.mem_filter.mp hin).1
    show z.mem_list.erase m = _
    rw [hkept, hz.list, List.erase_append_right _ hno, List.erase_cons_head]
  · have href := hz.ref
    rw [hswept, List.length_append, List.length_singleton]
    show z.ref - 1 + _ = y.ref
    omega
  · rw [hswept, hids]
    show (z.bafs_mem_xa.erase x.mem_id).lookup i = _
    by_cases hi : i = x.mem_id
    · rw [hi, AList.lookup_erase, if_pos (List.mem_append_right _ (List.mem_singleton_self _))]
    · rw [AList.lookup_erase_ne hi, hz.table i]
      simp only [List.mem_append, List.mem_singleton, hi, or_false]

theorem Sweeping.round {done rest : List MemId} (hl : Listed s c y) (hd : y.mem_list = done ++ m :: rest)
    (href : y.mem_list.length + 1 ≤ y.ref) (ht : Sweeping s c y done (m :: rest) t) :
    wp (do
      let x ← mem_at m
      if x.state = .STALE then do
        unlink_mem m x
        drop_mem m
        kfree x.blk
        bafs_put_ctx c
      else
        pure ()) E (fun _ u => Sweeping s c y (done ++ [m]) rest u) t := by
  obtain ⟨x, hx, rfl, -⟩ := hl.mem m (hd ▸ List.mem_append_right _ List.mem_cons_self)
  have hm : m ∉ done := fun hin => by
    have hnd := hl.nodup
    rw [hd] at hnd
    exact List.disjoint_of_nodup_append hnd hin List.mem_cons_self
  obtain ⟨z, hz, hzs⟩ := ht.ctx
  have hxt : t.mems.get m = some x := by
    rw [ht.mems m, if_neg fun hin => hm (List.mem_filter.mp hin).1]
    exact hx
  rw [wp_bind, wp_mem_at hxt]
  refine wp_ite (fun hst => ?_) fun hst => ?_
  · have hs : is_stale s m = true := by
      unfold is_stale
      rw [hx]
      exact decide_eq_true hst
    -- the file and the registrations that are left hold the context too
    have hr : 1 < z.ref := by
      have hzr := hzs.ref
      have hle := List.length_filter_le (is_stale s) done
      rw [hd, List.length_append, List.length_cons] at href
      omega
    unfold unlink_mem drop_mem kfree
    rw [wp_bind, wp_ctx_upd hz, wp_bind, wp_modify, wp_bind, wp_modify]
    refine (wp_put_ctx_kept (by exact Heap.get_set_self hz) (by exact Nat.ne_of_gt hr)).mpr ?_
    obtain ⟨hswept, -⟩ := filter_stale hs done
    refine ⟨⟨_, Heap.get_set_self (Heap.get_set_self hz), hzs.take hs hm hx (Nat.zero_lt_of_lt hr)⟩,
      fun n => ?_, ?_, ht.ctx_log, ht.freed, fun d hdc => ?_⟩
    · rw [hswept]
      show (t.mems.free m).get n = _
      rw [Heap.get_free, ht.mems n]
      by_cases hn : n = m
      · rw [if_pos hn, if_pos (List.mem_append_right _ (List.mem_singleton.mpr hn))]
      · rw [if_neg hn]
        simp only [List.mem_append, List.mem_singleton, hn, or_false]
    · rw [hswept, List.reverse_append]
      exact congrArg (m :: ·) ht.mem_log
    · show ((t.ctxs.set _ _).set _ _).get d = _
      rw [Heap.get_set_ne hdc, Heap.get_set_ne hdc]
      exact ht.others d hdc
  · have hs : is_stale s m = false := by
      unfold is_stale
      rw [hx]
      exact decide_eq_false hst
    obtain ⟨hswept, -⟩ := filter_not_stale hs done
    refine ⟨⟨z, hz, hzs.keep hs⟩, ?_, ?_, ht.ctx_log, ht.freed, ht.others⟩
    · rw [hswept]
      exact ht.mems
    · rw [hswept]
      exact ht.mem_log

theorem swept_length (s : State) (y : BafsCtx) : (swept s y).length + (kept s y).length = y.mem_list.length :=
  List.length_eq_length_filter_add (is_stale s) |>.symm

/-- Two registrations of the list do not share an identifier. -/
theorem Listed.id_inj {n : MemId} {x x' : BafsMem} (hl : Listed s c y) (hm : m ∈ y.mem_list)
    (hn : n ∈ y.mem_list) (hx : s.mems.get m = some x) (hx' : s.mems.get n = some x')
    (he : x'.mem_id = x.mem_id) : n = m := by
  obtain ⟨w, hw, -, hid⟩ := hl.mem m hm
  obtain ⟨w', hw', -, hid'⟩ := hl.mem n hn
  obtain rfl := Option.some.inj (hx.symm.trans hw)
  obtain rfl := Option.some.inj (hx'.symm.trans hw')
  rw [he, hid] at hid'
  exact (Option.some.inj hid').symm

theorem Sweeping.swept (hl : Listed s c y) (ht : Sweeping s c y y.mem_list [] t) : Swept s c y t := by
  obtain ⟨z, hz, hzs⟩ := ht.ctx
  refine ⟨⟨z, hz, ?_, hzs.ref, fun m x hx => ⟨fun hm => ?_, fun hm => ?_⟩, hzs.tgid, hzs.tgid_struct⟩,
    ht.mems, ht.mem_log, ht.ctx_log, ht.freed, ht.others⟩
  · rw [hzs.list, List.append_nil]
    rfl
  · obtain ⟨hin, hlive⟩ := List.mem_filter.mp hm
    obtain ⟨w, hw, -, hid⟩ := hl.mem m hin
    obtain rfl := Option.some.inj (hx.symm.trans hw)
    rw [hzs.table, if_neg fun hids => ?_]
    · exact hid
    · obtain ⟨n, hn, hnid⟩ := List.mem_filterMap.mp hids
      obtain ⟨w', hw', he⟩ := Option.map_eq_some_iff.mp hnid
      obtain ⟨hnin, hstale⟩ := List.mem_filter.mp hn
      obtain rfl := hl.id_inj hin hnin hx hw' he
      rw [hstale] at hlive
      cases hlive
  · have hids : x.mem_id ∈ mem_ids s (y.mem_list.filter (is_stale s)) := by
      refine List.mem_filterMap.mpr ⟨m, hm, ?_⟩
      rw [hx]
      rfl
    rw [hzs.table, if_pos hids]

theorem sweep_stale_swept (hl : Listed s c y) (href : y.mem_list.length + 1 ≤ y.ref) (F : Heap File) :
    wp (sweep_stale c) E (fun _ t => Swept s c y t) { s with files := F } := by
  unfold sweep_stale
  rw [wp_bind, wp_ctx_at (by exact hl.ctx)]
  have hstart := Sweeping.start hl
  refine wp_mono (wp_each (fun rest t => ∃ done, y.mem_list = done ++ rest ∧ Sweeping s c y done rest t)
    (fun m rest t hinv => ?_) ⟨[], rfl, ?_⟩) fun _ t ht => ?_
  · obtain ⟨done, hd, ht⟩ := hinv
    refine wp_mono (ht.round hl hd href) fun _ u hu => ?_
    exact ⟨done ++ [m], by rw [hd, List.append_assoc]; rfl, hu⟩
  · exact ⟨hstart.ctx, hstart.mems, hstart.mem_log, hstart.ctx_log, hstart.freed, hstart.others⟩
  · obtain ⟨done, hd, ht⟩ := ht
    rw [List.append_nil] at hd
    subst hd
    exact ht.swept hl

/-! ## The reference of the file -/

theorem bafs_put_ctx_own (href : y.mem_list.length + 1 ≤ y.ref) (ht : Swept s c y t) :
    wp (bafs_put_ctx c) E (fun _ u => OwnPut s c y t u) t := by
  obtain ⟨z, hz, -, hzr, -⟩ := ht.ctx
  have hlen := swept_length s y
  refine wp_mono (bafs_put_ctx_effect hz) fun _ u hu => ?_
  have hctx : u.ctxs.get c = if z.ref = 1 then none else some { z with ref := z.ref - 1 } := by
    rw [hu.ctxs]
    unfold put_ctx
    split
    · exact Heap.get_free_self
    · exact Heap.get_set_self hz
  refine ⟨fun z' hz' => ?_, fun d hd => ?_, congrArg Prod.fst hu.rest, ?_⟩
  · obtain rfl := Option.some.inj (hz.symm.trans hz')
    exact hctx
  · rw [hu.ctxs]
    unfold put_ctx
    split
    · rw [Heap.get_free, if_neg hd]
    · exact Heap.get_set_ne hd
  · have hone : u.ctxs.get c = none ↔ z.ref = 1 := by
      rw [hctx]
      split <;> simp [*]
    rw [hone, ← List.length_eq_zero_iff]
    omega

/-! ## The three release functions -/

/-- A file gives up its context in the same way whatever it is open on. -/
theorem release_file_eq (f : File) :
    release_file f = (do sweep_stale f.ctx; bafs_put_ctx f.ctx; release_rest f) := by
  cases f with
  | core c =>
    show bafs_core_release c = _
    unfold bafs_core_release release_rest
    rw [bind_pure]
    rfl
  | ctrl x => rfl
  | group x => rfl

theorem contexts_detached : Detached State.contexts := by
  constructor <;> (try constructor) <;> intros <;> rfl

theorem release_rest_contexts (f : File) : Preserves (fun _ => True) (release_rest f) State.contexts := by
  cases f with
  | core c => exact .pure _
  | ctrl x =>
    exact .bind (bafs_ctrl_release_detached contexts_detached x.ctrl) fun _ =>
      kfree_quiet contexts_detached.toQuiet x.blk
  | group x =>
    exact .bind (bafs_put_group_detached contexts_detached x.group) fun _ =>
      kfree_quiet contexts_detached.toQuiet x.blk

/-- The close of a file, whatever it is open on, sweeps the context, which has a reference for each open
file and each registration, without releasing it, then drops the reference of the file, and does not
touch the contexts and registrations afterwards. -/
theorem file_close_sweeps (hf : s.files.get i = some f) (hl : Listed s f.ctx y)
    (href : s.files.count (fun x => x.ctx = f.ctx) + y.mem_list.length ≤ y.ref) :
    ∃ t u, sweep_stale f.ctx { s with files := s.files.free i } = .ok ((), t) ∧ Swept s f.ctx y t ∧
      bafs_put_ctx f.ctx t = .ok ((), u) ∧ OwnPut s f.ctx y t u ∧
      step (.close i) s = (do release_rest f; pure { ret := 0 } : Drv Reply) u ∧
      Preserves (fun _ => True) (release_rest f) State.contexts := by
  have hown : 0 < s.files.count fun x => x.ctx = f.ctx := Heap.count_pos hf rfl
  have hone : y.mem_list.length + 1 ≤ y.ref := by omega
  obtain ⟨⟨⟩, t, hsweep, ht⟩ := wp_ends (sweep_stale_swept (E := fun _ => False) hl hone (s.files.free i))
  obtain ⟨⟨⟩, u, hput, hu⟩ := wp_ends (bafs_put_ctx_own (E := fun _ => False) hone ht)
  refine ⟨t, u, hsweep, ht, hput, hu, ?_, release_rest_contexts f⟩
  have hstep : step (.close i) s =
      (do release_file f; pure { ret := 0 } : Drv Reply) { s with files := s.files.free i } := by
    have hget : (get : Drv State) s = .ok (s, s) := rfl
    simp only [step, bind_ok hget, hf]
    rfl
  rw [hstep, release_file_eq]
  simp only [bind_assoc]
  rw [bind_ok hsweep, bind_ok hput]

/-! ## In the states that are reached -/

/-- In a state that satisfies the invariant a context has its registrations in its list and counts them
and its open files. -/
theorem At.listed {h : Held Kind} {v : View} (hs : At h v s) (hc : h .ctx c = 0) (hy : s.ctxs.get c = some y) :
    Listed s c y ∧ s.files.count (fun x => x.ctx = c) + y.mem_list.length = y.ref := by
  have hnd := hs.wf.tables.list_nodup hy
  have hmem : ∀ m, m ∈ y.mem_list ↔ ∃ x, s.mems.get m = some x ∧ x.ctx = c := fun m => by
    constructor
    · intro hm
      exact hs.wf.tables.listed c y m hy hm
    · rintro ⟨x, hx, rfl⟩
      obtain ⟨y', hy', hin, -⟩ := hs.wf.tables.mem_listed m x hx
      obtain rfl := Option.some.inj (hy.symm.trans hy')
      exact hin
  refine ⟨⟨hy, hnd, fun m hm => ?_⟩, ?_⟩
  · obtain ⟨x, hx, rfl⟩ := (hmem m).mp hm
    obtain ⟨y', hy', -, hid⟩ := hs.wf.tables.mem_listed m x hx
    obtain rfl := Option.some.inj (hy.symm.trans hy')
    exact ⟨x, hx, rfl, hid⟩
  · have hcount := Heap.count_eq_length hnd hmem
    have hdue := hs.wf.ctx.eq c y hy
    rw [hc] at hdue
    unfold ctx_holders at hdue
    omega

/-- A registration that was never mapped, and one that was. -/
def one_stale : List Request :=
  [.open_core a_task granted_ctx, .reg_mem 0 BAFS_CORE_IOC_REG_MEM 4096 BAFS_MEM_CPU, .map 0 0x10000 1 1,
    .reg_mem 0 BAFS_CORE_IOC_REG_MEM 4096 BAFS_MEM_CPU]

/-- Whether the file 0 is one of the core device, and its context has two registrations of which one was
never mapped. -/
def has_one_stale (s : State) : Bool :=
  (s.files.get 0).any (fun f => f.ctx = 0) &&
    (s.ctxs.get 0).any fun y => (swept s y).length = 1 && (kept s y).length = 1

/-- The close of the file takes the registration that was never mapped. -/
theorem one_stale_swept : ∃ s f y t u, run step one_stale init = .ok s ∧ s.files.get 0 = some f ∧
    (swept s y).length = 1 ∧ (kept s y).length = 1 ∧ Swept s f.ctx y t ∧ OwnPut s f.ctx y t u := by
  have hend : ends step has_one_stale one_stale init = true := by decide +kernel
  obtain ⟨hr, hp⟩ := run_final hend
  generalize final step one_stale init = s at hr hp
  obtain ⟨hf, hy⟩ := Bool.and_eq_true_iff.mp hp
  obtain ⟨f, hf, hctx⟩ := (Option.any_eq_true ..).mp hf
  obtain ⟨y, hy, hlen⟩ := (Option.any_eq_true ..).mp hy
  have hctx : f.ctx = 0 := of_decide_eq_true hctx
  obtain ⟨hswept, hkept⟩ := Bool.and_eq_true_iff.mp hlen
  obtain ⟨h, hl, hs⟩ := (run_inv hr).sane.at
  rw [← hctx] at hy
  obtain ⟨hlisted, href⟩ := hs.listed (hl.ctx _) hy
  obtain ⟨t, u, -, ht, -, hu, -⟩ := file_close_sweeps hf hlisted href.le
  exact ⟨s, f, y, t, u, hr, hf, of_decide_eq_true hswept, of_decide_eq_true hkept, ht, hu⟩

end BafsDriver
