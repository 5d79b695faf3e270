import BafsDriver.Proofs.HandleRoundTrip

/-!
# The tables of a context

The list and the table of a context name the same registrations, in every state of every run, and the
removal of a registration takes out its own entry.
-/

namespace BafsDriver

open Prog

variable {h h' : Held Kind} {v v' : View} {s s' : State}

/-! ## The claim -/

/-- The list of each context names its registrations, each once, and so does its table, each under its
`mem_id`. -/
structure TablesAgree (s : State) : Prop where
  distinct : ∀ c y, s.ctxs.get c = some y → y.mem_list.Nodup
  same : ∀ c y m, s.ctxs.get c = some y →
    (m ∈ y.mem_list ↔ ∃ i, y.bafs_mem_xa.lookup i = some m)
  stored : ∀ c y m i, s.ctxs.get c = some y →
    (y.bafs_mem_xa.lookup i = some m ↔ ∃ x, s.mems.get m = some x ∧ x.ctx = c ∧ x.mem_id = i)

/-- The handle is that of a registration that the request through the file `x` has made. It is in
range, and no other registration of the context has it. -/
def HandleGiven (s : State) (x : File) (handle : BitVec 32) (s' : State) : Prop :=
  ∃ m z, s.mems.get m = none ∧ s'.mems.get m = some z ∧ z.ctx = x.ctx ∧ handle = handle_of z.mem_id ∧
    1 ≤ handle.toNat ∧ handle.toNat ≤ 2 ^ 31 ∧
    ∀ n z', s'.mems.get n = some z' → z'.ctx = x.ctx → n ≠ m → handle_of z'.mem_id ≠ handle

/-- The entries of the registrations that are left are left in their tables. -/
def EntriesKept (s s' : State) : Prop :=
  ∀ c y i m, s.ctxs.get c = some y → y.bafs_mem_xa.lookup i = some m → s'.mems.get m = none ∨
    ∃ y', s'.ctxs.get c = some y' ∧ y'.bafs_mem_xa.lookup i = some m ∧ m ∈ y'.mem_list

/-! ## The tables -/

theorem At.tablesAgree (hs : At h v s) : TablesAgree s := by
  have ht := hs.wf.tables
  have hstored : ∀ c y m i, s.ctxs.get c = some y → (y.bafs_mem_xa.lookup i = some m ↔
      ∃ x, s.mems.get m = some x ∧ x.ctx = c ∧ x.mem_id = i) := by
    intro c y m i hy
    constructor
    · intro hi
      exact (ht.stored c y i m hy hi).2
    · rintro ⟨x, hx, rfl, rfl⟩
      obtain ⟨y', hy', -, hl⟩ := ht.mem_listed m x hx
      rwa [Option.some.inj (hy.symm.trans hy')]
  refine ⟨fun c y hy => ht.list_nodup hy, fun c y m hy => ?_, hstored⟩
  constructor
  · intro hm
    obtain ⟨x, hx, hc⟩ := ht.listed c y m hy hm
    exact ⟨x.mem_id, (hstored c y m x.mem_id hy).mpr ⟨x, hx, hc, rfl⟩⟩
  · rintro ⟨i, hi⟩
    obtain ⟨x, hx, rfl, -⟩ := (hstored c y m i hy).mp hi
    obtain ⟨y', hy', hm, -⟩ := ht.mem_listed m x hx
    rwa [Option.some.inj (hy.symm.trans hy')]

/-- Two registrations of a context do not share an index. -/
theorem TablesAgree.index_unique (ht : TablesAgree s) {c : CtxId} {y : BafsCtx} {m n : MemId}
    {x z : BafsMem} (hy : s.ctxs.get c = some y) (hx : s.mems.get m = some x) (hxc : x.ctx = c)
    (hz : s.mems.get n = some z) (hzc : z.ctx = c) (hid : z.mem_id = x.mem_id) : n = m := by
  have hm := (ht.stored c y m x.mem_id hy).mpr ⟨x, hx, hxc, rfl⟩
  have hn := (ht.stored c y n x.mem_id hy).mpr ⟨z, hz, hzc, hid⟩
  exact Option.some.inj (hn.symm.trans hm)

/-! ## Handles -/

theorem handle_of_toNat {i : Nat} (hi : i < 2 ^ 31) : (handle_of i).toNat = i + 1 := by
  unfold handle_of
  rw [BitVec.toNat_ofNat]
  omega

theorem handle_of_inj {i j : Nat} (hi : i < 2 ^ 31) (hj : j < 2 ^ 31)
    (he : handle_of i = handle_of j) : i = j := by
  have := congrArg BitVec.toNat he
  rw [handle_of_toNat hi, handle_of_toNat hj] at this
  omega

/-- The index of a registration is in range. -/
theorem At.mem_id_lt (hs : At h v s) {m : MemId} {x : BafsMem} (hx : s.mems.get m = some x) :
    x.mem_id < 2 ^ 31 := by
  obtain ⟨y, hy, -, hl⟩ := hs.wf.tables.mem_listed m x hx
  exact (hs.wf.tables.stored x.ctx y x.mem_id m hy hl).1

/-- A registration that the state has got has a handle of its own. -/
theorem At.handle_given (hs : At h' v' s') {x : File} {f : BafsMem} (hc : f.ctx = x.ctx)
    (hnew : s.mems.get s.mems.next = none) (hv : v' = s.view.add_mem f) :
    HandleGiven s x (handle_of f.mem_id) s' := by
  have hm : v'.mems s.mems.next = some f := by
    rw [hv]
    exact Function.update_self ..
  obtain ⟨z, hz, rfl⟩ := hs.mem_live hm
  have hc : z.ctx = x.ctx := hc
  have hlt := hs.mem_id_lt hz
  obtain ⟨y, hy, -⟩ := hs.wf.tables.mem_listed _ z hz
  refine ⟨s.mems.next, z, hnew, hz, hc, rfl, ?_, ?_, fun n z' hz' hc' hne he => hne ?_⟩
  · show 1 ≤ (handle_of z.mem_id).toNat
    rw [handle_of_toNat hlt]
    omega
  · show (handle_of z.mem_id).toNat ≤ 2 ^ 31
    rw [handle_of_toNat hlt]
    omega
  · have hid := handle_of_inj (hs.mem_id_lt hz') hlt he
    exact hs.tablesAgree.index_unique hy hz rfl hz' (hc'.trans hc.symm) hid

/-- The handle in the reply to a request is that of the registration that it made. -/
theorem step_handle_given {f : FileId} {cmd : Nat} {arg : IoctlArg} {env : IoctlEnv} (hi : Inv s) :
    wp (step (.ioctl f cmd arg env)) (fun _ => True) (fun r s' => ∀ out, r.reg_mem = some out →
      ∃ x, s.files.get f = some x ∧ HandleGiven s x out.handle s') s := by
  obtain ⟨h, hl, hs⟩ := hi.sane.at
  unfold step
  rw [wp_bind, wp_get]
  cases hx : s.files.get f with
  | none =>
    intro out hout
    cases hout
  | some x =>
    refine wp.bind (wp_weaken (ioctl_file_spec hs hl hx) fun _ _ => trivial) fun r s₁ hr => ?_
    obtain ⟨h', v', hi', hs₁⟩ := hr
    intro out hout
    cases hi' with
    | reg_mem hcmd hy hok hid =>
      obtain rfl := Option.some.inj hout
      exact ⟨x, rfl, hs₁.handle_given rfl Heap.get_next rfl⟩
    | _ => cases hout

/-! ## Entries -/

/-- A registration that is not new has the context and the index that it had. -/
theorem RegOf.entry {m : MemId} {f' : BafsMem} (hr : RegOf v m f') (hlt : m < v.mem_next) :
    ∃ f, v.mems m = some f ∧ f'.ctx = f.ctx ∧ f'.mem_id = f.mem_id := by
  cases hr with
  | kept hm => exact ⟨f', hm, rfl, rfl⟩
  | made hn => exact absurd hn hlt.ne
  | pinned hm hp => exact ⟨_, hm, hp.same.ctx, hp.same.mem_id⟩
  | unpinned hm hp => exact ⟨_, hm, hp.same.ctx, hp.same.mem_id⟩
  | revoked hm => exact ⟨_, hm, rfl, rfl⟩

theorem step_entries_kept (r : Request) (hi : Inv s) :
    wp (step r) (fun _ => True) (fun _ s' => EntriesKept s s') s := by
  obtain ⟨h, -, hs, hw⟩ := step_inv r hi
  refine wp_weaken (wp_mono hw fun _ s' hs' => ?_) fun _ _ => trivial
  obtain ⟨-, h', -, hs', he⟩ := hs'
  intro c y i m hy hm
  obtain ⟨-, x, hx, hc, hid⟩ := hs.wf.tables.stored c y i m hy hm
  cases hx' : s'.mems.get m with
  | none => exact .inl rfl
  | some x' =>
    right
    obtain ⟨f, hf, hfc, hfid⟩ := (he.reg_of (hs'.mem_view hx')).entry (Heap.lt_next_of_get hx)
    obtain rfl : x.fields = f := Option.some.inj ((hs.mem_view hx).symm.trans hf)
    obtain ⟨y', hy', hlist, hl⟩ := hs'.wf.tables.mem_listed m x' hx'
    have hfc : x'.ctx = x.ctx := hfc
    have hfid : x'.mem_id = x.mem_id := hfid
    rw [hfc, hc] at hy'
    rw [hfid, hid] at hl
    exact ⟨y', hy', hl, hlist⟩

/-- In every state that a run reaches, the list and the table of each context name its registrations;
a request that gives a handle gives one that no other registration has, and each request leaves the
entries of the registrations that it does not remove. -/
theorem registration_tables (rs : List Request) : Always step (fun _ => True) (fun s =>
    TablesAgree s ∧
    (∀ f cmd arg env, wp (step (.ioctl f cmd arg env)) (fun _ => True) (fun r s' =>
      ∀ out, r.reg_mem = some out →
        ∃ x, s.files.get f = some x ∧ HandleGiven s x out.handle s') s) ∧
    ∀ r, wp (step r) (fun _ => True) (fun _ s' => EntriesKept s s') s) rs init := by
  refine always_of_inv (fun s hi => ⟨?_, fun f cmd arg env => ?_, fun r => ?_⟩) rs
  · obtain ⟨h, -, hs⟩ := hi.sane.at
    exact hs.tablesAgree
  · exact step_handle_given hi
  · exact step_entries_kept r hi

end BafsDriver
