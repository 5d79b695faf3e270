import BafsDriver.Proofs.FailedPin
import BafsDriver.Proofs.MapBounds
import BafsDriver.Proofs.RegistrationTables

/-!
# What a page offset stands for

The page offset of an mmap is 0 for the BARs, on a ctrl or group file, or the handle of a registration.
`pin_bafs_mem` narrows it to 32 bits before the lookup, so that an offset past `2 ^ 32` may stand for a
registration too.
-/

set_option linter.style.nameCheck false

namespace BafsDriver

open Prog

variable {h : Held Kind} {v : View} {s t : State} {a b p : Nat} {x : File}

/-! ## The claim -/

/-- What an mmap with the page offset `p` on the file `x` makes of the state: the BARs are asked for, or
the registration with the handle `p` is looked up; where there is none, the mmap fails and leaves the
registrations and the contexts as they are. -/
structure Decoded (s : State) (x : File) (vm_start p : Nat) (env : MmapEnv) (r : Vma × Int)
    (t : State) : Prop where
  bars : maps_bars x p → t.registered = s.registered ∧ ∃ l, bar_ctrls s.view x = some l ∧
    calls Event.range t =
      (asked_ranges env.bar 0 (bar_ranges s vm_start 0 l)).reverse ++ calls Event.range s
  selected : ¬maps_bars x p → ∀ y m, s.ctxs.get x.ctx = some y → (pin_lookup y p = some m ↔
    m ∈ y.mem_list ∧ ∃ z, s.mems.get m = some z ∧ p = z.mem_id + 1)
  refused : ¬maps_bars x p → (∀ m z, s.mems.get m = some z → z.ctx = x.ctx → p ≠ z.mem_id + 1) →
    r.2 < 0 ∧ t.registered = s.registered

instance (x : File) (vm_pgoff : Nat) : Decidable (maps_bars x vm_pgoff) :=
  match x with
  | .core _ => inferInstanceAs (Decidable False)
  | .ctrl _ | .group _ => inferInstanceAs (Decidable (vm_pgoff = 0))

/-- An mmap with the page offset `p` does what the offset stands for. -/
def DecodesOffset (s : State) (x : File) (mm vm_start vm_end p : Nat) (env : MmapEnv) : Prop :=
  wp (mmap_file x (new_vma mm vm_start vm_end p) env) (fun _ => False)
    (Decoded s x vm_start p env) s

/-- The group of the file exists where its BARs are to be mapped, and an offset past `2 ^ 32` does not
come down to the index of a registration. -/
def plain_offset (s : State) (x : File) (p : Nat) : Prop :=
  (maps_bars x p → ¬group_gone s.view x) ∧
  (¬maps_bars x p → p ≤ 2 ^ 32 ∨
    ∀ m z, s.mems.get m = some z → z.ctx = x.ctx → z.mem_id ≠ (p - 1) % 2 ^ 32)

/-! ## The index -/

theorem pin_id_zero : pin_id 0 = 2 ^ 32 - 1 := by decide

theorem pin_id_pos (hp : 0 < p) (hlt : p < 2 ^ 64) : pin_id p = (p - 1) % 2 ^ 32 := by
  unfold pin_id u32 u64
  rw [show p + 2 ^ 64 - 1 = p - 1 + 2 ^ 64 by omega, Nat.add_mod_right,
    Nat.mod_eq_of_lt (show p - 1 < 2 ^ 64 by omega)]

/-- An offset of 32 bits is the handle of what it selects. -/
theorem pin_id_eq_iff {i : Nat} (hp : p ≤ 2 ^ 32) (hi : i < 2 ^ 31) : i = pin_id p ↔ p = i + 1 := by
  by_cases hz : p = 0
  · subst hz
    rw [pin_id_zero]
    omega
  · rw [pin_id_pos (by omega) (by omega), Nat.mod_eq_of_lt (by omega)]
    omega

/-! ## The mmap -/

theorem detached_registered : Detached State.registered := by
  constructor <;> (try constructor) <;> intros <;> rfl

/-- A mapping of BARs leaves the registrations and the contexts as they are. -/
theorem mmap_bars_registered {vma : Vma} {env : MmapEnv} (hp : maps_bars x vma.vm_pgoff) :
    Preserves (fun _ => True) (mmap_file x vma env) State.registered := by
  have hbar : ∀ c w addr fail, Preserves (fun _ => True) (bafs_ctrl_mmap c w addr fail)
      State.registered := by
    intro c w addr fail
    refine .bind (bafs_get_ctrl_detached detached_registered c) fun _ => ?_
    refine .bind load_preserves fun z => ?_
    refine .bind (io_remap_pfn_range_quiet quiet_registered _ _ _ _ _ _) fun r => ?_
    exact .ite (.bind (bafs_ctrl_release_detached detached_registered c) fun _ => .pure _) (.pure _)
  cases x with
  | core c => exact hp.elim
  | ctrl y =>
    have hz : vma.vm_pgoff = 0 := hp
    show Preserves _ (__bafs_ctrl_mmap y vma env) _
    unfold __bafs_ctrl_mmap
    rw [if_pos hz]
    exact .bind (hbar _ _ _ _) fun _ => .pure _
  | group y =>
    have hz : vma.vm_pgoff = 0 := hp
    show Preserves _ (bafs_group_mmap y vma env) _
    unfold bafs_group_mmap
    rw [if_pos hz]
    refine .bind (bafs_get_group_detached detached_registered _) fun _ => ?_
    refine .bind load_preserves fun z => ?_
    have hloop : Preserves (fun _ => True) (group_mmap_loop env.bar z.ctrls.zipIdx vma)
        State.registered := by
      refine .iterate (fun ci acc => .bind (hbar _ _ _ _) fun r => ?_) _ _
      exact .ite (.pure _) (.pure _)
    refine .bind hloop fun r => ?_
    obtain ⟨acc, fail⟩ := r
    cases fail with
    | some ret =>
      exact .bind (bafs_put_group_detached detached_registered _) fun _ => .pure _
    | none => exact .bind (bafs_put_group_detached detached_registered _) fun _ => .pure _

/-- Without a registration the pin fails, and leaves everything as it is. -/
theorem pin_bafs_mem_unknown {c : CtxId} {y : BafsCtx} {vma : Vma} {env : PinEnv} {E : Fault → Prop}
    (hy : s.ctxs.get c = some y) (hpos : 0 < y.ref) (hno : pin_lookup y vma.vm_pgoff = none) :
    wp (pin_bafs_mem vma c env) E (fun r t => r = (vma, -EINVAL) ∧ t = s) s := by
  unfold pin_bafs_mem ctx_kref_get
  rw [wp_bind, wp_ctx_upd hy, wp_bind, wp_ctx_at (Heap.get_set_self hy), wp_bind,
    wp_put_ctx_kept (Heap.get_set_self hy) (by show y.ref + 1 ≠ 1; omega)]
  have hpin : pin_lookup { y with ref := y.ref + 1 } vma.vm_pgoff = none := hno
  rw [hpin]
  refine ⟨rfl, ?_⟩
  rw [Heap.set_set]
  simp only [Nat.add_sub_cancel]
  rw [Heap.set_self hy]

/-- Without BARs an mmap is a pin. -/
theorem mmap_file_pin {vma : Vma} {env : MmapEnv} {E : Fault → Prop} {Q : Vma × Int → State → Prop}
    (hp : ¬maps_bars x vma.vm_pgoff)
    (hw : wp (pin_bafs_mem vma x.ctx env.pin) E (fun r t => r.2 ≤ 0 ∧ Q r t) s) :
    wp (mmap_file x vma env) E Q s := by
  have hweak := wp_mono hw fun r t hr => hr.2
  cases x with
  | core c => exact hweak
  | ctrl y =>
    unfold mmap_file __bafs_ctrl_mmap
    exact wp_ite (fun hp' => absurd hp' hp) fun _ => hweak
  | group y =>
    unfold mmap_file bafs_group_mmap
    refine wp_ite (fun hp' => absurd hp' hp) fun _ => hw.bind fun r t hr => ?_
    obtain ⟨w, ret⟩ := r
    obtain ⟨hle, hq⟩ := hr
    refine wp_ite (fun _ => hq) fun hnn => ?_
    have hz : ret = 0 := by
      simp only at hle hnn
      omega
    rw [← hz]
    exact hq

/-- An offset selects the registrations of the context that have its index. -/
theorem At.pin_lookup_iff (hs : At h v s) {c : CtxId} {y : BafsCtx} {m : MemId}
    (hy : s.ctxs.get c = some y) : pin_lookup y p = some m ↔
      m ∈ y.mem_list ∧ ∃ z, s.mems.get m = some z ∧ z.mem_id = pin_id p := by
  rw [pin_lookup, hs.tablesAgree.stored c y m _ hy]
  constructor
  · rintro ⟨z, hz, hc, hid⟩
    exact ⟨(hs.mem_list_iff hy (hs.mem_view hz)).mpr hc, z, hz, hid⟩
  · rintro ⟨hm, z, hz, hid⟩
    exact ⟨z, hz, (hs.mem_list_iff hy (hs.mem_view hz)).mp hm, hid⟩

/-- The lookup is right exactly if the offset is plain. -/
theorem At.selected_iff (hs : At h v s) {c : CtxId} {y : BafsCtx} (hy : s.ctxs.get c = some y)
    (hlt : p < 2 ^ 64) :
    (∀ m, pin_lookup y p = some m ↔ m ∈ y.mem_list ∧ ∃ z, s.mems.get m = some z ∧ p = z.mem_id + 1) ↔
      (p ≤ 2 ^ 32 ∨ ∀ m z, s.mems.get m = some z → z.ctx = c → z.mem_id ≠ (p - 1) % 2 ^ 32) := by
  constructor
  · intro hall
    by_cases hp : p ≤ 2 ^ 32
    · exact .inl hp
    · refine .inr fun m z hz hc hid => ?_
      have hm := (hs.mem_list_iff hy (hs.mem_view hz)).mpr hc
      have hpin : z.mem_id = pin_id p := by rw [hid, pin_id_pos (by omega) hlt]
      obtain ⟨-, z', hz', hp'⟩ := (hall m).mp ((hs.pin_lookup_iff hy).mpr ⟨hm, z, hz, hpin⟩)
      have := hs.mem_id_lt hz'
      omega
  · intro hplain m
    rw [hs.pin_lookup_iff hy]
    refine and_congr_right fun hm => exists_congr fun z => and_congr_right fun hz => ?_
    have hid := hs.mem_id_lt hz
    rcases hplain with hp | hno
    · exact pin_id_eq_iff hp hid
    · constructor
      · intro he
        by_cases hp : p ≤ 2 ^ 32
        · exact (pin_id_eq_iff hp hid).mp he
        · rw [pin_id_pos (by omega) hlt] at he
          exact absurd he (hno m z hz ((hs.mem_list_iff hy (hs.mem_view hz)).mp hm))
      · intro he
        exact (pin_id_eq_iff (by omega) hid).mpr he

/-- An mmap does what its offset stands for exactly if the offset is plain. -/
theorem decodes_offset_iff {f : FileId} {mm : Nat} {env : MmapEnv} (hi : Inv s)
    (hx : s.files.get f = some x) (ha : a < 2 ^ 64) (hlt : p < 2 ^ 64) :
    DecodesOffset s x mm a b p env ↔ plain_offset s x p := by
  obtain ⟨h, hlost, hs⟩ := hi.sane.at
  have hctx := CtxHeld.of_file hlost.nonneg (v := s.view) hx
  obtain ⟨y, hy⟩ := hs.ctx_live hctx
  by_cases hp : maps_bars x p
  · have hplain : plain_offset s x p ↔ ¬group_gone s.view x :=
      ⟨fun hq => hq.1 hp, fun hg => ⟨fun _ => hg, fun hn => absurd hp hn⟩⟩
    rw [hplain]
    constructor
    · intro hw hg
      obtain ⟨r, t, -, hd⟩ := wp_ends hw
      obtain ⟨-, l, hl, -⟩ := hd.bars hp
      cases x with
      | group z => cases hl.symm.trans hg
      | _ => exact hg
    · intro hg
      have hrun : wp (mmap_file x (new_vma mm a b p) env) (fun _ => False) _ s :=
        mmap_file_spec hs hlost.nonneg hx ha rfl fun _ hg' => hg hg'
      have hasks : wp (mmap_file x (new_vma mm a b p) env) _ _ s := mmap_bars_asks hp ha
      have hbars := wp_and hasks (mmap_bars_registered (by exact hp) s)
      refine wp_mono (wp_and hrun hbars) fun r t ht => ?_
      obtain ⟨-, hasks, hreg⟩ := ht
      exact ⟨fun _ => ⟨hreg, hasks⟩, fun hn => absurd hp hn, fun hn => absurd hp hn⟩
  · have hplain : plain_offset s x p ↔ (p ≤ 2 ^ 32 ∨ ∀ m z, s.mems.get m = some z →
        z.ctx = x.ctx → z.mem_id ≠ (p - 1) % 2 ^ 32) :=
      ⟨fun hq => hq.2 hp, fun hq => ⟨fun hp' => absurd hp' hp, fun _ => hq⟩⟩
    rw [hplain, ← hs.selected_iff hy hlt]
    constructor
    · intro hw m
      obtain ⟨r, t, -, hd⟩ := wp_ends hw
      exact hd.selected hp y m hy
    · intro hsel
      refine mmap_file_pin hp ?_
      have hdec : ∀ {r t}, ((∀ m, pin_lookup y p ≠ some m) → r.2 < 0 ∧ t.registered = s.registered) →
          Decoded s x a p env r t := by
        intro r t hno
        refine ⟨fun hp' => absurd hp' hp, fun _ y' m hy' => ?_, fun _ hall => hno fun m hm => ?_⟩
        · rw [Option.some.inj (hy'.symm.trans hy)]
          exact hsel m
        · obtain ⟨hl, z, hz, he⟩ := (hsel m).mp hm
          exact hall m z hz ((hs.mem_list_iff hy (hs.mem_view hz)).mp hl) he
      cases hm : pin_lookup y p with
      | none =>
        refine wp_mono (pin_bafs_mem_unknown hy (hs.wf.ctx.pos _ y hy) hm) fun r t ht => ?_
        obtain ⟨rfl, rfl⟩ := ht
        have hret : -EINVAL < 0 := by decide
        exact ⟨hret.le, hdec fun _ => ⟨hret, rfl⟩⟩
      | some m =>
        have hvma : (new_vma mm a b p).remaps = [] := rfl
        refine wp_mono (pin_bafs_mem_spec hs hlost.nonneg hctx hvma) fun r t ht => ?_
        have hle : r.2 ≤ 0 := by
          obtain ⟨-, hr, -⟩ | ⟨_, _, -, -, ⟨-, hr, -⟩ | ⟨-, hr, -⟩⟩ := ht
          · exact hr.le
          · exact hr.le
          · exact hr.le
        exact ⟨hle, hdec fun hno => absurd hm (hno m)⟩

/-- Whether the offset `2 ^ 32 + 1` selects the registration with the index 0 through the file 0. -/
def selects_past_32_bits (s : State) : Bool :=
  (s.files.get 0).any fun f => decide (¬maps_bars f (2 ^ 32 + 1)) &&
    (s.ctxs.get f.ctx).any fun y => decide (pin_lookup y (2 ^ 32 + 1) = some 0) &&
      (s.mems.get 0).all fun z => decide (z.mem_id = 0)

end BafsDriver
