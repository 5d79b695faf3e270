import BafsDriver.Scenario
import BafsDriver.Proofs.GroupMapResult

/-!
# The capacity of the address buffer

A DMA-map request is given the number of addresses that the buffer of its caller holds. The driver
never reads it: it copies as many addresses as the mapping has. So nothing is written past the end of
the buffer exactly if what each controller is granted fits.
-/

set_option linter.style.nameCheck false

namespace BafsDriver

open Prog

variable {h : Held Kind} {v : View} {s s₁ t u : State}

/-! ## What is asked for -/

/-- The answers to the mapping for controller `i` of the file. -/
def map_env (x : File) (env : IoctlEnv) : Nat → DmaMapEnv :=
  match x with
  | .group _ => env.group_dma_map_mem.map
  | _ => fun _ => env.ctrl_dma_map_mem.map

/-- The number of controllers behind the file. -/
def n_ctrls (v : View) : File → Nat
  | .core _ => 0
  | .ctrl _ => 1
  | .group y => (v.group_ctrls y.group).elim 0 List.length

/-- The parameters are read, and a group has the memory for its list. -/
def started (env : IoctlEnv) : File → Prop
  | .core _ => False
  | .ctrl _ => env.ctrl_dma_map_mem.copy_from_user = true
  | .group _ => env.group_dma_map_mem.copy_from_user = true ∧ env.group_dma_map_mem.kzalloc = true

/-- The parameters, of three words, are written back. -/
def answered (env : IoctlEnv) : File → Prop
  | .group _ => min env.group_dma_map_mem.copy_to_user 3 = 0
  | _ => min env.ctrl_dma_map_mem.copy_to_user 3 = 0

/-- The driver writes no address but to the places of the caller's buffer; when more are needed than
it holds the request fails, and leaves no mapping behind. -/
structure Capacity (v : View) (s : State) (x : File) (arg : IoctlArg) (env : IoctlEnv) (ret : Int)
    (t : State) : Prop where
  in_range : ∃ new, addr_copies t = new ++ addr_copies s ∧ ∀ p ∈ new, ∀ j < p.2.length,
    ∃ k < arg.dma_map_mem.n_dma_addrs.toNat,
      u64 (p.1 + 8 * j) = u64 (arg.dma_map_mem.dma_addrs + 8 * k)
  refused : ∀ m f, Found v x.ctx arg.dma_map_mem.vaddr m → v.mems m = some f →
    arg.dma_map_mem.n_dma_addrs.toNat < all_entries f (map_env x env) (n_ctrls v x) →
    ret < 0 ∧ Undone s t

/-- A buffer of `c` addresses is large enough: each controller that is come to writes below its end,
reckoned with the count of the first controller, and where all are mapped and the caller is answered,
they have no more addresses in all. -/
structure Fits (f : BafsMem) (env : Nat → DmaMapEnv) (n c : Nat) (answered : Prop) : Prop where
  place : ∀ i < n, (∀ j < i, copied f (env j)) → ∀ j < entries f (env i) - (env i).copy_to_user,
    (u32 (entries f (env 0)) * i + j) % 2 ^ 61 < c
  total : (∀ j < n, copied f (env j)) → answered → all_entries f env n ≤ c

/-- The buffer is large enough for what the request, if it gets started, is granted. -/
def large_enough (v : View) (x : File) (arg : IoctlArg) (env : IoctlEnv) : Prop :=
  started env x → ∀ m f, Found v x.ctx arg.dma_map_mem.vaddr m → v.mems m = some f →
    Fits f (map_env x env) (n_ctrls v x) arg.dma_map_mem.n_dma_addrs.toNat (answered env x)

/-! ## How the request ends -/

/-- The request comes to nothing, or maps for the controllers one after another. -/
inductive MapAnswer (v : View) (s : State) (x : File) (arg : IoctlArg) (env : IoctlEnv) :
    Int → State → Prop
  | nothing {ret : Int} {t : State}
      (hn : (¬started env x ∧ ret < 0) ∨ ∀ m, ¬Found v x.ctx arg.dma_map_mem.vaddr m)
      (hcopies : addr_copies t = addr_copies s) (hundone : ret < 0 → Undone s t)
      (hu : Underway v.mems s t) :
      MapAnswer v s x arg env ret t
  | mapped {m : MemId} {f : BafsMem} {i : Nat} {ret : Int} {t : State} (hst : started env x)
      (hm : Found v x.ctx arg.dma_map_mem.vaddr m) (hf : v.mems m = some f) (hi : i ≤ n_ctrls v x)
      (hpass : ∀ j < i, copied f (map_env x env j))
      (hstop : i < n_ctrls v x → ¬copied f (map_env x env i))
      (hcopies : addr_copies t = group_copies f (map_env x env) arg.dma_map_mem.dma_addrs
        (min (i + 1) (n_ctrls v x)) ++ addr_copies s)
      (hret : 0 ≤ ret ↔ i = n_ctrls v x ∧ answered env x) (hundone : ret < 0 → Undone s t)
      (hu : Underway v.mems s t) :
      MapAnswer v s x arg env ret t

/-- Where a word goes, in the buffer of `c` places. -/
theorem place_iff {a q j c : Nat} (hc : c ≤ 2 ^ 61) :
    (∃ k < c, u64 (u64 (a + 8 * q) + 8 * j) = u64 (a + 8 * k)) ↔ (q + j) % 2 ^ 61 < c := by
  unfold u64
  constructor
  · rintro ⟨k, hk, he⟩
    have : (q + j) % 2 ^ 61 = k := by omega
    omega
  · intro hk
    exact ⟨(q + j) % 2 ^ 61, hk, by omega⟩

/-- The copies go to the places of the buffer exactly if each does. -/
theorem group_copies_in_range {f : BafsMem} {a n c : Nat} (env : Nat → DmaMapEnv) (hc : c ≤ 2 ^ 61) :
    (∀ p ∈ group_copies f env a n, ∀ j < p.2.length, ∃ k < c, u64 (p.1 + 8 * j) = u64 (a + 8 * k)) ↔
      ∀ i < n, ∀ j < entries f (env i) - (env i).copy_to_user,
        (u32 (entries f (env 0)) * i + j) % 2 ^ 61 < c := by
  have hlen : ∀ {i : Nat} {addrs : List Nat}, granted_addrs f (env i) = some addrs →
      (addrs.take (addrs.length - (env i).copy_to_user)).length =
        entries f (env i) - (env i).copy_to_user := by
    intro i addrs hg
    rw [List.length_take, entries, hg, Option.elim_some]
    omega
  constructor
  · intro hall i hi j hj
    cases hg : granted_addrs f (env i) with
    | none =>
      rw [entries, hg] at hj
      simp at hj
    | some addrs =>
      have hmem : (u64 (a + 8 * (u32 (entries f (env 0)) * i)),
          addrs.take (addrs.length - (env i).copy_to_user)) ∈ group_copies f env a n := by
        refine List.mem_reverse.mpr (List.mem_filterMap.mpr ⟨i, List.mem_range.mpr hi, ?_⟩)
        rw [group_copy, hg, Option.map_some]
      exact (place_iff hc).mp (hall _ hmem j (by rw [hlen hg]; exact hj))
  · intro hall p hp j hj
    obtain ⟨i, hi, hcopy⟩ := List.mem_filterMap.mp (List.mem_reverse.mp hp)
    obtain ⟨addrs, hg, rfl⟩ := Option.map_eq_some_iff.mp hcopy
    rw [hlen hg] at hj
    exact (place_iff hc).mpr (hall i (List.mem_range.mp hi) j hj)

/-- The claim on the buffer is met exactly if it is large enough. -/
theorem MapAnswer.capacity_iff {x : File} {arg : IoctlArg} {env : IoctlEnv} {ret : Int}
    (ha : MapAnswer v s x arg env ret t) :
    Capacity v s x arg env ret t ↔ large_enough v x arg env := by
  have hc : arg.dma_map_mem.n_dma_addrs.toNat ≤ 2 ^ 61 := by
    have := arg.dma_map_mem.n_dma_addrs.isLt
    omega
  cases ha with
  | nothing hn hcopies hundone =>
    have hrange : ∀ q : Prop, q → ∃ new, addr_copies t = new ++ addr_copies s ∧ ∀ p ∈ new,
        ∀ j < p.2.length, ∃ k < arg.dma_map_mem.n_dma_addrs.toNat,
          u64 (p.1 + 8 * j) = u64 (arg.dma_map_mem.dma_addrs + 8 * k) := fun _ _ =>
      ⟨[], hcopies, fun p hp => by cases hp⟩
    rcases hn with ⟨hst, hret⟩ | hm
    · refine ⟨fun _ hst' => absurd hst' hst, fun _ => ⟨hrange _ trivial, fun _ _ _ _ _ => ?_⟩⟩
      exact ⟨hret, hundone hret⟩
    · refine ⟨fun _ _ m f hm' => absurd hm' (hm m), fun _ => ⟨hrange _ trivial, ?_⟩⟩
      exact fun m f hm' => absurd hm' (hm m)
  | @mapped m f i ret t hst hm hf hi hpass hstop hcopies hret hundone =>
    have hreach : ∀ k, k < min (i + 1) (n_ctrls v x) ↔
        k < n_ctrls v x ∧ ∀ j < k, copied f (map_env x env j) := by
      intro k
      constructor
      · intro hk
        exact ⟨by omega, fun j hj => hpass j (by omega)⟩
      · rintro ⟨hk, hall⟩
        by_contra hge
        exact hstop (by omega) (hall i (by omega))
    have hfail : ret < 0 ↔ ¬(i = n_ctrls v x ∧ answered env x) := by
      rw [← hret]
      exact Int.not_le.symm
    have hrange := group_copies_in_range (f := f) (a := arg.dma_map_mem.dma_addrs)
      (n := min (i + 1) (n_ctrls v x)) (map_env x env) hc
    constructor
    · rintro ⟨⟨new, hnew, hin⟩, href⟩ _ m' f' hm' hf'
      obtain rfl := hm.unique hm'
      obtain rfl := Option.some.inj (hf.symm.trans hf')
      obtain rfl := List.append_cancel_right (hcopies.symm.trans hnew)
      have hin := hrange.mp hin
      refine ⟨fun k hk hall => hin k ((hreach k).mpr ⟨hk, hall⟩), fun hall hans => ?_⟩
      by_contra hlt
      have hneg := (href m f hm hf (Nat.not_le.mp hlt)).1
      refine hfail.mp hneg ⟨?_, hans⟩
      by_contra hne
      have hlt : i < n_ctrls v x := by omega
      exact hstop hlt (hall i hlt)
    · intro hlarge
      have hfits := hlarge hst m f hm hf
      refine ⟨⟨_, hcopies, hrange.mpr fun k hk => ?_⟩, fun m' f' hm' hf' hlt => ?_⟩
      · obtain ⟨hk, hall⟩ := (hreach k).mp hk
        exact hfits.place k hk hall
      · obtain rfl := hm.unique hm'
        obtain rfl := Option.some.inj (hf.symm.trans hf')
        have hneg : ret < 0 := by
          refine hfail.mpr fun ⟨hin, hans⟩ => ?_
          have := hfits.total (fun j hj => hpass j (hin ▸ hj)) hans
          omega
        exact ⟨hneg, hundone hneg⟩

theorem Underway.undone_at {M : MemId → Option BafsMem} {h' : Held Kind} (hu : Underway M s t)
    (hs : At h v s) (ht : At h' v t) : Undone s t := hu.undone (hs.no_new_dma ht)

theorem undone_self : Undone s s := Underway.refl (M := fun _ => none) |>.undone fun _ hd => hd

theorem u64_u64 (n : Nat) : u64 (u64 n) = u64 n := Nat.mod_mod _ _

theorem copy_params_bystander {left dst : Nat} {words : List Nat} :
    Adds bystander (copy_to_user left dst .params words) :=
  copy_to_user_adds fun _ => trivial

/-- A controller alone copies what the first controller of a group copies. -/
theorem MapResult.first_copy {c : CtrlId} {m : MemId} {x : BafsMem} {k : BafsCtrl} {n user id : Nat}
    {r : Int × Nat × Option DmaId} (env : Nat → DmaMapEnv)
    (hr : MapResult s c m x k n user id (env 0) r t) :
    addr_copies t = group_copies x.fields env user 1 ++ addr_copies s := by
  rw [hr.copies, group_copies_succ, group_copy, Nat.mul_zero, Nat.mul_zero, Nat.add_zero,
    granted_addrs_fields]
  exact congrArg (· ++ addr_copies s) (List.append_nil _).symm

/-- How a DMA-map request on a ctrl file ends. -/
theorem __bafs_ctrl_dma_map_mem_answer {y : BafsCtrlCtx} {arg : IoctlArg} {env : IoctlEnv}
    (hs : At h v s) (hh : NonNeg h) (hx : CtxHeld h v y.ctx) (hc : CtrlHeld h v y.ctrl)
    (hp : ∀ m f, v.mems m = some f → Paged f) :
    wp (__bafs_ctrl_dma_map_mem arg.argp arg.dma_map_mem y.ctrl y.ctx env.ctrl_dma_map_mem)
      (fun _ => True) (MapAnswer v s (.ctrl y) arg env) s := by
  unfold __bafs_ctrl_dma_map_mem
  refine wp_ite (fun hno => ?_) fun hst => ?_
  · refine .nothing (.inl ⟨fun hst => ?_, (by decide : -EFAULT < 0)⟩) rfl
      (fun _ => undone_self) .refl
    cases hno.symm.trans hst
  have hst : started env (.ctrl y) := Bool.eq_true_of_not_eq_false hst
  obtain ⟨z, hz⟩ := hs.ctx_live hx
  obtain ⟨k, hk⟩ := hs.ctrl_live hh hc
  by_cases hm : ∃ m, Found v y.ctx arg.dma_map_mem.vaddr m
  · obtain ⟨m, hm⟩ := hm
    obtain ⟨f, hf, -⟩ := hm.1
    obtain ⟨x, hxm, rfl⟩ := hs.mem_live hf
    have hdead : x.state ≠ .DEAD_CB := by
      obtain ⟨g, hg, -, -, -, hst⟩ := hm.1
      obtain rfl := Option.some.inj (hf.symm.trans hg)
      exact hst
    have hpage : Paged x := (hp m _ hf).of_fields
    refine (wp_and (bafs_ctrl_dma_map_mem_exact (E := fun _ => True) hs hz hk hm hxm hpage.fits
      fun _ _ => trivial) (bafs_ctrl_dma_map_mem_spec (E := fun _ => True) hs hh hx hc
        (fun _ _ _ _ _ => trivial) fun _ _ _ _ _ => trivial)).bind fun r s₁ hr => ?_
    obtain ⟨hr, hspec⟩ := hr
    have hu : Underway v.mems s s₁ := Underway.refl.map hr hf hpage hdead
    have hcopies : addr_copies s₁ = _ ++ addr_copies s :=
      hr.first_copy (map_env (.ctrl y) env)
    obtain ⟨hcopied, rfl⟩ | ⟨hnot, hret, hnone⟩ := hr.outcome
    · obtain ⟨-, hnone, -⟩ | ⟨m', d, hm', -, hd, hfree, hs₁⟩ := hspec
      · cases hnone
      obtain rfl := Option.some.inj hd
      have hD := Mapped.nil.add hfree hm' y.ctrl
      have hmem : s.dmas.next ∈ [] ++ [s.dmas.next] := List.mem_singleton.mpr rfl
      have hpass : ∀ j < 1, copied x.fields (map_env (.ctrl y) env j) := fun _ _ => hcopied
      refine (wp_and (copy_to_user_spec hs₁ env.ctrl_dma_map_mem.copy_to_user arg.argp .params _)
        (copy_params_bystander s₁)).bind fun left s₂ hs₂ => ?_
      obtain ⟨⟨rfl, hs₂⟩, hg₂⟩ := hs₂
      have hcopies₂ := (hg₂.calls fun _ => bystander_addr_copy).trans hcopies
      refine wp_ite (fun hleft => ?_) fun hleft => ?_
      · obtain ⟨hnone, a, ha⟩ := hD.live hs hs₂ hmem
        obtain ⟨-, m₀, c₀, hd₀, ⟨f₀, hf₀, -⟩, -⟩ := hD.new _ hmem
        refine (wp_and (bafs_ctrl_dma_unmap_mem_spec hs₂ hh hd₀ hf₀) (bafs_ctrl_dma_unmap_mem_underway
          hs₂ (hu.grows hg₂) hnone ha)).bind fun _ s₃ hs₃ => ?_
        obtain ⟨hs₃, hu₃, hcopies₃⟩ := hs₃
        rw [View.drop_add_dma hfree] at hs₃
        refine .mapped hst hm hf (le_refl 1) hpass (fun hlt => absurd hlt (lt_irrefl _))
          (hcopies₃.trans hcopies₂) ?_ (fun _ => hu₃.undone_at hs hs₃) hu₃
        exact ⟨fun hret => absurd hret (by decide : ¬0 ≤ -EFAULT), fun hans => absurd hans.2 hleft⟩
      · refine .mapped hst hm hf (le_refl 1) hpass (fun hlt => absurd hlt (lt_irrefl _)) hcopies₂ ?_
          (fun hneg => absurd hneg (lt_irrefl 0)) (hu.grows hg₂)
        exact ⟨fun _ => ⟨rfl, not_not.mp hleft⟩, fun _ => le_rfl⟩
    · obtain ⟨ret, n, d⟩ := r
      obtain rfl : d = none := hnone
      have hret : ret < 0 := hret
      obtain ⟨-, -, hs₁⟩ | ⟨_, _, _, _, hd, _⟩ := hspec
      · refine .mapped (i := 0) hst hm hf (Nat.zero_le 1) (fun j hj => by cases hj) (fun _ => hnot)
          hcopies ?_ (fun _ => hu.undone_at hs hs₁) hu
        exact ⟨fun hpos => absurd hpos (not_le.mpr hret), fun hi => by cases hi.1⟩
      · cases hd
  · refine (bafs_ctrl_dma_map_mem_none (E := fun _ => True) hs hz (not_exists.mp hm)).bind
      fun r s₁ hr => ?_
    obtain ⟨rfl, rfl⟩ := hr
    exact .nothing (.inr (not_exists.mp hm)) rfl (fun _ => undone_self) .refl

/-- Without a registration the loop over the controllers fails at the first of them. -/
theorem group_map_loop_none {ctx : CtxId} {vaddr dma_addrs n : Nat} {env : Nat → DmaMapEnv}
    {ctrls : List CtrlId} {E : Fault → Prop} (hs : At h v s) (hx : CtxHeld h v ctx)
    (hno : ∀ m, ¬Found v ctx vaddr m) :
    wp (group_map_loop ctx vaddr dma_addrs env ctrls.zipIdx ⟨n, 0, []⟩) E (fun r t =>
      t = s ∧ r.1.dmas = [] ∧ ∀ ret, r.2 = some ret → ret < 0) s := by
  obtain ⟨z, hz⟩ := hs.ctx_live hx
  unfold group_map_loop
  refine wp_iterate_zipIdx (fun _ acc t => t = s ∧ acc.dmas = []) (fun i c acc t _ hinv => ?_)
    (fun acc t hinv => ⟨hinv.1, hinv.2, fun ret hr => by cases hr⟩) ⟨rfl, rfl⟩
  obtain ⟨rfl, hds⟩ := hinv
  refine (bafs_ctrl_dma_map_mem_none hs hz hno).bind fun r t₁ hr => ?_
  obtain ⟨rfl, rfl⟩ := hr
  refine ⟨rfl, hds, fun ret hret => ?_⟩
  obtain rfl := Option.some.inj hret
  decide

/-- How a DMA-map request on a group file ends. -/
theorem bafs_group_dma_map_mem_answer {y : BafsGroupCtx} {arg : IoctlArg} {env : IoctlEnv}
    (hs : At h v s) (hh : NonNeg h) (hx : CtxHeld h v y.ctx)
    (hp : ∀ m f, v.mems m = some f → Paged f) :
    wp (bafs_group_dma_map_mem arg.argp arg.dma_map_mem y.group y.ctx env.group_dma_map_mem)
      (fun _ => True) (MapAnswer v s (.group y) arg env) s := by
  have hearly : ∀ {ret : Int} {t : State}, ¬started env (.group y) → ret < 0 → t = s →
      MapAnswer v s (.group y) arg env ret t := by
    rintro ret t hst hret rfl
    exact .nothing (.inl ⟨hst, hret⟩) rfl (fun _ => undone_self) .refl
  unfold bafs_group_dma_map_mem
  refine wp_ite (fun hno => ?_) fun hst => ?_
  · exact hearly (fun hst => by cases hno.symm.trans hst.1) (by decide : -EFAULT < 0) rfl
  rw [wp_bind]
  refine wp_load_of (fun _ => trivial) fun g hg => ?_
  cases hz : env.group_dma_map_mem.kzalloc with
  | false =>
    rw [wp_bind, wp_kzalloc, if_neg (by simp)]
    exact hearly (fun hst => by cases hz.symm.trans hst.2) (by decide : -ENOMEM < 0) rfl
  | true =>
  have hst : started env (.group y) := ⟨Bool.eq_true_of_not_eq_false hst, hz⟩
  have hn : n_ctrls v (.group y) = g.ctrls.length := by
    show (v.group_ctrls y.group).elim 0 List.length = _
    rw [hs.group_view hg, Option.elim_some]
  have hc : ∀ c ∈ g.ctrls, CtrlHeld h v c := fun c hc => .inr ⟨y.group, g.ctrls, hs.group_view hg, hc⟩
  refine (wp_and (kzalloc_spec hs true) (kzalloc_adds (A := bystander) s)).bind fun r s₁ hr => ?_
  obtain ⟨⟨hr, hs₁⟩, hg₁⟩ := hr
  obtain ⟨blk, rfl⟩ := Option.isSome_iff_exists.mp hr.symm
  have hcopies₁ : addr_copies s₁ = addr_copies s := hg₁.calls fun _ => bystander_addr_copy
  dsimp only
  by_cases hm : ∃ m, Found v y.ctx arg.dma_map_mem.vaddr m
  · obtain ⟨m, hm⟩ := hm
    obtain ⟨f, hf, -⟩ := hm.1
    refine (group_map_loop_result (E := fun _ => True) hs₁ hh hx hc hm hf (hp m f hf)
      fun _ _ => trivial).bind fun r t hr => ?_
    obtain ⟨hend, hu, D, hD, ht⟩ := hr
    have hu : Underway v.mems s t := hu.after hg₁
    rw [← hn] at hend
    cases hend with
    | @all acc _ hall _ hcopies =>
      rw [hcopies₁] at hcopies
      dsimp only
      refine (wp_and (copy_to_user_spec ht env.group_dma_map_mem.copy_to_user arg.argp .params _)
        (copy_params_bystander t)).bind fun left t₁ ht₁ => ?_
      obtain ⟨⟨rfl, ht₁⟩, hg₂⟩ := ht₁
      have hcopies₂ : addr_copies t₁ = group_copies f (map_env (.group y) env)
          arg.dma_map_mem.dma_addrs (min (n_ctrls v (.group y) + 1) (n_ctrls v (.group y))) ++
            addr_copies s := by
        rw [min_eq_right (Nat.le_succ _)]
        exact (hg₂.calls fun _ => bystander_addr_copy).trans hcopies
      refine wp_ite (fun hleft => ?_) fun hleft => ?_
      · refine (unmap_mems_underway hs hD ht₁ hh (hu.grows hg₂)).bind fun _ t₂ ht₂ => ?_
        obtain ⟨hu₂, ht₂, hcopies₃⟩ := ht₂
        refine .mapped hst hm hf le_rfl hall (fun hlt => absurd hlt (lt_irrefl _))
          (hcopies₃.trans hcopies₂) ?_ (fun _ => hu₂.undone_at hs ht₂) hu₂
        exact ⟨fun hret => absurd hret (by decide : ¬0 ≤ -EFAULT), fun hans => absurd hans.2 hleft⟩
      · refine .mapped hst hm hf le_rfl hall (fun hlt => absurd hlt (lt_irrefl _)) hcopies₂ ?_
          (fun hneg => absurd hneg (lt_irrefl 0)) (hu.grows hg₂)
        exact ⟨fun _ => ⟨rfl, not_not.mp hleft⟩, fun _ => le_rfl⟩
    | @failed acc ret i _ hi hret hpass hnot hcopies =>
      rw [hcopies₁] at hcopies
      refine (unmap_mems_underway hs hD ht hh hu).bind fun _ t₁ ht₁ => ?_
      obtain ⟨hu₁, ht₁, hcopies₂⟩ := ht₁
      refine .mapped hst hm hf hi.le hpass (fun _ => hnot) ?_ ?_
        (fun _ => hu₁.undone_at hs ht₁) hu₁
      · rw [min_eq_left hi]
        exact hcopies₂.trans hcopies
      · exact ⟨fun hpos => absurd hpos (not_le.mpr hret), fun hans => absurd hi (by omega)⟩
  · have hno := not_exists.mp hm
    have hnothing : ∀ {ret : Int} {t : State}, Underway v.mems s t → At h v t →
        addr_copies t = addr_copies s → MapAnswer v s (.group y) arg env ret t :=
      fun hu ht hcopies => .nothing (.inr hno) hcopies (fun _ => hu.undone_at hs ht) hu
    have hback : ∀ {ret : Int} {t : State}, Grows bystander s₁ t → At h v t →
        wp (do unmap_mems [] blk; pure ret) (fun _ => True) (MapAnswer v s (.group y) arg env) t := by
      intro ret t hg ht
      have hu : Underway v.mems s t := (Underway.refl.grows hg).after hg₁
      have hnil : Mapped v y.ctx arg.dma_map_mem.vaddr [] v.dmas := .nil
      refine (unmap_mems_underway hs hnil ht hh hu).bind fun _ t₁ ht₁ => ?_
      obtain ⟨hu₁, ht₁, hcopies⟩ := ht₁
      exact hnothing hu₁ ht₁ (hcopies.trans
        ((hg.calls fun _ => bystander_addr_copy).trans hcopies₁))
    refine (group_map_loop_none (E := fun _ => True) hs₁ hx hno).bind fun r t hr => ?_
    obtain ⟨acc, fail⟩ := r
    obtain ⟨rfl, hds, -⟩ := hr
    have hds : acc.dmas = [] := hds
    cases fail with
    | some ret =>
      dsimp only
      rw [hds]
      exact hback (Std.Refl.refl _) hs₁
    | none =>
      dsimp only
      rw [hds]
      refine (wp_and (copy_to_user_spec hs₁ env.group_dma_map_mem.copy_to_user arg.argp .params _)
        (copy_params_bystander t)).bind fun left t₁ ht₁ => ?_
      obtain ⟨⟨-, ht₁⟩, hg₂⟩ := ht₁
      refine wp_ite (fun _ => hback hg₂ ht₁) fun _ => ?_
      exact hnothing ((Underway.refl.grows hg₂).after hg₁) ht₁
        ((hg₂.calls fun _ => bystander_addr_copy).trans hcopies₁)

/-! ## Requests -/

theorem Undone.after (hu : Undone t u) (hg : Grows no_call s t) : Undone s u := by
  obtain ⟨hd, hm⟩ := Prod.mk.inj (hg.still fun _ he => he)
  refine ⟨hd ▸ hu.dmas, fun e => ?_, hm ▸ hu.mappings⟩
  rw [← hg.calls (p := mapped_single) fun _ he => he.elim,
    ← hg.calls (p := unmapped_single) fun _ he => he.elim]
  exact hu.singles e

theorem Undone.before (hu : Undone s t) (hg : Grows no_call t u) : Undone s u := by
  obtain ⟨hd, hm⟩ := Prod.mk.inj (hg.still fun _ he => he)
  obtain ⟨l, hl, -⟩ := hg.trace
  refine ⟨hd ▸ hu.dmas, fun e => ?_, fun p hp hp' => ?_⟩
  · rw [hg.calls (p := mapped_single) fun _ he => he.elim,
      hg.calls (p := unmapped_single) fun _ he => he.elim]
    exact hu.singles e
  · rw [hm] at hp'
    exact (hu.mappings p hp hp').of_suffix hl

theorem MapAnswer.after {x : File} {arg : IoctlArg} {env : IoctlEnv} {ret : Int}
    (ha : MapAnswer v t x arg env ret u) (hg : Grows no_call s t) : MapAnswer v s x arg env ret u := by
  have hcopies : addr_copies t = addr_copies s := hg.calls fun _ he => he.elim
  cases ha with
  | nothing hn hc hundone hu =>
    exact .nothing hn (hc.trans hcopies) (fun hret => (hundone hret).after hg) (hu.after hg.of_none)
  | mapped hst hm hf hi hpass hstop hc hret hundone hu =>
    rw [hcopies] at hc
    exact .mapped hst hm hf hi hpass hstop hc hret (fun hret => (hundone hret).after hg)
      (hu.after hg.of_none)

theorem MapAnswer.before {x : File} {arg : IoctlArg} {env : IoctlEnv} {ret : Int}
    (ha : MapAnswer v s x arg env ret t) (hg : Grows no_call t u) : MapAnswer v s x arg env ret u := by
  have hcopies : addr_copies u = addr_copies t := hg.calls fun _ he => he.elim
  cases ha with
  | nothing hn hc hundone hu =>
    exact .nothing hn (hcopies.trans hc) (fun hret => (hundone hret).before hg) (hu.grows hg.of_none)
  | mapped hst hm hf hi hpass hstop hc hret hundone hu =>
    exact .mapped hst hm hf hi hpass hstop (hcopies.trans hc) hret
      (fun hret => (hundone hret).before hg) (hu.grows hg.of_none)

/-- A return code above 0 is reported as 0: none of them is. -/
theorem MapAnswer.reply {x : File} {arg : IoctlArg} {env : IoctlEnv} {ret : Int}
    (ha : MapAnswer v s x arg env ret t) : MapAnswer v s x arg env (min ret 0) t := by
  have hneg : ∀ {r : Int}, min r 0 < 0 → r < 0 := by
    intro r hr
    omega
  cases ha with
  | nothing hn hc hundone hu =>
    refine .nothing (hn.imp_left fun hn => ⟨hn.1, ?_⟩) hc (fun hret => hundone (hneg hret)) hu
    exact lt_of_le_of_lt (min_le_left _ _) hn.2
  | mapped hst hm hf hi hpass hstop hc hret hundone hu =>
    refine .mapped hst hm hf hi hpass hstop hc ?_ (fun hret => hundone (hneg hret)) hu
    rw [← hret]
    omega

/-- How a DMA-map request ends, if it does. -/
theorem ioctl_map_answer {i cmd : Nat} {x : File} {arg : IoctlArg} {env : IoctlEnv} (hs : At h v s)
    (hh : NonNeg h) (hi : v.files.get i = some x) (hcmd : dma_map_cmd x = some cmd)
    (hp : ∀ m f, v.mems m = some f → Paged f) :
    wp (ioctl_file x cmd arg env) (fun _ => True) (fun r t => MapAnswer v s x arg env r.ret t) s := by
  refine wp_mono (ioctl_dma_map (Q := MapAnswer v s x arg env) hs hh hi hcmd
    (fun _ s₁ s₂ hg ha => ha.before hg) fun h₁ s₁ hs₁ hh₁ hx hc hg => ?_) fun r t hr => ?_
  · cases x with
    | core c => cases hcmd
    | ctrl y =>
      exact wp_mono (__bafs_ctrl_dma_map_mem_answer hs₁ hh₁ hx (hc _ (.of_file hh hi)) hp)
        fun ret t ha => ha.after hg
    | group y =>
      exact wp_mono (bafs_group_dma_map_mem_answer hs₁ hh₁ hx hp) fun ret t ha => ha.after hg
  · obtain ⟨ret, hret, ha⟩ := hr
    rw [hret]
    exact ha.reply

/-- Where the page table is missing nothing is granted, and any buffer is large enough. -/
theorem fits_of_missing {f : BafsMem} {env : Nat → DmaMapEnv} {n c : Nat} {p : Prop}
    (ht : missing_table f) : Fits f env n c p := by
  have hnone : ∀ i, granted_addrs f (env i) = none := by
    intro i
    cases hg : granted_addrs f (env i) with
    | none => rfl
    | some addrs =>
      obtain hsome | hz := granted_has_table ht.1 hg
      · rw [ht.2.1] at hsome
        cases hsome
      · exact absurd hz ht.2.2
  refine ⟨fun i _ _ j hj => ?_, fun hall _ => ?_⟩
  · rw [entries, hnone] at hj
    simp at hj
  · cases n with
    | zero => exact Nat.zero_le _
    | succ n =>
      obtain ⟨addrs, hg, -⟩ := hall 0 (Nat.succ_pos n)
      cases (hnone 0).symm.trans hg

/-- A DMA-map request that gets stuck has a buffer that is large enough. -/
theorem large_enough_of_stuck {i cmd : Nat} {x : File} {arg : IoctlArg} {env : IoctlEnv} {e : Fault}
    (hst : Stuck v s (.ioctl i cmd arg env) e) (hx : v.files.get i = some x)
    (hcmd : dma_map_cmd x = some cmd) (ht : Tidy v) : large_enough v x arg env := by
  cases hst with
  | table_short hr hm hf => exact absurd (ht.fits _ _ hm) hf
  | vma_freed hr hm => cases hr
  | group_freed hr hx' hg hp =>
    obtain rfl := Option.some.inj hr
    obtain rfl := Option.some.inj (hx.symm.trans hx')
    intro hst m f _ _
    cases x with
    | core c => cases hcmd
    | ctrl y => exact hg.elim
    | group y =>
      have hn : n_ctrls v (.group y) = 0 := by
        show (v.group_ctrls y.group).elim 0 List.length = 0
        rw [show v.group_ctrls y.group = none from hg]
        rfl
      rw [hn]
      exact ⟨fun i hi => absurd hi (Nat.not_lt_zero i), fun _ _ => Nat.zero_le _⟩
  | wrong_type hx' =>
    cases hx.symm.trans hx'
    cases hcmd
  | wrong_table hx' hcmd' hm =>
    obtain ⟨m, f, -, hf, hbad⟩ := hm
    exact absurd (ht.fits m f hf) hbad
  | null_page_table hx' hcmd' hm =>
    obtain rfl := Option.some.inj (hx.symm.trans hx')
    obtain ⟨m, f, hm, hf, hmiss⟩ := hm
    intro _ m' f' hm' hf'
    obtain rfl := hm.unique hm'
    obtain rfl := Option.some.inj (hf.symm.trans hf')
    exact fits_of_missing hmiss

/-- In every state that a run reaches, a DMA-map request keeps to its buffer, and fails and undoes its
mappings when the buffer is too small, exactly if the buffer is large enough for what it is granted. -/
theorem address_buffer (rs : List Request) : Always step (fun _ => True) (fun s =>
    ∀ i x cmd arg env, s.files.get i = some x → dma_map_cmd x = some cmd →
      (wp (ioctl_file x cmd arg env) (fun _ => True)
        (fun r t => Capacity s.view s x arg env r.ret t) s ↔ large_enough s.view x arg env)) rs init := by
  refine always_of_inv (fun s hi i x cmd arg env hx hcmd => ?_) rs
  obtain ⟨h, hl, hs⟩ := hi.sane.at
  have hanswer : wp (ioctl_file x cmd arg env) _ _ s :=
    ioctl_map_answer hs hl.nonneg hx hcmd fun m f hf => hi.tidy.paged hf
  refine ⟨fun hcap => ?_, fun hlarge => wp_mono hanswer fun r t ha => ha.capacity_iff.mpr hlarge⟩
  have hboth := wp_and (wp_and (ioctl_file_spec hs hl hx) hanswer) hcap
  have hends : wp (ioctl_file x cmd arg env) (fun _ => True) (fun _ _ => True) s := wp_true
  by_contra hnot
  obtain ⟨r, t, ⟨⟨-, ha⟩, hc⟩, -⟩ := wp_join hboth hends fun e he _ =>
    hnot (large_enough_of_stuck he hx hcmd hi.tidy)
  exact hnot (ha.capacity_iff.mp hc)

/-- A registration of two pages is mapped for DMA with a buffer for one address. -/
def two_pages : List Request :=
  [.bind 0 0x1000 0x1000, .open_ctrl 0 a_task granted_open,
    .reg_mem 0 BAFS_CTRL_IOC_REG_MEM 8192 BAFS_MEM_CPU, .map 0 0x10000 2 1]

def one_place : IoctlArg :=
  { no_arg with dma_map_mem := { vaddr := 0x10000, dma_addrs := 0, n_dma_addrs := 1 } }

/-- Whether the request copies two addresses to the buffer, the first ones of all. -/
def copies_two (s : State) : Bool :=
  match s.files.get 0 with
  | some (.ctrl y) =>
    match ioctl_file (.ctrl y) BAFS_CTRL_IOC_DMA_MAP_MEM one_place granted_ioctl s with
    | .ok (_, t) => decide (addr_copies s = [] ∧ addr_copies t = [(0, [0, 4096])])
    | .error _ => false
  | _ => false

/-- Two addresses are copied to the buffer. -/
theorem two_pages_overrun : ¬Always step (fun _ => True) (fun s => ∀ i x cmd arg env,
    s.files.get i = some x → dma_map_cmd x = some cmd → wp (ioctl_file x cmd arg env) (fun _ => True)
      (fun r t => Capacity s.view s x arg env r.ret t) s) two_pages init := by
  intro h
  obtain ⟨s, hcap, hcopies⟩ := h.of_ends (p := copies_two) (by decide +kernel)
  unfold copies_two at hcopies
  cases hx : s.files.get 0 with
  | none =>
    rw [hx] at hcopies
    cases hcopies
  | some x =>
  rw [hx] at hcopies
  cases x with
  | core c => cases hcopies
  | group y => cases hcopies
  | ctrl y =>
  have hcap := hcap 0 _ _ one_place granted_ioctl hx rfl
  dsimp only at hcopies
  cases hr : ioctl_file (.ctrl y) BAFS_CTRL_IOC_DMA_MAP_MEM one_place granted_ioctl s with
  | error e =>
    rw [hr] at hcopies
    cases hcopies
  | ok q =>
  rw [hr] at hcopies
  obtain ⟨hs, ht⟩ := of_decide_eq_true hcopies
  obtain ⟨new, hnew, hin⟩ := (wp_ok hcap hr).in_range
  rw [hs, List.append_nil, ht] at hnew
  obtain ⟨k, hk, he⟩ := hin (0, [0, 4096]) (hnew ▸ List.mem_cons_self) 1 (by decide)
  have hk : k < 1 := hk
  obtain rfl : k = 0 := by omega
  cases he

end BafsDriver
