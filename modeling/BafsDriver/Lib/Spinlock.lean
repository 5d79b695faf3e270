import BafsDriver.Lib.Script
import Mathlib.Data.List.Nodup

/-!
# Threads that take locks in an order

The threads share a table of the locks that are taken, each with the thread that took it. Every lock
has a rank. A thread is orderly if it takes only locks of a higher rank than those it holds, gives
back what it took, and ends with nothing. Then no thread waits for itself, and as long as one of them
is not done, one of them can go on.
-/

open Prog

/-- A state with the table of the locks that are taken. -/
structure Locked (σ L : Type) where
  state : σ
  taken : List (L × Nat)

/-- What a step does with the table. -/
inductive LockStep (L : Type) where
  | none
  | lock (l : L)
  | unlock (l : L)

namespace LockStep

variable {L : Type} [DecidableEq L]

/-- The table after the step of the thread `me`. -/
def table (me : Nat) : LockStep L → List (L × Nat) → List (L × Nat)
  | .none, taken => taken
  | .lock l, taken => (l, me) :: taken
  | .unlock l, taken => taken.erase (l, me)

/-- What the thread holds after the step. -/
def held : LockStep L → List L → List L
  | .none, ls => ls
  | .lock l, ls => l :: ls
  | .unlock l, ls => ls.erase l

/-- The step may be taken by a thread that holds the locks `ls`. -/
def allowed (rank : L → Nat) : LockStep L → List L → Prop
  | .none, _ => True
  | .lock l, ls => ∀ l' ∈ ls, rank l' < rank l
  | .unlock l, ls => l ∈ ls

theorem allowed.nodup {rank : L → Nat} {a : LockStep L} {ls : List L} (ha : a.allowed rank ls)
    (hls : ls.Nodup) : (a.held ls).Nodup := by
  cases a with
  | none => exact hls
  | lock l => exact List.nodup_cons.mpr ⟨fun hl => Nat.lt_irrefl _ (ha l hl), hls⟩
  | unlock l => exact hls.erase l

end LockStep

namespace Script

variable {σ ε μ α β L : Type} [DecidableEq L] {act : μ → LockStep L} {rank : L → Nat} {me : Nat}
  {ls : List L}

/-- The next step of the script. -/
def head (act : μ → LockStep L) : Script σ ε μ α → LockStep L
  | done _ => .none
  | step p _ _ => act p

/-- The script of the thread `me`, which holds the locks `ls`, takes locks in their order; it ends with
a result and the locks of which `Q` holds. -/
def Orderly (act : μ → LockStep L) (rank : L → Nat) (me : Nat) (Q : α → List L → Prop) :
    Script (Locked σ L) ε μ α → List L → Prop
  | done a, ls => Q a ls
  | step p c k, ls => (act p).allowed rank ls ∧ ∀ s, wp c (fun _ => True) (fun b s' =>
    s'.taken = (act p).table me s.taken ∧ Orderly act rank me Q (k b) ((act p).held ls)) s

section Orderly

variable {Q Q' : α → List L → Prop}

theorem Orderly.mono {t : Script (Locked σ L) ε μ α} (ht : Orderly act rank me Q t ls)
    (hQ : ∀ a ls, Q a ls → Q' a ls) : Orderly act rank me Q' t ls := by
  induction t generalizing ls with
  | done a => exact hQ a ls ht
  | step p c k ih => exact ⟨ht.1, fun s => wp_mono (ht.2 s) fun b _ hb => ⟨hb.1, ih b hb.2⟩⟩

theorem orderly_pure {a : α} (ha : Q a ls) :
    Orderly act rank me Q (pure a : Script (Locked σ L) ε μ α) ls := ha

theorem Orderly.bind {R : β → List L → Prop} {t : Script (Locked σ L) ε μ β}
    {f : β → Script (Locked σ L) ε μ α} (ht : Orderly act rank me R t ls)
    (hf : ∀ b ls, R b ls → Orderly act rank me Q (f b) ls) : Orderly act rank me Q (t >>= f) ls := by
  induction t generalizing ls with
  | done b => exact hf b ls ht
  | step p c k ih => exact ⟨ht.1, fun s => wp_mono (ht.2 s) fun b _ hb => ⟨hb.1, ih b hb.2⟩⟩

/-- The first script ends with the locks that the second begins with. -/
theorem Orderly.seq {ls' : List L} {t : Script (Locked σ L) ε μ β}
    {f : β → Script (Locked σ L) ε μ α} (ht : Orderly act rank me (fun _ ls₁ => ls₁ = ls') t ls)
    (hf : ∀ b, Orderly act rank me Q (f b) ls') : Orderly act rank me Q (t >>= f) ls := by
  refine ht.bind ?_
  rintro b _ rfl
  exact hf b

theorem orderly_ite {b : Prop} [Decidable b] {t t' : Script (Locked σ L) ε μ α}
    (ht : b → Orderly act rank me Q t ls) (ht' : ¬b → Orderly act rank me Q t' ls) :
    Orderly act rank me Q (if b then t else t') ls := by
  by_cases hb : b
  · rw [if_pos hb]
    exact ht hb
  · rw [if_neg hb]
    exact ht' hb

/-- A loop that ends each time with the locks it began with. -/
theorem orderly_each {body : β → Script (Locked σ L) ε μ Unit}
    (h : ∀ b, Orderly act rank me (fun _ ls' => ls' = ls) (body b) ls) (l : List β) :
    Orderly act rank me (fun _ ls' => ls' = ls) (each body l) ls := by
  induction l with
  | nil => rfl
  | cons b bs ih =>
    refine (h b).bind fun _ ls' hls => ?_
    rw [hls]
    exact ih

theorem orderly_iterate {ρ γ : Type} {body : β → γ → Script (Locked σ L) ε μ (γ × Option ρ)}
    (h : ∀ b a, Orderly act rank me (fun _ ls' => ls' = ls) (body b a) ls) (l : List β) (a : γ) :
    Orderly act rank me (fun _ ls' => ls' = ls) (iterate body l a) ls := by
  induction l generalizing a with
  | nil => rfl
  | cons b bs ih =>
    refine (h b a).bind fun r ls' hls => ?_
    obtain ⟨a', o⟩ := r
    rw [hls]
    cases o with
    | none => exact ih a'
    | some e => rfl

end Orderly

/-! ## All threads -/

/-- Whether the script is done. -/
def isDone (t : Script σ ε μ α) : Prop := ∃ a, t = done a

/-- The thread waits for a lock that is taken. -/
def Waits (act : μ → LockStep L) (t : Script (Locked σ L) ε μ α) (taken : List (L × Nat)) : Prop :=
  ∃ l i, t.head act = .lock l ∧ (l, i) ∈ taken

/-- No thread asks for a lock of the rank of one that it holds, or of a lower rank; one of the threads
that are not done can go on; and the threads that are done hold nothing. -/
structure Ordered (act : μ → LockStep L) (rank : L → Nat) (ts : List (Script (Locked σ L) ε μ α))
    (s : Locked σ L) : Prop where
  above : ∀ (i : Nat) t l l', ts[i]? = some t → t.head act = .lock l → (l', i) ∈ s.taken → rank l' < rank l
  goes_on : ∀ (i : Nat) t, ts[i]? = some t → ¬isDone t →
    ∃ (j : Nat) (u : _), ts[j]? = some u ∧ ¬isDone u ∧ ¬Waits act u s.taken
  empty : (∀ t ∈ ts, isDone t) → s.taken = []

/-- The threads are orderly, and the table shows what they hold. -/
structure AllOrderly (act : μ → LockStep L) (rank : L → Nat) (ts : List (Script (Locked σ L) ε μ α))
    (hs : List (List L)) (s : Locked σ L) : Prop where
  length : hs.length = ts.length
  orderly : ∀ i t ls, ts[i]? = some t → hs[i]? = some ls →
    Orderly act rank i (fun _ ls => ls = []) t ls
  nodup : ∀ ls ∈ hs, ls.Nodup
  once : s.taken.Nodup
  table : ∀ l i, (l, i) ∈ s.taken ↔ ∃ ls, hs[i]? = some ls ∧ l ∈ ls

section All

variable {ts : List (Script (Locked σ L) ε μ α)} {hs : List (List L)} {s : Locked σ L} {i : Nat}

theorem AllOrderly.at (h : AllOrderly act rank ts hs s) {t : Script (Locked σ L) ε μ α}
    (ht : ts[i]? = some t) : ∃ ls, hs[i]? = some ls ∧ Orderly act rank i (fun _ ls => ls = []) t ls := by
  obtain ⟨hlt, -⟩ := List.getElem?_eq_some_iff.mp ht
  have hlt : i < hs.length := h.length ▸ hlt
  exact ⟨_, List.getElem?_eq_getElem hlt, h.orderly i t _ ht (List.getElem?_eq_getElem hlt)⟩

/-- A thread that holds a lock is not done. -/
theorem AllOrderly.running (h : AllOrderly act rank ts hs s) {l : L} (hl : (l, i) ∈ s.taken) :
    ∃ t, ts[i]? = some t ∧ ¬isDone t := by
  obtain ⟨ls, hls, hmem⟩ := (h.table l i).mp hl
  obtain ⟨hlt, -⟩ := List.getElem?_eq_some_iff.mp hls
  have hlt : i < ts.length := h.length ▸ hlt
  refine ⟨ts[i], List.getElem?_eq_getElem hlt, ?_⟩
  rintro ⟨a, ha⟩
  have horderly := h.orderly i _ ls (List.getElem?_eq_getElem hlt) hls
  rw [ha] at horderly
  have hnil : ls = [] := horderly
  rw [hnil] at hmem
  cases hmem

theorem AllOrderly.above (h : AllOrderly act rank ts hs s) {t : Script (Locked σ L) ε μ α}
    {l l' : L} (ht : ts[i]? = some t) (hhead : t.head act = .lock l) (hl : (l', i) ∈ s.taken) :
    rank l' < rank l := by
  obtain ⟨ls, hls, hmem⟩ := (h.table l' i).mp hl
  have horderly := h.orderly i t ls ht hls
  cases t with
  | done a => cases hhead
  | step p c k =>
    have hallowed := horderly.1
    rw [show act p = .lock l from hhead] at hallowed
    exact hallowed l' hmem

/-- The thread that waits for a lock of the highest rank waits for one that can go on. -/
theorem AllOrderly.goes_on (h : AllOrderly act rank ts hs s) {t : Script (Locked σ L) ε μ α}
    (ht : ts[i]? = some t) (hrun : ¬isDone t) :
    ∃ (j : Nat) (u : _), ts[j]? = some u ∧ ¬isDone u ∧ ¬Waits act u s.taken := by
  by_contra hall
  push Not at hall
  -- the ranks of the locks that are waited for have no bound
  have hup : ∀ n, ∃ (j : Nat) (u : _) (l : L) (k : Nat), ts[j]? = some u ∧ u.head act = .lock l ∧ (l, k) ∈ s.taken ∧ n ≤ rank l := by
    intro n
    induction n with
    | zero =>
      obtain ⟨l, k, hhead, hl⟩ := hall i t ht hrun
      exact ⟨i, t, l, k, ht, hhead, hl, Nat.zero_le _⟩
    | succ n ih =>
      obtain ⟨j, u, l, k, -, -, hl, hn⟩ := ih
      obtain ⟨w, hw, hwrun⟩ := h.running hl
      obtain ⟨l', k', hhead, hl'⟩ := hall k w hw hwrun
      exact ⟨k, w, l', k', hw, hhead, hl', Nat.lt_of_le_of_lt hn (h.above hw hhead hl)⟩
  obtain ⟨j, u, l, k, -, -, hl, hn⟩ := hup (((s.taken.map fun e => rank e.1).foldr max 0) + 1)
  have hmax : ∀ {l : List (L × Nat)} {e : L × Nat}, e ∈ l →
      rank e.1 ≤ (l.map fun e => rank e.1).foldr max 0 := by
    intro l e he
    induction l with
    | nil => cases he
    | cons e' l ih =>
      obtain rfl | he := List.mem_cons.mp he
      · exact Nat.le_max_left _ _
      · exact Nat.le_trans (ih he) (Nat.le_max_right _ _)
  exact absurd (hmax hl) (Nat.not_le.mpr hn)

theorem AllOrderly.ordered (h : AllOrderly act rank ts hs s) : Ordered act rank ts s where
  above i t l l' := h.above
  goes_on i t := h.goes_on
  empty hdone := by
    refine List.eq_nil_iff_forall_not_mem.mpr ?_
    rintro ⟨l, i⟩ hl
    obtain ⟨t, ht, hrun⟩ := h.running hl
    exact hrun (hdone t (List.mem_of_getElem? ht))

/-- Orderly threads that have taken nothing. -/
theorem all_orderly_start (hts : ∀ i t, ts[i]? = some t →
    Orderly act rank i (fun _ ls => ls = []) t []) (hs : s.taken = []) :
    AllOrderly act rank ts (ts.map fun _ => []) s where
  length := List.length_map _
  orderly i t ls ht hls := by
    rw [List.getElem?_map, ht] at hls
    exact Option.some.inj hls ▸ hts i t ht
  nodup ls hls := by
    obtain ⟨t, -, rfl⟩ := List.mem_map.mp hls
    exact List.nodup_nil
  once := hs ▸ List.nodup_nil
  table l i := by
    rw [hs]
    constructor
    · intro hl
      cases hl
    · rintro ⟨ls, hls, hl⟩
      rw [List.getElem?_map] at hls
      obtain ⟨t, -, rfl⟩ := Option.map_eq_some_iff.mp hls
      cases hl

/-- The table after a step shows what the threads hold then. -/
theorem AllOrderly.step_table (h : AllOrderly act rank ts hs s) {a : LockStep L}
    (hls : hs[i]? = some ls) (ha : a.allowed rank ls) :
    (a.table i s.taken).Nodup ∧ ∀ l j, (l, j) ∈ a.table i s.taken ↔
      ∃ ls', (hs.set i (a.held ls))[j]? = some ls' ∧ l ∈ ls' := by
  obtain ⟨hlt, -⟩ := List.getElem?_eq_some_iff.mp hls
  have hother : ∀ {j}, j ≠ i → (hs.set i (a.held ls))[j]? = hs[j]? := fun hj =>
    List.getElem?_set_ne (Ne.symm hj)
  have hself : (hs.set i (a.held ls))[i]? = some (a.held ls) := List.getElem?_set_self hlt
  have hmem : ∀ l, (l, i) ∈ s.taken ↔ l ∈ ls := fun l => by
    rw [h.table l i, hls]
    exact ⟨fun ⟨ls', hls', hl⟩ => Option.some.inj hls' ▸ hl, fun hl => ⟨ls, rfl, hl⟩⟩
  have hnodup := h.nodup ls (List.mem_of_getElem? hls)
  refine ⟨?_, fun l j => ?_⟩
  · cases a with
    | none => exact h.once
    | lock l => exact List.nodup_cons.mpr ⟨fun hl => Nat.lt_irrefl _ (ha l ((hmem l).mp hl)), h.once⟩
    | unlock l => exact h.once.erase _
  · by_cases hj : j = i
    · subst hj
      rw [hself]
      have hheld : (l, j) ∈ a.table j s.taken ↔ l ∈ a.held ls := by
        cases a with
        | none => exact hmem l
        | lock l' =>
          show (l, j) ∈ (l', j) :: s.taken ↔ l ∈ l' :: ls
          simp [hmem]
        | unlock l' =>
          show (l, j) ∈ s.taken.erase (l', j) ↔ l ∈ ls.erase l'
          rw [h.once.mem_erase_iff, hnodup.mem_erase_iff, hmem]
          simp
      rw [hheld]
      exact ⟨fun hl => ⟨_, rfl, hl⟩, fun ⟨ls', hls', hl⟩ => Option.some.inj hls' ▸ hl⟩
    · rw [hother hj, ← h.table l j]
      cases a with
      | none => exact Iff.rfl
      | lock l' =>
        show (l, j) ∈ (l', i) :: s.taken ↔ _
        simp [hj]
      | unlock l' =>
        show (l, j) ∈ s.taken.erase (l', i) ↔ _
        rw [h.once.mem_erase_iff]
        simp [hj]

/-- Orderly threads stay orderly, whatever the schedule. -/
theorem AllOrderly.throughout {is : List Nat} (h : AllOrderly act rank ts hs s) :
    Throughout (fun _ => True) (Ordered act rank) is ts s := by
  induction is generalizing ts hs s with
  | nil => exact h.ordered
  | cons i is ih =>
    refine ⟨h.ordered, ?_⟩
    cases ht : ts[i]? with
    | none => exact ih h
    | some t =>
      cases t with
      | done a => exact ih h
      | step p c k =>
        obtain ⟨ls, hls, hallowed, horderly⟩ := h.at ht
        refine wp_mono (horderly s) fun b s' hb => ?_
        obtain ⟨htaken, hk⟩ := hb
        obtain ⟨honce, htable⟩ := h.step_table hls hallowed
        obtain ⟨hlt, -⟩ := List.getElem?_eq_some_iff.mp ht
        obtain ⟨hlt', -⟩ := List.getElem?_eq_some_iff.mp hls
        refine ih (show AllOrderly act rank _ (hs.set i ((act p).held ls)) s' from
          ⟨by simp [h.length], ?_, ?_, htaken ▸ honce, ?_⟩)
        · intro j t ls' htj hlsj
          by_cases hj : i = j
          · subst hj
            rw [List.getElem?_set_self hlt] at htj
            rw [List.getElem?_set_self hlt'] at hlsj
            rw [← Option.some.inj htj, ← Option.some.inj hlsj]
            exact hk
          · rw [List.getElem?_set_ne hj] at htj hlsj
            exact h.orderly j t ls' htj hlsj
        · intro ls' hmem
          obtain hmem | rfl := List.mem_or_eq_of_mem_set hmem
          · exact h.nodup ls' hmem
          · exact hallowed.nodup (h.nodup ls (List.mem_of_getElem? hls))
        · rw [htaken]
          exact htable

end All

end Script
