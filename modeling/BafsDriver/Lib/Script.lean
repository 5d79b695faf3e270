import BafsDriver.Lib.Prog
import Mathlib.Algebra.BigOperators.Group.List.Basic

/-!
# Threads

A script is a program cut into steps: each step is a program that runs without interruption, and
between two of them other scripts may run. A schedule says which thread takes the next step.

Threads are verified one at a time. They share an invariant of the state and of what all of them
hold, where what a thread holds is an element of a commutative monoid. `Safe` says of one script that
each of its steps keeps the invariant, whatever the others hold, and changes nothing of what they
hold; then no schedule breaks the invariant. A step may rely on a condition on the state it starts in,
which is given by the mark of the step.
-/

open Prog

/-- A program in steps, each with a mark. -/
inductive Script (σ ε μ α : Type) : Type 1 where
  | done (a : α)
  | step {β : Type} (p : μ) (c : Prog σ ε β) (k : β → Script σ ε μ α)

namespace Script

variable {σ ε μ α β γ ρ R : Type}

/-- The first script and then the second. -/
def bind : Script σ ε μ α → (α → Script σ ε μ β) → Script σ ε μ β
  | done a, f => f a
  | step p c k, f => step p c fun b => (k b).bind f

instance : Monad (Script σ ε μ) where
  pure := done
  bind := bind

/-- A program that is one step. -/
def single (p : μ) (c : Prog σ ε α) : Script σ ε μ α := step p c done

/-- A loop that runs to its end. -/
def each (body : β → Script σ ε μ Unit) : List β → Script σ ε μ Unit
  | [] => pure ()
  | b :: bs => do body b; each body bs

/-- A loop over an accumulator that leaves at the first iteration with a failure code. -/
def iterate (body : β → α → Script σ ε μ (α × Option ρ)) :
    List β → α → Script σ ε μ (α × Option ρ)
  | [], a => pure (a, none)
  | b :: bs, a => do
    let r ← body b a
    match r.2 with
    | none => iterate body bs r.1
    | some _ => pure r

/-! ## Scripts that are not interrupted -/

/-- The steps of a script one after another. -/
def whole : Script σ ε μ α → Prog σ ε α
  | done a => pure a
  | step _ c k => c >>= fun b => (k b).whole

@[simp] theorem whole_pure (a : α) : (pure a : Script σ ε μ α).whole = pure a := rfl

@[simp] theorem whole_single (p : μ) (c : Prog σ ε α) : (single p c).whole = c := bind_pure c

@[simp] theorem whole_bind (t : Script σ ε μ α) (f : α → Script σ ε μ β) :
    (t >>= f).whole = t.whole >>= fun a => (f a).whole := by
  induction t with
  | done a => exact (pure_bind a fun a => (f a).whole).symm
  | step p c k ih =>
    show (c >>= fun b => (k b >>= f).whole) = (c >>= fun b => (k b).whole) >>= _
    rw [bind_assoc]
    exact congrArg (c >>= ·) (funext ih)

@[simp] theorem whole_ite {b : Prop} [Decidable b] (t t' : Script σ ε μ α) :
    (if b then t else t').whole = if b then t.whole else t'.whole := by
  by_cases hb : b
  · rw [if_pos hb, if_pos hb]
  · rw [if_neg hb, if_neg hb]

theorem whole_each {body : β → Script σ ε μ Unit} {body' : β → Prog σ ε Unit}
    (h : ∀ b, (body b).whole = body' b) (l : List β) :
    (each body l).whole = Prog.each body' l := by
  induction l with
  | nil => rfl
  | cons b bs ih => simp only [each, Prog.each, whole_bind, h, ih]

theorem whole_iterate {body : β → α → Script σ ε μ (α × Option ρ)}
    {body' : β → α → Prog σ ε (α × Option ρ)} (h : ∀ b a, (body b a).whole = body' b a)
    (l : List β) (a : α) : (iterate body l a).whole = Prog.iterate body' l a := by
  induction l generalizing a with
  | nil => rfl
  | cons b bs ih =>
    simp only [iterate, Prog.iterate, whole_bind, h]
    congr
    funext r
    obtain ⟨a', o⟩ := r
    cases o with
    | none => exact ih a'
    | some e => rfl

/-! ## Schedules -/

/-- Every point that the threads `ts` reach from `s` under the schedule satisfies `P`; where a step gets
stuck, it is with a fault in `E`. The schedule names the thread that is to take the next step; a
thread that is done takes none. -/
def Throughout (E : ε → Prop) (P : List (Script σ ε μ α) → σ → Prop) :
    List Nat → List (Script σ ε μ α) → σ → Prop
  | [], ts, s => P ts s
  | i :: is, ts, s => P ts s ∧
    match ts[i]? with
    | some (step _ c k) => wp c E (fun b s' => Throughout E P is (ts.set i (k b)) s') s
    | _ => Throughout E P is ts s

/-- Every step that is taken meets its condition in the state in which it is taken. -/
def Meets (K : μ → σ → Prop) : List Nat → List (Script σ ε μ α) → σ → Prop
  | [], _, _ => True
  | i :: is, ts, s =>
    match ts[i]? with
    | some (step p c k) => K p s ∧
      wp c (fun _ => True) (fun b s' => Meets K is (ts.set i (k b)) s') s
    | _ => Meets K is ts s

/-- The result of a script that is done. -/
def result : Script σ ε μ α → Option α
  | done a => some a
  | step .. => none

theorem done_of_result {t : Script σ ε μ α} {a : α} (h : t.result = some a) : t = done a := by
  cases t with
  | done b => rw [Option.some.inj h]
  | step p c k => cases h

/-- Whether the schedule ends, at a point that passes a test of the results of the threads that are
done and of the state. -/
def ends (p : List (Option α) → σ → Bool) : List Nat → List (Script σ ε μ α) → σ → Bool
  | [], ts, s => p (ts.map result) s
  | i :: is, ts, s =>
    match ts[i]? with
    | some (step _ c k) =>
      match c s with
      | .ok (b, s') => ends p is (ts.set i (k b)) s'
      | .error _ => false
    | _ => ends p is ts s

/-- Whether every step that is taken passes a test. -/
def tests (k : μ → σ → Bool) : List Nat → List (Script σ ε μ α) → σ → Bool
  | [], _, _ => true
  | i :: is, ts, s =>
    match ts[i]? with
    | some (step p c f) => k p s &&
      match c s with
      | .ok (b, s') => tests k is (ts.set i (f b)) s'
      | .error _ => true
    | _ => tests k is ts s

section Schedules

variable {E : ε → Prop} {K : μ → σ → Prop} {P P' : List (Script σ ε μ α) → σ → Prop}
  {i : Nat} {is : List Nat} {ts : List (Script σ ε μ α)} {s : σ}

theorem Throughout.here (h : Throughout E P is ts s) : P ts s := by
  cases is with
  | nil => exact h
  | cons i is => exact h.1

theorem Throughout.mono (h : Throughout E P is ts s) (hP : ∀ ts s, P ts s → P' ts s) :
    Throughout E P' is ts s := by
  induction is generalizing ts s with
  | nil => exact hP ts s h
  | cons i is ih =>
    refine ⟨hP ts s h.1, ?_⟩
    have h := h.2
    cases ht : ts[i]? with
    | none =>
      rw [ht] at h
      exact ih h
    | some t =>
      rw [ht] at h
      cases t with
      | done a => exact ih h
      | step p c k => exact wp_mono h fun _ _ h' => ih h'

/-- A test that implies the condition shows that the steps of a schedule meet it. -/
theorem meets_of_tests {k : μ → σ → Bool} (hk : ∀ p s, k p s = true → K p s)
    (h : tests k is ts s = true) : Meets K is ts s := by
  induction is generalizing ts s with
  | nil => trivial
  | cons i is ih =>
    unfold tests at h
    unfold Meets
    cases ht : ts[i]? with
    | none =>
      rw [ht] at h
      exact ih h
    | some t =>
      rw [ht] at h
      cases t with
      | done a => exact ih h
      | step p c f =>
        obtain ⟨hp, h⟩ := Bool.and_eq_true_iff.mp h
        refine ⟨hk p s hp, ?_⟩
        unfold wp
        cases hc : c s with
        | error e => trivial
        | ok r =>
          rw [hc] at h
          exact ih h

theorem Throughout.of_ends {p : List (Option α) → σ → Bool} (h : Throughout E P is ts s)
    (hp : ends p is ts s = true) : ∃ ts' s', P ts' s' ∧ p (ts'.map result) s' = true := by
  induction is generalizing ts s with
  | nil => exact ⟨ts, s, h, hp⟩
  | cons i is ih =>
    have h := h.2
    unfold ends at hp
    cases ht : ts[i]? with
    | none =>
      rw [ht] at h hp
      exact ih h hp
    | some t =>
      rw [ht] at h hp
      cases t with
      | done a => exact ih h hp
      | step p c k =>
        unfold wp at h
        cases hc : c s with
        | error e =>
          simp [hc] at hp
        | ok r =>
          simp only [hc] at h hp
          exact ih h hp

end Schedules

/-! ## What the steps of a script have in common -/

section EachStep

variable {S : (β : Type) → μ → Prog σ ε β → Prop} {E : ε → Prop} {K : μ → σ → Prop} {P : σ → Prop}

/-- Every step of the script satisfies `S`. -/
def EachStep (S : (β : Type) → μ → Prog σ ε β → Prop) : Script σ ε μ α → Prop
  | done _ => True
  | step p c k => S _ p c ∧ ∀ b, (k b).EachStep S

theorem each_step_pure (a : α) : EachStep S (pure a : Script σ ε μ α) := trivial

theorem each_step_single {p : μ} {c : Prog σ ε α} (h : S α p c) : EachStep S (single p c) :=
  ⟨h, fun _ => trivial⟩

theorem EachStep.bind {t : Script σ ε μ β} {f : β → Script σ ε μ α} (ht : EachStep S t)
    (hf : ∀ b, EachStep S (f b)) : EachStep S (t >>= f) := by
  induction t with
  | done b => exact hf b
  | step p c k ih => exact ⟨ht.1, fun b => ih b (ht.2 b)⟩

theorem each_step_ite {b : Prop} [Decidable b] {t t' : Script σ ε μ α} (ht : EachStep S t)
    (ht' : EachStep S t') : EachStep S (if b then t else t') := by
  by_cases hb : b
  · rw [if_pos hb]
    exact ht
  · rw [if_neg hb]
    exact ht'

theorem each_step_each {body : β → Script σ ε μ Unit} (h : ∀ b, EachStep S (body b)) (l : List β) :
    EachStep S (each body l) := by
  induction l with
  | nil => trivial
  | cons b bs ih => exact (h b).bind fun _ => ih

theorem each_step_iterate {body : β → α → Script σ ε μ (α × Option ρ)}
    (h : ∀ b a, EachStep S (body b a)) (l : List β) (a : α) : EachStep S (iterate body l a) := by
  induction l generalizing a with
  | nil => trivial
  | cons b bs ih =>
    refine (h b a).bind fun r => ?_
    obtain ⟨a', o⟩ := r
    cases o with
    | none => exact ih a'
    | some e => trivial

/-- Where every step that misses its condition breaks the property, the steps of a schedule that keeps
the property meet theirs. -/
theorem Throughout.meets {is : List Nat} {ts : List (Script σ ε μ α)} {s : σ}
    (hS : ∀ β p (c : Prog σ ε β) s, S β p c → P s → wp c E (fun _ s' => P s') s → K p s)
    (hts : ∀ t ∈ ts, EachStep S t) (h : Throughout E (fun _ => P) is ts s) : Meets K is ts s := by
  induction is generalizing ts s with
  | nil => trivial
  | cons i is ih =>
    obtain ⟨hP, h⟩ := h
    unfold Meets
    cases ht : ts[i]? with
    | none =>
      rw [ht] at h
      exact ih hts h
    | some t =>
      rw [ht] at h
      cases t with
      | done a => exact ih hts h
      | step p c k =>
        obtain ⟨hlt, hget⟩ := List.getElem?_eq_some_iff.mp ht
        have hstep := hts _ (hget ▸ List.getElem_mem hlt)
        have h : wp c E (fun b s' => Throughout E (fun _ => P) is (ts.set i (k b)) s') s := h
        refine ⟨hS _ p c s hstep.1 hP (wp_mono h fun _ _ h' => h'.here), ?_⟩
        unfold wp at h ⊢
        cases hc : c s with
        | error e => trivial
        | ok r =>
          rw [hc] at h
          refine ih (fun t ht => ?_) h
          obtain ht | rfl := List.mem_or_eq_of_mem_set ht
          · exact hts t ht
          · exact hstep.2 r.1

end EachStep

/-! ## Safe scripts -/

section Safe

variable [AddCommMonoid R] {I : R → σ → Prop} {K : μ → σ → Prop} {E : ε → Prop}
  {Q Q' : α → R → Prop} {h : R}

/-- A thread that holds `h` and runs the script keeps the invariant `I` at each step that meets the
condition, while the others hold any `H`; it ends with a result and with what `Q` says. -/
def Safe (I : R → σ → Prop) (K : μ → σ → Prop) (E : ε → Prop) (Q : α → R → Prop) :
    Script σ ε μ α → R → Prop
  | done a, h => Q a h
  | step p c k, h => ∀ H s, I (H + h) s → K p s →
    wp c E (fun b s' => ∃ h', I (H + h') s' ∧ Safe I K E Q (k b) h') s

theorem Safe.mono {t : Script σ ε μ α} (ht : Safe I K E Q t h) (hQ : ∀ a h, Q a h → Q' a h) :
    Safe I K E Q' t h := by
  induction t generalizing h with
  | done a => exact hQ a h ht
  | step p c k ih =>
    intro H s hI hK
    refine wp_mono (ht H s hI hK) fun b s' hb => ?_
    obtain ⟨h', hI', ht'⟩ := hb
    exact ⟨h', hI', ih b ht'⟩

theorem safe_pure {a : α} (ha : Q a h) : Safe I K E Q (pure a : Script σ ε μ α) h := ha

theorem safe_single {p : μ} {c : Prog σ ε α} (hc : ∀ H s, I (H + h) s → K p s →
    wp c E (fun a s' => ∃ h', I (H + h') s' ∧ Q a h') s) : Safe I K E Q (single p c) h := hc

theorem Safe.bind {Q : γ → R → Prop} {t : Script σ ε μ γ} {f : γ → Script σ ε μ α}
    (ht : Safe I K E Q t h) (hf : ∀ b h', Q b h' → Safe I K E Q' (f b) h') :
    Safe I K E Q' (t >>= f) h := by
  induction t generalizing h with
  | done b => exact hf b h ht
  | step p c k ih =>
    intro H s hI hK
    refine wp_mono (ht H s hI hK) fun b s' hb => ?_
    obtain ⟨h', hI', ht'⟩ := hb
    exact ⟨h', hI', ih b ht'⟩

theorem safe_ite {b : Prop} [Decidable b] {t t' : Script σ ε μ α} (ht : b → Safe I K E Q t h)
    (ht' : ¬b → Safe I K E Q t' h) : Safe I K E Q (if b then t else t') h := by
  by_cases hb : b
  · rw [if_pos hb]
    exact ht hb
  · rw [if_neg hb]
    exact ht' hb

/-- What a script has no use for stays with the thread. -/
theorem Safe.frame {t : Script σ ε μ α} (ht : Safe I K E Q t h) (g : R) :
    Safe I K E (fun a h' => ∃ h₀, h' = h₀ + g ∧ Q a h₀) t (h + g) := by
  induction t generalizing h with
  | done a => exact ⟨h, rfl, ht⟩
  | step p c k ih =>
    intro H s hI hK
    have hI' : I (H + g + h) s := by
      rw [add_assoc, add_comm g h]
      exact hI
    refine wp_mono (ht (H + g) s hI' hK) fun b s' hb => ?_
    obtain ⟨h', hI', ht'⟩ := hb
    refine ⟨h' + g, ?_, ih b ht'⟩
    rw [add_comm h' g, ← add_assoc]
    exact hI'

/-- A loop keeps an invariant over the elements that remain. -/
theorem safe_each {body : β → Script σ ε μ Unit} (inv : List β → R → Prop)
    (hbody : ∀ b bs h, inv (b :: bs) h → Safe I K E (fun _ => inv bs) (body b) h)
    {l : List β} (hl : inv l h) : Safe I K E (fun _ => inv []) (each body l) h := by
  induction l generalizing h with
  | nil => exact hl
  | cons b bs ih => exact (hbody b bs h hl).bind fun _ _ h' => ih h'

/-- A loop with an exit keeps its invariant until it ends or fails. -/
theorem safe_iterate {body : β → γ → Script σ ε μ (γ × Option ρ)} (inv : List β → γ → R → Prop)
    {Q : γ × Option ρ → R → Prop}
    (hbody : ∀ b bs a h, inv (b :: bs) a h →
      Safe I K E (fun r h' => (r.2 = none → inv bs r.1 h') ∧ (r.2 ≠ none → Q r h')) (body b a) h)
    (hdone : ∀ a h, inv [] a h → Q (a, none) h) {l : List β} {a : γ} (hl : inv l a h) :
    Safe I K E Q (iterate body l a) h := by
  induction l generalizing a h with
  | nil => exact hdone a h hl
  | cons b bs ih =>
    refine (hbody b bs a h hl).bind fun r h' hr => ?_
    obtain ⟨a', o⟩ := r
    cases o with
    | none => exact ih (hr.1 rfl)
    | some e => exact hr.2 (by simp)

/-- The threads hold what the list says and are safe; the thread `i` ends with what `Q i` says. -/
def AllSafe (I : R → σ → Prop) (K : μ → σ → Prop) (E : ε → Prop) (Q : Nat → α → R → Prop)
    (ts : List (Script σ ε μ α)) (s : σ) : Prop :=
  ∃ hs : List R, hs.length = ts.length ∧
    (∀ i t h, ts[i]? = some t → hs[i]? = some h → Safe I K E (Q i) t h) ∧ I hs.sum s

theorem sum_take_drop {hs : List R} {i : Nat} (hi : hs[i]? = some h) :
    hs.sum = (hs.take i).sum + (hs.drop (i + 1)).sum + h := by
  obtain ⟨hlt, rfl⟩ := List.getElem?_eq_some_iff.mp hi
  conv_lhs => rw [← List.take_append_drop i hs, List.drop_eq_getElem_cons hlt]
  rw [List.sum_append, List.sum_cons, add_comm (hs[i]), add_assoc]

/-- What one thread holds is part of what all hold. -/
theorem AllSafe.at {Q : Nat → α → R → Prop} {ts : List (Script σ ε μ α)} {s : σ}
    (hts : AllSafe I K E Q ts s) {i : Nat} {t : Script σ ε μ α} (ht : ts[i]? = some t) :
    ∃ H h, Safe I K E (Q i) t h ∧ I (H + h) s := by
  obtain ⟨hs, hlen, hsafe, hI⟩ := hts
  obtain ⟨hlt, -⟩ := List.getElem?_eq_some_iff.mp ht
  have hlt : i < hs.length := hlen ▸ hlt
  have hi : hs[i]? = some hs[i] := List.getElem?_eq_getElem hlt
  rw [sum_take_drop hi] at hI
  exact ⟨_, _, hsafe i t _ ht hi, hI⟩

/-- When all threads are done and hold nothing, nothing is held. -/
theorem AllSafe.ended {Q : Nat → α → R → Prop} {ts : List (Script σ ε μ α)} {s : σ}
    (hts : AllSafe I K E Q ts s) (hd : ∀ t ∈ ts, ∃ a, t = done a) (hQ : ∀ i a h, Q i a h → h = 0) :
    I 0 s := by
  obtain ⟨hs, hlen, hsafe, hI⟩ := hts
  have hz : hs.sum = 0 := List.sum_eq_zero fun h hmem => by
    obtain ⟨i, hlt, rfl⟩ := List.getElem_of_mem hmem
    have hlt' : i < ts.length := hlen ▸ hlt
    obtain ⟨a, ha⟩ := hd _ (List.getElem_mem hlt')
    have hi := hsafe i _ _ (List.getElem?_eq_getElem hlt') (List.getElem?_eq_getElem hlt)
    rw [ha] at hi
    exact hQ i a _ hi
  rw [hz] at hI
  exact hI

/-- No schedule breaks what each thread keeps. -/
theorem AllSafe.throughout {Q : Nat → α → R → Prop} {is : List Nat} {ts : List (Script σ ε μ α)}
    {s : σ} (hts : AllSafe I K E Q ts s) (hK : Meets K is ts s) :
    Throughout E (AllSafe I K E Q) is ts s := by
  induction is generalizing ts s with
  | nil => exact hts
  | cons i is ih =>
    refine ⟨hts, ?_⟩
    unfold Meets at hK
    cases ht : ts[i]? with
    | none =>
      rw [ht] at hK
      exact ih hts hK
    | some t =>
      rw [ht] at hK
      cases t with
      | done a => exact ih hts hK
      | step p c k =>
        obtain ⟨hs, hlen, hsafe, hI⟩ := hts
        obtain ⟨hp, hK⟩ := hK
        obtain ⟨hlt, -⟩ := List.getElem?_eq_some_iff.mp ht
        have hlt' : i < hs.length := hlen ▸ hlt
        have hi : hs[i]? = some hs[i] := List.getElem?_eq_getElem _
        rw [sum_take_drop hi] at hI
        refine wp_mono (wp_and (hsafe i _ _ ht hi _ s hI hp) hK) fun b s' hb => ?_
        obtain ⟨⟨h', hI', hk⟩, hK⟩ := hb
        refine ih ⟨hs.set i h', by simp [hlen], fun j t h htj hhj => ?_, ?_⟩ hK
        · by_cases hij : i = j
          · subst hij
            rw [List.getElem?_set_self hlt] at htj
            rw [List.getElem?_set_self hlt'] at hhj
            rw [← Option.some.inj htj, ← Option.some.inj hhj]
            exact hk
          · rw [List.getElem?_set_ne hij] at htj hhj
            exact hsafe j t h htj hhj
        · have hset : (hs.set i h')[i]? = some h' := List.getElem?_set_self hlt'
          rw [sum_take_drop hset, List.take_set_of_le (Nat.le_refl i),
            List.drop_set_of_lt (Nat.lt_succ_self i)]
          exact hI'

end Safe

end Script
