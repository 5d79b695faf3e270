import Mathlib.Order.Defs.Unbundled

/-!
# Programs that update a state and may get stuck

A program reads and writes a state `σ` and either returns or gets stuck with a fault `ε`. The
file gives the weakest precondition of such a program, with one postcondition for a return and one
predicate for the faults that are tolerated, and the rules that compute it: sequencing, reading a
cell, loops over a list, and loops that leave at the first failing iteration.
-/

/-- Programs over a state `σ` with faults `ε`. -/
abbrev Prog (σ ε : Type) := StateT σ (Except ε)

namespace Prog

variable {σ ε α β γ ρ : Type}

/-- Started in `s`, the program `c` returns a value and a state related by `Q`, or gets stuck with
a fault in `E`. -/
def wp (c : Prog σ ε α) (E : ε → Prop) (Q : α → σ → Prop) (s : σ) : Prop :=
  match c s with
  | .ok (a, s') => Q a s'
  | .error e => E e

section Rules

variable {E : ε → Prop} {Q Q' : α → σ → Prop} {s : σ}

theorem wp_mono {c : Prog σ ε α} (h : wp c E Q s) (hQ : ∀ a s', Q a s' → Q' a s') :
    wp c E Q' s := by
  unfold wp at h ⊢
  cases hc : c s with
  | error e => rw [hc] at h; exact h
  | ok r => rw [hc] at h; exact hQ _ _ h

/-- More faults may be tolerated. -/
theorem wp_weaken {c : Prog σ ε α} {E' : ε → Prop} (h : wp c E Q s) (hE : ∀ e, E e → E' e) :
    wp c E' Q s := by
  unfold wp at h ⊢
  cases hc : c s with
  | error e => rw [hc] at h; exact hE e h
  | ok r => rw [hc] at h; exact h

/-- Sequencing: what the first program ensures is what the rest starts from. -/
theorem wp.bind {c : Prog σ ε β} {k : β → Prog σ ε α} {R : β → σ → Prop} (h : wp c E R s)
    (hk : ∀ b s', R b s' → wp (k b) E Q s') : wp (c >>= k) E Q s := by
  show (match (c s >>= fun r => k r.1 r.2) with
    | .ok (a, s') => Q a s' | .error e => E e)
  unfold wp at h
  cases hc : c s with
  | error e => rw [hc] at h; exact h
  | ok r => rw [hc] at h; exact hk _ _ h

theorem wp_true {c : Prog σ ε α} : wp c (fun _ => True) (fun _ _ => True) s := by
  unfold wp
  cases c s with
  | error e => trivial
  | ok r => trivial

theorem wp_and {c : Prog σ ε α} {E' : ε → Prop} (h : wp c E Q s) (h' : wp c E' Q' s) :
    wp c E (fun a s' => Q a s' ∧ Q' a s') s := by
  unfold wp at h h' ⊢
  cases hc : c s with
  | error e => rw [hc] at h; exact h
  | ok r => rw [hc] at h h'; exact ⟨h, h'⟩

/-- What a program ensures holds of each of its returns. -/
theorem wp_ok {c : Prog σ ε α} (h : wp c E Q s) {a : α} {s' : σ} (hc : c s = .ok (a, s')) :
    Q a s' := by
  unfold wp at h
  rw [hc] at h
  exact h

/-- A program that does not get stuck returns. -/
theorem wp_ends {c : Prog σ ε α} (h : wp c (fun _ => False) Q s) :
    ∃ a s', c s = .ok (a, s') ∧ Q a s' := by
  unfold wp at h
  cases hc : c s with
  | error e => rw [hc] at h; exact h.elim
  | ok r => rw [hc] at h; exact ⟨r.1, r.2, rfl, h⟩

theorem bind_ok {c : Prog σ ε β} {k : β → Prog σ ε α} {b : β} {s' : σ} (hc : c s = .ok (b, s')) :
    (c >>= k) s = k b s' := by
  show (c s >>= fun r => k r.1 r.2) = _
  rw [hc]
  rfl

/-- Programs that do the same in a state do so with the same rest. -/
theorem bind_congr_at {c c' : Prog σ ε β} {k : β → Prog σ ε α} (h : c s = c' s) :
    (c >>= k) s = (c' >>= k) s := by
  show (c s >>= fun r => k r.1 r.2) = (c' s >>= fun r => k r.1 r.2)
  rw [h]

/-- A program that gets stuck does so with a tolerated fault. -/
theorem wp_error {c : Prog σ ε α} (h : wp c E Q s) {e : ε} (hc : c s = .error e) : E e := by
  unfold wp at h
  rw [hc] at h
  exact h

@[simp] theorem wp_pure {a : α} : wp (pure a : Prog σ ε α) E Q s ↔ Q a s := Iff.rfl

@[simp] theorem wp_bind {c : Prog σ ε β} {k : β → Prog σ ε α} :
    wp (c >>= k) E Q s ↔ wp c E (fun b s' => wp (k b) E Q s') s := by
  show (match (c s >>= fun r => k r.1 r.2) with
    | .ok (a, s') => Q a s' | .error e => E e) ↔ _
  unfold wp
  cases c s <;> rfl

@[simp] theorem wp_throw {e : ε} : wp (throw e : Prog σ ε α) E Q s ↔ E e := Iff.rfl

@[simp] theorem wp_get {Q : σ → σ → Prop} : wp (get : Prog σ ε σ) E Q s ↔ Q s s := Iff.rfl

@[simp] theorem wp_modify {f : σ → σ} {Q : Unit → σ → Prop} :
    wp (modify f : Prog σ ε Unit) E Q s ↔ Q () (f s) := Iff.rfl

theorem wp_ite {b : Prop} [Decidable b] {c c' : Prog σ ε α} (h : b → wp c E Q s)
    (h' : ¬b → wp c' E Q s) : wp (if b then c else c') E Q s := by
  by_cases hb : b
  · rw [if_pos hb]; exact h hb
  · rw [if_neg hb]; exact h' hb

/-- A conditional statement without an else branch. -/
theorem wp_when {b : Prop} [Decidable b] {c : Prog σ ε Unit} {Q : Unit → σ → Prop}
    (h : b → wp c E Q s) (h' : ¬b → Q () s) : wp (if b then c else pure ()) E Q s :=
  wp_ite h h'

end Rules

/-! ## Loops -/

/-- A loop that runs to its end. -/
def each (body : β → Prog σ ε Unit) : List β → Prog σ ε Unit
  | [] => pure ()
  | b :: bs => do body b; each body bs

/-- A loop over an accumulator that leaves at the first iteration with a failure code. -/
def iterate (body : β → α → Prog σ ε (α × Option ρ)) : List β → α → Prog σ ε (α × Option ρ)
  | [], a => pure (a, none)
  | b :: bs, a => do
    let r ← body b a
    match r.2 with
    | none => iterate body bs r.1
    | some _ => pure r

section Loops

variable {E : ε → Prop}

theorem each_append {body : β → Prog σ ε Unit} {l l' : List β} :
    each body (l ++ l') = (do each body l; each body l') := by
  induction l with
  | nil => exact (pure_bind () fun _ => each body l').symm
  | cons b l ih =>
    show (do body b; each body (l ++ l')) = (do (do body b; each body l); each body l')
    rw [ih, bind_assoc]

/-- A loop keeps an invariant over the elements that remain. -/
theorem wp_each {body : β → Prog σ ε Unit} (inv : List β → σ → Prop)
    (hstep : ∀ b bs s, inv (b :: bs) s → wp (body b) E (fun _ s' => inv bs s') s)
    {l : List β} {s : σ} (h : inv l s) : wp (each body l) E (fun _ s' => inv [] s') s := by
  induction l generalizing s with
  | nil => exact h
  | cons b bs ih =>
    simp only [each, wp_bind]
    exact wp_mono (hstep b bs s h) fun _ s' hs' => ih hs'

theorem iterate_congr {body body' : β → α → Prog σ ε (α × Option ρ)} {l : List β}
    (h : ∀ b ∈ l, ∀ a, body b a = body' b a) (a : α) : iterate body l a = iterate body' l a := by
  induction l generalizing a with
  | nil => rfl
  | cons b bs ih =>
    have htail := ih fun b' hb => h b' (List.mem_cons_of_mem b hb)
    simp only [iterate, h b List.mem_cons_self, htail]

/-- A loop with an exit keeps its invariant until it ends or fails. -/
theorem wp_iterate {body : β → α → Prog σ ε (α × Option ρ)} (inv : List β → α → σ → Prop)
    {Q : α × Option ρ → σ → Prop}
    (hstep : ∀ b bs a s, inv (b :: bs) a s → wp (body b a) E (fun r s' =>
      match r.2 with
      | none => inv bs r.1 s'
      | some _ => Q r s') s)
    (hdone : ∀ a s, inv [] a s → Q (a, none) s)
    {l : List β} {a : α} {s : σ} (h : inv l a s) : wp (iterate body l a) E Q s := by
  induction l generalizing a s with
  | nil => exact hdone a s h
  | cons b bs ih =>
    simp only [iterate, wp_bind]
    refine wp_mono (hstep b bs a s h) fun r s' hr => ?_
    obtain ⟨a', o⟩ := r
    cases o with
    | none => exact ih hr
    | some e => exact hr

/-- The loop with an exit, with an invariant at each index. -/
theorem wp_iterate_get {body : β → α → Prog σ ε (α × Option ρ)} (inv : Nat → α → σ → Prop)
    {Q : α × Option ρ → σ → Prop} {l : List β}
    (hstep : ∀ i b a s, l[i]? = some b → inv i a s → wp (body b a) E (fun r s' =>
      match r.2 with
      | none => inv (i + 1) r.1 s'
      | some _ => Q r s') s)
    (hdone : ∀ a s, inv l.length a s → Q (a, none) s)
    {a : α} {s : σ} (h : inv 0 a s) : wp (iterate body l a) E Q s := by
  refine wp_iterate (fun bs a s => ∃ i, bs = l.drop i ∧ i ≤ l.length ∧ inv i a s)
    (fun b bs a s hinv => ?_) (fun a s hinv => ?_) ⟨0, rfl, Nat.zero_le _, h⟩
  · obtain ⟨i, hbs, hi, hinv⟩ := hinv
    have hlt : i < l.length := by
      rcases Nat.lt_or_ge i l.length with hlt | hge
      · exact hlt
      · rw [List.drop_eq_nil_of_le hge] at hbs
        cases hbs
    rw [List.drop_eq_getElem_cons hlt] at hbs
    obtain ⟨rfl, rfl⟩ := List.cons.inj hbs
    refine wp_mono (hstep i _ a s (List.getElem?_eq_getElem hlt) hinv) fun r s' hr => ?_
    obtain ⟨a', o⟩ := r
    cases o with
    | none => exact ⟨i + 1, rfl, hlt, hr⟩
    | some e => exact hr
  · obtain ⟨i, hbs, hi, hinv⟩ := hinv
    obtain rfl : i = l.length := Nat.le_antisymm hi (List.drop_eq_nil_iff.mp hbs.symm)
    exact hdone a s hinv

/-- The loop with an exit over `0, …, n - 1`, with an invariant at each index. -/
theorem wp_iterate_range {body : Nat → α → Prog σ ε (α × Option ρ)} (inv : Nat → α → σ → Prop)
    {Q : α × Option ρ → σ → Prop} {n : Nat}
    (hstep : ∀ i a s, i < n → inv i a s → wp (body i a) E (fun r s' =>
      match r.2 with
      | none => inv (i + 1) r.1 s'
      | some _ => Q r s') s)
    (hdone : ∀ a s, inv n a s → Q (a, none) s)
    {a : α} {s : σ} (h : inv 0 a s) : wp (iterate body (List.range n) a) E Q s := by
  refine wp_iterate_get inv (fun i b a s hb hinv => ?_) (fun a s hinv => ?_) h
  · obtain ⟨hi, rfl⟩ := List.getElem?_eq_some_iff.mp hb
    rw [List.getElem_range]
    rw [List.length_range] at hi
    exact hstep i a s hi hinv
  · rw [List.length_range] at hinv
    exact hdone a s hinv

/-- The loop with an exit over the elements with their indices. -/
theorem wp_iterate_zipIdx {body : β × Nat → α → Prog σ ε (α × Option ρ)} (inv : Nat → α → σ → Prop)
    {Q : α × Option ρ → σ → Prop} {l : List β}
    (hstep : ∀ i b a s, l[i]? = some b → inv i a s → wp (body (b, i) a) E (fun r s' =>
      match r.2 with
      | none => inv (i + 1) r.1 s'
      | some _ => Q r s') s)
    (hdone : ∀ a s, inv l.length a s → Q (a, none) s)
    {a : α} {s : σ} (h : inv 0 a s) : wp (iterate body l.zipIdx a) E Q s := by
  refine wp_iterate_get inv (fun i b a s hb hinv => ?_) (fun a s hinv => ?_) h
  · rw [List.getElem?_zipIdx, Option.map_eq_some_iff] at hb
    obtain ⟨b, hb, rfl⟩ := hb
    rw [Nat.zero_add]
    exact hstep i b a s hb hinv
  · rw [List.length_zipIdx] at hinv
    exact hdone a s hinv

end Loops

/-! ## What a program leaves alone -/

/-- The program `c` leaves the part `f` of the state as it is, and gets stuck with faults in `E`
only. -/
def Preserves (E : ε → Prop) (c : Prog σ ε α) (f : σ → γ) : Prop :=
  ∀ s, wp c E (fun _ s' => f s' = f s) s

namespace Preserves

variable {E : ε → Prop} {f : σ → γ}

theorem ok {c : Prog σ ε α} (h : Preserves E c f) {s s' : σ} {a : α} (hc : c s = .ok (a, s')) :
    f s' = f s :=
  wp_ok (h s) hc

/-- A preserved part may be added to any postcondition. -/
theorem wp_and {c : Prog σ ε α} {E' : ε → Prop} (h : Preserves E c f) {Q : α → σ → Prop} {s : σ}
    (hQ : wp c E' Q s) : wp c E' (fun a s' => Q a s' ∧ f s' = f s) s := by
  have hs := h s
  unfold wp at hQ hs ⊢
  cases hc : c s with
  | error e => rw [hc] at hQ; exact hQ
  | ok r => rw [hc] at hQ hs; exact ⟨hQ, hs⟩

theorem comp {δ : Type} {c : Prog σ ε α} (h : Preserves E c f) (g : γ → δ) :
    Preserves E c (fun s => g (f s)) :=
  fun s => wp_mono (h s) fun _ _ hs => congrArg g hs

theorem pure (a : α) : Preserves E (Pure.pure a : Prog σ ε α) f := fun _ => rfl

theorem throw {e : ε} (h : E e) : Preserves E (throw e : Prog σ ε α) f := fun _ => h

theorem bind {c : Prog σ ε β} {k : β → Prog σ ε α} (h : Preserves E c f)
    (hk : ∀ b, Preserves E (k b) f) : Preserves E (c >>= k) f := fun s => by
  rw [wp_bind]
  exact wp_mono (h s) fun b s' hs => wp_mono (hk b s') fun _ _ hs' => hs'.trans hs

theorem modify {g : σ → σ} (h : ∀ s, f (g s) = f s) :
    Preserves E (modify g : Prog σ ε Unit) f := h

theorem get : Preserves E (get : Prog σ ε σ) f := fun _ => rfl

theorem ite {b : Prop} [Decidable b] {c c' : Prog σ ε α} (h : Preserves E c f)
    (h' : Preserves E c' f) : Preserves E (if b then c else c') f := by
  by_cases hb : b
  · rw [if_pos hb]; exact h
  · rw [if_neg hb]; exact h'

theorem each_mem {body : β → Prog σ ε Unit} {l : List β} (h : ∀ b ∈ l, Preserves E (body b) f) :
    Preserves E (each body l) f := by
  induction l with
  | nil => exact pure ()
  | cons b bs ih =>
    exact bind (h b List.mem_cons_self) fun _ => ih fun b' hb' => h b' (List.mem_cons_of_mem _ hb')

theorem each {body : β → Prog σ ε Unit} (h : ∀ b, Preserves E (body b) f) (l : List β) :
    Preserves E (each body l) f := each_mem fun b _ => h b

theorem iterate {body : β → α → Prog σ ε (α × Option ρ)} (h : ∀ b a, Preserves E (body b a) f)
    (l : List β) (a : α) : Preserves E (iterate body l a) f := by
  induction l generalizing a with
  | nil => exact pure _
  | cons b bs ih =>
    refine bind (h b a) fun r => ?_
    obtain ⟨a', o⟩ := r
    cases o with
    | none => exact ih a'
    | some e => exact pure _

end Preserves

/-! ## How a program moves the state -/

/-- The program `c`, where it ends, has moved the state along the relation `R`. -/
def Evolves (R : σ → σ → Prop) (c : Prog σ ε α) : Prop :=
  ∀ s, wp c (fun _ => True) (fun _ s' => R s s') s

namespace Evolves

variable {R R' : σ → σ → Prop}

theorem mono {c : Prog σ ε α} (h : Evolves R c) (hR : ∀ s s', R s s' → R' s s') : Evolves R' c :=
  fun s => wp_mono (h s) fun _ s' hs' => hR s s' hs'

theorem throw (e : ε) : Evolves R (throw e : Prog σ ε α) := fun _ => trivial

theorem modify {f : σ → σ} (hf : ∀ s, R s (f s)) : Evolves R (modify f : Prog σ ε Unit) := hf

/-- A conditional statement whose branches are followed under its test. -/
theorem ite_of {b : Prop} [Decidable b] {c c' : Prog σ ε α} (h : b → Evolves R c)
    (h' : ¬b → Evolves R c') : Evolves R (if b then c else c') := by
  by_cases hb : b
  · rw [if_pos hb]
    exact h hb
  · rw [if_neg hb]
    exact h' hb

theorem ite {b : Prop} [Decidable b] {c c' : Prog σ ε α} (h : Evolves R c) (h' : Evolves R c') :
    Evolves R (if b then c else c') := ite_of (fun _ => h) fun _ => h'

variable [IsPreorder σ R]

theorem pure (a : α) : Evolves R (Pure.pure a : Prog σ ε α) := fun s => Std.Refl.refl s

theorem get : Evolves R (get : Prog σ ε σ) := fun s => Std.Refl.refl s

theorem bind {c : Prog σ ε β} {k : β → Prog σ ε α} (h : Evolves R c) (hk : ∀ b, Evolves R (k b)) :
    Evolves R (c >>= k) := by
  intro s
  refine (h s).bind fun b s₁ h₁ => ?_
  exact wp_mono (hk b s₁) fun _ s₂ h₂ => IsTrans.trans s s₁ s₂ h₁ h₂

theorem each {body : β → Prog σ ε Unit} (h : ∀ b, Evolves R (body b)) (l : List β) :
    Evolves R (each body l) := by
  induction l with
  | nil => exact pure ()
  | cons b bs ih => exact bind (h b) fun _ => ih

theorem iterate {body : β → α → Prog σ ε (α × Option ρ)} (h : ∀ b a, Evolves R (body b a))
    (l : List β) (a : α) : Evolves R (iterate body l a) := by
  induction l generalizing a with
  | nil => exact pure _
  | cons b bs ih =>
    refine bind (h b a) fun r => ?_
    obtain ⟨a', o⟩ := r
    cases o with
    | none => exact ih a'
    | some e => exact pure _

end Evolves

end Prog
