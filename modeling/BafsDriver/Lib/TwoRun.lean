import BafsDriver.Lib.Run
import Mathlib.Data.List.Forall2

/-!
# Two runs

What an observer sees of a run are the results of its steps and what the states show. Two lists of
requests that are related, pair by pair, may differ in a part that the observer does not know. He sees
the same of every run of a related list exactly if each request meets a condition under which it hides
its part.
-/

namespace Prog

variable {σ ε ρ α β : Type}

/-- What is seen of a run: after each request its result and the view of the state, and the fault of a
request that gets stuck. -/
def observe (step : ρ → Prog σ ε α) (view : σ → β) : List ρ → σ → List (Except ε (α × β))
  | [], _ => []
  | r :: rs, s =>
    match step r s with
    | .ok (a, s') => .ok (a, view s') :: observe step view rs s'
    | .error e => [.error e]

section TwoRuns

variable {step : ρ → Prog σ ε α} {view : σ → β} {R : ρ → ρ → Prop} {I : σ → Prop}
  {K : σ → ρ → Prop}

/-- What is seen of the first request. -/
theorem observe_head {r r' : ρ} {rs rs' : List ρ} {s : σ}
    (he : observe step view (r' :: rs') s = observe step view (r :: rs) s) :
    observe step view [r'] s = observe step view [r] s := by
  unfold observe at he ⊢
  cases hc : step r s with
  | error e =>
    cases hc' : step r' s with
    | error e' =>
      rw [hc, hc'] at he
      exact he
    | ok q' =>
      rw [hc, hc'] at he
      cases (List.cons.inj he).1
  | ok q =>
    cases hc' : step r' s with
    | error e' =>
      rw [hc, hc'] at he
      cases (List.cons.inj he).1
    | ok q' =>
      rw [hc, hc'] at he
      exact congrArg (fun o => [o]) (List.cons.inj he).1

/-- Requests that hide their part leave the same state whatever it is. -/
theorem observe_eq_of_along (hI : ∀ s r, I s → K s r → wp (step r) (fun _ => True) (fun _ s' => I s') s)
    (hsame : ∀ s r r', I s → K s r → R r r' → step r' s = step r s) {rs rs' : List ρ} {s : σ}
    (hs : I s) (hK : Along step K rs s) (hR : List.Forall₂ R rs rs') :
    observe step view rs' s = observe step view rs s := by
  induction hR generalizing s with
  | nil => rfl
  | @cons r r' rs rs' hr hR ih =>
    obtain ⟨hKr, hK⟩ := hK
    have hstep := hsame s r r' hs hKr hr
    have hI' := hI s r hs hKr
    unfold observe
    rw [hstep]
    cases hc : step r s with
    | error e => rfl
    | ok q =>
      exact congrArg (List.cons _) (ih (wp_ok hI' hc) (wp_ok hK hc))

/-- What an observer sees does not depend on the part that the requests hide exactly if they hide it. -/
theorem observe_eq_iff_along
    (hI : ∀ s r, I s → K s r → wp (step r) (fun _ => True) (fun _ s' => I s') s)
    (hsame : ∀ s r r', I s → K s r → R r r' → step r' s = step r s)
    (hdiff : ∀ s r, I s → ¬K s r → ∃ r', R r r' ∧
      observe step view [r'] s ≠ observe step view [r] s)
    (hR : ∀ r, R r r) (rs : List ρ) {s : σ} (hs : I s) :
    (∀ rs', List.Forall₂ R rs rs' → observe step view rs' s = observe step view rs s) ↔
      Along step K rs s := by
  refine ⟨fun h => ?_, fun hK rs' hrs => observe_eq_of_along hI hsame hs hK hrs⟩
  induction rs generalizing s with
  | nil => trivial
  | cons r rs ih =>
    have hrefl : List.Forall₂ R rs rs := List.forall₂_same.mpr fun r _ => hR r
    have hKr : K s r := by
      by_contra hno
      obtain ⟨r', hr, hne⟩ := hdiff s r hs hno
      exact hne (observe_head (h (r' :: rs) (.cons hr hrefl)))
    refine ⟨hKr, ?_⟩
    have hI' := hI s r hs hKr
    unfold wp at hI' ⊢
    cases hc : step r s with
    | error e => trivial
    | ok q =>
      rw [hc] at hI'
      refine ih hI' fun rs' hrs => ?_
      have he := h (r :: rs') (.cons (hR r) hrs)
      unfold observe at he
      rw [hc] at he
      exact (List.cons.inj he).2

end TwoRuns

end Prog
