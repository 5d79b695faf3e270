import BafsDriver.Lib.Prog

/-!
# Runs

A system answers one request after another by a program on its state. `run` is what comes of a list
of requests. `Always` says that a property
holds of every state between two requests of a run, and that a run gets stuck with tolerated faults
only; `Along` says that every request of a run meets a condition in the state in which it arrives.
For a property with a condition that is exact at every step, the two are equivalent on every run.
-/

namespace Prog

variable {σ ε ρ α : Type}

/-- The state after the requests, or the fault of the first that gets stuck. -/
def run (step : ρ → Prog σ ε α) : List ρ → σ → Except ε σ
  | [], s => .ok s
  | r :: rs, s =>
    match step r s with
    | .ok (_, s') => run step rs s'
    | .error e => .error e

/-- Whether the run ends, in a state that passes the test. -/
def ends (step : ρ → Prog σ ε α) (p : σ → Bool) (rs : List ρ) (s : σ) : Bool :=
  match run step rs s with
  | .ok s' => p s'
  | .error _ => false

/-- The state in which the run ends, if it does. -/
def final (step : ρ → Prog σ ε α) (rs : List ρ) (s : σ) : σ :=
  match run step rs s with
  | .ok s' => s'
  | .error _ => s

theorem run_final {step : ρ → Prog σ ε α} {p : σ → Bool} {rs : List ρ} {s : σ}
    (h : ends step p rs s = true) :
    run step rs s = .ok (final step rs s) ∧ p (final step rs s) = true := by
  unfold ends at h
  unfold final
  cases hr : run step rs s with
  | error e =>
    rw [hr] at h
    cases h
  | ok s' =>
    rw [hr] at h
    exact ⟨rfl, h⟩

/-- Every state that the run of the requests reaches from `s` satisfies `P`; where the run gets
stuck, it is with a fault in `E`. -/
def Always (step : ρ → Prog σ ε α) (E : ε → Prop) (P : σ → Prop) : List ρ → σ → Prop
  | [], s => P s
  | r :: rs, s => P s ∧ wp (step r) E (fun _ s' => Always step E P rs s') s

/-- Every request of the run from `s` that is reached meets the condition `K` in the state in which
it arrives. -/
def Along (step : ρ → Prog σ ε α) (K : σ → ρ → Prop) : List ρ → σ → Prop
  | [], _ => True
  | r :: rs, s => K s r ∧ wp (step r) (fun _ => True) (fun _ s' => Along step K rs s') s

/-- Whether every request of the run that is reached passes a test. -/
def tests (step : ρ → Prog σ ε α) (k : σ → ρ → Bool) : List ρ → σ → Bool
  | [], _ => true
  | r :: rs, s => k s r && match step r s with
    | .ok (_, s') => tests step k rs s'
    | .error _ => true

section Runs

variable {step : ρ → Prog σ ε α} {E : ε → Prop} {I P Q : σ → Prop} {K : σ → ρ → Prop}

/-- Two facts about one run of a program whose tolerated faults do not meet. -/
theorem wp_join {c : Prog σ ε α} {E' : ε → Prop} {Q Q' : α → σ → Prop} {s : σ} (h : wp c E Q s)
    (h' : wp c E' Q' s) (hE : ∀ e, E e → E' e → False) : ∃ a s', Q a s' ∧ Q' a s' := by
  unfold wp at h h'
  cases hc : c s with
  | error e =>
    rw [hc] at h h'
    exact (hE e h h').elim
  | ok r =>
    rw [hc] at h h'
    exact ⟨r.1, r.2, h, h'⟩

theorem Always.here {rs : List ρ} {s : σ} (h : Always step E P rs s) : P s := by
  cases rs with
  | nil => exact h
  | cons r rs => exact h.1

/-- What `Always` says of the runs of the first requests. -/
theorem always_iff_run {rs : List ρ} {s : σ} : Always step E P rs s ↔
    ∀ ps, ps <+: rs → (∀ s', run step ps s = .ok s' → P s') ∧ ∀ e, run step ps s = .error e → E e := by
  induction rs generalizing s with
  | nil =>
    refine ⟨fun h ps hp => ?_, fun h => (h [] (List.nil_prefix)).1 s rfl⟩
    rw [List.prefix_nil.mp hp]
    exact ⟨fun s' hs' => by cases hs'; exact h, fun e he => by cases he⟩
  | cons r rs ih =>
    refine ⟨fun ⟨hP, h⟩ ps hp => ?_, fun h => ⟨(h [] List.nil_prefix).1 s rfl, ?_⟩⟩
    · cases ps with
      | nil => exact ⟨fun s' hs' => by cases hs'; exact hP, fun e he => by cases he⟩
      | cons r' ps =>
        obtain ⟨rfl, hps⟩ := List.cons_prefix_cons.mp hp
        unfold wp at h
        unfold run
        cases hc : step r' s with
        | error e =>
          rw [hc] at h
          exact ⟨(fun s' hs' => by cases hs'), fun e' he => by cases he; exact h⟩
        | ok q =>
          rw [hc] at h
          exact ih.mp h ps hps
    · unfold wp
      cases hc : step r s with
      | error e =>
        refine (h [r] (List.cons_prefix_cons.mpr ⟨rfl, List.nil_prefix⟩)).2 e ?_
        unfold run
        rw [hc]
      | ok q =>
        refine ih.mpr fun ps hp => ?_
        have := h (r :: ps) (List.cons_prefix_cons.mpr ⟨rfl, hp⟩)
        unfold run at this
        rw [hc] at this
        exact this

theorem Always.of_ends {p : σ → Bool} {rs : List ρ} {s : σ} (h : Always step E P rs s)
    (hp : ends step p rs s = true) : ∃ s', P s' ∧ p s' = true := by
  have h := (always_iff_run.mp h rs (List.prefix_refl rs)).1
  unfold ends at hp
  cases hr : run step rs s with
  | error e =>
    rw [hr] at hp
    cases hp
  | ok s' =>
    rw [hr] at hp
    exact ⟨s', h s' hr, hp⟩

/-- An invariant that every request keeps holds in every state. -/
theorem always_of_step (hstep : ∀ s r, I s → wp (step r) E (fun _ s' => I s') s)
    (hP : ∀ s, I s → P s) (rs : List ρ) {s : σ} (hs : I s) : Always step E P rs s := by
  induction rs generalizing s with
  | nil => exact hP s hs
  | cons r rs ih => exact ⟨hP s hs, wp_mono (hstep s r hs) fun _ s' hs' => ih hs'⟩

/-- An invariant that requests keep as long as they meet the condition holds in every state of a run
along it. -/
theorem always_of_along (hstep : ∀ s r, I s → K s r → wp (step r) E (fun _ s' => I s') s)
    (hP : ∀ s, I s → P s) {rs : List ρ} {s : σ} (hs : I s) (hK : Along step K rs s) :
    Always step E P rs s := by
  induction rs generalizing s with
  | nil => exact hP s hs
  | cons r rs ih =>
    refine ⟨hP s hs, ?_⟩
    have h := hstep s r hs hK.1
    have hK := hK.2
    unfold wp at h hK ⊢
    cases hc : step r s with
    | error e =>
      rw [hc] at h
      exact h
    | ok r' =>
      rw [hc] at h hK
      exact ih h hK

/-- Where the property holds after a step of the kind `D` exactly if the step meets the condition, it
holds in every state of a run of such steps exactly if every step does. -/
theorem always_iff_along_of {D : σ → ρ → Prop}
    (hI : ∀ s r, I s → P s → D s r → K s r → wp (step r) (fun _ => True) (fun _ s' => I s') s)
    (hstep : ∀ s r, I s → P s → D s r → (wp (step r) E (fun _ s' => P s') s ↔ K s r))
    (rs : List ρ) {s : σ} (hs : I s) (hP : P s) (hD : Along step D rs s) :
    Always step E P rs s ↔ Along step K rs s := by
  induction rs generalizing s with
  | nil => exact ⟨fun _ => trivial, fun _ => hP⟩
  | cons r rs ih =>
    obtain ⟨hDr, hD⟩ := hD
    refine ⟨fun ⟨_, ha⟩ => ?_, fun ⟨hK, ha⟩ => ⟨hP, ?_⟩⟩
    · have hK : K s r := (hstep s r hs hP hDr).mp (wp_mono ha fun _ _ h => h.here)
      refine ⟨hK, ?_⟩
      have hI' := hI s r hs hP hDr hK
      unfold wp at ha hI' hD ⊢
      cases hc : step r s with
      | error e => trivial
      | ok r' =>
        rw [hc] at ha hI' hD
        exact (ih hI' ha.here hD).mp ha
    · have hP' := (hstep s r hs hP hDr).mpr hK
      have hI' := hI s r hs hP hDr hK
      unfold wp at ha hI' hP' hD ⊢
      cases hc : step r s with
      | error e =>
        rw [hc] at hP'
        exact hP'
      | ok r' =>
        rw [hc] at ha hI' hP' hD
        exact (ih hI' hP' hD).mpr ha

/-- A test that implies the condition shows that the requests of a run meet it. -/
theorem along_of_tests {k : σ → ρ → Bool} (hk : ∀ s r, k s r = true → K s r) {rs : List ρ} {s : σ}
    (h : tests step k rs s = true) : Along step K rs s := by
  induction rs generalizing s with
  | nil => trivial
  | cons r rs ih =>
    obtain ⟨hr, h⟩ := Bool.and_eq_true_iff.mp h
    refine ⟨hk s r hr, ?_⟩
    unfold wp
    cases hc : step r s with
    | error e => trivial
    | ok r' =>
      rw [hc] at h
      exact ih h

/-- Every step meets the condition that asks for nothing. -/
theorem along_true (rs : List ρ) (s : σ) : Along step (fun _ _ => True) rs s := by
  induction rs generalizing s with
  | nil => trivial
  | cons r rs ih =>
    refine ⟨trivial, ?_⟩
    unfold wp
    cases step r s with
    | error e => trivial
    | ok r' => exact ih r'.2

/-- Where the property holds after a step exactly if the step meets the condition, it holds in every
state of a run exactly if every step does. -/
theorem always_iff_along
    (hI : ∀ s r, I s → P s → K s r → wp (step r) (fun _ => True) (fun _ s' => I s') s)
    (hstep : ∀ s r, I s → P s → (wp (step r) E (fun _ s' => P s') s ↔ K s r))
    (rs : List ρ) {s : σ} (hs : I s) (hP : P s) : Always step E P rs s ↔ Along step K rs s :=
  always_iff_along_of (fun s r hs hP _ => hI s r hs hP) (fun s r hs hP _ => hstep s r hs hP) rs hs hP
    (along_true rs s)

end Runs

end Prog
