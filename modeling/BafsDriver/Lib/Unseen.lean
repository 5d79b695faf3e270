import BafsDriver.Lib.Prog

/-!
# Programs that do not see a part of the state

A program that neither reads nor writes a part of the state does the same whatever is put there, and
leaves it there. `put` is the function that puts it.
-/

namespace Prog

variable {σ ε α β γ : Type} {put : γ → σ → σ}

/-- The program does not see what is put. -/
def Unseen (put : γ → σ → σ) (c : Prog σ ε α) : Prop :=
  ∀ g s, c (put g s) = (fun r => (r.1, put g r.2)) <$> c s

theorem bind_error {c : Prog σ ε β} {k : β → Prog σ ε α} {e : ε} {s : σ} (hc : c s = .error e) :
    (c >>= k) s = .error e := by
  show (c s >>= fun r => k r.1 r.2) = _
  rw [hc]
  rfl

namespace Unseen

theorem pure (a : α) : Unseen put (Pure.pure a : Prog σ ε α) := fun _ _ => rfl

theorem throw (e : ε) : Unseen put (MonadExcept.throw e : Prog σ ε α) := fun _ _ => rfl

theorem bind {c : Prog σ ε β} {k : β → Prog σ ε α} (hc : Unseen put c)
    (hk : ∀ b, Unseen put (k b)) : Unseen put (c >>= k) := by
  intro g s
  show (c (put g s) >>= fun r => k r.1 r.2) = _ <$> (c s >>= fun r => k r.1 r.2)
  rw [hc g s]
  cases c s with
  | error e => rfl
  | ok r => exact hk r.1 g r.2

theorem ite {b : Prop} [Decidable b] {c c' : Prog σ ε α} (hc : Unseen put c)
    (hc' : Unseen put c') : Unseen put (if b then c else c') := by
  by_cases hb : b
  · rwa [if_pos hb]
  · rwa [if_neg hb]

theorem modify {f : σ → σ} (hf : ∀ g s, f (put g s) = put g (f s)) :
    Unseen put (MonadState.modifyGet fun s => ((), f s) : Prog σ ε Unit) := by
  intro g s
  show Except.ok ((), f (put g s)) = Except.ok ((), put g (f s))
  rw [hf]

/-- What is read from the state is the same before and after. -/
theorem gets {f : σ → β} {k : β → Prog σ ε α} (hf : ∀ g s, f (put g s) = f s)
    (hk : ∀ b, Unseen put (k b)) : Unseen put (do let s ← get; k (f s)) := by
  intro g s
  show k (f (put g s)) (put g s) = _
  rw [hf]
  exact hk (f s) g s

theorem each {body : β → Prog σ ε Unit} (h : ∀ b, Unseen put (body b)) (l : List β) :
    Unseen put (Prog.each body l) := by
  induction l with
  | nil => exact pure ()
  | cons b bs ih => exact (h b).bind fun _ => ih

/-- What is put stays. -/
theorem stays {c : Prog σ ε α} (h : Unseen put c) {get : σ → γ} (hput : ∀ s, put (get s) s = s)
    (hget : ∀ g s, get (put g s) = g) {s t : σ} {a : α} (hc : c s = .ok (a, t)) :
    get t = get s := by
  have heq := h (get s) s
  rw [hput, hc] at heq
  have ht : t = put (get s) t := congrArg Prod.snd (Except.ok.inj heq)
  rw [ht, hget]

end Unseen

end Prog
