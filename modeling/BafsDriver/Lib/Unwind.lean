import BafsDriver.Lib.Prog

/-!
# Taking steps back

A program that has taken some steps, each of which another program takes back, is where it started
when they have been taken back, the last first. Two states count as the same where a relation holds
between them, which need not look at all of the state.
-/

namespace Prog

variable {σ ε β : Type}

/-- From every state that is the same as `t`, the program ends in one that is the same as `s`. -/
def TakesBack (E : ε → Prop) (R : σ → σ → Prop) (c : Prog σ ε Unit) (s t : σ) : Prop :=
  ∀ u, R u t → wp c E (fun _ u' => R u' s) u

/-- Taking the steps `l` back, the last first, leads from `t` to `s`. -/
def Unwinds (E : ε → Prop) (R : σ → σ → Prop) (undo : β → Prog σ ε Unit) (l : List β) (s t : σ) :
    Prop :=
  TakesBack E R (each undo l.reverse) s t

variable {E : ε → Prop} {R : σ → σ → Prop} {c c' : Prog σ ε Unit} {undo : β → Prog σ ε Unit}
  {l : List β} {b : β} {s t u : σ}

theorem TakesBack.bind (hc : TakesBack E R c t u) (hc' : TakesBack E R c' s t) :
    TakesBack E R (do c; c') s u := fun u' hu =>
  (hc u' hu).bind fun _ t' ht => hc' t' ht

theorem Unwinds.nil : Unwinds E R undo [] s s := fun _ hu => hu

/-- A step more is taken back first. -/
theorem Unwinds.push (hl : Unwinds E R undo l s t) (hb : TakesBack E R (undo b) t u) :
    Unwinds E R undo (l ++ [b]) s u := by
  unfold Unwinds
  rw [List.reverse_append]
  exact hb.bind hl

variable [IsPreorder σ R]

/-- What leaves the state the same need not be taken back. -/
theorem TakesBack.of_same (hc : TakesBack E R c s t) (hu : R u t) : TakesBack E R c s u :=
  fun u' hu' => hc u' (IsTrans.trans u' u t hu' hu)

end Prog
