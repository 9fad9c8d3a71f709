import Mathlib.Logic.Basic

/-!
# Simulation of machines with outputs

A machine with outputs is a function `step : σ → ι → ο × σ`: an input given in a state yields an
output and the next state, and `run` feeds it a list of inputs. A client may give an input only
in the states its precondition `pre` allows; a run that keeps to it is `Admissible`.

A relation `R` between the states of a concrete and of an abstract machine is a simulation under
`pre` when, from related states, every input `pre` allows gives both machines the same output and
related next states. Every admissible run from related states then gives the same outputs and
ends in related states (`IsSimulation.run`).
-/

namespace Simulation

variable {σ τ ι ο : Type*}

/-- The outputs and the last state of the run of `step` from `s` over the inputs. -/
def run (step : σ → ι → ο × σ) (s : σ) : List ι → List ο × σ
  | [] => ([], s)
  | i :: is =>
    let r := step s i
    let rs := run step r.2 is
    (r.1 :: rs.1, rs.2)

@[simp] lemma run_nil (step : σ → ι → ο × σ) (s : σ) : run step s [] = ([], s) := rfl

@[simp] lemma run_cons (step : σ → ι → ο × σ) (s : σ) (i : ι) (is : List ι) :
    run step s (i :: is) =
      ((step s i).1 :: (run step (step s i).2 is).1, (run step (step s i).2 is).2) := rfl

/-- Every input of the run meets `pre` in the state it is given in. -/
def Admissible (step : σ → ι → ο × σ) (pre : σ → ι → Prop) : σ → List ι → Prop
  | _, [] => True
  | s, i :: is => pre s i ∧ Admissible step pre (step s i).2 is

instance Admissible.decidable (step : σ → ι → ο × σ) (pre : σ → ι → Prop)
    [∀ s i, Decidable (pre s i)] : ∀ s is, Decidable (Admissible step pre s is)
  | _, [] => isTrue trivial
  | s, i :: is =>
    have := Admissible.decidable step pre (step s i).2 is
    inferInstanceAs (Decidable (pre s i ∧ _))

/-- `R` is a simulation of `astep` by `cstep` under `pre`: from related states, an input `pre`
allows gives the same output and related states. -/
def IsSimulation (cstep : σ → ι → ο × σ) (astep : τ → ι → ο × τ) (pre : σ → ι → Prop)
    (R : σ → τ → Prop) : Prop :=
  ∀ ⦃s a i⦄, R s a → pre s i → (cstep s i).1 = (astep a i).1 ∧ R (cstep s i).2 (astep a i).2

/-- A simulation carries over every admissible run: the same outputs, and related last
states. -/
theorem IsSimulation.run {cstep : σ → ι → ο × σ} {astep : τ → ι → ο × τ} {pre : σ → ι → Prop}
    {R : σ → τ → Prop} (h : IsSimulation cstep astep pre R) {s : σ} {a : τ} (hR : R s a)
    {is : List ι} (hadm : Admissible cstep pre s is) :
    (Simulation.run cstep s is).1 = (Simulation.run astep a is).1 ∧
      R (Simulation.run cstep s is).2 (Simulation.run astep a is).2 := by
  -- induction on the inputs, the related pair of states moving along
  induction is generalizing s a with
  | nil => exact ⟨rfl, hR⟩
  | cons i is ih =>
    obtain ⟨hpre, hadm⟩ := hadm
    obtain ⟨hout, hR'⟩ := h hR hpre
    obtain ⟨houts, hR''⟩ := ih hR' hadm
    exact ⟨by rw [run_cons, run_cons, hout, houts], hR''⟩

end Simulation
