/-!
# Runs of a machine

A machine is a step function: a state and an input give the next state, and a
run is a list of inputs. Whatever a program leaves to chance, to the clock or
to another process is part of the input, so quantifying over input lists
quantifies over every interleaving and every failure.

`Always P` says a property holds in every state of a run, the first one
included; `Each C` says a condition holds of every step, read in the state the
step is taken from. The rules below carry facts about one step to facts about
whole runs.
-/

namespace AgentDocker.Lib

variable {σ ι : Type}

/-- The state a run ends in. -/
def run (step : σ → ι → σ) (s : σ) (inputs : List ι) : σ :=
  inputs.foldl step s

theorem run_append (step : σ → ι → σ) (s : σ) (inputs more : List ι) :
    run step s (inputs ++ more) = run step (run step s inputs) more :=
  List.foldl_append

/-- `P` in every state of the run. -/
def Always (step : σ → ι → σ) (P : σ → Prop) : σ → List ι → Prop
  | s, [] => P s
  | s, i :: rest => P s ∧ Always step P (step s i) rest

/-- `C` of every step of the run. -/
def Each (step : σ → ι → σ) (C : σ → ι → Prop) : σ → List ι → Prop
  | _, [] => True
  | s, i :: rest => C s i ∧ Each step C (step s i) rest

variable {step : σ → ι → σ} {P Q : σ → Prop} {C G : σ → ι → Prop}

instance Always.decidable [DecidablePred P] : ∀ s inputs, Decidable (Always step P s inputs)
  | s, [] => inferInstanceAs (Decidable (P s))
  | s, i :: rest =>
    have := Always.decidable (step s i) rest
    inferInstanceAs (Decidable (P s ∧ Always step P (step s i) rest))

instance Each.decidable [∀ s i, Decidable (C s i)] : ∀ s inputs, Decidable (Each step C s inputs)
  | _, [] => .isTrue trivial
  | s, i :: rest =>
    have := Each.decidable (step s i) rest
    inferInstanceAs (Decidable (C s i ∧ Each step C (step s i) rest))

variable {inputs more : List ι} {s : σ}

theorem Always.head (h : Always step P s inputs) : P s := by
  cases inputs with
  | nil => exact h
  | cons => exact h.1

theorem Always.last (h : Always step P s inputs) : P (run step s inputs) := by
  induction inputs generalizing s with
  | nil => exact h
  | cons _ _ ih => exact ih h.2

theorem Always.imp (h : Always step P s inputs) (hpq : ∀ s, P s → Q s) :
    Always step Q s inputs := by
  induction inputs generalizing s with
  | nil => exact hpq s h
  | cons _ _ ih => exact ⟨hpq s h.1, ih h.2⟩

theorem Each.of_mem {p : ι → Prop} (h : ∀ i ∈ inputs, p i) :
    Each step (fun _ i => p i) s inputs := by
  induction inputs generalizing s with
  | nil => exact trivial
  | cons i _ ih =>
    exact ⟨h i List.mem_cons_self, ih fun j hj => h j (List.mem_cons_of_mem _ hj)⟩

theorem Each.imp (h : Each step C s inputs) (hcg : ∀ s i, C s i → G s i) :
    Each step G s inputs := by
  induction inputs generalizing s with
  | nil => exact trivial
  | cons i _ ih => exact ⟨hcg s i h.1, ih h.2⟩

theorem Each.of_forall (h : ∀ s i, C s i) : Each step C s inputs :=
  (Each.of_mem fun _ _ => trivial).imp fun s i _ => h s i

theorem Each.and (h : Each step C s inputs) (h' : Each step G s inputs) :
    Each step (fun s i => C s i ∧ G s i) s inputs := by
  induction inputs generalizing s with
  | nil => exact trivial
  | cons _ _ ih => exact ⟨⟨h.1, h'.1⟩, ih h.2 h'.2⟩

theorem Always.append (h : Always step P s inputs) (h' : Always step P (run step s inputs) more) :
    Always step P s (inputs ++ more) := by
  induction inputs generalizing s with
  | nil => exact h'
  | cons _ _ ih => exact ⟨h.1, ih h.2 h'⟩

theorem Each.append (h : Each step C s inputs) (h' : Each step C (run step s inputs) more) :
    Each step C s (inputs ++ more) := by
  induction inputs generalizing s with
  | nil => exact h'
  | cons _ _ ih => exact ⟨h.1, ih h.2 h'⟩

/-- What holds in every state holds where every step is taken from. -/
theorem Always.each (h : Always step P s inputs) : Each step (fun s _ => P s) s inputs := by
  induction inputs generalizing s with
  | nil => exact trivial
  | cons _ _ ih => exact ⟨h.1, ih h.2⟩

/-- What holds in every state holds where every step leads. -/
theorem Always.each_next (h : Always step P s inputs) :
    Each step (fun s i => P (step s i)) s inputs := by
  induction inputs generalizing s with
  | nil => exact trivial
  | cons _ _ ih => exact ⟨h.2.head, ih h.2⟩

/-- The invariant rule: what the first state satisfies and every step that
meets its condition keeps, holds along every run whose steps all do. -/
theorem always_of_each (hs : P s) (hstep : ∀ s i, P s → C s i → P (step s i))
    (hc : Each step C s inputs) : Always step P s inputs := by
  induction inputs generalizing s with
  | nil => exact hs
  | cons i _ ih => exact ⟨hs, ih (hstep s i hs hc.1) hc.2⟩

/-- The same for a property every step keeps. -/
theorem always_of_invariant (hs : P s) (hstep : ∀ s i, P s → P (step s i)) :
    Always step P s inputs :=
  always_of_each (C := fun _ _ => True) hs (fun s i h _ => hstep s i h)
    (.of_forall fun _ _ => trivial)

/-- What every state of an invariant allows holds of every step. -/
theorem each_of_invariant (hs : P s) (hstep : ∀ s i, P s → P (step s i)) (hc : ∀ s i, P s → C s i) :
    Each step C s inputs :=
  (always_of_invariant hs hstep).each.imp hc

/-- The exact rule: where a step keeps the property if and only if it meets
the condition, the runs that keep it throughout are the runs whose steps all
meet it. `Q` is an invariant of its own, kept by the steps `G` admits. -/
theorem always_iff_each (hq : Q s) (hp : P s) (hinv : ∀ s i, Q s → G s i → Q (step s i))
    (hexact : ∀ s i, Q s → G s i → P s → (P (step s i) ↔ C s i)) (hg : Each step G s inputs) :
    Always step P s inputs ↔ Each step C s inputs := by
  induction inputs generalizing s with
  | nil => exact ⟨fun _ => trivial, fun _ => hp⟩
  | cons i _ ih =>
    have hi := hexact s i hq hg.1 hp
    have hq' := hinv s i hq hg.1
    constructor
    · intro h
      have hp' : P (step s i) := h.2.head
      exact ⟨hi.mp hp', (ih hq' hp' hg.2).mp h.2⟩
    · intro h
      exact ⟨hp, (ih hq' (hi.mpr h.1) hg.2).mpr h.2⟩

/-- The exact rule for a property that is no invariant by itself: `Q` is, of
the steps that meet the condition, and a step that does not breaks `P`. -/
theorem always_iff_each_of_invariant (hs : Q s) (himp : ∀ s, Q s → P s)
    (hkeeps : ∀ s i, Q s → C s i → Q (step s i)) (hbreaks : ∀ s i, Q s → ¬ C s i → ¬ P (step s i)) :
    Always step P s inputs ↔ Each step C s inputs := by
  constructor
  · intro h
    induction inputs generalizing s with
    | nil => exact trivial
    | cons i _ ih =>
      have hc : C s i :=
        Classical.byContradiction fun hc => hbreaks s i hs hc h.2.head
      exact ⟨hc, ih (hkeeps s i hs hc) h.2⟩
  · intro h
    exact (always_of_each hs hkeeps h).imp himp

end AgentDocker.Lib
