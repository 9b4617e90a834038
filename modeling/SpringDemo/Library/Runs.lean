import Mathlib.Data.List.Basic

/-! Finite runs of a labelled transition relation, and the rules that lift one step to a run. -/
namespace Lib.Runs

variable {σ τ ℓ κ : Type*}

/-- A finite run, extended at its end, so that the labels read so far are its history. -/
inductive Run (step : σ → ℓ → σ → Prop) (s₀ : σ) : List ℓ → σ → Prop
  | start : Run step s₀ [] s₀
  | next {ls : List ℓ} {s t : σ} {l : ℓ} :
      Run step s₀ ls s → step s l t → Run step s₀ (ls ++ [l]) t

variable {step step' : σ → ℓ → σ → Prop} {astep : τ → κ → τ → Prop}
  {s₀ s t : σ} {ls ls' : List ℓ} {l : ℓ}

theorem Run.single (h : step s l t) : Run step s [l] t := .next .start h

theorem Run.append (h : Run step s₀ ls s) (h' : Run step s ls' t) :
    Run step s₀ (ls ++ ls') t := by
  induction h' with
  | start => simpa using h
  | next _ hs ih =>
    rw [← List.append_assoc]
    exact .next ih hs

/-- The last step of a run. -/
theorem Run.of_concat (h : Run step s₀ (ls ++ [l]) t) : ∃ s, Run step s₀ ls s ∧ step s l t := by
  generalize hk : ls ++ [l] = ks at h
  cases h with
  | start => simp at hk
  | next hr hs =>
    obtain ⟨rfl, hl⟩ := List.append_inj' hk rfl
    cases hl
    exact ⟨_, hr, hs⟩

/-- The state in which a run stands when it has read some of its labels. -/
theorem Run.split (h : Run step s₀ (ls ++ ls') t) :
    ∃ s, Run step s₀ ls s ∧ Run step s ls' t := by
  induction ls' generalizing ls with
  | nil => exact ⟨t, by simpa using h, .start⟩
  | cons l ls' ih =>
    rw [List.append_cons] at h
    obtain ⟨s, hr, hr'⟩ := ih h
    obtain ⟨u, hu, hs⟩ := hr.of_concat
    exact ⟨u, hu, (Run.single hs).append hr'⟩

/-- What every step preserves holds in every state that a run reaches. -/
theorem Run.invariant {P : σ → Prop} (hstep : ∀ s l t, step s l t → P s → P t)
    (h₀ : P s₀) (h : Run step s₀ ls s) : P s := by
  induction h with
  | start => exact h₀
  | next _ hs ih => exact hstep _ _ _ hs ih

/-- An invariant that also speaks about the labels read so far. -/
theorem Run.history {R : List ℓ → σ → Prop}
    (hstep : ∀ ls s l t, step s l t → R ls s → R (ls ++ [l]) t)
    (h₀ : R [] s₀) (h : Run step s₀ ls s) : R ls s := by
  induction h with
  | start => exact h₀
  | next _ hs ih => exact hstep _ _ _ _ hs ih

/-- Where every step brings a measure down, a run is no longer than the measure was at first. -/
theorem Run.length_add_le {P : σ → Prop} (μ : σ → Nat)
    (hstep : ∀ s l t, step s l t → P s → P t ∧ μ t < μ s) (h₀ : P s₀)
    (h : Run step s₀ ls s) : P s ∧ ls.length + μ s ≤ μ s₀ := by
  induction h with
  | start => exact ⟨h₀, by simp⟩
  | next _ hs ih =>
    obtain ⟨hp, hlt⟩ := hstep _ _ _ hs ih.1
    have hle := ih.2
    rw [List.length_append, List.length_singleton]
    exact ⟨hp, by omega⟩

/-- A run all of whose steps, taken where it takes them, are steps of another relation. -/
theorem Run.strengthen (hstep : ∀ ls s l t, Run step s₀ ls s → step s l t → step' s l t)
    (h : Run step s₀ ls s) : Run step' s₀ ls s := by
  induction h with
  | start => exact .start
  | next hr hs ih => exact .next ih (hstep _ _ _ _ hr hs)

theorem Run.mono (hstep : ∀ s l t, step s l t → step' s l t) (h : Run step s₀ ls s) :
    Run step' s₀ ls s :=
  h.strengthen fun _ s l t _ => hstep s l t

/-- A refinement mapping under which each step is matched by an abstract run
matches every run by an abstract run. -/
theorem Run.simulate (abs : σ → τ)
    (hstep : ∀ s l t, step s l t → ∃ ks, Run astep (abs s) ks (abs t))
    (h : Run step s₀ ls s) : ∃ ks, Run astep (abs s₀) ks (abs s) := by
  induction h with
  | start => exact ⟨[], .start⟩
  | next _ hs ih =>
    obtain ⟨ks, hk⟩ := ih
    obtain ⟨ks', hk'⟩ := hstep _ _ _ hs
    exact ⟨ks ++ ks', hk.append hk'⟩

end Lib.Runs
