/-!
# Runs

Actions one after the other on a state, each with an answer. No refusal ends a run.
-/

namespace Savegame

variable {σ α β : Type}

/-- The answers of a run, and the state after each of them. -/
def trace (step : σ → α → β × σ) : σ → List α → List (β × σ)
  | _, [] => []
  | s, a :: rest => step s a :: trace step (step s a).2 rest

/-- The state that a run leads to. -/
def after (step : σ → α → β × σ) (s : σ) (run : List α) : σ :=
  run.foldl (fun s a => (step s a).2) s

/-- A run in two parts. -/
theorem trace_append (step : σ → α → β × σ) (s : σ) (front rest : List α) :
    trace step s (front ++ rest) = trace step s front ++ trace step (after step s front) rest := by
  induction front generalizing s with
  | nil => rfl
  | cons a front ih => exact congrArg _ (ih _)

/-- Two runs of the same actions give the same answers if their states are related to start with,
and actions on related states are answered alike and lead to related states. -/
theorem trace_of_simulation {τ : Type} {step : σ → α → β × σ} {step' : τ → α → β × τ}
    (R : σ → τ → Prop) {run : List α} {s : σ} {t : τ}
    (h : ∀ s t, R s t → ∀ a ∈ run, (step s a).1 = (step' t a).1 ∧ R (step s a).2 (step' t a).2)
    (hst : R s t) :
    (trace step s run).map (·.1) = (trace step' t run).map (·.1) ∧
      R (after step s run) (after step' t run) := by
  induction run generalizing s t with
  | nil => exact ⟨rfl, hst⟩
  | cons a rest ih =>
    obtain ⟨hanswer, hnext⟩ := h s t hst a List.mem_cons_self
    obtain ⟨hrest, hlast⟩ := ih (fun s t hr b hb => h s t hr b (List.mem_cons_of_mem a hb)) hnext
    refine ⟨?_, hlast⟩
    rw [trace, trace, List.map_cons, List.map_cons, hanswer, hrest]

end Savegame
