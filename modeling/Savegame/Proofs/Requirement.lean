import Savegame.Proofs.Reading

/-!
# Requirements

Conditions that are checked in order, each with the error of what fails it. An answer is judged by
such a list if it is good exactly when all conditions hold, and otherwise the error of the first one
that fails.
-/

namespace Savegame

/-- A condition, and the error of what fails it. -/
structure Requirement where
  holds : Prop
  error : SaveError

namespace Requirement

/-- All requirements before one that fails hold, and `e` is the error of that one. -/
def FirstFailure (requirements : List Requirement) (e : SaveError) : Prop :=
  ∃ before q after, requirements = before ++ q :: after ∧ (∀ p ∈ before, p.holds) ∧
    ¬ q.holds ∧ q.error = e

/-- An answer that comes from checking requirements in order. -/
inductive Judged {α : Type} : List Requirement → Except SaveError α → Prop
  | done (x : α) : Judged [] (.ok x)
  | fails {q : Requirement} (rest : List Requirement) (hq : ¬ q.holds) :
      Judged (q :: rest) (.error q.error)
  | passes {q : Requirement} {rest : List Requirement} {answer : Except SaveError α} (hq : q.holds)
      (hrest : Judged rest answer) : Judged (q :: rest) answer

namespace Judged

variable {α β : Type} {first second : List Requirement} {answer : Except SaveError α}

theorem map (h : Judged first answer) (g : α → β) : Judged first (answer.map g) := by
  induction h with
  | done x => exact done (g x)
  | fails rest hq => exact fails rest hq
  | passes hq _ ih => exact passes hq ih

theorem bind (h : Judged first answer) {next : α → Except SaveError β}
    (hnext : ∀ x, answer = .ok x → Judged second (next x)) :
    Judged (first ++ second) (answer.bind next) := by
  induction h with
  | done x => exact hnext x rfl
  | fails rest hq => exact fails (rest ++ second) hq
  | passes hq _ ih => exact passes hq (ih hnext)

theorem isOk_iff (h : Judged first answer) :
    (∃ x, answer = .ok x) ↔ ∀ q ∈ first, q.holds := by
  induction h with
  | done x => exact ⟨fun _ _ hq => absurd hq List.not_mem_nil, fun _ => ⟨x, rfl⟩⟩
  | fails rest hq =>
    constructor
    · rintro ⟨x, hx⟩
      cases hx
    · intro hall
      exact absurd (hall _ List.mem_cons_self) hq
  | passes hq _ ih =>
    rw [ih, List.forall_mem_cons]
    exact ⟨fun hrest => ⟨hq, hrest⟩, fun hall => hall.2⟩

theorem firstFailure_of_eq_error {e : SaveError} (h : Judged first answer)
    (he : answer = .error e) : FirstFailure first e := by
  induction h with
  | done x => cases he
  | @fails q rest hq =>
    cases he
    exact ⟨[], q, rest, rfl, fun _ hp => absurd hp List.not_mem_nil, hq, rfl⟩
  | @passes q rest answer hq _ ih =>
    obtain ⟨before, failed, after, rfl, hbefore, hfailed⟩ := ih he
    refine ⟨q :: before, failed, after, rfl, ?_, hfailed⟩
    exact List.forall_mem_cons.mpr ⟨hq, hbefore⟩

theorem eq_error_of_firstFailure {e : SaveError} (h : Judged first answer)
    (he : FirstFailure first e) : answer = .error e := by
  obtain ⟨before, failed, after, rfl, hbefore, hfailed, rfl⟩ := he
  induction before with
  | nil =>
    cases h with
    | fails => rfl
    | passes hq => exact absurd hq hfailed
  | cons p before ih =>
    obtain ⟨hp, hbefore⟩ := List.forall_mem_cons.mp hbefore
    cases h with
    | fails _ hq => exact absurd hp hq
    | passes _ hrest => exact ih hrest hbefore

/-- Looking for the first bad element is requiring each to be good. -/
theorem of_find? (xs : List α) (bad : α → Bool) (error : α → SaveError) :
    Judged (xs.map fun x => ⟨¬ bad x = true, error x⟩)
      ((xs.find? bad).elim (.ok ()) fun x => .error (error x)) := by
  induction xs with
  | nil => exact done ()
  | cons x xs ih =>
    rw [List.map_cons, List.find?_cons]
    cases hx : bad x with
    | true => exact fails (q := ⟨¬ true = true, error x⟩) _ (fun h => h rfl)
    | false => exact passes Bool.false_ne_true ih

end Judged

end Requirement

open Requirement (Judged FirstFailure)

/-- A reading that is judged by requirements, and leaves `rest` unless one of them fails. -/
structure Reading.Meets {α : Type} (requirements : List Requirement) (r : Reading α)
    (rest : Bytes) : Prop where
  judged : Judged requirements r.answer
  rest_eq : ∀ x, r.answer = .ok x → r.rest = rest

namespace Reading.Meets

variable {α β : Type} {first second : List Requirement} {r : Reading α} {rest after : Bytes}

theorem map (h : Meets first r rest) (g : α → β) : Meets first (r.map g) rest := by
  refine ⟨h.judged.map g, fun y hy => ?_⟩
  obtain ⟨answer, moved, left⟩ := r
  cases answer with
  | error e => cases hy
  | ok x => exact h.rest_eq x rfl

theorem andThen (h : Meets first r rest) {next : α → Bytes → Reading β}
    (hnext : ∀ x, r.answer = .ok x → Meets second (next x rest) after) :
    Meets (first ++ second) (r.andThen next) after := by
  have hjudged : Judged (first ++ second) (r.answer.bind fun x => (next x rest).answer) :=
    h.judged.bind fun x hx => (hnext x hx).judged
  obtain ⟨answer, moved, left⟩ := r
  cases answer with
  | error e =>
    refine ⟨hjudged, fun y hy => ?_⟩
    cases hy
  | ok x =>
    obtain rfl : left = rest := h.rest_eq x rfl
    exact ⟨hjudged, (hnext x rfl).rest_eq⟩

end Reading.Meets

def Requirement.present (size : Nat) (bytes : Bytes) : Requirement :=
  ⟨size ≤ bytes.length, .stream .endOfInput⟩

end Savegame
