import Mathlib

/-!
Runs of a machine: the calls made so far, latest first, and the state they lead to.
-/

namespace Vllm

variable {σ α : Type}

/-- `Run step s h t`: the calls `h`, latest first, lead from `s` to `t`. -/
inductive Run (step : σ → α → σ → Prop) (s : σ) : List α → σ → Prop
  | start : Run step s [] s
  | call {h : List α} {t u : σ} {a : α} : Run step s h t → step t a u → Run step s (a :: h) u

namespace Run

variable {step : σ → α → σ → Prop} {s t : σ} {h : List α}

/-- What holds at the start and survives each call holds after every run. -/
theorem invariant {I : List α → σ → Prop} (start : I [] s)
    (preserve : ∀ h t a u, I h t → step t a u → I (a :: h) u) (run : Run step s h t) : I h t := by
  induction run with
  | start => exact start
  | call _ stepped ih => exact preserve _ _ _ _ ih stepped

/-- A run under a stronger step is a run under the weaker one. -/
theorem mono {step' : σ → α → σ → Prop} (weaker : ∀ t a u, step t a u → step' t a u)
    (run : Run step s h t) : Run step' s h t := by
  induction run with
  | start => exact .start
  | call _ stepped ih => exact .call ih (weaker _ _ _ stepped)

/-- A call of a run is made after a run of the calls before it. -/
theorem split {later earlier : List α} {a : α} (run : Run step s (later ++ a :: earlier) t) :
    ∃ u v, Run step s earlier u ∧ step u a v := by
  induction later generalizing t with
  | nil =>
    cases run with
    | call before stepped => exact ⟨_, _, before, stepped⟩
  | cons _ rest ih =>
    cases run with
    | call before _ => exact ih before

/-- The calls `h`, latest first, of a machine that computes its steps. -/
def execute (f : σ → α → Option σ) (s : σ) : List α → Option σ
  | [] => some s
  | a :: rest => (execute f s rest).bind fun t => f t a

variable {f : σ → α → Option σ}

theorem of_execute (sound : ∀ t a u, f t a = some u → step t a u)
    (done : execute f s h = some t) : Run step s h t := by
  induction h generalizing t with
  | nil =>
    cases done
    exact .start
  | cons a rest ih =>
    obtain ⟨u, before, last⟩ := Option.bind_eq_some_iff.mp done
    exact .call (ih before) (sound u a t last)

/-- A run of such a machine to a state with a property that can be tested. -/
theorem exists_of_execute {P : σ → Prop} [DecidablePred P]
    (found : (execute f s h).any (fun t => decide (P t)) = true) :
    ∃ t, Run (fun s a t => f s a = some t) s h t ∧ P t := by
  obtain ⟨t, done, holds⟩ := (Option.any_eq_true _ _).mp found
  exact ⟨t, of_execute (fun _ _ _ step => step) done, of_decide_eq_true holds⟩

end Run
end Vllm

namespace Vllm

variable {σ α : Type}

/-- A run of calls `a` that are allowed in the state `s` they are made in. -/
abbrev GuardedRun (Allowed : σ → α → Prop) (f : σ → α → Option σ) (s : σ) (h : List α) (t : σ) : Prop :=
  Run (fun t a u => Allowed t a ∧ f t a = some u) s h t

namespace GuardedRun

variable {Allowed : σ → α → Prop} {f : σ → α → Option σ} {s t : σ} {h : List α}

theorem run (guarded : GuardedRun Allowed f s h t) : Run (fun t a u => f t a = some u) s h t :=
  Run.mono (fun _ _ _ => And.right) guarded

/-- Such a run to a state with a property that can be tested. -/
theorem exists_of_execute [∀ t a, Decidable (Allowed t a)] {P : σ → Prop} [DecidablePred P]
    (found : (Run.execute (fun t a => if Allowed t a then f t a else none) s h).any (fun t => decide (P t)) = true) :
    ∃ t, GuardedRun Allowed f s h t ∧ P t := by
  obtain ⟨t, reached, holds⟩ := (Option.any_eq_true _ _).mp found
  refine ⟨t, Run.of_execute ?_ reached, of_decide_eq_true holds⟩
  intro u a v next
  split at next
  · rename_i allowed
    exact ⟨allowed, next⟩
  · cases next

/-- The calls decide the state. -/
theorem functional {u : σ} (run : Run (fun t a u => f t a = some u) s h t)
    (other : Run (fun t a u => f t a = some u) s h u) : t = u := by
  induction run generalizing u with
  | start =>
    cases other
    rfl
  | call _ stepped ih =>
    cases other with
    | call before last =>
      rw [← ih before, stepped, Option.some.injEq] at last
      exact last

/-- A run is guarded when the run before it is, and its last call is allowed. -/
theorem call_iff {u : σ} {a : α} (before : Run (fun t a u => f t a = some u) s h t) (stepped : f t a = some u) :
    GuardedRun Allowed f s (a :: h) u ↔ GuardedRun Allowed f s h t ∧ Allowed t a := by
  constructor
  · intro guarded
    cases guarded with
    | call earlier last =>
      rw [functional before (run earlier)]
      exact ⟨earlier, last.1⟩
  · rintro ⟨guarded, allowed⟩
    exact .call guarded ⟨allowed, stepped⟩

end GuardedRun
end Vllm
