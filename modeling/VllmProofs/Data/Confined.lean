import VllmProofs.Data.Wp

/-!
Calls that keep an invariant whether they return or raise, and raise only some exceptions.
-/

namespace Vllm.Exec

variable {ε σ τ α β : Type}

/-- From a state with `I` every call of `x` ends in one, and raises at most exceptions with `E`. -/
def Confined (I : σ → Prop) (E : ε → Prop) (x : EStateM ε σ α) : Prop :=
  ∀ s, I s → wp x (fun _ t => I t) (fun e t => E e ∧ I t) s

namespace Confined

variable {I : σ → Prop} {E : ε → Prop} {x : EStateM ε σ α}

theorem after (confined : Confined I E x) {s : σ} (holds : I s) : I (after x s) := by
  unfold Exec.after
  cases call : x s with
  | ok a t => exact (confined s holds).ok call
  | error e t => exact ((confined s holds).error call).2

theorem returned (confined : Confined I E x) {s t : σ} {a : α} (holds : I s)
    (call : x s = .ok a t) : I t := (confined s holds).ok call

/-- What follows from relations that hold from every start to the end. -/
theorem of_frames {R : σ → σ → Prop} {E' : ε → Prop}
    (frames : ∀ r, Confined (R r) E' x) (start : ∀ s, R s s) (stays : ∀ s t, I s → R s t → I t)
    (fewer : ∀ e, E' e → E e) : Confined I E x := fun s holds =>
  (frames s s (start s)).mono (fun _ t kept => stays s t holds kept)
    fun e t raised => ⟨fewer e raised.1, stays s t holds raised.2⟩

protected theorem pure (a : α) : Confined I E (pure a : EStateM ε σ α) := fun _ holds => holds

protected theorem throw {e : ε} (allowed : E e) : Confined I E (throw e : EStateM ε σ α) :=
  fun _ holds => ⟨allowed, holds⟩

protected theorem get : Confined I E (get : EStateM ε σ σ) := fun _ holds => holds

protected theorem set {t : σ} (holds : I t) : Confined I E (set t : EStateM ε σ PUnit) :=
  fun _ _ => holds

protected theorem modify {f : σ → σ} (each : ∀ s, I s → I (f s)) :
    Confined I E (modify f : EStateM ε σ PUnit) := each

protected theorem bind {x : EStateM ε σ α} {f : α → EStateM ε σ β} (first : Confined I E x)
    (next : ∀ a, Confined I E (f a)) : Confined I E (x >>= f) := by
  intro s holds
  rw [wp_bind]
  exact (first s holds).mono (fun a t kept => next a t kept) fun _ _ raised => raised

/-- What is done with a state that has been read may use that the state has `I`. -/
protected theorem read {f : σ → EStateM ε σ β} (each : ∀ s, I s → Confined I E (f s)) :
    Confined I E (get >>= f) := fun s holds => each s holds s holds

protected theorem map {x : EStateM ε σ α} {f : α → β} (inner : Confined I E x) :
    Confined I E (f <$> x) := by
  intro s holds
  rw [wp_map]
  exact inner s holds

protected theorem ite {p : Prop} [Decidable p] {x y : EStateM ε σ α} (yes : Confined I E x)
    (no : Confined I E y) : Confined I E (if p then x else y) := by
  split
  · exact yes
  · exact no

/-- A component that keeps what it keeps, in an owner that keeps what follows from that. -/
protected theorem zoom {J : τ → Prop} {proj : σ → τ} {put : τ → σ → σ} {x : EStateM ε τ α}
    (inner : Confined J E x) (part : ∀ s, I s → J (proj s)) (whole : ∀ s t, I s → J t → I (put t s)) :
    Confined I E (zoom proj put x) := by
  intro s holds
  rw [wp_zoom]
  exact (inner _ (part s holds)).mono (fun _ t kept => whole s t holds kept)
    fun _ t raised => ⟨raised.1, whole s t holds raised.2⟩

end Confined
end Vllm.Exec
