import VllmProofs.Data.Exec

/-!
Weakest preconditions for calls on a mutable object, with one postcondition for the calls that
return and one for the calls that raise.
-/

namespace Vllm.Exec

variable {ε σ τ α β : Type}

/-- A call of `x` from `s` returns with `Q`, or raises with `E`. -/
def wp (x : EStateM ε σ α) (Q : α → σ → Prop) (E : ε → σ → Prop) (s : σ) : Prop :=
  match x s with
  | .ok a t => Q a t
  | .error e t => E e t

variable {x : EStateM ε σ α} {Q Q' : α → σ → Prop} {E E' : ε → σ → Prop} {s t : σ}

theorem wp_of_ok {a : α} (call : x s = .ok a t) : wp x Q E s ↔ Q a t := by
  unfold wp
  rw [call]

theorem wp_of_error {e : ε} (call : x s = .error e t) : wp x Q E s ↔ E e t := by
  unfold wp
  rw [call]

theorem wp.ok {a : α} (h : wp x Q E s) (call : x s = .ok a t) : Q a t := (wp_of_ok call).mp h

theorem wp.error {e : ε} (h : wp x Q E s) (call : x s = .error e t) : E e t :=
  (wp_of_error call).mp h

/-- A call that can raise nothing returns. -/
theorem wp.returns (h : wp x Q (fun _ _ => False) s) : ∃ a t, x s = .ok a t ∧ Q a t := by
  cases call : x s with
  | ok a t => exact ⟨a, t, rfl, h.ok call⟩
  | error e t => exact (h.error call).elim

theorem wp_intro (returned : ∀ a t, x s = .ok a t → Q a t)
    (raised : ∀ e t, x s = .error e t → E e t) : wp x Q E s := by
  cases call : x s with
  | ok a t => exact (wp_of_ok call).mpr (returned a t call)
  | error e t => exact (wp_of_error call).mpr (raised e t call)

theorem wp.mono (h : wp x Q E s) (returned : ∀ a t, Q a t → Q' a t)
    (raised : ∀ e t, E e t → E' e t) : wp x Q' E' s :=
  wp_intro (fun a t call => returned a t (h.ok call)) (fun e t call => raised e t (h.error call))

theorem wp.and (left : wp x Q E s) (right : wp x Q' E' s) :
    wp x (fun a t => Q a t ∧ Q' a t) (fun e t => E e t ∧ E' e t) s :=
  wp_intro (fun _ _ call => ⟨left.ok call, right.ok call⟩)
    (fun _ _ call => ⟨left.error call, right.error call⟩)

@[simp] theorem wp_pure (a : α) : wp (pure a) Q E s ↔ Q a s := Iff.rfl

@[simp] theorem wp_throw (e : ε) : wp (throw e) Q E s ↔ E e s := Iff.rfl

@[simp] theorem wp_get {Q : σ → σ → Prop} : wp get Q E s ↔ Q s s := Iff.rfl

@[simp] theorem wp_set {Q : PUnit → σ → Prop} : wp (set t) Q E s ↔ Q ⟨⟩ t := Iff.rfl

@[simp] theorem wp_modify {Q : PUnit → σ → Prop} {f : σ → σ} : wp (modify f) Q E s ↔ Q ⟨⟩ (f s) :=
  Iff.rfl

@[simp] theorem wp_bind {f : α → EStateM ε σ β} {Q : β → σ → Prop} :
    wp (x >>= f) Q E s ↔ wp x (fun a t => wp (f a) Q E t) E s := by
  unfold wp
  rw [bind_apply]
  cases x s <;> rfl

@[simp] theorem wp_map {f : α → β} {Q : β → σ → Prop} :
    wp (f <$> x) Q E s ↔ wp x (fun a t => Q (f a) t) E s := by
  unfold wp
  rw [map_apply]
  cases x s <;> rfl

@[simp] theorem wp_zoom {proj : σ → τ} {put : τ → σ → σ} {x : EStateM ε τ α} :
    wp (zoom proj put x) Q E s ↔
      wp x (fun a t => Q a (put t s)) (fun e t => E e (put t s)) (proj s) := by
  unfold wp zoom
  cases x (proj s) <;> rfl

@[simp] theorem wp_ite {p : Prop} [Decidable p] {y : EStateM ε σ α} :
    wp (if p then x else y) Q E s ↔ (p → wp x Q E s) ∧ (¬p → wp y Q E s) := by
  split <;> simp_all

@[simp] theorem wp_catching [DecidableEq ε] {e : ε} {a : α} :
    wp (catching e a x) Q E s ↔ wp x Q (fun e' t => if e' = e then Q a t else E e' t) s := by
  unfold wp catching
  cases x s with
  | ok b t => rfl
  | error e' t => by_cases same : e' = e <;> simp [same]

/-- A loop keeps what each round keeps, the rounds done so far beside it. -/
theorem wp_forM {f : α → EStateM ε σ PUnit} {I : List α → σ → Prop} {xs : List α} (start : I [] s)
    (round : ∀ done a rest t, xs = done ++ a :: rest → I done t →
      wp (f a) (fun _ u => I (done ++ [a]) u) E t) :
    wp (xs.forM f) (fun _ t => I xs t) E s := by
  have loop : ∀ rest done t, xs = done ++ rest → I done t →
      wp (rest.forM f) (fun _ t => I xs t) E t := by
    intro rest
    induction rest with
    | nil =>
      intro done t split holds
      rw [List.append_nil] at split
      subst split
      exact holds
    | cons a rest ih =>
      intro done t split holds
      show wp (f a >>= fun _ => rest.forM f) _ _ _
      rw [wp_bind]
      refine (round done a rest t split holds).mono (fun _ u next => ?_) (fun _ _ raised => raised)
      exact ih (done ++ [a]) u (by rw [split, List.append_assoc, List.singleton_append]) next
  exact loop xs [] s rfl start

/-- What a call that returns keeps, as a postcondition. -/
theorem Keeps.wp {R : σ → σ → Prop} (kept : Keeps R x) (s : σ) :
    wp x (fun _ t => R s t) (fun _ _ => True) s :=
  wp_intro (fun a t call => kept s a t call) fun _ _ _ => trivial

def Preserves (I : σ → Prop) (x : EStateM ε σ α) : Prop :=
  ∀ s, I s → wp x (fun _ t => I t) (fun _ t => I t) s

namespace Preserves

variable {I : σ → Prop}

theorem after {x : EStateM ε σ α} (kept : Preserves I x) (holds : I s) : I (after x s) := by
  unfold Exec.after
  cases call : x s with
  | ok a t => exact (kept s holds).ok call
  | error e t => exact (kept s holds).error call

protected theorem pure (a : α) : Preserves I (pure a : EStateM ε σ α) := fun _ holds => holds

protected theorem throw (e : ε) : Preserves I (throw e : EStateM ε σ α) := fun _ holds => holds

protected theorem get : Preserves I (get : EStateM ε σ σ) := fun _ holds => holds

protected theorem modify {f : σ → σ} (each : ∀ s, I s → I (f s)) :
    Preserves I (modify f : EStateM ε σ PUnit) := each

protected theorem bind {x : EStateM ε σ α} {f : α → EStateM ε σ β} (first : Preserves I x)
    (next : ∀ a, Preserves I (f a)) : Preserves I (x >>= f) := by
  intro s holds
  rw [wp_bind]
  exact (first s holds).mono (fun a t kept => next a t kept) fun _ _ kept => kept

protected theorem ite {p : Prop} [Decidable p] {x y : EStateM ε σ α} (yes : Preserves I x)
    (no : Preserves I y) : Preserves I (if p then x else y) := by
  split
  · exact yes
  · exact no

protected theorem catching [DecidableEq ε] {x : EStateM ε σ α} (e : ε) (a : α)
    (inner : Preserves I x) : Preserves I (catching e a x) := by
  intro s holds
  rw [wp_catching]
  refine (inner s holds).mono (fun _ _ kept => kept) fun e' t kept => ?_
  split
  · exact kept
  · exact kept

/-- A component keeps what it keeps, and the owner keeps what follows from that. -/
protected theorem zoom {J : τ → Prop} {proj : σ → τ} {put : τ → σ → σ} {x : EStateM ε τ α}
    (inner : Preserves J x) (part : ∀ s, I s → J (proj s)) (whole : ∀ s t, I s → J t → I (put t s)) :
    Preserves I (zoom proj put x) := by
  intro s holds
  rw [wp_zoom]
  exact (inner _ (part s holds)).mono (fun _ t kept => whole s t holds kept)
    fun _ t kept => whole s t holds kept

theorem anything (x : EStateM ε σ α) : Preserves (fun _ => True) x := fun _ _ =>
  wp_intro (fun _ _ _ => trivial) fun _ _ _ => trivial

/-- A component the invariant does not look at. -/
protected theorem apart {proj : σ → τ} {put : τ → σ → σ} (x : EStateM ε τ α)
    (whole : ∀ s t, I s → I (put t s)) : Preserves I (zoom proj put x) :=
  Preserves.zoom (anything x) (fun _ _ => trivial) fun s t holds _ => whole s t holds

protected theorem forM {f : α → EStateM ε σ PUnit} (each : ∀ a, Preserves I (f a)) (xs : List α) :
    Preserves I (xs.forM f) := fun _ holds =>
  wp_forM (I := fun _ t => I t) holds fun _ a _ t _ kept => each a t kept

end Preserves
end Vllm.Exec
