import Mathlib

/-!
Calls on a mutable object. `EStateM` keeps the state a raised exception leaves behind, so a
method is its outcome together with the object after the call, whether it returned or not.
-/

namespace Vllm.Exec

variable {ε σ τ α β : Type}

/-- The state a call leaves behind, returned from or not. -/
def after (x : EStateM ε σ α) (s : σ) : σ :=
  match x s with
  | .ok _ t => t
  | .error _ t => t

def result? (x : EStateM ε σ α) (s : σ) : Option α :=
  match x s with
  | .ok a _ => some a
  | .error _ _ => none

/-- What a call returns or raises. -/
def outcome (x : EStateM ε σ α) (s : σ) : Except ε α :=
  match x s with
  | .ok a _ => .ok a
  | .error e _ => .error e

variable {x : EStateM ε σ α} {s t : σ} {a : α}

theorem outcome_ok (h : x s = .ok a t) : outcome x s = .ok a := by
  simp [outcome, h]

variable {e : ε}

theorem outcome_error (h : x s = .error e t) : outcome x s = .error e := by
  simp [outcome, h]

def raised? (x : EStateM ε σ α) (s : σ) : Option ε :=
  match x s with
  | .ok _ _ => none
  | .error e _ => some e

theorem raised?_eq_some : raised? x s = some e ↔ ∃ t, x s = .error e t := by
  unfold raised?
  cases call : x s <;> simp

theorem result?_eq_toOption (x : EStateM ε σ α) (s : σ) : result? x s = (outcome x s).toOption := by
  cases call : x s <;> simp [result?, outcome, call, Except.toOption]

theorem result?_eq_some : result? x s = some a ↔ ∃ t, x s = .ok a t := by
  cases call : x s <;> simp [result?, call]

/-- The state a call that returns leaves behind. -/
def next? (x : EStateM ε σ α) (s : σ) : Option σ :=
  match x s with
  | .ok _ t => some t
  | .error _ _ => none

theorem next?_eq_some : next? x s = some t ↔ ∃ a, x s = .ok a t := by
  cases call : x s <;> simp [next?, call]

theorem after_ok (h : x s = .ok a t) : after x s = t := by
  simp [after, h]

theorem after_error (h : x s = .error e t) : after x s = t := by
  simp [after, h]

@[simp] theorem pure_apply (a : α) (s : σ) : (pure a : EStateM ε σ α) s = .ok a s := rfl

@[simp] theorem throw_apply (e : ε) (s : σ) : (throw e : EStateM ε σ α) s = .error e s := rfl

@[simp] theorem get_apply (s : σ) : (get : EStateM ε σ σ) s = .ok s s := rfl

@[simp] theorem set_apply (s t : σ) : (set t : EStateM ε σ PUnit) s = .ok ⟨⟩ t := rfl

@[simp] theorem modify_apply (f : σ → σ) (s : σ) :
    (modify f : EStateM ε σ PUnit) s = .ok ⟨⟩ (f s) := rfl

@[simp] theorem map_apply (f : α → β) (x : EStateM ε σ α) (s : σ) :
    (f <$> x) s = match x s with
      | .ok a t => .ok (f a) t
      | .error e t => .error e t := rfl

theorem bind_apply (x : EStateM ε σ α) (f : α → EStateM ε σ β) (s : σ) :
    (x >>= f) s = match x s with
      | .ok a t => f a t
      | .error e t => .error e t := rfl

@[simp] theorem get_bind (f : σ → EStateM ε σ β) (s : σ) : (get >>= f) s = f s s := rfl

@[simp] theorem set_bind (t : σ) (f : PUnit → EStateM ε σ β) (s : σ) :
    (set t >>= f) s = f ⟨⟩ t := rfl

@[simp] theorem modify_bind (g : σ → σ) (f : PUnit → EStateM ε σ β) (s : σ) :
    (modify g >>= f) s = f ⟨⟩ (g s) := rfl

variable {f : α → EStateM ε σ β}

theorem bind_of_ok (h : x s = .ok a t) : (x >>= f) s = f a t := by
  simp [bind_apply, h]

theorem bind_congr_left {y : EStateM ε σ α} (same : x s = y s) : (x >>= f) s = (y >>= f) s := by
  rw [bind_apply, bind_apply, same]

theorem bind_of_error (h : x s = .error e t) : (x >>= f) s = .error e t := by
  simp [bind_apply, h]

theorem bind_ok {b : β} (h : (x >>= f) s = .ok b t) : ∃ a u, x s = .ok a u ∧ f a u = .ok b t := by
  rw [bind_apply] at h
  cases call : x s with
  | ok a u => rw [call] at h; exact ⟨a, u, rfl, h⟩
  | error e u => rw [call] at h; cases h

theorem bind_error (h : (x >>= f) s = .error e t) :
    x s = .error e t ∨ ∃ a u, x s = .ok a u ∧ f a u = .error e t := by
  rw [bind_apply] at h
  cases call : x s with
  | ok a u => rw [call] at h; exact Or.inr ⟨a, u, rfl, h⟩
  | error e u => rw [call] at h; cases h; exact Or.inl rfl

theorem pure_ok {b : α} (h : (pure a : EStateM ε σ α) s = .ok b t) : a = b ∧ s = t := by
  simpa using h

/-- A method of a component, run on the object that owns the component. -/
def zoom (proj : σ → τ) (put : τ → σ → σ) (x : EStateM ε τ α) : EStateM ε σ α := fun s =>
  match x (proj s) with
  | .ok a t => .ok a (put t s)
  | .error e t => .error e (put t s)

theorem zoom_ok {proj : σ → τ} {put : τ → σ → σ} {x : EStateM ε τ α}
    (h : zoom proj put x s = .ok a t) : ∃ u, x (proj s) = .ok a u ∧ t = put u s := by
  unfold zoom at h
  split at h
  · rename_i call
    cases h
    exact ⟨_, call, rfl⟩
  · cases h

theorem zoom_of_ok {proj : σ → τ} {put : τ → σ → σ} {x : EStateM ε τ α} {u : τ}
    (h : x (proj s) = .ok a u) : zoom proj put x s = .ok a (put u s) := by
  simp [zoom, h]

theorem map_ok {f : α → β} {b : β} (h : (f <$> x) s = .ok b t) : ∃ a, x s = .ok a t ∧ f a = b := by
  rw [map_apply] at h
  cases call : x s with
  | ok a u => rw [call] at h; cases h; exact ⟨a, rfl, rfl⟩
  | error e u => rw [call] at h; cases h

/-- `try: return x` with `except e: return a`; what the call did before it raised stays done. -/
def catching [DecidableEq ε] (e : ε) (a : α) (x : EStateM ε σ α) : EStateM ε σ α := fun s =>
  match x s with
  | .ok b t => .ok b t
  | .error e' t => if e' = e then .ok a t else .error e' t

/-- No call of `x` raises `e`. -/
def Avoids (e : ε) (x : EStateM ε σ α) : Prop := ∀ s t, x s ≠ .error e t

namespace Avoids

variable {e : ε}

protected theorem pure (a : α) : Avoids e (pure a : EStateM ε σ α) := by
  intro s t raised
  cases raised

protected theorem get : Avoids e (get : EStateM ε σ σ) := by
  intro s t raised
  cases raised

protected theorem set (u : σ) : Avoids e (set u : EStateM ε σ PUnit) := by
  intro s t raised
  cases raised

protected theorem modify (f : σ → σ) : Avoids e (modify f : EStateM ε σ PUnit) := by
  intro s t raised
  cases raised

protected theorem throw {e' : ε} (different : e' ≠ e) : Avoids e (throw e' : EStateM ε σ α) := by
  intro s t raised
  rw [throw_apply] at raised
  cases raised
  exact different rfl

protected theorem bind {x : EStateM ε σ α} {f : α → EStateM ε σ β} (first : Avoids e x)
    (next : ∀ a, Avoids e (f a)) : Avoids e (x >>= f) := by
  intro s t raised
  rw [bind_apply] at raised
  cases call : x s with
  | ok a u => rw [call] at raised; exact next a u t raised
  | error e' u => rw [call] at raised; cases raised; exact first s t call

protected theorem map {x : EStateM ε σ α} {f : α → β} (first : Avoids e x) : Avoids e (f <$> x) := by
  intro s t raised
  rw [map_apply] at raised
  cases call : x s with
  | ok a u => rw [call] at raised; cases raised
  | error e' u => rw [call] at raised; cases raised; exact first s t call

protected theorem zoom {proj : σ → τ} {put : τ → σ → σ} {x : EStateM ε τ α} (inner : Avoids e x) :
    Avoids e (zoom proj put x) := by
  intro s t raised
  unfold Exec.zoom at raised
  split at raised
  · cases raised
  · rename_i call
    cases raised
    exact inner _ _ call

protected theorem ite {p : Prop} [Decidable p] {x y : EStateM ε σ α} (yes : Avoids e x)
    (no : Avoids e y) : Avoids e (if p then x else y) := by
  split
  · exact yes
  · exact no

protected theorem forM {f : α → EStateM ε σ PUnit} (each : ∀ a, Avoids e (f a)) (xs : List α) :
    Avoids e (xs.forM f) := by
  induction xs with
  | nil => exact Avoids.pure _
  | cons a rest ih => exact Avoids.bind (each a) fun _ => ih

end Avoids

/-- The states before and after every call of `x` that returns are related by `R`. -/
def Keeps (R : σ → σ → Prop) (x : EStateM ε σ α) : Prop := ∀ s a t, x s = .ok a t → R s t

namespace Keeps

variable {R : σ → σ → Prop} [IsPreorder σ R]

protected theorem pure (a : α) : Keeps R (pure a : EStateM ε σ α) := by
  intro s b t returned
  rw [← (pure_ok returned).2]
  exact refl s

protected theorem get : Keeps R (get : EStateM ε σ σ) := by
  intro s b t returned
  cases returned
  exact refl s

omit [IsPreorder σ R] in
protected theorem modify {f : σ → σ} (each : ∀ s, R s (f s)) :
    Keeps R (modify f : EStateM ε σ PUnit) := by
  intro s b t returned
  cases returned
  exact each s

omit [IsPreorder σ R] in
protected theorem throw (e : ε) : Keeps R (throw e : EStateM ε σ α) := by
  intro s b t returned
  cases returned

protected theorem bind {x : EStateM ε σ α} {f : α → EStateM ε σ β} (first : Keeps R x)
    (next : ∀ a, Keeps R (f a)) : Keeps R (x >>= f) := by
  intro s b t returned
  obtain ⟨a, u, before, after⟩ := bind_ok returned
  exact IsTrans.trans _ _ _ (first s a u before) (next a u b t after)

omit [IsPreorder σ R] in
protected theorem ite {p : Prop} [Decidable p] {x y : EStateM ε σ α} (yes : Keeps R x)
    (no : Keeps R y) : Keeps R (if p then x else y) := by
  split
  · exact yes
  · exact no

omit [IsPreorder σ R] in
protected theorem map {x : EStateM ε σ α} {f : α → β} (inner : Keeps R x) : Keeps R (f <$> x) := by
  intro s b t returned
  obtain ⟨a, call, -⟩ := map_ok returned
  exact inner s a t call

omit [IsPreorder σ R] in
/-- A component keeps its own relation, and the owner what follows from that. -/
protected theorem zoom {S : τ → τ → Prop} {proj : σ → τ} {put : τ → σ → σ} {x : EStateM ε τ α}
    (inner : Keeps S x) (whole : ∀ s u, S (proj s) u → R s (put u s)) :
    Keeps R (Exec.zoom proj put x) := by
  intro s a t returned
  obtain ⟨u, call, rfl⟩ := zoom_ok returned
  exact whole s u (inner _ a u call)

omit [IsPreorder σ R] in
/-- A component the relation does not look at. -/
protected theorem apart {proj : σ → τ} {put : τ → σ → σ} (x : EStateM ε τ α)
    (whole : ∀ s u, R s (put u s)) : Keeps R (Exec.zoom proj put x) :=
  Keeps.zoom (S := fun _ _ => True) (fun _ _ _ _ => trivial) fun s u _ => whole s u

protected theorem forM {f : α → EStateM ε σ PUnit} (each : ∀ a, Keeps R (f a)) (xs : List α) :
    Keeps R (xs.forM f) := by
  induction xs with
  | nil => exact Keeps.pure _
  | cons a rest ih => exact Keeps.bind (each a) fun _ => ih

protected theorem mapM {f : α → EStateM ε σ β} (each : ∀ a, Keeps R (f a)) (xs : List α) :
    Keeps R (xs.mapM f) := by
  induction xs with
  | nil => exact Keeps.pure _
  | cons a rest ih =>
    rw [List.mapM_cons]
    exact Keeps.bind (each a) fun _ => Keeps.bind ih fun _ => Keeps.pure _

end Keeps

/-- Every call of `x` that returns leaves what `view` shows. -/
def Fixes (view : σ → τ) (x : EStateM ε σ α) : Prop := Keeps (fun s t => view t = view s) x

instance isPreorder_view (view : σ → τ) : IsPreorder σ fun s t => view t = view s where
  refl _ := rfl
  trans _ _ _ one two := two.trans one
end Vllm.Exec
