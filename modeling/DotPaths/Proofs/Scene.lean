import DotPaths.Machine.Scene

/-! # Laws of actions

    An action either completes in a new state or stops.  The laws here take a
    composite action apart: it completes exactly when its parts complete one
    after the other, and it stops when one of them does.

    The console is a part of the scene; what is done with it leaves the dots
    alone.
-/

namespace DotPaths

/-! ## Composite actions -/

section composite
variable {ε σ α β : Type}

theorem bind_ok_iff {x : EStateM ε σ α} {f : α → EStateM ε σ β} {s s' : σ} {b : β} :
    (x >>= f) s = .ok b s' ↔ ∃ a t, x s = .ok a t ∧ f a t = .ok b s' := by
  change EStateM.bind x f s = _ ↔ _
  unfold EStateM.bind
  cases x s with
  | ok a t =>
    constructor
    · intro h; exact ⟨a, t, rfl, h⟩
    · rintro ⟨_, _, ⟨⟩, h⟩; exact h
  | error e t => simp

theorem bind_error_iff {x : EStateM ε σ α} {f : α → EStateM ε σ β} {s s' : σ} {e : ε} :
    (x >>= f) s = .error e s' ↔
      x s = .error e s' ∨ ∃ a t, x s = .ok a t ∧ f a t = .error e s' := by
  change EStateM.bind x f s = _ ↔ _
  unfold EStateM.bind
  cases x s with
  | ok a t =>
    constructor
    · intro h; exact .inr ⟨a, t, rfl, h⟩
    · rintro (h | ⟨_, _, ⟨⟩, h⟩)
      · cases h
      · exact h
  | error e t => simp

theorem bind_of_ok {x : EStateM ε σ α} {f : α → EStateM ε σ β} {s t : σ} {a : α}
    (h : x s = .ok a t) : (x >>= f) s = f a t := by
  change EStateM.bind x f s = _
  unfold EStateM.bind
  rw [h]

theorem bind_of_error {x : EStateM ε σ α} {f : α → EStateM ε σ β} {s t : σ} {e : ε}
    (h : x s = .error e t) : (x >>= f) s = .error e t := by
  change EStateM.bind x f s = _
  unfold EStateM.bind
  rw [h]

theorem pure_ok_iff {a b : α} {s s' : σ} :
    (pure a : EStateM ε σ α) s = .ok b s' ↔ a = b ∧ s = s' := by
  change EStateM.Result.ok a s = _ ↔ _
  simp

theorem pure_ne_error {a : α} {s s' : σ} {e : ε} :
    (pure a : EStateM ε σ α) s ≠ .error e s' := by
  intro h
  cases h

theorem throw_ne_ok {a : α} {s s' : σ} {e : ε} :
    (throw e : EStateM ε σ α) s ≠ .ok a s' := by
  intro h
  cases h

theorem throw_error_iff {s s' : σ} {e e' : ε} :
    (throw e : EStateM ε σ α) s = .error e' s' ↔ e = e' ∧ s = s' := by
  change EStateM.Result.error e s = _ ↔ _
  simp

/-- A row of actions completes when all but the last do, and then the last. -/
theorem forM_range_succ (f : Nat → EStateM ε σ Unit) (n : Nat) :
    (List.range (n + 1)).forM f = ((List.range n).forM f >>= fun _ => f n) := by
  rw [List.range_succ]
  simp only [List.forM_eq_forM, List.forM_append, List.forM_cons, List.forM_nil]
  simp

/-- To leave a result aside is to go on without it. -/
theorem discard_eq (a : EStateM ε σ α) :
    Functor.discard a = (a >>= fun _ => pure PUnit.unit) := by
  rw [Functor.discard, LawfulFunctor.map_const, bind_pure_comp]
  rfl

end composite

/-! ## Actions on a scene -/

namespace Scene

theorem dotAt_ok_iff {i : Nat} {s s' : Scene} {d : Dot} :
    dotAt i s = .ok d s' ↔ s.dots[i]? = some d ∧ s' = s := by
  unfold dotAt
  rw [bind_ok_iff]
  constructor
  · rintro ⟨_, t, hget, h⟩
    cases hget
    cases hi : s.dots[i]? with
    | none =>
      simp only [hi] at h
      exact absurd h throw_ne_ok
    | some d' =>
      simp only [hi] at h
      obtain ⟨rfl, rfl⟩ := pure_ok_iff.mp h
      exact ⟨rfl, rfl⟩
  · rintro ⟨hd, rfl⟩
    refine ⟨s', s', rfl, ?_⟩
    simp only [hd]
    rfl

theorem dotAt_apply {i : Nat} {s : Scene} {d : Dot} (h : s.dots[i]? = some d) :
    dotAt i s = .ok d s :=
  dotAt_ok_iff.mpr ⟨h, rfl⟩

theorem dotAt_error {i : Nat} {s s' : Scene} {e : Stop} (h : dotAt i s = .error e s') :
    e = .fault (.noSuchDot .outOfRange) := by
  unfold dotAt at h
  rcases bind_error_iff.mp h with hget | ⟨_, t, hget, h⟩
  · cases hget
  · cases hget
    cases hi : s.dots[i]? with
    | none =>
      simp only [hi] at h
      exact (throw_error_iff.mp h).1.symm
    | some d =>
      simp only [hi] at h
      exact absurd h pure_ne_error

/-- An action that begins by looking at a dot stops because there is none, or
    later. -/
theorem dotAt_bind_error {α : Type} {i : Nat} {f : Dot → Act α} {s s' : Scene} {e : Stop}
    (h : (dotAt i >>= f) s = .error e s') :
    e = .fault (.noSuchDot .outOfRange) ∨ ∃ d, s.dots[i]? = some d ∧ f d s = .error e s' := by
  rcases bind_error_iff.mp h with hnone | ⟨d, t, hd, hf⟩
  · exact .inl (dotAt_error hnone)
  · obtain ⟨hd, rfl⟩ := dotAt_ok_iff.mp hd
    exact .inr ⟨d, hd, hf⟩

@[simp] theorem setDot_apply (i : Nat) (d : Dot) (s : Scene) :
    setDot i d s = .ok () { s with dots := s.dots.set i d } := rfl

theorem orFail_ok_iff {α : Type} {x : Except Fault α} {a : α} {s s' : Scene} :
    orFail x s = .ok a s' ↔ x = .ok a ∧ s' = s := by
  cases x with
  | ok b =>
    change (pure b : Act α) s = _ ↔ _
    rw [pure_ok_iff]
    simp [eq_comm]
  | error f =>
    simp only [reduceCtorEq, false_and, iff_false]
    exact throw_ne_ok

theorem orFail_error {α : Type} {x : Except Fault α} {e : Stop} {s s' : Scene}
    (h : orFail x s = .error e s') : s' = s ∧ ∃ f, x = .error f ∧ e = .fault f := by
  cases x with
  | ok a => exact absurd h pure_ne_error
  | error f =>
    obtain ⟨he, hs⟩ := throw_error_iff.mp h
    exact ⟨hs.symm, f, rfl, he.symm⟩

/-- The console is asked for something, and the dots stay as they are. -/
theorem onConsole_dots {α : Type} {a : ConsoleAct α} {x : α} {s s' : Scene}
    (h : onConsole a s = .ok x s') : s'.dots = s.dots := by
  unfold onConsole at h
  split at h
  · cases h; rfl
  · cases h

theorem onConsole_error {α : Type} {a : ConsoleAct α} {e : Stop} {s s' : Scene}
    (h : onConsole a s = .error e s') : ∃ c, a s.console = .error e c := by
  unfold onConsole at h
  split at h
  · cases h
  · next c hc => cases h; exact ⟨c, hc⟩

theorem tick_dots {w : World} {s s' : Scene} (h : tick w s = .ok () s') :
    s'.dots = s.dots := by
  obtain ⟨_, t, htrace, h⟩ := bind_ok_iff.mp h
  obtain ⟨_, t', hget, h⟩ := bind_ok_iff.mp h
  cases hget
  rw [onConsole_dots h]
  have ht : t = if isCounted s.console && 0 < s.traceLeft then
      { s with trace := s.dots :: s.trace, traceLeft := s.traceLeft - 1 } else s := by
    cases htrace; rfl
  rw [ht]
  split <;> rfl

end Scene

end DotPaths
