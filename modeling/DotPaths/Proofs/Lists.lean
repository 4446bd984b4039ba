import Mathlib.Data.List.Forall2

/-! # Lists side by side

    Two lists whose members stand in a relation one by one, and what may be done
    to both of them; and lists whose members are changed by their places.
-/

namespace DotPaths

variable {α β γ : Type} {R : α → β → Prop} {S : β → γ → Prop} {T : α → γ → Prop} {l : List α}
  {l' : List β} {l'' : List γ}

theorem forall₂_mem_right (h : List.Forall₂ R l l') : ∀ b ∈ l', ∃ a ∈ l, R a b := by
  induction h with
  | nil =>
    intro b hb
    cases hb
  | @cons a b l l' hab _ ih =>
    intro b' hb'
    rcases List.mem_cons.mp hb' with rfl | hb'
    · exact ⟨a, by simp, hab⟩
    · obtain ⟨a', ha', hR⟩ := ih b' hb'
      exact ⟨a', by simp [ha'], hR⟩

theorem forall₂_trans (hT : ∀ a b c, R a b → S b c → T a c) (h : List.Forall₂ R l l')
    (h' : List.Forall₂ S l' l'') : List.Forall₂ T l l'' := by
  induction h generalizing l'' with
  | nil =>
    cases h'
    exact .nil
  | cons hab _ ih =>
    cases h' with
    | cons hbc htail => exact .cons (hT _ _ _ hab hbc) (ih htail)

theorem forall₂_getElem? (h : List.Forall₂ R l l') {i : Nat} {a : α} (ha : l[i]? = some a) :
    ∃ b, l'[i]? = some b ∧ R a b := by
  induction h generalizing i with
  | nil => cases ha
  | @cons a₀ b₀ _ _ hab _ ih =>
    cases i with
    | zero =>
      cases ha
      exact ⟨b₀, rfl, hab⟩
    | succ i => exact ih ha

theorem forall₂_set (h : List.Forall₂ R l l') {a : α} {b : β} (i : Nat) (hab : R a b) :
    List.Forall₂ R (l.set i a) (l'.set i b) := by
  induction h generalizing i with
  | nil => exact .nil
  | cons h₀ htail ih =>
    cases i with
    | zero => exact .cons hab htail
    | succ i => exact .cons h₀ (ih i)

theorem forall₂_flatMap {α' β' : Type} {S : α' → β' → Prop} {f : α → List α'} {g : β → List β'}
    (h : List.Forall₂ R l l')
    (hfg : ∀ a ∈ l, ∀ b ∈ l', R a b → List.Forall₂ S (f a) (g b)) :
    List.Forall₂ S (l.flatMap f) (l'.flatMap g) := by
  induction h with
  | nil => exact .nil
  | cons hab _ ih =>
    rw [List.flatMap_cons, List.flatMap_cons]
    refine List.rel_append (hfg _ (by simp) _ (by simp) hab) (ih ?_)
    intro a ha b hb
    exact hfg a (by simp [ha]) b (by simp [hb])

theorem forall₂_filter {f : α → Bool} {g : β → Bool} (h : List.Forall₂ R l l')
    (hfg : ∀ a b, R a b → g b = f a) : List.Forall₂ R (l.filter f) (l'.filter g) := by
  refine List.rel_filter ?_ h
  intro a b hab
  show f a = true ↔ g b = true
  rw [hfg a b hab]

/-- A list beside two others is cut where they are. -/
theorem forall₂_append_left {l₁ l₂ : List α} (h : List.Forall₂ R (l₁ ++ l₂) l') :
    ∃ l₁' l₂', l' = l₁' ++ l₂' ∧ List.Forall₂ R l₁ l₁' ∧ List.Forall₂ R l₂ l₂' := by
  induction l₁ generalizing l' with
  | nil => exact ⟨[], l', rfl, .nil, h⟩
  | cons a l₁ ih =>
    cases h with
    | cons hab hrest =>
      obtain ⟨l₁', l₂', rfl, h₁, h₂⟩ := ih hrest
      exact ⟨_ :: l₁', l₂', rfl, .cons hab h₁, h₂⟩

theorem forall₂_eraseIdx (h : List.Forall₂ R l l') (i : Nat) :
    List.Forall₂ R (l.eraseIdx i) (l'.eraseIdx i) := by
  induction h generalizing i with
  | nil => exact .nil
  | cons h₀ htail ih =>
    cases i with
    | zero => exact htail
    | succ i => exact .cons h₀ (ih i)

/-- One member is exchanged for another that goes as well with its partner. -/
theorem forall₂_set_left (h : List.Forall₂ R l l') {i : Nat} {a a' : α} (ha : l[i]? = some a)
    (himp : ∀ b, R a b → R a' b) : List.Forall₂ R (l.set i a') l' := by
  induction h generalizing i with
  | nil => exact .nil
  | cons h₀ htail ih =>
    cases i with
    | zero =>
      cases ha
      exact .cons (himp _ h₀) htail
    | succ i => exact .cons h₀ (ih ha)

/-- A change that may depend on the place. -/
theorem forall₂_zipIdx {α : Type} {R : α → α → Prop} {f : α × Nat → α} (hf : ∀ a i, R a (f (a, i)))
    (l : List α) (n : Nat) : List.Forall₂ R l ((l.zipIdx n).map f) := by
  induction l generalizing n with
  | nil => exact .nil
  | cons a l ih => exact .cons (hf a n) (ih (n + 1))

/-- A change that depends on the place and does not show. -/
theorem map_zipIdx_map {α β : Type} {f : α × Nat → α} {g : α → β} (hf : ∀ a i, g (f (a, i)) = g a)
    (l : List α) (n : Nat) : ((l.zipIdx n).map f).map g = l.map g := by
  induction l generalizing n with
  | nil => rfl
  | cons a l ih => exact congrArg₂ List.cons (hf a n) (ih (n + 1))

/-- Places increase along a list. -/
theorem pairwise_zipIdx {α : Type} (l : List α) (n : Nat) :
    (l.zipIdx n).Pairwise fun a b => a.2 < b.2 := by
  apply List.pairwise_map.mp
  rw [List.zipIdx_map_snd]
  exact List.pairwise_lt_range'

theorem map_mapIdx (f : Nat → α → β) (g : β → γ) (l : List α) :
    (l.mapIdx f).map g = l.mapIdx fun i a => g (f i a) := by
  apply List.ext_getElem?
  simp [Function.comp_def]

theorem mapIdx_map (f : Nat → β → γ) (g : α → β) (l : List α) :
    (l.map g).mapIdx f = l.mapIdx fun i a => f i (g a) := by
  apply List.ext_getElem?
  simp [Function.comp_def]

/-- The places may play no part. -/
theorem mapIdx_eq_map (f : α → β) (l : List α) : (l.mapIdx fun _ a => f a) = l.map f := by
  apply List.ext_getElem?
  simp

end DotPaths
