import Mathlib.Data.List.Basic

namespace Lib.Checks

variable {ρ ε : Type*} {holds : ρ → Prop} [DecidablePred holds] {error : ρ → ε}

/-- Make checks in order and stop at the first that fails. -/
def firstError (holds : ρ → Prop) [DecidablePred holds] (error : ρ → ε) : List ρ → Except ε Unit
  | [] => .ok ()
  | c :: cs => if holds c then firstError holds error cs else .error (error c)

theorem firstError_eq_ok_iff {cs : List ρ} :
    firstError holds error cs = .ok () ↔ ∀ c ∈ cs, holds c := by
  induction cs with
  | nil => simp [firstError]
  | cons c cs ih =>
    rw [firstError]
    split_ifs with h
    · simp [ih, h]
    · simp [h]

theorem firstError_eq_error_iff {cs : List ρ} {e : ε} :
    firstError holds error cs = .error e ↔
      ∃ pre c post, cs = pre ++ c :: post ∧ (∀ d ∈ pre, holds d) ∧ ¬ holds c ∧ error c = e := by
  induction cs with
  | nil => simp [firstError]
  | cons c cs ih =>
    rw [firstError]
    split_ifs with h
    · rw [ih]
      constructor
      · rintro ⟨pre, d, post, rfl, hpre, hd, he⟩
        exact ⟨c :: pre, d, post, rfl, by simpa using ⟨h, hpre⟩, hd, he⟩
      · rintro ⟨pre, d, post, hcs, hpre, hd, he⟩
        cases pre with
        | nil =>
          obtain ⟨rfl, -⟩ := List.cons_eq_cons.mp hcs
          exact absurd h hd
        | cons b pre =>
          obtain ⟨rfl, rfl⟩ := List.cons_eq_cons.mp hcs
          exact ⟨pre, d, post, rfl, fun a ha => hpre a (by simp [ha]), hd, he⟩
    · constructor
      · intro he
        cases he
        exact ⟨[], c, cs, rfl, by simp, h, rfl⟩
      · rintro ⟨pre, d, post, hcs, hpre, hd, rfl⟩
        cases pre with
        | nil =>
          obtain ⟨rfl, -⟩ := List.cons_eq_cons.mp hcs
          rfl
        | cons b pre =>
          obtain ⟨rfl, -⟩ := List.cons_eq_cons.mp hcs
          exact absurd (hpre c (by simp)) h

/-- No element of a list fails, given the elements before it. -/
def Passes (fails : List ρ → ρ → Prop) (cs : List ρ) : Prop :=
  ∀ pre c post, cs = pre ++ c :: post → ¬ fails pre c

variable {fails : List ρ → ρ → Prop}

theorem passes_nil : Passes fails [] := by
  intro pre c post h
  simp at h

theorem passes_cons {c : ρ} {cs : List ρ} :
    Passes fails (c :: cs) ↔ ¬ fails [] c ∧ Passes (fun pre => fails (c :: pre)) cs := by
  constructor
  · intro h
    exact ⟨h [] c cs rfl, fun pre d post hcs => h (c :: pre) d post (congrArg (List.cons c) hcs)⟩
  · rintro ⟨hc, hcs⟩ pre d post heq
    cases pre with
    | nil =>
      obtain ⟨rfl, -⟩ := List.cons_eq_cons.mp heq
      exact hc
    | cons b pre =>
      obtain ⟨rfl, hrest⟩ := List.cons_eq_cons.mp heq
      exact hcs pre d post hrest

/-- Either every element passes or there is a first that fails. -/
theorem passes_or_first (fails : List ρ → ρ → Prop) (cs : List ρ) :
    Passes fails cs ∨ ∃ pre c post, cs = pre ++ c :: post ∧ Passes fails pre ∧ fails pre c := by
  induction cs generalizing fails with
  | nil => exact Or.inl passes_nil
  | cons c cs ih =>
    by_cases hc : fails [] c
    · exact Or.inr ⟨[], c, cs, rfl, passes_nil, hc⟩
    · obtain hcs | ⟨pre, d, post, rfl, hpre, hd⟩ := ih fun pre => fails (c :: pre)
      · exact Or.inl (passes_cons.mpr ⟨hc, hcs⟩)
      · exact Or.inr ⟨c :: pre, d, post, rfl, passes_cons.mpr ⟨hc, hpre⟩, hd⟩

end Lib.Checks
