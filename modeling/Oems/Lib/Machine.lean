import Mathlib.Data.List.Forall2

namespace Lib.Machine

variable {σ τ ι ο π : Type*}

/-- Feed a machine its inputs one after the other. The result is the list of
its outputs and the state it is left in. -/
def run (step : σ → ι → ο × σ) : σ → List ι → List ο × σ
  | s, [] => ([], s)
  | s, i :: is =>
    ((step s i).1 :: (run step (step s i).2 is).1, (run step (step s i).2 is).2)

theorem run_append (step : σ → ι → ο × σ) (s : σ) (is js : List ι) :
    run step s (is ++ js) = ((run step s is).1 ++ (run step (run step s is).2 js).1,
      (run step (run step s is).2 js).2) := by
  induction is generalizing s with
  | nil => rfl
  | cons i is ih => rw [List.cons_append, run, ih, run, List.cons_append]

theorem length_run (step : σ → ι → ο × σ) (s : σ) (is : List ι) :
    (run step s is).1.length = is.length := by
  induction is generalizing s with
  | nil => rfl
  | cons i is ih => rw [run, List.length_cons, List.length_cons, ih]

/-- What holds at the start and is kept by each step holds after every run. -/
theorem invariant {step : σ → ι → ο × σ} {I : σ → Prop}
    (hstep : ∀ s i, I s → I (step s i).2) {s : σ} (h : I s) (is : List ι) :
    I (run step s is).2 := by
  induction is generalizing s with
  | nil => exact h
  | cons i is ih => exact ih (hstep s i h)

/-- Every input of a run meets a condition in the state it is fed to. -/
def Along (step : σ → ι → ο × σ) (C : σ → ι → Prop) : σ → List ι → Prop
  | _, [] => True
  | s, i :: is => C s i ∧ Along step C (step s i).2 is

theorem along_of_mem {step : σ → ι → ο × σ} {C : σ → ι → Prop} {is : List ι}
    (h : ∀ i ∈ is, ∀ s, C s i) (s : σ) : Along step C s is := by
  induction is generalizing s with
  | nil => trivial
  | cons i is ih => exact ⟨h i (by simp) s, ih (fun j hj => h j (by simp [hj])) _⟩

theorem along_of_outputs {step : σ → ι → ο × σ} {P : ο → Prop} {s : σ} {is : List ι}
    (h : ∀ o ∈ (run step s is).1, P o) : Along step (fun s i => P (step s i).1) s is := by
  induction is generalizing s with
  | nil => trivial
  | cons i is ih => exact ⟨h _ List.mem_cons_self, ih fun o ho => h o (List.mem_cons_of_mem _ ho)⟩

theorem Along.and {step : σ → ι → ο × σ} {C C' : σ → ι → Prop} {s : σ} {is : List ι}
    (h : Along step C s is) (h' : Along step C' s is) :
    Along step (fun s i => C s i ∧ C' s i) s is := by
  induction is generalizing s with
  | nil => trivial
  | cons i is ih => exact ⟨⟨h.1, h'.1⟩, ih h.2 h'.2⟩

/-- What holds at the start and is kept by each step that meets a condition
holds after every run whose steps all meet it. -/
theorem invariant_along {step : σ → ι → ο × σ} {C : σ → ι → Prop} {I : σ → Prop}
    (hstep : ∀ s i, C s i → I s → I (step s i).2) {s : σ} (h : I s) {is : List ι}
    (his : Along step C s is) : I (run step s is).2 := by
  induction is generalizing s with
  | nil => exact h
  | cons i is ih => exact ih (hstep s i his.1 h) his.2

/-- A run whose steps all make a measure smaller is no longer than the measure allows. -/
theorem length_le_along {step : σ → ι → ο × σ} {C : σ → ι → Prop} {I : σ → Prop} {f : σ → ℕ}
    (hstep : ∀ s i, C s i → I s → I (step s i).2 ∧ f (step s i).2 < f s) {s : σ} (h : I s)
    {is : List ι} (his : Along step C s is) : is.length + f (run step s is).2 ≤ f s := by
  induction is generalizing s with
  | nil => exact Nat.le_of_eq (Nat.zero_add _)
  | cons i is ih =>
    obtain ⟨hnext, hless⟩ := hstep s i his.1 h
    have hrest : is.length + f (run step s (i :: is)).2 ≤ f (step s i).2 := ih hnext his.2
    rw [List.length_cons]
    omega

/-- Where a step that misses the condition spoils a property that the invariant
gives, the property holds in every state of a run exactly when all its steps
meet the condition. -/
theorem along_iff {step : σ → ι → ο × σ} {C : σ → ι → Prop} {I G : σ → Prop}
    (hstep : ∀ s i, C s i → I s → I (step s i).2) (hgood : ∀ s, I s → G s)
    (hbad : ∀ s i, I s → ¬ C s i → ¬ G (step s i).2) {s : σ} (h : I s) (is : List ι) :
    Along step C s is ↔ ∀ js, js <+: is → G (run step s js).2 := by
  induction is generalizing s with
  | nil =>
    constructor
    · intro _ js hjs
      rw [List.prefix_nil.mp hjs]
      exact hgood s h
    · intro _
      trivial
  | cons i is ih =>
    constructor
    · rintro ⟨hc, hrest⟩ js hjs
      cases js with
      | nil => exact hgood s h
      | cons j js =>
        obtain ⟨rfl, htail⟩ := List.cons_prefix_cons.mp hjs
        exact (ih (hstep s j hc h)).mp hrest js htail
    · intro hall
      have hc : C s i := by
        by_contra hc
        exact hbad s i h hc (hall [i] (List.cons_prefix_cons.mpr ⟨rfl, List.nil_prefix⟩))
      refine ⟨hc, (ih (hstep s i hc h)).mpr fun js hjs => ?_⟩
      exact hall (i :: js) (List.cons_prefix_cons.mpr ⟨rfl, hjs⟩)

/-- Two machines whose steps keep a relation between the states, with related
outputs, as long as the inputs meet a condition, give related outputs on every run
whose inputs all meet it. -/
theorem simulation_along {step : σ → ι → ο × σ} {step' : τ → ι → π × τ} {C : σ → ι → Prop}
    {R : σ → τ → Prop} {O : ο → π → Prop}
    (hstep : ∀ s t i, C s i → R s t →
      O (step s i).1 (step' t i).1 ∧ R (step s i).2 (step' t i).2)
    {s : σ} {t : τ} (h : R s t) {is : List ι} (his : Along step C s is) :
    List.Forall₂ O (run step s is).1 (run step' t is).1 ∧
      R (run step s is).2 (run step' t is).2 := by
  induction is generalizing s t with
  | nil => exact ⟨List.Forall₂.nil, h⟩
  | cons i is ih =>
    obtain ⟨hout, hnext⟩ := hstep s t i his.1 h
    obtain ⟨houts, hend⟩ := ih hnext his.2
    exact ⟨List.Forall₂.cons hout houts, hend⟩

theorem simulation {step : σ → ι → ο × σ} {step' : τ → ι → π × τ} {R : σ → τ → Prop}
    {O : ο → π → Prop}
    (hstep : ∀ s t i, R s t → O (step s i).1 (step' t i).1 ∧ R (step s i).2 (step' t i).2)
    {s : σ} {t : τ} (h : R s t) (is : List ι) :
    List.Forall₂ O (run step s is).1 (run step' t is).1 ∧
      R (run step s is).2 (run step' t is).2 :=
  simulation_along (C := fun _ _ => True) (fun s t i _ h => hstep s t i h) h
    (along_of_mem (fun _ _ _ => trivial) s)

/-- A simulation over two lists of related inputs, with outputs related by the input
they belong to. -/
theorem simulation_inputs {ι' : Type*} {step : σ → ι → ο × σ} {step' : τ → ι' → π × τ}
    {R : σ → τ → Prop} {C : ι → ι' → Prop} {O : ι → ο → π → Prop}
    (hstep : ∀ s t i j, C i j → R s t →
      O i (step s i).1 (step' t j).1 ∧ R (step s i).2 (step' t j).2)
    {s : σ} {t : τ} (h : R s t) {is : List ι} {js : List ι'} (hc : List.Forall₂ C is js) :
    List.Forall₂ (fun i o => O i.1 i.2 o) (is.zip (run step s is).1) (run step' t js).1 ∧
      R (run step s is).2 (run step' t js).2 := by
  induction hc generalizing s t with
  | nil => exact ⟨List.Forall₂.nil, h⟩
  | cons hij _ ih =>
    obtain ⟨hout, hnext⟩ := hstep s t _ _ hij h
    obtain ⟨houts, hend⟩ := ih hnext
    exact ⟨List.Forall₂.cons hout houts, hend⟩

/-- The outputs that a run gives to its inputs of one kind. -/
def outputsOf (p : ι → Prop) [DecidablePred p] (is : List ι) (os : List ο) : List ο :=
  ((is.zip os).filter fun x => p x.1).map Prod.snd

theorem outputsOf_sublist (p : ι → Prop) [DecidablePred p] {is : List ι} {os : List ο}
    (h : os.length = is.length) : (outputsOf p is os).Sublist os := by
  have hsub := (List.filter_sublist (p := fun x : ι × ο => p x.1) (l := is.zip os)).map Prod.snd
  rw [List.map_snd_zip (Nat.le_of_eq h)] at hsub
  exact hsub

/-- Where the other inputs do not touch a relation, a run looks to its inputs of one kind
like a run of theirs alone. -/
theorem projection {ι' : Type*} {step : σ → ι → ο × σ} {step' : τ → ι' → π × τ} {p : ι → Prop}
    [DecidablePred p] {R : σ → τ → Prop} {C : ι → ι' → Prop} {O : ο → π → Prop}
    (hskip : ∀ s t i, ¬ p i → R s t → R (step s i).2 t)
    (hstep : ∀ s t i j, p i → C i j → R s t →
      O (step s i).1 (step' t j).1 ∧ R (step s i).2 (step' t j).2)
    {s : σ} {t : τ} (h : R s t) {is : List ι} {js : List ι'}
    (hc : List.Forall₂ C (is.filter fun i => p i) js) :
    List.Forall₂ O (outputsOf p is (run step s is).1) (run step' t js).1 ∧
      R (run step s is).2 (run step' t js).2 := by
  induction is generalizing s t js with
  | nil =>
    cases hc
    exact ⟨List.Forall₂.nil, h⟩
  | cons i is ih =>
    by_cases hp : p i
    · rw [List.filter_cons_of_pos (by simpa using hp)] at hc
      cases hc with
      | cons hij hc =>
        obtain ⟨hout, hnext⟩ := hstep s t i _ hp hij h
        obtain ⟨houts, hend⟩ := ih hnext hc
        refine ⟨?_, hend⟩
        rw [outputsOf, run, List.zip_cons_cons, List.filter_cons_of_pos (by simpa using hp)]
        exact List.Forall₂.cons hout houts
    · rw [List.filter_cons_of_neg (by simpa using hp)] at hc
      obtain ⟨houts, hend⟩ := ih (hskip s t i hp h) hc
      refine ⟨?_, hend⟩
      rw [outputsOf, run, List.zip_cons_cons, List.filter_cons_of_neg (by simpa using hp)]
      exact houts

end Lib.Machine
