import Mathlib.Data.List.Infix

namespace Lib.Delimited

variable {α : Type*}

section Cut

variable [DecidableEq α]

/-- The text before the first occurrence of a symbol and the text after it. -/
def cut (b : α) : List α → Option (List α × List α)
  | [] => none
  | c :: s => if c = b then some ([], s) else (cut b s).map fun p => (c :: p.1, p.2)

theorem cut_append {b : α} {l : List α} (h : b ∉ l) (r : List α) :
    cut b (l ++ b :: r) = some (l, r) := by
  induction l with
  | nil => simp [cut]
  | cons c l ih =>
    have hc : c ≠ b := fun e => h (by simp [e])
    have hl : b ∉ l := fun e => h (by simp [e])
    rw [List.cons_append, cut, if_neg hc, ih hl]
    rfl

theorem eq_of_cut {b : α} {s l r : List α} (h : cut b s = some (l, r)) :
    s = l ++ b :: r ∧ b ∉ l := by
  induction s generalizing l with
  | nil => simp [cut] at h
  | cons c s ih =>
    rw [cut] at h
    split_ifs at h with hc
    · cases h
      simp [hc]
    · obtain ⟨⟨l', r'⟩, hs, he⟩ := Option.map_eq_some_iff.mp h
      cases he
      obtain ⟨rfl, hl⟩ := ih hs
      exact ⟨rfl, by simp [Ne.symm hc, hl]⟩

end Cut

theorem append_inj_of_notMem {b : α} {l l' r r' : List α} (hl : b ∉ l) (hl' : b ∉ l')
    (h : l ++ b :: r = l' ++ b :: r') : l = l' ∧ r = r' := by
  classical
  have hcut := cut_append hl r
  rw [h, cut_append hl' r'] at hcut
  simpa [eq_comm] using hcut

/-- A field of delimited text: a label that does not contain the separator and
a value that does not contain the terminator. -/
@[ext]
structure Piece (sep stop : α) where
  text : List α
  value : List α
  sep_notMem : sep ∉ text
  stop_notMem : stop ∉ value

variable {sep stop : α}

def Piece.bytes (p : Piece sep stop) : List α := p.text ++ sep :: (p.value ++ [stop])

def render (ps : List (Piece sep stop)) : List α := ps.flatMap Piece.bytes

@[simp] theorem render_nil : render ([] : List (Piece sep stop)) = [] := rfl

@[simp] theorem render_cons (p : Piece sep stop) (ps : List (Piece sep stop)) :
    render (p :: ps) = p.bytes ++ render ps := rfl

@[simp] theorem render_append (ps qs : List (Piece sep stop)) :
    render (ps ++ qs) = render ps ++ render qs :=
  List.flatMap_append

theorem Piece.bytes_append (p : Piece sep stop) (s : List α) :
    p.bytes ++ s = p.text ++ sep :: (p.value ++ stop :: s) := by
  simp [Piece.bytes]

theorem Piece.bytes_ne_nil (p : Piece sep stop) : p.bytes ≠ [] := by
  simp [Piece.bytes]

theorem cut_bytes [DecidableEq α] (p : Piece sep stop) (s : List α) :
    cut sep (p.bytes ++ s) = some (p.text, p.value ++ stop :: s) := by
  rw [p.bytes_append]
  exact cut_append p.sep_notMem _

theorem render_injective : Function.Injective (render : List (Piece sep stop) → List α) := by
  intro ps
  induction ps with
  | nil =>
    intro qs h
    cases qs with
    | nil => rfl
    | cons q qs => simp [q.bytes_ne_nil] at h
  | cons p ps ih =>
    intro qs h
    cases qs with
    | nil => simp [p.bytes_ne_nil] at h
    | cons q qs =>
      rw [render_cons, render_cons, p.bytes_append, q.bytes_append] at h
      obtain ⟨htext, h⟩ := append_inj_of_notMem p.sep_notMem q.sep_notMem h
      obtain ⟨hvalue, h⟩ := append_inj_of_notMem p.stop_notMem q.stop_notMem h
      rw [Piece.ext htext hvalue, ih h]

theorem exists_render_of_append {ps qs : List (Piece sep stop)} {s : List α}
    (h : render ps ++ s = render qs) : ∃ rs, qs = ps ++ rs ∧ render rs = s := by
  induction ps generalizing qs with
  | nil => exact ⟨qs, rfl, h.symm⟩
  | cons p ps ih =>
    cases qs with
    | nil => simp [p.bytes_ne_nil] at h
    | cons q qs =>
      rw [render_cons, render_cons, List.append_assoc, p.bytes_append, q.bytes_append] at h
      obtain ⟨htext, h⟩ := append_inj_of_notMem p.sep_notMem q.sep_notMem h
      obtain ⟨hvalue, h⟩ := append_inj_of_notMem p.stop_notMem q.stop_notMem h
      obtain ⟨rs, rfl, hrs⟩ := ih h
      exact ⟨rs, by rw [Piece.ext htext hvalue]; rfl, hrs⟩

theorem sep_mem_render {ps : List (Piece sep stop)} (h : ps ≠ []) : sep ∈ render ps := by
  cases ps with
  | nil => exact absurd rfl h
  | cons p ps => simp [Piece.bytes]

theorem exists_render_concat {ps : List (Piece sep stop)} (h : ps ≠ []) :
    ∃ s, render ps = s ++ [stop] := by
  obtain ⟨qs, p, rfl⟩ := (List.eq_nil_or_concat ps).resolve_left h
  exact ⟨render qs ++ (p.text ++ sep :: p.value), by simp [Piece.bytes]⟩

/-- The last value is what stands between the last separator and the end, where
the text ends with a label and a value that hold no delimiter. -/
theorem last_value {ps : List (Piece sep stop)} {p : Piece sep stop} {s t v : List α}
    (hne : stop ≠ sep) (hsep : sep ∉ t) (hv : sep ∉ v)
    (h : render (ps ++ [p]) = s ++ stop :: (t ++ sep :: (v ++ [stop]))) : p.value = v := by
  have hends : (render ps ++ p.text) ++ sep :: p.value = (s ++ stop :: t) ++ sep :: v := by
    apply (List.append_left_inj [stop]).mp
    simpa [Piece.bytes] using h
  obtain ⟨a, ha, htail⟩ | ⟨a, -, htail⟩ := List.append_eq_append_iff.mp hends
  · cases a with
    | nil => exact (List.cons_eq_cons.mp htail).2
    | cons b a =>
      -- the value would reach back over the label and the terminator before it
      obtain ⟨rfl, hvalue⟩ := List.cons_eq_cons.mp htail
      obtain ⟨b, -, hb⟩ | ⟨b, -, hb⟩ := List.append_eq_append_iff.mp ha
      · cases b with
        | nil => exact absurd (List.cons_eq_cons.mp hb).1 hne
        | cons c b =>
          refine absurd ?_ hsep
          rw [(List.cons_eq_cons.mp hb).2]
          simp
      · cases b with
        | nil => exact absurd (List.cons_eq_cons.mp hb).1.symm hne
        | cons c b =>
          refine absurd ?_ p.stop_notMem
          rw [hvalue, (List.cons_eq_cons.mp hb).2]
          simp
  · cases a with
    | nil => exact (List.cons_eq_cons.mp htail).2.symm
    | cons b a =>
      obtain ⟨-, hvalue⟩ := List.cons_eq_cons.mp htail
      exact absurd (by simp [hvalue]) hv

end Lib.Delimited
