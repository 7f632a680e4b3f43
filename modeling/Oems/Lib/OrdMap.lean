import Mathlib.Data.List.Sigma
import Mathlib.Order.Defs.Unbundled
import Mathlib.Order.RelClasses

namespace Lib

/-- A finite map that keeps its entries in key order, the order being a
parameter. The order of the entries is part of the type. -/
structure OrdMap {κ : Type*} (r : κ → κ → Prop) (α : Type*) where
  entries : List (Σ _ : κ, α)
  sorted : entries.keys.Pairwise r

namespace OrdMap

variable {κ α : Type*} {r : κ → κ → Prop}

def empty : OrdMap r α := ⟨[], List.Pairwise.nil⟩

@[simp] theorem entries_empty : (empty : OrdMap r α).entries = [] := rfl

/-- Replace the entries by others whose keys are some of the old ones. -/
def shrink (m : OrdMap r α) (l : List (Σ _ : κ, α)) (h : l.keys.Sublist m.entries.keys) :
    OrdMap r α := ⟨l, m.sorted.sublist h⟩

def values (m : OrdMap r α) : List α := m.entries.map Sigma.snd

theorem nodupKeys [Std.Irrefl r] (m : OrdMap r α) : m.entries.NodupKeys := by
  refine m.sorted.imp ?_
  intro a b hab he
  subst he
  exact irrefl_of r a hab

variable [DecidableEq κ]

def find (k : κ) (m : OrdMap r α) : Option α := m.entries.dlookup k

@[simp] theorem find_empty (k : κ) : (empty : OrdMap r α).find k = none := rfl

theorem find_eq_some_iff [Std.Irrefl r] {m : OrdMap r α} {k : κ} {v : α} :
    m.find k = some v ↔ ⟨k, v⟩ ∈ m.entries :=
  List.mem_dlookup_iff m.nodupKeys

theorem mem_values_iff [Std.Irrefl r] {m : OrdMap r α} {v : α} :
    v ∈ m.values ↔ ∃ k, m.find k = some v := by
  rw [values, List.mem_map]
  constructor
  · rintro ⟨⟨k, v⟩, he, rfl⟩
    exact ⟨k, find_eq_some_iff.mpr he⟩
  · rintro ⟨k, hk⟩
    exact ⟨_, find_eq_some_iff.mp hk, rfl⟩

theorem find_eq_none_iff {m : OrdMap r α} {k : κ} : m.find k = none ↔ k ∉ m.entries.keys :=
  List.dlookup_eq_none

variable [DecidableRel r]

def insertList (r : κ → κ → Prop) [DecidableRel r] (k : κ) (v : α) :
    List (Σ _ : κ, α) → List (Σ _ : κ, α)
  | [] => [⟨k, v⟩]
  | e :: l =>
    if r k e.1 then ⟨k, v⟩ :: e :: l
    else if k = e.1 then ⟨k, v⟩ :: l
    else e :: insertList r k v l

theorem mem_keys_insertList {k x : κ} {v : α} {l : List (Σ _ : κ, α)}
    (h : x ∈ (insertList r k v l).keys) : x = k ∨ x ∈ l.keys := by
  induction l with
  | nil => simpa [insertList] using h
  | cons e l ih =>
    unfold insertList at h
    split_ifs at h with hr hk
    · simpa using h
    · simp only [List.keys_cons, List.mem_cons] at h ⊢
      exact h.imp_right Or.inr
    · simp only [List.keys_cons, List.mem_cons] at h ⊢
      obtain h | h := h
      · exact Or.inr (Or.inl h)
      · exact (ih h).imp_right Or.inr

theorem mem_insertList {k : κ} {v : α} {l : List (Σ _ : κ, α)} {e : Σ _ : κ, α}
    (h : e ∈ insertList r k v l) : e = ⟨k, v⟩ ∨ e ∈ l := by
  induction l with
  | nil => exact Or.inl (List.mem_singleton.mp h)
  | cons d l ih =>
    unfold insertList at h
    split_ifs at h with hr hk
    · exact List.mem_cons.mp h
    · exact (List.mem_cons.mp h).imp_right (List.mem_cons_of_mem d)
    · obtain rfl | h := List.mem_cons.mp h
      · exact Or.inr List.mem_cons_self
      · exact (ih h).imp_right (List.mem_cons_of_mem d)

section Map

variable {κ' β : Type*} {r' : κ' → κ' → Prop} [DecidableEq κ'] {f : κ → κ'} {g : α → β}

/-- Keys that are mapped in order keep their places. -/
theorem insertList_map [DecidableRel r'] {k : κ} {v : α} {l : List (Σ _ : κ, α)}
    (h : ∀ e ∈ l, (r' (f k) (f e.1) ↔ r k e.1) ∧ (f k = f e.1 ↔ k = e.1)) :
    insertList r' (f k) (g v) (l.map fun e => (⟨f e.1, g e.2⟩ : Σ _ : κ', β)) =
      (insertList r k v l).map fun e => ⟨f e.1, g e.2⟩ := by
  induction l with
  | nil => rfl
  | cons d l ih =>
    obtain ⟨hlt, heq⟩ := h d List.mem_cons_self
    rw [List.map_cons, insertList, insertList]
    simp only [hlt, heq]
    split_ifs with hr hk
    · rfl
    · rfl
    · exact congrArg (List.cons _) (ih fun e he => h e (List.mem_cons_of_mem d he))

omit [DecidableRel r] in
theorem dlookup_map {k : κ} {l : List (Σ _ : κ, α)} (h : ∀ e ∈ l, f k = f e.1 ↔ k = e.1) :
    (l.map fun e => (⟨f e.1, g e.2⟩ : Σ _ : κ', β)).dlookup (f k) = (l.dlookup k).map g := by
  induction l with
  | nil => rfl
  | cons d l ih =>
    obtain ⟨x, a⟩ := d
    have hfirst := h ⟨x, a⟩ List.mem_cons_self
    rw [List.map_cons]
    by_cases hk : k = x
    · subst hk
      rw [List.dlookup_cons_eq, List.dlookup_cons_eq]
      rfl
    · rw [List.dlookup_cons_ne _ _ fun hf => hk (hfirst.mp hf), List.dlookup_cons_ne _ _ hk]
      exact ih fun e he => h e (List.mem_cons_of_mem _ he)

end Map

theorem insertList_sorted [IsStrictTotalOrder κ r] (k : κ) (v : α) {l : List (Σ _ : κ, α)}
    (h : l.keys.Pairwise r) : (insertList r k v l).keys.Pairwise r := by
  induction l with
  | nil => simp [insertList]
  | cons e l ih =>
    obtain ⟨hhead, htail⟩ := List.pairwise_cons.mp h
    unfold insertList
    split_ifs with hr hk
    · refine List.Pairwise.cons ?_ h
      intro x hx
      obtain rfl | hx := List.mem_cons.mp hx
      · exact hr
      · exact trans_of r hr (hhead x hx)
    · subst hk
      exact List.Pairwise.cons hhead htail
    · refine List.Pairwise.cons ?_ (ih htail)
      intro x hx
      obtain rfl | hx := mem_keys_insertList hx
      · obtain hlt | heq | hgt := trichotomous_of r x e.1
        · exact absurd hlt hr
        · exact absurd heq hk
        · exact hgt
      · exact hhead x hx

def insert [IsStrictTotalOrder κ r] (k : κ) (v : α) (m : OrdMap r α) : OrdMap r α :=
  ⟨insertList r k v m.entries, insertList_sorted k v m.sorted⟩

def erase (k : κ) (m : OrdMap r α) : OrdMap r α :=
  m.shrink (m.entries.kerase k) ((List.kerase_sublist k m.entries).map Sigma.fst)

section Lookup

variable [IsStrictTotalOrder κ r]

@[simp] theorem find_insert (k : κ) (v : α) (m : OrdMap r α) : (m.insert k v).find k = some v := by
  obtain ⟨l, hl⟩ := m
  change (insertList r k v l).dlookup k = some v
  clear hl
  induction l with
  | nil => simp [insertList]
  | cons e l ih =>
    unfold insertList
    split_ifs with hr hk
    · simp
    · simp
    · rw [List.dlookup_cons_ne _ e hk]
      exact ih

theorem find_insert_of_ne {k k' : κ} (v : α) (m : OrdMap r α) (h : k' ≠ k) :
    (m.insert k v).find k' = m.find k' := by
  obtain ⟨l, hl⟩ := m
  change (insertList r k v l).dlookup k' = l.dlookup k'
  clear hl
  induction l with
  | nil => simp [insertList, List.dlookup_cons_ne _ (⟨k, v⟩ : Σ _ : κ, α) h]
  | cons e l ih =>
    unfold insertList
    split_ifs with hr hk
    · rw [List.dlookup_cons_ne _ (⟨k, v⟩ : Σ _ : κ, α) h]
    · rw [List.dlookup_cons_ne _ (⟨k, v⟩ : Σ _ : κ, α) h,
        List.dlookup_cons_ne l e (by rw [← hk]; exact h)]
    · obtain ⟨a, b⟩ := e
      by_cases ha : k' = a
      · subst ha
        simp
      · rw [List.dlookup_cons_ne _ (⟨a, b⟩ : Σ _ : κ, α) ha,
          List.dlookup_cons_ne _ (⟨a, b⟩ : Σ _ : κ, α) ha]
        exact ih

omit [DecidableRel r] in
@[simp] theorem find_erase (k : κ) (m : OrdMap r α) : (m.erase k).find k = none :=
  List.dlookup_kerase k m.nodupKeys

omit [DecidableRel r] [IsStrictTotalOrder κ r] in
theorem find_erase_of_ne {k k' : κ} (m : OrdMap r α) (h : k' ≠ k) :
    (m.erase k).find k' = m.find k' :=
  List.dlookup_kerase_ne h

theorem entries_insert_of_last {k : κ} (v : α) {m : OrdMap r α}
    (h : ∀ x ∈ m.entries.keys, r x k) : (m.insert k v).entries = m.entries ++ [⟨k, v⟩] := by
  change insertList r k v m.entries = m.entries ++ [⟨k, v⟩]
  generalize m.entries = l at h
  induction l with
  | nil => rfl
  | cons e l ih =>
    have he : r e.1 k := h e.1 (by simp)
    have hr : ¬ r k e.1 := asymm_of r he
    have hk : k ≠ e.1 := fun heq => irrefl_of r k (by rw [heq] at he ⊢; exact he)
    rw [insertList, if_neg hr, if_neg hk, ih fun x hx => h x (by simp [hx])]
    rfl

end Lookup

end OrdMap

end Lib
