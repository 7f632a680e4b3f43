import Mathlib.Data.List.Pairwise
import Mathlib.Order.Lattice
import Mathlib.Order.Monotone.Defs

namespace Lib

/-- Two increasing lists of one length are matched by a map that keeps the order. -/
theorem exists_strictMonoOn_map {α β : Type*} [LinearOrder α] [Preorder β] [Nonempty β]
    {as : List α} {bs : List β} (ha : as.Pairwise (· < ·)) (hb : bs.Pairwise (· < ·))
    (hlen : as.length = bs.length) :
    ∃ f : α → β, StrictMonoOn f {a | a ∈ as} ∧ as.map f = bs := by
  induction as generalizing bs with
  | nil =>
    have hnil : bs = [] := List.length_eq_zero_iff.mp hlen.symm
    exact ⟨fun _ => Classical.arbitrary β, fun a ha => by simp at ha, hnil.symm⟩
  | cons a as ih =>
    cases bs with
    | nil => simp at hlen
    | cons b bs =>
      obtain ⟨hla, ha⟩ := List.pairwise_cons.mp ha
      obtain ⟨hlb, hb⟩ := List.pairwise_cons.mp hb
      obtain ⟨g, hg, hmap⟩ := ih ha hb (Nat.succ.inj hlen)
      have hself : ∀ x ∈ as, Function.update g a b x = g x := by
        intro x hx
        rw [Function.update_of_ne (hla x hx).ne']
      refine ⟨Function.update g a b, ?_, ?_⟩
      · intro x hx y hy hxy
        obtain hxa | hx := List.mem_cons.mp hx
        · obtain hya | hy := List.mem_cons.mp hy
          · exact absurd hxy (by simp [hxa, hya])
          · rw [hxa, Function.update_self, hself y hy]
            apply hlb
            rw [← hmap]
            exact List.mem_map_of_mem hy
        · obtain hya | hy := List.mem_cons.mp hy
          · exact absurd (hla x hx) (hya ▸ hxy).asymm
          · rw [hself x hx, hself y hy]
            exact hg hx hy hxy
      · rw [List.map_cons, Function.update_self, ← hmap]
        exact congrArg (List.cons b) (List.map_congr_left hself)

end Lib
