import Mathlib.Algebra.BigOperators.Group.Finset.Piecewise
import Mathlib.Data.Fintype.Basic
import Mathlib.Data.List.Sort
import Mathlib.Tactic.Common

/-!
# A table of slots

A function from a finite type is a table. Two things every allocator over one needs:

* `find?_eq_some_iff_of_sorted`: the first match in a list that is in order is the least one.
* `slotCount P f`: how many slots of `f` hold a content that meets `P`. **`slotCount_update`** is
  the balance of one store, and `slotCount_le` the bound by the slots that can meet `P` at all.
-/

namespace MyOS.Machine

/-- The first match in a sorted list is the least. -/
theorem find?_eq_some_iff_of_sorted {ι : Type*} [LinearOrder ι] {p : ι → Bool} {i : ι} :
    ∀ {l : List ι}, l.Pairwise (· < ·) →
      (l.find? p = some i ↔ i ∈ l ∧ p i = true ∧ ∀ j ∈ l, j < i → p j = false) := by
  intro l
  induction l with
  | nil => simp
  | cons a l ih =>
    intro hl
    rw [List.pairwise_cons] at hl
    rw [List.find?_cons]
    by_cases ha : p a = true
    · simp only [ha, Option.some.injEq]
      constructor
      · rintro rfl
        refine ⟨List.mem_cons_self, ha, fun j hj hlt => ?_⟩
        rcases List.mem_cons.mp hj with rfl | hj
        · exact absurd hlt (lt_irrefl _)
        · exact absurd hlt (lt_asymm (hl.1 j hj))
      · rintro ⟨hi, -, hfirst⟩
        rcases List.mem_cons.mp hi with rfl | hi
        · rfl
        · have := hfirst a List.mem_cons_self (hl.1 i hi)
          rw [ha] at this
          cases this
    · have ha' : p a = false := by simpa using ha
      simp only [ha']
      rw [ih hl.2, List.mem_cons]
      constructor
      · rintro ⟨hi, hp, hfirst⟩
        refine ⟨Or.inr hi, hp, fun j hj hlt => ?_⟩
        rcases List.mem_cons.mp hj with rfl | hj
        · exact ha'
        · exact hfirst j hj hlt
      · rintro ⟨rfl | hi, hp, hfirst⟩
        · exact absurd hp ha
        · exact ⟨hi, hp, fun j hj => hfirst j (List.mem_cons_of_mem a hj)⟩

section Count

variable {ι α : Type*} [Fintype ι] (P : ι → α → Prop) [∀ i a, Decidable (P i a)]

/-- The number of slots whose content meets `P`. -/
def slotCount (f : ι → α) : Nat := (Finset.univ.filter fun i => P i (f i)).card

/-- **The balance of one store**: what it takes away and what it adds. -/
theorem slotCount_update [DecidableEq ι] (f : ι → α) (i : ι) (a : α) :
    slotCount P (Function.update f i a) + (if P i (f i) then 1 else 0) =
      slotCount P f + if P i a then 1 else 0 := by
  unfold slotCount
  rw [Finset.card_filter, Finset.card_filter, ← Finset.add_sum_erase _ _ (Finset.mem_univ i),
    ← Finset.add_sum_erase _ (fun j => if P j (f j) then 1 else 0) (Finset.mem_univ i)]
  have hrest : ∑ j ∈ Finset.univ.erase i, (if P j (Function.update f i a j) then 1 else 0) =
      ∑ j ∈ Finset.univ.erase i, if P j (f j) then 1 else 0 := by
    refine Finset.sum_congr rfl fun j hj => ?_
    rw [Function.update_of_ne (Finset.ne_of_mem_erase hj)]
  rw [hrest, Function.update_self]
  omega

/-- No more slots meet `P` than can. -/
theorem slotCount_le {Q : ι → Prop} [DecidablePred Q] (h : ∀ i a, P i a → Q i) (f : ι → α) :
    slotCount P f ≤ (Finset.univ.filter Q).card := by
  refine Finset.card_le_card fun i hi => ?_
  rw [Finset.mem_filter] at hi ⊢
  exact ⟨hi.1, h i (f i) hi.2⟩

end Count

end MyOS.Machine
