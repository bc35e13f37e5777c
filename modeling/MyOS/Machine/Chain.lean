import Mathlib.Data.List.Nodup
import Mathlib.Tactic.Common

/-!
# A list threaded through its elements

Elements that each name the next one, and a head that names the first. `Linked next head l` says
that the elements met from `head` on are those of `l`, and that the walk ends behind them.

* `Linked.congr`: only the links of the elements on the list matter.
* `Linked.push`: a new element in front. `Linked.unlink`: an element taken out, by a change of the
  link before it.
* `findFrom`, `prevFrom`: the two searches a program makes along the links, the one for an element
  with a property, the other for the link that names a given element. A search may not end, so it
  has fuel; along a list it ends (`findFrom_ends`, `prevFrom_ends`) and finds what it should
  (`findFrom_some`, `prevFrom_some`).
-/

namespace MyOS.Machine

variable {ι : Type*} {next next' : ι → Option ι} {head : Option ι} {l : List ι}

/-- From `head`, the links run through `l` and end. -/
def Linked (next : ι → Option ι) : Option ι → List ι → Prop
  | head, [] => head = none
  | head, i :: l => head = some i ∧ Linked next (next i) l

theorem Linked.congr (h : Linked next head l) (hnext : ∀ i ∈ l, next' i = next i) :
    Linked next' head l := by
  induction l generalizing head with
  | nil => exact h
  | cons i l ih =>
    rw [List.forall_mem_cons] at hnext
    refine ⟨h.1, ?_⟩
    rw [hnext.1]
    exact ih h.2 hnext.2

/-- What the links run through is determined by the head. -/
theorem Linked.unique {l' : List ι} (h : Linked next head l) (h' : Linked next head l') :
    l = l' := by
  induction l generalizing head l' with
  | nil =>
    cases l' with
    | nil => rfl
    | cons j l' => exact absurd (h.symm.trans h'.1) (by simp)
  | cons i l ih =>
    cases l' with
    | nil => exact absurd (h'.symm.trans h.1) (by simp)
    | cons j l' =>
      obtain rfl : i = j := Option.some.inj (h.1.symm.trans h'.1)
      rw [ih h.2 h'.2]

/-- The first element from `head` on with the property `p`. -/
def findFrom (next : ι → Option ι) (p : ι → Bool) : Nat → Option ι → Option (Option ι)
  | 0, _ => none
  | _ + 1, none => some none
  | fuel + 1, some i => if p i then some (some i) else findFrom next p fuel (next i)

/-- **Along a list the search ends.** -/
theorem findFrom_ends (h : Linked next head l) (p : ι → Bool) {fuel : Nat} (hf : l.length < fuel) :
    ∃ found, findFrom next p fuel head = some found := by
  induction l generalizing head fuel with
  | nil =>
    obtain rfl : head = none := h
    cases fuel with
    | zero => exact absurd hf (Nat.not_lt_zero _)
    | succ fuel => exact ⟨none, rfl⟩
  | cons i l ih =>
    obtain ⟨rfl, hrest⟩ := h
    cases fuel with
    | zero => exact absurd hf (Nat.not_lt_zero _)
    | succ fuel =>
      rw [findFrom]
      cases p i with
      | true => exact ⟨some i, rfl⟩
      | false => exact ih hrest (Nat.lt_of_succ_lt_succ hf)

/-- **It finds the first element of the list with the property.** -/
theorem findFrom_some (h : Linked next head l) {p : ι → Bool} {fuel : Nat} {found : Option ι}
    (hf : findFrom next p fuel head = some found) : found = l.find? p := by
  induction l generalizing head fuel with
  | nil =>
    obtain rfl : head = none := h
    cases fuel with
    | zero => cases hf
    | succ fuel => exact (Option.some.inj hf).symm
  | cons i l ih =>
    obtain ⟨rfl, hrest⟩ := h
    cases fuel with
    | zero => cases hf
    | succ fuel =>
      rw [findFrom] at hf
      rw [List.find?_cons]
      cases hp : p i with
      | true =>
        rw [hp] at hf
        exact (Option.some.inj hf).symm
      | false =>
        rw [hp] at hf
        exact ih hrest hf

section Update

variable [DecidableEq ι]

/-- **A new element in front**, which names the old head. -/
theorem Linked.push (h : Linked next head l) {i : ι} (hi : i ∉ l) :
    Linked (Function.update next i head) (some i) (i :: l) := by
  refine ⟨rfl, ?_⟩
  rw [Function.update_self]
  exact h.congr fun j hj => Function.update_of_ne (ne_of_mem_of_not_mem hj hi) _ _

/-- **An element taken out**: the one before it names the one behind it. -/
theorem Linked.unlink {pre post : List ι} {p i : ι} (h : Linked next head (pre ++ p :: i :: post))
    (hnd : (pre ++ p :: i :: post).Nodup) :
    Linked (Function.update next p (next i)) head (pre ++ p :: post) := by
  induction pre generalizing head with
  | nil =>
    rw [List.nil_append, List.nodup_cons] at hnd
    obtain ⟨hhead, hp, hrest⟩ := h
    refine ⟨hhead, ?_⟩
    rw [Function.update_self]
    refine hrest.congr fun j hj => Function.update_of_ne ?_ _ _
    rintro rfl
    exact hnd.1 (List.mem_cons_of_mem i hj)
  | cons a pre ih =>
    rw [List.cons_append, List.nodup_cons] at hnd
    obtain ⟨hhead, hrest⟩ := h
    have hne : a ≠ p := by
      rintro rfl
      exact hnd.1 (List.mem_append_right pre List.mem_cons_self)
    refine ⟨hhead, ?_⟩
    rw [Function.update_of_ne hne]
    exact ih hrest hnd.2

/-- The link that names `i`, from the link of `prev` (the head when there is none) on: the element
it belongs to. Behind the end there is no link to follow. -/
def prevFrom (next : ι → Option ι) (i : ι) : Nat → Option ι → Option ι → Option (Option ι)
  | 0, _, _ => none
  | _ + 1, _, none => none
  | fuel + 1, prev, some j => if j = i then some prev else prevFrom next i fuel (some j) (next j)

/-- **Along a list the link that names an element of it is found.** -/
theorem prevFrom_ends {pre post : List ι} {i : ι} (h : Linked next head (pre ++ i :: post))
    (prev : Option ι) {fuel : Nat} (hf : pre.length < fuel) :
    ∃ found, prevFrom next i fuel prev head = some found := by
  induction pre generalizing head prev fuel with
  | nil =>
    obtain ⟨rfl, -⟩ := h
    cases fuel with
    | zero => exact absurd hf (Nat.not_lt_zero _)
    | succ fuel => exact ⟨prev, if_pos rfl⟩
  | cons j pre ih =>
    obtain ⟨rfl, hrest⟩ := h
    cases fuel with
    | zero => exact absurd hf (Nat.not_lt_zero _)
    | succ fuel =>
      rw [prevFrom]
      split
      · exact ⟨prev, rfl⟩
      · exact ih hrest (some j) (Nat.lt_of_succ_lt_succ hf)

/-- It is the link of the element before it, or the one the search started from. -/
theorem prevFrom_some {pre post : List ι} {i : ι} (h : Linked next head (pre ++ i :: post))
    (hi : i ∉ pre) {prev found : Option ι} {fuel : Nat}
    (hf : prevFrom next i fuel prev head = some found) :
    found = pre.foldl (fun _ j => some j) prev := by
  induction pre generalizing head prev fuel with
  | nil =>
    obtain ⟨rfl, -⟩ := h
    cases fuel with
    | zero => cases hf
    | succ fuel =>
      rw [prevFrom, if_pos rfl] at hf
      exact (Option.some.inj hf).symm
  | cons j pre ih =>
    obtain ⟨rfl, hrest⟩ := h
    rw [List.mem_cons, not_or] at hi
    cases fuel with
    | zero => cases hf
    | succ fuel =>
      rw [prevFrom, if_neg (Ne.symm hi.1)] at hf
      exact ih hrest hi.2 hf

end Update

end MyOS.Machine
