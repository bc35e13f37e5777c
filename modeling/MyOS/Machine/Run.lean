import Mathlib.Data.List.Induction
import Mathlib.Tactic.Common

/-!
# Traces of a labelled step relation

`Trace R s tr t`: the events `tr`, oldest first, lead from `s` to `t` along `R`. The rules every
whole-run result of the development is an instance of:

* `Trace.append` / `Trace.of_append`: traces compose and split.
* `Trace.invariant`: what every step preserves holds at the end; `Trace.invariant_of` lets the
  step lemma use a condition that every event of the trace meets.
* `Trace.stays_iff`: which runs stay inside an invariant that some steps break.
* `Trace.balance`: what a run does to a count, from what each step does to it.
* `Trace.snoc_induction`: induction on the last step, for properties of the whole history.
* **`Trace.frame_below`**: a last-in first-out discipline. If a step taken at depth `d` leaves
  what is observed strictly below `d` alone, a trace whose steps are all taken above depth `p`
  leaves everything observed at `p` and below alone.
* `Since P Q tr`: an event of the history met `P` and none later meets `Q`; `since_snoc` is its
  recursion on the last event. `Always P tr`: every event meets `P` with the history before it.
-/

namespace MyOS.Machine

variable {σ ι : Type*}

/-- A finite run along `R`, with its events, oldest first. -/
inductive Trace (R : σ → ι → σ → Prop) : σ → List ι → σ → Prop
  | nil (s : σ) : Trace R s [] s
  | cons {s t u : σ} {e : ι} {tr : List ι} (h : R s e t) (ht : Trace R t tr u) :
      Trace R s (e :: tr) u

namespace Trace

variable {R : σ → ι → σ → Prop} {s t u : σ} {tr tr' : List ι} {e : ι}

theorem of_nil (h : Trace R s [] t) : s = t := by
  cases h
  rfl

theorem of_cons (h : Trace R s (e :: tr) u) : ∃ t, R s e t ∧ Trace R t tr u := by
  cases h with
  | cons hs ht => exact ⟨_, hs, ht⟩

theorem single (h : R s e t) : Trace R s [e] t := .cons h (.nil t)

theorem append (h : Trace R s tr t) (h' : Trace R t tr' u) : Trace R s (tr ++ tr') u := by
  induction h with
  | nil _ => exact h'
  | cons hs _ ih => exact .cons hs (ih h')

theorem of_append : ∀ {tr : List ι} {s : σ}, Trace R s (tr ++ tr') u →
    ∃ t, Trace R s tr t ∧ Trace R t tr' u
  | [], s, h => ⟨s, .nil s, h⟩
  | _ :: _, _, h => by
    obtain ⟨v, hs, hr⟩ := of_cons h
    obtain ⟨t, h1, h2⟩ := of_append hr
    exact ⟨t, .cons hs h1, h2⟩

theorem of_snoc (h : Trace R s (tr ++ [e]) u) : ∃ t, Trace R s tr t ∧ R t e u := by
  obtain ⟨t, h1, h2⟩ := of_append h
  obtain ⟨v, h3, h4⟩ := of_cons h2
  obtain rfl := of_nil h4
  exact ⟨t, h1, h3⟩

/-- A trace along `R` is one along `R'` when its events take `R` into `R'`. -/
theorem mono_of {R' : σ → ι → σ → Prop} {P : ι → Prop}
    (hR : ∀ s e t, P e → R s e t → R' s e t) (h : Trace R s tr t) (hP : ∀ e ∈ tr, P e) :
    Trace R' s tr t := by
  induction h with
  | nil s => exact .nil s
  | cons hs _ ih =>
    rw [List.forall_mem_cons] at hP
    exact .cons (hR _ _ _ hP.1 hs) (ih hP.2)

/-- A trace along `R` is one along a weaker relation. -/
theorem mono {R' : σ → ι → σ → Prop} (hR : ∀ s e t, R s e t → R' s e t) (h : Trace R s tr t) :
    Trace R' s tr t :=
  h.mono_of (P := fun _ => True) (fun s e t _ => hR s e t) fun _ _ => trivial

/-- **Invariant rule**, with a condition `P` that every event of the trace meets. -/
theorem invariant_of {I : σ → Prop} {P : ι → Prop}
    (hstep : ∀ s e t, P e → I s → R s e t → I t) (h : Trace R s tr t) (hP : ∀ e ∈ tr, P e)
    (h0 : I s) : I t := by
  induction h with
  | nil _ => exact h0
  | cons hs _ ih =>
    rw [List.forall_mem_cons] at hP
    exact ih hP.2 (hstep _ _ _ hP.1 h0 hs)

/-- **Invariant rule.** -/
theorem invariant {I : σ → Prop} (hstep : ∀ s e t, I s → R s e t → I t) (h : Trace R s tr t)
    (h0 : I s) : I t :=
  h.invariant_of (P := fun _ => True) (fun s e t _ => hstep s e t) (fun _ _ => trivial) h0

/-- **What keeps an invariant.** Where a step from a state of `I` leads to `I` again exactly when it
meets `C`, the runs that stay in `I` are those whose steps all meet `C`. `J` is an invariant the
step lemma may use. -/
theorem stays_iff {I J : σ → Prop} {C : σ → ι → Prop} (hJ : ∀ s e t, J s → R s e t → J t)
    (hC : ∀ s e t, J s → I s → R s e t → (I t ↔ C s e)) (h0 : J s) (h1 : I s) :
    Trace (fun s e t => R s e t ∧ I t) s tr t ↔ Trace (fun s e t => R s e t ∧ C s e) s tr t := by
  constructor
  · intro h
    induction h with
    | nil s => exact .nil s
    | cons hs _ ih =>
      exact .cons ⟨hs.1, (hC _ _ _ h0 h1 hs.1).mp hs.2⟩ (ih (hJ _ _ _ h0 hs.1) hs.2)
  · intro h
    induction h with
    | nil s => exact .nil s
    | cons hs _ ih =>
      have hI := (hC _ _ _ h0 h1 hs.1).mpr hs.2
      exact .cons ⟨hs.1, hI⟩ (ih (hJ _ _ _ h0 hs.1) hI)

/-- **Balance rule.** Where every step moves a count up by an event of one kind and down by an event
of another, a run moves it by the numbers of these events. -/
theorem balance {I : σ → Prop} {P : ι → Prop} {f : σ → Nat} {up down : ι → Bool}
    (hI : ∀ s e t, P e → I s → R s e t → I t)
    (hf : ∀ s e t, P e → I s → R s e t →
      f t + (if down e then 1 else 0) = f s + if up e then 1 else 0)
    (h : Trace R s tr t) (hP : ∀ e ∈ tr, P e) (h0 : I s) :
    f t + tr.countP down = f s + tr.countP up := by
  induction h with
  | nil _ => rfl
  | cons hs _ ih =>
    rw [List.forall_mem_cons] at hP
    have hrest := ih hP.2 (hI _ _ _ hP.1 h0 hs)
    have hone := hf _ _ _ hP.1 h0 hs
    rw [List.countP_cons, List.countP_cons]
    omega

/-- Induction on the last step of a trace from `s`: the property may speak of the whole history. -/
theorem snoc_induction {P : List ι → σ → Prop} (hnil : P [] s)
    (hsnoc : ∀ tr t e u, Trace R s tr t → P tr t → R t e u → P (tr ++ [e]) u) :
    ∀ {tr : List ι} {t : σ}, Trace R s tr t → P tr t := by
  intro tr
  induction tr using List.reverseRecOn with
  | nil =>
    intro t h
    rw [← of_nil h]
    exact hnil
  | append_singleton tr e ih =>
    intro u h
    obtain ⟨t, h1, h2⟩ := of_snoc h
    exact hsnoc tr t e u h1 (ih h1) h2

/-- **Last in, first out.** When a step taken at depth `d` leaves what is observed strictly below
`d` alone, a trace whose steps are all taken above depth `p` leaves `p` and below alone. -/
theorem frame_below {φ : Type*} (depth : σ → Nat) {obs : σ → Nat → φ} {p : Nat}
    (hstep : ∀ s e t, R s e t → ∀ q, q < depth s → obs t q = obs s q)
    (h : Trace (fun s e t => p < depth s ∧ R s e t) s tr t) :
    ∀ q, q ≤ p → obs t q = obs s q := by
  intro q hq
  refine h.invariant (I := fun t => obs t q = obs s q) ?_ rfl
  intro a e b hab hstep'
  rw [hstep a e b hstep'.2 q (by omega), hab]

end Trace

/-! ## Since -/

/-- Some event met `P`, and none after it meets `Q`. -/
def Since (P Q : ι → Prop) (tr : List ι) : Prop :=
  ∃ before e after, tr = before ++ e :: after ∧ P e ∧ ∀ e' ∈ after, ¬ Q e'

theorem not_since_nil {P Q : ι → Prop} : ¬ Since P Q [] := by
  rintro ⟨before, e, after, h, -⟩
  exact absurd h.symm (by simp)

theorem since_snoc {P Q : ι → Prop} {tr : List ι} {e : ι} :
    Since P Q (tr ++ [e]) ↔ P e ∨ Since P Q tr ∧ ¬ Q e := by
  constructor
  · rintro ⟨before, e₁, after, h, hP, hQ⟩
    rcases List.eq_nil_or_concat after with rfl | ⟨after, e₂, rfl⟩
    · obtain ⟨-, h'⟩ := List.append_inj' h rfl
      obtain rfl : e = e₁ := by simpa using h'
      exact Or.inl hP
    · rw [List.concat_eq_append, ← List.cons_append, ← List.append_assoc] at h
      obtain ⟨rfl, h'⟩ := List.append_inj' h rfl
      obtain rfl : e = e₂ := by simpa using h'
      refine Or.inr ⟨⟨before, e₁, after, rfl, hP, ?_⟩, ?_⟩
      · exact fun e' he' => hQ e' (by simp [he'])
      · exact hQ e (by simp)
  · rintro (hP | ⟨⟨before, e₁, after, rfl, hP, hQ⟩, hne⟩)
    · exact ⟨tr, e, [], rfl, hP, nofun⟩
    · refine ⟨before, e₁, after ++ [e], by simp, hP, ?_⟩
      intro e' he'
      rcases List.mem_append.mp he' with he' | he'
      · exact hQ e' he'
      · obtain rfl : e' = e := by simpa using he'
        exact hne

/-! ## Always -/

/-- Every event meets `P` with the history before it. -/
def Always (P : List ι → ι → Prop) (tr : List ι) : Prop :=
  ∀ before e after, tr = before ++ e :: after → P before e

theorem always_nil {P : List ι → ι → Prop} : Always P [] := by
  intro before e after h
  exact absurd h.symm (by simp)

theorem always_snoc {P : List ι → ι → Prop} {tr : List ι} {e : ι} :
    Always P (tr ++ [e]) ↔ Always P tr ∧ P tr e := by
  constructor
  · intro h
    refine ⟨fun before e₁ after heq => h before e₁ (after ++ [e]) ?_, h tr e [] rfl⟩
    rw [heq, List.append_assoc, List.cons_append]
  · rintro ⟨h, he⟩ before e₁ after heq
    rcases List.eq_nil_or_concat after with rfl | ⟨after, e₂, rfl⟩
    · obtain ⟨rfl, h'⟩ := List.append_inj' heq rfl
      obtain rfl : e = e₁ := by simpa using h'
      exact he
    · rw [List.concat_eq_append, ← List.cons_append, ← List.append_assoc] at heq
      obtain ⟨rfl, -⟩ := List.append_inj' heq rfl
      exact h before e₁ after rfl

end MyOS.Machine
