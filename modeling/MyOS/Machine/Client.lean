import MyOS.Machine.Run

/-!
# A program beside the system that serves it

A program and the system under it are two labelled step relations over the same events. Each takes
part in every event: the program moves on the answers to its own calls and stays where it is
otherwise, the system moves as it does without the program.

* **`Trace.refine`**: where the steps of `K` are, under an abstraction, steps of a simpler system
  `T`, a run of `K` is one of `T` with the same events.
* `Beside P K`: the two side by side. `Trace.system` forgets the program.
* **`Trace.serve`**: a run of a program on `K` is then one on `T`. What a program does can be proved
  once, against what it is promised.
-/

namespace MyOS.Machine

variable {S σ τ ι : Type*}

/-- A program and a system that take part in the same events. -/
def Beside (P : S → ι → S → Prop) (K : σ → ι → σ → Prop) (x : S × σ) (e : ι) (y : S × σ) : Prop :=
  P x.1 e y.1 ∧ K x.2 e y.2

namespace Trace

variable {P : S → ι → S → Prop} {K : σ → ι → σ → Prop} {T : τ → ι → τ → Prop} {tr : List ι}

/-- **Refinement by an abstraction function.** `J` is an invariant of the system that the
abstraction needs. -/
theorem refine {J : σ → Prop} (abs : σ → τ)
    (hK : ∀ s e t, J s → K s e t → J t ∧ T (abs s) e (abs t)) {s t : σ} (h : Trace K s tr t)
    (h0 : J s) : J t ∧ Trace T (abs s) tr (abs t) := by
  induction h with
  | nil s => exact ⟨h0, .nil _⟩
  | cons hs _ ih =>
    obtain ⟨hJ, hT⟩ := hK _ _ _ h0 hs
    obtain ⟨hend, hrest⟩ := ih hJ
    exact ⟨hend, .cons hT hrest⟩

variable {x y : S × σ}

theorem system (h : Trace (Beside P K) x tr y) : Trace K x.2 tr y.2 :=
  (h.refine (J := fun _ => True) Prod.snd (fun _ _ _ _ hs => ⟨trivial, hs.2⟩) trivial).2

/-- **Programs see only what they are served.** -/
theorem serve {J : σ → Prop} (abs : σ → τ)
    (hK : ∀ s e t, J s → K s e t → J t ∧ T (abs s) e (abs t)) (h : Trace (Beside P K) x tr y)
    (h0 : J x.2) : J y.2 ∧ Trace (Beside P T) (x.1, abs x.2) tr (y.1, abs y.2) := by
  refine h.refine (J := fun x => J x.2) (T := Beside P T) (fun x => (x.1, abs x.2)) ?_ h0
  intro s e t hJ hs
  obtain ⟨hJ', hT⟩ := hK _ _ _ hJ hs.2
  exact ⟨hJ', hs.1, hT⟩

end Trace

end MyOS.Machine
