import Mathlib.Data.List.Perm.Subperm
import MyOS.Programs.BlinkScreen
import MyOS.Programs.BlinkTiming
import MyOS.Programs.Fish

/-!
# The fish on the screen

`main` (`fish.c:23-77`) adds the elements of the two frames and then calls the tasklet once a clock
tick.

* `Placed`: elements are on the list, each in its own slot, in phase and on the screen, and nothing
  else on the screen has changed. `Placed.add` is one `RTC_ADD`, `Placed.pass` one tasklet.
* `placed_frames`: after `add_frames`. Elements below the last row are refused.
* `framePicture`: what is to be on the screen after `n` ticks.
* **`frames_alternate`**: it is, for two texts that fit the width of the screen and have at most 818
  lines: the first one for 15 ticks and the second one for 15, by turns, and where both are blank
  what was there.
-/

namespace MyOS.Programs

open MyOS.Machine

variable {σ σ' : Blink} {l : List Nat} {es : List Element} {n : Nat} {video : Nat → UInt8}

/-! ## Elements on the list -/

/-- A slot holds the element `e`, `n` passes after it was added with lengths of 15. -/
structure Sits (n : Nat) (e slot : Element) : Prop where
  location : slot.location = e.location
  onChar : slot.onChar = e.onChar
  offChar : slot.offChar = e.offChar
  phase : InPhase 15 15 n slot

/-- **The elements `es` are on the list** in the slots `l`, and on a screen that held `video`. -/
structure Placed (video : Nat → UInt8) (es : List Element) (n : Nat) (σ : Blink) (l : List Nat) :
    Prop where
  list : ListIs σ l
  apart : Apart σ l
  shown : ∀ i ∈ l, Shown σ i
  length : l.length = es.length
  sits : ∀ e ∈ es, ∃ i ∈ l, Sits n e (σ.blinkArray i)
  origin : ∀ i ∈ l, ∃ e ∈ es, (σ.blinkArray i).location = e.location
  rest : ∀ a, (∀ e ∈ es, a ≠ 2 * e.location.toNat) → σ.video a = video a

theorem placed_empty (video : Nat → UInt8) : Placed video [] 0 (emptyBlink video) [] where
  list := ⟨rfl, List.nodup_nil, fun _ => ⟨nofun, fun h => absurd rfl h.2⟩⟩
  apart := List.nodup_nil
  shown := nofun
  length := rfl
  sits := nofun
  origin := nofun
  rest := fun _ _ => rfl

theorem mallocFrom_none {blinkArray : Nat → Element} : ∀ {n i : Nat},
    mallocFrom blinkArray n i = none → ∀ j, i ≤ j → j < i + n → (blinkArray j).location ≠ 0
  | 0, i, _, j, h1, h2 => absurd h2 (by omega)
  | n + 1, i, h, j, h1, h2 => by
    unfold mallocFrom at h
    split at h
    · cases h
    · rename_i hloc
      rcases Nat.eq_or_lt_of_le h1 with rfl | hlt
      · exact hloc
      · exact mallocFrom_none h j hlt (by omega)

/-- While there are fewer elements than slots, `mp1_malloc` finds one. -/
theorem ListIs.malloc (h : ListIs σ l) (hlen : l.length < numSlots) :
    ∃ i, mp1Malloc σ = some i := by
  cases hm : mp1Malloc σ with
  | some i => exact ⟨i, rfl⟩
  | none =>
    have hsub : List.range numSlots ⊆ l := by
      intro j hj
      rw [List.mem_range] at hj
      exact (h.mem_iff j).mpr ⟨hj, mallocFrom_none hm j (Nat.zero_le j) (by omega)⟩
    have hle := (List.subperm_of_subset List.nodup_range hsub).length_le
    rw [List.length_range] at hle
    omega

/-- **`RTC_ADD`** of an element at a new place. -/
theorem Placed.add (h : Placed video es 0 σ l) {e : Element}
    (hlength : ticksLeft e.onLength = 15 ∧ ticksLeft e.offLength = 15)
    (hloc : e.location.toNat < numSlots) (h0 : e.location ≠ 0)
    (hnew : ∀ e' ∈ es, e'.location ≠ e.location) (hroom : es.length < numSlots) :
    ∃ l', Placed video (es ++ [e]) 0 (mp1IoctlAdd σ e).1 l' := by
  obtain ⟨i, hi⟩ := h.list.malloc (by rw [h.length]; exact hroom)
  have hmem := h.list.not_mem hi
  have hother : ∀ j ∈ l, (σ.blinkArray j).location ≠ e.location := by
    intro j hj
    obtain ⟨e', he', heq⟩ := h.origin j hj
    rw [heq]
    exact hnew e' he'
  have hslot : ∀ j ∈ l, (addedAt σ e i).blinkArray j = σ.blinkArray j := fun j hj =>
    addedAt_slot σ e (ne_of_mem_of_not_mem hj hmem)
  rw [mp1IoctlAdd_fst hloc hi]
  refine ⟨i :: l, h.list.added hi h0, ?_, ?_, ?_, ?_, ?_, ?_⟩
  · exact (BlinkEffect.added hloc hi).apart h.list h.apart
      ⟨h0, fun j hj => hother j (h.list.strung.listed_iff.mp hj)⟩
  · rw [List.forall_mem_cons]
    refine ⟨shown_addedAt σ e i, fun j hj => (h.shown j hj).of_eq ?_ ?_ ?_⟩
    · rw [hslot j hj]
    · rw [hslot j hj]
    · exact mp1Poke_other _ _ (hother j hj)
  · rw [List.length_cons, h.length, List.length_append, List.length_singleton]
  · intro e' he'
    rcases List.mem_append.mp he' with he' | he'
    · obtain ⟨j, hj, hsits⟩ := h.sits e' he'
      refine ⟨j, List.mem_cons_of_mem i hj, ?_⟩
      rw [hslot j hj]
      exact hsits
    · obtain rfl := List.mem_singleton.mp he'
      have hphase := (Blinking.added h.list.strung hmem e').phase
      rw [hlength.1, hlength.2] at hphase
      refine ⟨i, List.mem_cons_self, ?_, ?_, ?_, hphase⟩ <;> rw [addedAt_self]
  · rw [List.forall_mem_cons]
    refine ⟨⟨e, List.mem_append_right es (List.mem_singleton_self e), by rw [addedAt_self]⟩, ?_⟩
    intro j hj
    obtain ⟨e', he', heq⟩ := h.origin j hj
    exact ⟨e', List.mem_append_left [e] he', by rw [hslot j hj, heq]⟩
  · intro a ha
    rw [List.forall_mem_append, List.forall_mem_singleton] at ha
    change mp1Poke σ.video e.location e.onChar a = video a
    rw [mp1Poke, Function.update_of_ne ha.2]
    exact h.rest a ha.1

theorem ticks_video_other {l₀ : List Nat} {a : Nat} :
    ∀ {σ : Blink}, (∀ i ∈ l₀, a ≠ 2 * (σ.blinkArray i).location.toNat) →
      (l₀.foldl tick σ).video a = σ.video a := by
  induction l₀ with
  | nil => exact fun _ => rfl
  | cons i l₀ ih =>
    intro σ ha
    rw [List.forall_mem_cons] at ha
    have hsame := sameList_tick σ i
    rw [List.foldl_cons, ih fun j hj => by rw [hsame.location]; exact ha.2 j hj, tick_video]
    split
    · rfl
    · rw [mp1Poke, Function.update_of_ne ha.1]

/-- **A pass of the tasklet.** -/
theorem Placed.pass (h : Placed video es n σ l) (hr : BlinkRuns σ .tasklet σ') :
    Placed video es (n + 1) σ' l := by
  obtain ⟨l', he⟩ := h.list.strung.effect hr
  cases he with
  | passed =>
    have hsame := sameList_ticks σ l
    refine ⟨h.list.of_same hsame, h.apart.of_same hsame,
      ticks_shown h.apart h.shown (List.Subset.refl l), h.length, ?_, ?_, ?_⟩
    · intro e he
      obtain ⟨i, hi, hloc, hon, hoff, hphase⟩ := h.sits e he
      refine ⟨i, hi, ?_⟩
      rw [ticks_blinkArray h.list.nodup, if_pos hi]
      refine ⟨(tickElement_location _).trans hloc, ?_, ?_, hphase.tick⟩
      · rw [← hon]
        unfold tickElement
        split <;> rfl
      · rw [← hoff]
        unfold tickElement
        split <;> rfl
    · intro i hi
      obtain ⟨e, he, heq⟩ := h.origin i hi
      exact ⟨e, he, (hsame.location i).trans heq⟩
    · intro a ha
      rw [ticks_video_other, h.rest a ha]
      intro i hi
      obtain ⟨e, he, heq⟩ := h.origin i hi
      rw [heq]
      exact ha e he

/-! ## The two frames -/

/-- The elements that are on the screen: `RTC_ADD` refuses the others. -/
def onScreenAdds (es : List Element) : List Element :=
  es.filter fun e => e.location.toNat < numSlots

theorem addAll_onScreen (es : List Element) (σ : Blink) :
    addAll σ es = addAll σ (onScreenAdds es) := by
  induction es generalizing σ with
  | nil => rfl
  | cons e es ih =>
    unfold onScreenAdds at ih ⊢
    by_cases hloc : e.location.toNat < numSlots
    · rw [List.filter_cons_of_pos (by simpa using hloc)]
      exact ih _
    · rw [List.filter_cons_of_neg (by simpa using hloc), ← ih]
      unfold addAll
      rw [List.foldl_cons]
      congr 1
      unfold mp1IoctlAdd
      rw [if_pos (Nat.le_of_not_lt hloc)]

/-- Elements at increasing places on the screen: there are no more of them than slots. -/
theorem length_le_numSlots
    (hinc : es.Pairwise fun e e' => e.location.toNat < e'.location.toNat)
    (hloc : ∀ e ∈ es, e.location.toNat < numSlots) : es.length ≤ numSlots := by
  have hnd : (es.map fun e => e.location.toNat).Nodup := by
    unfold List.Nodup
    rw [List.pairwise_map]
    exact hinc.imp Nat.ne_of_lt
  have hsub : es.map (fun e => e.location.toNat) ⊆ List.range numSlots := by
    intro a ha
    obtain ⟨e, he, rfl⟩ := List.mem_map.mp ha
    exact List.mem_range.mpr (hloc e he)
  have hle := (List.subperm_of_subset hnd hsub).length_le
  rwa [List.length_map, List.length_range] at hle

/-- **One element after the other.** -/
theorem Placed.addAll (es' : List Element) (h : Placed video es 0 σ l)
    (hinc : (es ++ es').Pairwise fun e e' => e.location.toNat < e'.location.toNat)
    (hloc : ∀ e ∈ es ++ es', 0 < e.location.toNat ∧ e.location.toNat < numSlots)
    (hlength : ∀ e ∈ es', ticksLeft e.onLength = 15 ∧ ticksLeft e.offLength = 15) :
    ∃ l', Placed video (es ++ es') 0 (addAll σ es') l' := by
  induction es' generalizing es σ l with
  | nil =>
    rw [List.append_nil]
    exact ⟨l, h⟩
  | cons e es' ih =>
    have hmany := length_le_numSlots hinc fun e he => (hloc e he).2
    rw [List.length_append, List.length_cons] at hmany
    have he := hloc e (List.mem_append_right es List.mem_cons_self)
    rw [List.forall_mem_cons] at hlength
    have hnew : ∀ e' ∈ es, e'.location ≠ e.location := by
      intro e' he' heq
      have hlt := (List.pairwise_append.mp hinc).2.2 e' he' e List.mem_cons_self
      rw [heq] at hlt
      exact Nat.lt_irrefl _ hlt
    have h0 : e.location ≠ 0 := by
      intro h0
      rw [h0] at he
      exact absurd he.1 (by decide)
    obtain ⟨l', h'⟩ := h.add hlength.1 he.2 h0 hnew (by omega)
    rw [List.append_cons] at hinc hloc ⊢
    exact ih h' hinc hloc hlength.2

variable {f0 f1 : List UInt8}

/-- **After `add_frames`.** -/
theorem placed_frames (h0 : Fits f0) (h1 : Fits f1) (video : Nat → UInt8) :
    ∃ l, Placed video (onScreenAdds (frameAdds f0 f1)) 0
      (addAll (emptyBlink video) (frameAdds f0 f1)) l := by
  rw [addAll_onScreen]
  refine (placed_empty video).addAll _ ((frameAdds_increasing h0 h1).filter _) ?_ ?_
  · intro e he
    obtain ⟨hmem, hlt⟩ := List.mem_filter.mp he
    obtain ⟨row, col, hcell⟩ := mem_frameAdds.mp hmem
    have hloc := frameCell_location h0 h1 hcell
    exact ⟨by omega, by simpa using hlt⟩
  · intro e he
    obtain ⟨row, col, hcell⟩ := mem_frameAdds.mp (List.mem_filter.mp he).1
    unfold frameCell cell at hcell
    split at hcell
    · cases hcell
      exact ⟨rfl, rfl⟩
    · cases hcell

/-! ## What is seen -/

/-- The byte at `a` of video memory, `n` passes after the frames were added to a screen that held
`video`. -/
def framePicture (video : Nat → UInt8) (f0 f1 : List UInt8) (n a : Nat) : UInt8 :=
  let position := a / 2 - 40
  let on := charAt f0 (position / 80) (position % 80)
  let off := charAt f1 (position / 80) (position % 80)
  if a % 2 = 0 ∧ 40 ≤ a / 2 ∧ a / 2 < numSlots ∧ (on ≠ 32 ∨ off ≠ 32) then
    if n % 30 < 15 then on else off
  else video a

theorem Placed.picture (h0 : Fits f0) (h1 : Fits f1)
    (h : Placed video (onScreenAdds (frameAdds f0 f1)) n σ l) (a : Nat) :
    σ.video a = framePicture video f0 f1 n a := by
  unfold framePicture
  simp only
  split
  · rename_i hseen
    obtain ⟨heven, hlow, hhigh, hvisible⟩ := hseen
    generalize hrow : (a / 2 - 40) / 80 = row at hvisible ⊢
    generalize hcol : (a / 2 - 40) % 80 = col at hvisible ⊢
    have hcell : frameCell f0 f1 row col =
        some (frameElement row col (charAt f0 row col) (charAt f1 row col)) := if_pos hvisible
    have hloc := frameCell_location h0 h1 hcell
    have hmem : frameElement row col (charAt f0 row col) (charAt f1 row col) ∈
        onScreenAdds (frameAdds f0 f1) := by
      refine List.mem_filter.mpr ⟨mem_frameAdds.mpr ⟨row, col, hcell⟩, ?_⟩
      rw [decide_eq_true_eq, hloc]
      omega
    obtain ⟨i, hi, hsits⟩ := h.sits _ hmem
    have hshown := h.shown i hi
    unfold Shown Element.char at hshown
    rw [hsits.location, hloc, hsits.onChar, hsits.offChar,
      show 2 * (row * 80 + col + 40) = a by omega] at hshown
    rw [hshown]
    simp only [hsits.phase.isOn_iff]
    rfl
  · rename_i hunseen
    refine h.rest a fun e he heq => hunseen ?_
    obtain ⟨hmem, hlt⟩ := List.mem_filter.mp he
    rw [decide_eq_true_eq] at hlt
    obtain ⟨row, col, hcell⟩ := mem_frameAdds.mp hmem
    have hloc := frameCell_location h0 h1 hcell
    obtain ⟨-, hcol⟩ := frameCell_bounds h0 h1 hcell
    have hvisible : charAt f0 row col ≠ 32 ∨ charAt f1 row col ≠ 32 := by
      by_contra hblank
      rw [frameCell, cell, if_neg hblank] at hcell
      cases hcell
    rw [show (a / 2 - 40) / 80 = row by omega, show (a / 2 - 40) % 80 = col by omega]
    exact ⟨by omega, by omega, by omega, hvisible⟩

/-- Any number of passes. -/
theorem Placed.passes (h : Placed video es 0 σ l)
    (ht : Trace BlinkRuns σ (List.replicate n .tasklet) σ') : Placed video es n σ' l := by
  induction n generalizing σ' with
  | zero =>
    cases ht
    exact h
  | succ n ih =>
    rw [List.replicate_succ'] at ht
    obtain ⟨σ₁, h₁, h₂⟩ := ht.of_snoc
    exact (ih h₁).pass h₂

theorem Placed.runs (h : Placed video es 0 σ l) (n : Nat) :
    ∃ σ', Trace BlinkRuns σ (List.replicate n .tasklet) σ' := by
  induction n with
  | zero => exact ⟨σ, .nil σ⟩
  | succ n ih =>
    obtain ⟨σ₁, h₁⟩ := ih
    obtain ⟨σ', h₂⟩ := (h.passes h₁).list.strung.runs .tasklet
    rw [List.replicate_succ']
    exact ⟨σ', h₁.append (.single h₂)⟩

/-- **The frames alternate.** For two texts that fit, in width and in number of lines, `add_frames`
ends, and after any number of passes of the tasklet the screen holds the first one's characters in
the first 15 of each 30 passes, else the second one's; nothing else on it has changed. -/
theorem frames_alternate (video : Nat → UInt8) (f0 f1 : List UInt8) (h0 : Fits f0) (h1 : Fits f1) :
    ∃ N, ∀ fuel, N < fuel → ∃ σ, addFrames fuel (emptyBlink video) f0 f1 = some σ ∧
      ∀ n, (∃ σ', Trace BlinkRuns σ (List.replicate n .tasklet) σ') ∧
        ∀ σ', Trace BlinkRuns σ (List.replicate n .tasklet) σ' →
          ∀ a, σ'.video a = framePicture video f0 f1 n a := by
  obtain ⟨N, hN⟩ := addFrames_eq f0 f1
  obtain ⟨l, hplaced⟩ := placed_frames h0 h1 video
  refine ⟨N, fun fuel hfuel => ⟨_, hN fuel hfuel _, fun n => ⟨hplaced.runs n, ?_⟩⟩⟩
  intro σ' ht a
  exact (hplaced.passes ht).picture h0 h1 a

/-- A bubble that goes from the first column to the second: there after 15 passes, back after 30. -/
theorem frames_alternate_bubble : ∃ σ σ' σ'' fuel,
    addFrames fuel (emptyBlink fun _ => 7) [111, 10] [32, 111] = some σ ∧
    Trace BlinkRuns σ (List.replicate 15 .tasklet) σ' ∧
    Trace BlinkRuns σ (List.replicate 30 .tasklet) σ'' ∧
    (σ'.video 80, σ'.video 81, σ'.video 82, σ'.video 84) = (32, 7, 111, 7) ∧
    (σ''.video 80, σ''.video 81, σ''.video 82, σ''.video 84) = (111, 7, 32, 7) := by
  obtain ⟨N, hN⟩ := frames_alternate (fun _ => 7) [111, 10] [32, 111]
    ⟨by decide, by decide⟩ ⟨by decide, by decide⟩
  obtain ⟨σ, hadd, hpasses⟩ := hN (N + 1) (Nat.lt_succ_self N)
  obtain ⟨⟨σ', hσ'⟩, hpicture'⟩ := hpasses 15
  obtain ⟨⟨σ'', hσ''⟩, hpicture''⟩ := hpasses 30
  refine ⟨σ, σ', σ'', N + 1, hadd, hσ', hσ'', ?_, ?_⟩
  · simp only [hpicture' σ' hσ']
    decide
  · simp only [hpicture'' σ'' hσ'']
    decide

end MyOS.Programs
