import MyOS.Programs.BlinkList

/-!
# The screen and the blink list

The cell at the location of an element should hold its character: `ON_CHAR` while bit 0 of its
status is 1, `OFF_CHAR` otherwise. `mp1_ioctl_add` and the tasklet see to that. `mp1_ioctl_sync`
(`blink.S:240-300`) chooses the character with a `cmovl` behind a `testb`, which moves only when the
tested byte is negative; bit 0 alone never is (`syncChar_eq`), so it always displays `OFF_CHAR`.

* `Shown`: the cell of a slot agrees with it. `ScreenAgrees`: those of all elements do.
* `Apart`: a list whose elements have different locations, as it is while elements are added at new
  locations (`AddsNew`).
* `screenAgrees_step_iff`: which calls keep the screen in agreement.
* **`screen_agrees_iff`**: so the runs in which it always agrees are those in which every `SYNC`
  copies from an element that is off.
-/

namespace MyOS.Programs

open MyOS.Machine

variable {σ σ' : Blink} {l l' : List Nat} {op : BlinkOp} {i j : Nat}

/-- The character an element should be displayed with. -/
def Element.char (e : Element) : UInt8 := if e.isOn then e.onChar else e.offChar

/-- The cell at the location of slot `i` holds its character. -/
def Shown (σ : Blink) (i : Nat) : Prop :=
  σ.video (2 * (σ.blinkArray i).location.toNat) = (σ.blinkArray i).char

/-- **The screen agrees with every element of the list.** -/
def ScreenAgrees (σ : Blink) : Prop := ∀ i, Listed σ i → Shown σ i

/-- The slots `l` have different locations. -/
def Apart (σ : Blink) (l : List Nat) : Prop := (l.map fun i => (σ.blinkArray i).location).Nodup

/-! ## One element -/

/-- **`cmovl` never moves**: the byte it tests is 0 or 1. -/
theorem syncChar_eq (e : Element) : syncChar e = e.offChar := by
  have hle : (e.status.toUInt8 &&& 1).toNat ≤ 1 := by
    rw [UInt8.toNat_and]
    exact Nat.and_le_right
  unfold syncChar
  refine if_neg fun h => ?_
  have h80 : 128 ≤ (e.status.toUInt8 &&& 1).toNat := UInt8.le_iff_toNat_le.mp h
  omega

theorem mp1Poke_same (video : Nat → UInt8) (location : UInt16) (c : UInt8) :
    mp1Poke video location c (2 * location.toNat) = c := Function.update_self _ _ _

theorem mp1Poke_other (video : Nat → UInt8) {location location' : UInt16} (c : UInt8)
    (h : location' ≠ location) :
    mp1Poke video location c (2 * location'.toNat) = video (2 * location'.toNat) := by
  refine Function.update_of_ne (fun heq => h ?_) _ _
  exact UInt16.toNat_inj.mp (by omega)

/-- What a tick does to the screen. -/
theorem tick_video (σ : Blink) (i : Nat) : (tick σ i).video =
    if positive ((σ.blinkArray i).countdown - 1) then σ.video
    else mp1Poke σ.video (σ.blinkArray i).location (tickElement (σ.blinkArray i)).char := by
  unfold tick
  dsimp only
  split
  · rfl
  · rename_i hpos
    have hchar : (tickElement (σ.blinkArray i)).char =
        if (σ.blinkArray i).isOn then (σ.blinkArray i).offChar else (σ.blinkArray i).onChar := by
      unfold tickElement
      rw [if_neg hpos]
      unfold Element.char
      rw [isOn_toggle (σ.blinkArray i) _ rfl]
      cases (σ.blinkArray i).isOn <;> rfl
    rw [hchar]
    simp only [Element.isOn, decide_eq_true_eq]

/-- A slot stays shown when what is displayed of it, and its cell, stay. -/
theorem Shown.of_eq (h : Shown σ i)
    (hloc : (σ'.blinkArray i).location = (σ.blinkArray i).location)
    (hchar : (σ'.blinkArray i).char = (σ.blinkArray i).char)
    (hcell : σ'.video (2 * (σ.blinkArray i).location.toNat) =
      σ.video (2 * (σ.blinkArray i).location.toNat)) : Shown σ' i := by
  unfold Shown
  rw [hloc, hchar, hcell]
  exact h

theorem Apart.ne (h : Apart σ l) (hi : i ∈ l) (hj : j ∈ l) (hij : j ≠ i) :
    (σ.blinkArray j).location ≠ (σ.blinkArray i).location :=
  fun heq => hij (List.inj_on_of_nodup_map h hj hi heq)

theorem Apart.of_same (h : Apart σ l) (hs : SameList σ σ') : Apart σ' l := by
  unfold Apart
  simp only [hs.location]
  exact h

/-- The location of a tick's element stays. -/
theorem tickElement_location (e : Element) : (tickElement e).location = e.location := by
  unfold tickElement
  split <;> rfl

/-- **A tick keeps every slot shown.** -/
theorem tick_shown (hd : Apart σ l) (hi : i ∈ l) (h : ∀ j ∈ l, Shown σ j) :
    ∀ j ∈ l, Shown (tick σ i) j := by
  intro j hj
  have hvideo := tick_video σ i
  have harray := congrFun (tick_blinkArray σ i) j
  by_cases hij : j = i
  · subst hij
    rw [Function.update_self] at harray
    split at hvideo
    · rename_i hpos
      refine (h j hj).of_eq ?_ ?_ (by rw [hvideo])
      · rw [harray, tickElement_location]
      · rw [harray]
        unfold tickElement
        rw [if_pos hpos]
        rfl
    · unfold Shown
      rw [harray, hvideo, tickElement_location, mp1Poke_same]
  · rw [Function.update_of_ne hij] at harray
    refine (h j hj).of_eq (by rw [harray]) (by rw [harray]) ?_
    rw [hvideo]
    split
    · rfl
    · exact mp1Poke_other _ _ (hd.ne hi hj hij)

theorem ticks_shown (hd : Apart σ l) (h : ∀ j ∈ l, Shown σ j) {l₀ : List Nat} (hl₀ : l₀ ⊆ l) :
    ∀ j ∈ l, Shown (l₀.foldl tick σ) j := by
  induction l₀ generalizing σ with
  | nil => exact h
  | cons i l₀ ih =>
    rw [List.cons_subset] at hl₀
    exact ih (hd.of_same (sameList_tick σ i)) (tick_shown hd hl₀.1 h) hl₀.2

/-! ## One call -/

/-- A new element is added at a location that is not 0 and that no element has. -/
def AddsNew (σ : Blink) : BlinkOp → Prop
  | .add e => e.location ≠ 0 ∧ ∀ i, Listed σ i → (σ.blinkArray i).location ≠ e.location
  | _ => True

/-- A `SYNC` between two elements copies from one that is off, or to one that looks the same on and
off. -/
def SyncsOff (σ : Blink) : BlinkOp → Prop
  | .sync arg => ∀ src dst, Listed σ src → Listed σ dst →
      (σ.blinkArray src).location = (arg >>> 16).toUInt16 →
      (σ.blinkArray dst).location = arg.toUInt16 →
      (σ.blinkArray src).isOn = false ∨ (σ.blinkArray dst).onChar = (σ.blinkArray dst).offChar
  | _ => True

theorem Strung.screenAgrees_iff (h : Strung σ l) : ScreenAgrees σ ↔ ∀ i ∈ l, Shown σ i := by
  unfold ScreenAgrees
  simp only [h.listed_iff]

/-- **What a call adds to the locations**: those of the list were there, or are added by it. -/
theorem BlinkEffect.location (he : BlinkEffect σ l op σ' l') (h : Strung σ l) (hi : i ∈ l') :
    (i ∈ l ∧ (σ'.blinkArray i).location = (σ.blinkArray i).location) ∨
      ∃ e, op = .add e ∧ (σ'.blinkArray i).location = e.location := by
  cases he with
  | refused hn => exact Or.inl ⟨hi, rfl⟩
  | @added e k hloc hk =>
    by_cases hik : i = k
    · subst hik
      exact Or.inr ⟨e, rfl, by rw [addedAt_self]⟩
    · exact Or.inl ⟨(List.mem_cons.mp hi).resolve_left hik, by rw [addedAt_slot σ e hik]⟩
  | absent hn => exact Or.inl ⟨hi, rfl⟩
  | @removed arg k pre post hl hfirst =>
    subst hl
    obtain ⟨hmem, next, hslot⟩ := removedAt_mem h hi
    exact Or.inl ⟨hmem, by rw [hslot]⟩
  | found => exact Or.inl ⟨hi, rfl⟩
  | unsynced hn => exact Or.inl ⟨hi, rfl⟩
  | synced hsrc hdst => exact Or.inl ⟨hi, (sameList_syncedTo σ _ _).location i⟩
  | passed => exact Or.inl ⟨hi, (sameList_ticks σ l).location i⟩

/-- The list is one, and its elements have different locations. -/
def ListApart (σ : Blink) : Prop := ∃ l, ListIs σ l ∧ Apart σ l

/-- **Elements added at new locations stay apart.** -/
theorem BlinkEffect.apart (he : BlinkEffect σ l op σ' l') (h : ListIs σ l) (hd : Apart σ l)
    (hnew : AddsNew σ op) : Apart σ' l' := by
  cases he with
  | refused hn => exact hd
  | @added e k hloc hk =>
    have hnot := h.not_mem hk
    have hmap : (l.map fun i => ((addedAt σ e k).blinkArray i).location) =
        l.map fun i => (σ.blinkArray i).location := by
      refine List.map_congr_left fun j hj => ?_
      rw [addedAt_slot σ e (ne_of_mem_of_not_mem hj hnot)]
    unfold Apart
    rw [List.map_cons, List.nodup_cons, hmap]
    refine ⟨fun hmem => ?_, hd⟩
    obtain ⟨j, hj, hloc'⟩ := List.mem_map.mp hmem
    refine hnew.2 j (h.strung.listed_iff.mpr hj) ?_
    rw [hloc', addedAt_self]
  | absent hn => exact hd
  | @removed arg k pre post hl hfirst =>
    subst hl
    have hmap : ((pre ++ post).map fun i => ((removedAt σ pre k).blinkArray i).location) =
        (pre ++ post).map fun i => (σ.blinkArray i).location := by
      refine List.map_congr_left fun j hj => ?_
      obtain ⟨-, next, hslot⟩ := removedAt_mem h.strung hj
      rw [hslot]
    unfold Apart
    rw [hmap]
    exact hd.sublist ((List.sublist_append_right [k] post).append_left pre |>.map _)
  | found => exact hd
  | unsynced hn => exact hd
  | synced hsrc hdst => exact hd.of_same (sameList_syncedTo _ _ _)
  | passed => exact hd.of_same (sameList_ticks _ _)

theorem ListApart.step (h : ListApart σ) (hr : BlinkRuns σ op σ') (hnew : AddsNew σ op) :
    ListApart σ' := by
  obtain ⟨l, hl, hd⟩ := h
  have hclean : Clean σ op := by
    cases op with
    | add e => exact fun hz => hnew.1 hz.1
    | _ => trivial
  obtain ⟨l₂, hl₂⟩ := (listOk_step_iff ⟨l, hl⟩ hr).mpr hclean
  obtain ⟨l', he⟩ := hl.strung.effect hr
  have hstrung := he.strung hl.strung fun _ _ _ _ hi => hl.not_mem hi
  obtain rfl := hstrung.linked.unique hl₂.linked
  exact ⟨l', hl₂, he.apart hl hd hnew⟩

/-- The cell of an element after a `SYNC` to it. -/
theorem shown_syncedTo_iff (σ : Blink) (src dst : Nat) : Shown (syncedTo σ src dst) dst ↔
    (σ.blinkArray src).isOn = false ∨
      (σ.blinkArray dst).onChar = (σ.blinkArray dst).offChar := by
  have hon : (syncElement (σ.blinkArray src) (σ.blinkArray dst)).isOn =
      (σ.blinkArray src).isOn := rfl
  have hvideo : (syncedTo σ src dst).video (2 * (σ.blinkArray dst).location.toNat) =
      (σ.blinkArray dst).offChar :=
    (mp1Poke_same _ _ _).trans (syncChar_eq _)
  have hslot : (syncedTo σ src dst).blinkArray dst =
      syncElement (σ.blinkArray src) (σ.blinkArray dst) := Function.update_self _ _ _
  have hloc : (syncElement (σ.blinkArray src) (σ.blinkArray dst)).location =
      (σ.blinkArray dst).location := rfl
  unfold Shown
  rw [hslot, hloc, hvideo]
  unfold Element.char
  rw [hon]
  cases (σ.blinkArray src).isOn with
  | false => exact iff_of_true rfl (Or.inl rfl)
  | true =>
    change (σ.blinkArray dst).offChar = (σ.blinkArray dst).onChar ↔ _
    simp only [Bool.true_eq_false, false_or]
    exact eq_comm

/-- With different locations, the first slot at a location is the only one. -/
theorem Apart.eq_first (hd : Apart σ l) {location : UInt16} (hi : firstAt σ l location = some i)
    (hj : j ∈ l) (hloc : (σ.blinkArray j).location = location) : j = i := by
  obtain ⟨hmem, hloc'⟩ := firstAt_mem hi
  by_contra hne
  exact hd.ne hmem hj hne (hloc.trans hloc'.symm)

theorem shown_addedAt (σ : Blink) (e : Element) (i : Nat) : Shown (addedAt σ e i) i := by
  unfold Shown
  rw [addedAt_self]
  have hchar : Element.char { e with status := 1, countdown := e.onLength, next := σ.listHead } =
      e.onChar := if_pos ((isOn_iff _).mpr rfl)
  rw [hchar]
  exact mp1Poke_same _ _ _

/-- **Which `SYNC`s keep the screen in agreement.** -/
theorem synced_shown_iff (hd : Apart σ l) (h : ∀ j ∈ l, Shown σ j) (hs : Strung σ l) {arg : UInt32}
    {src dst : Nat} (hsrc : firstAt σ l (arg >>> 16).toUInt16 = some src)
    (hdst : firstAt σ l arg.toUInt16 = some dst) :
    (∀ j ∈ l, Shown (syncedTo σ src dst) j) ↔ SyncsOff σ (.sync arg) := by
  obtain ⟨hsrcl, hsrcloc⟩ := firstAt_mem hsrc
  obtain ⟨hdstl, hdstloc⟩ := firstAt_mem hdst
  constructor
  · intro hall src' dst' hs' hd' hsloc hdloc
    obtain rfl := hd.eq_first hsrc (hs.listed_iff.mp hs') hsloc
    obtain rfl := hd.eq_first hdst (hs.listed_iff.mp hd') hdloc
    exact (shown_syncedTo_iff σ _ _).mp (hall _ hdstl)
  · intro hoff j hj
    by_cases hjd : j = dst
    · subst hjd
      refine (shown_syncedTo_iff σ src j).mpr ?_
      exact hoff src j (hs.listed_iff.mpr hsrcl) (hs.listed_iff.mpr hj) hsrcloc hdstloc
    · have hslot := syncedTo_slot σ src hjd
      refine (h j hj).of_eq (by rw [hslot]) (by rw [hslot]) ?_
      exact mp1Poke_other _ _ (hd.ne hdstl hj hjd)

/-- **What keeps the screen in agreement**, where elements are added at new locations. -/
theorem screenAgrees_step_iff (h : ListApart σ) (ha : ScreenAgrees σ) (hr : BlinkRuns σ op σ')
    (hnew : AddsNew σ op) : ScreenAgrees σ' ↔ SyncsOff σ op := by
  obtain ⟨l, hl, hd⟩ := h
  have hs := hl.strung
  rw [hs.screenAgrees_iff] at ha
  obtain ⟨l', he⟩ := hs.effect hr
  rw [(he.strung hs fun _ _ _ _ hi => hl.not_mem hi).screenAgrees_iff]
  cases he with
  | refused hn => exact iff_of_true ha trivial
  | @added e k hloc hk =>
    refine iff_of_true (fun j hj => ?_) trivial
    by_cases hjk : j = k
    · subst hjk
      exact shown_addedAt σ e j
    · have hjl := (List.mem_cons.mp hj).resolve_left hjk
      have hslot := addedAt_slot σ e hjk
      refine (ha j hjl).of_eq (by rw [hslot]) (by rw [hslot]) ?_
      exact mp1Poke_other _ _ (hnew.2 j (hs.listed_iff.mpr hjl))
  | absent hn => exact iff_of_true ha trivial
  | @removed arg k pre post heq hfirst =>
    subst heq
    refine iff_of_true (fun j hj => ?_) trivial
    obtain ⟨hjl, next, hslot⟩ := removedAt_mem hs hj
    exact (ha j hjl).of_eq (by rw [hslot]) (by rw [hslot]; rfl) (by rw [removedAt_video])
  | found => exact iff_of_true ha trivial
  | unsynced hn =>
    refine iff_of_true ha fun src dst hsl hdl hsloc hdloc => ?_
    rcases hn with hn | hn
    · exact absurd hsloc (by simpa using List.find?_eq_none.mp hn src (hs.listed_iff.mp hsl))
    · exact absurd hdloc (by simpa using List.find?_eq_none.mp hn dst (hs.listed_iff.mp hdl))
  | synced hsrc hdst => exact synced_shown_iff hd ha hs hsrc hdst
  | passed => exact iff_of_true (ticks_shown hd ha (List.Subset.refl l)) trivial

/-! ## Runs -/

/-- The location a call adds an element at. -/
def BlinkOp.location : BlinkOp → Option UInt16
  | .add e => some e.location
  | _ => none

/-- Elements are added at different locations, none of them 0. -/
structure PlacedApart (tr : List BlinkOp) : Prop where
  nodup : (tr.filterMap BlinkOp.location).Nodup
  ne_zero : 0 ∉ tr.filterMap BlinkOp.location

theorem PlacedApart.tail {tr : List BlinkOp} (h : PlacedApart (op :: tr)) : PlacedApart tr := by
  have hsub := (List.sublist_cons_self op tr).filterMap BlinkOp.location
  exact ⟨h.nodup.sublist hsub, fun h0 => h.ne_zero (hsub.subset h0)⟩

/-- **In a run that adds elements at different locations, each is added at a new one.** -/
theorem trace_addsNew {Q : Blink → BlinkOp → Blink → Prop} {tr : List BlinkOp}
    (h : Trace (fun σ op σ' => BlinkRuns σ op σ' ∧ Q σ op σ') σ tr σ') (hσ : ListApart σ)
    (hplaced : PlacedApart tr)
    (hfar : ∀ i, Listed σ i → (σ.blinkArray i).location ∉ tr.filterMap BlinkOp.location) :
    Trace (fun σ op σ' => (BlinkRuns σ op σ' ∧ AddsNew σ op) ∧ Q σ op σ') σ tr σ' := by
  induction h with
  | nil σ => exact .nil σ
  | @cons σ₁ σ₂ σ₃ op tr hstep hrest ih =>
    obtain ⟨l, hl, hd⟩ := hσ
    have hnew : AddsNew σ₁ op := by
      cases op with
      | add e =>
        rw [show (BlinkOp.add e :: tr).filterMap BlinkOp.location =
          e.location :: tr.filterMap BlinkOp.location from rfl] at hfar
        refine ⟨fun hz => hplaced.ne_zero ?_, fun i hi heq => hfar i hi ?_⟩
        · rw [← hz]
          exact List.mem_cons_self
        · rw [heq]
          exact List.mem_cons_self
      | _ => trivial
    obtain ⟨l', he⟩ := hl.strung.effect hstep.1
    have hs' := he.strung hl.strung fun _ _ _ _ hi => hl.not_mem hi
    refine .cons ⟨⟨hstep.1, hnew⟩, hstep.2⟩
      (ih (ListApart.step ⟨l, hl, hd⟩ hstep.1 hnew) hplaced.tail fun i hi => ?_)
    rcases he.location hl.strung (hs'.listed_iff.mp hi) with ⟨hmem, hloc⟩ | ⟨e, rfl, hloc⟩
    · rw [hloc]
      have hsub := (List.sublist_cons_self op tr).filterMap BlinkOp.location
      exact fun hin => hfar i (hl.strung.listed_iff.mpr hmem) (hsub.subset hin)
    · rw [hloc]
      exact (List.nodup_cons.mp hplaced.nodup).1

theorem listApart_empty (video : Nat → UInt8) : ListApart (emptyBlink video) := by
  obtain ⟨l, hl⟩ := listOk_empty video
  obtain rfl : l = [] := hl.linked.unique rfl
  exact ⟨[], hl, List.nodup_nil⟩

/-- **When the screen agrees with every blinker's status.** For elements added at different
locations other than 0, in any order with removals, synchronisations and passes of the tasklet: the
runs in which the screen agrees with every element of the list after each call are exactly those in
which every `SYNC` between two elements copies from one that is off, or to one that looks the same
on and off. In all of them every call returns. -/
theorem screen_agrees_iff (video : Nat → UInt8) (tr : List BlinkOp) (σ : Blink)
    (hplaced : PlacedApart tr) :
    (Trace (fun σ op σ' => BlinkRuns σ op σ' ∧ ScreenAgrees σ') (emptyBlink video) tr σ ↔
      Trace (fun σ op σ' => BlinkRuns σ op σ' ∧ SyncsOff σ op) (emptyBlink video) tr σ) ∧
    (Trace BlinkRuns (emptyBlink video) tr σ → ∀ op, ∃ σ', BlinkRuns σ op σ') := by
  have h0 := listApart_empty video
  have hfar : ∀ i, Listed (emptyBlink video) i →
      ((emptyBlink video).blinkArray i).location ∉ tr.filterMap BlinkOp.location :=
    fun i hi => absurd hi (not_listed_empty video i)
  have hstay : Trace (fun σ op σ' => (BlinkRuns σ op σ' ∧ AddsNew σ op) ∧ ScreenAgrees σ')
        (emptyBlink video) tr σ ↔
      Trace (fun σ op σ' => (BlinkRuns σ op σ' ∧ AddsNew σ op) ∧ SyncsOff σ op)
        (emptyBlink video) tr σ :=
    Trace.stays_iff (fun _ _ _ hJ hr => ListApart.step hJ hr.1 hr.2)
      (fun _ _ _ hJ hI hr => screenAgrees_step_iff hJ hI hr.1 hr.2) h0
      fun i hi => absurd hi (not_listed_empty video i)
  have hforget : ∀ {Q : Blink → BlinkOp → Blink → Prop},
      Trace (fun σ op σ' => (BlinkRuns σ op σ' ∧ AddsNew σ op) ∧ Q σ op σ')
        (emptyBlink video) tr σ →
      Trace (fun σ op σ' => BlinkRuns σ op σ' ∧ Q σ op σ') (emptyBlink video) tr σ :=
    fun h => h.mono fun _ _ _ hr => ⟨hr.1.1, hr.2⟩
  refine ⟨⟨fun h => ?_, fun h => ?_⟩, fun h op => ?_⟩
  · exact hforget (hstay.mp (trace_addsNew h h0 hplaced hfar))
  · exact hforget (hstay.mpr (trace_addsNew h h0 hplaced hfar))
  · have hruns : Trace (fun σ op σ' => BlinkRuns σ op σ' ∧ True) (emptyBlink video) tr σ :=
      h.mono fun _ _ _ hr => ⟨hr, trivial⟩
    obtain ⟨l, hl, -⟩ := (trace_addsNew hruns h0 hplaced hfar).invariant (I := ListApart)
      (fun _ _ _ hJ hr => ListApart.step hJ hr.1.1 hr.1.2) h0
    exact hl.strung.runs op

/-- An element that changes at every pass of the tasklet. -/
def blinkerAt (location : UInt16) : Element := ⟨location, 73, 77, 1, 1, 0, 0, none⟩

theorem screen_agrees_after_pass :
    ∃ σ, Trace (fun σ op σ' => BlinkRuns σ op σ' ∧ ScreenAgrees σ') (emptyBlink fun _ => 0)
      [.add (blinkerAt 1), .add (blinkerAt 2), .tasklet, .sync 0x10002] σ := by
  have hrun : ∃ σ, Trace (fun σ op σ' => BlinkRuns σ op σ' ∧ SyncsOff σ op)
      (emptyBlink fun _ => 0)
      [.add (blinkerAt 1), .add (blinkerAt 2), .tasklet, .sync 0x10002] σ := by
    refine ⟨_, .cons ⟨⟨0, rfl⟩, trivial⟩ (.cons ⟨⟨0, rfl⟩, trivial⟩ (.cons ⟨⟨3, rfl⟩, trivial⟩
      (.single ⟨⟨3, rfl⟩, ?_⟩)))⟩
    -- The first element is off, and the only one at location 1.
    rintro src dst ⟨l, hl, hsrc⟩ - hloc -
    obtain rfl : l = [1, 0] := hl.unique ⟨rfl, rfl, rfl⟩
    rcases List.mem_cons.mp hsrc with rfl | hsrc
    · exact absurd hloc (by decide)
    · obtain rfl := List.mem_singleton.mp hsrc
      exact Or.inl (by decide)
  obtain ⟨σ, hσ⟩ := hrun
  exact ⟨σ, (screen_agrees_iff _ _ σ ⟨by decide, by decide⟩).1.mpr hσ⟩

/-- A `SYNC` between two elements that are on: its target is on, and its cell shows `OFF_CHAR`. -/
theorem sync_shows_off :
    ∃ σ, Trace BlinkRuns (emptyBlink fun _ => 0)
        [.add (blinkerAt 1), .add (blinkerAt 2), .sync 0x10002] σ ∧
      PlacedApart [.add (blinkerAt 1), .add (blinkerAt 2), .sync 0x10002] ∧
      Listed σ 1 ∧ σ.blinkArray 1 = ⟨2, 73, 77, 1, 1, 1, 1, some 0⟩ ∧ σ.video (2 * 2) = 77 ∧
      ¬ ScreenAgrees σ := by
  refine ⟨_, .cons ⟨0, rfl⟩ (.cons ⟨0, rfl⟩ (.single ⟨3, rfl⟩)), ⟨by decide, by decide⟩,
    ⟨[1, 0], ⟨rfl, rfl, rfl⟩, List.mem_cons_self⟩, rfl, rfl, fun h => ?_⟩
  have hcell : (77 : UInt8) = 73 := h 1 ⟨[1, 0], ⟨rfl, rfl, rfl⟩, List.mem_cons_self⟩
  exact absurd hcell (by decide)

end MyOS.Programs
