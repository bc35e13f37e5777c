import MyOS.Programs.BlinkList

/-!
# The timing of a blinking element

An element should be on for `on_length` passes of the tasklet and off for `off_length`, by turns.
The tasklet (`blink.S:49-99`) decrements the 16-bit countdown and toggles the element unless the
result is positive, compared as signed (`jg`): a length above `0x8000` is negative after the first
pass, and counts for 1.

* `ticksLeft`: the passes until a countdown toggles its element.
* `InPhase`: where an element is in its cycle. `InPhase.tick`: a pass moves it on by one.
* `Blinking.step`: no call moves it on but the tasklet, while the element is not removed or
  synchronised with another, and its slot is not handed out again.
* **`blink_timing_iff`**: an element has the timing of its lengths exactly when neither is above
  `0x8000`.
-/

namespace MyOS.Programs

open MyOS.Machine

variable {σ σ' : Blink} {l l' : List Nat} {op : BlinkOp} {i : Nat} {e : Element} {on off t : Nat}

/-- The passes of the tasklet until an element with this countdown toggles. -/
def ticksLeft (countdown : UInt16) : Nat :=
  if 1 ≤ countdown.toNat ∧ countdown.toNat ≤ 0x8000 then countdown.toNat else 1

/-- An element with lengths of `on` and `off` passes, `t` passes after it was added. -/
structure InPhase (on off t : Nat) (e : Element) : Prop where
  isOn_iff : e.isOn = true ↔ t % (on + off) < on
  countdown : ticksLeft e.countdown =
    if t % (on + off) < on then on - t % (on + off) else on + off - t % (on + off)
  onLength : ticksLeft e.onLength = on
  offLength : ticksLeft e.offLength = off

/-! ## One element -/

theorem ticksLeft_pos (countdown : UInt16) : 0 < ticksLeft countdown := by
  unfold ticksLeft
  split
  · rename_i h
    exact h.1
  · exact Nat.one_pos

/-- **The countdown goes on** while more than one pass is left. -/
theorem positive_iff (countdown : UInt16) :
    positive (countdown - 1) = true ↔ ticksLeft countdown ≠ 1 := by
  have hone : (1 : UInt16).toNat = 1 := rfl
  have hlt := countdown.toNat_lt
  unfold positive ticksLeft
  rw [decide_eq_true_eq, UInt16.toNat_sub, hone]
  split <;> omega

theorem ticksLeft_sub_one {countdown : UInt16} (h : ticksLeft countdown ≠ 1) :
    ticksLeft (countdown - 1) = ticksLeft countdown - 1 := by
  have hone : (1 : UInt16).toNat = 1 := rfl
  have hlt := countdown.toNat_lt
  unfold ticksLeft at h ⊢
  rw [UInt16.toNat_sub, hone]
  split at h
  · rename_i hc
    rw [if_pos hc, if_pos (by omega)]
    omega
  · exact absurd rfl h

/-- The next place in a cycle of length `n`. -/
theorem add_one_mod {n : Nat} (hn : 0 < n) (t : Nat) :
    (t + 1) % n = if t % n + 1 = n then 0 else t % n + 1 := by
  have hlt := Nat.mod_lt t hn
  have hdiv : t + 1 = n * (t / n) + (t % n + 1) := by
    rw [← Nat.add_assoc, Nat.div_add_mod]
  rw [hdiv, Nat.mul_add_mod]
  split
  · rename_i hwrap
    rw [hwrap, Nat.mod_self]
  · exact Nat.mod_eq_of_lt (by omega)

/-- With more than one pass left the element stays in its half of the cycle. -/
theorem InPhase.counted (h : InPhase on off t e) (hleft : ticksLeft e.countdown ≠ 1) :
    InPhase on off (t + 1) { e with countdown := e.countdown - 1 } := by
  obtain ⟨hison, hcount, honl, hoffl⟩ := h
  have hon : 0 < on := honl ▸ ticksLeft_pos _
  have hlt := Nat.mod_lt t (Nat.add_pos_left hon off)
  have hnext := add_one_mod (Nat.add_pos_left hon off) t
  generalize t % (on + off) = p at *
  -- Neither half ends at `p + 1`, so the cycle does not start again either.
  have hstay : (t + 1) % (on + off) = p + 1 ∧ (p < on ↔ p + 1 < on) := by
    split at hcount <;> split at hnext <;> omega
  refine ⟨?_, (ticksLeft_sub_one hleft).trans ?_, honl, hoffl⟩
  · rw [hstay.1]
    exact hison.trans hstay.2
  · rw [hcount, hstay.1]
    simp only [hstay.2]
    split <;> omega

/-- In the last pass of its half it goes to the other one. -/
theorem InPhase.toggled (h : InPhase on off t e) (hleft : ticksLeft e.countdown = 1)
    {e' : Element} (hstatus : e'.status = e.status ^^^ 1)
    (hcountdown : e'.countdown = if e.isOn then e.offLength else e.onLength)
    (hon' : e'.onLength = e.onLength) (hoff' : e'.offLength = e.offLength) :
    InPhase on off (t + 1) e' := by
  obtain ⟨hison, hcount, honl, hoffl⟩ := h
  have hon : 0 < on := honl ▸ ticksLeft_pos _
  have hoff : 0 < off := hoffl ▸ ticksLeft_pos _
  have hnext := add_one_mod (Nat.add_pos_left hon off) t
  have htoggle := isOn_toggle e e' hstatus
  generalize t % (on + off) = p at *
  have hturn : (t + 1) % (on + off) = if e.isOn then on else 0 := by
    by_cases hp : p < on
    · rw [if_pos hp] at hcount
      rw [if_pos (hison.mpr hp), hnext, if_neg (by omega)]
      omega
    · rw [if_neg hp] at hcount
      rw [if_neg fun he => hp (hison.mp he), hnext, if_pos (by omega)]
  refine ⟨?_, ?_, hon' ▸ honl, hoff' ▸ hoffl⟩
  · rw [htoggle, hturn]
    cases e.isOn with
    | true => simp
    | false => simpa using hon
  · rw [hcountdown, hturn]
    cases e.isOn with
    | true => simpa using hoffl
    | false => simpa [hon] using honl

/-- **A pass moves an element on by one.** -/
theorem InPhase.tick (h : InPhase on off t e) : InPhase on off (t + 1) (tickElement e) := by
  unfold tickElement
  by_cases hleft : ticksLeft e.countdown = 1
  · rw [if_neg fun hpos => (positive_iff _).mp hpos hleft]
    exact h.toggled hleft rfl rfl rfl rfl
  · rw [if_pos ((positive_iff _).mpr hleft)]
    exact h.counted hleft

/-! ## One call -/

/-- An element is not put into a slot that is on the list. -/
def FreshSlot (σ : Blink) : BlinkOp → Prop
  | .add e => e.location.toNat < numSlots → ∀ i, mp1Malloc σ = some i → ¬ Listed σ i
  | _ => True

/-- The call removes the element of slot `i`, or copies the timing of another to it. -/
def Touches (σ : Blink) (i : Nat) : BlinkOp → Prop
  | .remove arg => ∃ fuel, mp1FindHelper σ fuel arg.toUInt16 = some (some i)
  | .sync arg => ∃ fuel src, mp1FindHelper σ fuel (arg >>> 16).toUInt16 = some (some src) ∧
      mp1FindHelper σ fuel arg.toUInt16 = some (some i)
  | _ => False

/-- A pass of the tasklet. -/
def BlinkOp.isPass : BlinkOp → Bool
  | .tasklet => true
  | _ => false

/-- The element of slot `i` is on the list, `t` passes after it was added. -/
structure Blinking (on off i t : Nat) (σ : Blink) : Prop where
  strung : ∃ l, Strung σ l ∧ i ∈ l
  phase : InPhase on off t (σ.blinkArray i)

theorem Strung.fresh (h : Strung σ l) (hfresh : FreshSlot σ op) :
    ∀ e i, op = .add e → e.location.toNat < numSlots → mp1Malloc σ = some i → i ∉ l := by
  rintro e i rfl hloc hi hmem
  exact hfresh hloc i hi (h.listed_iff.mpr hmem)

/-- Only its timing matters for the phase of an element. -/
theorem InPhase.of_eq (h : InPhase on off t e) {e' : Element} {next : Option Nat}
    (he : e' = { e with next := next }) : InPhase on off t e' := by
  subst he
  exact ⟨h.isOn_iff, h.countdown, h.onLength, h.offLength⟩

/-- **What a call does to an element**: a pass of the tasklet moves it on, nothing else does. -/
theorem Blinking.step (h : Blinking on off i t σ) (hr : BlinkRuns σ op σ')
    (hfresh : FreshSlot σ op) (hnot : ¬ Touches σ i op) :
    Blinking on off i (t + if op.isPass then 1 else 0) σ' := by
  obtain ⟨⟨l, hl, hi⟩, hphase⟩ := h
  obtain ⟨l', he⟩ := hl.effect hr
  have hl' := he.strung hl (hl.fresh hfresh)
  cases he with
  | refused hn => exact ⟨⟨l, hl, hi⟩, hphase⟩
  | @added e k hloc hk =>
    have hne : i ≠ k := ne_of_mem_of_not_mem hi (hl.fresh hfresh e k rfl hloc hk)
    refine ⟨⟨_, hl', List.mem_cons_of_mem k hi⟩, ?_⟩
    rw [addedAt_slot σ e hne]
    exact hphase
  | absent hn => exact ⟨⟨l, hl, hi⟩, hphase⟩
  | @removed arg k pre post heq hfirst =>
    have hne : i ≠ k := by
      rintro rfl
      exact hnot ⟨_, (hl.findHelper _).trans (congrArg some hfirst)⟩
    subst heq
    obtain ⟨next, hslot⟩ := removedAt_slot σ pre hne
    exact ⟨⟨_, hl', (mem_erase_middle hl.nodup).mpr ⟨hi, hne⟩⟩, hphase.of_eq hslot⟩
  | found => exact ⟨⟨l, hl, hi⟩, hphase⟩
  | unsynced hn => exact ⟨⟨l, hl, hi⟩, hphase⟩
  | @synced arg src dst hsrc hdst =>
    have hne : i ≠ dst := by
      rintro rfl
      exact hnot ⟨_, src, (hl.findHelper _).trans (congrArg some hsrc),
        (hl.findHelper _).trans (congrArg some hdst)⟩
    refine ⟨⟨l, hl', hi⟩, ?_⟩
    rw [syncedTo_slot σ src hne]
    exact hphase
  | passed =>
    refine ⟨⟨l, hl', hi⟩, ?_⟩
    rw [ticks_blinkArray hl.nodup, if_pos hi]
    exact hphase.tick

/-! ## Runs -/

/-- The passes of the tasklet in a run. -/
def passes (tr : List BlinkOp) : Nat := tr.countP BlinkOp.isPass

/-- A call that fills no slot of the list, and neither removes the element of slot `i` nor copies
the timing of another to it. -/
def Leaves (i : Nat) (σ : Blink) (op : BlinkOp) (σ' : Blink) : Prop :=
  BlinkRuns σ op σ' ∧ FreshSlot σ op ∧ ¬ Touches σ i op

/-- **An element in a run.** -/
theorem Blinking.run {tr : List BlinkOp} (h : Blinking on off i 0 σ)
    (hrun : Trace (Leaves i) σ tr σ') : Blinking on off i (passes tr) σ' := by
  refine Trace.snoc_induction (P := fun tr σ' => Blinking on off i (passes tr) σ') h ?_ hrun
  intro tr σ₁ op σ₂ _ hσ₁ hstep
  have hnext := hσ₁.step hstep.1 hstep.2.1 hstep.2.2
  unfold passes
  rw [List.countP_append, List.countP_singleton]
  exact hnext

/-- The tasklet alone may run any number of times. -/
theorem Blinking.exists_run (h : Blinking on off i t σ) (n : Nat) :
    ∃ tr σ', Trace (Leaves i) σ tr σ' ∧ passes tr = n := by
  induction n generalizing σ t with
  | zero => exact ⟨[], σ, .nil σ, rfl⟩
  | succ n ih =>
    obtain ⟨l, hl, -⟩ := h.strung
    obtain ⟨σ₁, hr⟩ := hl.runs .tasklet
    obtain ⟨tr, σ', hσ', hn⟩ := ih (h.step hr trivial id)
    refine ⟨.tasklet :: tr, σ', .cons ⟨hr, trivial, id⟩ hσ', ?_⟩
    unfold passes at hn ⊢
    rw [List.countP_cons_of_pos rfl, hn]

/-- While no slot of the list is filled again, it stays one. -/
theorem strung_of_run (video : Nat → UInt8) {tr : List BlinkOp}
    (h : Trace (fun σ op σ' => BlinkRuns σ op σ' ∧ FreshSlot σ op) (emptyBlink video) tr σ) :
    ∃ l, Strung σ l := by
  refine h.invariant (I := fun σ => ∃ l, Strung σ l) ?_ ⟨[], rfl, List.nodup_nil⟩
  rintro σ₁ op σ₂ ⟨l, hl⟩ ⟨hr, hfresh⟩
  obtain ⟨l', he⟩ := hl.effect hr
  exact ⟨l', he.strung hl (hl.fresh hfresh)⟩

theorem mp1IoctlAdd_fst (hloc : e.location.toNat < numSlots) (hi : mp1Malloc σ = some i) :
    (mp1IoctlAdd σ e).1 = addedAt σ e i := by
  unfold mp1IoctlAdd
  rw [if_neg (Nat.not_le.mpr hloc)]
  dsimp only
  rw [hi]
  rfl

/-- **An element just added** is at the start of its cycle. -/
theorem Blinking.added (h : Strung σ l) (hi : i ∉ l) (e : Element) :
    Blinking (ticksLeft e.onLength) (ticksLeft e.offLength) i 0 (addedAt σ e i) := by
  have hpos := ticksLeft_pos e.onLength
  refine ⟨⟨_, h.addedAt e hi, List.mem_cons_self⟩, ?_⟩
  rw [addedAt_self]
  refine ⟨iff_of_true ((isOn_iff _).mpr rfl) ?_, ?_, rfl, rfl⟩
  · rwa [Nat.zero_mod]
  · rw [Nat.zero_mod, if_pos hpos]
    rfl

theorem ticksLeft_of_le {countdown : UInt16} (h1 : 1 ≤ countdown.toNat)
    (h2 : countdown.toNat ≤ 0x8000) : ticksLeft countdown = countdown.toNat := if_pos ⟨h1, h2⟩

theorem ticksLeft_of_gt {countdown : UInt16} (h : 0x8000 < countdown.toNat) :
    ticksLeft countdown = 1 := if_neg (by omega)

/-- **Which lengths count as they are.** With a length above `0x8000` the cycle differs from the
wanted one after one pass, or after one more than the other length. -/
theorem cycle_iff {a b : UInt16} (ha : 1 ≤ a.toNat) (hb : 1 ≤ b.toNat) :
    (∀ t, t % (ticksLeft a + ticksLeft b) < ticksLeft a ↔ t % (a.toNat + b.toNat) < a.toNat) ↔
      a.toNat ≤ 0x8000 ∧ b.toNat ≤ 0x8000 := by
  constructor
  · intro h
    have hale : a.toNat ≤ 0x8000 := by
      by_contra hgt
      have hpos := ticksLeft_pos b
      have hone := h 1
      rw [ticksLeft_of_gt (by omega), Nat.mod_eq_of_lt (by omega), Nat.mod_eq_of_lt (by omega)]
        at hone
      omega
    refine ⟨hale, ?_⟩
    by_contra hgt
    have hone := h (a.toNat + 1)
    rw [ticksLeft_of_le ha hale, ticksLeft_of_gt (by omega), Nat.mod_self,
      Nat.mod_eq_of_lt (by omega)] at hone
    omega
  · rintro ⟨hale, hble⟩ t
    rw [ticksLeft_of_le ha hale, ticksLeft_of_le hb hble]

/-- **When a blinking element has the timing of its lengths.** Let an element with an on length `a`
and an off length `b`, both at least 1, be added in any run from the empty list that fills no slot
of the list. In every run after it that neither removes it nor copies the timing of another to it,
it is on exactly while the number of passes is below `a` modulo `a + b`, whatever else happens to
the list, if and only if neither length is above `0x8000`. In all these runs it stays on the list
and the tasklet returns. -/
theorem blink_timing_iff (video : Nat → UInt8) (before : List BlinkOp) (σ : Blink) (e : Element)
    (i : Nat)
    (hbefore : Trace (fun σ op σ' => BlinkRuns σ op σ' ∧ FreshSlot σ op)
      (emptyBlink video) before σ)
    (hloc : e.location.toNat < numSlots) (hi : mp1Malloc σ = some i)
    (hfresh : FreshSlot σ (.add e)) (hon : 1 ≤ e.onLength.toNat) (hoff : 1 ≤ e.offLength.toNat) :
    ((∀ tr σ', Trace (Leaves i) (mp1IoctlAdd σ e).1 tr σ' →
        ((σ'.blinkArray i).isOn = true ↔
          passes tr % (e.onLength.toNat + e.offLength.toNat) < e.onLength.toNat)) ↔
      e.onLength.toNat ≤ 0x8000 ∧ e.offLength.toNat ≤ 0x8000) ∧
    ∀ tr σ', Trace (Leaves i) (mp1IoctlAdd σ e).1 tr σ' →
      Listed σ' i ∧ ∃ σ'', BlinkRuns σ' .tasklet σ'' := by
  obtain ⟨l, hl⟩ := strung_of_run video hbefore
  have hstart := Blinking.added hl (hl.fresh hfresh e i rfl hloc hi) e
  rw [mp1IoctlAdd_fst hloc hi]
  refine ⟨?_, fun tr σ' hrun => ?_⟩
  · rw [← cycle_iff hon hoff]
    constructor
    · intro h t
      obtain ⟨tr, σ', hrun, rfl⟩ := hstart.exists_run t
      exact (hstart.run hrun).phase.isOn_iff.symm.trans (h tr σ' hrun)
    · intro h tr σ' hrun
      exact (hstart.run hrun).phase.isOn_iff.trans (h (passes tr))
  · obtain ⟨l', hl', hmem⟩ := (hstart.run hrun).strung
    exact ⟨hl'.listed_iff.mpr hmem, hl'.runs .tasklet⟩

/-- An element at the second cell of the screen. -/
def blinkerOf (onLength offLength : UInt16) : Element :=
  ⟨1, 73, 77, onLength, offLength, 0, 0, none⟩

theorem off_after_three_passes :
    ∃ σ, Trace (Leaves 0) (mp1IoctlAdd (emptyBlink fun _ => 0) (blinkerOf 3 2)).1
        [.tasklet, .tasklet, .tasklet] σ ∧
      (σ.blinkArray 0).isOn = false := by
  have hrun : ∃ σ, Trace (Leaves 0) (mp1IoctlAdd (emptyBlink fun _ => 0) (blinkerOf 3 2)).1
      [.tasklet, .tasklet, .tasklet] σ :=
    ⟨_, .cons ⟨⟨2, rfl⟩, trivial, id⟩ (.cons ⟨⟨2, rfl⟩, trivial, id⟩
      (.single ⟨⟨2, rfl⟩, trivial, id⟩))⟩
  obtain ⟨σ, hσ⟩ := hrun
  have htiming := (blink_timing_iff (fun _ => 0) [] _ (blinkerOf 3 2) 0 (.nil _) (by decide) rfl
    (fun _ i _ => not_listed_empty _ i) (by decide) (by decide)).1.mpr ⟨by decide, by decide⟩
  refine ⟨σ, hσ, Bool.eq_false_iff.mpr fun hon => ?_⟩
  exact absurd ((htiming _ σ hσ).mp hon) (by decide)

/-- An element with an on length of `0x8001` is off after the first pass of the tasklet. -/
theorem long_off_after_one_pass :
    ∃ σ, Trace (Leaves 0) (mp1IoctlAdd (emptyBlink fun _ => 0) (blinkerOf 0x8001 1)).1
        [.tasklet] σ ∧
      (σ.blinkArray 0).isOn = false ∧ passes [.tasklet] % (0x8001 + 1) < 0x8001 :=
  ⟨_, .single ⟨⟨2, rfl⟩, trivial, id⟩, rfl, by decide⟩

end MyOS.Programs
