import MyOS.Programs.Blink

/-!
# What a call does to the blink list

`Strung σ l`: the list of `fish/blink.S` runs through the slots `l`, each once, and ends. From such
a state every call returns (`Strung.runs`), and what it does is one of the cases of `BlinkEffect`
(`Strung.effect`), each with the list it leaves: results about the list use these and never unfold
the calls.

* `Strung.findHelper`: `mp1_find_helper` finds the first slot of the list with the location.
* `taskletLoop_some`: a pass of the tasklet is one `tick` for each slot of the list.
* `BlinkEffect.strung`: the list stays one, unless an element is put into a slot that is on it.
-/

namespace MyOS.Programs

open MyOS.Machine

variable {σ σ' : Blink} {l l' : List Nat} {op : BlinkOp}

/-- The list runs through the slots `l`, each once, and ends. -/
structure Strung (σ : Blink) (l : List Nat) : Prop where
  linked : Linked σ.nextOf σ.listHead l
  nodup : l.Nodup

/-- The element is on: bit 0 of its status. -/
def Element.isOn (e : Element) : Bool := e.status &&& 1 ≠ 0

/-- What a pass of the tasklet does to an element. -/
def tickElement (e : Element) : Element :=
  if positive (e.countdown - 1) then { e with countdown := e.countdown - 1 }
  else
    { e with
      countdown := if e.isOn then e.offLength else e.onLength
      status := e.status ^^^ 1 }

/-- The first slot of `l` with a location. -/
def firstAt (σ : Blink) (l : List Nat) (location : UInt16) : Option Nat :=
  l.find? fun i => (σ.blinkArray i).location = location

/-- The state with the element `e` added in slot `i`. -/
def addedAt (σ : Blink) (e : Element) (i : Nat) : Blink where
  listHead := some i
  blinkArray := Function.update σ.blinkArray i
    { e with status := 1, countdown := e.onLength, next := σ.listHead }
  video := mp1Poke σ.video e.location e.onChar

/-- The state with the timing of `src` copied to `dst`. -/
def syncedTo (σ : Blink) (src dst : Nat) : Blink :=
  { σ with
    blinkArray := Function.update σ.blinkArray dst
      (syncElement (σ.blinkArray src) (σ.blinkArray dst))
    video := mp1Poke σ.video (σ.blinkArray dst).location
      (syncChar (syncElement (σ.blinkArray src) (σ.blinkArray dst))) }

/-- The state with slot `i` taken out from behind the slots `pre`, and freed. -/
def removedAt (σ : Blink) (pre : List Nat) (i : Nat) : Blink :=
  mp1Free (unlinkSlot σ (pre.foldl (fun _ j => some j) none) i) i

/-- **What a call does to the list `l`**, with the list it leaves. -/
inductive BlinkEffect (σ : Blink) (l : List Nat) : BlinkOp → Blink → List Nat → Prop
  | refused {e : Element} (h : numSlots ≤ e.location.toNat ∨ mp1Malloc σ = none) :
      BlinkEffect σ l (.add e) σ l
  | added {e : Element} {i : Nat} (hloc : e.location.toNat < numSlots)
      (hi : mp1Malloc σ = some i) : BlinkEffect σ l (.add e) (addedAt σ e i) (i :: l)
  | absent {arg : UInt32} (h : firstAt σ l arg.toUInt16 = none) : BlinkEffect σ l (.remove arg) σ l
  | removed {arg : UInt32} {i : Nat} {pre post : List Nat} (hl : l = pre ++ i :: post)
      (h : firstAt σ l arg.toUInt16 = some i) :
      BlinkEffect σ l (.remove arg) (removedAt σ pre i) (pre ++ post)
  | found {location : UInt16} : BlinkEffect σ l (.find location) σ l
  | unsynced {arg : UInt32} (h : firstAt σ l (arg >>> 16).toUInt16 = none ∨
      firstAt σ l arg.toUInt16 = none) : BlinkEffect σ l (.sync arg) σ l
  | synced {arg : UInt32} {src dst : Nat} (hsrc : firstAt σ l (arg >>> 16).toUInt16 = some src)
      (hdst : firstAt σ l arg.toUInt16 = some dst) :
      BlinkEffect σ l (.sync arg) (syncedTo σ src dst) l
  | passed : BlinkEffect σ l .tasklet (l.foldl tick σ) l

/-! ## One element -/

theorem isOn_iff (e : Element) : e.isOn = true ↔ e.status.toNat % 2 = 1 := by
  have hone : (1 : UInt16).toNat = 1 := rfl
  unfold Element.isOn
  rw [decide_eq_true_eq, Ne, ← UInt16.toNat_inj, UInt16.toNat_and, hone, Nat.and_one_is_mod]
  change ¬ e.status.toNat % 2 = 0 ↔ _
  omega

theorem isOn_toggle (e e' : Element) (h : e'.status = e.status ^^^ 1) : e'.isOn = !e.isOn := by
  have hone : (1 : UInt16).toNat = 1 := rfl
  rw [Bool.eq_iff_iff, Bool.not_eq_true', ← Bool.not_eq_true, isOn_iff, isOn_iff, h,
    UInt16.toNat_xor, hone, Nat.xor_mod_two_eq_one]
  omega

theorem tick_blinkArray (σ : Blink) (i : Nat) :
    (tick σ i).blinkArray = Function.update σ.blinkArray i (tickElement (σ.blinkArray i)) := by
  unfold tick tickElement Element.isOn
  dsimp only
  split
  · rfl
  · simp only [decide_eq_true_eq]

/-- **A pass of the tasklet, slot by slot**: those on the list tick, the others stay. -/
theorem ticks_blinkArray (hnd : l.Nodup) (σ : Blink) (i : Nat) :
    (l.foldl tick σ).blinkArray i =
      if i ∈ l then tickElement (σ.blinkArray i) else σ.blinkArray i := by
  induction l generalizing σ with
  | nil => rfl
  | cons j l ih =>
    rw [List.nodup_cons] at hnd
    rw [List.foldl_cons, ih hnd.2, tick_blinkArray]
    by_cases hij : i = j
    · subst hij
      rw [if_neg hnd.1, if_pos List.mem_cons_self, Function.update_self]
    · rw [Function.update_of_ne hij]
      simp only [List.mem_cons, hij, false_or]

/-! ## Calls that leave the list alone -/

/-- The head, the locations and the links are the same. -/
structure SameList (σ σ' : Blink) : Prop where
  head : σ'.listHead = σ.listHead
  location : ∀ i, (σ'.blinkArray i).location = (σ.blinkArray i).location
  next : ∀ i, σ'.nextOf i = σ.nextOf i

theorem SameList.refl (σ : Blink) : SameList σ σ := ⟨rfl, fun _ => rfl, fun _ => rfl⟩

theorem SameList.trans {σ'' : Blink} (h : SameList σ σ') (h' : SameList σ' σ'') :
    SameList σ σ'' :=
  ⟨h'.head.trans h.head, fun i => (h'.location i).trans (h.location i),
    fun i => (h'.next i).trans (h.next i)⟩

/-- An element written back with its location and its link. -/
theorem sameList_update (e : Element) (video : Nat → UInt8) {i : Nat}
    (hloc : e.location = (σ.blinkArray i).location) (hnext : e.next = (σ.blinkArray i).next) :
    SameList σ { σ with blinkArray := Function.update σ.blinkArray i e, video := video } := by
  refine ⟨rfl, fun j => ?_, fun j => ?_⟩
  · simp only [Function.update_apply]
    split
    · rename_i h
      rw [hloc, h]
    · rfl
  · simp only [Blink.nextOf, Function.update_apply]
    split
    · rename_i h
      rw [hnext, h]
    · rfl

theorem Strung.of_same (h : Strung σ l) (hs : SameList σ σ') : Strung σ' l := by
  refine ⟨?_, h.nodup⟩
  rw [hs.head]
  exact h.linked.congr fun i _ => hs.next i

theorem sameList_tick (σ : Blink) (i : Nat) : SameList σ (tick σ i) := by
  unfold tick
  dsimp only
  split
  · exact sameList_update _ σ.video rfl rfl
  · exact sameList_update _ _ rfl rfl

theorem sameList_ticks (σ : Blink) (l : List Nat) : SameList σ (l.foldl tick σ) := by
  induction l generalizing σ with
  | nil => exact SameList.refl σ
  | cons i l ih => exact (sameList_tick σ i).trans (ih (tick σ i))

theorem sameList_syncedTo (σ : Blink) (src dst : Nat) : SameList σ (syncedTo σ src dst) :=
  sameList_update _ _ rfl rfl

/-! ## The walks along the list -/

theorem firstAt_mem {location : UInt16} {i : Nat} (h : firstAt σ l location = some i) :
    i ∈ l ∧ (σ.blinkArray i).location = location :=
  ⟨List.mem_of_find?_eq_some h, by simpa using List.find?_some h⟩

/-- **`mp1_find_helper`** returns, and finds the first slot with the location. -/
theorem Strung.findHelper (h : Strung σ l) (location : UInt16) :
    mp1FindHelper σ (l.length + 1) location = some (firstAt σ l location) := by
  obtain ⟨found, hf⟩ := findFrom_ends h.linked
    (fun i => (σ.blinkArray i).location = location) (Nat.lt_succ_self l.length)
  exact hf.trans (congrArg some (findFrom_some h.linked hf))

/-- **A pass of the tasklet** along a list ends. -/
theorem taskletLoop_ends {head : Option Nat} (h : Linked σ.nextOf head l) {fuel : Nat}
    (hf : l.length < fuel) : ∃ σ', taskletLoop fuel σ head = some σ' := by
  induction l generalizing σ head fuel with
  | nil =>
    obtain rfl : head = none := h
    cases fuel with
    | zero => exact absurd hf (Nat.not_lt_zero _)
    | succ fuel => exact ⟨σ, rfl⟩
  | cons i l ih =>
    obtain ⟨rfl, hrest⟩ := h
    cases fuel with
    | zero => exact absurd hf (Nat.not_lt_zero _)
    | succ fuel =>
      have hsame := sameList_tick σ i
      rw [taskletLoop, hsame.next]
      exact ih (hrest.congr fun j _ => hsame.next j) (Nat.lt_of_succ_lt_succ hf)

/-- It is one `tick` for each slot of the list. -/
theorem taskletLoop_some {head : Option Nat} (h : Linked σ.nextOf head l) {fuel : Nat}
    (ht : taskletLoop fuel σ head = some σ') : σ' = l.foldl tick σ := by
  induction l generalizing σ head fuel with
  | nil =>
    obtain rfl : head = none := h
    cases fuel with
    | zero => cases ht
    | succ fuel => exact (Option.some.inj ht).symm
  | cons i l ih =>
    obtain ⟨rfl, hrest⟩ := h
    cases fuel with
    | zero => cases ht
    | succ fuel =>
      have hsame := sameList_tick σ i
      rw [taskletLoop, hsame.next] at ht
      exact ih (hrest.congr fun j _ => hsame.next j) ht

/-! ## The cases -/

theorem Strung.remove_effect (h : Strung σ l) {fuel : Nat} {arg : UInt32} {r : Blink × Int}
    (hr : mp1IoctlRemove σ fuel arg = some r) : ∃ l', BlinkEffect σ l (.remove arg) r.1 l' := by
  unfold mp1IoctlRemove at hr
  split at hr
  · cases hr
  · rename_i hfind
    cases hr
    exact ⟨l, .absent (findFrom_some h.linked hfind).symm⟩
  · rename_i i hfind
    obtain ⟨prev, hprev, rfl⟩ := Option.map_eq_some_iff.mp hr
    have hfirst : firstAt σ l arg.toUInt16 = some i := (findFrom_some h.linked hfind).symm
    obtain ⟨pre, post, rfl⟩ := List.append_of_mem (firstAt_mem hfirst).1
    have hnot : i ∉ pre := by
      have hnd := (List.nodup_cons.mp (List.nodup_middle.mp h.nodup)).1
      exact fun hi => hnd (List.mem_append_left post hi)
    obtain rfl := prevFrom_some h.linked hnot hprev
    exact ⟨pre ++ post, .removed rfl hfirst⟩

theorem Strung.sync_effect (h : Strung σ l) {fuel : Nat} {arg : UInt32} {r : Blink × Int}
    (hr : mp1IoctlSync σ fuel arg = some r) : ∃ l', BlinkEffect σ l (.sync arg) r.1 l' := by
  unfold mp1IoctlSync at hr
  split at hr
  · cases hr
  · rename_i hsrc
    cases hr
    exact ⟨l, .unsynced (Or.inl (findFrom_some h.linked hsrc).symm)⟩
  · rename_i src hsrc
    split at hr
    · cases hr
    · rename_i hdst
      cases hr
      exact ⟨l, .unsynced (Or.inr (findFrom_some h.linked hdst).symm)⟩
    · rename_i dst hdst
      cases hr
      exact ⟨l, .synced (findFrom_some h.linked hsrc).symm (findFrom_some h.linked hdst).symm⟩

/-- **A call that returns does one of these things.** -/
theorem Strung.effect (h : Strung σ l) (hr : BlinkRuns σ op σ') :
    ∃ l', BlinkEffect σ l op σ' l' := by
  obtain ⟨fuel, hr⟩ := hr
  cases op with
  | add e =>
    obtain rfl := Option.some.inj hr
    unfold mp1IoctlAdd
    by_cases hbig : numSlots ≤ e.location.toNat
    · rw [if_pos hbig]
      exact ⟨l, .refused (Or.inl hbig)⟩
    · rw [if_neg hbig]
      dsimp only
      cases hi : mp1Malloc σ with
      | none => exact ⟨l, .refused (Or.inr hi)⟩
      | some i => exact ⟨i :: l, .added (Nat.lt_of_not_le hbig) hi⟩
  | remove arg =>
    obtain ⟨r, hcall, rfl⟩ := Option.map_eq_some_iff.mp hr
    exact h.remove_effect hcall
  | find location =>
    obtain ⟨r, -, rfl⟩ := Option.map_eq_some_iff.mp hr
    exact ⟨l, .found⟩
  | sync arg =>
    obtain ⟨r, hcall, rfl⟩ := Option.map_eq_some_iff.mp hr
    exact h.sync_effect hcall
  | tasklet =>
    obtain rfl := taskletLoop_some h.linked hr
    exact ⟨l, .passed⟩

/-! ## The list it leaves -/

theorem addedAt_self (σ : Blink) (e : Element) (i : Nat) : (addedAt σ e i).blinkArray i =
    { e with status := 1, countdown := e.onLength, next := σ.listHead } :=
  Function.update_self _ _ _

theorem addedAt_slot (σ : Blink) (e : Element) {i j : Nat} (hj : j ≠ i) :
    (addedAt σ e i).blinkArray j = σ.blinkArray j := Function.update_of_ne hj _ _

theorem syncedTo_slot (σ : Blink) (src : Nat) {dst j : Nat} (hj : j ≠ dst) :
    (syncedTo σ src dst).blinkArray j = σ.blinkArray j := Function.update_of_ne hj _ _

/-- **An element added in a slot that is not on the list.** -/
theorem Strung.addedAt (h : Strung σ l) (e : Element) {i : Nat} (hi : i ∉ l) :
    Strung (addedAt σ e i) (i :: l) := by
  refine ⟨?_, List.nodup_cons.mpr ⟨hi, h.nodup⟩⟩
  refine (h.linked.push hi).congr fun j _ => ?_
  simp only [Programs.addedAt, Blink.nextOf, Function.update_apply]
  split <;> rfl

/-- What a removal leaves in the other slots: only a link may have changed. -/
theorem removedAt_slot (σ : Blink) (pre : List Nat) {i j : Nat} (hj : j ≠ i) :
    ∃ next, (removedAt σ pre i).blinkArray j = { σ.blinkArray j with next := next } := by
  unfold removedAt mp1Free unlinkSlot
  dsimp only
  rw [Function.update_of_ne hj]
  cases pre.foldl (fun _ j => some j) none with
  | none => exact ⟨_, rfl⟩
  | some p =>
    simp only [Function.update_apply]
    split
    · rename_i hp
      rw [hp]
      exact ⟨_, rfl⟩
    · exact ⟨_, rfl⟩

theorem mem_erase_middle {pre post : List Nat} {i j : Nat} (hnd : (pre ++ i :: post).Nodup) :
    j ∈ pre ++ post ↔ j ∈ pre ++ i :: post ∧ j ≠ i := by
  rw [List.nodup_middle, List.nodup_cons] at hnd
  rw [List.mem_append, List.mem_append, List.mem_cons]
  constructor
  · intro hj
    refine ⟨by tauto, ?_⟩
    rintro rfl
    exact hnd.1 (List.mem_append.mpr hj)
  · tauto

/-- What a removal leaves on the list was on it, but for a link. -/
theorem removedAt_mem {pre post : List Nat} {i j : Nat} (h : Strung σ (pre ++ i :: post))
    (hj : j ∈ pre ++ post) : j ∈ pre ++ i :: post ∧
      ∃ next, (removedAt σ pre i).blinkArray j = { σ.blinkArray j with next := next } := by
  obtain ⟨hmem, hne⟩ := (mem_erase_middle h.nodup).mp hj
  exact ⟨hmem, removedAt_slot σ pre hne⟩

theorem removedAt_freed (σ : Blink) (pre : List Nat) (i : Nat) :
    (removedAt σ pre i).blinkArray i = zeroElement := Function.update_self _ _ _

theorem removedAt_video (σ : Blink) (pre : List Nat) (i : Nat) :
    (removedAt σ pre i).video = σ.video := by
  unfold removedAt mp1Free unlinkSlot
  cases pre.foldl (fun _ j => some j) none <;> rfl

/-- **An element removed.** -/
theorem Strung.removedAt {pre post : List Nat} {i : Nat} (h : Strung σ (pre ++ i :: post)) :
    Strung (removedAt σ pre i) (pre ++ post) := by
  obtain ⟨hlinked, hnd⟩ := h
  obtain ⟨hnot, hrest⟩ := List.nodup_cons.mp (List.nodup_middle.mp hnd)
  refine ⟨?_, hrest⟩
  rcases List.eq_nil_or_concat' pre with rfl | ⟨pre, p, rfl⟩
  · refine hlinked.2.congr fun j hj => ?_
    have hne : j ≠ i := ne_of_mem_of_not_mem hj hnot
    simp only [Programs.removedAt, mp1Free, unlinkSlot, List.foldl_nil, Blink.nextOf,
      Function.update_of_ne hne]
  · rw [List.append_assoc, List.singleton_append] at hlinked hnd hnot
    unfold Programs.removedAt
    rw [List.foldl_append, List.append_assoc, List.singleton_append]
    refine (hlinked.unlink hnd).congr fun j hj => ?_
    have hne : j ≠ i := ne_of_mem_of_not_mem hj hnot
    simp only [mp1Free, unlinkSlot, List.foldl_cons, List.foldl_nil, Blink.nextOf,
      Function.update_of_ne hne, Function.update_apply]
    split <;> rfl

/-- **The list stays one**, unless an element is put into a slot that is on it. -/
theorem BlinkEffect.strung (he : BlinkEffect σ l op σ' l') (h : Strung σ l)
    (hfresh : ∀ e i, op = .add e → e.location.toNat < numSlots → mp1Malloc σ = some i → i ∉ l) :
    Strung σ' l' := by
  cases he with
  | refused hn => exact h
  | added hloc hi => exact h.addedAt _ (hfresh _ _ rfl hloc hi)
  | absent hn => exact h
  | removed hl hfirst =>
    subst hl
    exact h.removedAt
  | found => exact h
  | unsynced hn => exact h
  | synced hsrc hdst => exact h.of_same (sameList_syncedTo _ _ _)
  | passed => exact h.of_same (sameList_ticks _ _)

/-- **Along a list every call returns.** -/
theorem Strung.runs (h : Strung σ l) (op : BlinkOp) : ∃ σ', BlinkRuns σ op σ' := by
  have hruns : ∃ σ', blinkOp σ (l.length + 1) op = some σ' := by
    cases op with
    | add e => exact ⟨_, rfl⟩
    | remove arg =>
      change ∃ σ', (mp1IoctlRemove σ (l.length + 1) arg).map Prod.fst = some σ'
      unfold mp1IoctlRemove
      rw [h.findHelper]
      cases hfirst : firstAt σ l arg.toUInt16 with
      | none => exact ⟨_, rfl⟩
      | some i =>
        obtain ⟨pre, post, rfl⟩ := List.append_of_mem (firstAt_mem hfirst).1
        have hpre : pre.length < (pre ++ i :: post).length + 1 := by
          rw [List.length_append]
          omega
        obtain ⟨prev, hprev⟩ := prevFrom_ends h.linked none hpre
        simp only [hprev, Option.map_some]
        exact ⟨_, rfl⟩
    | find location =>
      change ∃ σ', (mp1IoctlFind σ (l.length + 1) location).map (fun _ => σ) = some σ'
      unfold mp1IoctlFind
      rw [h.findHelper]
      exact ⟨_, rfl⟩
    | sync arg =>
      change ∃ σ', (mp1IoctlSync σ (l.length + 1) arg).map Prod.fst = some σ'
      unfold mp1IoctlSync
      rw [h.findHelper, h.findHelper]
      cases firstAt σ l (arg >>> 16).toUInt16 with
      | none => exact ⟨_, rfl⟩
      | some src =>
        cases firstAt σ l arg.toUInt16 with
        | none => exact ⟨_, rfl⟩
        | some dst => exact ⟨_, rfl⟩
    | tasklet => exact taskletLoop_ends h.linked (Nat.lt_succ_self _)
  obtain ⟨σ', hσ'⟩ := hruns
  exact ⟨σ', _, hσ'⟩

end MyOS.Programs
