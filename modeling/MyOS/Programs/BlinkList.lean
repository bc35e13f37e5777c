import MyOS.Machine.Run
import MyOS.Programs.BlinkSteps

/-!
# The blink list stays a list

The list of `fish/blink.S` runs through the slots of `blink_array`, and a slot is free when its
location is 0 (`mp1_malloc`, `fish.c:161-171`). Location 0 is also the first cell of the screen, and
`mp1_ioctl_add` (`blink.S:105-184`) takes it: the slot it fills then is on the list and free.

* `ListOk`: the list ends, meets no slot twice, and meets exactly the slots that are not free.
* `ListIs.of_same`: a call that leaves locations and links alone keeps it, as the tasklet and
  `mp1_ioctl_sync` do. `ListIs.added`, `ListIs.removed` are the other two, and `listOk_step_iff` all
  of them. While it holds, every call returns (`Strung.runs`).
* **`blink_list_iff`**: the runs in which it holds throughout are those in which no element is added
  at location 0.
* `added_twice_at_zero`: after two such elements the list is a circle, and the tasklet does not end.
-/

namespace MyOS.Programs

open MyOS.Machine

variable {σ σ' : Blink}

/-- The slots that are not free, which `mp1_malloc` does not hand out. -/
def Taken (σ : Blink) (i : Nat) : Prop := i < numSlots ∧ (σ.blinkArray i).location ≠ 0

/-- The slots met along the list are `l`, each once, and are those that are not free. -/
structure ListIs (σ : Blink) (l : List Nat) : Prop where
  linked : Linked σ.nextOf σ.listHead l
  nodup : l.Nodup
  mem_iff : ∀ i, i ∈ l ↔ Taken σ i

/-- **The blink list is a list.** -/
def ListOk (σ : Blink) : Prop := ∃ l, ListIs σ l

theorem listOk_empty (video : Nat → UInt8) : ListOk (emptyBlink video) :=
  ⟨[], rfl, List.nodup_nil, fun _ => ⟨nofun, fun h => absurd rfl h.2⟩⟩

/-! ## The allocator -/

theorem mallocFrom_some {blinkArray : Nat → Element} {n i j : Nat}
    (h : mallocFrom blinkArray n i = some j) :
    i ≤ j ∧ j < i + n ∧ (blinkArray j).location = 0 := by
  induction n generalizing i with
  | zero => cases h
  | succ n ih =>
    rw [mallocFrom] at h
    split at h
    · rename_i h0
      obtain rfl := Option.some.inj h
      exact ⟨Nat.le_refl i, by omega, h0⟩
    · obtain ⟨h1, h2, h3⟩ := ih h
      exact ⟨by omega, by omega, h3⟩

/-- What `mp1_malloc` hands out is free. -/
theorem mp1Malloc_some {i : Nat} (h : mp1Malloc σ = some i) :
    i < numSlots ∧ (σ.blinkArray i).location = 0 := by
  obtain ⟨-, hlt, h0⟩ := mallocFrom_some h
  exact ⟨by omega, h0⟩

/-! ## Calls -/

theorem ListIs.strung {l : List Nat} (h : ListIs σ l) : Strung σ l := ⟨h.linked, h.nodup⟩

theorem ListIs.of_same {l : List Nat} (h : ListIs σ l) (hs : SameList σ σ') : ListIs σ' l := by
  obtain ⟨hlinked, hnd⟩ := h.strung.of_same hs
  refine ⟨hlinked, hnd, fun i => ?_⟩
  rw [h.mem_iff]
  unfold Taken
  rw [hs.location]

/-- What `mp1_malloc` hands out is not on the list. -/
theorem ListIs.not_mem {l : List Nat} (h : ListIs σ l) {i : Nat} (hi : mp1Malloc σ = some i) :
    i ∉ l := fun hmem => ((h.mem_iff i).mp hmem).2 (mp1Malloc_some hi).2

/-- **An element added in a free slot, away from location 0.** -/
theorem ListIs.added {l : List Nat} (h : ListIs σ l) {i : Nat} (hi : mp1Malloc σ = some i)
    {e : Element} (he : e.location ≠ 0) : ListIs (addedAt σ e i) (i :: l) := by
  obtain ⟨hlinked, hnd⟩ := h.strung.addedAt e (h.not_mem hi)
  refine ⟨hlinked, hnd, fun j => ?_⟩
  have hlt := (mp1Malloc_some hi).1
  rw [List.mem_cons, h.mem_iff]
  unfold Taken addedAt
  simp only [Function.update_apply]
  by_cases hj : j = i
  · subst hj
    simp [hlt, he]
  · simp [hj]

/-- With its first element at location 0 it is no list: that slot is on it and free. -/
theorem not_listOk_of_zero {i : Nat} (hhead : σ.listHead = some i)
    (h0 : (σ.blinkArray i).location = 0) : ¬ ListOk σ := by
  rintro ⟨l, hl⟩
  have hlinked := hl.linked
  rw [hhead] at hlinked
  cases l with
  | nil => cases hlinked
  | cons j l =>
    obtain rfl := Option.some.inj hlinked.1
    exact ((hl.mem_iff i).mp List.mem_cons_self).2 h0

/-- **An element removed.** -/
theorem ListIs.removed {pre post : List Nat} {i : Nat} (h : ListIs σ (pre ++ i :: post)) :
    ListIs (removedAt σ pre i) (pre ++ post) := by
  obtain ⟨hlinked, hnd⟩ := h.strung.removedAt
  refine ⟨hlinked, hnd, fun j => ?_⟩
  rw [mem_erase_middle h.nodup, h.mem_iff]
  unfold Taken
  by_cases hj : j = i
  · subst hj
    rw [removedAt_freed]
    simp [zeroElement]
  · obtain ⟨next, hslot⟩ := removedAt_slot σ pre hj
    rw [hslot]
    simp [hj]

/-! ## Runs -/

/-- A call that does not fill a slot with an element at location 0. -/
def Clean (σ : Blink) : BlinkOp → Prop
  | .add e => ¬ (e.location = 0 ∧ (mp1Malloc σ).isSome)
  | _ => True

/-- **What keeps the list a list.** -/
theorem listOk_step_iff {op : BlinkOp} (h : ListOk σ) (hr : BlinkRuns σ op σ') :
    ListOk σ' ↔ Clean σ op := by
  obtain ⟨l, hl⟩ := h
  obtain ⟨l', he⟩ := hl.strung.effect hr
  cases he with
  | @refused e hn =>
    refine iff_of_true ⟨l, hl⟩ ?_
    rintro ⟨hz, hsome⟩
    rcases hn with hbig | hnone
    · rw [hz] at hbig
      exact absurd hbig (by decide)
    · rw [hnone] at hsome
      cases hsome
  | @added e i hloc hi =>
    by_cases hz : e.location = 0
    · refine iff_of_false (not_listOk_of_zero (i := i) rfl ?_) fun hn => hn ⟨hz, by rw [hi]; rfl⟩
      rw [addedAt_self]
      exact hz
    · exact iff_of_true ⟨i :: l, hl.added hi hz⟩ fun hn => hz hn.1
  | absent hn => exact iff_of_true ⟨l, hl⟩ trivial
  | removed heq hfirst =>
    subst heq
    exact iff_of_true ⟨_, hl.removed⟩ trivial
  | found => exact iff_of_true ⟨l, hl⟩ trivial
  | unsynced hn => exact iff_of_true ⟨l, hl⟩ trivial
  | synced hsrc hdst => exact iff_of_true ⟨l, hl.of_same (sameList_syncedTo _ _ _)⟩ trivial
  | passed => exact iff_of_true ⟨l, hl.of_same (sameList_ticks _ _)⟩ trivial

/-- A slot that is met along the list. -/
def Listed (σ : Blink) (i : Nat) : Prop := ∃ l, Linked σ.nextOf σ.listHead l ∧ i ∈ l

theorem Strung.listed_iff {l : List Nat} (h : Strung σ l) {i : Nat} : Listed σ i ↔ i ∈ l := by
  constructor
  · rintro ⟨l', hl', hi⟩
    rwa [h.linked.unique hl']
  · exact fun hi => ⟨l, h.linked, hi⟩

theorem not_listed_empty (video : Nat → UInt8) (i : Nat) : ¬ Listed (emptyBlink video) i := by
  rintro ⟨l, hl, hi⟩
  obtain rfl : l = [] := hl.unique rfl
  cases hi

/-- **When the blink list stays a list.** It is one as `main` leaves it, and the runs of any calls
in which it stays one are exactly those in which no slot is filled with an element at location 0. As
long as it is one, every call returns, and the slot an element is added in is not on the list. -/
theorem blink_list_iff (video : Nat → UInt8) (tr : List BlinkOp) (σ : Blink) :
    ListOk (emptyBlink video) ∧
    (Trace (fun σ op σ' => BlinkRuns σ op σ' ∧ ListOk σ') (emptyBlink video) tr σ ↔
      Trace (fun σ op σ' => BlinkRuns σ op σ' ∧ Clean σ op) (emptyBlink video) tr σ) ∧
    ∀ σ, ListOk σ → (∀ op, ∃ σ', BlinkRuns σ op σ') ∧
      ∀ i, mp1Malloc σ = some i → ¬ Listed σ i := by
  refine ⟨listOk_empty video, ?_, fun σ ⟨l, hl⟩ => ⟨hl.strung.runs, fun i hi hlisted => ?_⟩⟩
  · exact Trace.stays_iff (J := fun _ => True) (fun _ _ _ _ _ => trivial)
      (fun _ _ _ _ hI hr => listOk_step_iff hI hr) trivial (listOk_empty video)
  · exact hl.not_mem hi (hl.strung.listed_iff.mp hlisted)

/-- An element at the first cell of the screen. -/
def cornerElement : Element := ⟨0, 73, 77, 7, 6, 0, 0, none⟩

/-- Two elements added at location 0: the second is put into the slot of the first, which then names
itself, and a pass of the tasklet does not end. -/
theorem added_twice_at_zero :
    ∃ σ, Trace BlinkRuns (emptyBlink fun _ => 0) [.add cornerElement, .add cornerElement] σ ∧
      σ.listHead = some 0 ∧ σ.nextOf 0 = some 0 ∧ ¬ ListOk σ ∧
      ∀ fuel, mp1RtcTasklet σ fuel = none := by
  have hloop : ∀ fuel (σ : Blink), σ.nextOf 0 = some 0 → taskletLoop fuel σ (some 0) = none := by
    intro fuel
    induction fuel with
    | zero => exact fun _ _ => rfl
    | succ fuel ih =>
      intro σ hnext
      have htick := ((sameList_tick σ 0).next 0).trans hnext
      rw [taskletLoop, htick]
      exact ih _ htick
  refine ⟨_, .cons ⟨0, rfl⟩ (.single ⟨0, rfl⟩), rfl, rfl, not_listOk_of_zero rfl rfl, ?_⟩
  exact fun fuel => hloop fuel _ rfl

end MyOS.Programs
