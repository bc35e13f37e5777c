import Mathlib.Logic.Function.Basic
import Mathlib.Tactic.Common

/-!
# The 8259A interrupt controller

One chip, and two of them in cascade, in fully nested mode: lower lines go first, and while a line
is in service it holds back itself and the lines after it. Requests are edges: they stay in `irr`
until they are acknowledged.

* `Chip.command`, `Chip.data`: a byte written to the two ports. The initialisation words clear the
  masks, the requests and what is in service; afterwards the data port is the mask register, and the
  command port takes ends of interrupts, specific or not.
* `Chip.pick`: the line that interrupts. `Chip.pick_eq_some_iff`.
* `Pair`: master and slave. `Pair.pick`, `Pair.acknowledge`, `Pair.vector`.
* **`Pair.Idle.pick_eq_some_iff`**: with nothing in service the first line that is ready is taken,
  the lines of the slave standing where it is connected.

The rotations and the polled mode are left out.
-/

namespace MyOS.Machine

/-- What a chip takes the next byte of its data port for. -/
inductive PicMode where
  | icw2
  | icw3
  | icw4
  | ready
  deriving DecidableEq, Inhabited

/-- One chip: what the initialisation words have set up, the mask, the requests and the lines in
service. -/
structure Chip where
  mode : PicMode
  single : Bool
  needsIcw4 : Bool
  /-- The vector of line 0. -/
  base : Nat
  /-- The third word: the lines with a slave, or the line a slave is on. -/
  cascade : UInt8
  autoEoi : Bool
  imr : UInt8
  irr : Nat → Bool
  isr : Nat → Bool
  deriving Inhabited

/-- Bit `i` of a byte. -/
def bit (b : UInt8) (i : Nat) : Bool := b.toNat.testBit i

namespace Chip

/-- After the second word, or the third. -/
def nextMode (c : Chip) : PicMode := if c.needsIcw4 then .icw4 else .ready

/-- The first line in service. -/
def firstInService (c : Chip) : Option Nat := (List.range 8).find? c.isr

/-- A byte written to the command port. -/
def command (c : Chip) (b : UInt8) : Chip :=
  if bit b 4 then
    { c with
      mode := .icw2
      single := bit b 1
      needsIcw4 := bit b 0
      imr := 0
      irr := fun _ => false
      isr := fun _ => false
      autoEoi := false }
  else if bit b 3 then c
  else if b.toNat / 32 = 3 then { c with isr := Function.update c.isr (b.toNat % 8) false }
  else if b.toNat / 32 = 1 then
    match c.firstInService with
    | none => c
    | some i => { c with isr := Function.update c.isr i false }
  else c

/-- A byte written to the data port. -/
def data (c : Chip) (b : UInt8) : Chip :=
  match c.mode with
  | .icw2 =>
    { c with
      base := b.toNat / 8 * 8
      mode := if c.single then c.nextMode else .icw3 }
  | .icw3 =>
    { c with
      cascade := b
      mode := c.nextMode }
  | .icw4 =>
    { c with
      autoEoi := bit b 1
      mode := .ready }
  | .ready => { c with imr := b }

/-- A line is asserted. -/
def request (c : Chip) (i : Nat) : Chip := { c with irr := Function.update c.irr i true }

/-- A request that is not masked. -/
def asks (c : Chip) (i : Nat) : Bool := c.irr i && !bit c.imr i

/-- The line that interrupts: the first that asks, unless it or one before it is in service. -/
def pick (c : Chip) : Option Nat :=
  match (List.range 8).find? fun i => c.isr i || c.asks i with
  | none => none
  | some i => if c.isr i then none else some i

/-- The request of line `i` is taken into service. -/
def acknowledge (c : Chip) (i : Nat) : Chip :=
  { c with
    irr := Function.update c.irr i false
    isr := if c.autoEoi then c.isr else Function.update c.isr i true }

variable {c : Chip} {i : Nat}

theorem acknowledge_isr (h : c.autoEoi = false) (i : Nat) :
    (c.acknowledge i).isr = Function.update c.isr i true := by
  unfold acknowledge
  rw [h]
  rfl

/-- **Which line interrupts.** -/
theorem pick_eq_some_iff : c.pick = some i ↔ i < 8 ∧ c.isr i = false ∧ c.asks i = true ∧
    ∀ j < i, c.isr j = false ∧ c.asks j = false := by
  unfold pick
  constructor
  · intro h
    split at h
    · cases h
    · rename_i k hk
      split at h
      · cases h
      · rename_i hisr
        cases h
        obtain ⟨hor, hmem, hbefore⟩ := List.find?_range_eq_some.mp hk
        rw [Bool.not_eq_true] at hisr
        refine ⟨List.mem_range.mp hmem, hisr, by simpa [hisr] using hor, fun j hj => ?_⟩
        simpa using hbefore j hj
  · rintro ⟨hi, hisr, hasks, hbefore⟩
    have hfind : ((List.range 8).find? fun j => c.isr j || c.asks j) = some i := by
      refine List.find?_range_eq_some.mpr ⟨by simp [hasks], List.mem_range.mpr hi, fun j hj => ?_⟩
      simpa using hbefore j hj
    rw [hfind]
    simp [hisr]

/-- With nothing in service, the first line that asks interrupts. -/
theorem pick_idle (h : c.isr = fun _ => false) : c.pick = some i ↔
    i < 8 ∧ c.asks i = true ∧ ∀ j < i, c.asks j = false := by
  rw [pick_eq_some_iff, h]
  simp

theorem exists_pick (h : c.isr = fun _ => false) (hi : i < 8) (hasks : c.asks i = true) :
    ∃ j, c.pick = some j := by
  have hsome : ((List.range 8).find? fun j => c.isr j || c.asks j).isSome := by
    rw [List.find?_isSome]
    exact ⟨i, List.mem_range.mpr hi, by simp [hasks]⟩
  obtain ⟨j, hj⟩ := Option.isSome_iff_exists.mp hsome
  refine ⟨j, ?_⟩
  unfold pick
  rw [hj, h]
  rfl

end Chip

/-! ## Two chips -/

/-- A master and a slave. -/
structure Pair where
  master : Chip
  slave : Chip

namespace Pair

/-- The line of the master that the slave is on. -/
def cascadeLine (p : Pair) : Nat := p.slave.cascade.toNat % 8

/-- The slave is connected: both chips were told the same line. -/
def connected (p : Pair) : Bool := bit p.master.cascade p.cascadeLine

/-- The master with the request of the slave on its line. -/
def driven (p : Pair) : Chip :=
  if p.connected ∧ p.slave.pick.isSome then p.master.request p.cascadeLine else p.master

/-- The interrupt that is requested from the processor: 0 to 7 for the lines of the master, 8 to 15
for those of the slave. -/
def pick (p : Pair) : Option Nat :=
  match p.driven.pick with
  | none => none
  | some i => if p.connected ∧ i = p.cascadeLine then p.slave.pick.map (8 + ·) else some i

/-- The processor takes interrupt `n`. -/
def acknowledge (p : Pair) (n : Nat) : Pair :=
  if n < 8 then { p with master := p.master.acknowledge n }
  else
    { p with
      master := p.master.acknowledge p.cascadeLine
      slave := p.slave.acknowledge (n - 8) }

/-- The vector of interrupt `n`. -/
def vector (p : Pair) (n : Nat) : Nat :=
  if n < 8 then p.master.base + n else p.slave.base + (n - 8)

/-- A device asserts line `n`. -/
def request (p : Pair) (n : Nat) : Pair :=
  if n < 8 then { p with master := p.master.request n }
  else { p with slave := p.slave.request (n - 8) }

/-- The request of line `n`. -/
def irrAt (p : Pair) (n : Nat) : Bool := if n < 8 then p.master.irr n else p.slave.irr (n - 8)

/-- The mask of line `n`. -/
def imrAt (p : Pair) (n : Nat) : Bool :=
  if n < 8 then bit p.master.imr n else bit p.slave.imr (n - 8)

/-- Line `n` could interrupt: it asks, and a line of the slave gets through the master. -/
def ready (p : Pair) (n : Nat) : Bool :=
  p.irrAt n && !p.imrAt n && (n < 8 || !p.imrAt p.cascadeLine)

/-- The order of the lines of a pair: those of the slave stand where it is connected. -/
def rank (cascadeLine n : Nat) : Nat :=
  if n < 8 then if n < cascadeLine then n else n + 8 else cascadeLine + (n - 8)

theorem rank_inj {k n m : Nat} (hn : n < 16) (hm : m < 16) (h : rank k n = rank k m) : n = m := by
  unfold rank at h
  split at h <;> split at h <;> (try split at h) <;> (try split at h) <;> omega

/-- The slave is connected, with no device on its line, and nothing is in service. -/
structure Idle (p : Pair) : Prop where
  connected : p.connected = true
  noDevice : p.master.irr p.cascadeLine = false
  master : p.master.isr = fun _ => false
  slave : p.slave.isr = fun _ => false

variable {p : Pair} {n : Nat}

theorem cascadeLine_lt (p : Pair) : p.cascadeLine < 8 := Nat.mod_lt _ (by decide)

theorem Idle.driven_isr (h : p.Idle) : p.driven.isr = fun _ => false := by
  unfold driven
  split <;> exact h.master

/-- What the master sees: the line of the slave asks for it. -/
theorem Idle.driven_asks (h : p.Idle) (j : Nat) : p.driven.asks j =
    if j = p.cascadeLine then p.slave.pick.isSome && !p.imrAt p.cascadeLine
    else p.master.asks j := by
  unfold driven imrAt
  rw [if_pos p.cascadeLine_lt, h.connected]
  cases hs : p.slave.pick.isSome with
  | true =>
    rw [if_pos ⟨rfl, rfl⟩]
    unfold Chip.asks Chip.request
    by_cases hj : j = p.cascadeLine
    · simp [hj]
    · simp [hj]
  | false =>
    rw [if_neg (by simp)]
    by_cases hj : j = p.cascadeLine
    · rw [if_pos hj, hj]
      unfold Chip.asks
      rw [h.noDevice, Bool.false_and]
    · rw [if_neg hj]

theorem ready_of_lt (hn : n < 8) : p.ready n = p.master.asks n := by
  unfold ready irrAt imrAt Chip.asks
  simp [hn]

theorem ready_of_le (hn : 8 ≤ n) :
    p.ready n = (p.slave.asks (n - 8) && !p.imrAt p.cascadeLine) := by
  unfold ready irrAt imrAt Chip.asks
  simp [Nat.not_lt.mpr hn]

/-- The line that interrupts is ready, and no line before it is. -/
theorem Idle.of_pick (h : p.Idle) (hpick : p.pick = some n) :
    n < 16 ∧ n ≠ p.cascadeLine ∧ p.ready n = true ∧
      ∀ m < 16, m ≠ p.cascadeLine → p.ready m = true →
        rank p.cascadeLine n ≤ rank p.cascadeLine m := by
  have hk := p.cascadeLine_lt
  unfold pick at hpick
  split at hpick
  · cases hpick
  · rename_i i hi
    obtain ⟨hi8, hasks, hbefore⟩ := (Chip.pick_idle h.driven_isr).mp hi
    rw [h.driven_asks] at hasks
    -- a line of the master before `i` does not ask
    have hmaster : ∀ m < i, m ≠ p.cascadeLine → p.ready m = false := by
      intro m hm hmk
      rw [ready_of_lt (by omega), ← hbefore m hm, h.driven_asks, if_neg hmk]
    split at hpick
    · rename_i hik
      obtain ⟨j, hj, rfl⟩ := Option.map_eq_some_iff.mp hpick
      obtain ⟨hj8, hjasks, hjbefore⟩ := (Chip.pick_idle h.slave).mp hj
      rw [if_pos hik.2] at hasks
      have hopen : (!p.imrAt p.cascadeLine) = true := (Bool.and_eq_true_iff.mp hasks).2
      refine ⟨by omega, by omega, ?_, fun m hm hmk hready => ?_⟩
      · rw [ready_of_le (by omega), Nat.add_sub_cancel_left, hjasks, hopen]
        rfl
      · by_contra hlt
        unfold rank at hlt
        by_cases hm8 : m < 8
        · rw [if_pos hm8, if_neg (show ¬ 8 + j < 8 by omega)] at hlt
          split at hlt
          · rw [hmaster m (by omega) hmk] at hready
            cases hready
          · omega
        · rw [if_neg hm8, if_neg (show ¬ 8 + j < 8 by omega)] at hlt
          rw [ready_of_le (by omega), hjbefore (m - 8) (by omega)] at hready
          cases hready
    · rename_i hik
      obtain rfl := Option.some.inj hpick
      have hik : i ≠ p.cascadeLine := fun hik' => hik ⟨h.connected, hik'⟩
      rw [if_neg hik] at hasks
      refine ⟨by omega, hik, by rwa [ready_of_lt hi8], fun m hm hmk hready => ?_⟩
      by_contra hlt
      unfold rank at hlt
      rw [if_pos hi8] at hlt
      by_cases hm8 : m < 8
      · rw [if_pos hm8] at hlt
        have hmi : m < i := by
          split at hlt <;> split at hlt <;> omega
        rw [hmaster m hmi hmk] at hready
        cases hready
      · rw [if_neg hm8] at hlt
        -- the slave would have asked at its line, which is before `i`
        have hki : p.cascadeLine < i := by
          split at hlt <;> omega
        have hnone := hbefore _ hki
        rw [ready_of_le (by omega)] at hready
        obtain ⟨hask, hopen⟩ := Bool.and_eq_true_iff.mp hready
        obtain ⟨j, hj⟩ := Chip.exists_pick h.slave (by omega) hask
        rw [h.driven_asks, if_pos rfl, hj, hopen] at hnone
        cases hnone

theorem Idle.exists_pick (h : p.Idle) (hn : n < 16) (hnk : n ≠ p.cascadeLine)
    (hready : p.ready n = true) : ∃ m, p.pick = some m := by
  have hdriven : ∃ i, p.driven.pick = some i := by
    by_cases hn8 : n < 8
    · refine Chip.exists_pick h.driven_isr hn8 ?_
      rw [h.driven_asks, if_neg hnk, ← ready_of_lt hn8]
      exact hready
    · rw [ready_of_le (by omega)] at hready
      obtain ⟨hask, hopen⟩ := Bool.and_eq_true_iff.mp hready
      obtain ⟨j, hj⟩ := Chip.exists_pick h.slave (by omega) hask
      refine Chip.exists_pick h.driven_isr p.cascadeLine_lt ?_
      rw [h.driven_asks, if_pos rfl, hj, hopen]
      rfl
  obtain ⟨i, hi⟩ := hdriven
  unfold pick
  rw [hi]
  by_cases hik : p.connected = true ∧ i = p.cascadeLine
  · have hasks := ((Chip.pick_idle h.driven_isr).mp hi).2.1
    rw [h.driven_asks, if_pos hik.2] at hasks
    obtain ⟨j, hj⟩ := Option.isSome_iff_exists.mp (Bool.and_eq_true_iff.mp hasks).1
    exact ⟨8 + j, by simp only [if_pos hik, hj, Option.map_some]⟩
  · exact ⟨i, by simp only [if_neg hik]⟩

/-- **Which interrupt of a pair is taken**, with nothing in service: the first that is ready. -/
theorem Idle.pick_eq_some_iff (h : p.Idle) : p.pick = some n ↔
    n < 16 ∧ n ≠ p.cascadeLine ∧ p.ready n = true ∧
      ∀ m < 16, m ≠ p.cascadeLine → p.ready m = true →
        rank p.cascadeLine n ≤ rank p.cascadeLine m := by
  refine ⟨h.of_pick, ?_⟩
  rintro ⟨hn, hnk, hready, hfirst⟩
  obtain ⟨m, hpick⟩ := h.exists_pick hn hnk hready
  obtain ⟨hm, hmk, hmready, hmfirst⟩ := h.of_pick hpick
  have hrank := Nat.le_antisymm (hfirst m hm hmk hmready) (hmfirst n hn hnk hready)
  rw [rank_inj hn hm hrank]
  exact hpick

/-! ### Requests and acknowledgements -/

theorem irrAt_request (p : Pair) (n m : Nat) :
    (p.request n).irrAt m = (p.irrAt m || decide (m = n)) := by
  unfold request irrAt Chip.request
  by_cases hn : n < 8 <;> by_cases hm : m < 8
  · by_cases hmn : m = n <;> simp [hn, hm, hmn]
  · simp [hn, hm, show m ≠ n by omega]
  · simp [hn, hm, show m ≠ n by omega]
  · by_cases hmn : m = n
    · simp [hn, hmn]
    · simp [hn, hm, hmn, Function.update_of_ne (show m - 8 ≠ n - 8 by omega)]

theorem irrAt_acknowledge (h : p.master.irr p.cascadeLine = false) (n m : Nat) :
    (p.acknowledge n).irrAt m = (p.irrAt m && !decide (m = n)) := by
  unfold acknowledge irrAt Chip.acknowledge
  by_cases hn : n < 8 <;> by_cases hm : m < 8
  · by_cases hmn : m = n <;> simp [hn, hm, hmn]
  · simp [hn, hm, show m ≠ n by omega]
  · by_cases hmk : m = p.cascadeLine
    · simp [hn, p.cascadeLine_lt, hmk, h]
    · simp [hn, hm, hmk, show m ≠ n by omega]
  · by_cases hmn : m = n
    · simp [hn, hmn]
    · simp [hn, hm, hmn, Function.update_of_ne (show m - 8 ≠ n - 8 by omega)]

end Pair

end MyOS.Machine
