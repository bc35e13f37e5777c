import MyOS.Kernel.I8259
import MyOS.Machine.Pic

/-!
# Interrupts, from the line to the handler

The two controllers behind the bytes that `i8259.c` sends, the interrupt descriptor table of
`IDT_init` (`idt.c:173-231`), and the handlers, of which only the end matters here: those of the
keyboard and the clock send their end of interrupt and then enable interrupts (`keyboard.c:480-493`,
`rtc.c:38-47`), and the others never return.

* `i8259Init`, `sendEoi`: the bytes (`i8259.c:15-28`, `218-229`). `outb`: where they go.
* `hardwareMask`: the mask of a controller. `i8259_init` clears it, and the shadow mask gets there
  with the first call of `enable_irq` or `disable_irq`.
* `idtInit`: which handler a vector has. Vector 1 gets the one of vector 8, and the vectors 15 and
  20 to 31 get none.
* `Irqs`, `IrqStep`: the controllers, the processor's interrupt flag and the handler that has not
  yet sent its end of interrupt, under any requests of the devices.
* `Open`, `Pending`, `First`, `Enabled`, `UnderWay`: what a history says, with no controller.
* `Explained`: the state is what the history says. `Explained.step` is one event, `explained_run` a
  run.
* **`interrupts_served`**: in every run after `i8259_init` the history decides what can happen next.
-/

namespace MyOS.Kernel

open MyOS.Machine

/-! ## What is sent -/

/-- `i8259_init()`. -/
def i8259Init (p : Pic) : Pic :=
  { p with outs := p.outs ++
      [(master8259Port, 0x11), (master8259Port + 1, 0x20), (master8259Port + 1, 0x04),
        (master8259Port + 1, 0x01), (slave8259Port, 0x11), (slave8259Port + 1, 0x28),
        (slave8259Port + 1, 0x02), (slave8259Port + 1, 0x01)] }

/-- `send_eoi(irq_num)`. -/
def sendEoi (p : Pic) (irqNum : UInt32) : Pic :=
  if 15 < irqNum.toNat then p
  else if irqNum.toNat < 8 then
    { p with outs := p.outs ++ [(master8259Port, 0x60 ||| irqNum.toUInt8)] }
  else
    { p with outs := p.outs ++
        [(slave8259Port, 0x60 ||| (irqNum - 8).toUInt8), (master8259Port, 0x60 ||| 2)] }

/-- `outb(data, port)`, for the ports of the controllers. -/
def outb (chips : Pair) (o : Nat × UInt8) : Pair :=
  if o.1 = master8259Port then { chips with master := chips.master.command o.2 }
  else if o.1 = master8259Port + 1 then { chips with master := chips.master.data o.2 }
  else if o.1 = slave8259Port then { chips with slave := chips.slave.command o.2 }
  else if o.1 = slave8259Port + 1 then { chips with slave := chips.slave.data o.2 }
  else chips

/-- The controllers after some bytes. -/
def sent (chips : Pair) (outs : List (Nat × UInt8)) : Pair := outs.foldl outb chips

/-- What `i8259_init` leaves of a chip, with its vectors from `base` on. -/
def initialised (c : Chip) (base : Nat) (cascade : UInt8) : Chip :=
  { c with
    mode := .ready
    single := false
    needsIcw4 := true
    base := base
    cascade := cascade
    autoEoi := false
    imr := 0
    irr := fun _ => false
    isr := fun _ => false }

/-- **`i8259_init`**, whatever the controllers held. -/
theorem sent_i8259Init (chips : Pair) (p : Pic) (hp : p.outs = []) :
    sent chips (i8259Init p).outs =
      ⟨initialised chips.master 32 0x04, initialised chips.slave 40 0x02⟩ := by
  unfold i8259Init
  rw [hp]
  rfl

/-! ## Masks -/

/-- A mask that is sent to a chip that is ready. -/
theorem data_of_ready {c : Chip} (h : c.mode = .ready) (b : UInt8) :
    c.data b = { c with imr := b } := by
  unfold Chip.data
  rw [h]

/-- The mask of a chip: 0 until a call is made for one of its lines, then the shadow mask. -/
def hardwareMask (mine : Nat → Bool) (calls : List IrqCall) (shadow : UInt8) : UInt8 :=
  if ∃ c ∈ calls, mine c.line = true then shadow else 0

/-- The lines of the master. -/
def ofMaster (line : Nat) : Bool := line < 8

/-- The lines of the slave. -/
def ofSlave (line : Nat) : Bool := 8 ≤ line ∧ line < 16

theorem hardwareMask_snoc (mine : Nat → Bool) (calls : List IrqCall) (c : IrqCall)
    (shadow : UInt8) : hardwareMask mine (calls ++ [c]) shadow =
      if mine c.line then shadow else hardwareMask mine calls shadow := by
  unfold hardwareMask
  by_cases hc : mine c.line = true
  · rw [if_pos ⟨c, by simp, hc⟩, if_pos hc]
  · rw [if_neg hc]
    have hiff : (∃ c' ∈ calls ++ [c], mine c'.line = true) ↔ ∃ c' ∈ calls, mine c'.line = true := by
      constructor
      · rintro ⟨c', hmem, h⟩
        rcases List.mem_append.mp hmem with hmem | hmem
        · exact ⟨c', hmem, h⟩
        · obtain rfl := List.mem_singleton.mp hmem
          exact absurd h hc
      · rintro ⟨c', hmem, h⟩
        exact ⟨c', List.mem_append_left _ hmem, h⟩
    simp only [hiff]

/-- What each call sends. -/
theorem apply_outs (p : Pic) (c : IrqCall) : (c.apply p).outs = p.outs ++
    (if ofMaster c.line then [(master8259Port + 1, (c.apply p).masterMask)]
      else if ofSlave c.line then [(slave8259Port + 1, (c.apply p).slaveMask)] else []) := by
  rw [IrqCall.apply_eq]
  unfold ofMaster ofSlave
  by_cases h8 : c.line < 8
  · simp [h8, Pic.writeMaster]
  · by_cases h16 : c.line < 16
    · simp [h8, h16, Pic.writeSlave, Nat.le_of_not_lt h8]
    · simp [h8, h16]

theorem apply_masterMask (p : Pic) (c : IrqCall) : (c.apply p).masterMask =
    if ofMaster c.line then c.update c.line p.masterMask else p.masterMask := by
  rw [IrqCall.apply_eq]
  unfold ofMaster
  by_cases h8 : c.line < 8
  · simp [h8, Pic.writeMaster]
  · by_cases h16 : c.line < 16 <;> simp [h8, h16, Pic.writeSlave]

theorem apply_slaveMask (p : Pic) (c : IrqCall) : (c.apply p).slaveMask =
    if ofSlave c.line then c.update (c.line - 8) p.slaveMask else p.slaveMask := by
  rw [IrqCall.apply_eq]
  unfold ofSlave
  by_cases h8 : c.line < 8
  · simp [h8, Pic.writeMaster]
  · by_cases h16 : c.line < 16 <;> simp [h8, h16, Pic.writeSlave, Nat.le_of_not_lt h8]

/-- What a call does to controllers that are ready. -/
theorem sent_apply {chips : Pair} {p : Pic} (c : IrqCall) (hmaster : chips.master.mode = .ready)
    (hslave : chips.slave.mode = .ready) (hp : p.outs = []) : sent chips (c.apply p).outs =
      ⟨{ chips.master with
          imr := if ofMaster c.line then (c.apply p).masterMask else chips.master.imr },
        { chips.slave with
          imr := if ofSlave c.line then (c.apply p).slaveMask else chips.slave.imr }⟩ := by
  rw [apply_outs, hp, List.nil_append]
  by_cases hm : ofMaster c.line = true
  · have hs : ofSlave c.line = false := by
      unfold ofMaster at hm
      unfold ofSlave
      simp only [decide_eq_true_eq] at hm
      simp only [decide_eq_false_iff_not]
      omega
    rw [if_pos hm, if_pos hm, hs]
    change ({ chips with master := chips.master.data _ } : Pair) = _
    rw [data_of_ready hmaster]
    rfl
  · rw [if_neg hm, if_neg hm]
    by_cases hs : ofSlave c.line = true
    · rw [if_pos hs, if_pos hs]
      change ({ chips with slave := chips.slave.data _ } : Pair) = _
      rw [data_of_ready hslave]
    · rw [if_neg hs, if_neg hs]
      rfl

/-- A call was made for a line of the controller that line `i` is on. -/
def Touched (calls : List IrqCall) (i : Nat) : Prop :=
  ∃ c ∈ calls, c.line < 16 ∧ (c.line < 8 ↔ i < 8)

theorem bit_hardwareMask (mine : Nat → Bool) (calls : List IrqCall) (shadow : UInt8) (i : Nat) :
    bit (hardwareMask mine calls shadow) i = false ↔
      (¬ ∃ c ∈ calls, mine c.line = true) ∨ bit shadow i = false := by
  unfold hardwareMask
  split
  · rename_i h
    exact ⟨Or.inr, fun h' => h'.resolve_left (not_not_intro h)⟩
  · rename_i h
    exact iff_of_true (Nat.zero_testBit i) (Or.inl h)

/-! ## The descriptor table -/

/-- The entry points of `handler.S`. -/
inductive Helper where
  | excepDE | excepDF | excepNMI | excepBP | excepOF | excepBRE | excepIo | excepDNA | excepCS
  | excepITSS | excepSegNP | excepSF | excepGP | excepPF | excepFP | excepAC | excepMC | excepSFP
  | undefInterrupt | keyboard | rtc | asmLinkage
  deriving DecidableEq

/-- An entry of the table: `reserved3` makes it a trap gate, which leaves the interrupt flag alone.
`none` is an offset that `IDT_init` does not set. -/
structure Gate where
  reserved3 : Bool
  dpl : Nat
  handler : Option Helper
  deriving DecidableEq

/-- The entry the loop of `IDT_init` makes for `c`. -/
def loopGate (c : Nat) : Gate where
  reserved3 := c < 32
  dpl := if c = 0x80 then 3 else 0
  handler := if 32 ≤ c then some .undefInterrupt else none

/-- The `SET_IDT_ENTRY`s behind the loop. -/
def idtEntries : List (Nat × Helper) :=
  [(0, .excepDE), (1, .excepDF), (2, .excepNMI), (3, .excepBP), (4, .excepOF), (5, .excepBRE),
    (6, .excepIo), (7, .excepDNA), (8, .excepDF), (9, .excepCS), (10, .excepITSS),
    (11, .excepSegNP), (12, .excepSF), (13, .excepGP), (14, .excepPF), (16, .excepFP),
    (17, .excepAC), (18, .excepMC), (19, .excepSFP), (33, .keyboard), (40, .rtc),
    (0x80, .asmLinkage)]

/-- `IDT_init()`: the table of the 256 vectors. -/
def idtInit : Nat → Gate :=
  idtEntries.foldl (fun idt e => Function.update idt e.1 { idt e.1 with handler := some e.2 })
    loopGate

/-- The line whose end of interrupt a handler sends; the others never return. -/
def Helper.irq : Helper → Option UInt32
  | keyboard => some 1
  | rtc => some 8
  | _ => none

/-- Only the keyboard's line and the clock's lead to a handler that returns. -/
theorem idtInit_irq : ∀ n < 16, (idtInit (32 + n)).handler =
    some (if n = 1 then .keyboard else if n = 8 then .rtc else .undefInterrupt) ∧
    (idtInit (32 + n)).reserved3 = false := by
  decide

/-! ## The system -/

/-- The shadow masks, the controllers, the interrupt flag, and the handler that is under way: it has
been entered and has not yet sent its end of interrupt. -/
structure Irqs where
  masks : Pic
  chips : Pair
  flag : Bool
  running : Option Helper

/-- A call of `i8259.c`: what it sends gets to the controllers. -/
def Irqs.call (s : Irqs) (f : Pic → Pic) : Irqs :=
  let p := f { s.masks with outs := [] }
  { s with
    masks := p
    chips := sent s.chips p.outs }

/-- What can happen: a device raises its line, the processor enters a gate, a handler finishes, the
interrupt flag changes, a line is enabled or disabled. -/
inductive IrqEvent where
  | raise (line : Nat)
  | enter (vector : Nat)
  | finish
  | setFlag (flag : Bool)
  | call (c : IrqCall)
  deriving DecidableEq

/-- **One event.** The slave is on line 2, so no device is. While a handler is under way it is the
one that runs; otherwise the code that runs may disable and enable interrupts, or single lines. -/
inductive IrqStep (s : Irqs) : IrqEvent → Irqs → Prop
  | raise {n : Nat} (hn : n < 16) (h2 : n ≠ 2) :
      IrqStep s (.raise n) { s with chips := s.chips.request n }
  | enter {n : Nat} {h : Helper} (hflag : s.flag = true) (hpick : s.chips.pick = some n)
      (hidt : (idtInit (s.chips.vector n)).handler = some h) :
      IrqStep s (.enter (s.chips.vector n))
        { s with
          chips := s.chips.acknowledge n
          flag := (idtInit (s.chips.vector n)).reserved3
          running := some h }
  | finish {h : Helper} {irqNum : UInt32} (hrun : s.running = some h) (hirq : h.irq = some irqNum) :
      IrqStep s .finish
        { s.call fun p => sendEoi p irqNum with
          flag := true
          running := none }
  | setFlag {flag : Bool} (hrun : s.running = none) :
      IrqStep s (.setFlag flag) { s with flag := flag }
  | call {c : IrqCall} (hrun : s.running = none) :
      IrqStep s (.call c) (s.call fun p => c.apply p)

/-- After `i8259_init`, on controllers that held anything: `boot.S:23` has disabled interrupts. -/
def initIrqs (chips : Pair) : Irqs :=
  Irqs.call ⟨bootPic, chips, false, none⟩ i8259Init

/-! ## What a history says -/

/-- The call of `enable_irq` or `disable_irq` that an event is. -/
def IrqEvent.irqCall : IrqEvent → Option IrqCall
  | call c => some c
  | _ => none

/-- The calls of `enable_irq` and `disable_irq`. -/
def callsOf (tr : List IrqEvent) : List IrqCall := tr.filterMap IrqEvent.irqCall

/-- Line `i` is open: its last call was `enable_irq`, or no call has been made yet for a line of its
controller. -/
def Open (tr : List IrqEvent) (i : Nat) : Prop :=
  ¬ Touched (callsOf tr) i ∨ LastEnabled i (callsOf tr)

/-- Line `i` was asserted and its handler has not been entered since. -/
def Pending (tr : List IrqEvent) (i : Nat) : Prop :=
  Since (· = .raise i) (· = .enter (32 + i)) tr

/-- Line `i` is pending and open, through the master for a line of the slave. -/
def Ready (tr : List IrqEvent) (i : Nat) : Prop :=
  Pending tr i ∧ Open tr i ∧ (8 ≤ i → Open tr 2)

/-- The line whose turn it is: 0 and 1 go first, then those of the slave, then 3 to 7. -/
def First (tr : List IrqEvent) (i : Nat) : Prop :=
  (i < 16 ∧ i ≠ 2 ∧ Ready tr i) ∧ ∀ j < 16, j ≠ 2 → Ready tr j → Pair.rank 2 i ≤ Pair.rank 2 j

/-- Interrupts are enabled: by the code that runs, or at the end of a handler. -/
def Enabled (tr : List IrqEvent) : Prop :=
  Since (fun e => e = .setFlag true ∨ e = .finish)
    (fun e => e = .setFlag false ∨ ∃ v, e = .enter v) tr

/-- The handler of the keyboard or the clock has been entered and has not ended. -/
def UnderWay (tr : List IrqEvent) : Prop :=
  Since (fun e => e = .enter 33 ∨ e = .enter 40) (· = .finish) tr

section Snoc

variable {tr : List IrqEvent} {i n : Nat}

theorem callsOf_snoc (tr : List IrqEvent) (e : IrqEvent) :
    callsOf (tr ++ [e]) = callsOf tr ++ e.irqCall.toList := by
  unfold callsOf
  rw [List.filterMap_append]
  cases e <;> rfl

theorem callsOf_other {e : IrqEvent} (h : e.irqCall = none) : callsOf (tr ++ [e]) = callsOf tr := by
  rw [callsOf_snoc, h]
  exact List.append_nil _

theorem pending_raise : Pending (tr ++ [.raise n]) i ↔ Pending tr i ∨ i = n := by
  unfold Pending
  rw [since_snoc]
  simp [or_comm, eq_comm]

theorem pending_enter : Pending (tr ++ [.enter (32 + n)]) i ↔ Pending tr i ∧ i ≠ n := by
  unfold Pending
  rw [since_snoc]
  simp [eq_comm]

theorem exists_enter_snoc {v : Nat} {P : Nat → Prop} :
    (∃ w, .enter w ∈ tr ++ [.enter v] ∧ P w) ↔ (∃ w, .enter w ∈ tr ∧ P w) ∨ P v := by
  simp [or_and_right, exists_or]

theorem pending_other {e : IrqEvent} (hraise : ∀ n, e ≠ .raise n) (henter : ∀ v, e ≠ .enter v) :
    Pending (tr ++ [e]) i ↔ Pending tr i := by
  unfold Pending
  rw [since_snoc]
  simp [hraise, henter]

end Snoc

/-! ## The invariant -/

/-- The controllers as `i8259_init` sets them up, with no device on the slave's line. -/
structure Configured (p : Pair) : Prop where
  masterMode : p.master.mode = .ready
  masterBase : p.master.base = 32
  masterCascade : p.master.cascade = 0x04
  masterAutoEoi : p.master.autoEoi = false
  slaveMode : p.slave.mode = .ready
  slaveBase : p.slave.base = 40
  slaveCascade : p.slave.cascade = 0x02
  slaveAutoEoi : p.slave.autoEoi = false
  noDevice : p.master.irr 2 = false

namespace Configured

variable {p : Pair} {n : Nat}

theorem cascadeLine (h : Configured p) : p.cascadeLine = 2 := by
  unfold Pair.cascadeLine
  rw [h.slaveCascade]
  rfl

theorem idle (h : Configured p) (hmaster : p.master.isr = fun _ => false)
    (hslave : p.slave.isr = fun _ => false) : p.Idle := by
  refine ⟨?_, by rw [h.cascadeLine, h.noDevice], hmaster, hslave⟩
  unfold Pair.connected
  rw [h.cascadeLine, h.masterCascade]
  decide

theorem vector (h : Configured p) (n : Nat) : p.vector n = 32 + n := by
  unfold Pair.vector
  rw [h.masterBase, h.slaveBase]
  split <;> omega

theorem request (h : Configured p) (h2 : n ≠ 2) : Configured (p.request n) := by
  have hirr : (p.request n).irrAt 2 = false := by
    rw [Pair.irrAt_request]
    simp [Pair.irrAt, h.noDevice, h2.symm]
  unfold Pair.request at hirr ⊢
  by_cases hn : n < 8
  · rw [if_pos hn] at hirr ⊢
    exact ⟨h.masterMode, h.masterBase, h.masterCascade, h.masterAutoEoi, h.slaveMode, h.slaveBase,
      h.slaveCascade, h.slaveAutoEoi, hirr⟩
  · rw [if_neg hn] at hirr ⊢
    exact ⟨h.masterMode, h.masterBase, h.masterCascade, h.masterAutoEoi, h.slaveMode, h.slaveBase,
      h.slaveCascade, h.slaveAutoEoi, hirr⟩

theorem irrAt_acknowledge (h : Configured p) (n m : Nat) :
    (p.acknowledge n).irrAt m = (p.irrAt m && !decide (m = n)) :=
  Pair.irrAt_acknowledge (by rw [h.cascadeLine, h.noDevice]) n m

theorem acknowledge (h : Configured p) (n : Nat) : Configured (p.acknowledge n) := by
  have hirr : (p.acknowledge n).irrAt 2 = false := by
    rw [h.irrAt_acknowledge]
    simp [Pair.irrAt, h.noDevice]
  unfold Pair.acknowledge at hirr ⊢
  by_cases hn : n < 8
  · rw [if_pos hn] at hirr ⊢
    exact ⟨h.masterMode, h.masterBase, h.masterCascade, h.masterAutoEoi, h.slaveMode, h.slaveBase,
      h.slaveCascade, h.slaveAutoEoi, hirr⟩
  · rw [if_neg hn] at hirr ⊢
    exact ⟨h.masterMode, h.masterBase, h.masterCascade, h.masterAutoEoi, h.slaveMode, h.slaveBase,
      h.slaveCascade, h.slaveAutoEoi, hirr⟩

end Configured

/-- Lines of a chip with only `i` in service. -/
def only (i : Nat) : Nat → Bool := Function.update (fun _ => false) i true

theorem update_only (i : Nat) : Function.update (only i) i false = fun _ => false := by
  unfold only
  rw [Function.update_idem]
  exact Function.update_eq_self i _

/-- **What is in service belongs to the handler that is under way**, and interrupts are disabled
until it ends. -/
structure Served (s : Irqs) : Prop where
  configured : Configured s.chips
  idle : s.running = none → s.chips.Idle
  busy : ∀ h, s.running = some h → s.flag = false ∧
    ((h = .keyboard ∧ s.chips.master.isr = only 1 ∧ s.chips.slave.isr = fun _ => false) ∨
      (h = .rtc ∧ s.chips.master.isr = only 2 ∧ s.chips.slave.isr = only 0) ∨
      h = .undefInterrupt)

/-- The shadow masks and the controllers' masks, after some calls. -/
structure Masked (calls : List IrqCall) (s : Irqs) : Prop where
  masterMask : s.masks.masterMask = (afterCalls calls).masterMask
  slaveMask : s.masks.slaveMask = (afterCalls calls).slaveMask
  masterImr : s.chips.master.imr = hardwareMask ofMaster calls s.masks.masterMask
  slaveImr : s.chips.slave.imr = hardwareMask ofSlave calls s.masks.slaveMask

/-- **The state is what the history says.** -/
structure Explained (tr : List IrqEvent) (s : Irqs) : Prop where
  served : Served s
  masked : Masked (callsOf tr) s
  flag : s.flag = true ↔ Enabled tr
  pending : ∀ i, i ≠ 2 → (s.chips.irrAt i = true ↔ Pending tr i)
  underWay : s.running = some .keyboard ∨ s.running = some .rtc ↔ UnderWay tr
  undefined : s.running = some .undefInterrupt ↔ ∃ v, .enter v ∈ tr ∧ v ≠ 33 ∧ v ≠ 40

section Step

variable {s : Irqs} {tr : List IrqEvent} {calls : List IrqCall} {i n : Nat} {helper : Helper}

theorem Served.running_none (h : Served s) (hflag : s.flag = true) : s.running = none := by
  cases hrun : s.running with
  | none => rfl
  | some helper =>
    have := (h.busy helper hrun).1
    rw [hflag] at this
    cases this

/-! ### Masks -/

theorem Masked.call (h : Masked calls s) (hc : Configured s.chips) (c : IrqCall) :
    Masked (calls ++ [c]) (s.call fun p => c.apply p) := by
  have hsent := sent_apply (p := { s.masks with outs := [] }) c hc.masterMode hc.slaveMode rfl
  refine ⟨?_, ?_, ?_, ?_⟩
  · rw [afterCalls_snoc, apply_masterMask, ← h.masterMask]
    exact apply_masterMask _ c
  · rw [afterCalls_snoc, apply_slaveMask, ← h.slaveMask]
    exact apply_slaveMask _ c
  · rw [hardwareMask_snoc]
    change (sent s.chips _).master.imr = _
    rw [hsent]
    by_cases hm : ofMaster c.line = true
    · rw [if_pos hm, if_pos hm]
      rfl
    · rw [if_neg hm, if_neg hm]
      refine h.masterImr.trans ?_
      congr 1
      exact ((apply_masterMask { s.masks with outs := [] } c).trans (if_neg hm)).symm
  · rw [hardwareMask_snoc]
    change (sent s.chips _).slave.imr = _
    rw [hsent]
    by_cases hs : ofSlave c.line = true
    · rw [if_pos hs, if_pos hs]
      rfl
    · rw [if_neg hs, if_neg hs]
      refine h.slaveImr.trans ?_
      congr 1
      exact ((apply_slaveMask { s.masks with outs := [] } c).trans (if_neg hs)).symm

theorem Masked.frame {s' : Irqs} (h : Masked calls s)
    (hmaster : s'.masks.masterMask = s.masks.masterMask)
    (hslave : s'.masks.slaveMask = s.masks.slaveMask)
    (hmimr : s'.chips.master.imr = s.chips.master.imr)
    (hsimr : s'.chips.slave.imr = s.chips.slave.imr) : Masked calls s' := by
  refine ⟨hmaster.trans h.masterMask, hslave.trans h.slaveMask, ?_, ?_⟩
  · rw [hmimr, hmaster]
    exact h.masterImr
  · rw [hsimr, hslave]
    exact h.slaveImr

/-- Which lines are open in the controllers. -/
theorem Masked.imrAt (h : Masked calls s) (hi : i < 16) :
    s.chips.imrAt i = false ↔ ¬ Touched calls i ∨ LastEnabled i calls := by
  rw [← mask_afterCalls_iff calls hi, getLsbD_mask, ← h.masterMask, ← h.slaveMask]
  unfold Pair.imrAt Touched
  rw [h.masterImr, h.slaveImr]
  by_cases h8 : i < 8
  · have hmine : ∀ n, ofMaster n = true ↔ n < 16 ∧ (n < 8 ↔ i < 8) := by
      intro n
      unfold ofMaster
      rw [decide_eq_true_eq]
      omega
    rw [if_pos h8, if_pos h8, bit_hardwareMask]
    simp only [hmine]
    rfl
  · have hmine : ∀ n, ofSlave n = true ↔ n < 16 ∧ (n < 8 ↔ i < 8) := by
      intro n
      unfold ofSlave
      rw [decide_eq_true_eq]
      omega
    rw [if_neg h8, if_neg h8, bit_hardwareMask]
    simp only [hmine]
    rfl

/-! ### Ends of interrupts -/

/-- What the end of interrupt of the keyboard does to the controllers. -/
theorem sent_eoi_keyboard (chips : Pair) (p : Pic) (hp : p.outs = []) :
    sent chips (sendEoi p 1).outs = { chips with master :=
      { chips.master with isr := Function.update chips.master.isr 1 false } } := by
  have houts : (sendEoi p 1).outs = [(master8259Port, 0x61)] := by
    change p.outs ++ [(master8259Port, 0x61)] = _
    rw [hp, List.nil_append]
  rw [houts]
  rfl

/-- And that of the clock, on both. -/
theorem sent_eoi_rtc (chips : Pair) (p : Pic) (hp : p.outs = []) :
    sent chips (sendEoi p 8).outs =
      ⟨{ chips.master with isr := Function.update chips.master.isr 2 false },
        { chips.slave with isr := Function.update chips.slave.isr 0 false }⟩ := by
  have houts : (sendEoi p 8).outs = [(slave8259Port, 0x60), (master8259Port, 0x62)] := by
    change p.outs ++ [(slave8259Port, 0x60), (master8259Port, 0x62)] = _
    rw [hp, List.nil_append]
  rw [houts]
  rfl

/-- **A handler ends**: nothing is in service any more, and nothing else has changed. -/
theorem Served.finish (h : Served s) {irqNum : UInt32} (hrun : s.running = some helper)
    (hirq : helper.irq = some irqNum) :
    (helper = .keyboard ∨ helper = .rtc) ∧
      ∃ master slave, (s.call fun p => sendEoi p irqNum).chips =
        ⟨{ s.chips.master with isr := master }, { s.chips.slave with isr := slave }⟩ ∧
        master = (fun _ => false) ∧ slave = fun _ => false := by
  rcases (h.busy helper hrun).2 with ⟨rfl, hmaster, hslave⟩ | ⟨rfl, hmaster, hslave⟩ | rfl
  · obtain rfl := Option.some.inj hirq
    refine ⟨Or.inl rfl, _, _, sent_eoi_keyboard s.chips _ rfl, ?_, hslave⟩
    rw [hmaster, update_only]
  · obtain rfl := Option.some.inj hirq
    refine ⟨Or.inr rfl, _, _, sent_eoi_rtc s.chips _ rfl, ?_, ?_⟩
    · rw [hmaster, update_only]
    · rw [hslave, update_only]
  · cases hirq

/-! ### Entering -/

/-- **A handler is entered**, for the line that is picked. -/
theorem Served.enter (h : Served s) (hflag : s.flag = true) (hpick : s.chips.pick = some n)
    (hidt : (idtInit (s.chips.vector n)).handler = some helper) :
    n < 16 ∧ n ≠ 2 ∧ (idtInit (s.chips.vector n)).reserved3 = false ∧
      helper = if n = 1 then .keyboard else if n = 8 then .rtc else .undefInterrupt := by
  have hidle := h.idle (h.running_none hflag)
  obtain ⟨hn, hne, -⟩ := hidle.pick_eq_some_iff.mp hpick
  obtain ⟨hhandler, hgate⟩ := idtInit_irq n hn
  rw [h.configured.vector, hhandler] at hidt
  rw [h.configured.cascadeLine] at hne
  rw [h.configured.vector]
  exact ⟨hn, hne, hgate, (Option.some.inj hidt).symm⟩

/-- What the keyboard's interrupt leaves in service. -/
theorem acknowledge_keyboard {p : Pair} (h : Configured p) (h0 : p.Idle) :
    (p.acknowledge 1).master.isr = only 1 ∧ (p.acknowledge 1).slave.isr = fun _ => false := by
  refine ⟨?_, h0.slave⟩
  change (p.master.acknowledge 1).isr = only 1
  rw [Chip.acknowledge_isr h.masterAutoEoi, h0.master]
  rfl

/-- And the clock's, through the slave. -/
theorem acknowledge_rtc {p : Pair} (h : Configured p) (h0 : p.Idle) :
    (p.acknowledge 8).master.isr = only 2 ∧ (p.acknowledge 8).slave.isr = only 0 := by
  change (p.master.acknowledge p.cascadeLine).isr = only 2 ∧ (p.slave.acknowledge 0).isr = only 0
  rw [h.cascadeLine, Chip.acknowledge_isr h.masterAutoEoi, Chip.acknowledge_isr h.slaveAutoEoi,
    h0.master, h0.slave]
  exact ⟨rfl, rfl⟩

theorem imr_acknowledge (p : Pair) (n : Nat) : (p.acknowledge n).master.imr = p.master.imr ∧
    (p.acknowledge n).slave.imr = p.slave.imr := by
  unfold Pair.acknowledge
  split <;> exact ⟨rfl, rfl⟩

theorem request_frame (p : Pair) (n : Nat) :
    ((p.request n).master.isr = p.master.isr ∧ (p.request n).slave.isr = p.slave.isr) ∧
      (p.request n).master.imr = p.master.imr ∧ (p.request n).slave.imr = p.slave.imr := by
  unfold Pair.request
  split <;> exact ⟨⟨rfl, rfl⟩, rfl, rfl⟩

/-! ### One event -/

theorem explained_init (chips : Pair) : Explained [] (initIrqs chips) := by
  have hchips : (initIrqs chips).chips =
      ⟨initialised chips.master 32 0x04, initialised chips.slave 40 0x02⟩ :=
    sent_i8259Init chips { bootPic with outs := [] } rfl
  have hconf : Configured (initIrqs chips).chips := by
    rw [hchips]
    exact ⟨rfl, rfl, rfl, rfl, rfl, rfl, rfl, rfl, rfl⟩
  refine ⟨⟨hconf, fun _ => hconf.idle ?_ ?_, nofun⟩, ⟨rfl, rfl, ?_, ?_⟩, ?_, fun i _ => ?_, ?_, ?_⟩
  · rw [hchips]
    rfl
  · rw [hchips]
    rfl
  · rw [hchips]
    exact (if_neg (by simp [callsOf])).symm
  · rw [hchips]
    exact (if_neg (by simp [callsOf])).symm
  · exact iff_of_false Bool.false_ne_true not_since_nil
  · refine iff_of_false ?_ not_since_nil
    rw [hchips]
    unfold Pair.irrAt
    split <;> exact Bool.false_ne_true
  · refine iff_of_false ?_ not_since_nil
    rintro (h | h) <;> cases h
  · refine iff_of_false nofun ?_
    rintro ⟨v, hv, -⟩
    cases hv

theorem Explained.raise (h : Explained tr s) (h2 : n ≠ 2) :
    Explained (tr ++ [.raise n]) { s with chips := s.chips.request n } := by
  obtain ⟨⟨hmaster, hslave⟩, hmimr, hsimr⟩ := request_frame s.chips n
  have hconf := h.served.configured.request h2
  refine ⟨⟨hconf, fun hrun => ?_, fun helper hrun => ?_⟩, ?_, ?_, fun i hi => ?_, ?_, ?_⟩
  · have hidle := h.served.idle hrun
    exact hconf.idle (hmaster.trans hidle.master) (hslave.trans hidle.slave)
  · obtain ⟨hflag, hbusy⟩ := h.served.busy helper hrun
    refine ⟨hflag, ?_⟩
    rw [hmaster, hslave]
    exact hbusy
  · rw [callsOf_other rfl]
    exact h.masked.frame rfl rfl hmimr hsimr
  · unfold Enabled
    rw [since_snoc, h.flag]
    simp [Enabled]
  · rw [pending_raise, ← h.pending i hi, Pair.irrAt_request]
    simp
  · unfold UnderWay
    rw [since_snoc, h.underWay]
    simp [UnderWay]
  · rw [h.undefined]
    simp

theorem Explained.enter (h : Explained tr s) (hflag : s.flag = true)
    (hpick : s.chips.pick = some n)
    (hidt : (idtInit (s.chips.vector n)).handler = some helper) :
    Explained (tr ++ [.enter (s.chips.vector n)])
      { s with
        chips := s.chips.acknowledge n
        flag := (idtInit (s.chips.vector n)).reserved3
        running := some helper } := by
  have hrun := h.served.running_none hflag
  have hidle := h.served.idle hrun
  have hconf := h.served.configured
  obtain ⟨hmimr, hsimr⟩ := imr_acknowledge s.chips n
  obtain ⟨hn, hn2, hgate, hhelper⟩ := h.served.enter hflag hpick hidt
  -- no handler was under way
  have hfree : ¬ UnderWay tr := by
    rw [← h.underWay, hrun]
    rintro (h | h) <;> cases h
  have hdefined : ¬ ∃ v, .enter v ∈ tr ∧ v ≠ 33 ∧ v ≠ 40 := by
    rw [← h.undefined, hrun]
    nofun
  rw [hgate, hconf.vector]
  refine ⟨⟨hconf.acknowledge n, nofun, fun helper' hrun' => ⟨rfl, ?_⟩⟩, ?_, ?_, fun i hi => ?_,
    ?_, ?_⟩
  · obtain rfl := Option.some.inj hrun'
    by_cases h1 : n = 1
    · rw [h1] at hhelper ⊢
      exact Or.inl ⟨hhelper, acknowledge_keyboard hconf hidle⟩
    · rw [if_neg h1] at hhelper
      by_cases h8 : n = 8
      · rw [h8] at hhelper ⊢
        exact Or.inr (Or.inl ⟨hhelper, acknowledge_rtc hconf hidle⟩)
      · exact Or.inr (Or.inr (hhelper.trans (if_neg h8)))
  · rw [callsOf_other rfl]
    exact h.masked.frame rfl rfl hmimr hsimr
  · refine iff_of_false Bool.false_ne_true ?_
    unfold Enabled
    rw [since_snoc]
    simp
  · rw [pending_enter, ← h.pending i hi, hconf.irrAt_acknowledge]
    simp
  · unfold UnderWay at hfree ⊢
    rw [since_snoc, hhelper]
    by_cases h1 : n = 1
    · simp [h1]
    · by_cases h8 : n = 8
      · simp [h8]
      · simp [h1, h8, hfree, show 32 + n ≠ 33 by omega, show 32 + n ≠ 40 by omega]
  · rw [exists_enter_snoc, hhelper]
    by_cases h1 : n = 1
    · simp only [h1, hdefined]
      decide
    · by_cases h8 : n = 8
      · simp only [h8, hdefined]
        decide
      · simp [h1, h8, show 32 + n ≠ 33 by omega, show 32 + n ≠ 40 by omega]

theorem Explained.finish (h : Explained tr s) {irqNum : UInt32} (hrun : s.running = some helper)
    (hirq : helper.irq = some irqNum) :
    Explained (tr ++ [.finish])
      { s.call fun p => sendEoi p irqNum with
        flag := true
        running := none } := by
  obtain ⟨hhelper, master, slave, hchips, hmaster, hslave⟩ := h.served.finish hrun hirq
  have hc := h.served.configured
  have hconf : Configured (s.call fun p => sendEoi p irqNum).chips := by
    rw [hchips]
    exact ⟨hc.masterMode, hc.masterBase, hc.masterCascade, hc.masterAutoEoi, hc.slaveMode,
      hc.slaveBase, hc.slaveCascade, hc.slaveAutoEoi, hc.noDevice⟩
  refine ⟨⟨hconf, fun _ => hconf.idle ?_ ?_, nofun⟩, ?_, ?_, fun i hi => ?_, ?_, ?_⟩
  · rw [hchips]
    exact hmaster
  · rw [hchips]
    exact hslave
  · rw [callsOf_other rfl]
    refine h.masked.frame ?_ ?_ ?_ ?_
    · change (sendEoi _ irqNum).masterMask = _
      unfold sendEoi
      split
      · rfl
      · split <;> rfl
    · change (sendEoi _ irqNum).slaveMask = _
      unfold sendEoi
      split
      · rfl
      · split <;> rfl
    · change (s.call fun p => sendEoi p irqNum).chips.master.imr = _
      rw [hchips]
    · change (s.call fun p => sendEoi p irqNum).chips.slave.imr = _
      rw [hchips]
  · refine iff_of_true rfl ?_
    unfold Enabled
    rw [since_snoc]
    simp
  · rw [pending_other (e := .finish) nofun nofun, ← h.pending i hi]
    change (s.call fun p => sendEoi p irqNum).chips.irrAt i = true ↔ _
    rw [hchips]
    rfl
  · refine iff_of_false ?_ ?_
    · rintro (h | h) <;> cases h
    · unfold UnderWay
      rw [since_snoc]
      simp
  · refine iff_of_false nofun ?_
    have hdefined : ¬ ∃ v, .enter v ∈ tr ∧ v ≠ 33 ∧ v ≠ 40 := by
      rw [← h.undefined, hrun]
      rcases hhelper with rfl | rfl <;> nofun
    simpa using hdefined

theorem Explained.setFlag (h : Explained tr s) (hrun : s.running = none) (flag : Bool) :
    Explained (tr ++ [.setFlag flag]) { s with flag := flag } := by
  refine ⟨⟨h.served.configured, h.served.idle, fun helper hrun' => ?_⟩, ?_, ?_, fun i hi => ?_,
    ?_, ?_⟩
  · rw [show s.running = some helper from hrun'] at hrun
    cases hrun
  · rw [callsOf_other rfl]
    exact h.masked.frame rfl rfl rfl rfl
  · unfold Enabled
    rw [since_snoc]
    cases flag <;> simp
  · rw [pending_other (e := .setFlag flag) nofun nofun]
    exact h.pending i hi
  · unfold UnderWay
    rw [since_snoc, h.underWay]
    simp [UnderWay]
  · rw [h.undefined]
    simp

theorem Explained.call (h : Explained tr s) (hrun : s.running = none) (c : IrqCall) :
    Explained (tr ++ [.call c]) (s.call fun p => c.apply p) := by
  have hc := h.served.configured
  have hidle := h.served.idle hrun
  have hchips := sent_apply (p := { s.masks with outs := [] }) c hc.masterMode hc.slaveMode rfl
  change (s.call fun p => c.apply p).chips = _ at hchips
  have hconf : Configured (s.call fun p => c.apply p).chips := by
    rw [hchips]
    exact ⟨hc.masterMode, hc.masterBase, hc.masterCascade, hc.masterAutoEoi, hc.slaveMode,
      hc.slaveBase, hc.slaveCascade, hc.slaveAutoEoi, hc.noDevice⟩
  refine ⟨⟨hconf, fun _ => hconf.idle ?_ ?_, fun helper hrun' => ?_⟩, ?_, ?_, fun i hi => ?_,
    ?_, ?_⟩
  · rw [hchips]
    exact hidle.master
  · rw [hchips]
    exact hidle.slave
  · rw [show s.running = some helper from hrun'] at hrun
    cases hrun
  · rw [callsOf_snoc]
    exact h.masked.call hc c
  · refine h.flag.trans ?_
    unfold Enabled
    rw [since_snoc]
    simp
  · rw [pending_other (e := .call c) nofun nofun, ← h.pending i hi, hchips]
    rfl
  · refine h.underWay.trans ?_
    unfold UnderWay
    rw [since_snoc]
    simp
  · refine h.undefined.trans ?_
    simp

theorem Explained.step {s' : Irqs} {e : IrqEvent} (h : Explained tr s) (hstep : IrqStep s e s') :
    Explained (tr ++ [e]) s' := by
  cases hstep with
  | raise _ h2 => exact h.raise h2
  | enter hflag hpick hidt => exact h.enter hflag hpick hidt
  | finish hrun hirq => exact h.finish hrun hirq
  | setFlag hrun => exact h.setFlag hrun _
  | call hrun => exact h.call hrun _

end Step

/-- **Every run explains its last state.** -/
theorem explained_run {chips : Pair} {tr : List IrqEvent} {s : Irqs}
    (h : Trace IrqStep (initIrqs chips) tr s) : Explained tr s := by
  refine Trace.snoc_induction (explained_init chips) ?_ h
  intro tr s e s' _ ih hstep
  exact ih.step hstep

/-! ## Which events are possible -/

section Possible

variable {s : Irqs} {tr : List IrqEvent} {i : Nat}

theorem Explained.ready (h : Explained tr s) (hi : i < 16) (h2 : i ≠ 2) :
    s.chips.ready i = true ↔ Ready tr i := by
  unfold Pair.ready Ready Open
  rw [h.served.configured.cascadeLine, ← h.pending i h2, ← h.masked.imrAt hi,
    ← h.masked.imrAt (show 2 < 16 by decide)]
  by_cases h8 : i < 8
  · simp [h8, Nat.not_le.mpr h8]
  · simp [h8, Nat.not_lt.mp h8, and_assoc]

theorem Explained.pick (h : Explained tr s) (hflag : s.flag = true) :
    s.chips.pick = some i ↔ First tr i := by
  have hidle := h.served.idle (h.served.running_none hflag)
  rw [hidle.pick_eq_some_iff, h.served.configured.cascadeLine]
  unfold First
  constructor
  · rintro ⟨hi, h2, hready, hfirst⟩
    refine ⟨⟨hi, h2, (h.ready hi h2).mp hready⟩, fun j hj hj2 hready' => ?_⟩
    exact hfirst j hj hj2 ((h.ready hj hj2).mpr hready')
  · rintro ⟨⟨hi, h2, hready⟩, hfirst⟩
    refine ⟨hi, h2, (h.ready hi h2).mpr hready, fun j hj hj2 hready' => ?_⟩
    exact hfirst j hj hj2 ((h.ready hj hj2).mp hready')

/-- A handler can be entered exactly when interrupts are enabled and it is its line's turn. -/
theorem Explained.enter_iff (h : Explained tr s) (v : Nat) :
    (∃ s', IrqStep s (.enter v) s') ↔ Enabled tr ∧ ∃ i, v = 32 + i ∧ First tr i := by
  rw [← h.flag]
  constructor
  · rintro ⟨s', hstep⟩
    cases hstep with
    | enter hflag hpick _ =>
      exact ⟨hflag, _, h.served.configured.vector _, (h.pick hflag).mp hpick⟩
  · rintro ⟨hflag, i, rfl, hfirst⟩
    have hvector := h.served.configured.vector i
    have hidt := (idtInit_irq i hfirst.1.1).1
    rw [← hvector] at hidt ⊢
    exact ⟨_, .enter hflag ((h.pick hflag).mpr hfirst) hidt⟩

theorem Explained.finish_iff (h : Explained tr s) :
    (∃ s', IrqStep s .finish s') ↔ UnderWay tr := by
  rw [← h.underWay]
  constructor
  · rintro ⟨s', hstep⟩
    cases hstep with
    | finish hrun hirq =>
      rcases (h.served.finish hrun hirq).1 with rfl | rfl
      · exact Or.inl hrun
      · exact Or.inr hrun
  · rintro (hrun | hrun)
    · exact ⟨_, .finish hrun rfl⟩
    · exact ⟨_, .finish hrun rfl⟩

/-- An undefined interrupt is the end: the devices go on, and nothing else happens. -/
theorem Explained.stuck (h : Explained tr s) {v : Nat} (hv : .enter v ∈ tr) (h33 : v ≠ 33)
    (h40 : v ≠ 40) {e : IrqEvent} {s' : Irqs} (hstep : IrqStep s e s') : ∃ n, e = .raise n := by
  have hrun := h.undefined.mpr ⟨v, hv, h33, h40⟩
  cases hstep with
  | raise _ _ => exact ⟨_, rfl⟩
  | enter hflag _ _ =>
    rw [h.served.running_none hflag] at hrun
    cases hrun
  | finish hrun' hirq =>
    rw [hrun] at hrun'
    obtain rfl := Option.some.inj hrun'
    cases hirq
  | setFlag hrun' =>
    rw [hrun] at hrun'
    cases hrun'
  | call hrun' =>
    rw [hrun] at hrun'
    cases hrun'

end Possible

/-- The calls at boot: the slave's and the clock's in `rtc_init`, the keyboard's in
`keyboard_init`. -/
def bootCalls : List IrqCall := [.enable 2, .enable 8, .enable 1]

theorem open_boot {tr : List IrqEvent} (h : callsOf tr = bootCalls) {i : Nat} (hi : i < 16)
    (hopen : Open tr i) : i = 1 ∨ i = 2 ∨ i = 8 := by
  unfold Open at hopen
  rw [h] at hopen
  rcases hopen with htouched | hlast
  · refine absurd ?_ htouched
    by_cases h8 : i < 8
    · exact ⟨.enable 2, by simp [bootCalls], by decide, iff_of_true (by decide) h8⟩
    · exact ⟨.enable 8, by simp [bootCalls], by decide, iff_of_false (by decide) h8⟩
  · have hmask : ∀ i < 16, (afterCalls bootCalls).mask.getLsbD i = false →
        i = 1 ∨ i = 2 ∨ i = 8 := by decide
    exact hmask i hi ((mask_afterCalls_iff bootCalls hi).mpr hlast)

/-- **Interrupts are served in turn.** In every run from `i8259_init` on, whatever the controllers
held and however the devices, the handlers and the other code interleave:

1. a line's mask in the controllers is open when its last call was `enable_irq`, and before the
   first call for its controller;
2. a handler is entered exactly when interrupts are enabled and it is the turn of its line;
3. a handler ends exactly when it is that of the keyboard or the clock and is under way;
4. after any other interrupt nothing but requests of devices happens any more;
5. with the calls of boot made, only the keyboard and the clock interrupt. -/
theorem interrupts_served {chips : Pair} {tr : List IrqEvent} {s : Irqs}
    (h : Trace IrqStep (initIrqs chips) tr s) :
    (∀ i < 16, s.chips.imrAt i = false ↔ Open tr i) ∧
    (∀ v, (∃ s', IrqStep s (.enter v) s') ↔ Enabled tr ∧ ∃ i, v = 32 + i ∧ First tr i) ∧
    ((∃ s', IrqStep s .finish s') ↔ UnderWay tr) ∧
    (∀ v, .enter v ∈ tr → v ≠ 33 → v ≠ 40 → ∀ e s', IrqStep s e s' → ∃ n, e = .raise n) ∧
    (callsOf tr = bootCalls → ∀ v s', IrqStep s (.enter v) s' → v = 33 ∨ v = 40) := by
  have hex := explained_run h
  refine ⟨fun i hi => hex.masked.imrAt hi, hex.enter_iff, hex.finish_iff, ?_, ?_⟩
  · intro v hv h33 h40 e s' hstep
    exact hex.stuck hv h33 h40 hstep
  · intro hcalls v s' hstep
    obtain ⟨-, i, rfl, ⟨hi, h2, hready⟩, -⟩ := (hex.enter_iff v).mp ⟨s', hstep⟩
    rcases open_boot hcalls hi hready.2.1 with rfl | rfl | rfl
    · exact Or.inl rfl
    · exact absurd rfl h2
    · exact Or.inr rfl

/-- The timer ticks between the `sti` of `rtc_init` and its first `enable_irq`: the masks are still
open, and boot ends in `undef_interrupt`. -/
theorem interrupts_served_timer : ∃ s, Trace IrqStep (initIrqs ⟨default, default⟩)
      [.setFlag true, .raise 0, .enter 32] s ∧
    ∀ e s', IrqStep s e s' → ∃ n, e = .raise n := by
  have htrace : Trace IrqStep (initIrqs ⟨default, default⟩) [.setFlag true, .raise 0] _ :=
    .cons (.setFlag rfl) (.cons (.raise (by decide) (by decide)) (.nil _))
  have henabled : Enabled [.setFlag true, .raise 0] :=
    ⟨[], .setFlag true, [.raise 0], rfl, Or.inl rfl, by simp⟩
  have hopen : ∀ i, Open [.setFlag true, .raise 0] i := by
    intro i
    refine Or.inl ?_
    rintro ⟨c, hc, -⟩
    cases hc
  have hready : Ready [.setFlag true, .raise 0] 0 :=
    ⟨⟨[.setFlag true], .raise 0, [], rfl, rfl, nofun⟩, hopen 0, fun _ => hopen 2⟩
  have hfirst : First [.setFlag true, .raise 0] 0 :=
    ⟨⟨by decide, by decide, hready⟩, fun j _ _ _ => Nat.zero_le _⟩
  obtain ⟨s, hstep⟩ := ((interrupts_served htrace).2.1 32).mpr ⟨henabled, 0, rfl, hfirst⟩
  have htrace' := htrace.append (Trace.single hstep)
  exact ⟨s, htrace', (interrupts_served htrace').2.2.2.1 32 (by simp) (by decide) (by decide)⟩

end MyOS.Kernel
