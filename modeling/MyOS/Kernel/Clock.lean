import MyOS.Kernel.Interrupts
import MyOS.Kernel.Syscall

/-!
# `rtc.c`: the clock, port by port

The registers of the clock are reached through two ports: one selects a register, the other reads
or writes the one that is selected. `rtc_write` and `rtc_handler` both select, so one must not come
between the steps of the other. The processor takes one port access at a time here, and the clock
ticks and interrupts between any two of them.

* `Cmos`, `PortOp`, `rtcInitOps`, `rtcWriteOps`, `rtcHandlerOps`: the accesses (`rtc.c:11-47`,
  `74-126`).
* `Clock`, `ClockStep`: the system. A `write` runs with interrupts disabled, since the gate of the
  system calls is an interrupt gate; a `read` enables them (`systemcall.c:281`).
* `Kept`: the invariant. `Kept.step` is one event, `kept_run` a run.
* **`clock_kept`**: register A is what the writes that have returned make of it one after the other,
  as if each was one step; a tick that finds no request and no handler makes a request; and a read
  returns exactly when the handler has ended since it began to wait.
-/

namespace MyOS.Kernel

open MyOS.Machine

/-! ## Ports -/

/-- The clock: the register that is selected, and the registers A, B and C. -/
structure Cmos where
  index : UInt8
  regA : UInt8
  regB : UInt8
  regC : UInt8
  deriving Inhabited

/-- An access to the ports: `outb(r, RTC_PORT)`, `inb(CMOS_PORT)`, which `prev` gets, or
`outb(.., CMOS_PORT)` of something made from `prev`. -/
inductive PortOp where
  | select (r : UInt8)
  | input
  | output (f : UInt8 → UInt8)

/-- One access. Reading register C clears it, and it cannot be written. -/
def PortOp.exec (m : Cmos) (prev : UInt8) : PortOp → Cmos × UInt8
  | select r => ({ m with index := r }, prev)
  | input =>
    if m.index = 0x8A then (m, m.regA)
    else if m.index = 0x8B then (m, m.regB)
    else if m.index = 0x8C then ({ m with regC := 0 }, m.regC)
    else (m, prev)
  | output f =>
    if m.index = 0x8A then ({ m with regA := f prev }, prev)
    else if m.index = 0x8B then ({ m with regB := f prev }, prev)
    else (m, prev)

/-- The accesses `ops`, one after the other. -/
def runOps (ops : List PortOp) (m : Cmos) (prev : UInt8) : Cmos × UInt8 :=
  ops.foldl (fun x o => o.exec x.1 x.2) (m, prev)

/-- `rtc_init()`. -/
def rtcInitOps : List PortOp :=
  [.select 0x8B, .input, .select 0x8B, .output (· ||| 0x40),
    .select 0x8A, .input, .select 0x8A, .output fun prev => prev &&& 0xf0 ||| 0x0f]

/-- The accesses of a write that is accepted. -/
def rateOps (rate : UInt8) : List PortOp :=
  [.select 0x8A, .input, .select 0x8A, .output fun prev => prev &&& 0xf0 ||| rate]

/-- The rate a write sets, if it is accepted. -/
def rateOf (buf : Mem) (nbytes : Int) : Option UInt8 :=
  if nbytes ≠ 4 then none else rtcRate (toInt32 (le32 buf 0))

/-- `rtc_write(fd, buf, nbytes)`. -/
def rtcWriteOps (buf : Mem) (nbytes : Int) : List PortOp :=
  match rateOf buf nbytes with
  | none => []
  | some rate => rateOps rate

/-- `rtc_handler()`, before it clears `rtc_interrupt_occurred`. -/
def rtcHandlerOps : List PortOp := [.select 0x8C, .input]

/-! ## The system -/

/-- What the processor is doing, apart from the handler. A read has been called, and then waits in
its loop; `back` is the interrupt flag of the program that called. -/
inductive Doing where
  | other
  | writing (ops : List PortOp) (buf : Mem) (nbytes : Int) (back : Bool)
  | reading (back : Bool)
  | waiting (back : Bool)

/-- A write is under way. -/
def Doing.isWriting : Doing → Bool
  | writing .. => true
  | _ => false

/-- The clock, `prev` of `rtc_write`, `rtc_interrupt_occurred`, the interrupt flag, the request of
the clock that has not been taken, and what is left of the handler. -/
structure Clock where
  cmos : Cmos
  prev : UInt8
  occurred : Bool
  flag : Bool
  line : Bool
  doing : Doing
  handler : Option (List PortOp)

/-- What can happen: a tick, a port access, the handler entered or left, the calls and returns. -/
inductive ClockEvent where
  | tick
  | port
  | enter
  | leave
  | callWrite
  | returnWrite (buf : Mem) (nbytes : Int)
  | callRead
  | wait
  | returnRead
  | setFlag

/-- The periodic interrupt: the flags in register C, and a request if they were clear. -/
def Clock.tick (s : Clock) : Clock :=
  { s with
    cmos := { s.cmos with regC := s.cmos.regC ||| 0xC0 }
    line := s.line || (bit s.cmos.regB 6 && s.cmos.regC == 0) }

/-- **One event.** -/
inductive ClockStep (s : Clock) : ClockEvent → Clock → Prop
  | tick : ClockStep s .tick s.tick
  | enter (hflag : s.flag = true) (hline : s.line = true) (hidle : s.handler = none) :
      ClockStep s .enter { s with handler := some rtcHandlerOps, line := false, flag := false }
  | handlerPort {o : PortOp} {ops : List PortOp} (h : s.handler = some (o :: ops)) :
      ClockStep s .port { s with cmos := (o.exec s.cmos 0).1, handler := some ops }
  | leave (h : s.handler = some []) :
      ClockStep s .leave { s with handler := none, occurred := false, flag := true }
  | callWrite (hidle : s.handler = none) (h : s.doing = .other) (buf : Mem) (nbytes : Int) :
      ClockStep s .callWrite
        { s with doing := .writing (rtcWriteOps buf nbytes) buf nbytes s.flag, flag := false }
  | writePort {o : PortOp} {ops : List PortOp} {buf : Mem} {nbytes : Int} {back : Bool}
      (hidle : s.handler = none) (h : s.doing = .writing (o :: ops) buf nbytes back) :
      ClockStep s .port
        { s with
          cmos := (o.exec s.cmos s.prev).1
          prev := (o.exec s.cmos s.prev).2
          doing := .writing ops buf nbytes back }
  | returnWrite {buf : Mem} {nbytes : Int} {back : Bool} (hidle : s.handler = none)
      (h : s.doing = .writing [] buf nbytes back) :
      ClockStep s (.returnWrite buf nbytes) { s with doing := .other, flag := back }
  | callRead (hidle : s.handler = none) (h : s.doing = .other) :
      ClockStep s .callRead { s with doing := .reading s.flag, flag := true }
  | wait {back : Bool} (hidle : s.handler = none) (h : s.doing = .reading back) :
      ClockStep s .wait { s with doing := .waiting back, occurred := true }
  | returnRead {back : Bool} (hidle : s.handler = none) (h : s.doing = .waiting back)
      (hoccurred : s.occurred = false) :
      ClockStep s .returnRead { s with doing := .other, flag := back }
  | setFlag {flag : Bool} (hidle : s.handler = none) (h : s.doing = .other) :
      ClockStep s .setFlag { s with flag := flag }

/-- After `rtc_init`, whatever the clock held: flags that wait in register C request at once. -/
def initClock (cmos : Cmos) : Clock where
  cmos := (runOps rtcInitOps cmos 0).1
  prev := 0
  occurred := false
  flag := true
  line := cmos.regC != 0
  doing := .other
  handler := none

/-! ## What a history says -/

/-- A write as one step. -/
def ClockEvent.apply (a : UInt8) : ClockEvent → UInt8
  | returnWrite buf nbytes => (rtcWrite a buf nbytes).1
  | _ => a

/-- Register A after the writes that have returned, each as one step. -/
def registerA (a : UInt8) (tr : List ClockEvent) : UInt8 := tr.foldl ClockEvent.apply a

theorem registerA_snoc (a : UInt8) (tr : List ClockEvent) (e : ClockEvent) :
    registerA a (tr ++ [e]) = e.apply (registerA a tr) := by
  unfold registerA
  rw [List.foldl_append]
  rfl

/-- A read has begun to wait, and the handler has not ended since. -/
def Waits (tr : List ClockEvent) : Prop := Since (· = .wait) (· = .leave) tr

theorem rtcWrite_eq (a : UInt8) (buf : Mem) (nbytes : Int) : (rtcWrite a buf nbytes).1 =
    match rateOf buf nbytes with
    | none => a
    | some rate => a &&& 0xf0 ||| rate := by
  unfold rtcWrite rateOf
  by_cases h4 : nbytes ≠ 4
  · rw [if_pos h4, if_pos h4]
  · rw [if_neg h4, if_neg h4]
    cases rtcRate (toInt32 (le32 buf 0)) <;> rfl

/-! ## The invariant -/

/-- Where a write is that sets `rate`, register A having been `a`. -/
inductive WriteAt (rate a : UInt8) : List PortOp → Cmos → UInt8 → Prop
  | start {m : Cmos} {prev : UInt8} (ha : m.regA = a) : WriteAt rate a (rateOps rate) m prev
  | selected {m : Cmos} {prev : UInt8} (ha : m.regA = a) (hi : m.index = 0x8A) :
      WriteAt rate a (rateOps rate).tail m prev
  | readBack {m : Cmos} (ha : m.regA = a) : WriteAt rate a ((rateOps rate).drop 2) m a
  | selectedAgain {m : Cmos} (ha : m.regA = a) (hi : m.index = 0x8A) :
      WriteAt rate a ((rateOps rate).drop 3) m a
  | done {m : Cmos} {prev : UInt8} (ha : m.regA = a &&& 0xf0 ||| rate) : WriteAt rate a [] m prev

/-- Where the handler is. -/
inductive HandlerAt : List PortOp → Cmos → Prop
  | start {m : Cmos} : HandlerAt rtcHandlerOps m
  | selected {m : Cmos} (hi : m.index = 0x8C) : HandlerAt [.input] m
  | done {m : Cmos} : HandlerAt [] m

/-- Register A, with what a write under way has left to do: no handler comes between. -/
def RegisterOk (a : UInt8) (s : Clock) : Prop :=
  match s.doing with
  | .writing ops buf nbytes _ => (s.handler = none ∧ s.flag = false) ∧
    match rateOf buf nbytes with
    | none => ops = [] ∧ s.cmos.regA = a
    | some rate => WriteAt rate a ops s.cmos s.prev
  | _ => s.cmos.regA = a

/-- **The invariant**, from registers A and B as `rtc_init` left them. -/
structure Kept (a b : UInt8) (tr : List ClockEvent) (s : Clock) : Prop where
  regA : RegisterOk (registerA a tr) s
  regB : s.cmos.regB = b
  occurred : s.occurred = true ↔ Waits tr
  handlerAt : ∀ ops, s.handler = some ops → HandlerAt ops s.cmos
  unread : s.cmos.regC ≠ 0 → s.line = true ∨ ∃ ops, s.handler = some ops ∧ ops ≠ []

section Step

variable {a b rate : UInt8} {tr : List ClockEvent} {s : Clock} {o : PortOp} {ops : List PortOp}
  {m : Cmos} {prev : UInt8}

/-- One access of a write: the other registers are left alone. -/
theorem WriteAt.port (h : WriteAt rate a (o :: ops) m prev) :
    WriteAt rate a ops (o.exec m prev).1 (o.exec m prev).2 ∧
      (o.exec m prev).1.regB = m.regB ∧ (o.exec m prev).1.regC = m.regC := by
  generalize hl : o :: ops = l at h
  cases h with
  | start ha =>
    cases hl
    exact ⟨.selected ha rfl, rfl, rfl⟩
  | selected ha hi =>
    cases hl
    have hexec : PortOp.exec m prev .input = (m, m.regA) := if_pos hi
    rw [hexec, ha]
    exact ⟨.readBack ha, rfl, rfl⟩
  | readBack ha =>
    cases hl
    exact ⟨.selectedAgain ha rfl, rfl, rfl⟩
  | selectedAgain ha hi =>
    cases hl
    have hexec : PortOp.exec m a (.output fun prev => prev &&& 0xf0 ||| rate) =
        ({ m with regA := a &&& 0xf0 ||| rate }, a) := if_pos hi
    rw [hexec]
    exact ⟨.done rfl, rfl, rfl⟩
  | done ha => cases hl

/-- A tick does not touch what a write needs. -/
theorem WriteAt.ticked (h : WriteAt rate a ops m prev) (c : UInt8) :
    WriteAt rate a ops { m with regC := c } prev := by
  cases h with
  | start ha => exact .start ha
  | selected ha hi => exact .selected ha hi
  | readBack ha => exact .readBack ha
  | selectedAgain ha hi => exact .selectedAgain ha hi
  | done ha => exact .done ha

/-- One access of the handler: its last one clears register C. -/
theorem HandlerAt.port (h : HandlerAt (o :: ops) m) (prev : UInt8) :
    HandlerAt ops (o.exec m prev).1 ∧ (o.exec m prev).1.regA = m.regA ∧
      (o.exec m prev).1.regB = m.regB ∧ (ops = [] → (o.exec m prev).1.regC = 0) := by
  generalize hl : o :: ops = l at h
  cases h with
  | start =>
    cases hl
    exact ⟨.selected rfl, rfl, rfl, nofun⟩
  | selected hi =>
    cases hl
    have hexec : PortOp.exec m prev .input = ({ m with regC := 0 }, m.regC) := by
      unfold PortOp.exec
      rw [hi]
      rfl
    rw [hexec]
    exact ⟨.done, rfl, rfl, fun _ => rfl⟩
  | done => cases hl

theorem HandlerAt.ticked (h : HandlerAt ops m) (c : UInt8) :
    HandlerAt ops { m with regC := c } := by
  cases h with
  | start => exact .start
  | selected hi => exact .selected hi
  | done => exact .done

theorem waits_snoc (e : ClockEvent) :
    Waits (tr ++ [e]) ↔ e = .wait ∨ Waits tr ∧ e ≠ .leave := since_snoc

/-- The write that returns has done to register A what `rtcWrite` does. -/
theorem RegisterOk.done {buf : Mem} {nbytes : Int} {back : Bool} (h : RegisterOk a s)
    (hdoing : s.doing = .writing [] buf nbytes back) : s.cmos.regA = (rtcWrite a buf nbytes).1 := by
  unfold RegisterOk at h
  rw [hdoing] at h
  rw [rtcWrite_eq]
  have h' := h.2
  cases hrate : rateOf buf nbytes with
  | none =>
    rw [hrate] at h'
    exact h'.2
  | some rate =>
    rw [hrate] at h'
    generalize hl : ([] : List PortOp) = l at h'
    cases h' with
    | done ha => exact ha
    | _ => cases hl

theorem registerOk_iff (hdoing : s.doing.isWriting = false) :
    RegisterOk a s ↔ s.cmos.regA = a := by
  unfold RegisterOk
  cases hd : s.doing with
  | writing ops buf nbytes back =>
    rw [hd] at hdoing
    cases hdoing
  | _ => rfl

/-- While the handler runs, or interrupts are enabled, no write is under way. -/
theorem RegisterOk.not_writing (h : RegisterOk a s) (hbusy : s.handler ≠ none ∨ s.flag = true) :
    s.doing.isWriting = false := by
  cases hd : s.doing with
  | writing ops buf nbytes back =>
    unfold RegisterOk at h
    rw [hd] at h
    rcases hbusy with hbusy | hbusy
    · exact absurd h.1.1 hbusy
    · rw [h.1.2] at hbusy
      cases hbusy
  | _ => rfl

theorem RegisterOk.frame {s' : Clock} (h : RegisterOk a s)
    (hbusy : s.handler ≠ none ∨ s.flag = true) (hdoing : s'.doing = s.doing)
    (hregA : s'.cmos.regA = s.cmos.regA) : RegisterOk a s' := by
  have hother := h.not_writing hbusy
  rw [registerOk_iff (by rw [hdoing]; exact hother), hregA]
  exact (registerOk_iff hother).mp h

/-- A tick leaves register A alone, and what a write under way needs. -/
theorem RegisterOk.tick (h : RegisterOk a s) : RegisterOk a s.tick := by
  cases hd : s.doing with
  | writing ops buf nbytes back =>
    have hd' : s.tick.doing = .writing ops buf nbytes back := hd
    unfold RegisterOk at h ⊢
    rw [hd] at h
    rw [hd']
    refine ⟨h.1, ?_⟩
    have h' := h.2
    cases hrate : rateOf buf nbytes with
    | none =>
      rw [hrate] at h'
      exact h'
    | some rate =>
      rw [hrate] at h'
      exact h'.ticked _
  | _ =>
    have hother : s.doing.isWriting = false := by rw [hd]; rfl
    exact (registerOk_iff (s := s.tick) hother).mpr ((registerOk_iff hother).mp h)

/-- A write begins. -/
theorem RegisterOk.callWrite (h : RegisterOk a s) (hdoing : s.doing = .other)
    (hidle : s.handler = none) (buf : Mem) (nbytes : Int) (back : Bool) :
    RegisterOk a
      { s with doing := .writing (rtcWriteOps buf nbytes) buf nbytes back, flag := false } := by
  have hA := (registerOk_iff (by rw [hdoing]; rfl)).mp h
  refine ⟨⟨hidle, rfl⟩, ?_⟩
  unfold rtcWriteOps
  cases hrate : rateOf buf nbytes with
  | none => exact ⟨rfl, hA⟩
  | some rate => exact .start hA

/-- And goes on. -/
theorem RegisterOk.writePort {buf : Mem} {nbytes : Int} {back : Bool} (h : RegisterOk a s)
    (hdoing : s.doing = .writing (o :: ops) buf nbytes back) :
    RegisterOk a
      { s with
        cmos := (o.exec s.cmos s.prev).1
        prev := (o.exec s.cmos s.prev).2
        doing := .writing ops buf nbytes back } ∧
      (o.exec s.cmos s.prev).1.regB = s.cmos.regB ∧
      (o.exec s.cmos s.prev).1.regC = s.cmos.regC := by
  unfold RegisterOk at h ⊢
  rw [hdoing] at h
  have h' := h.2
  cases hrate : rateOf buf nbytes with
  | none =>
    rw [hrate] at h'
    cases h'.1
  | some rate =>
    rw [hrate] at h'
    obtain ⟨hnext, hB, hC⟩ := h'.port
    refine ⟨⟨h.1, ?_⟩, hB, hC⟩
    rw [hrate]
    exact hnext

theorem waits_other {e : ClockEvent} (hwait : e ≠ .wait) (hleave : e ≠ .leave) :
    Waits (tr ++ [e]) ↔ Waits tr := by
  rw [waits_snoc]
  simp [hwait, hleave]

theorem Kept.tick (hb : bit b 6 = true) (h : Kept a b tr s) : Kept a b (tr ++ [.tick]) s.tick := by
  refine ⟨?_, h.regB, ?_, fun ops hops => (h.handlerAt ops hops).ticked _, fun _ => ?_⟩
  · rw [registerA_snoc]
    exact h.regA.tick
  · exact h.occurred.trans (waits_other (by simp) (by simp)).symm
  -- the request is made, unless one waits or the handler has yet to read register C
  have hline : s.tick.line = (s.line || (bit s.cmos.regB 6 && s.cmos.regC == 0)) := rfl
  by_cases hC : s.cmos.regC = 0
  · refine Or.inl ?_
    rw [hline, h.regB, hb, hC]
    simp
  · rcases h.unread hC with hline' | hops
    · refine Or.inl ?_
      rw [hline, hline']
      rfl
    · exact Or.inr hops

theorem Kept.enter (h : Kept a b tr s) (hflag : s.flag = true) :
    Kept a b (tr ++ [.enter])
      { s with handler := some rtcHandlerOps, line := false, flag := false } := by
  refine ⟨?_, h.regB, ?_, fun ops hops => ?_, fun _ => Or.inr ⟨_, rfl, ?_⟩⟩
  · rw [registerA_snoc]
    exact h.regA.frame (Or.inr hflag) rfl rfl
  · exact h.occurred.trans (waits_other (by simp) (by simp)).symm
  · cases hops
    exact .start
  · unfold rtcHandlerOps
    simp

theorem Kept.handlerPort (h : Kept a b tr s) (hops : s.handler = some (o :: ops)) :
    Kept a b (tr ++ [.port])
      { s with cmos := (o.exec s.cmos 0).1, handler := some ops } := by
  obtain ⟨hnext, hregA, hregB, hregC⟩ := (h.handlerAt _ hops).port 0
  refine ⟨?_, hregB.trans h.regB, ?_, fun ops' hops' => ?_, fun hC => ?_⟩
  · rw [registerA_snoc]
    exact h.regA.frame (Or.inl (by simp [hops])) rfl hregA
  · exact h.occurred.trans (waits_other (by simp) (by simp)).symm
  · cases hops'
    exact hnext
  · exact Or.inr ⟨ops, rfl, fun hnil => hC (hregC hnil)⟩

theorem Kept.leave (h : Kept a b tr s) (hops : s.handler = some []) :
    Kept a b (tr ++ [.leave]) { s with handler := none, occurred := false, flag := true } := by
  refine ⟨?_, h.regB, ?_, nofun, fun hC => ?_⟩
  · rw [registerA_snoc]
    exact h.regA.frame (Or.inl (by simp [hops])) rfl rfl
  · rw [waits_snoc]
    simp
  · rcases h.unread hC with hline | ⟨ops, hops', hne⟩
    · exact Or.inl hline
    · rw [hops] at hops'
      cases hops'
      exact absurd rfl hne

/-- An event of the code that the handler interrupts. -/
theorem Kept.called {e : ClockEvent} {s' : Clock} (h : Kept a b tr s) (hidle : s.handler = none)
    (hregA : RegisterOk (e.apply (registerA a tr)) s') (hregB : s'.cmos.regB = s.cmos.regB)
    (hregC : s'.cmos.regC = s.cmos.regC) (hline : s'.line = s.line) (hidle' : s'.handler = none)
    (hoccurred : s'.occurred = true ↔ Waits (tr ++ [e])) : Kept a b (tr ++ [e]) s' := by
  refine ⟨?_, hregB.trans h.regB, hoccurred, fun ops hops => ?_, fun hC => ?_⟩
  · rw [registerA_snoc]
    exact hregA
  · rw [hidle'] at hops
    cases hops
  · rw [hregC] at hC
    rcases h.unread hC with hline' | ⟨ops, hops, -⟩
    · exact Or.inl (hline.trans hline')
    · rw [hidle] at hops
      cases hops

/-- **One event.** -/
theorem Kept.step {e : ClockEvent} {s' : Clock} (hb : bit b 6 = true) (h : Kept a b tr s)
    (hstep : ClockStep s e s') : Kept a b (tr ++ [e]) s' := by
  have hocc : e ≠ .wait → e ≠ .leave → (s.occurred = true ↔ Waits (tr ++ [e])) :=
    fun hwait hleave => h.occurred.trans (waits_other hwait hleave).symm
  have hA : s.doing.isWriting = false → s.cmos.regA = registerA a tr :=
    fun hother => (registerOk_iff hother).mp h.regA
  cases hstep with
  | tick => exact h.tick hb
  | enter hflag _ _ => exact h.enter hflag
  | handlerPort hops => exact h.handlerPort hops
  | leave hops => exact h.leave hops
  | callWrite hidle hdoing buf nbytes =>
    have hbegun := h.regA.callWrite hdoing hidle buf nbytes s.flag
    exact h.called hidle hbegun rfl rfl rfl hidle (hocc (by simp) (by simp))
  | writePort hidle hdoing =>
    obtain ⟨hnext, hregB, hregC⟩ := h.regA.writePort hdoing
    exact h.called hidle hnext hregB hregC rfl hidle (hocc (by simp) (by simp))
  | returnWrite hidle hdoing =>
    have hdone := h.regA.done hdoing
    exact h.called hidle hdone rfl rfl rfl hidle (hocc (by simp) (by simp))
  | callRead hidle hdoing =>
    have hregA := hA (by rw [hdoing]; rfl)
    exact h.called hidle hregA rfl rfl rfl hidle (hocc (by simp) (by simp))
  | wait hidle hdoing =>
    have hregA := hA (by rw [hdoing]; rfl)
    refine h.called hidle hregA rfl rfl rfl hidle ?_
    rw [waits_snoc]
    simp
  | returnRead hidle hdoing _ =>
    have hregA := hA (by rw [hdoing]; rfl)
    exact h.called hidle hregA rfl rfl rfl hidle (hocc (by simp) (by simp))
  | @setFlag flag hidle hdoing =>
    have hother : s.doing.isWriting = false := by rw [hdoing]; rfl
    have hregA := (registerOk_iff (s := { s with flag := flag }) hother).mpr (hA hother)
    exact h.called hidle hregA rfl rfl rfl hidle (hocc (by simp) (by simp))

end Step

theorem kept_init (cmos : Cmos) :
    Kept (cmos.regA &&& 0xf0 ||| 0x0f) (cmos.regB ||| 0x40) [] (initClock cmos) := by
  refine ⟨rfl, rfl, iff_of_false Bool.false_ne_true not_since_nil, nofun, fun hC => ?_⟩
  exact Or.inl (bne_iff_ne.mpr hC)

theorem bit_six (b : UInt8) : bit (b ||| 0x40) 6 = true := by
  unfold bit
  rw [UInt8.toNat_or, Nat.testBit_or, Bool.or_eq_true]
  exact Or.inr (by decide)

theorem kept_run {cmos : Cmos} {tr : List ClockEvent} {s : Clock}
    (h : Trace ClockStep (initClock cmos) tr s) :
    Kept (cmos.regA &&& 0xf0 ||| 0x0f) (cmos.regB ||| 0x40) tr s := by
  refine Trace.snoc_induction (kept_init cmos) ?_ h
  intro tr s e s' _ ih hstep
  exact ih.step (bit_six cmos.regB) hstep

/-- **The clock keeps its rate and its ticks.** In every run from `rtc_init` on, with ticks between
any two accesses to the ports and the clock's interrupts wherever they are enabled:

1. unless a write is under way, register A is what the writes that have returned make of it, each as
   one step; and while one is, the handler cannot be entered;
2. register B is what `rtc_init` made of it;
3. when no request waits and the handler is not running, the next tick makes one;
4. a read that waits returns exactly when the handler has ended since it began to. -/
theorem clock_kept {cmos : Cmos} {tr : List ClockEvent} {s : Clock}
    (h : Trace ClockStep (initClock cmos) tr s) :
    (s.doing.isWriting = false → s.cmos.regA = registerA (cmos.regA &&& 0xf0 ||| 0x0f) tr) ∧
    (s.doing.isWriting = true → ∀ s', ¬ ClockStep s .enter s') ∧
    s.cmos.regB = cmos.regB ||| 0x40 ∧
    (s.line = false → s.handler = none → ∀ s', ClockStep s .tick s' → s'.line = true) ∧
    ((∃ s', ClockStep s .returnRead s') ↔
      (∃ back, s.doing = .waiting back) ∧ s.handler = none ∧ ¬ Waits tr) := by
  have hkept := kept_run h
  have hA := hkept.regA
  refine ⟨fun hdoing => ?_, fun hdoing s' hstep => ?_, hkept.regB, ?_, ?_⟩
  · exact (registerOk_iff hdoing).mp hA
  · cases hstep with
    | enter hflag _ _ =>
      have hother := hA.not_writing (Or.inr hflag)
      rw [hdoing] at hother
      cases hother
  · intro hline hidle s' hstep
    have hC : s.cmos.regC = 0 := by
      by_contra hC
      rcases hkept.unread hC with hline' | ⟨ops, hops, -⟩
      · rw [hline] at hline'
        cases hline'
      · rw [hidle] at hops
        cases hops
    cases hstep with
    | tick =>
      change (s.line || (bit s.cmos.regB 6 && s.cmos.regC == 0)) = true
      rw [hkept.regB, bit_six, hC]
      simp
  · constructor
    · rintro ⟨s', hstep⟩
      cases hstep with
      | returnRead hidle hdoing hoccurred =>
        refine ⟨⟨_, hdoing⟩, hidle, fun hwaits => ?_⟩
        rw [hkept.occurred.mpr hwaits] at hoccurred
        cases hoccurred
    · rintro ⟨⟨back, hdoing⟩, hidle, hwaits⟩
      refine ⟨_, .returnRead hidle hdoing ?_⟩
      rw [← Bool.not_eq_true, hkept.occurred]
      exact hwaits

/-- The bytes of 1024. -/
def kiloBuf : Mem := fun i => if i = 1 then 4 else 0

/-- The rate is set to 1024 Hz, with a tick between two of the accesses. -/
theorem clock_kept_kilohertz : ∃ s, Trace ClockStep (initClock ⟨0, 0x20, 0x02, 0⟩)
      [.callWrite, .port, .tick, .port, .port, .port, .returnWrite kiloBuf 4] s ∧
    s.cmos.regA = 0x26 := by
  have hrun : ∃ s, Trace ClockStep (initClock ⟨0, 0x20, 0x02, 0⟩)
      [.callWrite, .port, .tick, .port, .port, .port, .returnWrite kiloBuf 4] s ∧
      s.doing = .other :=
    ⟨_, .cons (.callWrite rfl rfl kiloBuf 4) <| .cons (.writePort rfl rfl) <| .cons .tick <|
      .cons (.writePort rfl rfl) <| .cons (.writePort rfl rfl) <| .cons (.writePort rfl rfl) <|
      .cons (.returnWrite rfl rfl) (.nil _), rfl⟩
  obtain ⟨s, ht, hdoing⟩ := hrun
  refine ⟨s, ht, ?_⟩
  rw [(clock_kept ht).1 (by rw [hdoing]; rfl)]
  decide

end MyOS.Kernel
