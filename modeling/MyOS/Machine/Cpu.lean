import MyOS.Machine.Paging
import Mathlib.Logic.Function.Basic
import Mathlib.Logic.Relation

/-!
# A processor with a stack

The part of a 32-bit processor that calls and interrupts are made of: pushes, pops and moves, signed
comparisons, calls, and the change of stacks when an interrupt comes from outside the kernel.

* `Cpu`: the registers, the flags and a memory of words. The fragments that run on it reach memory
  through the stack pointer only, in steps of four, so no two of their words overlap.
* `Stacked`: what stands on the stack from an address on. `Stacked.push`, `Stacked.update`.
* `Op`, `Instr`, `Processor.step`. An instruction takes one address. Functions in C are parameters:
  a call of one is one step.
* `Processor.enter`, `Cpu.iret`: an interrupt and its return. **`reaches_return`**: the return
  undoes the interrupt, whatever the handler has left in `eax`, `ecx` and `edx` and below its frame.
* `At`, `block`, `reaches_block`: straight-line code.
* `Cdecl`: what a function in C keeps.
-/

namespace MyOS.Machine

/-! ## Flags -/

/-- The flags that a conditional jump or the interrupt gate looks at. -/
structure Flags where
  zero : Bool
  sign : Bool
  overflow : Bool
  /-- Interrupts are enabled. -/
  interrupt : Bool
  deriving DecidableEq, Inhabited

namespace Flags

/-- The word that is pushed. Bit 1 is always set. -/
def word (f : Flags) : Word :=
  2 ||| (if f.zero then 0x40 else 0) ||| (if f.sign then 0x80 else 0) |||
    (if f.interrupt then 0x200 else 0) ||| (if f.overflow then 0x800 else 0)

/-- The flags in the word that `iret` takes off the stack. -/
def ofWord (w : Word) : Flags where
  zero := w.getLsbD 6
  sign := w.getLsbD 7
  overflow := w.getLsbD 11
  interrupt := w.getLsbD 9

@[simp] theorem ofWord_word (f : Flags) : ofWord f.word = f := by
  obtain ⟨zero, sign, overflow, interrupt⟩ := f
  revert zero sign overflow interrupt
  decide

/-- The flags after `a` was compared with `b`. -/
def compare (f : Flags) (a b : Word) : Flags :=
  { f with
    zero := a == b
    sign := (a - b).msb
    overflow := BitVec.ssubOverflow a b }

/-- What `jl` looks at. -/
def less (f : Flags) : Bool := f.sign != f.overflow

/-- What `jg` looks at. -/
def greater (f : Flags) : Bool := !f.zero && f.sign == f.overflow

theorem less_compare (f : Flags) (a b : Word) :
    (f.compare a b).less = decide (a.toInt < b.toInt) := by
  have hsign : (f.compare a b).sign = decide ((a - b).toInt < 0) :=
    BitVec.msb_eq_toInt (x := a - b)
  unfold less
  rw [hsign, show (f.compare a b).overflow = BitVec.ssubOverflow a b from rfl]
  have ha := BitVec.toInt_lt (x := a)
  have ha' := BitVec.le_toInt (x := a)
  have hb := BitVec.toInt_lt (x := b)
  have hb' := BitVec.le_toInt (x := b)
  cases hover : BitVec.ssubOverflow a b with
  | false =>
    rw [BitVec.toInt_sub_of_not_ssubOverflow (by simp [hover])]
    simp only [Bool.bne_false, decide_eq_decide]
    omega
  | true =>
    -- the difference is off by 2^32, so its sign is the wrong one
    unfold BitVec.ssubOverflow at hover
    rw [BitVec.toInt_sub, Int.bmod_def]
    simp only [Nat.add_one_sub_one, Bool.or_eq_true, decide_eq_true_eq, ge_iff_le] at hover
    simp only [Bool.bne_true, ← decide_not, decide_eq_decide]
    split <;> omega

theorem greater_compare (f : Flags) (a b : Word) :
    (f.compare a b).greater = decide (b.toInt < a.toInt) := by
  have hless := less_compare f a b
  unfold less at hless
  unfold greater
  rw [show ((f.compare a b).sign == (f.compare a b).overflow) =
      !((f.compare a b).sign != (f.compare a b).overflow) by simp [bne], hless,
    show (f.compare a b).zero = (a == b) from rfl]
  have hne : (a == b) = decide (a.toInt = b.toInt) := by
    rw [beq_eq_decide]
    simp only [BitVec.toInt_inj]
  rw [hne, Bool.eq_iff_iff]
  simp only [Bool.and_eq_true, Bool.not_eq_true', decide_eq_false_iff_not, decide_eq_true_eq]
  omega

end Flags

/-! ## The processor -/

/-- The general registers, apart from the stack pointer. -/
inductive Reg where
  | eax | ebx | ecx | edx | esi | edi | ebp
  deriving DecidableEq

/-- The registers, the flags and the memory, in words. -/
structure Cpu where
  eax : Word
  ebx : Word
  ecx : Word
  edx : Word
  esi : Word
  edi : Word
  ebp : Word
  esp : Word
  eip : Word
  cs : Word
  ss : Word
  flags : Flags
  mem : Word → Word
  deriving Inhabited

namespace Cpu

/-- The word in a register. -/
def get (c : Cpu) : Reg → Word
  | .eax => c.eax
  | .ebx => c.ebx
  | .ecx => c.ecx
  | .edx => c.edx
  | .esi => c.esi
  | .edi => c.edi
  | .ebp => c.ebp

/-- A register replaced. -/
def set (c : Cpu) (w : Word) : Reg → Cpu
  | .eax => { c with eax := w }
  | .ebx => { c with ebx := w }
  | .ecx => { c with ecx := w }
  | .edx => { c with edx := w }
  | .esi => { c with esi := w }
  | .edi => { c with edi := w }
  | .ebp => { c with ebp := w }

/-- A word pushed. -/
def push (c : Cpu) (w : Word) : Cpu :=
  { c with
    esp := c.esp - 4
    mem := Function.update c.mem (c.esp - 4) w }

/-- The word on the top of the stack. -/
def top (c : Cpu) : Word := c.mem c.esp

/-- Without it. -/
def drop (c : Cpu) : Cpu := { c with esp := c.esp + 4 }

/-- The privilege level: 0 is the kernel. -/
def cpl (c : Cpu) : Nat := c.cs.toNat % 4

/-- The next instruction. -/
def next (c : Cpu) : Cpu := { c with eip := c.eip + 1 }

/-- `iret`: to the same level, or to an outer one and its stack. -/
def iret (c : Cpu) : Cpu :=
  let c₁ :=
    { c with
      eip := c.mem c.esp
      cs := c.mem (c.esp + 4)
      flags := Flags.ofWord (c.mem (c.esp + 8))
      esp := c.esp + 12 }
  if c.cpl < c₁.cpl then
    { c₁ with
      esp := c.mem (c.esp + 12)
      ss := c.mem (c.esp + 16) }
  else c₁

end Cpu

/-! ## The stack -/

/-- The words of the list stand from `p` on. -/
def Stacked (mem : Word → Word) : Word → List Word → Prop
  | _, [] => True
  | p, w :: l => mem p = w ∧ Stacked mem (p + 4) l

section Stack

variable {mem : Word → Word} {p a : Word} {l l' : List Word} {c : Cpu}

/-- A store that meets none of them. -/
theorem Stacked.update (h : Stacked mem p l) (w : Word)
    (ha : ∀ k < l.length, a ≠ p + BitVec.ofNat 32 (4 * k)) :
    Stacked (Function.update mem a w) p l := by
  induction l generalizing p with
  | nil => trivial
  | cons v l ih =>
    refine ⟨?_, ih h.2 fun k hk => ?_⟩
    · rw [Function.update_of_ne]
      · exact h.1
      · have := ha 0 (by simp)
        simpa [eq_comm] using this
    · have := ha (k + 1) (by simpa using hk)
      rwa [Nat.mul_add, BitVec.ofNat_add, BitVec.add_comm (BitVec.ofNat 32 (4 * k)),
        ← BitVec.add_assoc] at this

theorem push_mem (c : Cpu) (w : Word) :
    (c.push w).mem = Function.update c.mem (c.esp - 4) w := rfl

theorem push_top (c : Cpu) (w : Word) : (c.push w).top = w := by
  change Function.update c.mem (c.esp - 4) w (c.esp - 4) = w
  rw [Function.update_self]

/-- **A push.** -/
theorem Stacked.push (h : Stacked c.mem c.esp l) (hlen : l.length < 2 ^ 30) (w : Word) :
    Stacked (c.push w).mem (c.push w).esp (w :: l) := by
  refine ⟨push_top c w, ?_⟩
  have hesp : (c.push w).esp + 4 = c.esp := BitVec.sub_add_cancel c.esp 4
  rw [hesp]
  refine h.update w fun k hk => ?_
  bv_omega

/-- Two memories that agree where the words stand. -/
theorem Stacked.congr {mem' : Word → Word} (h : Stacked mem p l)
    (hmem : ∀ k < l.length, mem' (p + BitVec.ofNat 32 (4 * k)) =
      mem (p + BitVec.ofNat 32 (4 * k))) : Stacked mem' p l := by
  induction l generalizing p with
  | nil => trivial
  | cons v l ih =>
    refine ⟨?_, ih h.2 fun k hk => ?_⟩
    · have := hmem 0 (by simp)
      simp only [Nat.mul_zero, BitVec.add_zero] at this
      exact this.trans h.1
    · have := hmem (k + 1) (by simpa using hk)
      rwa [Nat.mul_add, BitVec.ofNat_add, BitVec.add_comm (BitVec.ofNat 32 (4 * k)),
        ← BitVec.add_assoc] at this

end Stack

/-! ## Instructions -/

/-- What does not change the flow of control. `load` is a move from the stack, off its pointer. -/
inductive Op where
  | push (r : Reg)
  | pushImm (w : Word)
  | pop (r : Reg)
  | movImm (w : Word) (r : Reg)
  | load (offset : Word) (r : Reg)
  | addEsp (w : Word)
  | cmp (w : Word) (r : Reg)
  deriving DecidableEq

/-- What an instruction that does not jump does. -/
def Op.exec (c : Cpu) : Op → Cpu
  | push r => c.push (c.get r)
  | pushImm w => c.push w
  | pop r => c.drop.set c.top r
  | movImm w r => c.set w r
  | load offset r => c.set (c.mem (c.esp + offset)) r
  | addEsp w => { c with esp := c.esp + w }
  | cmp w r => { c with flags := c.flags.compare (c.get r) w }

/-- `callTable` goes through a table, at the index in `eax`; `callC` to a function in C. -/
inductive Instr (ι : Type) where
  | op (o : Op)
  | jl (target : Word)
  | jg (target : Word)
  | call (target : Word)
  | callC (f : ι)
  | callTable
  | int (n : Nat)
  | iret
  | ret
  deriving DecidableEq

/-- An entry of the interrupt table. A trap leaves the interrupt flag alone. -/
structure InterruptGate where
  target : Word
  dpl : Nat
  trap : Bool

/-- The code, the interrupt table, the table of functions, the functions themselves, and the stack
and code segment of the kernel. -/
structure Processor (ι : Type) where
  code : Word → Option (Instr ι)
  vector : Nat → Option InterruptGate
  table : Word → Option ι
  function : ι → Cpu → Cpu
  esp0 : Word
  ss0 : Word
  kernelCs : Word

namespace Processor

variable {ι : Type}

/-- The stack an interrupt is pushed on: from outside the kernel it is the kernel's. -/
def stackOf (m : Processor ι) (c : Cpu) : Cpu :=
  if c.cpl = 0 then c
  else (Cpu.push { c with esp := m.esp0, ss := m.ss0 } c.ss).push c.esp

/-- An interrupt. -/
def enter (m : Processor ι) (v : InterruptGate) (c : Cpu) : Cpu :=
  { (((m.stackOf c).push c.flags.word).push c.cs).push c.eip with
    cs := m.kernelCs
    eip := v.target
    flags := { c.flags with interrupt := c.flags.interrupt && v.trap } }

/-- **One step.** -/
def step (m : Processor ι) (c : Cpu) : Option Cpu :=
  match m.code c.eip with
  | none => none
  | some (.op o) => some (o.exec c).next
  | some (.jl target) => some (if c.flags.less then { c with eip := target } else c.next)
  | some (.jg target) => some (if c.flags.greater then { c with eip := target } else c.next)
  | some (.call target) => some { c.push (c.eip + 1) with eip := target }
  | some (.callC f) => some (m.function f (c.push (c.eip + 1)))
  | some .callTable => (m.table c.eax).map fun f => m.function f (c.push (c.eip + 1))
  | some (.int n) =>
    match m.vector n with
    | none => none
    | some v => if c.cpl ≤ v.dpl then some (m.enter v c.next) else none
  | some .iret => some c.iret
  | some .ret => some { c.drop with eip := c.top }

/-- Some number of steps lead from one state to the other. -/
def Reaches (m : Processor ι) : Cpu → Cpu → Prop :=
  Relation.ReflTransGen fun c c' => m.step c = some c'

theorem Reaches.step {m : Processor ι} {c c' c'' : Cpu} (h : m.step c = some c')
    (h' : m.Reaches c' c'') : m.Reaches c c'' := Relation.ReflTransGen.head h h'

end Processor

/-! ## Straight-line code -/

section Block

variable {ι : Type} {m : Processor ι} {p : Word}

/-- The instructions stand from `p` on. -/
def At (code : Word → Option (Instr ι)) : Word → List (Instr ι) → Prop
  | _, [] => True
  | p, i :: is => code p = some i ∧ At code (p + 1) is

instance decidableAt [DecidableEq ι] (code : Word → Option (Instr ι)) :
    ∀ (p : Word) (is : List (Instr ι)), Decidable (At code p is)
  | _, [] => isTrue trivial
  | p, i :: is =>
    have := decidableAt code (p + 1) is
    inferInstanceAs (Decidable (code p = some i ∧ At code (p + 1) is))

theorem at_append {code : Word → Option (Instr ι)} {is js : List (Instr ι)} :
    At code p (is ++ js) ↔ At code p is ∧ At code (p + BitVec.ofNat 32 is.length) js := by
  induction is generalizing p with
  | nil => simp [At]
  | cons i is ih =>
    rw [List.cons_append, List.length_cons, Nat.add_comm, BitVec.ofNat_add, ← BitVec.add_assoc]
    simp only [At, ih, and_assoc]
    rfl

/-- What a block does. -/
def block (ops : List Op) (c : Cpu) : Cpu := ops.foldl (fun c o => (o.exec c).next) c

theorem exec_eip (o : Op) (c : Cpu) : (o.exec c).eip = c.eip := by
  cases o with
  | pop r => cases r <;> rfl
  | movImm w r => cases r <;> rfl
  | load offset r => cases r <;> rfl
  | _ => rfl

theorem reaches_block (ops : List Op) {c c' : Cpu} (h : At m.code c.eip (ops.map .op))
    (h' : m.Reaches (block ops c) c') : m.Reaches c c' := by
  induction ops generalizing c with
  | nil => exact h'
  | cons o ops ih =>
    have hstep : m.step c = some (o.exec c).next := by
      unfold Processor.step
      rw [h.1]
    refine .step hstep (ih ?_ h')
    have := h.2
    rwa [← exec_eip o c] at this

/-! ### Several pushes -/

variable {c : Cpu} {l : List Word}

/-- A push changes the stack only. -/
theorem block_pushes (rs : List Reg) (c : Cpu) : block (rs.map .push) c =
    { c with
      eip := c.eip + BitVec.ofNat 32 rs.length
      esp := c.esp - BitVec.ofNat 32 (4 * rs.length)
      mem := (block (rs.map .push) c).mem } := by
  induction rs generalizing c with
  | nil => simp [block]
  | cons r rs ih =>
    rw [List.map_cons]
    change block (rs.map .push) (c.push (c.get r)).next = _
    rw [ih]
    have heip : c.eip + 1 + BitVec.ofNat 32 rs.length =
        c.eip + BitVec.ofNat 32 (rs.length + 1) := by
      bv_omega
    have hesp : c.esp - 4 - BitVec.ofNat 32 (4 * rs.length) =
        c.esp - BitVec.ofNat 32 (4 * (rs.length + 1)) := by
      bv_omega
    simp only [Cpu.push, Cpu.next, List.length_cons, heip, hesp]
    rfl

theorem Stacked.pushes (rs : List Reg) (h : Stacked c.mem c.esp l)
    (hlen : l.length + rs.length < 2 ^ 30) :
    Stacked (block (rs.map .push) c).mem (block (rs.map .push) c).esp
      ((rs.map c.get).reverse ++ l) := by
  induction rs generalizing c l with
  | nil => exact h
  | cons r rs ih =>
    rw [List.length_cons] at hlen
    have hpush := h.push (by omega) (c.get r)
    have hrest := ih (c := (c.push (c.get r)).next) hpush (by rw [List.length_cons]; omega)
    have hget : (c.push (c.get r)).next.get = c.get := by
      funext r'
      cases r' <;> rfl
    rw [hget] at hrest
    rw [List.map_cons, List.map_cons, List.reverse_cons, List.append_assoc]
    exact hrest

theorem pushes_mem (rs : List Reg) {a : Word}
    (ha : ∀ k < rs.length, a ≠ c.esp - BitVec.ofNat 32 (4 * (k + 1))) :
    (block (rs.map .push) c).mem a = c.mem a := by
  induction rs generalizing c with
  | nil => rfl
  | cons r rs ih =>
    have h0 := ha 0 (by simp)
    refine (ih (c := (c.push (c.get r)).next) fun k hk => ?_).trans ?_
    · have hk' := ha (k + 1) (by simpa using hk)
      have hesp : (c.push (c.get r)).next.esp = c.esp - 4 := rfl
      rw [hesp]
      bv_omega
    · change (c.push (c.get r)).mem a = c.mem a
      rw [push_mem, Function.update_of_ne]
      bv_omega

end Block

/-! ## Interrupts -/

section Interrupt

variable {ι : Type} {m : Processor ι} {v : InterruptGate} {c c' : Cpu} {l : List Word}

/-- The address below which an interrupt is pushed. -/
def Processor.base (m : Processor ι) (c : Cpu) : Word := if c.cpl = 0 then c.esp else m.esp0

/-- What an interrupt pushes. -/
def frame (c : Cpu) : List Word :=
  [c.eip, c.cs, c.flags.word] ++ if c.cpl = 0 then [] else [c.esp, c.ss]

theorem stacked_enter (h : Stacked c.mem (m.base c) l) (hlen : l.length + 5 < 2 ^ 30) :
    Stacked (m.enter v c).mem (m.enter v c).esp (frame c ++ l) := by
  have hstack : Stacked (m.stackOf c).mem (m.stackOf c).esp
      ((if c.cpl = 0 then [] else [c.esp, c.ss]) ++ l) := by
    unfold Processor.stackOf
    unfold Processor.base at h
    split
    · rename_i h0
      rw [if_pos h0] at h
      exact h
    · rename_i h0
      rw [if_neg h0] at h
      have h' : Stacked (Cpu.mem { c with esp := m.esp0, ss := m.ss0 })
          (Cpu.esp { c with esp := m.esp0, ss := m.ss0 }) l := h
      exact (h'.push (by omega) c.ss).push (by simp only [List.length_cons]; omega) c.esp
  have hsize : ((if c.cpl = 0 then [] else [c.esp, c.ss]) ++ l).length ≤ l.length + 2 := by
    split <;> simp
  have h1 := hstack.push (by omega) c.flags.word
  have h2 := h1.push (by simp only [List.length_cons]; omega) c.cs
  exact h2.push (by simp only [List.length_cons]; omega) c.eip

theorem enter_esp (v : InterruptGate) (c : Cpu) :
    (m.enter v c).esp + BitVec.ofNat 32 (4 * (frame c).length) = m.base c := by
  unfold Processor.enter Processor.stackOf Processor.base frame
  split
  · change c.esp - 4 - 4 - 4 + BitVec.ofNat 32 12 = c.esp
    bv_omega
  · change m.esp0 - 4 - 4 - 4 - 4 - 4 + BitVec.ofNat 32 20 = m.esp0
    bv_omega

/-- The registers that hold data are left alone. -/
theorem enter_get (m : Processor ι) (v : InterruptGate) (c : Cpu) : (m.enter v c).get = c.get := by
  have hpush : ∀ (c : Cpu) (w : Word), (c.push w).get = c.get := by
    intro c w
    funext r
    cases r <;> rfl
  have hstack : (m.stackOf c).get = c.get := by
    unfold Processor.stackOf
    split
    · rfl
    · rw [hpush, hpush]
      funext r
      cases r <;> rfl
  have hjump : ∀ (c : Cpu) (cs eip : Word) (flags : Flags),
      Cpu.get { c with cs := cs, eip := eip, flags := flags } = c.get := by
    intro c cs eip flags
    funext r
    cases r <;> rfl
  unfold Processor.enter
  rw [hjump, hpush, hpush, hpush, hstack]

theorem enter_ss (v : InterruptGate) (h : c.cpl = 0) : (m.enter v c).ss = c.ss := by
  have hpush : ∀ (c : Cpu) (w : Word), (c.push w).ss = c.ss := fun _ _ => rfl
  unfold Processor.enter Processor.stackOf
  rw [if_pos h]
  simp only [hpush]

/-- The words an interrupt writes. -/
theorem enter_mem (v : InterruptGate) (c : Cpu) {a : Word}
    (ha : ∀ k < 5, a ≠ m.base c - BitVec.ofNat 32 (4 * (k + 1))) :
    (m.enter v c).mem a = c.mem a := by
  have h0 := ha 0 (by decide)
  have h1 := ha 1 (by decide)
  have h2 := ha 2 (by decide)
  have h3 := ha 3 (by decide)
  have h4 := ha 4 (by decide)
  unfold Processor.base at h0 h1 h2 h3 h4
  unfold Processor.enter Processor.stackOf
  split
  · rename_i hc
    simp only [hc, if_true] at h0 h1 h2
    simp only [Cpu.push]
    rw [Function.update_of_ne, Function.update_of_ne, Function.update_of_ne]
    · bv_omega
    · bv_omega
    · bv_omega
  · rename_i hc
    simp only [hc, if_false] at h0 h1 h2 h3 h4
    simp only [Cpu.push]
    rw [Function.update_of_ne, Function.update_of_ne, Function.update_of_ne,
      Function.update_of_ne, Function.update_of_ne]
    · bv_omega
    · bv_omega
    · bv_omega
    · bv_omega
    · bv_omega

/-- **The return undoes the interrupt**, given what it pushed: only the registers that hold data,
and the memory, are the handler's. -/
theorem iret_of_frame (hcs : c'.cpl = 0) (hss : c.cpl = 0 → c'.ss = c.ss)
    (hesp : c'.esp + BitVec.ofNat 32 (4 * (frame c).length) = m.base c)
    (h : Stacked c'.mem c'.esp (frame c)) :
    c'.iret =
      { c' with
        eip := c.eip
        cs := c.cs
        flags := c.flags
        esp := c.esp
        ss := c.ss } := by
  unfold Processor.base at hesp
  unfold frame at h hesp
  obtain ⟨heip, hcs', hflags, hrest⟩ := h
  rw [show c'.esp + 4 + 4 = c'.esp + 8 by bv_omega] at hflags
  unfold Cpu.iret
  simp only [heip, hcs', hflags, Flags.ofWord_word]
  have hlevel : Cpu.cpl { c' with eip := c.eip, cs := c.cs, flags := c.flags, esp := c'.esp + 12 } =
      c.cpl := rfl
  rw [hlevel, hcs]
  by_cases h0 : c.cpl = 0
  · rw [if_neg (by omega), ← hss h0]
    rw [if_pos h0] at hesp
    rw [if_pos h0] at hesp
    rw [← hesp]
    rfl
  · rw [if_neg h0] at hrest
    obtain ⟨hesp', hss', -⟩ := hrest
    rw [show c'.esp + 4 + 4 + 4 = c'.esp + 12 by bv_omega] at hesp' hss'
    rw [show c'.esp + 12 + 4 = c'.esp + 16 by bv_omega] at hss'
    rw [if_pos (by omega), hesp', hss']

/-- What an interrupt leaves for its return. -/
theorem stacked_frame (m : Processor ι) (v : InterruptGate) (c : Cpu) :
    Stacked (m.enter v c).mem (m.enter v c).esp (frame c) := by
  have h := stacked_enter (m := m) (v := v) (c := c) (l := []) trivial (by decide)
  rwa [List.append_nil] at h

/-- **The return from an interrupt of `c`**, by a handler that has restored the registers but
`eax`, `ecx` and `edx`. -/
theorem reaches_return (hcs : m.kernelCs.toNat % 4 = 0) {eip eax ecx edx : Word} {flags : Flags}
    {mem : Word → Word} (hcode : m.code eip = some .iret)
    (h : Stacked mem (m.enter v c).esp (frame c)) :
    m.Reaches
      { m.enter v c with
        eax := eax
        ecx := ecx
        edx := edx
        eip := eip
        flags := flags
        mem := mem }
      { c with
        eax := eax
        ecx := ecx
        edx := edx
        mem := mem } := by
  have hregs := enter_get m v c
  have hebx : (m.enter v c).ebx = c.ebx := congrFun hregs .ebx
  have hesi : (m.enter v c).esi = c.esi := congrFun hregs .esi
  have hedi : (m.enter v c).edi = c.edi := congrFun hregs .edi
  have hebp : (m.enter v c).ebp = c.ebp := congrFun hregs .ebp
  have hstep : m.step { m.enter v c with
      eax := eax, ecx := ecx, edx := edx, eip := eip, flags := flags, mem := mem } =
      some (Cpu.iret { m.enter v c with
        eax := eax, ecx := ecx, edx := edx, eip := eip, flags := flags, mem := mem }) := by
    unfold Processor.step
    rw [hcode]
  have hlevel : Cpu.cpl { m.enter v c with
      eax := eax, ecx := ecx, edx := edx, eip := eip, flags := flags, mem := mem } = 0 := hcs
  rw [iret_of_frame hlevel (fun h0 => enter_ss v h0) (enter_esp v c) h] at hstep
  simp only [hebx, hesi, hedi, hebp] at hstep ⊢
  exact .step hstep .refl

end Interrupt

/-! ## Functions in C -/

/-- **What a function in C keeps**: it returns to its caller, with the registers that are the
caller's, and leaves `n` words of the stack alone from behind its `args` arguments on. -/
structure Cdecl (args n : Nat) (c c' : Cpu) : Prop where
  eip : c'.eip = c.top
  esp : c'.esp = c.esp + 4
  ebx : c'.ebx = c.ebx
  esi : c'.esi = c.esi
  edi : c'.edi = c.edi
  ebp : c'.ebp = c.ebp
  cs : c'.cs = c.cs
  ss : c'.ss = c.ss
  stack : ∀ k < n, c'.mem (c.esp + 4 + BitVec.ofNat 32 (4 * (args + k))) =
    c.mem (c.esp + 4 + BitVec.ofNat 32 (4 * (args + k)))

end MyOS.Machine
