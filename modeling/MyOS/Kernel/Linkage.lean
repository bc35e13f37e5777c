import MyOS.Kernel.Interrupts
import MyOS.Machine.Cpu

/-!
# `handler.S` and `ece391syscall.S`: the way into the kernel and back

The assembly on both sides of a system call: the wrappers of the programs (`DO_CALL`,
`ece391syscall.S:8-29`), `asm_linkage` with its jump table (`handler.S:34-67`), `_start`
(`ece391syscall.S:34-40`), and the helpers of the two interrupts (`handler.S:147-154`). The
functions in C that they call are any functions that keep the calling convention.

* `asmLinkage`, `doCall`, `start`, `keyboardHelper`, `rtcHelper`: the code.
* `Loaded`: it stands in memory, and the vectors are those of `idtInit`.
* **`system_call_linked`**: each wrapper calls the function of its name in the kernel, with its own
  three arguments, and returns what that returned, with the registers of its caller.
* **`int80_refused`**: any other number changes `eax` only.
* **`start_halts`**: a program halts with what its `main` returned.
* **`interrupt_returns`**: the helpers of the interrupts save nothing, so the interrupted program
  goes on with the handler's `eax`, `ecx` and `edx`.
-/

namespace MyOS.Kernel

open MyOS.Machine

/-! ## The code -/

/-- The functions in C that the assembly calls. -/
inductive CFunction where
  | halt | execute | read | write | open | close | getargs | vidmap | setHandler | sigreturn
  | keyboardInterruptHandler | rtcHandler | main
  deriving DecidableEq

/-- `ece391sysnum.h`: the system calls and their numbers. -/
def sysNum : List (CFunction × Word) :=
  [(.halt, 1), (.execute, 2), (.read, 3), (.write, 4), (.open, 5), (.close, 6), (.getargs, 7),
    (.vidmap, 8), (.setHandler, 9), (.sigreturn, 10)]

/-- `systemcall_jump_table`. -/
def systemcallJumpTable (i : Word) : Option CFunction :=
  if i = 1 then some .halt
  else if i = 2 then some .execute
  else if i = 3 then some .read
  else if i = 4 then some .write
  else if i = 5 then some .open
  else if i = 6 then some .close
  else if i = 7 then some .getargs
  else if i = 8 then some .vidmap
  else if i = 9 then some .setHandler
  else if i = 10 then some .sigreturn
  else none

/-- What `asm_linkage` pushes: the registers it saves, and the three arguments. -/
def linkagePushes : List Op :=
  [.ebp, .edi, .esi, .edx, .ecx, .ebx, .edx, .ecx, .ebx].map .push

/-- What it pops. -/
def linkagePops : List Op :=
  [.addEsp 12, .pop .ebx, .pop .ecx, .pop .edx, .pop .esi, .pop .edi, .pop .ebp]

/-- `asm_linkage`, from `p` on. `INVALID_NUMBER` is its 23rd instruction. -/
def asmLinkage (p : Word) : List (Instr CFunction) :=
  [.op (.cmp 1 .eax), .jl (p + 22), .op (.cmp 10 .eax), .jg (p + 22)] ++
  (linkagePushes.map .op ++
  (.callTable :: (linkagePops.map .op ++
  [.iret, .op (.movImm (-1) .eax), .iret])))

/-- `DO_CALL` up to its interrupt. -/
def doCallLoads (number : Word) : List Op :=
  [.push .ebx, .movImm number .eax, .load 8 .ebx, .load 12 .ecx, .load 16 .edx]

/-- `DO_CALL(name, number)`. -/
def doCall (number : Word) : List (Instr CFunction) :=
  (doCallLoads number).map .op ++ [.int 0x80, .op (.pop .ebx), .ret]

/-- `_start`, with the wrapper of `halt` at `halt`. -/
def start (halt : Word) : List (Instr CFunction) :=
  .callC .main :: ([.pushImm 0, .pushImm 0, .push .eax].map .op ++ [.call halt])

/-- `keyboard_helper`. -/
def keyboardHelper : List (Instr CFunction) := [.callC .keyboardInterruptHandler, .iret]

/-- `rtc_helper`. -/
def rtcHelper : List (Instr CFunction) := [.callC .rtcHandler, .iret]

/-- The code is loaded: the helpers where the interrupt table has them, and the wrappers. -/
structure Loaded (m : Processor CFunction) (helper : Helper → Word) (wrapper : Word → Word) :
    Prop where
  linkage : At m.code (helper .asmLinkage) (asmLinkage (helper .asmLinkage))
  keyboard : At m.code (helper .keyboard) keyboardHelper
  rtc : At m.code (helper .rtc) rtcHelper
  wrappers : ∀ f ∈ sysNum, At m.code (wrapper f.2) (doCall f.2)
  vectors : ∀ n, m.vector n = (idtInit n).handler.map fun h =>
    ⟨helper h, (idtInit n).dpl, (idtInit n).reserved3⟩
  table : m.table = systemcallJumpTable
  kernelCs : m.kernelCs = 0x10

/-- The code one behind the other: `asm_linkage`, the two helpers, the ten wrappers and `_start`. -/
def demoCode : List (Instr CFunction) :=
  asmLinkage 0 ++ keyboardHelper ++ rtcHelper ++ sysNum.flatMap (fun f => doCall f.2) ++ start 28

/-- Where the helpers are in `demoCode`. -/
def demoHelper : Helper → Word
  | .asmLinkage => 0
  | .keyboard => 24
  | .rtc => 26
  | _ => 200

/-- Where the wrappers are. -/
def demoWrapper (number : Word) : Word := 28 + 8 * (number - 1)

/-- A machine with it, on which every function returns 42 at once. -/
def demoProcessor : Processor CFunction where
  code p := demoCode[p.toNat]?
  vector n := (idtInit n).handler.map fun h =>
    ⟨demoHelper h, (idtInit n).dpl, (idtInit n).reserved3⟩
  table := systemcallJumpTable
  function _ c := { c.drop with eip := c.top, eax := 42 }
  esp0 := 0x7FDFFC
  ss0 := 0x18
  kernelCs := 0x10

theorem loaded_demo : Loaded demoProcessor demoHelper demoWrapper where
  linkage := by decide
  keyboard := by decide
  rtc := by decide
  wrappers := by decide
  vectors _ := rfl
  table := rfl
  kernelCs := rfl

/-- Its functions keep the calling convention. -/
theorem cdecl_demo (f : CFunction) (args n : Nat) (c : Cpu) :
    Cdecl args n c (demoProcessor.function f c) :=
  ⟨rfl, rfl, rfl, rfl, rfl, rfl, rfl, rfl, fun _ _ => rfl⟩

/-- A program at address `eip`, with 7 in some registers. -/
def demoCpu (eip : Word) : Cpu :=
  { (default : Cpu) with
    eax := 7
    ebx := 7
    ecx := 7
    esp := 0x83FFFF0
    eip := eip
    cs := 0x23
    ss := 0x2B }

/-! ## `asm_linkage` -/

section Linkage

variable {m : Processor CFunction} {helper : Helper → Word} {wrapper : Word → Word} {c u : Cpu}
  {f : CFunction} {l : List Word}

/-- Where the parts of `asm_linkage` stand. -/
structure LinkageAt (code : Word → Option (Instr CFunction)) (p : Word) : Prop where
  cmp1 : code p = some (.op (.cmp 1 .eax))
  jl : code (p + 1) = some (.jl (p + 22))
  cmp10 : code (p + 2) = some (.op (.cmp 10 .eax))
  jg : code (p + 3) = some (.jg (p + 22))
  pushes : At code (p + 4) (linkagePushes.map .op)
  call : code (p + 13) = some .callTable
  pops : At code (p + 14) (linkagePops.map .op)
  iret : code (p + 21) = some .iret
  invalid : code (p + 22) = some (.op (.movImm (-1) .eax))
  iretInvalid : code (p + 23) = some .iret

theorem linkageAt {code : Word → Option (Instr CFunction)} {p : Word}
    (h : At code p (asmLinkage p)) : LinkageAt code p := by
  have h2 : p + 1 + 1 = p + 2 := by bv_omega
  have h3 : p + 2 + 1 = p + 3 := by bv_omega
  have h4 : p + BitVec.ofNat 32 4 + BitVec.ofNat 32 9 = p + 13 := by bv_omega
  have h14 : p + 13 + 1 = p + 14 := by bv_omega
  have h21 : p + 14 + BitVec.ofNat 32 7 = p + 21 := by bv_omega
  have h22 : p + 21 + 1 = p + 22 := by bv_omega
  have h23 : p + 22 + 1 = p + 23 := by bv_omega
  obtain ⟨⟨hcmp1, hjl, hcmp10, hjg, -⟩, hrest⟩ := at_append.mp h
  obtain ⟨hpushes, hcall, hrest⟩ := at_append.mp hrest
  change code (p + BitVec.ofNat 32 4 + BitVec.ofNat 32 9) = _ at hcall
  change At code (p + BitVec.ofNat 32 4 + BitVec.ofNat 32 9 + 1) _ at hrest
  rw [h4] at hcall hrest
  rw [h14] at hrest
  obtain ⟨hpops, hiret, hinvalid, hiret', -⟩ := at_append.mp hrest
  change code (p + 14 + BitVec.ofNat 32 7) = _ at hiret
  change code (p + 14 + BitVec.ofNat 32 7 + 1) = _ at hinvalid
  change code (p + 14 + BitVec.ofNat 32 7 + 1 + 1) = _ at hiret'
  rw [h2] at hcmp10 hjg
  rw [h3] at hjg
  rw [h21] at hiret hinvalid hiret'
  rw [h22] at hinvalid hiret'
  rw [h23] at hiret'
  exact ⟨hcmp1, hjl, hcmp10, hjg, hpushes, hcall, hpops, hiret, hinvalid, hiret'⟩

/-- `asm_linkage` at its call, from `c` at its start. -/
def atCall (c : Cpu) : Cpu :=
  block linkagePushes
    { c with
      eip := c.eip + 4
      flags := (c.flags.compare c.eax 1).compare c.eax 10 }

/-- The state in which it calls. -/
def callEntry (c : Cpu) : Cpu := (atCall c).push ((atCall c).eip + 1)

/-- The first check. -/
theorem reaches_check1 (hm : LinkageAt m.code c.eip) {c' : Cpu}
    (h : m.Reaches
      { c with
        eip := if c.eax.toInt < 1 then c.eip + 22 else c.eip + 2
        flags := c.flags.compare c.eax 1 } c') : m.Reaches c c' := by
  have hcmp : m.step c = some { c with
      eip := c.eip + 1, flags := c.flags.compare c.eax 1 } := by
    unfold Processor.step
    rw [hm.cmp1]
    rfl
  refine .step hcmp (.step ?_ h)
  unfold Processor.step
  simp only [hm.jl, Flags.less_compare, decide_eq_true_eq]
  have h1 : (1 : Word).toInt = 1 := rfl
  have h2 : c.eip + 1 + 1 = c.eip + 2 := by bv_omega
  rw [h1]
  split
  · rfl
  · unfold Cpu.next
    simp only [h2]

/-- The second check. -/
theorem reaches_check10 (hm : LinkageAt m.code u.eip) {c' : Cpu} (heip : c.eip = u.eip + 2)
    (h : m.Reaches
      { c with
        eip := if 10 < c.eax.toInt then u.eip + 22 else u.eip + 4
        flags := c.flags.compare c.eax 10 } c') : m.Reaches c c' := by
  have h3 : u.eip + 2 + 1 = u.eip + 3 := by bv_omega
  have h4 : u.eip + 3 + 1 = u.eip + 4 := by bv_omega
  have hcmp : m.step c = some { c with
      eip := u.eip + 3, flags := c.flags.compare c.eax 10 } := by
    unfold Processor.step
    rw [heip, hm.cmp10, ← h3, ← heip]
    rfl
  refine .step hcmp (.step ?_ h)
  unfold Processor.step
  simp only [hm.jg, Flags.greater_compare, decide_eq_true_eq]
  have h10 : (10 : Word).toInt = 10 := rfl
  rw [h10]
  split
  · rfl
  · unfold Cpu.next
    simp only [h4]

/-- The numbers that are let through. -/
theorem reaches_atCall (hm : LinkageAt m.code c.eip) (h1 : 1 ≤ c.eax.toInt)
    (h10 : c.eax.toInt ≤ 10) : m.Reaches c (atCall c) := by
  refine reaches_check1 hm ?_
  rw [if_neg (by omega)]
  refine reaches_check10 hm rfl ?_
  rw [if_neg (by simpa using h10)]
  exact reaches_block linkagePushes hm.pushes .refl

/-- The numbers that are not. -/
theorem reaches_invalid (hm : LinkageAt m.code c.eip) (h : ¬ (1 ≤ c.eax.toInt ∧ c.eax.toInt ≤ 10)) :
    ∃ flags, m.Reaches c
      { c with
        eip := c.eip + 23
        flags := flags
        eax := -1 } := by
  have h23 : c.eip + 22 + 1 = c.eip + 23 := by bv_omega
  by_cases h1 : c.eax.toInt < 1
  · refine ⟨c.flags.compare c.eax 1, reaches_check1 hm ?_⟩
    rw [if_pos h1]
    refine .step ?_ .refl
    unfold Processor.step
    rw [hm.invalid, ← h23]
    rfl
  · refine ⟨(c.flags.compare c.eax 1).compare c.eax 10, reaches_check1 hm ?_⟩
    rw [if_neg h1]
    refine reaches_check10 hm rfl ?_
    rw [if_pos (by simp only; omega)]
    refine .step ?_ .refl
    unfold Processor.step
    rw [hm.invalid, ← h23]
    rfl

/-- The processor when it calls, without the stack. -/
theorem atCall_eq (c : Cpu) : atCall c =
    { c with
      eip := c.eip + 13
      esp := c.esp - 36
      flags := (c.flags.compare c.eax 1).compare c.eax 10
      mem := (atCall c).mem } := by
  have heip : c.eip + 4 + BitVec.ofNat 32 9 = c.eip + 13 := by bv_omega
  refine (block_pushes _ _).trans ?_
  rw [← heip]
  rfl

theorem atCall_eip (c : Cpu) : (atCall c).eip = c.eip + 13 := by rw [atCall_eq]

theorem atCall_esp (c : Cpu) : (atCall c).esp = c.esp - 36 := by rw [atCall_eq]

theorem atCall_eax (c : Cpu) : (atCall c).eax = c.eax := by rw [atCall_eq]

theorem step_atCall (hm : LinkageAt m.code c.eip) (htable : m.table c.eax = some f) :
    m.step (atCall c) = some (m.function f (callEntry c)) := by
  unfold Processor.step callEntry
  rw [atCall_eip, hm.call]
  simp only [atCall_eax, htable, Option.map_some]

theorem callEntry_segments (c : Cpu) : (callEntry c).cs = c.cs ∧ (callEntry c).ss = c.ss ∧
    (callEntry c).flags.interrupt = c.flags.interrupt := by
  unfold callEntry
  rw [atCall_eq]
  exact ⟨rfl, rfl, rfl⟩

theorem callEntry_esp (c : Cpu) : (callEntry c).esp = c.esp - 40 := by
  change (atCall c).esp - 4 = c.esp - 40
  rw [atCall_esp]
  bv_omega

/-- What is on the stack when the function is called: its arguments, and what is popped again. -/
theorem stacked_callEntry (h : Stacked c.mem c.esp l) (hlen : l.length + 10 < 2 ^ 30) :
    Stacked (callEntry c).mem ((callEntry c).esp + 4) (c.ebx :: c.ecx :: c.edx ::
      c.ebx :: c.ecx :: c.edx :: c.esi :: c.edi :: c.ebp :: l) := by
  have hpushes : Stacked (atCall c).mem (atCall c).esp (c.ebx :: c.ecx :: c.edx ::
      c.ebx :: c.ecx :: c.edx :: c.esi :: c.edi :: c.ebp :: l) :=
    Stacked.pushes [.ebp, .edi, .esi, .edx, .ecx, .ebx, .edx, .ecx, .ebx] h
      (by simp only [List.length_cons, List.length_nil]; omega)
  exact (hpushes.push (by simp only [List.length_cons]; omega) ((atCall c).eip + 1)).2

/-- Nothing else was written. -/
theorem callEntry_mem (c : Cpu) {a : Word}
    (ha : ∀ k < 10, a ≠ c.esp - BitVec.ofNat 32 (4 * (k + 1))) :
    (callEntry c).mem a = c.mem a := by
  have hpushes : (atCall c).mem a = c.mem a :=
    pushes_mem [.ebp, .edi, .esi, .edx, .ecx, .ebx, .edx, .ecx, .ebx] fun k hk => ha k (by
      simp only [List.length_cons, List.length_nil] at hk
      omega)
  have hlast := ha 9 (by decide)
  unfold callEntry
  rw [push_mem, atCall_esp, Function.update_of_ne, hpushes]
  bv_omega

/-- **The function returns**: what was saved is restored. -/
theorem linkagePops_eq {post : Cpu} (h : Stacked c.mem c.esp l) (hlen : l.length + 10 < 2 ^ 30)
    (hpost : Cdecl 3 (6 + l.length) (callEntry c) post) :
    Stacked post.mem c.esp l ∧ post.eip = c.eip + 14 ∧ block linkagePops post =
      { c with
        eax := post.eax
        eip := c.eip + 21
        flags := post.flags
        mem := post.mem } := by
  have hargs := stacked_callEntry h hlen
  have hsaved : Stacked post.mem ((callEntry c).esp + 4 + 4 + 4 + 4)
      (c.ebx :: c.ecx :: c.edx :: c.esi :: c.edi :: c.ebp :: l) := by
    refine hargs.2.2.2.congr fun k hk => ?_
    simp only [List.length_cons] at hk
    have hkeep := hpost.stack k (by omega)
    have haddr : (callEntry c).esp + 4 + BitVec.ofNat 32 (4 * (3 + k)) =
        (callEntry c).esp + 4 + 4 + 4 + 4 + BitVec.ofNat 32 (4 * k) := by bv_omega
    rwa [haddr] at hkeep
  have hesp : (callEntry c).esp + 4 + 4 + 4 + 4 = post.esp + 12 := by
    rw [hpost.esp]
    bv_omega
  rw [hesp] at hsaved
  obtain ⟨hebx, hecx, hedx, hesi, hedi, hebp, hl⟩ := hsaved
  have hend : post.esp + 12 + 4 + 4 + 4 + 4 + 4 + 4 = c.esp := by
    rw [hpost.esp, callEntry_esp]
    bv_omega
  have htop : (callEntry c).top = c.eip + 14 := by
    unfold callEntry
    rw [push_top, atCall_eip]
    bv_omega
  have heip := hpost.eip.trans htop
  have heip' : post.eip + 1 + 1 + 1 + 1 + 1 + 1 + 1 = c.eip + 21 := by
    rw [heip]
    bv_omega
  have hcs := hpost.cs.trans (callEntry_segments c).1
  have hss := hpost.ss.trans (callEntry_segments c).2.1
  refine ⟨by rwa [hend] at hl, heip, ?_⟩
  simp only [linkagePops, block, List.foldl_cons, List.foldl_nil, Op.exec, Cpu.drop, Cpu.top,
    Cpu.set, Cpu.next, hebx, hecx, hedx, hesi, hedi, hebp, hend, heip', hcs, hss]

/-- **The way through `asm_linkage`**: of the interrupted processor, only `eax` and the memory have
changed. -/
theorem reaches_linked {v : InterruptGate} (hm : LinkageAt m.code v.target)
    (hcs : m.kernelCs = 0x10) (h1 : 1 ≤ u.eax.toInt) (h10 : u.eax.toInt ≤ 10)
    (htable : m.table u.eax = some f)
    (hpost : Cdecl 3 (6 + (frame u).length) (callEntry (m.enter v u))
      (m.function f (callEntry (m.enter v u)))) :
    m.Reaches (m.enter v u)
      { u with
        eax := (m.function f (callEntry (m.enter v u))).eax
        mem := (m.function f (callEntry (m.enter v u))).mem } := by
  have hregs := enter_get m v u
  have hstack := stacked_frame m v u
  have heax : (m.enter v u).eax = u.eax := congrFun hregs .eax
  have hlen : (frame u).length + 10 < 2 ^ 30 := by
    unfold frame
    split <;> simp
  rw [← heax] at h1 h10 htable
  obtain ⟨hframe, heip, hpops⟩ := linkagePops_eq hstack hlen hpost
  refine (reaches_atCall hm h1 h10).trans ?_
  refine Processor.Reaches.step (step_atCall hm htable) (reaches_block linkagePops ?_ ?_)
  · rw [heip]
    exact hm.pops
  rw [hpops]
  generalize m.function f (callEntry (m.enter v u)) = post at *
  have hecx : (m.enter v u).ecx = u.ecx := congrFun hregs .ecx
  have hedx : (m.enter v u).edx = u.edx := congrFun hregs .edx
  rw [hecx, hedx]
  exact reaches_return (by rw [hcs]; rfl) hm.iret hframe

end Linkage

/-! ## The wrappers -/

section Wrapper

variable {m : Processor CFunction} {helper : Helper → Word} {wrapper : Word → Word} {c : Cpu}
  {f : CFunction} {number : Word}

/-- The gate of the system calls: open to programs, with interrupts disabled. -/
def systemGate (helper : Helper → Word) : InterruptGate := ⟨helper .asmLinkage, 3, false⟩

theorem Loaded.gate (hm : Loaded m helper wrapper) : m.vector 0x80 = some (systemGate helper) := by
  have hidt : idtInit 0x80 = ⟨false, 3, some .asmLinkage⟩ := by decide
  rw [hm.vectors, hidt]
  rfl

/-- The table has each system call at its number, and these are the ones let through. -/
theorem sysNum_spec : ∀ p ∈ sysNum, 1 ≤ p.2.toInt ∧ p.2.toInt ≤ 10 ∧
    systemcallJumpTable p.2 = some p.1 := by
  decide

/-- The processor that the interrupt of a wrapper finds: number and arguments are in registers. -/
def trapped (c : Cpu) (number : Word) : Cpu :=
  { c with
    eax := number
    ebx := c.mem (c.esp + 4)
    ecx := c.mem (c.esp + 8)
    edx := c.mem (c.esp + 12)
    esp := c.esp - 4
    eip := c.eip + 6
    mem := Function.update c.mem (c.esp - 4) c.ebx }

theorem block_doCallLoads (c : Cpu) (number : Word) : block (doCallLoads number) c =
    { trapped c number with eip := c.eip + 5 } := by
  have h4 : c.esp - 4 + 8 = c.esp + 4 := by bv_omega
  have h8 : c.esp - 4 + 12 = c.esp + 8 := by bv_omega
  have h12 : c.esp - 4 + 16 = c.esp + 12 := by bv_omega
  have hne4 : c.esp + 4 ≠ c.esp - 4 := by bv_omega
  have hne8 : c.esp + 8 ≠ c.esp - 4 := by bv_omega
  have hne12 : c.esp + 12 ≠ c.esp - 4 := by bv_omega
  have heip : c.eip + 1 + 1 + 1 + 1 + 1 = c.eip + 5 := by bv_omega
  simp only [doCallLoads, block, List.foldl_cons, List.foldl_nil, Op.exec, Cpu.push, Cpu.get,
    Cpu.set, Cpu.next, trapped, h4, h8, h12, Function.update_of_ne hne4, Function.update_of_ne hne8,
    Function.update_of_ne hne12, heip]

/-- The wrapper, up to the kernel. -/
theorem reaches_trapped (hm : Loaded m helper wrapper) (hcode : At m.code c.eip (doCall number))
    (hcpl : c.cpl = 3) :
    m.Reaches c (m.enter (systemGate helper) (trapped c number)) := by
  obtain ⟨hloads, hint, -⟩ := at_append.mp hcode
  change m.code (c.eip + 5) = some (.int 0x80) at hint
  have heip : c.eip + 5 + 1 = c.eip + 6 := by bv_omega
  refine reaches_block _ hloads (.step ?_ .refl)
  rw [block_doCallLoads]
  have hlevel : Cpu.cpl { trapped c number with eip := c.eip + 5 } = 3 := hcpl
  unfold Processor.step
  simp only [hint, hm.gate]
  rw [if_pos (by rw [hlevel]; exact Nat.le_refl 3)]
  unfold Cpu.next
  simp only [heip]
  rfl

/-- The state in which the kernel's function is called. -/
def wrapperEntry (m : Processor CFunction) (helper : Helper → Word) (c : Cpu) (number : Word) :
    Cpu :=
  callEntry (m.enter (systemGate helper) (trapped c number))

/-- The words of the kernel's stack that a system call writes. -/
def KernelWords (m : Processor CFunction) (a : Word) : Prop :=
  ∃ k < 15, a = m.esp0 - BitVec.ofNat 32 (4 * (k + 1))

theorem enter_esp_user (hcpl : c.cpl = 3) (v : InterruptGate) :
    (m.enter v c).esp = m.esp0 - 20 ∧ m.base c = m.esp0 := by
  have h0 : ¬ c.cpl = 0 := by omega
  have hesp := enter_esp (m := m) v c
  unfold Processor.base frame at hesp
  unfold Processor.base
  simp only [if_neg h0] at hesp ⊢
  change (m.enter v c).esp + BitVec.ofNat 32 20 = m.esp0 at hesp
  refine ⟨?_, trivial⟩
  rw [← hesp]
  bv_omega

theorem wrapperEntry_mem (hcpl : c.cpl = 3) {a : Word} (ha : ¬ KernelWords m a) :
    (wrapperEntry m helper c number).mem a = (trapped c number).mem a := by
  obtain ⟨hesp, hbase⟩ := enter_esp_user (m := m) (c := trapped c number) hcpl (systemGate helper)
  unfold wrapperEntry
  rw [callEntry_mem, enter_mem]
  · intro k hk h
    rw [hbase] at h
    exact ha ⟨k, by omega, h⟩
  · intro k hk h
    refine ha ⟨k + 5, by omega, h.trans ?_⟩
    rw [hesp]
    bv_omega

/-- From `c` on, `f` is called with `entry` through the jump table. -/
def CallsFrom (m : Processor CFunction) (c : Cpu) (f : CFunction) (entry : Cpu) : Prop :=
  ∃ at', m.Reaches c at' ∧ m.code at'.eip = some .callTable ∧ m.table at'.eax = some f ∧
    entry = at'.push (at'.eip + 1)

/-- The kernel's stack lies below 8 MB, and the program's in its page at 128 MB. -/
structure StacksApart (m : Processor CFunction) (c : Cpu) : Prop where
  kernelLow : 60 ≤ m.esp0.toNat
  kernelHigh : m.esp0.toNat ≤ 0x800000
  userLow : 0x8000004 ≤ c.esp.toNat
  userHigh : c.esp.toNat < 0x8400000

theorem StacksApart.not_kernelWords (h : StacksApart m c) {a : Word}
    (ha : a = c.esp ∨ a = c.esp - 4) : ¬ KernelWords m a := by
  rintro ⟨k, hk, rfl⟩
  obtain ⟨hkl, hkh, hul, huh⟩ := h
  rcases ha with ha | ha <;> bv_omega

/-- **The wrapper calls the function of its name.** -/
theorem wrapper_calls (hm : Loaded m helper wrapper) (hf : (f, number) ∈ sysNum)
    (heip : c.eip = wrapper number) (hcpl : c.cpl = 3) :
    CallsFrom m c f (wrapperEntry m helper c number) ∧
    Stacked (wrapperEntry m helper c number).mem ((wrapperEntry m helper c number).esp + 4)
      [c.mem (c.esp + 4), c.mem (c.esp + 8), c.mem (c.esp + 12)] := by
  obtain ⟨h1, h10, htable⟩ := sysNum_spec _ hf
  have hcode := hm.wrappers _ hf
  rw [← heip] at hcode
  have hregs := enter_get m (systemGate helper) (trapped c number)
  have heax : (m.enter (systemGate helper) (trapped c number)).eax = number :=
    congrFun hregs .eax
  have hstack : Stacked (m.enter (systemGate helper) (trapped c number)).mem
      (m.enter (systemGate helper) (trapped c number)).esp [] := trivial
  have hargs := stacked_callEntry hstack (by decide)
  refine ⟨⟨atCall (m.enter (systemGate helper) (trapped c number)), ?_, ?_, ?_, rfl⟩, ?_, ?_, ?_,
    trivial⟩
  · refine (reaches_trapped hm hcode hcpl).trans (reaches_atCall (linkageAt hm.linkage) ?_ ?_)
    · rw [heax]
      exact h1
    · rw [heax]
      exact h10
  · rw [atCall_eq]
    exact (linkageAt hm.linkage).call
  · rw [atCall_eq, hm.table]
    change systemcallJumpTable (m.enter (systemGate helper) (trapped c number)).eax = _
    rw [heax]
    exact htable
  · exact hargs.1.trans (congrFun hregs .ebx)
  · exact hargs.2.1.trans (congrFun hregs .ecx)
  · exact hargs.2.2.1.trans (congrFun hregs .edx)

/-- **And returns what it returned.** -/
theorem wrapper_returns (hm : Loaded m helper wrapper) (hf : (f, number) ∈ sysNum)
    (heip : c.eip = wrapper number) (hcpl : c.cpl = 3) {post : Cpu}
    (hpost : m.function f (wrapperEntry m helper c number) = post)
    (hcdecl : Cdecl 3 11 (wrapperEntry m helper c number) post)
    (hebx : post.mem (c.esp - 4) = c.ebx) (htop : post.mem c.esp = c.top) :
    m.Reaches c
      { c with
        eax := post.eax
        ecx := c.mem (c.esp + 8)
        edx := c.mem (c.esp + 12)
        eip := c.top
        esp := c.esp + 4
        mem := post.mem } := by
  obtain ⟨h1, h10, htable⟩ := sysNum_spec _ hf
  have hcode := hm.wrappers _ hf
  rw [← heip] at hcode
  have hlen : 6 + (frame (trapped c number)).length = 11 := by
    have h0 : ¬ (trapped c number).cpl = 0 := by
      change ¬ c.cpl = 0
      omega
    unfold frame
    rw [if_neg h0]
    rfl
  have hlinked := reaches_linked (u := trapped c number) (v := systemGate helper)
    (linkageAt hm.linkage) hm.kernelCs h1 h10 (by rw [hm.table]; exact htable)
    (by rw [hlen, show callEntry _ = wrapperEntry m helper c number from rfl, hpost]; exact hcdecl)
  rw [show callEntry _ = wrapperEntry m helper c number from rfl, hpost] at hlinked
  refine (reaches_trapped hm hcode hcpl).trans (hlinked.trans ?_)
  obtain ⟨-, -, hpop, hret, -⟩ := at_append.mp hcode
  change m.code (c.eip + 5 + 1) = some (.op (.pop .ebx)) at hpop
  change m.code (c.eip + 5 + 1 + 1) = some .ret at hret
  rw [show c.eip + 5 + 1 = c.eip + 6 by bv_omega] at hpop hret
  have hesp : c.esp - 4 + 4 = c.esp := by bv_omega
  have hpopped : m.step { trapped c number with eax := post.eax, mem := post.mem } =
      some { c with
        eax := post.eax
        ecx := c.mem (c.esp + 8)
        edx := c.mem (c.esp + 12)
        eip := c.eip + 6 + 1
        mem := post.mem } := by
    unfold Processor.step
    simp only [trapped, hpop, Op.exec, Cpu.drop, Cpu.top, Cpu.set, Cpu.next, hebx, hesp]
  refine Processor.Reaches.step hpopped (.step ?_ .refl)
  unfold Processor.step
  simp only [hret, Cpu.drop, Cpu.top, htop]

/-- **System calls are linked.** Each of the ten wrappers calls the function of its name in the
kernel, on the kernel's stack and with interrupts disabled, with the wrapper's three arguments;
before that nothing is written but the word below the program's stack and fifteen words of the
kernel's. When the function returns, having kept the calling convention and the two words of the
program's stack, the wrapper returns to its caller what the function returned: all else is as it
was, but for `ecx` and `edx`, which hold two of the arguments, and for what the function did to the
memory. -/
theorem system_call_linked (hm : Loaded m helper wrapper) (hf : (f, number) ∈ sysNum)
    (heip : c.eip = wrapper number) (hcpl : c.cpl = 3) (hapart : StacksApart m c) :
    ∃ entry, CallsFrom m c f entry ∧
      Stacked entry.mem (entry.esp + 4)
        [c.mem (c.esp + 4), c.mem (c.esp + 8), c.mem (c.esp + 12)] ∧
      entry.cpl = 0 ∧ entry.esp = m.esp0 - 60 ∧ entry.flags.interrupt = false ∧
      (∀ a, a ≠ c.esp - 4 → ¬ KernelWords m a → entry.mem a = c.mem a) ∧
      ∀ post, m.function f entry = post → Cdecl 3 11 entry post →
        post.mem (c.esp - 4) = entry.mem (c.esp - 4) → post.mem c.esp = entry.mem c.esp →
        m.Reaches c
          { c with
            eax := post.eax
            ecx := c.mem (c.esp + 8)
            edx := c.mem (c.esp + 12)
            eip := c.top
            esp := c.esp + 4
            mem := post.mem } := by
  obtain ⟨hcalls, hargs⟩ := wrapper_calls hm hf heip hcpl
  obtain ⟨hesp, -⟩ := enter_esp_user (m := m) (c := trapped c number) hcpl (systemGate helper)
  obtain ⟨hcs, -, hflag⟩ :=
    callEntry_segments (m.enter (systemGate helper) (trapped c number))
  have hmem : ∀ a, ¬ KernelWords m a →
      (wrapperEntry m helper c number).mem a = (trapped c number).mem a :=
    fun a ha => wrapperEntry_mem hcpl ha
  refine ⟨wrapperEntry m helper c number, hcalls, hargs, ?_, ?_, ?_, ?_, ?_⟩
  · unfold Cpu.cpl
    rw [show (wrapperEntry m helper c number).cs = m.kernelCs from hcs, hm.kernelCs]
    rfl
  · unfold wrapperEntry
    rw [callEntry_esp, hesp]
    bv_omega
  · exact hflag.trans (Bool.and_false _)
  · intro a ha hk
    rw [hmem a hk]
    exact Function.update_of_ne ha _ _
  · intro post hpost hcdecl hebx htop
    refine wrapper_returns hm hf heip hcpl hpost hcdecl ?_ ?_
    · rw [hebx, hmem _ (hapart.not_kernelWords (Or.inr rfl))]
      exact Function.update_self _ _ _
    · have hne : c.esp ≠ c.esp - 4 := by bv_omega
      rw [htop, hmem _ (hapart.not_kernelWords (Or.inl rfl))]
      exact Function.update_of_ne hne _ _

/-- A `read` on the small machine. -/
theorem system_call_linked_read : ∃ c, demoProcessor.Reaches (demoCpu (demoWrapper 3)) c ∧
    (c.eax, c.ebx, c.esp, c.eip) = (42, 7, 0x83FFFF4, 0) := by
  obtain ⟨entry, -, -, -, -, -, -, hreturns⟩ := system_call_linked loaded_demo
    (show (.read, 3) ∈ sysNum by simp [sysNum]) (c := demoCpu (demoWrapper 3)) rfl rfl
    ⟨by decide, by decide, by decide, by decide⟩
  exact ⟨_, hreturns _ rfl (cdecl_demo _ _ _ _) rfl rfl, rfl⟩

/-- **Any other number is refused.** The system call returns -1, and but for the words that the
interrupt pushed nothing else has changed. -/
theorem int80_refused (hm : Loaded m helper wrapper) (hint : m.code c.eip = some (.int 0x80))
    (hnumber : ¬ (1 ≤ c.eax.toInt ∧ c.eax.toInt ≤ 10)) :
    ∃ mem, m.Reaches c { c with eax := -1, eip := c.eip + 1, mem := mem } ∧
      ∀ a, (∀ k < 5, a ≠ m.base c - BitVec.ofNat 32 (4 * (k + 1))) → mem a = c.mem a := by
  have hregs := enter_get m (systemGate helper) c.next
  have heax : (m.enter (systemGate helper) c.next).eax = c.eax := congrFun hregs .eax
  have hstep : m.step c = some (m.enter (systemGate helper) c.next) := by
    unfold Processor.step
    simp only [hint, hm.gate]
    exact if_pos (Nat.le_of_lt_succ (Nat.mod_lt _ (by decide)))
  have hstack := stacked_frame m (systemGate helper) c.next
  obtain ⟨flags, hinvalid⟩ := reaches_invalid (c := m.enter (systemGate helper) c.next)
    (linkageAt hm.linkage) (by rw [heax]; exact hnumber)
  have hecx : (m.enter (systemGate helper) c.next).ecx = c.ecx := congrFun hregs .ecx
  have hedx : (m.enter (systemGate helper) c.next).edx = c.edx := congrFun hregs .edx
  refine ⟨(m.enter (systemGate helper) c.next).mem, ?_, fun a ha => enter_mem _ c.next ha⟩
  refine Processor.Reaches.step hstep (hinvalid.trans ?_)
  rw [hecx, hedx]
  exact reaches_return (by rw [hm.kernelCs]; rfl) (linkageAt hm.linkage).iretInvalid hstack

/-- 11 is refused: the interrupt of the first wrapper, with that number. -/
theorem int80_refused_eleven : ∃ c, demoProcessor.Reaches { demoCpu 33 with eax := 11 } c ∧
    (c.eax, c.ebx, c.eip) = (-1, 7, 34) := by
  obtain ⟨mem, hreaches, -⟩ := int80_refused loaded_demo (c := { demoCpu 33 with eax := 11 })
    (by decide) (by decide)
  exact ⟨_, hreaches, rfl⟩

end Wrapper

/-! ## The beginning and the end of a program -/

section Start

variable {m : Processor CFunction} {helper : Helper → Word} {wrapper : Word → Word} {c : Cpu}

/-- What `_start` pushes for `halt`. -/
def startPushes : List Op := [.pushImm 0, .pushImm 0, .push .eax]

/-- **A program halts with what its `main` returned.** From `_start` on, `main` having kept the
calling convention, the kernel's `halt` is called, with `main`'s result for its status. -/
theorem start_halts (hm : Loaded m helper wrapper) (hcode : At m.code c.eip (start (wrapper 1)))
    (hcpl : c.cpl = 3) {post : Cpu} (hpost : m.function .main (c.push (c.eip + 1)) = post)
    (hcdecl : Cdecl 0 0 (c.push (c.eip + 1)) post) :
    ∃ entry, CallsFrom m c .halt entry ∧ entry.mem (entry.esp + 4) = post.eax := by
  obtain ⟨hmain, hrest⟩ := hcode
  obtain ⟨hpushes, hcall, -⟩ := at_append.mp hrest
  change At m.code (c.eip + 1) (startPushes.map .op) at hpushes
  change m.code (c.eip + 1 + 3) = some (.call (wrapper 1)) at hcall
  have heip : post.eip = c.eip + 1 := by
    rw [hcdecl.eip, push_top]
  have hblock : block startPushes post =
      { ((post.push 0).push 0).push post.eax with eip := c.eip + 1 + 3 } := by
    have h3 : c.eip + 1 + 1 + 1 + 1 = c.eip + 1 + 3 := by bv_omega
    simp only [startPushes, block, List.foldl_cons, List.foldl_nil, Op.exec, Cpu.push, Cpu.get,
      Cpu.next, heip, h3]
  have hmainStep : m.step c = some post := by
    unfold Processor.step
    rw [hmain, ← hpost]
  -- the wrapper is entered with the three words that were pushed as its arguments
  have hcallStep : m.step (block startPushes post) =
      some { ((((post.push 0).push 0).push post.eax).push (c.eip + 1 + 3 + 1)) with
        eip := wrapper 1 } := by
    rw [hblock]
    unfold Processor.step
    simp only [hcall]
    rfl
  have hargs : Stacked _ _ [c.eip + 1 + 3 + 1, post.eax, 0, 0] :=
    (((Stacked.push (c := post) (l := []) trivial (by decide) 0).push (by decide) 0).push
      (by decide) post.eax).push (by simp) (c.eip + 1 + 3 + 1)
  have hlevel : Cpu.cpl { ((((post.push 0).push 0).push post.eax).push (c.eip + 1 + 3 + 1)) with
      eip := wrapper 1 } = 3 := by
    change post.cs.toNat % 4 = 3
    rw [hcdecl.cs]
    exact hcpl
  obtain ⟨⟨at', hreaches, hrest'⟩, hstacked⟩ :=
    wrapper_calls hm (show (.halt, 1) ∈ sysNum by simp [sysNum]) rfl hlevel
  refine ⟨_, ⟨at', ?_, hrest'⟩, hstacked.1.trans hargs.2.1⟩
  refine Processor.Reaches.step hmainStep (reaches_block startPushes ?_ (.step hcallStep hreaches))
  rw [heip]
  exact hpushes

/-- `main` returns 42, and that is the status of `halt`. -/
theorem start_halts_demo : ∃ entry, CallsFrom demoProcessor (demoCpu 108) .halt entry ∧
    entry.mem (entry.esp + 4) = 42 :=
  start_halts loaded_demo (by decide) rfl rfl (cdecl_demo _ _ _ _)

end Start

/-! ## Interrupts -/

section Interrupt

variable {m : Processor CFunction} {helper : Helper → Word} {wrapper : Word → Word} {c : Cpu}
  {f : CFunction} {v : InterruptGate}

/-- The handlers that return, with their vectors, helpers and functions. -/
def irqHandlers : List (Nat × Helper × CFunction) :=
  [(33, .keyboard, .keyboardInterruptHandler), (40, .rtc, .rtcHandler)]

/-- The state in which a helper calls its function. -/
def helperEntry (m : Processor CFunction) (v : InterruptGate) (c : Cpu) : Cpu :=
  (m.enter v c).push (v.target + 1)

theorem Loaded.irq (hm : Loaded m helper wrapper) {n : Nat} {h : Helper}
    (hirq : (n, h, f) ∈ irqHandlers) :
    m.vector n = some ⟨helper h, 0, false⟩ ∧ At m.code (helper h) [.callC f, .iret] := by
  have hidt : idtInit 33 = ⟨false, 0, some .keyboard⟩ ∧ idtInit 40 = ⟨false, 0, some .rtc⟩ := by
    decide
  unfold irqHandlers at hirq
  rcases List.mem_cons.mp hirq with hirq | hirq
  · cases hirq
    refine ⟨?_, hm.keyboard⟩
    rw [hm.vectors, hidt.1]
    rfl
  · cases List.mem_singleton.mp hirq
    refine ⟨?_, hm.rtc⟩
    rw [hm.vectors, hidt.2]
    rfl

theorem helperEntry_mem (v : InterruptGate) (c : Cpu) {a : Word}
    (ha : ∀ k < 6, a ≠ m.base c - BitVec.ofNat 32 (4 * (k + 1))) :
    (helperEntry m v c).mem a = c.mem a := by
  have hbase := enter_esp (m := m) v c
  have h3 := ha 3 (by decide)
  have h5 := ha 5 (by decide)
  unfold helperEntry
  rw [push_mem, Function.update_of_ne, enter_mem v c fun k hk => ha k (by omega)]
  unfold frame at hbase
  by_cases h0 : c.cpl = 0
  · rw [if_pos h0] at hbase
    change (m.enter v c).esp + BitVec.ofNat 32 12 = m.base c at hbase
    rw [← hbase] at h3
    bv_omega
  · rw [if_neg h0] at hbase
    change (m.enter v c).esp + BitVec.ofNat 32 20 = m.base c at hbase
    rw [← hbase] at h5
    bv_omega

/-- A helper returns to what was interrupted. -/
theorem helper_returns (hcs : m.kernelCs = 0x10) (hcode : At m.code v.target [.callC f, .iret])
    {post : Cpu} (hpost : m.function f (helperEntry m v c) = post)
    (hcdecl : Cdecl 0 (frame c).length (helperEntry m v c) post) :
    m.Reaches (m.enter v c)
      { c with
        eax := post.eax
        ecx := post.ecx
        edx := post.edx
        mem := post.mem } := by
  have hesp : (helperEntry m v c).esp + 4 = (m.enter v c).esp := by
    change (m.enter v c).esp - 4 + 4 = (m.enter v c).esp
    bv_omega
  have hstack := stacked_frame m v c
  have hkept : Stacked post.mem (m.enter v c).esp (frame c) := by
    have hlen : (frame c).length < 2 ^ 30 := by
      unfold frame
      split <;> simp
    have hentry := (hstack.push hlen (v.target + 1)).2
    change Stacked (helperEntry m v c).mem ((helperEntry m v c).esp + 4) (frame c) at hentry
    have hkeep : Stacked post.mem ((helperEntry m v c).esp + 4) (frame c) := by
      refine hentry.congr fun k hk => ?_
      have := hcdecl.stack k hk
      rwa [Nat.zero_add] at this
    rwa [hesp] at hkeep
  have htop : post.eip = v.target + 1 := by
    rw [hcdecl.eip]
    exact push_top (m.enter v c) (v.target + 1)
  have hstep : m.step (m.enter v c) = some post := by
    have heip : (m.enter v c).eip = v.target := rfl
    unfold Processor.step
    rw [heip, hcode.1, ← hpost]
    rfl
  have heq : post =
      { m.enter v c with
        eax := post.eax
        ecx := post.ecx
        edx := post.edx
        eip := v.target + 1
        flags := post.flags
        mem := post.mem } := by
    have hebx : post.ebx = (m.enter v c).ebx := hcdecl.ebx
    have hesi : post.esi = (m.enter v c).esi := hcdecl.esi
    have hedi : post.edi = (m.enter v c).edi := hcdecl.edi
    have hebp : post.ebp = (m.enter v c).ebp := hcdecl.ebp
    have hcs' : post.cs = (m.enter v c).cs := hcdecl.cs
    have hss : post.ss = (m.enter v c).ss := hcdecl.ss
    have hesp' := hcdecl.esp.trans hesp
    dsimp only
    rw [← hebx, ← hesi, ← hedi, ← hebp, ← hcs', ← hss, ← hesp', ← htop]
  refine Processor.Reaches.step hstep ?_
  rw [heq]
  exact reaches_return (by rw [hcs]; rfl) hcode.2.1 hkept

/-- **What an interrupt leaves of the program it interrupts.** It enters the kernel with interrupts
disabled; and when the handler, having kept the calling convention, has returned, the program goes
on where it was, with its stack, flags and segments, and `ebx`, `esi`, `edi` and `ebp`. But the
helpers save no registers: `eax`, `ecx` and `edx` are those of the handler. -/
theorem interrupt_returns (hm : Loaded m helper wrapper) {n : Nat} {h : Helper}
    (hirq : (n, h, f) ∈ irqHandlers) (c : Cpu) :
    ∃ v entry, m.vector n = some v ∧ m.step (m.enter v c) = some (m.function f entry) ∧
      entry.flags.interrupt = false ∧
      (∀ a, (∀ k < 6, a ≠ m.base c - BitVec.ofNat 32 (4 * (k + 1))) → entry.mem a = c.mem a) ∧
      ∀ post, m.function f entry = post → Cdecl 0 (frame c).length entry post →
        m.Reaches (m.enter v c)
          { c with
            eax := post.eax
            ecx := post.ecx
            edx := post.edx
            mem := post.mem } := by
  obtain ⟨hvector, hcode⟩ := hm.irq hirq
  refine ⟨⟨helper h, 0, false⟩, helperEntry m ⟨helper h, 0, false⟩ c, hvector, ?_, ?_, ?_, ?_⟩
  · have heip : (m.enter ⟨helper h, 0, false⟩ c).eip = helper h := rfl
    unfold Processor.step
    rw [heip, hcode.1]
    rfl
  · exact Bool.and_false _
  · intro a ha
    exact helperEntry_mem _ c ha
  · intro post hpost hcdecl
    exact helper_returns hm.kernelCs hcode hpost hcdecl

/-- The keyboard interrupts a program with 7 in `eax`: it goes on with 42 there. -/
theorem interrupt_returns_keyboard : ∃ v c, demoProcessor.vector 33 = some v ∧
    demoProcessor.Reaches (demoProcessor.enter v (demoCpu 0)) c ∧
    (c.eax, c.ebx, c.eip) = (42, 7, 0) := by
  obtain ⟨v, entry, hvector, -, -, -, hreturns⟩ := interrupt_returns loaded_demo
    (show (33, .keyboard, .keyboardInterruptHandler) ∈ irqHandlers by simp [irqHandlers])
    (demoCpu 0)
  exact ⟨v, _, hvector, hreturns _ rfl (cdecl_demo _ _ _ _), rfl⟩

end Interrupt

end MyOS.Kernel
