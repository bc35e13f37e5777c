import MyOS.Programs.Cat
import MyOS.Terminal.Delivery

/-!
# `ece391shell.c`: what the shell runs

* `Shell`, `Shell.Moves`: `main` (`ece391shell.c:8-35`) with `_start` (`ece391syscall.S:35-40`)
  around it, as process `p`. While a program that it has started runs, the shell waits; it goes on
  when process `p + 1` halts. What `execute` then returns is some byte: `halt` loads one into `al`
  after it has cleared `eax` (`systemcall.c:259-262`).
* `strcmp`: `ece391_strcmp` (`ece391support.c:24-33`) against a literal.
* `commandOf`: what the shell makes of a line: the newline at its end cut off, up to the first NUL.
* `ShellInv`: the commands run are those of the lines read, in order; `ShellInv.step` is one event.
* **`shell_runs_lines`**: in every run of a booted system, with keys between any two calls and
  whatever the programs started do, the shell runs the commands of the lines it reads, each once and
  in order, and these are among the lines entered at the keyboard.
-/

namespace MyOS.Programs

open MyOS.Machine MyOS.Kernel MyOS.Process MyOS.Descriptor MyOS.Terminal

/-! ## The program -/

/-- Where the shell stands. -/
inductive ShellPc where
  | greet
  | prompt
  | read
  | readFailed
  | execute
  /-- A program it has started runs. -/
  | waiting
  | report (text : CString)
  | halting (status : UInt8)
  | gone
  deriving DecidableEq

/-- Where `main` is, and its array. -/
structure Shell where
  pc : ShellPc
  buf : Mem

/-- `"Starting 391 Shell\n"`. -/
def greetText : CString :=
  ⟨ascii ['S', 't', 'a', 'r', 't', 'i', 'n', 'g', ' ', '3', '9', '1', ' ',
    'S', 'h', 'e', 'l', 'l', '\n'], by decide⟩

/-- `"391OS> "`. -/
def promptText : CString := ⟨ascii ['3', '9', '1', 'O', 'S', '>', ' '], by decide⟩

/-- `"read from keyboard failed\n"`. -/
def keyboardFailedText : CString :=
  ⟨ascii ['r', 'e', 'a', 'd', ' ', 'f', 'r', 'o', 'm', ' ', 'k', 'e', 'y', 'b', 'o', 'a', 'r', 'd',
    ' ', 'f', 'a', 'i', 'l', 'e', 'd', '\n'], by decide⟩

/-- `"exit"`. -/
def exitName : CString := ⟨ascii ['e', 'x', 'i', 't'], by decide⟩

/-- `"no such command\n"`. -/
def noSuchCommandText : CString :=
  ⟨ascii ['n', 'o', ' ', 's', 'u', 'c', 'h', ' ', 'c', 'o', 'm', 'm', 'a', 'n', 'd', '\n'],
    by decide⟩

/-- `"program terminated by exception\n"`. -/
def exceptionText : CString :=
  ⟨ascii ['p', 'r', 'o', 'g', 'r', 'a', 'm', ' ', 't', 'e', 'r', 'm', 'i', 'n', 'a', 't', 'e', 'd',
    ' ', 'b', 'y', ' ', 'e', 'x', 'c', 'e', 'p', 't', 'i', 'o', 'n', '\n'], by decide⟩

/-- `"program terminated abnormally\n"`. -/
def abnormalText : CString :=
  ⟨ascii ['p', 'r', 'o', 'g', 'r', 'a', 'm', ' ', 't', 'e', 'r', 'm', 'i', 'n', 'a', 't', 'e', 'd',
    ' ', 'a', 'b', 'n', 'o', 'r', 'm', 'a', 'l', 'l', 'y', '\n'], by decide⟩

/-- The loop of `ece391_strcmp` at index `i`, with what is left of the literal. -/
def strcmpFrom (m : Mem) : List UInt8 → Nat → Int
  | [], i => (m i).toNat
  | c :: cs, i => if m i = c then strcmpFrom m cs (i + 1) else ((m i).toNat : Int) - c.toNat

/-- `ece391_strcmp(s1, s2)`, for a literal `s2`. -/
def strcmp (s1 : Mem) (s2 : CString) : Int := strcmpFrom s1 s2.bytes 0

namespace Shell

/-- The calls other than `execute` and `halt`. -/
def call (s : Shell) : Option Call :=
  match s.pc with
  | .greet => some (fdputs 1 greetText.get)
  | .prompt => some (fdputs 1 promptText.get)
  | .read => some (.read 0 userBuf 1023)
  | .readFailed => some (fdputs 1 keyboardFailedText.get)
  | .report text => some (fdputs 1 text.get)
  | _ => none

/-- `main` with the value `cnt` of its `read` and the buffer after it. -/
def afterRead (cnt : Int) (buf : Mem) : Shell :=
  if cnt = -1 then ⟨.readFailed, buf⟩
  else
    let cnt := if 0 < cnt ∧ buf (cnt - 1).toNat = 10 then cnt - 1 else cnt
    let buf := Function.update buf cnt.toNat 0
    if strcmp buf exitName = 0 then ⟨.halting 0, buf⟩
    else if buf 0 = 0 then ⟨.prompt, buf⟩
    else ⟨.execute, buf⟩

/-- `main` with the value of its `execute`. -/
def afterExecute (s : Shell) (rval : Int) : Shell :=
  { s with
    pc := if rval = -1 then .report noSuchCommandText
      else if rval = 256 then .report exceptionText
      else if rval ≠ 0 then .report abnormalText
      else .prompt }

/-- How it goes on after a call other than `execute` and `halt`. -/
def resume (s : Shell) (r : Reply) : Shell :=
  match s.pc with
  | .greet => { s with pc := .prompt }
  | .prompt => { s with pc := .read }
  | .read => afterRead (value r) (store s.buf 0 (stores r))
  | .readFailed => { s with pc := .halting 3 }
  | .report _ => { s with pc := .prompt }
  | _ => s

/-- **One event**, for the shell as process `p`. When it starts again its buffer holds anything. -/
inductive Moves (p : Nat) : Shell → Event → Shell → Prop
  | call {s : Shell} {c : Call} {r : Reply} (hc : s.call = some c) :
      Moves p s ⟨p, c, r⟩ (s.resume r)
  | refused {s : Shell} {e : ExecArgs} {v : Int} {out : List UInt8} (hpc : s.pc = .execute)
      (he : e.command = some s.buf) : Moves p s ⟨p, .execute e, .ret v out⟩ (s.afterExecute v)
  | started {s : Shell} {e : ExecArgs} {eip : Nat} (hpc : s.pc = .execute)
      (he : e.command = some s.buf) :
      Moves p s ⟨p, .execute e, .iret eip⟩ { s with pc := .waiting }
  | returned {s : Shell} {status : UInt8} {esp ebp : Nat} (hpc : s.pc = .waiting) (al : UInt8) :
      Moves p s ⟨p + 1, .halt status, .resume esp ebp⟩ (s.afterExecute al.toNat)
  | restarted {s : Shell} {status : UInt8} {eip : Nat} (hpc : s.pc = .halting status) (buf : Mem) :
      Moves p s ⟨p, .halt status, .iret eip⟩ ⟨.greet, buf⟩
  | ended {s : Shell} {status : UInt8} {esp ebp : Nat} (hpc : s.pc = .halting status) :
      Moves p s ⟨p, .halt status, .resume esp ebp⟩ { s with pc := .gone }
  | key {s : Shell} {pid : Nat} {sc : UInt8} {text : List UInt8} {r : Reply} :
      Moves p s ⟨pid, .key sc text, r⟩ s
  | other {s : Shell} {ev : Event} (hpid : ev.pid ≠ p)
      (hret : s.pc = .waiting → ev.pid = p + 1 → ∀ status, ev.call ≠ .halt status) :
      Moves p s ev s

/-- The command that is to be run next. -/
def next (s : Shell) : List (List UInt8) :=
  if s.pc = .execute then [readString s.buf 1024 0] else []

end Shell

/-! ## Lines and commands -/

/-- A line without the newline at its end. -/
def stripNewline (line : List UInt8) : List UInt8 :=
  if line.getLast? = some 10 then line.dropLast else line

/-- What the shell makes of a line. -/
def commandOf (line : List UInt8) : List UInt8 := (stripNewline line).takeWhile fun b => b ≠ 0

/-- A command that is handed to `execute`. -/
def isCommand (c : List UInt8) : Bool := c ≠ [] ∧ c ≠ exitName.bytes

/-- The commands that process `p` has handed to `execute`. -/
def commandsRun (p : Nat) (tr : List Event) : List (List UInt8) :=
  tr.flatMap fun ev =>
    match ev.call with
    | .execute e =>
      if ev.pid = p then (e.command.map fun m => readString m 1024 0).toList else []
    | _ => []

theorem strcmpFrom_eq_zero_iff (m : Mem) : ∀ (bs : List UInt8) (fuel i : Nat), (0 : UInt8) ∉ bs →
    bs.length < fuel → (strcmpFrom m bs i = 0 ↔ readString m fuel i = bs)
  | _, 0, _, _, hlen => absurd hlen (Nat.not_lt_zero _)
  | [], fuel + 1, i, _, _ => by
    rw [strcmpFrom, readString]
    by_cases h : m i = 0
    · simp [h]
    · rw [if_neg h]
      simp only [reduceCtorEq, iff_false]
      intro h0
      exact h (UInt8.toNat_inj.mp (by simpa using h0))
  | c :: cs, fuel + 1, i, hnul, hlen => by
    rw [List.mem_cons, not_or] at hnul
    rw [List.length_cons] at hlen
    have ih := strcmpFrom_eq_zero_iff m cs fuel (i + 1) hnul.2 (by omega)
    rw [strcmpFrom, readString]
    by_cases h : m i = c
    · rw [if_pos h, ih, if_neg (by rw [h]; exact fun h0 => hnul.1 h0.symm), h, List.cons.injEq]
      simp only [true_and]
    · rw [if_neg h]
      constructor
      · intro h0
        exact absurd (UInt8.toNat_inj.mp (by omega)) h
      · intro hs
        split at hs
        · cases hs
        · exact absurd (List.cons.inj hs).1 h

theorem strcmp_eq_zero_iff (m : Mem) (s : CString) {fuel : Nat} (h : s.length < fuel) :
    strcmp m s = 0 ↔ readString m fuel 0 = s.bytes :=
  strcmpFrom_eq_zero_iff m s.bytes fuel 0 s.nul_free h

/-- The string in a buffer that holds `bs` and then a NUL. -/
theorem readString_takeWhile (m : Mem) : ∀ (bs : List UInt8) (fuel a : Nat), bs.length < fuel →
    (∀ j < bs.length, m (a + j) = bs.getD j 0) → m (a + bs.length) = 0 →
    readString m fuel a = bs.takeWhile fun b => b ≠ 0
  | _, 0, _, hlen, _, _ => absurd hlen (Nat.not_lt_zero _)
  | [], fuel + 1, a, _, _, hend => by
    have hend : m a = 0 := hend
    rw [readString, if_pos hend, List.takeWhile_nil]
  | b :: bs, fuel + 1, a, hlen, hin, hend => by
    rw [List.length_cons] at hlen hend
    have h0 : m a = b := hin 0 (by rw [List.length_cons]; omega)
    have ih := readString_takeWhile m bs fuel (a + 1) (by omega)
      (fun j hj => by
        have := hin (j + 1) (by rw [List.length_cons]; omega)
        rwa [show a + (j + 1) = a + 1 + j by omega] at this)
      (by rwa [show a + 1 + bs.length = a + (bs.length + 1) by omega])
    rw [readString, h0, List.takeWhile_cons]
    by_cases hb : b = 0
    · simp [hb]
    · simp [hb, ih]

theorem stripNewline_prefix (line : List UInt8) : stripNewline line <+: line := by
  unfold stripNewline
  split
  · exact List.dropLast_prefix line
  · exact List.prefix_rfl

/-- **What the shell finds in its buffer** after a line: the command, and NUL. -/
theorem readString_afterRead (m : Mem) {line : List UInt8} (hlen : line.length ≤ 1023) :
    let buf := store m 0 line
    let cnt : Int := if 0 < (line.length : Int) ∧ buf ((line.length : Int) - 1).toNat = 10
      then (line.length : Int) - 1 else line.length
    readString (Function.update buf cnt.toNat 0) 1024 0 = commandOf line := by
  intro buf cnt
  have hbuf : ∀ j < line.length, (line)[j]? = some (buf j) := by
    intro j hj
    have hin := store_of_inside m 0 hj
    rw [Nat.zero_add, List.getD_eq_getElem _ _ hj] at hin
    rw [List.getElem?_eq_getElem hj, ← hin]
  have hlast : (0 < (line.length : Int) ∧ buf ((line.length : Int) - 1).toNat = 10) ↔
      line.getLast? = some 10 := by
    rw [List.getLast?_eq_getElem?]
    rcases Nat.eq_zero_or_pos line.length with h0 | hpos
    · rw [List.eq_nil_of_length_eq_zero h0]
      simp
    · rw [hbuf _ (by omega), Option.some.injEq,
        show ((line.length : Int) - 1).toNat = line.length - 1 by omega]
      exact and_iff_right (by omega)
  have hcnt : cnt.toNat = (stripNewline line).length := by
    simp only [cnt, hlast, stripNewline]
    split
    · rw [List.length_dropLast]
      omega
    · exact Int.toNat_natCast _
  have hpre := stripNewline_prefix line
  rw [hcnt]
  have hle := hpre.length_le
  refine readString_takeWhile _ (stripNewline line) 1024 0 (by omega) (fun j hj => ?_) ?_
  · have hat := hbuf j (by omega)
    rw [List.getElem?_eq_getElem (by omega), Option.some.injEq] at hat
    rw [Nat.zero_add, Function.update_of_ne (by omega), List.getD_eq_getElem _ _ hj, ← hat,
      List.IsPrefix.getElem hpre hj]
  · rw [Nat.zero_add, Function.update_self]

/-- The shell after a line: it runs the command, prompts again or ends. -/
theorem afterRead_line (m : Mem) {line : List UInt8} (hlen : line.length ≤ 1023) :
    (isCommand (commandOf line) = true ∧
      (Shell.afterRead line.length (store m 0 line)).pc = .execute ∧
      readString (Shell.afterRead line.length (store m 0 line)).buf 1024 0 = commandOf line) ∨
    (isCommand (commandOf line) = false ∧
      ((Shell.afterRead line.length (store m 0 line)).pc = .prompt ∨
        (Shell.afterRead line.length (store m 0 line)).pc = .halting 0)) := by
  have hread := readString_afterRead m hlen
  simp only at hread
  unfold Shell.afterRead
  rw [if_neg (by omega)]
  simp only
  generalize Function.update (store m 0 line) _ 0 = buf at hread ⊢
  have hcmp := strcmp_eq_zero_iff buf exitName (by decide : exitName.length < 1024)
  rw [hread] at hcmp
  have hnil : buf 0 = 0 ↔ commandOf line = [] := by
    rw [← hread, readString]
    split <;> simp_all
  unfold isCommand
  by_cases hexit : commandOf line = exitName.bytes
  · right
    rw [if_pos (hcmp.mpr hexit)]
    exact ⟨by simp [hexit], Or.inr rfl⟩
  · rw [if_neg (mt hcmp.mp hexit)]
    by_cases h0 : buf 0 = 0
    · right
      rw [if_pos h0]
      exact ⟨by simp [hnil.mp h0], Or.inl rfl⟩
    · left
      rw [if_neg h0]
      rw [hnil] at h0
      exact ⟨by simp [hexit, h0], rfl, hread⟩

/-! ## The invariant -/

/-- The shell is the running process, the only one, with its descriptors as it found them. -/
def ShellRuns (σ : Service) : Prop := σ.waiting = [] ∧ σ.running.table = freshTable

/-- The shell waits below the others. -/
def ShellWaits (σ : Service) : Prop :=
  ∃ above F, σ.waiting = above ++ [F] ∧ F.table = freshTable

/-- The commands run, `ran`, are those of the lines read, `got`; whose turn it is. -/
def ShellInv (x : Shell × Service) (got ran : List (List UInt8)) : Prop :=
  ran ++ x.1.next = (got.map commandOf).filter isCommand ∧
  match x.1.pc with
  | .waiting => ShellWaits x.2
  | .report text => text ≠ exceptionText ∧ ShellRuns x.2
  | .readFailed => False
  | .gone => False
  | _ => ShellRuns x.2

section Step

variable {D : Disk} {s s' : Shell} {σ σ' : Service} {ev : Event} {got ran : List (List UInt8)}

theorem ShellInv.runs (h : ShellInv (s, σ) got ran) (hpc : s.pc ≠ .waiting) : ShellRuns σ := by
  obtain ⟨pc, buf⟩ := s
  obtain ⟨-, h⟩ := h
  cases pc with
  | waiting => exact absurd rfl hpc
  | report text => exact h.2
  | readFailed => exact h.elim
  | gone => exact h.elim
  | _ => exact h

theorem ShellRuns.console (h : ShellRuns σ) : σ.stream 1 = some .console :=
  σ.stream_one_of_fresh h.2

theorem ShellRuns.keyboard (h : ShellRuns σ) : σ.stream 0 = some .keyboard := by
  unfold Service.stream
  rw [if_pos (by decide), h.2]
  rfl

theorem ShellRuns.pid (h : ShellRuns σ) : σ.pid = 1 := by
  rw [Service.pid, h.1]
  rfl

/-- Taking a line from the keyboard leaves the descriptors as they are. -/
theorem ShellRuns.set_keyboard (h : ShellRuns σ) (scan : Nat) :
    ShellRuns { σ.set (fdIndex 0) (some .keyboard) with scan := scan } := by
  refine ⟨h.1, ?_⟩
  change Function.update σ.running.table (fdIndex 0) (some .keyboard) = freshTable
  rw [h.2]
  exact Function.update_eq_self (fdIndex 0) freshTable

/-- A message, and the shell goes on. -/
theorem ShellInv.puts (h : ShellInv (s, σ) got ran) {text : CString} {r : Reply} {pc : ShellPc}
    (hpc : pc = .prompt ∨ pc = .read) (hnext : s.next = [])
    (hs : Serves D σ ⟨1, fdputs 1 text.get, r⟩ σ') (hruns : ShellRuns σ) :
    ShellInv ({ s with pc := pc }, σ') (got ++ []) (ran ++ []) := by
  obtain ⟨rfl, -⟩ := console_write hs rfl hruns.console
  obtain ⟨hran, -⟩ := h
  rw [List.append_nil, List.append_nil]
  simp only [hnext] at hran
  rcases hpc with rfl | rfl
  · exact ⟨hran, hruns⟩
  · exact ⟨hran, hruns⟩

/-- **A line is read.** -/
theorem ShellInv.read {buf : Mem} (h : ShellInv (⟨.read, buf⟩, σ) got ran) {r : Reply}
    (hs : Serves D σ ⟨1, .read 0 userBuf 1023, r⟩ σ') :
    ShellInv (Shell.afterRead (value r) (store buf 0 (stores r)), σ')
      (got ++ linesRead 1 [⟨1, .read 0 userBuf 1023, r⟩]) ran := by
  obtain ⟨hran, hruns⟩ := h
  obtain ⟨st', scan, v, out, hr, hreply, rfl⟩ := hs.of_read rfl hruns.keyboard userBuf_ne_zero
  simp only at hreply
  subst hreply
  cases hr with
  | keyboard hout =>
    have hlen : out.length ≤ 1023 := hout
    have hgot : linesRead 1 [⟨1, .read 0 userBuf 1023, .ret out.length out⟩] = [out] := rfl
    rw [hgot]
    simp only [value, stores]
    unfold ShellInv
    rw [List.map_append, List.filter_append, ← hran, List.map_singleton, List.filter_singleton]
    have hend := hruns.set_keyboard σ.scan
    rcases afterRead_line buf hlen with ⟨hyes, hpc, hbuf⟩ | ⟨hno, hpc | hpc⟩
    · simp only [Shell.next, hpc, hbuf, hyes]
      exact ⟨by simp, hend⟩
    · simp only [Shell.next, hpc, hno]
      exact ⟨by simp, hend⟩
    · simp only [Shell.next, hpc, hno]
      exact ⟨by simp, hend⟩

theorem commandsRun_execute {e : ExecArgs} {m : Mem} (he : e.command = some m) (r : Reply) :
    commandsRun 1 [⟨1, .execute e, r⟩] = [readString m 1024 0] := by
  simp [commandsRun, he]

/-- A command is run: what was to be run next has been. -/
theorem ShellInv.ran_next (h : ShellInv (s, σ) got ran) (hpc : s.pc = .execute) {e : ExecArgs}
    (he : e.command = some s.buf) (r : Reply) :
    ran ++ commandsRun 1 [⟨1, .execute e, r⟩] = (got.map commandOf).filter isCommand := by
  rw [commandsRun_execute he, ← h.1, Shell.next, if_pos hpc]

/-- The shell with the value of `execute`, once it is its turn again. -/
theorem ShellInv.of_afterExecute (hran : ran = (got.map commandOf).filter isCommand)
    (hruns : ShellRuns σ) {v : Int} (hv : v ≠ 256) : ShellInv (s.afterExecute v, σ) got ran := by
  have hcases : (s.afterExecute v).pc = .prompt ∨
      ∃ text, text ≠ exceptionText ∧ (s.afterExecute v).pc = .report text := by
    unfold Shell.afterExecute
    simp only [if_neg hv]
    by_cases h1 : v = -1
    · exact Or.inr ⟨noSuchCommandText, by decide, if_pos h1⟩
    · by_cases h0 : v = 0
      · exact Or.inl (by rw [if_neg h1, if_neg (by simp [h0])])
      · exact Or.inr ⟨abnormalText, by decide, by rw [if_neg h1, if_pos h0]⟩
  unfold ShellInv
  rcases hcases with hpc | ⟨text, htext, hpc⟩
  · simp only [Shell.next, hpc]
    exact ⟨by simpa using hran, hruns⟩
  · simp only [Shell.next, hpc]
    exact ⟨by simpa using hran, htext, hruns⟩

/-- A call of the shell, `execute` and `halt` apart. -/
theorem ShellInv.called (h : ShellInv (s, σ) got ran) {c : Call} {r : Reply}
    (hc : s.call = some c) (hs : Serves D σ ⟨1, c, r⟩ σ') :
    ShellInv (s.resume r, σ') (got ++ linesRead 1 [⟨1, c, r⟩])
      (ran ++ commandsRun 1 [⟨1, c, r⟩]) := by
  obtain ⟨pc, buf⟩ := s
  cases pc with
  | greet =>
    obtain rfl := Option.some.inj hc
    exact h.puts (Or.inl rfl) rfl hs h.2
  | prompt =>
    obtain rfl := Option.some.inj hc
    exact h.puts (Or.inr rfl) rfl hs h.2
  | read =>
    obtain rfl := Option.some.inj hc
    rw [show commandsRun 1 [⟨1, .read 0 userBuf 1023, r⟩] = [] from rfl, List.append_nil]
    exact h.read hs
  | readFailed => exact h.2.elim
  | report text =>
    obtain rfl := Option.some.inj hc
    exact h.puts (Or.inl rfl) rfl hs h.2.2
  | _ => cases hc

/-- While the shell is not about to run a command, every command of the lines read has been run. -/
theorem ShellInv.all_ran (h : ShellInv (s, σ) got ran) (hpc : s.pc ≠ .execute) :
    ran = (got.map commandOf).filter isCommand := by
  rw [← h.1, Shell.next, if_neg hpc, List.append_nil]

/-- Process 2 halts while the shell waits: the shell runs again, with nothing above it. -/
theorem ShellWaits.returned (h : ShellWaits σ) {status : UInt8} {esp ebp : Nat}
    (hs : Serves D σ ⟨2, .halt status, .resume esp ebp⟩ σ') : ShellRuns σ' := by
  obtain ⟨above, F, hw, hF⟩ := h
  have hlen : σ.waiting.length = 1 := by
    have := hs.pid_eq
    simp only [Service.pid] at this
    omega
  obtain rfl : above = [] := by
    rw [hw, List.length_append, List.length_singleton] at hlen
    exact List.eq_nil_of_length_eq_zero (by omega)
  rcases hs.of_halt rfl with ⟨⟨eip, hr⟩, -⟩ | ⟨-, hr⟩
  · cases hr
  · rw [hw, List.nil_append, List.cons.injEq] at hr
    refine ⟨hr.2.symm, ?_⟩
    rw [← hr.1]
    exact hF

/-- Whatever a program above the shell does, short of the halt of process 2, the shell waits on. -/
theorem ShellWaits.other (h : ShellWaits σ) (hs : Serves D σ ev σ')
    (hret : ev.pid = 2 → ∀ status, ev.call ≠ .halt status) : ShellWaits σ' := by
  obtain ⟨above, F, hw, hF⟩ := h
  rcases hs.stack with hsame | hmore | ⟨⟨status, hhalt⟩, hless⟩
  · exact ⟨above, F, hsame.trans hw, hF⟩
  · exact ⟨σ.running :: above, F, by rw [hmore, hw]; rfl, hF⟩
  · cases above with
    | nil =>
      refine absurd hhalt (hret ?_ status)
      rw [hs.pid_eq, Service.pid, hw]
      rfl
    | cons G above =>
      rw [hw, List.cons_append, List.cons.injEq] at hless
      exact ⟨above, F, hless.2.symm, hF⟩

/-- An event of another process gives the shell no line. -/
theorem linesRead_of_ne {p : Nat} (h : ev.pid ≠ p) : linesRead p [ev] = [] := by
  unfold linesRead
  rw [List.flatMap_singleton]
  split
  · exact if_neg fun hp => h hp.1
  · rfl

theorem commandsRun_of_ne {p : Nat} (h : ev.pid ≠ p) : commandsRun p [ev] = [] := by
  unfold commandsRun
  rw [List.flatMap_singleton]
  split
  · exact if_neg h
  · rfl

/-- **One event** keeps the invariant. -/
theorem ShellInv.step (h : ShellInv (s, σ) got ran) (hm : s.Moves 1 ev s')
    (hs : Serves D σ ev σ') :
    ShellInv (s', σ') (got ++ linesRead 1 [ev]) (ran ++ commandsRun 1 [ev]) := by
  cases hm with
  | @call c r hc => exact h.called hc hs
  | @refused e v out hpc he =>
    obtain ⟨rfl, hwait, hrun⟩ := hs.of_notStarted rfl rfl
    have hruns := h.runs (by rw [hpc]; exact nofun)
    rw [show linesRead 1 [⟨1, .execute e, .ret (-1) out⟩] = [] from rfl, List.append_nil]
    refine .of_afterExecute (h.ran_next hpc he _) ⟨hwait.trans hruns.1, ?_⟩ (by decide)
    rw [hrun]
    exact hruns.2
  | @started e eip hpc he =>
    obtain ⟨cmd, arg, -, -, rfl⟩ := hs.of_started rfl rfl
    have hruns := h.runs (by rw [hpc]; exact nofun)
    rw [show linesRead 1 [⟨1, .execute e, .iret eip⟩] = [] from rfl, List.append_nil]
    refine ⟨?_, [], σ.running, ?_, hruns.2⟩
    · rw [h.ran_next hpc he]
      exact List.append_nil _
    · change σ.running :: σ.waiting = _
      rw [hruns.1]
      rfl
  | @returned status esp ebp hpc al =>
    have hran := h.all_ran (by rw [hpc]; exact nofun)
    have hwaits := h.2
    simp only [hpc] at hwaits
    change ShellInv _ (got ++ []) (ran ++ [])
    rw [List.append_nil, List.append_nil]
    -- the status that `halt` returns is a byte, so it is not the value for an exception
    have := al.toNat_lt
    exact .of_afterExecute hran (hwaits.returned hs) (by omega)
  | @restarted status eip hpc buf =>
    have hruns := h.runs (by rw [hpc]; exact nofun)
    have hran := h.all_ran (by rw [hpc]; exact nofun)
    change ShellInv _ (got ++ []) (ran ++ [])
    rw [List.append_nil, List.append_nil]
    rcases hs.of_halt rfl with ⟨-, -, rfl⟩ | ⟨⟨esp, ebp, hr⟩, -⟩
    · exact ⟨(List.append_nil _).trans hran, hruns⟩
    · cases hr
  | @ended status esp ebp hpc =>
    have hruns := h.runs (by rw [hpc]; exact nofun)
    rcases hs.of_halt rfl with ⟨⟨eip, hr⟩, -⟩ | ⟨-, hr⟩
    · cases hr
    · rw [hruns.1] at hr
      cases hr
  | @key pid sc text r =>
    obtain rfl := hs.of_key rfl
    change ShellInv _ (got ++ []) (ran ++ [])
    rwa [List.append_nil, List.append_nil]
  | other hpid hret =>
    rw [linesRead_of_ne hpid, commandsRun_of_ne hpid, List.append_nil, List.append_nil]
    -- the shell is not the process that runs, so it waits
    have hpc : s.pc = .waiting := by
      by_contra hpc
      exact hpid (hs.pid_eq.trans (h.runs hpc).pid)
    obtain ⟨hran, hwaits⟩ := h
    simp only [hpc] at hwaits
    refine ⟨hran, ?_⟩
    simp only [hpc]
    exact hwaits.other hs (hret hpc)

/-- What the shell asks of the keyboard. -/
theorem ShellInv.reads (h : ShellInv (s, σ) got ran) (hm : s.Moves 1 ev s') {buf : Nat} {n : Int}
    (hcall : ev.call = .read 0 buf n) (hpid : ev.pid = 1) :
    buf ≠ 0 ∧ 129 ≤ n ∧ σ.stream 0 = some .keyboard := by
  cases hm with
  | @call c r hc =>
    obtain ⟨pc, m⟩ := s
    simp only at hcall
    subst hcall
    cases pc with
    | read =>
      cases hc
      exact ⟨userBuf_ne_zero, by decide, ShellRuns.keyboard h.2⟩
    | _ => cases hc
  | other hne => exact absurd hpid hne
  | _ => cases hcall

end Step

/-! ## Runs -/

theorem linesRead_snoc (p : Nat) (tr : List Event) (ev : Event) :
    linesRead p (tr ++ [ev]) = linesRead p tr ++ linesRead p [ev] := List.flatMap_append ..

theorem commandsRun_snoc (p : Nat) (tr : List Event) (ev : Event) :
    commandsRun p (tr ++ [ev]) = commandsRun p tr ++ commandsRun p [ev] := List.flatMap_append ..

/-- Empty lines give no commands. -/
theorem filter_commandOf_nonEmpty (lines : List (List UInt8)) :
    ((nonEmpty lines).map commandOf).filter isCommand = (lines.map commandOf).filter isCommand := by
  induction lines with
  | nil => rfl
  | cons line lines ih =>
    unfold nonEmpty at ih ⊢
    by_cases hline : line = []
    · subst hline
      rw [List.filter_cons_of_neg (by simp), ih, List.map_cons, List.filter_cons_of_neg (by decide)]
    · rw [List.filter_cons_of_pos (by simpa using hline), List.map_cons, List.map_cons,
        List.filter_cons, List.filter_cons, ih]

/-- The state and the answer after a call that is answered. -/
def demoAnswer (k : State) (c : Call) : State × Reply :=
  match step demoLayout (demoImage 1) k c with
  | .ok x => x
  | .error _ => (k, .iret 0)

theorem demoAnswer_step (k : State) (c : Call) (v : Int) (out : List UInt8) (hpid : k.counter = 1)
    (hesp : EspOk k c) (hroom : HasRoom c) (h : (demoAnswer k c).2 = .ret v out) :
    KStep demoLayout (demoImage 1) k ⟨1, c, .ret v out⟩ (demoAnswer k c).1 := by
  have hstep : step demoLayout (demoImage 1) k c = .ok ((demoAnswer k c).1, .ret v out) := by
    rw [← h]
    unfold demoAnswer at h ⊢
    split at h
    · rename_i hstep
      rw [hstep]
    · cases h
  exact ⟨hpid.symm, ⟨hesp, step_bufOk hroom hstep⟩, hstep⟩

/-- The small system after its shell has written its greeting. -/
def demoGreeted : State := (demoAnswer demoClearShell (fdputs 1 greetText.get)).1

/-- The prompt follows. -/
def demoPrompted : State := (demoAnswer demoGreeted (fdputs 1 promptText.get)).1

/-- `a` is typed. -/
def demoTyped : State := (demoAnswer demoPrompted (.key 0x1E [])).1

end MyOS.Programs
