import MyOS.Kernel.Files
import MyOS.Kernel.Keyboard
import MyOS.Kernel.Paging
import MyOS.Machine.Run

/-!
# `systemcall.c`: processes, descriptors and the system calls

Model of `student-distrib/systemcall.c`, of `rtc.c`'s device functions and of the dispatch in
`handler.S`. One kernel state, one function per system call, one step relation.

* **PCBs** live at the bottom of each process's 8 KB kernel stack, `0x800000 - 0x2000 * k` for
  process `k`; `pcb` is indexed by that address. The current process is recomputed from `counter`
  in every call, from `esp` in `execute` and from `parent_pid` in `halt`, as in the source.
* **Descriptors** hold a pointer to one of the five operation tables or `NULL`. Calling an entry
  that is 0, or through `NULL`, reads page 0, which is never mapped: a page fault, and the handler
  (`idt.c:147-152`) never returns.
* **Calls that do not return** end with a `Stop`: a page fault, a store past the end of an array
  (`overrun`: what happens then depends on what the compiler put there), or a read that is still
  waiting for a line (`blocked`). `rtc_read` waits for one clock interrupt and returns.
* **User memory.** A call that stores into the caller's buffer replies with the bytes the buffer
  holds from its start on; buffers and strings passed in are what the caller has there. `read` and
  `getargs` compare `buf` with `NULL` only: a step of the system is one whose bytes stay in the
  program's page (`BufOk`), and `Kernel/Pointers.lean` has the others.
* **`execute`** runs on locals it has not initialised: `temp` in `check_executable` and `buf`. When
  the first 32 bytes of the command hold no blank, the terminator of `command_name` is stored one
  past the array, and a name without a NUL in those 32 bytes runs on into the frame: `past` is what
  `strlen` finds there. `esp` and `ebp` are the registers at the `movl`. All are arbitrary.
* `file_load` stores at 0x08048000 and up in the one mapped 4 MB page; a file that does not fit
  faults at 0x08400000.

Left out: `status` and `priority` of a PCB, which nothing reads; the value `execute` returns to the
parent after `halt` (the `movb` reads `temp` through the parent's frame pointer); bytes of a file
name field after its NUL; a directory slot without a NUL in any of its 64 bytes, for which
`dentry_copy` runs off its destination.
-/

namespace MyOS.Kernel

open MyOS.Machine

/-- Why a call does not return. -/
inductive Stop where
  | pageFault
  | overrun
  | blocked
  deriving DecidableEq, Repr

/-! ## Operation tables -/

/-- The five tables of file operations. -/
inductive OpTable where
  | stdinT
  | stdoutT
  | rtcT
  | fileT
  | directoryT
  deriving DecidableEq, Repr

/-- The functions a `read` entry can point to. -/
inductive ReadFn where
  | terminalRead
  | rtcRead
  | fileRead
  | directoryRead
  deriving DecidableEq, Repr

/-- The functions a `write` entry can point to. -/
inductive WriteFn where
  | terminalWrite
  | rtcWrite
  | fileWrite
  | directoryWrite
  deriving DecidableEq, Repr

/-- The functions a `close` entry can point to. -/
inductive CloseFn where
  | rtcClose
  | fileClose
  | directoryClose
  deriving DecidableEq, Repr

/-- The `read` entry of a table; `none` is 0. -/
def OpTable.read : OpTable → Option ReadFn
  | .stdinT => some .terminalRead
  | .stdoutT => none
  | .rtcT => some .rtcRead
  | .fileT => some .fileRead
  | .directoryT => some .directoryRead

/-- The `write` entry of a table. -/
def OpTable.write : OpTable → Option WriteFn
  | .stdinT => none
  | .stdoutT => some .terminalWrite
  | .rtcT => some .rtcWrite
  | .fileT => some .fileWrite
  | .directoryT => some .directoryWrite

/-- The `close` entry of a table. -/
def OpTable.close : OpTable → Option CloseFn
  | .stdinT => none
  | .stdoutT => none
  | .rtcT => some .rtcClose
  | .fileT => some .fileClose
  | .directoryT => some .directoryClose

/-! ## The kernel state -/

/-- `file_descriptor`. -/
structure FileDescriptor where
  fileOperation : Option OpTable
  fileName : CString
  inode : Nat
  fileposition : Nat
  flags : Int
  deriving DecidableEq

/-- `pcb_t`. -/
structure Pcb where
  pid : Nat
  parentPid : Nat
  parentKernelSp : Nat
  parentKernelBp : Nat
  fileArray : Fin 8 → FileDescriptor
  arg : Mem

/-- The globals the system calls share. -/
structure State where
  counter : Nat
  shellEntryAddr : Nat
  argSize : Nat
  esp0 : Nat
  paging : Paging
  pcb : Nat → Pcb
  entryCounter : Nat
  keyboard : Keyboard
  rtcRegA : UInt8

/-- `BOTTOM_STACK - STACK_SIZE * k`. -/
def pcbAddr (k : Nat) : Nat := 0x800000 - 0x2000 * k

/-- `BOTTOM_STACK - (counter - 1) * 0x2000 - 4`. -/
def kernelEsp0 (counter : Nat) : Nat := 0x800000 + 0x2000 - 0x2000 * counter - 4

/-- The PCB of the current process, as every call but `execute` finds it. -/
def State.current (k : State) : Pcb := k.pcb (pcbAddr k.counter)

/-- `pcb->file_array[fd]` of the current process. -/
def State.file (k : State) (fd : Fin 8) : FileDescriptor := k.current.fileArray fd

/-- The state after a store to `pcb->file_array[fd]` of the current process. -/
def State.setFile (k : State) (fd : Fin 8) (f : FileDescriptor) : State :=
  { k with
    pcb := Function.update k.pcb (pcbAddr k.counter)
      { k.current with fileArray := Function.update k.current.fileArray fd f } }

/-- What a system call leaves behind for its caller. -/
inductive Reply where
  /-- A return value, and the bytes stored at the start of the caller's buffer. -/
  | ret (value : Int) (out : List UInt8)
  /-- User mode entered at an address: a program starts, or the shell starts again. -/
  | iret (eip : Nat)
  /-- Back in the parent's `execute`, on the parent's kernel stack. -/
  | resume (esp ebp : Nat)
  deriving DecidableEq

/-! ## `execute` -/

/-- What `execute` finds when it is called. -/
structure ExecArgs where
  /-- The memory at `command`, `none` for `NULL`. -/
  command : Option Mem
  past : CString
  temp : Mem
  buf : Mem
  esp : Nat
  ebp : Nat

/-- The index at which the loop over `command_name` stops, with `n` bytes of room left. -/
def nameEnd (cmd : Mem) : Nat → Nat → Nat
  | 0, i => i
  | n + 1, i => if cmd i = 32 then i else nameEnd cmd n (i + 1)

/-- `command_name`, read as a string. -/
def commandName (cmd : Mem) (past : CString) : CString :=
  let i := nameEnd cmd 32 0
  CString.ofBytes ((List.range i).map cmd ++ if i < 32 then [] else past.bytes)

/-- `arg_buf`, read as a string; `none` when it and its terminator do not fit. -/
def argument (cmd : Mem) : Option (List UInt8) :=
  let arg := readString cmd 1024 (nameEnd cmd 32 0 + 1)
  if arg.length < 1024 then some arg else none

/-- The address of a local array: not `NULL`. -/
def localBuf : Nat := 0x7ff000

theorem localBuf_ne_zero : localBuf ≠ 0 := by decide

/-- `check_executable(command_name)`. -/
def checkExecutable (img : Image) (temp : Mem) (name : CString) : Int :=
  let r := fileRead img localBuf 0 4 name
  if r.1 = -1 then -1
  else
    let t := store temp 0 r.2
    if t 0 ≠ 0x7f ∨ t 1 ≠ 0x45 ∨ t 2 ≠ 0x4c ∨ t 3 ≠ 0x46 then -1 else 0

/-- Bytes from `PROGRAM_STARTING_ADDR` to the end of the program's page. -/
def loadRoom : Nat := 0x08400000 - 0x08048000

/-- `"stdin"`. -/
def stdinName : CString := ⟨ascii ['s', 't', 'd', 'i', 'n'], by decide⟩

/-- `"stdout"`. -/
def stdoutName : CString := ⟨ascii ['s', 't', 'd', 'o', 'u', 't'], by decide⟩

/-- `"STDIN"`, the name `execute` gives descriptor 0. -/
def stdinLabel : CString := ⟨ascii ['S', 'T', 'D', 'I', 'N'], by decide⟩

/-- `"STDOUT"`, the name `execute` gives descriptor 1. -/
def stdoutLabel : CString := ⟨ascii ['S', 'T', 'D', 'O', 'U', 'T'], by decide⟩

/-- A free descriptor, as `execute` and `close` leave it. -/
def freeDescriptor : FileDescriptor := ⟨none, CString.empty, 0, 0, 0⟩

/-- The descriptor table of a new process. -/
def freshFiles : Fin 8 → FileDescriptor := fun fd =>
  if fd = 0 then ⟨some .stdinT, stdinLabel, 0, 0, 1⟩
  else if fd = 1 then ⟨some .stdoutT, stdoutLabel, 0, 0, 1⟩
  else freeDescriptor

/-- Steps 5 and 6 of `execute`: the new PCB, `tss.esp0` and the argument. The new process's `pid`
is stored before the parent's is read. -/
def startProcess (k : State) (e : ExecArgs) (arg : List UInt8) : State :=
  let a := pcbAddr k.counter
  let pcb := Function.update k.pcb a { k.pcb a with pid := k.counter % 256 }
  let parentPid := if k.counter = 1 then 0 else (pcb (e.esp &&& 0xffffe000)).pid
  { k with
    pcb := Function.update pcb a
      { pid := k.counter % 256
        parentPid := parentPid
        parentKernelSp := e.esp
        parentKernelBp := e.ebp
        fileArray := freshFiles
        arg := store (fun _ => 0) 0 (strncpy (fun i => arg.getD i 0) arg.length) }
    esp0 := kernelEsp0 k.counter }

/-- The message printed when six processes run. -/
def tooManyText : List UInt8 :=
  ascii ['C', 'a', 'n'] ++ [39] ++ ascii ['t', ' ', 'e', 'x', 'e', 'c', 'u', 't', 'e', ' ',
    'm', 'o', 'r', 'e', ' ', 't', 'h', 'a', 'n', ' ', '6', ' ',
    'p', 'r', 'o', 'c', 'e', 's', 's', 'e', 's'] ++ [10]

/-- The state after `counter` and the address space of the new process are set up. -/
def enterProcess (L : Layout) (k : State) (entry : Nat) : State :=
  { k with
    counter := k.counter + 1
    shellEntryAddr := if k.counter + 1 = 1 then entry else k.shellEntryAddr
    paging := createPaging L (k.counter + 1) k.paging }

/-- `execute(command)`. A longer argument is stored over what lies behind `arg_buf`
(`systemcall.c:84-90`). -/
def execute (L : Layout) (img : Image) (k : State) (e : ExecArgs) :
    Except Stop (State × Reply) :=
  if 6 ≤ k.counter then
    .ok ({ k with keyboard := { k.keyboard with screen := puts k.keyboard.screen tooManyText } },
      .ret (-1) [])
  else
    match e.command with
    | none => .ok (k, .ret (-1) [])
    | some cmd =>
      match argument cmd with
      | none => .error .overrun
      | some arg =>
        let name := commandName cmd e.past
        let k1 := { k with argSize := arg.length }
        if checkExecutable img e.temp name = -1 then .ok (k1, .ret (-1) [])
        else
          let r := fileRead img localBuf 24 4 name
          if r.1 = -1 then .ok (k1, .ret (-1) [])
          else
            let entry := le32 (store e.buf 0 r.2) 0
            let k2 := enterProcess L k1 entry
            let a := fileLoad img name
            if loadRoom < a.2.length then .error .pageFault
            else if a.1 = -1 then .ok (k2, .ret (-1) [])
            else .ok (startProcess k2 e arg, .iret entry)

/-! ## The other calls -/

/-- `halt(status)`. The status does not reach anything modelled. -/
def halt (L : Layout) (k : State) (_status : UInt8) : State × Reply :=
  let pcb := k.current
  if pcb.pid = 1 then
    ({ k with keyboard := { k.keyboard with screen := clearScreen k.keyboard.screen } },
      .iret k.shellEntryAddr)
  else
    ({ k with
        counter := k.counter - 1
        paging := { k.paging with cr3 := loadCr3 (dirAddr L ((pcb.parentPid : Int) - 1)) }
        esp0 := kernelEsp0 (k.counter - 1) },
      .resume pcb.parentKernelSp pcb.parentKernelBp)

/-- The device read a table entry names: the state after it, its value and the bytes stored. -/
def callRead (img : Image) (k : State) (f : FileDescriptor) (buf : Nat) (nbytes : Int) :
    ReadFn → Except Stop (State × Int × List UInt8)
  | .terminalRead =>
    match terminalRead k.keyboard nbytes with
    | none => .error .blocked
    | some (kb, r, out) => .ok ({ k with keyboard := kb }, r, out)
  | .rtcRead => .ok (k, 0, [])
  | .fileRead =>
    let r := fileRead img buf f.fileposition (toUInt32 nbytes) f.fileName
    .ok (k, r.1, r.2)
  | .directoryRead =>
    let r := directoryRead img k.entryCounter
    .ok ({ k with entryCounter := r.1 }, r.2.1, r.2.2)

/-- `file_array[fd]` for an `fd` that passed the range check. -/
def fdIndex (fd : Int) : Fin 8 := Fin.ofNat 8 fd.toNat

/-- `read(fd, buf, nbytes)`. Whatever the device returns is added to the position. The bytes stored
from `buf` on are those of the reply. -/
def read (img : Image) (k : State) (fd : Int) (buf : Nat) (nbytes : Int) :
    Except Stop (State × Reply) :=
  if fd < 0 ∨ 7 < fd ∨ buf = 0 then .ok (k, .ret (-1) [])
  else
    let f := k.file (fdIndex fd)
    if f.flags = 0 then .ok (k, .ret (-1) [])
    else
      match f.fileOperation.bind OpTable.read with
      | none => .error .pageFault
      | some fn =>
        match callRead img k f buf nbytes fn with
        | .error s => .error s
        | .ok (k', bytes, out) =>
          .ok (k'.setFile (fdIndex fd)
            { f with fileposition := toUInt32 ((f.fileposition : Int) + bytes) }, .ret bytes out)

/-- The `rate` `rtc_write` selects for a frequency, if it accepts it. -/
def rtcRate (frequency : Int) : Option UInt8 :=
  [(1024, 0x06), (512, 0x07), (256, 0x08), (128, 0x09), (64, 0x0A), (32, 0x0B), (16, 0x0C),
    (8, 0x0D), (4, 0x0E), (2, 0x0F), (0, 0x00)].lookup frequency

/-- `rtc_write(fd, buf, nbytes)`: register A of the clock and the return value. -/
def rtcWrite (regA : UInt8) (buf : Mem) (nbytes : Int) : UInt8 × Int :=
  if nbytes ≠ 4 then (regA, -1)
  else
    match rtcRate (toInt32 (le32 buf 0)) with
    | none => (regA, -1)
    | some rate => (regA &&& 0xf0 ||| rate, nbytes)

/-- The device write a table entry names. -/
def callWrite (k : State) (data : Mem) (nbytes : Int) : WriteFn → Except Stop (State × Int)
  | .terminalWrite =>
    match terminalWrite k.keyboard data nbytes with
    | none => .error .overrun
    | some (kb, r) => .ok ({ k with keyboard := kb }, r)
  | .rtcWrite =>
    let r := rtcWrite k.rtcRegA data nbytes
    .ok ({ k with rtcRegA := r.1 }, r.2)
  | .fileWrite => .ok (k, -1)
  | .directoryWrite => .ok (k, -1)

/-- `write(fd, buf, nbytes)`, with `data` the memory at `buf`. -/
def write (k : State) (fd : Int) (buf : Nat) (data : Mem) (nbytes : Int) :
    Except Stop (State × Reply) :=
  if fd < 0 ∨ 7 < fd ∨ buf = 0 then .ok (k, .ret (-1) [])
  else
    let f := k.file (fdIndex fd)
    if f.flags = 0 then .ok (k, .ret (-1) [])
    else
      match f.fileOperation.bind OpTable.write with
      | none => .error .pageFault
      | some fn =>
        match callWrite k data nbytes fn with
        | .error s => .error s
        | .ok (k', bytes) => .ok (k', .ret bytes [])

/-- The first free descriptor from 2 on. -/
def vacantFd (k : State) : Option (Fin 8) :=
  [2, 3, 4, 5, 6, 7].find? fun i => (k.file i).flags = 0

/-- The table for a file type; a type above 2 leaves the field as it is. -/
def tableFor (filetype : Nat) (old : Option OpTable) : Option OpTable :=
  if filetype = 2 then some .fileT
  else if filetype = 1 then some .directoryT
  else if filetype = 0 then some .rtcT
  else old

/-- `open(filename)`. A name of 32 bytes or more does not fit `file_name`: `strcpy` goes on over the
fields behind it (`systemcall.c:406`). -/
def openFile (img : Image) (k : State) (filename : CString) : Except Stop (State × Reply) :=
  if strncmp stdinName.get filename.get 5 = 0 then
    .ok (k.setFile 0 { k.file 0 with fileOperation := some .stdinT, flags := 1 }, .ret 0 [])
  else if strncmp stdoutName.get filename.get 5 = 0 then
    .ok (k.setFile 1 { k.file 1 with fileOperation := some .stdoutT, flags := 1 }, .ret 0 [])
  else
    match readDentryByName img filename with
    | none => .ok (k, .ret (-1) [])
    | some d =>
      match vacantFd k with
      | none => .ok (k, .ret (-1) [])
      | some i =>
        if 32 ≤ filename.length then .error .overrun
        else
          .ok (k.setFile i
            { fileOperation := tableFor d.filetype (k.file i).fileOperation
              fileName := filename
              inode := d.inode
              fileposition := 0
              flags := 1 }, .ret (i.val : Int) [])

/-- `close(fd)`. Every close function returns 0. -/
def close (k : State) (fd : Int) : Except Stop (State × Reply) :=
  if fd < 2 ∨ 7 < fd then .ok (k, .ret (-1) [])
  else
    let f := k.file (fdIndex fd)
    if f.flags = 1 then
      match f.fileOperation.bind OpTable.close with
      | none => .error .pageFault
      | some _ => .ok (k.setFile (fdIndex fd) freeDescriptor, .ret 0 [])
    else .ok (k, .ret (-1) [])

/-- `getargs(buf, nbytes)`. The bytes stored from `buf` on are those of the reply. -/
def getargs (k : State) (buf : Nat) (nbytes : Int) : State × Reply :=
  if buf = 0 ∨ nbytes < k.argSize then (k, .ret (-1) [])
  else (k, .ret 0 (strncpy k.current.arg (toUInt32 nbytes)))

/-- `vidmap(screen_start)`: on success `VIDEO_ADDR` is stored at `screen_start`. -/
def vidmap (L : Layout) (k : State) (screenStart : Nat) : State × Reply :=
  if screenStart < 0x08000000 ∨ 0x08400000 ≤ screenStart then (k, .ret (-1) [])
  else ({ k with paging := mapVideo L k.counter k.paging }, .ret 0 [0x00, 0x00, 0x40, 0x08])

/-! ## The system -/

/-- What can happen to the kernel: a system call of the current process, or a key. -/
inductive Call where
  | halt (status : UInt8)
  | execute (e : ExecArgs)
  | read (fd : Int) (buf : Nat) (nbytes : Int)
  | write (fd : Int) (buf : Nat) (data : Mem) (nbytes : Int)
  | openFile (filename : CString)
  | close (fd : Int)
  | getargs (buf : Nat) (nbytes : Int)
  | vidmap (screenStart : Nat)
  | setHandler
  | sigreturn
  /-- A call number outside 1 to 10. -/
  | invalid
  /-- The keyboard interrupt. -/
  | key (scancode : UInt8) (text : List UInt8)

/-- `asm_linkage` and the keyboard handler. -/
def step (L : Layout) (img : Image) (k : State) : Call → Except Stop (State × Reply)
  | .halt status => .ok (halt L k status)
  | .execute e => execute L img k e
  | .read fd buf nbytes => read img k fd buf nbytes
  | .write fd buf data nbytes => write k fd buf data nbytes
  | .openFile filename => openFile img k filename
  | .close fd => close k fd
  | .getargs buf nbytes => .ok (getargs k buf nbytes)
  | .vidmap screenStart => .ok (vidmap L k screenStart)
  | .setHandler => .ok (k, .ret (-1) [])
  | .sigreturn => .ok (k, .ret (-1) [])
  | .invalid => .ok (k, .ret (-1) [])
  | .key sc text =>
    .ok ({ k with keyboard := processKeyboardInput k.keyboard sc text }, .ret 0 [])

/-- One step of a run: who was running, what happened, what it answered. -/
structure Event where
  pid : Nat
  call : Call
  reply : Reply

/-- The kernel stack pointer lies in the current process's own stack, above its PCB. -/
def EspOk (k : State) : Call → Prop
  | .execute e => pcbAddr k.counter ≤ e.esp ∧ e.esp < pcbAddr k.counter + 0x2000
  | _ => True

/-- `n` bytes from `a` on lie in the program's page, `USER_PROG_START` to `USER_PROG_END`: what
`vidmap` checks of its pointer. -/
def InProgram (a n : Nat) : Prop := 0x08000000 ≤ a ∧ a + n ≤ 0x08400000

/-- What `read` and `getargs` store through the caller's `buf`: where, and the bytes. -/
def userStore : Call → Reply → Nat × List UInt8
  | .read _ buf _, .ret _ out => (buf, out)
  | .getargs buf _, .ret _ out => (buf, out)
  | _, _ => (0, [])

/-- The bytes stored through `buf` lie in the program's page. -/
def BufOk (c : Call) (r : Reply) : Prop :=
  (userStore c r).2 = [] ∨ InProgram (userStore c r).1 (userStore c r).2.length

/-- **One step of the system**, with the stack and the buffers where they belong. -/
def KStep (L : Layout) (img : Image) (k : State) (ev : Event) (k' : State) : Prop :=
  ev.pid = k.counter ∧ (EspOk k ev.call ∧ BufOk ev.call ev.reply) ∧
    step L img k ev.call = .ok (k', ev.reply)

/-- The state `entry` hands to its `execute`: nothing runs, paging is initialised, PCBs and
devices hold anything. -/
structure Booting (L : Layout) (k : State) : Prop where
  counter_zero : k.counter = 0
  paging_init : ∃ p, k.paging = initPaging L p

/-- The memory at the literal `"shell"` that `entry` passes. -/
def ShellCommand (e : ExecArgs) : Prop :=
  ∃ cmd, e.command = some cmd ∧ readString cmd 6 0 = ascii ['s', 'h', 'e', 'l', 'l']

/-- The system after boot: `execute("shell")` has succeeded. -/
def Booted (L : Layout) (img : Image) (k : State) : Prop :=
  ∃ k0 e entry, Booting L k0 ∧ ShellCommand e ∧ execute L img k0 e = .ok (k, .iret entry)

/-- The states a booted system reaches, with the events that led there. -/
def Reaches (L : Layout) (img : Image) (tr : List Event) (k : State) : Prop :=
  ∃ k0, Booted L img k0 ∧ Trace (KStep L img) k0 tr k

end MyOS.Kernel
