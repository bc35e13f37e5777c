import MyOS.Descriptor.Allocation
import MyOS.Descriptor.DirStream
import MyOS.Process.Command

/-!
# What the kernel is for

The system as its processes are meant to see it, without PCBs, addresses, inodes and block lists:
each process has eight descriptors, a descriptor is a stream or free, a name on the disk opens a
stream, and processes are stacked. `Descriptor/Refinement.lean` ties it to the code.

* `Stream`, `Frame`, `Disk`, `Service`: the state.
* `Reads`, `Writes`: what a stream answers.
* **`Serves`**: one event, a call of the running process with its answer.

The service keeps four things of the code that its users would not expect: `scan` and `parsed` are
shared by all processes, a name that begins with `stdin` or `stdou` opens nothing, and a `read` of 0
bytes moves a file back by one.
-/

namespace MyOS.Descriptor

open MyOS.Machine MyOS.Kernel MyOS.Process

/-! ## The service -/

/-- What an open descriptor reads from and writes to. -/
inductive Stream where
  | keyboard
  | console
  | clock
  | directory
  | file (content : List UInt8) (pos : Nat)
  deriving DecidableEq

/-- A process: its descriptors, `none` for a free one, and its argument. -/
structure Frame where
  table : Fin 8 → Option Stream
  arg : CString

/-- The descriptors a process starts with. -/
def freshTable : Fin 8 → Option Stream := fun fd =>
  if fd.val = 0 then some .keyboard else if fd.val = 1 then some .console else none

/-- What a name opens, and the names the directory lists. -/
structure Disk where
  lookup : CString → Option Stream
  names : List CString

/-- The running process, those waiting for it, the parent first, the position of the one scan of
the directory and the length of the argument that was parsed last. -/
structure Service where
  running : Frame
  waiting : List Frame
  scan : Nat
  parsed : Nat

namespace Service

/-- The number of the running process. -/
def pid (s : Service) : Nat := s.waiting.length + 1

/-- The stream of `fd`, if it is open. -/
def stream (s : Service) (fd : Int) : Option Stream :=
  if 0 ≤ fd ∧ fd ≤ 7 then s.running.table (fdIndex fd) else none

/-- The service with another stream at a descriptor of the running process. -/
def set (s : Service) (i : Fin 8) (st : Option Stream) : Service :=
  { s with running := { s.running with table := Function.update s.running.table i st } }

theorem stream_natCast (s : Service) (i : Fin 8) : s.stream (i.val : Int) = s.running.table i := by
  unfold Service.stream
  rw [if_pos (by omega), fdIndex_natCast]

@[simp] theorem set_self (s : Service) (i : Fin 8) (st : Option Stream) :
    (s.set i st).running.table i = st := Function.update_self ..

theorem set_of_ne (s : Service) {i j : Fin 8} (h : j ≠ i) (st : Option Stream) :
    (s.set i st).running.table j = s.running.table j := Function.update_of_ne h ..

theorem stream_one_of_fresh (s : Service) (h : s.running.table = freshTable) :
    s.stream 1 = some .console := by
  unfold Service.stream
  rw [if_pos (by decide), h]
  rfl

/-- Descriptor 1 when another one is set. -/
theorem set_stream_one (s : Service) {i : Fin 8} (h : 2 ≤ i) (st : Option Stream) :
    (s.set i st).stream 1 = s.stream 1 := by
  have hne : (1 : Fin 8) ≠ i := by
    rintro rfl
    exact absurd h (by decide)
  exact s.set_of_ne hne st

/-- `i` is the least of the descriptors 2 to 7 that is free. -/
structure LeastVacant (s : Service) (i : Fin 8) : Prop where
  two_le : 2 ≤ i
  free : s.running.table i = none
  least : ∀ j, 2 ≤ j → j < i → s.running.table j ≠ none

end Service

/-- A directory entry as a `read` stores it: the name in a field of 33 bytes. -/
def paddedName (name : CString) : List UInt8 :=
  name.bytes ++ List.replicate (33 - name.length) 0

/-- **Reading** `n` bytes from a stream: the stream and the scan afterwards, the value returned and
the bytes stored. A line of the keyboard is whatever was typed. -/
inductive Reads (D : Disk) (n : Int) : Stream → Nat → Stream → Nat → Int → List UInt8 → Prop
  | keyboard {scan : Nat} {out : List UInt8} (hout : out.length ≤ n.toNat) :
      Reads D n .keyboard scan .keyboard scan out.length out
  | clock {scan : Nat} : Reads D n .clock scan .clock scan 0 []
  | file {content : List UInt8} {pos scan : Nat} {out : List UInt8} (hn : toUInt32 n ≠ 0)
      (hout : out = (content.drop pos).take (toUInt32 n)) :
      Reads D n (.file content pos) scan (.file content (pos + out.length)) scan out.length out
  | nothing {content : List UInt8} {pos scan : Nat} (hn : toUInt32 n = 0) :
      Reads D n (.file content pos) scan (.file content (toUInt32 ((pos : Int) - 1))) scan (-1) []
  | entry {scan : Nat} {name : CString} (hname : D.names[scan]? = some name) :
      Reads D n .directory scan .directory (scan + 1) name.length (paddedName name)
  | finished {scan : Nat} (hscan : D.names.length ≤ scan) :
      Reads D n .directory scan .directory 0 0 (List.replicate 33 0)

/-- A stream that a name on a disk can open: not one of the console's. -/
def Stream.OnDisk (st : Stream) : Prop := st ≠ .keyboard ∧ st ≠ .console

theorem Reads.onDisk {D : Disk} {n : Int} {st st' : Stream} {scan scan' : Nat} {v : Int}
    {out : List UInt8} (h : Reads D n st scan st' scan' v out) (hst : st.OnDisk) : st'.OnDisk := by
  cases h with
  | keyboard hout => exact hst
  | clock => exact hst
  | file hn hout => exact ⟨nofun, nofun⟩
  | nothing hn => exact ⟨nofun, nofun⟩
  | entry hname => exact hst
  | finished hscan => exact hst

/-- A disk as an image can hold it: no name opens the console, and names fit their field. -/
structure Disk.Ok (D : Disk) : Prop where
  onDisk : ∀ {name st}, D.lookup name = some st → st.OnDisk
  length_le : ∀ name ∈ D.names, name.length ≤ 32

/-- **Writing** `n` bytes to a stream: the value returned. The console prints what is pending too,
so it may return more than `n`. -/
inductive Writes (data : Mem) (n : Int) : Stream → Int → Prop
  | console {v : Int} (hv : 0 ≤ v) : Writes data n .console v
  | clock : Writes data n .clock
      (if n = 4 ∧ (rtcRate (toInt32 (le32 data 0))).isSome then 4 else -1)
  | directory : Writes data n .directory (-1)
  | file {content : List UInt8} {pos : Nat} : Writes data n (.file content pos) (-1)

/-- The calls that use no descriptor and no argument, with their answers. -/
def Idle : Call → Reply → Prop
  | .vidmap a, r => r = if 0x08000000 ≤ a ∧ a < 0x08400000 then .ret 0 [0x00, 0x00, 0x40, 0x08]
      else .ret (-1) []
  | .setHandler, r => r = .ret (-1) []
  | .sigreturn, r => r = .ret (-1) []
  | .invalid, r => r = .ret (-1) []
  | .key _ _, _ => True
  | _, _ => False

/-- **One event of the service.** -/
inductive Serves (D : Disk) (s : Service) : Event → Service → Prop
  | read {fd n : Int} {buf scan : Nat} {st st' : Stream} {v : Int} {out : List UInt8}
      (hfd : s.stream fd = some st) (hbuf : buf ≠ 0) (hr : Reads D n st s.scan st' scan v out) :
      Serves D s ⟨s.pid, .read fd buf n, .ret v out⟩
        { s.set (fdIndex fd) (some st') with scan := scan }
  | readRefused {fd n : Int} {buf : Nat} (h : s.stream fd = none ∨ buf = 0) :
      Serves D s ⟨s.pid, .read fd buf n, .ret (-1) []⟩ s
  | write {fd n : Int} {buf : Nat} {data : Mem} {st : Stream} {v : Int}
      (hfd : s.stream fd = some st) (hbuf : buf ≠ 0) (hw : Writes data n st v) :
      Serves D s ⟨s.pid, .write fd buf data n, .ret v []⟩ s
  | writeRefused {fd n : Int} {buf : Nat} {data : Mem} (h : s.stream fd = none ∨ buf = 0) :
      Serves D s ⟨s.pid, .write fd buf data n, .ret (-1) []⟩ s
  | opened {name : CString} {st : Stream} {i : Fin 8} (hname : ¬ Reserved name)
      (hst : D.lookup name = some st) (hi : s.LeastVacant i) :
      Serves D s ⟨s.pid, .openFile name, .ret (i.val : Int) []⟩ (s.set i (some st))
  | openRefused {name : CString} (hname : ¬ Reserved name)
      (h : D.lookup name = none ∨ ∀ i : Fin 8, 2 ≤ i → s.running.table i ≠ none) :
      Serves D s ⟨s.pid, .openFile name, .ret (-1) []⟩ s
  | openReserved {name : CString} (hname : Reserved name) :
      Serves D s ⟨s.pid, .openFile name, .ret 0 []⟩ s
  | closed {fd : Int} (h2 : 2 ≤ fd) (hfd : s.stream fd ≠ none) :
      Serves D s ⟨s.pid, .close fd, .ret 0 []⟩ (s.set (fdIndex fd) none)
  | closeRefused {fd : Int} (h : fd < 2 ∨ s.stream fd = none) :
      Serves D s ⟨s.pid, .close fd, .ret (-1) []⟩ s
  | getargs {buf : Nat} {n : Int} (hbuf : buf ≠ 0) (hn : (s.parsed : Int) ≤ n) :
      Serves D s ⟨s.pid, .getargs buf n, .ret 0 (strncpy s.running.arg.get (toUInt32 n))⟩ s
  | getargsRefused {buf : Nat} {n : Int} (h : buf = 0 ∨ n < s.parsed) :
      Serves D s ⟨s.pid, .getargs buf n, .ret (-1) []⟩ s
  | started {e : ExecArgs} {cmd : Mem} {arg : CString} {eip : Nat} (hc : e.command = some cmd)
      (harg : argument cmd = some arg.bytes) :
      Serves D s ⟨s.pid, .execute e, .iret eip⟩
        ⟨⟨freshTable, arg⟩, s.running :: s.waiting, s.scan, arg.length⟩
  | notStarted {e : ExecArgs} {parsed : Nat}
      (h : parsed = s.parsed ∨ ∃ cmd arg, e.command = some cmd ∧ argument cmd = some arg ∧
        parsed = arg.length) :
      Serves D s ⟨s.pid, .execute e, .ret (-1) []⟩ { s with parsed := parsed }
  | halted {status : UInt8} {esp ebp : Nat} {parent : Frame} {rest : List Frame}
      (h : s.waiting = parent :: rest) :
      Serves D s ⟨s.pid, .halt status, .resume esp ebp⟩
        { s with running := parent, waiting := rest }
  | restarted {status : UInt8} {eip : Nat} (h : s.waiting = []) :
      Serves D s ⟨s.pid, .halt status, .iret eip⟩ s
  | idle {c : Call} {r : Reply} (h : Idle c r) : Serves D s ⟨s.pid, c, r⟩ s

/-! ## What an event can be -/

section Inversion

variable {D : Disk} {s s' : Service} {ev : Event}

theorem Serves.pid_eq (h : Serves D s ev s') : ev.pid = s.pid := by
  cases h <;> rfl

/-- A `read` of an open descriptor. -/
theorem Serves.of_read (h : Serves D s ev s') {fd n : Int} {buf : Nat} {st : Stream}
    (hc : ev.call = .read fd buf n) (hfd : s.stream fd = some st) (hbuf : buf ≠ 0) :
    ∃ st' scan v out, Reads D n st s.scan st' scan v out ∧ ev.reply = .ret v out ∧
      s' = { s.set (fdIndex fd) (some st') with scan := scan } := by
  cases h with
  | read hfd' hbuf' hr =>
    cases hc
    rw [hfd] at hfd'
    cases hfd'
    exact ⟨_, _, _, _, hr, rfl, rfl⟩
  | readRefused hno =>
    cases hc
    rcases hno with hno | hno
    · rw [hfd] at hno
      cases hno
    · exact absurd hno hbuf
  | idle hi =>
    cases hc
    exact hi.elim
  | _ => cases hc

/-- A `write` to an open descriptor. -/
theorem Serves.of_write (h : Serves D s ev s') {fd n : Int} {buf : Nat} {data : Mem} {st : Stream}
    (hc : ev.call = .write fd buf data n) (hfd : s.stream fd = some st) (hbuf : buf ≠ 0) :
    ∃ v, Writes data n st v ∧ ev.reply = .ret v [] ∧ s' = s := by
  cases h with
  | write hfd' hbuf' hw =>
    cases hc
    rw [hfd] at hfd'
    cases hfd'
    exact ⟨_, hw, rfl, rfl⟩
  | writeRefused hno =>
    cases hc
    rcases hno with hno | hno
    · rw [hfd] at hno
      cases hno
    · exact absurd hno hbuf
  | idle hi =>
    cases hc
    exact hi.elim
  | _ => cases hc

/-- An `open` of a name that is not the console's. -/
theorem Serves.of_open (h : Serves D s ev s') {name : CString} (hc : ev.call = .openFile name)
    (hname : ¬ Reserved name) :
    (∃ st i, D.lookup name = some st ∧ s.LeastVacant i ∧ ev.reply = .ret (i.val : Int) [] ∧
      s' = s.set i (some st)) ∨
    ((D.lookup name = none ∨ ∀ i : Fin 8, 2 ≤ i → s.running.table i ≠ none) ∧
      ev.reply = .ret (-1) [] ∧ s' = s) := by
  cases h with
  | opened hname' hst hi =>
    cases hc
    exact Or.inl ⟨_, _, hst, hi, rfl, rfl⟩
  | openRefused hname' hno =>
    cases hc
    exact Or.inr ⟨hno, rfl, rfl⟩
  | openReserved hres =>
    cases hc
    exact absurd hres hname
  | idle hi =>
    cases hc
    exact hi.elim
  | _ => cases hc

/-- A `getargs` with room. -/
theorem Serves.of_getargs (h : Serves D s ev s') {buf : Nat} {n : Int}
    (hc : ev.call = .getargs buf n) (hbuf : buf ≠ 0) (hn : (s.parsed : Int) ≤ n) :
    ev.reply = .ret 0 (strncpy s.running.arg.get (toUInt32 n)) ∧ s' = s := by
  cases h with
  | getargs hbuf' hn' =>
    cases hc
    exact ⟨rfl, rfl⟩
  | getargsRefused hno =>
    cases hc
    omega
  | idle hi =>
    cases hc
    exact hi.elim
  | _ => cases hc

theorem Serves.of_key (h : Serves D s ev s') {sc : UInt8} {text : List UInt8}
    (hc : ev.call = .key sc text) : s' = s := by
  cases h with
  | idle hi => rfl
  | _ => cases hc

/-- A successful `execute`. -/
theorem Serves.of_started (h : Serves D s ev s') {e : ExecArgs} {eip : Nat}
    (hc : ev.call = .execute e) (hr : ev.reply = .iret eip) :
    ∃ cmd arg, e.command = some cmd ∧ argument cmd = some arg.bytes ∧
      s' = ⟨⟨freshTable, arg⟩, s.running :: s.waiting, s.scan, arg.length⟩ := by
  cases h with
  | started hc' harg =>
    cases hc
    exact ⟨_, _, hc', harg, rfl⟩
  | notStarted hno => cases hr
  | idle hi =>
    cases hc
    exact hi.elim
  | _ => cases hc

/-- A refused `execute`. -/
theorem Serves.of_notStarted (h : Serves D s ev s') {e : ExecArgs} {v : Int} {out : List UInt8}
    (hc : ev.call = .execute e) (hr : ev.reply = .ret v out) :
    v = -1 ∧ s'.waiting = s.waiting ∧ s'.running = s.running := by
  cases h with
  | started hc' harg => cases hr
  | notStarted hno =>
    cases hr
    exact ⟨rfl, rfl, rfl⟩
  | idle hi =>
    cases hc
    exact hi.elim
  | _ => cases hc

/-- A `halt`. -/
theorem Serves.of_halt (h : Serves D s ev s') {status : UInt8} (hc : ev.call = .halt status) :
    ((∃ eip, ev.reply = .iret eip) ∧ s.waiting = [] ∧ s' = s) ∨
    ((∃ esp ebp, ev.reply = .resume esp ebp) ∧ s.waiting = s'.running :: s'.waiting) := by
  cases h with
  | halted hw => exact Or.inr ⟨⟨_, _, rfl⟩, hw⟩
  | restarted hw => exact Or.inl ⟨⟨_, rfl⟩, hw, rfl⟩
  | idle hi =>
    cases hc
    exact hi.elim
  | _ => cases hc

/-- **The processes that wait** are left alone, but for the last of them: a program is started over
it, or ends and gives way to it. -/
theorem Serves.stack (h : Serves D s ev s') :
    s'.waiting = s.waiting ∨ s'.waiting = s.running :: s.waiting ∨
      ((∃ status, ev.call = .halt status) ∧ s.waiting = s'.running :: s'.waiting) := by
  cases h with
  | started hc harg => exact Or.inr (Or.inl rfl)
  | halted hw => exact Or.inr (Or.inr ⟨⟨_, rfl⟩, hw⟩)
  | _ => exact Or.inl rfl

end Inversion

end MyOS.Descriptor
