import MyOS.Kernel.Lib

/-!
# `ece391grep.c`: searching a file

Model of `do_one_file` (`ece391grep.c:9-66`) and of the string routines it calls
(`ece391support.c:6-46`).

* `data` is an array of `BUFSIZE + 1` bytes, of which the last is never read into. What it holds at
  the start is arbitrary.
* `FileCalls` are the answers of the system calls: a read gets what `read` gives at the position the
  descriptor has reached. What is written to descriptor 1 is collected in `out`, oldest first.
* The two `while (1)` loops and `ece391_strcpy` have fuel, and are `none` when it runs out. The
  other loops run between two indices and recurse on their distance.
* `s` is a pointer to `char`, which is signed, and `data` one to `uint8_t`: their first bytes are
  compared as numbers. `ece391_strncmp` compares bytes.
-/

namespace MyOS.Programs

open MyOS.Machine MyOS.Kernel

/-- `BUFSIZE`. -/
def bufsize : Nat := 1024

/-- What the system calls answer. -/
structure FileCalls where
  opened : Int
  /-- The return value of a read at a position for a number of bytes, and the bytes it stores. -/
  read : Nat → Nat → Int × List UInt8
  closed : Int

/-! ## Strings -/

/-- The loop of `ece391_strncmp` from index `i`, with `n` bytes left. -/
def ece391StrncmpFrom (s1 s2 : Nat → UInt8) : Nat → Nat → Int
  | 0, _ => 0
  | n + 1, i =>
    if s1 i = s2 i then (if s1 i = 0 ∨ n = 0 then 0 else ece391StrncmpFrom s1 s2 n (i + 1))
    else ((s1 i).toNat : Int) - (s2 i).toNat

/-- `ece391_strncmp(s1, s2, n)`. -/
def ece391Strncmp (s1 s2 : Nat → UInt8) (n : Nat) : Int := ece391StrncmpFrom s1 s2 n 0

/-- `ece391_strcpy(dst, src)`. -/
def ece391Strcpy (m : Mem) : Nat → Nat → Nat → Option Mem
  | 0, _, _ => none
  | fuel + 1, dst, src =>
    let m' := Function.update m dst (m src)
    if m src = 0 then some m' else ece391Strcpy m' fuel (dst + 1) (src + 1)

/-- The bytes `ece391_fdputs(1, s)` writes. -/
def fdputsBytes (m : Mem) (s : Nat) : List UInt8 := readString m (2 ^ 32) s

/-! ## One line -/

/-- The loop that looks for the end of the line, from index `i` with `n` bytes left. -/
def lineEnd (data : Mem) : Nat → Nat → Nat
  | 0, i => i
  | n + 1, i => if data i = 10 then i else lineEnd data n (i + 1)

/-- The loop over `check`, with `n` places left: whether the string was found. -/
def searchFrom (data : Mem) (s : CString) : Nat → Nat → Bool
  | 0, _ => false
  | n + 1, check =>
    if charVal (s.get 0) = (data check).toNat ∧
        ece391Strncmp (fun i => data (check + i)) s.get s.length = 0 then true
    else searchFrom data s n (check + 1)

/-- What is written for a line that was found. -/
def printFound (fname : CString) (data : Mem) (lineStart : Nat) : List UInt8 :=
  fname.bytes ++ [58] ++ fdputsBytes data lineStart ++ [10]

/-! ## The loops -/

/-- `data`, `last` and what was written. -/
structure GrepState where
  data : Mem
  last : Nat
  out : List UInt8

/-- The inner loop from `line_start` on. -/
def lineLoop (s fname : CString) (cnt : Int) : Nat → GrepState → Nat → Option GrepState
  | 0, _, _ => none
  | fuel + 1, g, lineStart =>
    let e := lineEnd g.data (g.last - lineStart) lineStart
    if g.data e ≠ 10 ∧ cnt ≠ 0 ∧ lineStart ≠ 0 then
      -- the rest of the buffer is the start of a line: it is moved down
      (ece391Strcpy (Function.update g.data e 0) fuel 0 lineStart).map fun data =>
        { g with data := data, last := g.last - lineStart }
    else
      let data := Function.update g.data e 0
      let out :=
        if searchFrom data s (e - lineStart) lineStart then
          g.out ++ printFound fname data lineStart
        else g.out
      if g.last ≤ e + 1 then some ⟨data, 0, out⟩
      else lineLoop s fname cnt fuel ⟨data, g.last, out⟩ (e + 1)

/-- `file read failed`. -/
def readFailedText : List UInt8 :=
  [102, 105, 108, 101, 32, 114, 101, 97, 100, 32, 102, 97, 105, 108, 101, 100, 10]

/-- `file open failed`. -/
def openFailedText : List UInt8 :=
  [102, 105, 108, 101, 32, 111, 112, 101, 110, 32, 102, 97, 105, 108, 101, 100, 10]

/-- `file close failed`. -/
def closeFailedText : List UInt8 :=
  [102, 105, 108, 101, 32, 99, 108, 111, 115, 101, 32, 102, 97, 105, 108, 101, 100, 10]

/-- The outer loop, with the descriptor at `pos`: whether a read failed, and what was written. -/
def fileLoop (calls : FileCalls) (s fname : CString) : Nat → GrepState → Nat →
    Option (Bool × List UInt8)
  | 0, _, _ => none
  | fuel + 1, g, pos =>
    let r := calls.read pos (bufsize - g.last)
    if r.1 = -1 then some (true, g.out ++ readFailedText)
    else
      let g := { g with data := store g.data g.last r.2, last := g.last + r.1.toNat }
      match lineLoop s fname r.1 fuel g 0 with
      | none => none
      | some g => if r.1 = 0 then some (false, g.out)
        else fileLoop calls s fname fuel g (pos + r.1.toNat)

/-- `do_one_file(s, fname)` with `data` as it is found: the return value and what was written. -/
def doOneFile (calls : FileCalls) (s fname : CString) (data : Mem) (fuel : Nat) :
    Option (Int × List UInt8) :=
  if calls.opened = -1 then some (-1, openFailedText)
  else
    (fileLoop calls s fname fuel ⟨data, 0, []⟩ 0).map fun r =>
      if r.1 then (-1, r.2)
      else if calls.closed = -1 then (-1, r.2 ++ closeFailedText)
      else (0, r.2)

end MyOS.Programs
