import MyOS.Kernel.Keyboard
import MyOS.Machine.Numeral

/-!
# `lib.c`: numbers and formatted output

Model of `strrev` and `itoa` (`lib.c:342-400`) with their twins for programs
(`ece391support.c:49-103`), and of `printf` (`lib.c:153-280`).

* Strings and buffers are addresses in a memory. `strlen` and `ece391_strlen` are one function here;
  `strlen(s) - 1` is computed as a `uint32_t` and stored in an `int32_t`.
* The two `itoa`s differ in the `strrev` they call, and that in a test the one for programs makes
  first.
* With a radix of 1 the division loop would not end and with 0 it would fault: a `Radix` carries
  that it is one of those the digits are there for.
* `printf` reads one byte of its format at a time, in the loop or in the switch that `goto` jumps
  back to. A `PrintState` is where it stands, with the bytes sent to `putc` and the addresses read
  so far; `printStep` is what it does with one byte. Only a NUL in the loop ends it, so a run
  needs fuel.
* The arguments are the words behind `format` on the stack, and `esp` counts those taken. What lies
  where `conv_buf` is declared is arbitrary.
-/

namespace MyOS.Kernel

open MyOS.Machine

/-! ## Numbers -/

/-- `strlen(s)`. -/
def strlen (m : Mem) (s : Nat) : Nat := (readString m (2 ^ 32) s).length

/-- `strlen(s) - 1`, as the `int32_t` it is stored in. -/
def lastIndex (m : Mem) (s : Nat) : Int := toInt32 (toUInt32 ((strlen m s : Int) - 1))

/-- `strrev(s)`. -/
def strrev (m : Mem) (s : Nat) : Mem := swapLoop m s 0 (lastIndex m s)

/-- `ece391_strrev(s)`. -/
def ece391Strrev (m : Mem) (s : Nat) : Mem :=
  if lastIndex m s ≤ 0 then m else swapLoop m s 0 (lastIndex m s)

/-- `lookup`, the digits. -/
def digitLookup : List UInt8 :=
  ascii ['0', '1', '2', '3', '4', '5', '6', '7', '8', '9',
    'A', 'B', 'C', 'D', 'E', 'F', 'G', 'H', 'I', 'J', 'K', 'L', 'M',
    'N', 'O', 'P', 'Q', 'R', 'S', 'T', 'U', 'V', 'W', 'X', 'Y', 'Z']

/-- `lookup[i]`. -/
def digit (i : Nat) : UInt8 := digitLookup.getD i 0

/-- A base there are digits for. -/
structure Radix where
  val : Nat
  two_le : 2 ≤ val
  le_36 : val ≤ 36

/-- The division loop of `itoa`: the memory after it, and `newbuf`. -/
def itoaLoop (radix : Radix) (m : Mem) (newbuf newval : Nat) : Mem × Nat :=
  if 0 < newval then
    itoaLoop radix (Function.update m newbuf (digit (newval % radix.val))) (newbuf + 1)
      (newval / radix.val)
  else (m, newbuf)
termination_by newval
decreasing_by
  rename_i h
  exact Nat.div_lt_self h radix.two_le

/-- `itoa(value, buf, radix)` over the reversal it calls. -/
def itoaWith (rev : Mem → Nat → Mem) (m : Mem) (value : UInt32) (buf : Nat) (radix : Radix) : Mem :=
  if value = 0 then Function.update (Function.update m buf 48) (buf + 1) 0
  else
    let r := itoaLoop radix m buf value.toNat
    rev (Function.update r.1 r.2 0) buf

/-- `itoa(value, buf, radix)`. -/
def itoa : Mem → UInt32 → Nat → Radix → Mem := itoaWith strrev

/-- `ece391_itoa(value, buf, radix)`. -/
def ece391Itoa : Mem → UInt32 → Nat → Radix → Mem := itoaWith ece391Strrev

/-! ## `printf` -/

/-- The bytes `puts(s)` sends to `putc`. -/
def putsBytes (m : Mem) (s : Nat) : List UInt8 := readString m (2 ^ 32) s

/-- The loop that pads from index `i` on, with `n` turns left. -/
def padLoop (b : Mem) : Nat → Nat → Mem
  | _, 0 => b
  | i, n + 1 => padLoop (Function.update b i 48) (i + 1) n

/-- Hexadecimal. -/
def radix16 : Radix := ⟨16, by decide, by decide⟩

/-- Decimal. -/
def radix10 : Radix := ⟨10, by decide, by decide⟩

/-- The case of `x`. -/
def convertHex (convBuf : Mem) (value : UInt32) (alternate : Bool) : List UInt8 :=
  if alternate = false then putsBytes (itoa convBuf value 0 radix16) 0
  else
    let b := itoa convBuf value 8 radix16
    let startingIndex := strlen b 8
    putsBytes (padLoop b startingIndex (8 - startingIndex)) startingIndex

/-- The case of `u`. -/
def convertUnsigned (convBuf : Mem) (value : UInt32) : List UInt8 :=
  putsBytes (itoa convBuf value 0 radix10) 0

/-- The case of `d`: a value from `2 ^ 31` on is negative, and `-value` wraps. -/
def convertSigned (convBuf : Mem) (value : UInt32) : List UInt8 :=
  if 2 ^ 31 ≤ value.toNat then
    putsBytes (itoa (Function.update convBuf 0 45) (-value) 1 radix10) 0
  else putsBytes (itoa convBuf value 0 radix10) 0

/-- In the loop, or at `format_char_switch`. -/
inductive PrintMode where
  | text
  | conversion (alternate : Bool)
  deriving DecidableEq

/-- Where `printf` is: the address of the next byte of the format and how it is read, the arguments
taken, what has been printed and which addresses of the format have been read. -/
structure PrintState where
  buf : Nat
  esp : Nat
  mode : PrintMode
  out : List UInt8
  reads : List Nat

/-- The byte at `buf` read. -/
def PrintState.read (σ : PrintState) : PrintState := { σ with reads := σ.reads ++ [σ.buf] }

/-- An argument taken and text sent. -/
def PrintState.take (σ : PrintState) (text : List UInt8) : PrintState :=
  { σ with out := σ.out ++ text, esp := σ.esp + 1 }

/-- What a call finds: memory, the words behind `format` on the stack, and what is in `conv_buf` at
each conversion. -/
structure PrintCall where
  mem : Mem
  words : Nat → UInt32
  convBuf : Nat → Mem

/-- The cases of `format_char_switch` other than `#`. -/
def convert (e : PrintCall) (alternate : Bool) (σ : PrintState) (c : UInt8) : PrintState :=
  let value := e.words σ.esp
  if c = 37 then { σ with out := σ.out ++ [37] } -- %
  else if c = 120 then σ.take (convertHex (e.convBuf σ.esp) value alternate) -- x
  else if c = 117 then σ.take (convertUnsigned (e.convBuf σ.esp) value) -- u
  else if c = 100 then σ.take (convertSigned (e.convBuf σ.esp) value) -- d
  else if c = 99 then σ.take [UInt8.ofNat value.toNat] -- c
  else if c = 115 then σ.take (putsBytes e.mem value.toNat) -- s
  else σ

/-- What is done with a byte of the format. -/
def printStep (e : PrintCall) (σ : PrintState) : PrintState :=
  let c := e.mem σ.buf
  match σ.mode with
  | .text =>
    if c = 37 then { σ with buf := σ.buf + 1, mode := .conversion false }
    else { σ with buf := σ.buf + 1, out := σ.out ++ [c] }
  | .conversion alternate =>
    if c = 35 then { σ with buf := σ.buf + 1, mode := .conversion true } -- #
    else { convert e alternate σ c with buf := σ.buf + 1, mode := .text }

/-- The loop; `none` when the fuel runs out. -/
def printRun (e : PrintCall) : Nat → PrintState → Option PrintState
  | 0, _ => none
  | fuel + 1, σ =>
    if σ.mode = .text ∧ e.mem σ.buf = 0 then some σ.read else printRun e fuel (printStep e σ.read)

/-- `printf(format, ...)`: where it stands at the end. It returns `buf - format`. -/
def printf (e : PrintCall) (format fuel : Nat) : Option PrintState :=
  printRun e fuel ⟨format, 0, .text, [], []⟩

end MyOS.Kernel
