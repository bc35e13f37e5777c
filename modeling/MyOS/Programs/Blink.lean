import MyOS.Machine.Chain

/-!
# `fish`: the blink list

Model of `fish/blink.S` and of the allocator it calls (`fish.c:161-176`).

* A slot of `blink_array` is a number below `80 * 25`, and the pointers `mp1_list_head` and `NEXT`
  are slots or null. The fields have the widths of `struct mp1_blink_struct`; `decw` and `xorw`
  wrap.
* `mp1_poke` writes the character of a cell and leaves its attribute: `video` is indexed by the
  offset from `vmem_base_addr`.
* The walks along the list end only where the list does, so they have fuel and are `none` when it
  runs out. The search for the element before one that is to be removed faults behind the end.
* `cmovl` after `testb` moves when the tested byte is negative.
-/

namespace MyOS.Programs

open MyOS.Machine

/-- `struct mp1_blink_struct`. -/
structure Element where
  location : UInt16
  onChar : UInt8
  offChar : UInt8
  onLength : UInt16
  offLength : UInt16
  countdown : UInt16
  status : UInt16
  next : Option Nat
  deriving DecidableEq

/-- A structure of zeros, as `mp1_free` leaves it. -/
def zeroElement : Element := ⟨0, 0, 0, 0, 0, 0, 0, none⟩

/-- `mp1_list_head`, `blink_array` and the screen. -/
structure Blink where
  listHead : Option Nat
  blinkArray : Nat → Element
  video : Nat → UInt8

/-- The number of slots, and of cells. -/
def numSlots : Nat := 80 * 25

/-- The `NEXT` field of each slot. -/
def Blink.nextOf (σ : Blink) (i : Nat) : Option Nat := (σ.blinkArray i).next

/-- `mp1_poke`, at the cell of a location. -/
def mp1Poke (video : Nat → UInt8) (location : UInt16) (c : UInt8) : Nat → UInt8 :=
  Function.update video (2 * location.toNat) c

/-! ## The allocator -/

/-- The loop of `mp1_malloc` from slot `i`, with `n` slots left. -/
def mallocFrom (blinkArray : Nat → Element) : Nat → Nat → Option Nat
  | 0, _ => none
  | n + 1, i =>
    if (blinkArray i).location = 0 then some i else mallocFrom blinkArray n (i + 1)

/-- `mp1_malloc(size)`. -/
def mp1Malloc (σ : Blink) : Option Nat := mallocFrom σ.blinkArray numSlots 0

/-- `mp1_free(memory)`. -/
def mp1Free (σ : Blink) (i : Nat) : Blink :=
  { σ with blinkArray := Function.update σ.blinkArray i zeroElement }

/-! ## The calls -/

/-- `mp1_find_helper`: the first element at a location. -/
def mp1FindHelper (σ : Blink) (fuel : Nat) (location : UInt16) : Option (Option Nat) :=
  findFrom σ.nextOf (fun i => (σ.blinkArray i).location = location) fuel σ.listHead

/-- `mp1_ioctl_add`, with the structure at the user's pointer. -/
def mp1IoctlAdd (σ : Blink) (e : Element) : Blink × Int :=
  if numSlots ≤ e.location.toNat then (σ, -1)
  else
    let e := { e with status := 1, countdown := e.onLength }
    match mp1Malloc σ with
    | none => (σ, -1)
    | some i =>
      ({ listHead := some i
         blinkArray := Function.update σ.blinkArray i { e with next := σ.listHead }
         video := mp1Poke σ.video e.location e.onChar }, 0)

/-- The removal of slot `i`: the link before it, or the head, names what `i` names. -/
def unlinkSlot (σ : Blink) (prev : Option Nat) (i : Nat) : Blink :=
  match prev with
  | none => { σ with listHead := σ.nextOf i }
  | some p =>
    let e := { σ.blinkArray p with next := σ.nextOf i }
    { σ with blinkArray := Function.update σ.blinkArray p e }

/-- `mp1_ioctl_remove`. -/
def mp1IoctlRemove (σ : Blink) (fuel : Nat) (arg : UInt32) : Option (Blink × Int) :=
  match mp1FindHelper σ fuel arg.toUInt16 with
  | none => none
  | some none => some (σ, -1)
  | some (some i) =>
    (prevFrom σ.nextOf i fuel none σ.listHead).map fun prev =>
      (mp1Free (unlinkSlot σ prev i) i, 0)

/-- `mp1_ioctl_find`: the element copied to the user, if there is one. -/
def mp1IoctlFind (σ : Blink) (fuel : Nat) (location : UInt16) : Option (Option Element × Int) :=
  (mp1FindHelper σ fuel location).map fun found =>
    match found with
    | none => (none, -1)
    | some i => (some (σ.blinkArray i), 0)

/-- The element `dst` with the timing of `src`. -/
def syncElement (src dst : Element) : Element :=
  { dst with
    onLength := src.onLength
    offLength := src.offLength
    countdown := src.countdown
    status := src.status }

/-- The character `mp1_ioctl_sync` displays. -/
def syncChar (e : Element) : UInt8 :=
  let tested := e.status.toUInt8 &&& 1 -- testb
  if 0x80 ≤ tested then e.onChar else e.offChar -- cmovl

/-- `mp1_ioctl_sync`. -/
def mp1IoctlSync (σ : Blink) (fuel : Nat) (arg : UInt32) : Option (Blink × Int) :=
  match mp1FindHelper σ fuel (arg >>> 16).toUInt16 with
  | none => none
  | some none => some (σ, -1)
  | some (some src) =>
    match mp1FindHelper σ fuel arg.toUInt16 with
    | none => none
    | some none => some (σ, -1)
    | some (some dst) =>
      let e := syncElement (σ.blinkArray src) (σ.blinkArray dst)
      some ({ σ with
        blinkArray := Function.update σ.blinkArray dst e
        video := mp1Poke σ.video e.location (syncChar e) }, 0)

/-- A 16-bit word compared as signed: greater than zero. -/
def positive (w : UInt16) : Bool := 0 < w.toNat ∧ w.toNat < 0x8000

/-- One element in a pass of the tasklet: it counts down and, at zero or below, toggles. -/
def tick (σ : Blink) (i : Nat) : Blink :=
  let e := { σ.blinkArray i with countdown := (σ.blinkArray i).countdown - 1 }
  if positive e.countdown then { σ with blinkArray := Function.update σ.blinkArray i e }
  else
    let on := e.status &&& 1 ≠ 0
    { σ with
      blinkArray := Function.update σ.blinkArray i
        { e with
          countdown := if on then e.offLength else e.onLength
          status := e.status ^^^ 1 }
      video := mp1Poke σ.video e.location (if on then e.offChar else e.onChar) }

/-- The loop of `mp1_rtc_tasklet` from slot `i` on. -/
def taskletLoop : Nat → Blink → Option Nat → Option Blink
  | 0, _, _ => none
  | _ + 1, σ, none => some σ
  | fuel + 1, σ, some i => taskletLoop fuel (tick σ i) ((tick σ i).nextOf i)

/-- `mp1_rtc_tasklet(trash)`. -/
def mp1RtcTasklet (σ : Blink) (fuel : Nat) : Option Blink := taskletLoop fuel σ σ.listHead

/-! ## Runs -/

/-- What can happen to the list. -/
inductive BlinkOp where
  | add (e : Element)
  | remove (arg : UInt32)
  | find (location : UInt16)
  | sync (arg : UInt32)
  | tasklet

/-- The state after a call, when the fuel is enough. -/
def blinkOp (σ : Blink) (fuel : Nat) : BlinkOp → Option Blink
  | .add e => some (mp1IoctlAdd σ e).1
  | .remove arg => (mp1IoctlRemove σ fuel arg).map Prod.fst
  | .find location => (mp1IoctlFind σ fuel location).map fun _ => σ
  | .sync arg => (mp1IoctlSync σ fuel arg).map Prod.fst
  | .tasklet => mp1RtcTasklet σ fuel

/-- A call that returns, as a step. -/
def BlinkRuns (σ : Blink) (op : BlinkOp) (σ' : Blink) : Prop :=
  ∃ fuel, blinkOp σ fuel op = some σ'

/-- The state as `main` makes it: the array cleared, the list empty. -/
def emptyBlink (video : Nat → UInt8) : Blink := ⟨none, fun _ => zeroElement, video⟩

end MyOS.Programs
