import MyOS.Machine.Run
import Mathlib.Tactic.IntervalCases

/-!
# `i8259.c`: the interrupt masks

Model of `enable_irq` and `disable_irq` (`i8259.c:31-214`). The state is the two shadow masks and
the bytes that were sent out, each with its port, oldest first. The 32 cases of the two switches are
written out as they are in the source, each with its own constant, mask and port.

* `enableIrq_eq` / `disableIrq_eq`: the constants are those of the line, and so are the mask and the
  port.
* `mask_apply`: what a call does to each bit of the two masks taken as one.
* **`masks_last_write`**: after any calls a line is unmasked exactly when its last call was
  `enable_irq`, and the controllers were sent what the shadow masks hold.
-/

namespace MyOS.Kernel

open MyOS.Machine

/-- `master_mask`, `slave_mask`, and what `outb` sent, as port and byte. -/
structure Pic where
  masterMask : UInt8
  slaveMask : UInt8
  outs : List (Nat × UInt8)

/-- `MASTER_8259_PORT`. -/
def master8259Port : Nat := 0x20

/-- `SLAVE_8259_PORT`. -/
def slave8259Port : Nat := 0xA0

/-- `master_mask` assigned and sent to the master's data port. -/
def Pic.writeMaster (p : Pic) (m : UInt8) : Pic :=
  { p with masterMask := m, outs := p.outs ++ [(master8259Port + 1, m)] }

/-- `slave_mask` assigned and sent to the slave's data port. -/
def Pic.writeSlave (p : Pic) (m : UInt8) : Pic :=
  { p with slaveMask := m, outs := p.outs ++ [(slave8259Port + 1, m)] }

/-- `enable_irq(irq_num)`. -/
def enableIrq (p : Pic) (irqNum : UInt32) : Pic :=
  if 15 < irqNum.toNat then p
  else
    match irqNum.toNat with
    | 0 => p.writeMaster (0xfe &&& p.masterMask)
    | 1 => p.writeMaster (0xfd &&& p.masterMask)
    | 2 => p.writeMaster (0xfb &&& p.masterMask)
    | 3 => p.writeMaster (0xf7 &&& p.masterMask)
    | 4 => p.writeMaster (0xef &&& p.masterMask)
    | 5 => p.writeMaster (0xdf &&& p.masterMask)
    | 6 => p.writeMaster (0xbf &&& p.masterMask)
    | 7 => p.writeMaster (0x7f &&& p.masterMask)
    | 8 => p.writeSlave (0xfe &&& p.slaveMask)
    | 9 => p.writeSlave (0xfd &&& p.slaveMask)
    | 10 => p.writeSlave (0xfb &&& p.slaveMask)
    | 11 => p.writeSlave (0xf7 &&& p.slaveMask)
    | 12 => p.writeSlave (0xef &&& p.slaveMask)
    | 13 => p.writeSlave (0xdf &&& p.slaveMask)
    | 14 => p.writeSlave (0xbf &&& p.slaveMask)
    | 15 => p.writeSlave (0x7f &&& p.slaveMask)
    | _ => p

/-- `disable_irq(irq_num)`. -/
def disableIrq (p : Pic) (irqNum : UInt32) : Pic :=
  if 15 < irqNum.toNat then p
  else
    match irqNum.toNat with
    | 0 => p.writeMaster (0x01 ||| p.masterMask)
    | 1 => p.writeMaster (0x02 ||| p.masterMask)
    | 2 => p.writeMaster (0x04 ||| p.masterMask)
    | 3 => p.writeMaster (0x08 ||| p.masterMask)
    | 4 => p.writeMaster (0x10 ||| p.masterMask)
    | 5 => p.writeMaster (0x20 ||| p.masterMask)
    | 6 => p.writeMaster (0x40 ||| p.masterMask)
    | 7 => p.writeMaster (0x80 ||| p.masterMask)
    | 8 => p.writeSlave (0x01 ||| p.slaveMask)
    | 9 => p.writeSlave (0x02 ||| p.slaveMask)
    | 10 => p.writeSlave (0x04 ||| p.slaveMask)
    | 11 => p.writeSlave (0x08 ||| p.slaveMask)
    | 12 => p.writeSlave (0x10 ||| p.slaveMask)
    | 13 => p.writeSlave (0x20 ||| p.slaveMask)
    | 14 => p.writeSlave (0x40 ||| p.slaveMask)
    | 15 => p.writeSlave (0x80 ||| p.slaveMask)
    | _ => p

/-! ## One call -/

/-- The two masks as one, the master's below. -/
def Pic.mask (p : Pic) : BitVec 16 := p.slaveMask.toBitVec ++ p.masterMask.toBitVec

/-- The byte with bit `i` set. -/
def bitByte (i : Nat) : UInt8 := ⟨BitVec.twoPow 8 i⟩

variable {p : Pic} {irqNum : UInt32}

/-- **Each case of `enable_irq` clears the bit of its line.** -/
theorem enableIrq_eq (p : Pic) (irqNum : UInt32) : enableIrq p irqNum =
    if irqNum.toNat < 8 then p.writeMaster (~~~ bitByte irqNum.toNat &&& p.masterMask)
    else if irqNum.toNat < 16 then p.writeSlave (~~~ bitByte (irqNum.toNat - 8) &&& p.slaveMask)
    else p := by
  unfold enableIrq
  generalize irqNum.toNat = n
  rcases Nat.lt_or_ge n 16 with hn | hn
  · rw [if_neg (by omega)]
    interval_cases n <;> rfl
  · rw [if_pos (by omega), if_neg (by omega), if_neg (by omega)]

/-- **Each case of `disable_irq` sets the bit of its line.** -/
theorem disableIrq_eq (p : Pic) (irqNum : UInt32) : disableIrq p irqNum =
    if irqNum.toNat < 8 then p.writeMaster (bitByte irqNum.toNat ||| p.masterMask)
    else if irqNum.toNat < 16 then p.writeSlave (bitByte (irqNum.toNat - 8) ||| p.slaveMask)
    else p := by
  unfold disableIrq
  generalize irqNum.toNat = n
  rcases Nat.lt_or_ge n 16 with hn | hn
  · rw [if_neg (by omega)]
    interval_cases n <;> rfl
  · rw [if_pos (by omega), if_neg (by omega), if_neg (by omega)]

theorem getLsbD_mask (p : Pic) (i : Nat) : p.mask.getLsbD i =
    if i < 8 then p.masterMask.toBitVec.getLsbD i else p.slaveMask.toBitVec.getLsbD (i - 8) := by
  unfold Pic.mask
  rw [BitVec.getLsbD_append]

theorem getLsbD_bitByte {n : Nat} (hn : n < 8) (i : Nat) :
    (bitByte n).toBitVec.getLsbD i = decide (n = i) := by
  unfold bitByte
  rw [BitVec.getLsbD_twoPow]
  simp [hn]

theorem getLsbD_clear (m : UInt8) {n i : Nat} (hn : n < 8) (hi : i < 8) :
    (~~~ bitByte n &&& m).toBitVec.getLsbD i = if n = i then false else m.toBitVec.getLsbD i := by
  rw [UInt8.toBitVec_and, UInt8.toBitVec_not, BitVec.getLsbD_and, BitVec.getLsbD_not,
    getLsbD_bitByte hn]
  by_cases h : n = i <;> simp [h, hi]

theorem getLsbD_set (m : UInt8) {n : Nat} (hn : n < 8) (i : Nat) :
    (bitByte n ||| m).toBitVec.getLsbD i = if n = i then true else m.toBitVec.getLsbD i := by
  rw [UInt8.toBitVec_or, BitVec.getLsbD_or, getLsbD_bitByte hn]
  by_cases h : n = i <;> simp [h]

/-- A call of one of the two. -/
inductive IrqCall where
  | enable (irqNum : UInt32)
  | disable (irqNum : UInt32)
  deriving DecidableEq

/-- The line a call is for. -/
def IrqCall.line : IrqCall → Nat
  | enable irqNum => irqNum.toNat
  | disable irqNum => irqNum.toNat

/-- The bit it leaves there: 0 is unmasked. -/
def IrqCall.bit : IrqCall → Bool
  | enable _ => false
  | disable _ => true

/-- The controllers after a call. -/
def IrqCall.apply (p : Pic) : IrqCall → Pic
  | enable irqNum => enableIrq p irqNum
  | disable irqNum => disableIrq p irqNum

/-- The byte a call computes from the mask of its line's controller. -/
def IrqCall.update (c : IrqCall) (n : Nat) (m : UInt8) : UInt8 :=
  if c.bit then bitByte n ||| m else ~~~ bitByte n &&& m

theorem IrqCall.apply_eq (p : Pic) (c : IrqCall) : c.apply p =
    if c.line < 8 then p.writeMaster (c.update c.line p.masterMask)
    else if c.line < 16 then p.writeSlave (c.update (c.line - 8) p.slaveMask) else p := by
  cases c with
  | enable irqNum => exact enableIrq_eq p irqNum
  | disable irqNum => exact disableIrq_eq p irqNum

theorem IrqCall.getLsbD_update (c : IrqCall) (m : UInt8) {n i : Nat} (hn : n < 8) (hi : i < 8) :
    (c.update n m).toBitVec.getLsbD i = if n = i then c.bit else m.toBitVec.getLsbD i := by
  unfold IrqCall.update
  cases c.bit with
  | false => exact getLsbD_clear m hn hi
  | true => exact getLsbD_set m hn i

/-- **A call sets the bit of its line and leaves the others.** -/
theorem mask_apply (p : Pic) (c : IrqCall) {i : Nat} (hi : i < 16) :
    (c.apply p).mask.getLsbD i = if c.line = i then c.bit else p.mask.getLsbD i := by
  rw [IrqCall.apply_eq, getLsbD_mask p]
  by_cases h8 : c.line < 8
  · rw [if_pos h8, getLsbD_mask]
    by_cases hi8 : i < 8
    · rw [if_pos hi8, if_pos hi8]
      exact c.getLsbD_update p.masterMask h8 hi8
    · rw [if_neg hi8, if_neg hi8, if_neg (by omega)]
      rfl
  · rw [if_neg h8]
    by_cases h16 : c.line < 16
    · rw [if_pos h16, getLsbD_mask]
      by_cases hi8 : i < 8
      · rw [if_pos hi8, if_pos hi8, if_neg (by omega)]
        rfl
      · have hline : c.line - 8 = i - 8 ↔ c.line = i := by omega
        rw [if_neg hi8, if_neg hi8]
        refine (c.getLsbD_update p.slaveMask (by omega) (by omega)).trans ?_
        simp only [hline]
    · rw [if_neg h16, getLsbD_mask, if_neg (show ¬ c.line = i by omega)]

/-! ## Any calls -/

/-- The byte last sent to a port. -/
def lastOut (port : Nat) (outs : List (Nat × UInt8)) : Option UInt8 :=
  ((outs.filter fun o => o.1 = port).getLast?).map Prod.snd

theorem lastOut_snoc (port : Nat) (outs : List (Nat × UInt8)) (o : Nat × UInt8) :
    lastOut port (outs ++ [o]) = if o.1 = port then some o.2 else lastOut port outs := by
  unfold lastOut
  by_cases h : o.1 = port <;> simp [List.filter_append, h]

/-- The controllers hold the shadow masks, as far as anything was sent. -/
structure Shadowed (p : Pic) : Prop where
  master : ∀ b, lastOut (master8259Port + 1) p.outs = some b → b = p.masterMask
  slave : ∀ b, lastOut (slave8259Port + 1) p.outs = some b → b = p.slaveMask

theorem Shadowed.writeMaster (h : Shadowed p) (m : UInt8) : Shadowed (p.writeMaster m) := by
  constructor
  · intro b hb
    simp only [Pic.writeMaster, lastOut_snoc, if_true] at hb ⊢
    exact (Option.some.inj hb).symm
  · intro b hb
    simp only [Pic.writeMaster, lastOut_snoc] at hb ⊢
    rw [if_neg (by decide)] at hb
    exact h.slave b hb

theorem Shadowed.writeSlave (h : Shadowed p) (m : UInt8) : Shadowed (p.writeSlave m) := by
  constructor
  · intro b hb
    simp only [Pic.writeSlave, lastOut_snoc] at hb ⊢
    rw [if_neg (by decide)] at hb
    exact h.master b hb
  · intro b hb
    simp only [Pic.writeSlave, lastOut_snoc, if_true] at hb ⊢
    exact (Option.some.inj hb).symm

theorem Shadowed.apply (h : Shadowed p) (c : IrqCall) : Shadowed (c.apply p) := by
  rw [IrqCall.apply_eq]
  split
  · exact h.writeMaster _
  · split
    · exact h.writeSlave _
    · exact h

/-- The masks as the program is loaded. -/
def bootPic : Pic := ⟨0xff, 0xff, []⟩

/-- The state after some calls. -/
def afterCalls (calls : List IrqCall) : Pic := calls.foldl IrqCall.apply bootPic

theorem afterCalls_snoc (calls : List IrqCall) (c : IrqCall) :
    afterCalls (calls ++ [c]) = c.apply (afterCalls calls) := by
  unfold afterCalls
  rw [List.foldl_append]
  rfl

/-- The last call for line `i` was `enable_irq`. -/
def LastEnabled (i : Nat) (calls : List IrqCall) : Prop :=
  Since (fun c => c.line = i ∧ c.bit = false) (fun c => c.line = i) calls

theorem mask_afterCalls_iff (calls : List IrqCall) {i : Nat} (hi : i < 16) :
    (afterCalls calls).mask.getLsbD i = false ↔ LastEnabled i calls := by
  induction calls using List.reverseRecOn with
  | nil =>
    refine iff_of_false ?_ not_since_nil
    interval_cases i <;> decide
  | append_singleton calls c ih =>
    rw [afterCalls_snoc, mask_apply _ c hi]
    unfold LastEnabled at ih ⊢
    rw [since_snoc, ← ih]
    by_cases hline : c.line = i <;> simp [hline]

theorem shadowed_afterCalls (calls : List IrqCall) : Shadowed (afterCalls calls) := by
  induction calls using List.reverseRecOn with
  | nil => exact ⟨nofun, nofun⟩
  | append_singleton calls c ih =>
    rw [afterCalls_snoc]
    exact ih.apply c

/-- **The masks are last-write-wins per line.** After any calls from the state with everything
masked: a line is unmasked iff its last call was `enable_irq`; the last byte sent to each data port
is its shadow mask; and a call for a line past 15 changes nothing. -/
theorem masks_last_write (calls : List IrqCall) :
    (∀ i < 16, (afterCalls calls).mask.getLsbD i = false ↔ LastEnabled i calls) ∧
    Shadowed (afterCalls calls) ∧
    ∀ (p : Pic) (c : IrqCall), 15 < c.line → c.apply p = p := by
  refine ⟨fun i hi => mask_afterCalls_iff calls hi, shadowed_afterCalls calls, fun p c hc => ?_⟩
  rw [IrqCall.apply_eq, if_neg (by omega), if_neg (by omega)]

/-- The keyboard's line enabled, masked again and enabled, with the clock's line enabled between. -/
example : (afterCalls [.enable 1, .disable 1, .enable 8, .enable 1, .enable 16]).outs =
    [(0x21, 0xfd), (0x21, 0xff), (0xA1, 0xfe), (0x21, 0xfd)] := by decide

end MyOS.Kernel
