import MyOS.Kernel.Syscall

/-!
# Where `read` and `getargs` store

Both compare the caller's `buf` with `NULL` and with nothing else (`systemcall.c:284`, `:442`);
`vidmap` beside them checks its pointer against the program's page (`:454`). The kernel's page is
mapped in every address space and its code may write there, so bytes stored at a kernel address go
over what the kernel keeps, the PCBs among it.

* `Pcb.storeByte`: a byte stored at an offset of `pcb_t`, whose `file_array` starts at 16 with 48
  bytes for each descriptor and whose `arg` starts at 400. `State.storeBytes`: the bytes of a call.
* `RawStep`: a step whose bytes go where the caller's pointer says.
* **`kStep_iff_raw`**, **`kTrace_iff_raw`**: a step of the system is a raw step whose bytes stay in
  the program's page, and so for its runs.

A store has no raw step where the model does not hold the bytes it goes over: a page that is not
mapped, the video page, the kernel's code, globals and stacks, and in a descriptor the address of
the operation table and the name. Neither has a `read` over the position it then moves
(`systemcall.c:298`), nor a `getargs` over the argument it copies from.
-/

namespace MyOS.Kernel

open MyOS.Machine

/-- A 32-bit word with its byte `i` replaced. -/
def setByte (w i : Nat) (b : UInt8) : Nat :=
  le32 (Function.update (fun j => UInt8.ofNat (w / 256 ^ j)) i b) 0

/-- A byte stored at offset `q` of a `file_descriptor`. -/
def FileDescriptor.storeByte (f : FileDescriptor) (q : Nat) (b : UInt8) : Option FileDescriptor :=
  if q < 36 then none
  else if q < 40 then some { f with inode := setByte f.inode (q - 36) b }
  else if q < 44 then some { f with fileposition := setByte f.fileposition (q - 40) b }
  else some { f with flags := toInt32 (setByte (toUInt32 f.flags) (q - 44) b) }

/-- A byte stored at offset `o` of a `pcb_t`. Offsets 2, 3, 14 and 15 are padding; `status` and
`priority`, at 12 and 13, are read by nothing. -/
def Pcb.storeByte (p : Pcb) (o : Nat) (b : UInt8) : Option Pcb :=
  if o = 0 then some { p with pid := b.toNat }
  else if o = 1 then some { p with parentPid := b.toNat }
  else if o < 4 then some p
  else if o < 8 then some { p with parentKernelSp := setByte p.parentKernelSp (o - 4) b }
  else if o < 12 then some { p with parentKernelBp := setByte p.parentKernelBp (o - 8) b }
  else if o < 16 then some p
  else if o < 400 then
    let fd := fdIndex ((o - 16) / 48 : Nat)
    ((p.fileArray fd).storeByte ((o - 16) % 48) b).map fun f =>
      { p with fileArray := Function.update p.fileArray fd f }
  else if o < 1424 then some { p with arg := Function.update p.arg (o - 400) b }
  else none

/-- A byte stored at address `a`: in the program's page, which is the program's, or in a PCB. -/
def State.storeByte (k : State) (a : Nat) (b : UInt8) : Option State :=
  if 0x08000000 ≤ a ∧ a < 0x08400000 then some k
  else if pcbAddr 6 ≤ a ∧ a < 0x800000 then
    let base := a - a % 0x2000
    ((k.pcb base).storeByte (a - base) b).map fun p =>
      { k with pcb := Function.update k.pcb base p }
  else none

/-- Bytes stored from address `a` on, in order. -/
def State.storeBytes (k : State) (a : Nat) : List UInt8 → Option State
  | [] => some k
  | b :: bs => (k.storeByte a b).bind fun k' => k'.storeBytes (a + 1) bs

/-- One of the `n` bytes from `a` on is one of the `m` bytes from `b` on. -/
def Overlaps (a n b m : Nat) : Prop := ∃ i < n, b ≤ a + i ∧ a + i < b + m

/-- The bytes are apart from what the call itself still reads of the PCB: the position of the
descriptor that is read, and the argument. -/
def Apart (k : State) : Call → Reply → Prop
  | .read fd buf _, .ret _ out =>
    ¬ Overlaps buf out.length (pcbAddr k.counter + 16 + 48 * (fdIndex fd).val + 40) 4
  | .getargs buf _, .ret _ out => ¬ Overlaps buf out.length (pcbAddr k.counter + 400) 1024
  | _, _ => True

/-- **One step of the system, wherever the caller's pointer points.** -/
def RawStep (L : Layout) (img : Image) (k : State) (ev : Event) (k' : State) : Prop :=
  ev.pid = k.counter ∧ EspOk k ev.call ∧ Apart k ev.call ev.reply ∧
    ∃ k₁, step L img k ev.call = .ok (k₁, ev.reply) ∧
      k₁.storeBytes (userStore ev.call ev.reply).1 (userStore ev.call ev.reply).2 = some k'

/-- Bytes in the program's page leave the kernel alone. -/
theorem State.storeBytes_inProgram (k : State) : ∀ (bs : List UInt8) (a : Nat),
    InProgram a bs.length → k.storeBytes a bs = some k
  | [], _, _ => rfl
  | b :: bs, a, h => by
    obtain ⟨hlo, hhi⟩ := h
    rw [List.length_cons] at hhi
    have hbyte : k.storeByte a b = some k := if_pos ⟨hlo, by omega⟩
    rw [State.storeBytes, hbyte]
    exact k.storeBytes_inProgram bs (a + 1) ⟨by omega, by omega⟩

theorem State.storeBytes_of_bufOk (k : State) {c : Call} {r : Reply} (h : BufOk c r) :
    k.storeBytes (userStore c r).1 (userStore c r).2 = some k := by
  rcases h with h | h
  · rw [h]
    rfl
  · exact k.storeBytes_inProgram _ _ h

/-- The program's page is above every PCB. -/
theorem not_overlaps_pcb {a n b m : Nat} (h : n = 0 ∨ InProgram a n) (hb : b + m ≤ 0x08000000) :
    ¬ Overlaps a n b m := by
  rintro ⟨i, hi, -, hlt⟩
  rcases h with h | ⟨hlo, -⟩
  · omega
  · omega

theorem BufOk.apart {c : Call} {r : Reply} (h : BufOk c r) (k : State) : Apart k c r := by
  have hpcb : pcbAddr k.counter ≤ 0x800000 := Nat.sub_le _ _
  unfold BufOk at h
  rw [← List.length_eq_zero_iff] at h
  unfold Apart
  split
  · rename_i fd buf nbytes v out
    exact not_overlaps_pcb h (by have := (fdIndex fd).isLt; omega)
  · exact not_overlaps_pcb h (by omega)
  · trivial

/-- **A step of the system is a raw step whose bytes stay in the program's page.** -/
theorem kStep_iff_raw {L : Layout} {img : Image} {k k' : State} {ev : Event} :
    KStep L img k ev k' ↔ RawStep L img k ev k' ∧ BufOk ev.call ev.reply := by
  constructor
  · rintro ⟨hpid, ⟨hesp, hbuf⟩, hstep⟩
    exact ⟨⟨hpid, hesp, hbuf.apart k, k', hstep, k'.storeBytes_of_bufOk hbuf⟩, hbuf⟩
  · rintro ⟨⟨hpid, hesp, -, k₁, hstep, hstore⟩, hbuf⟩
    rw [k₁.storeBytes_of_bufOk hbuf] at hstore
    obtain rfl := Option.some.inj hstore
    exact ⟨hpid, ⟨hesp, hbuf⟩, hstep⟩

/-- **A run of the system is a raw run whose bytes stay in the program's page.** -/
theorem kTrace_iff_raw {L : Layout} {img : Image} {k k' : State} {tr : List Event} :
    Trace (KStep L img) k tr k' ↔
      Trace (fun s ev t => RawStep L img s ev t ∧ BufOk ev.call ev.reply) k tr k' :=
  ⟨Trace.mono fun _ _ _ => kStep_iff_raw.mp, Trace.mono fun _ _ _ => kStep_iff_raw.mpr⟩

end MyOS.Kernel
