import MyOS.Kernel.Keyboard
import MyOS.Machine.Run

/-!
# `terminal_read`, one access at a time

`read` enables interrupts (`systemcall.c:281`), so the keyboard handler can run while
`terminal_read` does (`keyboard.c:219-237`); the handler itself is not interrupted. A `Tty` is the
keyboard and the place the reader has got to (`Reader`); `tick` is the reader's next access to what
it shares with the handler: `readable_flag`, `storage_buffer_counter`, an element of
`storage_buffer`. The loop index and `bytse_read` are both the number of bytes copied so far.

A key comes between two such accesses and leaves the reader its registers. `keyboard_helper` saves
none (`handler.S:147-149`), so this is an assumption: a key between the load of a value and the
instruction that needs it would leave `eax`, `ecx` and `edx` as the handler does.

The store to `readable_flag` is the reader's last access, and the return is made with it. A `key`
event carries the line it completes, a `ret` event what the call asked for and got.

**`read_alone`**: left alone, the reader does what `terminalRead` says in one step.
-/

namespace MyOS.Terminal

open MyOS.Machine MyOS.Kernel

/-- Where the reader is. -/
inductive Reader where
  | idle
  /-- `while (!readable_flag);` -/
  | waiting (nbytes : Int)
  /-- `if (readable_flag)` -/
  | test (nbytes : Int)
  /-- The test of the copying loop, with `buf[0..i)`. -/
  | copyTest (nbytes : Int) (buf : List UInt8)
  | copyBody (nbytes : Int) (buf : List UInt8)
  /-- The loop of `clear_storage_buf` at `i`. -/
  | clearing (nbytes : Int) (buf : List UInt8) (i : Nat)
  /-- `readable_flag = 0; return bytse_read;` -/
  | clearFlag (nbytes : Int) (buf : List UInt8)

/-- The keyboard and the reader. -/
structure Tty where
  kb : Keyboard
  reader : Reader

/-- What happens at a terminal. -/
inductive TermEvent where
  | key (sc : UInt8) (text : List UInt8) (line : Option (List UInt8))
  | call (nbytes : Int)
  | tick
  | ret (nbytes value : Int) (out : List UInt8)

/-- The line a key completes: what is pending and a newline, for ENTER. -/
def completed (kb : Keyboard) (sc : UInt8) : Option (List UInt8) :=
  if ¬ 0x3A < sc ∧ keyOf norm sc = 10 then some (pending kb ++ [10]) else none

/-- The next access of the reader; none when no call is going on. -/
def tick : Tty → Option (TermEvent × Tty)
  | ⟨_, .idle⟩ => none
  | ⟨kb, .waiting n⟩ =>
    some (.tick, ⟨kb, if kb.readableFlag then .test n else .waiting n⟩)
  | ⟨kb, .test n⟩ =>
    if kb.readableFlag then some (.tick, ⟨kb, .copyTest n []⟩)
    else some (.ret n (-1) [], ⟨kb, .idle⟩)
  | ⟨kb, .copyTest n buf⟩ =>
    if (buf.length : Int) < kb.storageBufferCounter ∧ (buf.length : Int) < n then
      some (.tick, ⟨kb, .copyBody n buf⟩)
    else some (.tick, ⟨kb, .clearing n buf 0⟩)
  | ⟨kb, .copyBody n buf⟩ =>
    some (.tick, ⟨kb, .copyTest n (buf ++ [kb.storageBuffer buf.length])⟩)
  | ⟨kb, .clearing n buf i⟩ =>
    if i < bufSize then
      some (.tick,
        ⟨{ kb with storageBuffer := Function.update kb.storageBuffer i 0 },
          .clearing n buf (i + 1)⟩)
    else some (.tick, ⟨{ kb with storageBufferCounter := 0 }, .clearFlag n buf⟩)
  | ⟨kb, .clearFlag n buf⟩ =>
    some (.ret n buf.length buf, ⟨{ kb with readableFlag := false }, .idle⟩)

/-- **One step of the terminal**: a key, a call, or the reader's next access. A key leaves the
reader where it is, with its registers. -/
inductive TermStep : Tty → TermEvent → Tty → Prop
  | key (kb : Keyboard) (rd : Reader) (sc : UInt8) (text : List UInt8) :
      TermStep ⟨kb, rd⟩ (.key sc text (completed kb sc)) ⟨processKeyboardInput kb sc text, rd⟩
  | call (kb : Keyboard) (n : Int) : TermStep ⟨kb, .idle⟩ (.call n) ⟨kb, .waiting n⟩
  | tick {t t' : Tty} {ev : TermEvent} (h : tick t = some (ev, t')) : TermStep t ev t'

/-! ## Left alone -/

/-- `t` gets to `t'` by `m` accesses of the reader, without returning. -/
def Ticks (t : Tty) (m : Nat) (t' : Tty) : Prop :=
  Trace TermStep t (List.replicate m .tick) t'

theorem Ticks.zero (t : Tty) : Ticks t 0 t := .nil t

theorem Ticks.succ {t t' t'' : Tty} {m : Nat} (h : Terminal.tick t = some (.tick, t'))
    (h' : Ticks t' m t'') : Ticks t (m + 1) t'' := .cons (.tick h) h'

theorem Ticks.trans {t t' t'' : Tty} {m m' : Nat} (h : Ticks t m t') (h' : Ticks t' m' t'') :
    Ticks t (m + m') t'' := by
  unfold Ticks
  rw [← List.replicate_append_replicate]
  exact h.append h'

theorem length_stored (kb : Keyboard) : (stored kb).length = kb.storageBufferCounter.toNat := by
  unfold stored
  rw [List.length_map, List.length_range]

/-- The next byte of the line after `j + i` of them. -/
theorem stored_drop_take_succ (kb : Keyboard) {i j : Nat}
    (h : j + i < kb.storageBufferCounter.toNat) :
    ((stored kb).drop j).take (i + 1) =
      ((stored kb).drop j).take i ++ [kb.storageBuffer (j + i)] := by
  have hi : i < ((stored kb).drop j).length := by
    rw [List.length_drop, length_stored]
    omega
  have hget : ((stored kb).drop j)[i] = kb.storageBuffer (j + i) := by simp [stored]
  rw [← List.take_append_getElem hi, hget]

theorem stored_take_succ (kb : Keyboard) {i : Nat} (h : i < kb.storageBufferCounter.toNat) :
    (stored kb).take (i + 1) = (stored kb).take i ++ [kb.storageBuffer i] := by
  have hdrop := stored_drop_take_succ kb (i := i) (j := 0) (by omega)
  rwa [List.drop_zero, Nat.zero_add] at hdrop

/-- The copying loop, for `i` bytes from `buf` on: the line may have changed since `buf` was
copied. -/
theorem copy_part (kb : Keyboard) (n : Int) (buf : List UInt8) : ∀ i,
    buf.length + i ≤ (stored kb).length → buf.length + i ≤ n.toNat →
    ∃ m, Ticks ⟨kb, .copyTest n buf⟩ m
      ⟨kb, .copyTest n (buf ++ ((stored kb).drop buf.length).take i)⟩
  | 0, _, _ => ⟨0, by rw [List.take_zero, List.append_nil]; exact .zero _⟩
  | i + 1, hlen, hn => by
    obtain ⟨m, hm⟩ := copy_part kb n buf i (by omega) (by omega)
    have hl : (buf ++ ((stored kb).drop buf.length).take i).length = buf.length + i := by
      rw [List.length_append, List.length_take, List.length_drop]
      omega
    rw [length_stored] at hlen
    rw [stored_drop_take_succ kb (by omega), ← List.append_assoc]
    generalize buf ++ ((stored kb).drop buf.length).take i = buf' at hm hl ⊢
    have htest : Terminal.tick ⟨kb, .copyTest n buf'⟩ = some (.tick, ⟨kb, .copyBody n buf'⟩) := by
      simp only [Terminal.tick]
      rw [if_pos (by omega)]
    rw [← hl]
    exact ⟨m + (0 + 1 + 1), hm.trans (.succ htest (.succ rfl (.zero _)))⟩

/-- What a reader with `buf` copied returns, when the line stored is `line` from then on. -/
def finalBuf (line : List UInt8) (n : Int) (buf : List UInt8) : List UInt8 :=
  buf ++ (line.drop buf.length).take (n.toNat - buf.length)

/-- The copying loop to its end. -/
theorem copy_alone (kb : Keyboard) (n : Int) (buf : List UInt8) :
    ∃ m, Ticks ⟨kb, .copyTest n buf⟩ m ⟨kb, .clearing n (finalBuf (stored kb) n buf) 0⟩ := by
  have hstop : ∀ b : List UInt8, (stored kb).length ≤ b.length ∨ n.toNat ≤ b.length →
      Terminal.tick ⟨kb, .copyTest n b⟩ = some (.tick, ⟨kb, .clearing n b 0⟩) := by
    intro b hb
    rw [length_stored] at hb
    simp only [Terminal.tick]
    rw [if_neg (by omega)]
  have hlen : (finalBuf (stored kb) n buf).length =
      buf.length + min (n.toNat - buf.length) ((stored kb).length - buf.length) := by
    unfold finalBuf
    rw [List.length_append, List.length_take, List.length_drop]
  have hlast := hstop (finalBuf (stored kb) n buf) (by omega)
  by_cases hmore : buf.length < (stored kb).length ∧ buf.length < n.toNat
  · obtain ⟨m, hm⟩ := copy_part kb n buf
      (min (n.toNat - buf.length) ((stored kb).length - buf.length)) (by omega) (by omega)
    have hcut : ((stored kb).drop buf.length).take
        (min (n.toNat - buf.length) ((stored kb).length - buf.length)) =
          ((stored kb).drop buf.length).take (n.toNat - buf.length) := by
      rw [List.take_eq_take_iff, List.length_drop]
      omega
    rw [hcut] at hm
    exact ⟨m + (0 + 1), hm.trans (.succ hlast (.zero _))⟩
  · have hdone : finalBuf (stored kb) n buf = buf := by
      unfold finalBuf
      rw [List.append_right_eq_self, List.take_eq_nil_iff, List.drop_eq_nil_iff]
      omega
    rw [hdone] at hlast ⊢
    exact ⟨0 + 1, .succ hlast (.zero _)⟩

/-- The clearing loop. The induction is on the elements still to clear. -/
theorem clear_alone (n : Int) (buf : List UInt8) : ∀ m i (kb : Keyboard), i + m = bufSize →
    Ticks ⟨kb, .clearing n buf i⟩ m
      ⟨{ kb with storageBuffer := fun j => if i ≤ j ∧ j < bufSize then 0 else kb.storageBuffer j },
        .clearing n buf bufSize⟩
  | 0, i, kb, h => by
    have hsame : (fun j => if i ≤ j ∧ j < bufSize then 0 else kb.storageBuffer j) =
        kb.storageBuffer := by
      funext j
      exact if_neg (by omega)
    rw [hsame, show i = bufSize by omega]
    exact .zero _
  | m + 1, i, kb, h => by
    have ih := clear_alone n buf m (i + 1)
      { kb with storageBuffer := Function.update kb.storageBuffer i 0 } (by omega)
    have hsame : (fun j => if i + 1 ≤ j ∧ j < bufSize then (0 : UInt8)
        else Function.update kb.storageBuffer i 0 j) =
        fun j => if i ≤ j ∧ j < bufSize then 0 else kb.storageBuffer j := by
      funext j
      by_cases hj : j = i
      · rw [hj, Function.update_self, if_neg (by omega), if_pos (by omega)]
      · rw [Function.update_of_ne hj]
        by_cases hin : i + 1 ≤ j ∧ j < bufSize
        · rw [if_pos hin, if_pos (by omega)]
        · rw [if_neg hin, if_neg (by omega)]
    rw [hsame] at ih
    refine .succ ?_ ih
    simp only [tick]
    rw [if_pos (by omega)]

/-- A reader that is left alone from its copying loop on. -/
theorem rest_alone (kb : Keyboard) (n : Int) (buf : List UInt8) : ∃ m,
    Trace TermStep ⟨kb, .copyTest n buf⟩
      (List.replicate m .tick ++
        [.ret n (finalBuf (stored kb) n buf).length (finalBuf (stored kb) n buf)])
      ⟨{ clearStorageBuf kb with readableFlag := false }, .idle⟩ := by
  obtain ⟨m, hcopy⟩ := copy_alone kb n buf
  have hclear := clear_alone n (finalBuf (stored kb) n buf) bufSize 0 kb (by omega)
  have hrun := hcopy.trans (hclear.trans (.succ rfl (.zero _)))
  refine ⟨_, hrun.append (.single (.tick ?_))⟩
  simp [Terminal.tick, clearStorageBuf]

/-- A call that finds a line gets to its copying loop. -/
theorem call_copies {kb : Keyboard} (hflag : kb.readableFlag = true) (n : Int) :
    Ticks ⟨kb, .waiting n⟩ 2 ⟨kb, .copyTest n []⟩ := by
  have hwait : Terminal.tick ⟨kb, .waiting n⟩ = some (.tick, ⟨kb, .test n⟩) := by
    simp only [Terminal.tick]
    rw [if_pos hflag]
  have htest : Terminal.tick ⟨kb, .test n⟩ = some (.tick, ⟨kb, .copyTest n []⟩) := by
    simp only [Terminal.tick]
    rw [if_pos hflag]
  exact .succ hwait (.succ htest (.zero _))

/-- **Left alone, the reader does what `terminalRead` says.** -/
theorem read_alone {kb kb' : Keyboard} {n v : Int} {out : List UInt8}
    (h : terminalRead kb n = some (kb', v, out)) :
    ∃ m, Trace TermStep ⟨kb, .idle⟩ (.call n :: (List.replicate m .tick ++ [.ret n v out]))
      ⟨kb', .idle⟩ := by
  unfold terminalRead at h
  split at h
  · rename_i hflag
    cases h
    obtain ⟨m, hrest⟩ := rest_alone kb n []
    have hrun := (call_copies hflag n).append hrest
    rw [← List.append_assoc, List.replicate_append_replicate] at hrun
    exact ⟨2 + m, .cons (.call kb n) hrun⟩
  · cases h

end MyOS.Terminal
