import MyOS.Terminal.Console
import MyOS.Terminal.Lines

/-!
# The lines that are entered and the lines that are read

A line is entered when ENTER stores it (`keyboard.c:380-397`) and read when `terminal_read` returns
it to whichever process calls it. `Watch` is the kernel with the list of the lines entered so far: a
call is one step, a `read` from the moment its line is there, and keys come between the calls. What
an ENTER in the middle of a read does is `read_interrupted`.

* `StoreEffect`: what a step of the system does to the stored line and its flag. `step_store`.
* `read_keyboard`: a `read` of the keyboard takes the line.
* `Delivered`: the lines a process has read, the empty ones apart, are among the lines entered, in
  their order. `Delivered.watch` is one event.

Ctrl-L empties the storage behind a raised flag: the next read returns no byte, and the line is
lost.
-/

namespace MyOS.Terminal

open MyOS.Machine MyOS.Kernel MyOS.Process MyOS.Descriptor

variable {L : Layout} {img : Image} {k k' : State} {r : Reply}

/-- The line that an event completes. -/
def entered (k : State) (ev : Event) : List (List UInt8) :=
  match ev.call with
  | .key sc _ => (completed k.keyboard sc).toList
  | _ => []

/-- The kernel and the lines entered so far. -/
def Watch (L : Layout) (img : Image) (x : State × List (List UInt8)) (ev : Event)
    (y : State × List (List UInt8)) : Prop :=
  KStep L img x.1 ev y.1 ∧ y.2 = x.2 ++ entered x.1 ev

/-- The lines that process `p` has read from descriptor 0. -/
def linesRead (p : Nat) (tr : List Event) : List (List UInt8) :=
  tr.flatMap fun ev =>
    match ev.call, ev.reply with
    | .read fd _ _, .ret _ out => if ev.pid = p ∧ fd = 0 then [out] else []
    | _, _ => []

/-! ## The stored line -/

/-- What a call does to the stored line. -/
inductive StoreEffect (kb : Keyboard) : Call → Reply → Keyboard → Prop
  | key (sc : UInt8) (text : List UInt8) (r : Reply) :
      StoreEffect kb (.key sc text) r (processKeyboardInput kb sc text)
  | taken (fd : Int) (buf : Nat) (n : Int) (hflag : kb.readableFlag = true) :
      StoreEffect kb (.read fd buf n)
        (.ret ((stored kb).take n.toNat).length ((stored kb).take n.toNat))
        { clearStorageBuf kb with readableFlag := false }
  | same {c : Call} {r : Reply} {kb' : Keyboard} (hc : ¬ IsKey c) (h : SameStore kb kb') :
      StoreEffect kb c r kb'

theorem sameStore_screen (kb : Keyboard) (s : Screen) : SameStore kb { kb with screen := s } :=
  ⟨rfl, rfl, rfl⟩

theorem terminalWrite_sameStore {kb kb' : Keyboard} {buf : Nat → UInt8} {n v : Int}
    (h : terminalWrite kb buf n = some (kb', v)) : SameStore kb kb' := by
  unfold terminalWrite at h
  simp only at h
  split at h
  · cases h
  · cases h
    exact ⟨rfl, rfl, rfl⟩

/-- **One step of the system**, for the stored line. -/
theorem step_store {c : Call} (h : step L img k c = .ok (k', r)) :
    StoreEffect k.keyboard c r k'.keyboard := by
  have heff := step_keyboard h
  generalize k'.keyboard = kb' at heff ⊢
  cases heff with
  | key sc text r => exact .key sc text r
  | taken fd buf n hflag => exact .taken fd buf n hflag
  | written hw => exact .same (by rintro ⟨sc, text, hc⟩; cases hc) (terminalWrite_sameStore hw)
  | screen hc hd s => exact .same hc (sameStore_screen _ s)
  | same hc => exact .same hc ⟨rfl, rfl, rfl⟩

/-- **A read of the keyboard takes the stored line.** -/
theorem read_keyboard {fd n : Int} {buf : Nat} (hbuf : buf ≠ 0)
    (hfd : (serviceOf img k).stream fd = some .keyboard)
    (h : Kernel.read img k fd buf n = .ok (k', r)) :
    k.keyboard.readableFlag = true ∧
      r = .ret ((stored k.keyboard).take n.toNat).length ((stored k.keyboard).take n.toNat) ∧
      k'.keyboard = { clearStorageBuf k.keyboard with readableFlag := false } := by
  rw [stream_serviceOf] at hfd
  split at hfd
  · rename_i hrange
    unfold streamOf at hfd
    split at hfd
    · cases hfd
    · rename_i hflags
      cases read_inv h with
      | refused hn => exact absurd ⟨hrange.1, hrange.2, hbuf, hflags⟩ hn
      | @done t fn k₁ v out hc ht hfn hcall =>
        rw [ht] at hfd
        cases t with
        | stdinT =>
          obtain rfl := Option.some.inj hfn
          simp only [callRead, terminalRead] at hcall
          split at hcall
          · cases hcall
          · rename_i hterm
            split at hterm
            · rename_i hflag
              cases hterm
              cases hcall
              exact ⟨hflag, rfl, rfl⟩
            · cases hterm
        | _ => cases hfd
  · cases hfd

/-! ## Entered and read -/

/-- The lines with a byte in them. -/
def nonEmpty (lines : List (List UInt8)) : List (List UInt8) := lines.filter fun l => l ≠ []

/-- The lines `got`, the empty ones apart, are lines that were entered, in their order; the line
that waits, if it does, is none of them. -/
structure Delivered (kb : Keyboard) (lines got : List (List UInt8)) : Prop where
  counters : Counters kb
  idle : kb.readableFlag = false → (nonEmpty got).Sublist lines
  ready : kb.readableFlag = true → ∃ before line, lines = before ++ [line] ∧
    (nonEmpty got).Sublist before ∧ (stored kb = line ∨ stored kb = [])

section Delivered

variable {kb kb' : Keyboard} {lines got : List (List UInt8)}

theorem Delivered.sublist (h : Delivered kb lines got) : (nonEmpty got).Sublist lines := by
  cases hflag : kb.readableFlag with
  | false => exact h.idle hflag
  | true =>
    obtain ⟨before, line, rfl, hsub, -⟩ := h.ready hflag
    exact hsub.trans (List.sublist_append_left before [line])

theorem Delivered.of_sameStore (h : Delivered kb lines got) (hc : Counters kb')
    (hs : SameStore kb kb') : Delivered kb' lines got := by
  refine ⟨hc, ?_, ?_⟩
  · rw [hs.flag]
    exact h.idle
  · rw [hs.flag, hs.stored]
    exact h.ready

theorem Delivered.key (h : Delivered kb lines got) (sc : UInt8) (text : List UInt8)
    (hc : Counters (processKeyboardInput kb sc text)) :
    Delivered (processKeyboardInput kb sc text) (lines ++ (completed kb sc).toList) got := by
  cases hline : completed kb sc with
  | some line =>
    obtain ⟨hstored, hflag⟩ := key_enter text hline
    refine ⟨hc, fun h0 => ?_, fun _ => ⟨lines, line, rfl, h.sublist, Or.inl hstored⟩⟩
    rw [hflag] at h0
    cases h0
  | none =>
    rw [Option.toList_none, List.append_nil]
    by_cases hl : IsCtrlL kb sc
    · -- the flag stays as it is, the storage is emptied
      have hkb : processKeyboardInput kb sc text = ctrlL (setModifiers kb sc) := by
        rw [processKeyboardInput_eq, keyKind_ctrlL_iff.mpr hl]
        rfl
      rw [hkb] at hc ⊢
      refine ⟨hc, h.idle, fun hflag => ?_⟩
      obtain ⟨before, line, hlines, hsub, -⟩ := h.ready hflag
      exact ⟨before, line, hlines, hsub, Or.inr rfl⟩
    · exact h.of_sameStore hc (key_quiet text hl hline)

/-- A line is read as it was entered, or a process that asks for less reads the start of it. -/
theorem Delivered.taken (h : Delivered kb lines got) (hflag : kb.readableFlag = true)
    (hc : Counters { clearStorageBuf kb with readableFlag := false })
    {more : List (List UInt8)} (hmore : more = [] ∨ more = [stored kb]) :
    Delivered { clearStorageBuf kb with readableFlag := false } lines (got ++ more) := by
  refine ⟨hc, fun _ => ?_, nofun⟩
  obtain ⟨before, line, rfl, hsub, hstored⟩ := h.ready hflag
  rw [nonEmpty, List.filter_append]
  refine hsub.append ?_
  rcases hmore with rfl | rfl
  · exact List.nil_sublist _
  · rcases hstored with hstored | hstored
    · rw [hstored]
      exact List.filter_sublist
    · rw [hstored]
      exact List.nil_sublist _

end Delivered

theorem length_stored_le {kb : Keyboard} (h : Counters kb) : (stored kb).length ≤ 129 := by
  rw [length_stored]
  have := h.storage_le
  omega

/-- **One event.** Process `p` reads the keyboard at descriptor 0, with room for a whole line. -/
theorem Delivered.watch {p : Nat} {lines lines' got : List (List UInt8)} {ev : Event}
    (h : Delivered k.keyboard lines got) (hs : Watch L img (k, lines) ev (k', lines'))
    (hread : ∀ fd buf n, ev.call = .read fd buf n → ev.pid = p → fd = 0 →
      buf ≠ 0 ∧ 129 ≤ n ∧ (serviceOf img k).stream 0 = some .keyboard) :
    Delivered k'.keyboard lines' (got ++ linesRead p [ev]) := by
  obtain ⟨pid, c, r⟩ := ev
  obtain ⟨⟨-, -, hstep⟩, hlines⟩ := hs
  simp only at hstep hlines
  have hc : Counters k'.keyboard := h.counters.effect (step_terminal hstep)
  have heff := step_store hstep
  by_cases hown : ∃ buf n, c = .read 0 buf n ∧ pid = p
  · obtain ⟨buf, n, rfl, rfl⟩ := hown
    obtain ⟨hbuf, hn, hfd⟩ := hread 0 buf n rfl rfl rfl
    obtain ⟨hflag, rfl, hkb⟩ := read_keyboard hbuf hfd hstep
    have hall : (stored k.keyboard).take n.toNat = stored k.keyboard :=
      List.take_of_length_le (Nat.le_trans (length_stored_le h.counters) (by omega))
    have hgot : linesRead pid [⟨pid, .read 0 buf n, .ret
        ((stored k.keyboard).take n.toNat).length ((stored k.keyboard).take n.toNat)⟩] =
          [stored k.keyboard] := by
      simp [linesRead, hall]
    rw [hgot, hlines, hkb]
    rw [hkb] at hc
    have hnone : entered k ⟨pid, .read 0 buf n, .ret
        ((stored k.keyboard).take n.toNat).length ((stored k.keyboard).take n.toNat)⟩ = [] := rfl
    rw [hnone, List.append_nil]
    exact h.taken hflag hc (Or.inr rfl)
  · have hgot : linesRead p [⟨pid, c, r⟩] = [] := by
      unfold linesRead
      rw [List.flatMap_singleton]
      split
      · rename_i fd buf n v out hcall hreply
        refine if_neg ?_
        rintro ⟨hpid, rfl⟩
        exact hown ⟨buf, n, hcall, hpid⟩
      · rfl
    rw [hgot, hlines]
    generalize k'.keyboard = kb' at heff hc
    cases heff with
    | key sc text =>
      rw [List.append_nil]
      exact h.key sc text hc
    | taken fd buf n hflag =>
      rw [show entered k ⟨pid, .read fd buf n, _⟩ = [] from rfl, List.append_nil]
      exact h.taken hflag hc (Or.inl rfl)
    | same hkey hsame =>
      have hnone : entered k ⟨pid, c, r⟩ = [] := by
        unfold entered
        cases c with
        | key sc text => exact absurd ⟨sc, text, rfl⟩ hkey
        | _ => rfl
      rw [hnone, List.append_nil, List.append_nil]
      exact h.of_sameStore hc hsame

end MyOS.Terminal
