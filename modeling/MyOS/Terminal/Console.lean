import MyOS.Descriptor.Refinement
import MyOS.Terminal.Editor
import MyOS.Video.Document

/-!
# What the system prints

The screen belongs to no process. Characters get there from `terminal_write`, for whichever process
calls it, from `execute` when six processes run, and from the keyboard.

* `KeyboardEffect`, `step_keyboard`: what a call does to the keyboard.
* `NothingPending`: nothing is typed ahead; only a key changes that.
* `printedBy`, `printedText`: what an event and a run print.
* `prints_text`: one event that is not a key prints exactly that.
* **`console_shows`**: in every run without keys, the screen is the window on the document there was
  with everything that all processes have written behind it, in the order of the calls: nothing is
  lost, repeated or mixed.
-/

namespace MyOS.Terminal

open MyOS.Machine MyOS.Kernel MyOS.Process MyOS.Descriptor MyOS.Video

variable {L : Layout} {img : Image} {k k' : State} {r : Reply}

/-- The keyboard interrupts a process; the process does not call it. -/
def IsKey (c : Call) : Prop := ∃ sc text, c = .key sc text

/-- The calls that can print. -/
def Draws : Call → Prop
  | .halt _ => True
  | .execute _ => True
  | .write .. => True
  | .key .. => True
  | _ => False

/-- What a call does to the keyboard and its buffers. -/
inductive KeyboardEffect (kb : Keyboard) : Call → Reply → Keyboard → Prop
  | key (sc : UInt8) (text : List UInt8) (r : Reply) :
      KeyboardEffect kb (.key sc text) r (processKeyboardInput kb sc text)
  | taken (fd : Int) (buf : Nat) (n : Int) (hflag : kb.readableFlag = true) :
      KeyboardEffect kb (.read fd buf n)
        (.ret ((stored kb).take n.toNat).length ((stored kb).take n.toNat))
        { clearStorageBuf kb with readableFlag := false }
  | written {fd n v : Int} {buf : Nat} {data : Mem} {r : Reply} {kb' : Keyboard}
      (h : terminalWrite kb data n = some (kb', v)) :
      KeyboardEffect kb (.write fd buf data n) r kb'
  | screen {c : Call} {r : Reply} (hc : ¬ IsKey c) (hd : Draws c) (s : Screen) :
      KeyboardEffect kb c r { kb with screen := s }
  | same {c : Call} {r : Reply} (hc : ¬ IsKey c) : KeyboardEffect kb c r kb

/-- **One step of the system**, for the keyboard: what is typed and stored changes with a key, a
`terminal_read` and a `terminal_write`; `halt` and `execute` leave all but the screen. -/
theorem step_keyboard {c : Call} (h : step L img k c = .ok (k', r)) :
    KeyboardEffect k.keyboard c r k'.keyboard := by
  by_cases hkey : IsKey c
  · obtain ⟨sc, text, rfl⟩ := hkey
    cases h
    exact .key sc text _
  cases c with
  | halt status =>
    simp only [step, halt] at h
    split at h <;> (cases h; exact .screen hkey trivial _)
  | execute e =>
    cases execute_inv h with
    | full hk => exact .screen hkey trivial _
    | null hk hc => exact .same hkey
    | rejected hk hc ha hh => exact .same hkey
    | unloadable hk hc ha hh hl => exact .same hkey
    | started hk hc ha hh hr hl => exact .same hkey
  | read fd buf n =>
    cases read_inv h with
    | refused hn => exact .same hkey
    | @done t fn k₁ v out hc ht hfn hcall =>
      change KeyboardEffect k.keyboard _ _ k₁.keyboard
      cases fn with
      | terminalRead =>
        simp only [callRead, terminalRead] at hcall
        split at hcall
        · cases hcall
        · rename_i hterm
          split at hterm
          · rename_i hflag
            cases hterm
            cases hcall
            exact .taken fd buf n hflag
          · cases hterm
      | _ =>
        cases hcall
        exact .same hkey
  | write fd buf data n =>
    cases write_inv h with
    | refused hn => exact .same hkey
    | @done t fn k₁ v hc ht hfn hcall =>
      cases fn with
      | terminalWrite =>
        simp only [callWrite] at hcall
        split at hcall
        · cases hcall
        · rename_i hwrite
          cases hcall
          exact .written hwrite
      | _ =>
        cases hcall
        exact .same hkey
  | openFile filename =>
    cases openFile_inv h with
    | stdin => exact .same hkey
    | stdout => exact .same hkey
    | refused => exact .same hkey
    | opened hd h2 hfree => exact .same hkey
  | close fd =>
    cases close_inv h with
    | refused hn => exact .same hkey
    | closed hc => exact .same hkey
  | getargs buf nbytes =>
    simp only [step, getargs] at h
    split at h <;> (cases h; exact .same hkey)
  | vidmap screenStart =>
    simp only [step, vidmap] at h
    split at h <;> (cases h; exact .same hkey)
  | key sc text => exact absurd ⟨sc, text, rfl⟩ hkey
  | _ =>
    cases h
    exact .same hkey

/-- Nothing is typed ahead. -/
def NothingPending (k : State) : Prop := k.keyboard.bufferContentCounter = 0

/-- **Only a key can leave something pending.** -/
theorem NothingPending.step {c : Call} (h : NothingPending k) (hc : ¬ IsKey c)
    (hs : step L img k c = .ok (k', r)) : NothingPending k' := by
  unfold NothingPending at h ⊢
  have heff := step_keyboard hs
  generalize k'.keyboard = kb' at heff ⊢
  cases heff with
  | key sc text => exact absurd ⟨sc, text, rfl⟩ hc
  | taken fd buf n hflag => exact h
  | written hw =>
    -- `terminal_write` drops what was typed
    simp only [terminalWrite] at hw
    split at hw
    · cases hw
    · cases hw
      rfl
  | screen hc hd s => exact h
  | same hc => exact h

/-- A call that does not print leaves the screen alone. -/
theorem step_screen {c : Call} (hc : ¬ Draws c) (hs : step L img k c = .ok (k', r)) :
    k'.keyboard.screen = k.keyboard.screen := by
  have heff := step_keyboard hs
  generalize k'.keyboard = kb' at heff ⊢
  cases heff with
  | key sc text => exact absurd trivial hc
  | taken fd buf n hflag => rfl
  | written hw => exact absurd trivial hc
  | screen hkey hd s => exact absurd hd hc
  | same hkey => rfl

/-! ## Answers -/

/-- The kernel answers the call. -/
def Answers (L : Layout) (img : Image) (k : State) (c : Call) : Prop :=
  ∃ k' r, step L img k c = .ok (k', r)

/-- There is room in `buffer` for a `terminal_write` of `n` bytes. -/
def Room (k : State) (n : Int) : Prop :=
  n ≤ bufSize ∧ k.keyboard.bufferContentCounter + n ≤ bufSize

/-- A `write` to descriptor 1 returns if there is room for it. -/
theorem answers_write (h : Sound L img k) {buf : Nat} (hbuf : buf ≠ 0) (data : Mem) {n : Int}
    (h0 : 0 ≤ n) (hroom : Room k n) : Answers L img k (.write 1 buf data n) := by
  obtain ⟨hn, hcount⟩ := hroom
  have hout := h.tableInv.stdout
  unfold Answers
  simp only [step, write]
  rw [if_neg (by omega), show fdIndex 1 = 1 from rfl, hout.1, if_neg one_ne_zero, hout.2]
  simp only [Option.bind_some, OpTable.write, callWrite, terminalWrite]
  rw [if_neg (by omega)]
  exact ⟨_, _, rfl⟩

theorem NothingPending.room (h : NothingPending k) {n : Int} (hn : n ≤ 1024) : Room k n := by
  unfold NothingPending at h
  refine ⟨hn, ?_⟩
  rw [h]
  simp only [bufSize]
  omega

/-! ## Printing -/

/-- What a call of process `pid` prints: the bytes written to descriptor 1, or the message of the
sixth process's `execute`. -/
def printedBy (pid : Nat) : Call → List UInt8
  | .write fd buf data n => if fd = 1 ∧ buf ≠ 0 then (List.range n.toNat).map data else []
  | .execute _ => if 6 ≤ pid then tooManyText else []
  | _ => []

/-- What a run prints. -/
def printedText (tr : List Event) : List UInt8 := tr.flatMap fun ev => printedBy ev.pid ev.call

/-- The shell ends and starts again, with a clear screen. -/
def Restarts (ev : Event) : Prop := ev.pid = 1 ∧ ∃ status, ev.call = .halt status

/-- The screen shows the document `page`, from some row on. -/
def OnScreen (k : State) (page : Page UInt8) : Prop := ∃ top, Shows k.keyboard.screen page top

theorem shows_write {s : Screen} {page : Page UInt8} {top : Nat} (h : Shows s page top)
    (text : List UInt8) : ∃ top', Shows (puts s text) (page.write isBreak 80 text) top' := by
  induction text generalizing s page top with
  | nil => exact ⟨top, h⟩
  | cons c text ih => exact ih (h.putc c)

theorem shows_cursor {s : Screen} {page : Page UInt8} {top : Nat} (h : Shows s page top) :
    Shows (updateTerminalCursor s) page top := by
  obtain ⟨h1, h2, h3, h4, h5, h6, h7⟩ := h
  exact ⟨h1, h2, h3, h4, h5, h6, h7⟩

theorem OnScreen.of_screen {page : Page UInt8} (h : OnScreen k page)
    (hs : k'.keyboard.screen = k.keyboard.screen) : OnScreen k' page := by
  obtain ⟨top, h⟩ := h
  exact ⟨top, by rwa [hs]⟩

/-- With nothing pending a `write` to descriptor 1 prints its bytes. -/
theorem terminalWrite_prints {kb kb' : Keyboard} {data : Mem} {n v : Int}
    (hq : kb.bufferContentCounter = 0) (hw : terminalWrite kb data n = some (kb', v)) :
    kb'.screen =
      updateTerminalCursor (puts kb.screen ((List.range n.toNat).map data)) := by
  unfold terminalWrite at hw
  simp only at hw
  split at hw
  · cases hw
  · cases hw
    have hpending : pending { kb with
        buffer := fun i => if i < n.toNat then data i else kb.buffer i
        bufferContentCounter := kb.bufferContentCounter + (n.toNat : Int) } =
        (List.range n.toNat).map data := by
      unfold pending
      simp only [hq, Int.zero_add, Int.toNat_natCast]
      apply List.map_congr_left
      intro i hi
      rw [List.mem_range] at hi
      rw [if_pos hi]
    simp only [printBuf, clearBuf, hpending]

/-- Of the descriptors only 1 writes to the console. -/
theorem console_fd (h : TableInv img k.file) {fd : Int} (h0 : 0 ≤ fd) (h7 : fd ≤ 7)
    (ht : (k.file (fdIndex fd)).fileOperation = some .stdoutT)
    (hflags : (k.file (fdIndex fd)).flags ≠ 0) : fd = 1 := by
  by_contra hne
  by_cases hz : fd = 0
  · rw [hz, show fdIndex 0 = 0 from rfl, h.stdin.2] at ht
    cases ht
  · have h2 : 2 ≤ fdIndex fd := two_le_fdIndex (by omega) h7
    obtain ⟨d, -, -, hop⟩ := h.used _ h2 (h.flags_eq_one h2 hflags)
    rw [ht] at hop
    unfold tableFor at hop
    split at hop
    · cases hop
    · split at hop
      · cases hop
      · split at hop <;> cases hop

/-- A `write` prints the bytes, if it is to the console. -/
theorem write_prints {fd n : Int} {buf : Nat} {data : Mem} {page : Page UInt8} (pid : Nat)
    (h : Sound L img k) (hq : NothingPending k) (hp : OnScreen k page)
    (hs : write k fd buf data n = .ok (k', r)) :
    OnScreen k' (page.write isBreak 80 (printedBy pid (.write fd buf data n))) := by
  cases write_inv hs with
  | refused hc =>
    have hno : ¬ (fd = 1 ∧ buf ≠ 0) := by
      rintro ⟨rfl, hbuf⟩
      refine hc ⟨by decide, by decide, hbuf, ?_⟩
      rw [show fdIndex 1 = 1 from rfl, h.tableInv.stdout.1]
      exact one_ne_zero
    simp only [printedBy, if_neg hno]
    exact hp
  | @done t fn k₁ v hc ht hfn hcall =>
    obtain ⟨h0, h7, hbuf, hflags⟩ := hc
    by_cases hterm : fn = .terminalWrite
    · subst hterm
      obtain rfl : t = .stdoutT := by cases t <;> first | rfl | cases hfn
      obtain rfl := console_fd h.tableInv h0 h7 ht hflags
      simp only [callWrite] at hcall
      split at hcall
      · cases hcall
      · rename_i kb v' hw
        cases hcall
        obtain ⟨top, hshows⟩ := hp
        obtain ⟨top', hshows'⟩ := shows_write hshows ((List.range n.toNat).map data)
        refine ⟨top', ?_⟩
        simp only [printedBy]
        rw [if_pos ⟨trivial, hbuf⟩, terminalWrite_prints hq hw]
        exact shows_cursor hshows'
    · have hfd : ¬ (fd = 1 ∧ buf ≠ 0) := by
        rintro ⟨rfl, -⟩
        rw [show fdIndex 1 = 1 from rfl, h.tableInv.stdout.2] at ht
        obtain rfl := Option.some.inj ht
        exact hterm (Option.some.inj hfn).symm
      simp only [printedBy, if_neg hfd]
      refine hp.of_screen ?_
      cases fn with
      | terminalWrite => exact absurd rfl hterm
      | rtcWrite =>
        cases hcall
        rfl
      | fileWrite =>
        cases hcall
        rfl
      | directoryWrite =>
        cases hcall
        rfl

/-- **An event that is not a key prints its text**, unless it is the shell's end. -/
theorem prints_text {ev : Event} {page : Page UInt8} (h : Sound L img k) (hq : NothingPending k)
    (hp : OnScreen k page) (hkey : ¬ IsKey ev.call) (hrestart : ¬ Restarts ev)
    (hs : KStep L img k ev k') :
    OnScreen k' (page.write isBreak 80 (printedBy ev.pid ev.call)) := by
  obtain ⟨pid, c, r⟩ := ev
  obtain ⟨hpid, -, hs⟩ := hs
  simp only at hpid hs hkey hrestart ⊢
  subst hpid
  cases c with
  | halt status =>
    have hne : k.counter ≠ 1 := fun h1 => hrestart ⟨h1, status, rfl⟩
    simp only [step] at hs
    rw [halt_eq h.stack, if_neg hne] at hs
    cases hs
    exact hp.of_screen rfl
  | execute e =>
    obtain ⟨top, hshows⟩ := hp
    cases execute_inv hs with
    | full hk =>
      have htext : printedBy k.counter (.execute e) = tooManyText := if_pos hk
      rw [htext]
      generalize tooManyText = text
      exact shows_write hshows text
    | null hk hc =>
      simp only [printedBy, if_neg (Nat.not_le.mpr hk)]
      exact ⟨top, hshows⟩
    | rejected hk hc ha hh =>
      simp only [printedBy, if_neg (Nat.not_le.mpr hk)]
      exact ⟨top, hshows⟩
    | unloadable hk hc ha hh hl =>
      simp only [printedBy, if_neg (Nat.not_le.mpr hk)]
      exact ⟨top, hshows⟩
    | started hk hc ha hh hr hl =>
      simp only [printedBy, if_neg (Nat.not_le.mpr hk)]
      exact ⟨top, hshows⟩
  | write fd buf data n => exact write_prints k.counter h hq hp hs
  | key sc text => exact absurd ⟨sc, text, rfl⟩ hkey
  | _ => exact hp.of_screen (step_screen id hs)

theorem write_append (page : Page UInt8) (a b : List UInt8) :
    page.write isBreak 80 (a ++ b) = (page.write isBreak 80 a).write isBreak 80 b :=
  List.foldl_append

/-- What a run without keys prints is behind what is on the screen. -/
theorem shows_run (hblocks : BlocksOk img) (htypes : TypesOk img) {k₀ : State}
    (hsound : Sound L img k₀) (hq : NothingPending k₀) {page : Page UInt8}
    (hpage : OnScreen k₀ page) {tr : List Event} (ht : Trace (KStep L img) k₀ tr k)
    (hkeys : ∀ ev ∈ tr, ¬ IsKey ev.call)
    (hrestarts : ∀ ev ∈ tr, ¬ Restarts ev) :
    OnScreen k (page.write isBreak 80 (printedText tr)) := by
  have hall : ∀ ev ∈ tr, ¬ IsKey ev.call ∧ ¬ Restarts ev := fun ev hev =>
    ⟨hkeys ev hev, hrestarts ev hev⟩
  -- on the last event: the screen, nothing pending, and a sound state
  have hrun := Trace.snoc_induction (R := KStep L img) (s := k₀)
    (P := fun tr k => (∀ ev ∈ tr, ¬ IsKey ev.call ∧ ¬ Restarts ev) →
      Sound L img k ∧ NothingPending k ∧ OnScreen k (page.write isBreak 80 (printedText tr)))
    (fun _ => ⟨hsound, hq, hpage⟩) ?_ ht hall
  · exact hrun.2.2
  · intro tr k ev k' _ ih hs hev
    rw [List.forall_mem_append, List.forall_mem_singleton] at hev
    obtain ⟨hsound, hq, hpage⟩ := ih hev.1
    refine ⟨(hsound.serves hblocks htypes hs).1, hq.step hev.2.1 hs.2.2, ?_⟩
    unfold printedText
    rw [List.flatMap_append, write_append, List.flatMap_singleton]
    exact prints_text hsound hq hpage hev.2.1 hev.2.2 hs

/-- **The screen shows what the processes have written.** From a state a booted system reaches, with
nothing typed ahead and the document `page` on the screen, in every run without keys in which the
shell does not end: the screen shows `page` followed by everything written to descriptor 1 by any
process, and the messages of refused starts, in the order of the calls. -/
theorem console_shows (L : Layout) (img : Image) (hblocks : BlocksOk img) (htypes : TypesOk img)
    (past : List Event) (k₀ : State) (hreach : Reaches L img past k₀) (hq : NothingPending k₀)
    (page : Page UInt8) (hpage : OnScreen k₀ page) (tr : List Event) (k : State)
    (ht : Trace (KStep L img) k₀ tr k) (hkeys : ∀ ev ∈ tr, ¬ IsKey ev.call)
    (hrestarts : ∀ ev ∈ tr, ¬ Restarts ev) :
    OnScreen k (page.write isBreak 80 (printedText tr)) :=
  shows_run hblocks htypes (reaches_sound hblocks htypes hreach) hq hpage ht hkeys hrestarts

/-- Nothing runs yet, and the screen is clear. -/
def demoClear : State :=
  { demoBoot with keyboard := bootTerminal (clearScreen bootKeyboard.screen) }

/-- The small system with its shell running on a clear screen. -/
def demoClearShell : State :=
  launched demoLayout demoClear (demoArgs shellText 0x7ffff0) [] 0x08048080

theorem demoClearShell_booted : Booted demoLayout (demoImage 1) demoClearShell :=
  ⟨demoClear, demoArgs shellText 0x7ffff0, 0x08048080, ⟨rfl, _, rfl⟩, ⟨_, rfl, by decide⟩,
    shell_started (by decide) _ (Or.inl rfl)⟩

theorem demoClearShell_onScreen : OnScreen demoClearShell Page.empty := by
  obtain ⟨h1, h2, h3, h4, h5, h6, h7⟩ := shows_clear { bootKeyboard.screen with
    screenX := 0
    screenY := 0 }
  exact ⟨0, h1, h2, h3, h4, h5, h6, h7⟩

/-- The shell writes `ab`. -/
theorem console_shows_ab : ∃ k, KStep demoLayout (demoImage 1) demoClearShell
      ⟨1, .write 1 0x08048000 abText.get 2, .ret 2 []⟩ k ∧
    OnScreen k (layout isBreak 80 abText.bytes) := by
  have hreach : Reaches demoLayout (demoImage 1) [] demoClearShell :=
    ⟨demoClearShell, demoClearShell_booted, .nil _⟩
  have hstep : ∃ k, KStep demoLayout (demoImage 1) demoClearShell
      ⟨1, .write 1 0x08048000 abText.get 2, .ret 2 []⟩ k := by
    have hfile : demoClearShell.file = freshFiles := launched_file _ _ _ _ _
    have hwrite : ∃ k, write demoClearShell 1 0x08048000 abText.get 2 = .ok (k, .ret 2 []) := by
      unfold write
      rw [if_neg (by decide), hfile]
      exact ⟨_, rfl⟩
    obtain ⟨k, hk⟩ := hwrite
    exact ⟨k, rfl, ⟨trivial, Or.inl rfl⟩, hk⟩
  obtain ⟨k, hs⟩ := hstep
  refine ⟨k, hs, ?_⟩
  exact console_shows _ _ demoImage_blocksOk demoImage_typesOk [] _ hreach rfl Page.empty
    demoClearShell_onScreen [_] k (.single hs) (by simp [IsKey]) (by simp [Restarts])

end MyOS.Terminal
