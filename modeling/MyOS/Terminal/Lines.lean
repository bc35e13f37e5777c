import MyOS.Machine.Mailbox
import MyOS.Terminal.Editor
import MyOS.Terminal.Reader

/-!
# Which typed lines a reader gets

The handler and the reader share one stored line and one flag. ENTER stores the pending line over
whatever is there (`keyboard.c:380-397`); a `terminal_read` copies up to `nbytes` of it, clears the
storage and the flag (`keyboard.c:219-237`). That is a mailbox with one slot, with the lines as its
words: `boxEvents` reads the mailbox's history off a terminal's.

* `key_quiet`, `key_enter`: what a key does to the stored line.
* `Tied`: the terminal's stored line and flag against the contents of the mailbox, for every place
  the reader can be. `Tied.step` is one step, `run_tied` a run.
* **`terminal_lines`**: in every run in which keys leave a read its registers and no ENTER is
  handled while it copies or clears, the terminal is that mailbox: each read returns the first bytes
  of the last line completed and not yet read, the lines are read in order and none twice, and when
  no ENTER finds an unread line and no read asks for less than its line, nothing is lost or cut
  either.
* `replay_performs`: acts done one after the other are such runs. `read_interrupted`: what a read
  returns when an ENTER is handled while it copies. `typed_lines_lost_cut_mixed` are three runs that
  show that all these conditions are needed.
-/

namespace MyOS.Terminal

open MyOS.Machine MyOS.Kernel BoxEvent

/-! ## Keys -/

/-- The key is Ctrl-L, which clears the storage behind the reader's back. -/
def IsCtrlL (kb : Keyboard) (sc : UInt8) : Prop :=
  ((setModifiers kb sc).ctrlLeftFlag || (setModifiers kb sc).ctrlRightFlag) ∧ sc = 0x26

instance (kb : Keyboard) (sc : UInt8) : Decidable (IsCtrlL kb sc) :=
  inferInstanceAs (Decidable (_ ∧ _))

/-- **A key that completes no line leaves the stored line alone.** -/
theorem key_quiet {kb : Keyboard} {sc : UInt8} (text : List UInt8) (hl : ¬ IsCtrlL kb sc)
    (hc : completed kb sc = none) : SameStore kb (processKeyboardInput kb sc text) := by
  have henter : ¬ (¬ 0x3A < sc ∧ keyOf norm sc = 10) := by
    intro h
    unfold completed at hc
    rw [if_pos h] at hc
    cases hc
  obtain ⟨hb, hn, hf⟩ := handleKey_sameStore (k := setModifiers kb sc)
    (fun h => hl (keyKind_ctrlL_iff.mp h)) (fun h => henter (keyKind_enter_iff.mp h)) sc text
  rw [processKeyboardInput_eq]
  exact ⟨hb, hn, hf⟩

/-- What ENTER stores is what was pending, and a newline. -/
theorem stored_enterKey (kb : Keyboard) :
    stored (enterKey kb) = pending kb ++ [10] ∧ (enterKey kb).readableFlag = true := by
  refine ⟨?_, rfl⟩
  have hcount : (enterKey kb).storageBufferCounter.toNat = kb.bufferContentCounter.toNat + 1 := by
    change ((0 : Int) + (kb.bufferContentCounter.toNat : Int) + 1).toNat = _
    omega
  unfold stored pending
  rw [hcount, enterKey_storageBuffer, List.range_succ, List.map_append, List.map_singleton,
    Function.update_self]
  congr 1
  apply List.map_congr_left
  intro i hi
  rw [List.mem_range] at hi
  rw [Function.update_of_ne (by omega), if_pos hi]

/-- **ENTER stores the line it completes and raises the flag.** -/
theorem key_enter {kb : Keyboard} {sc : UInt8} {line : List UInt8} (text : List UInt8)
    (hc : completed kb sc = some line) :
    stored (processKeyboardInput kb sc text) = line ∧
      (processKeyboardInput kb sc text).readableFlag = true := by
  unfold completed at hc
  split at hc
  · rename_i henter
    obtain rfl := Option.some.inj hc
    rw [processKeyboardInput_eq, keyKind_enter_iff.mpr henter]
    exact stored_enterKey (setModifiers kb sc)
  · cases hc

/-! ## The terminal as a mailbox -/

/-- The history of the mailbox: completed lines go in, reads take them out. -/
def boxEvents (tr : List TermEvent) : List (BoxEvent UInt8) :=
  tr.filterMap fun
    | .key _ _ (some line) => some (put line)
    | .ret n _ out => some (take n.toNat out)
    | _ => none

/-- The reader has begun to copy and has not yet lowered the flag. -/
def Reader.Busy : Reader → Prop
  | copyTest _ _ => True
  | copyBody _ _ => True
  | clearing _ _ _ => True
  | clearFlag _ _ => True
  | _ => False

/-- No Ctrl-L, and no ENTER while a read copies or clears. -/
def Orderly (t : Tty) : TermEvent → Prop
  | .key sc _ line => ¬ IsCtrlL t.kb sc ∧ (line ≠ none → ¬ t.reader.Busy)
  | _ => True

/-- **The terminal and the mailbox**, for every place the reader can be. -/
def Tied (t : Tty) (box : Option (List UInt8)) : Prop :=
  match t.reader with
  | .copyTest n buf => t.kb.readableFlag = true ∧ box = some (stored t.kb) ∧
      buf = (stored t.kb).take buf.length ∧ buf.length ≤ n.toNat
  | .copyBody n buf => t.kb.readableFlag = true ∧ box = some (stored t.kb) ∧
      buf = (stored t.kb).take buf.length ∧ buf.length < n.toNat ∧
      buf.length < t.kb.storageBufferCounter.toNat
  | .clearing n buf _ => ∃ line, box = some line ∧ buf = line.take n.toNat
  | .clearFlag n buf => ∃ line, box = some line ∧ buf = line.take n.toNat
  | .test _ => t.kb.readableFlag = true ∧ box = some (stored t.kb)
  | _ => if t.kb.readableFlag then box = some (stored t.kb) else box = none

/-- A key that leaves the stored line alone keeps the tie. -/
theorem Tied.of_sameStore {kb kb' : Keyboard} {rd : Reader} {box : Option (List UInt8)}
    (h : Tied ⟨kb, rd⟩ box) (hs : SameStore kb kb') : Tied ⟨kb', rd⟩ box := by
  cases rd <;> simpa only [Tied, hs.flag, hs.stored, hs.counter] using h

/-- ENTER ties the new line, unless a read is busy with the old one. -/
theorem tied_enter {kb : Keyboard} {rd : Reader} (hb : ¬ rd.Busy) (hf : kb.readableFlag = true) :
    Tied ⟨kb, rd⟩ (some (stored kb)) := by
  cases rd with
  | idle => simp [Tied, hf]
  | waiting n => simp [Tied, hf]
  | test n => exact ⟨hf, rfl⟩
  | _ => exact absurd trivial hb

/-- What an access of the reader does to the mailbox: nothing, or it takes what it returns. -/
theorem Tied.tick {t t' : Tty} {ev : TermEvent} {box : Option (List UInt8)} (h : Tied t box)
    (ht : Terminal.tick t = some (ev, t')) :
    (ev = .tick ∧ Tied t' box) ∨
      ∃ n v line, ev = .ret n v (line.take n.toNat) ∧ box = some line ∧ Tied t' none := by
  obtain ⟨kb, rd⟩ := t
  cases rd with
  | idle => cases ht
  | waiting n =>
    cases ht
    refine Or.inl ⟨rfl, ?_⟩
    by_cases hf : kb.readableFlag = true
    · rw [if_pos hf]
      simp only [Tied, hf, if_true] at h
      exact ⟨hf, h⟩
    · rw [if_neg hf]
      exact h
  | test n =>
    simp only [Terminal.tick] at ht
    rw [if_pos h.1] at ht
    cases ht
    exact Or.inl ⟨rfl, h.1, h.2, rfl, Nat.zero_le _⟩
  | copyTest n buf =>
    simp only [Tied] at h
    obtain ⟨hf, hbox, hbuf, hlen⟩ := h
    simp only [Terminal.tick] at ht
    split at ht
    · rename_i hgo
      cases ht
      exact Or.inl ⟨rfl, hf, hbox, hbuf, by omega, by simp only; omega⟩
    · rename_i hstop
      cases ht
      refine Or.inl ⟨rfl, stored kb, hbox, ?_⟩
      rw [hbuf, List.take_eq_take_iff, length_stored]
      omega
  | copyBody n buf =>
    obtain ⟨hf, hbox, hbuf, hn, hlen⟩ := h
    cases ht
    refine Or.inl ⟨rfl, hf, hbox, ?_, ?_⟩
    · rw [List.length_append, List.length_singleton, stored_take_succ kb hlen, ← hbuf]
    · rw [List.length_append, List.length_singleton]
      exact hn
  | clearing n buf i =>
    simp only [Terminal.tick] at ht
    split at ht
    · cases ht
      exact Or.inl ⟨rfl, h⟩
    · cases ht
      exact Or.inl ⟨rfl, h⟩
  | clearFlag n buf =>
    obtain ⟨line, hbox, rfl⟩ := h
    cases ht
    exact Or.inr ⟨n, _, line, rfl, hbox, rfl⟩

theorem boxEvents_append (tr tr' : List TermEvent) :
    boxEvents (tr ++ tr') = boxEvents tr ++ boxEvents tr' := by
  unfold boxEvents
  rw [List.filterMap_append]

/-- **One orderly step** keeps the tie, and the mailbox fair. -/
theorem Tied.step {tr : List TermEvent} {t t' : Tty} {ev : TermEvent}
    (h : Tied t (contents (boxEvents tr))) (hfair : Fair (boxEvents tr)) (ho : Orderly t ev)
    (hs : TermStep t ev t') :
    Tied t' (contents (boxEvents (tr ++ [ev]))) ∧ Fair (boxEvents (tr ++ [ev])) := by
  rw [boxEvents_append]
  cases hs with
  | key kb rd sc text =>
    cases hc : completed kb sc with
    | none =>
      rw [show boxEvents [.key sc text none] = [] from rfl, List.append_nil]
      exact ⟨h.of_sameStore (key_quiet text ho.1 hc), hfair⟩
    | some line =>
      rw [show boxEvents [.key sc text (some line)] = [put line] from rfl, contents_snoc]
      obtain ⟨hstored, hflag⟩ := key_enter text hc
      refine ⟨?_, always_snoc.mpr ⟨hfair, trivial⟩⟩
      rw [← hstored]
      exact tied_enter (ho.2 (by rw [hc]; nofun)) hflag
  | call kb n =>
    rw [show boxEvents [.call n] = [] from rfl, List.append_nil]
    exact ⟨h, hfair⟩
  | tick ht =>
    rcases h.tick ht with ⟨rfl, ht'⟩ | ⟨n, v, line, rfl, hbox, ht'⟩
    · rw [show boxEvents [.tick] = [] from rfl, List.append_nil]
      exact ⟨ht', hfair⟩
    · rw [show boxEvents [.ret n v (line.take n.toNat)] = [take n.toNat (line.take n.toNat)]
        from rfl, contents_snoc]
      exact ⟨ht', always_snoc.mpr ⟨hfair, line, hbox, rfl⟩⟩

/-- **An orderly run** from a terminal with no line stored and no read going on. -/
theorem run_tied {t₀ t : Tty} {tr : List TermEvent} (hidle : t₀.reader = .idle)
    (hflag : t₀.kb.readableFlag = false)
    (ht : Trace (fun s ev s' => Orderly s ev ∧ TermStep s ev s') t₀ tr t) :
    Tied t (contents (boxEvents tr)) ∧ Fair (boxEvents tr) := by
  refine Trace.snoc_induction
    (P := fun tr t => Tied t (contents (boxEvents tr)) ∧ Fair (boxEvents tr)) ?_ ?_ ht
  · obtain ⟨kb, rd⟩ := t₀
    simp only at hidle hflag
    subst hidle
    refine ⟨?_, always_nil⟩
    simp only [Tied, hflag]
    rfl
  · intro tr t ev t' _ ih hs
    exact ih.1.step ih.2 hs.1 hs.2

/-- The lines completed by ENTER. -/
def typedLines (tr : List TermEvent) : List (List UInt8) := puts (boxEvents tr)

/-- What each read asked for and returned. -/
def readsMade (tr : List TermEvent) : List (Nat × List UInt8) := takes (boxEvents tr)

/-- **The lines a reader gets.** In every orderly run: a read returns the first bytes of the last
line completed before it and not yet read (`Fair`); the lines read from are a subsequence of the
lines typed, each read once; and where no ENTER finds an unread line and no read asks for less than
its line (`Lossless`), the bytes returned are a prefix of the lines typed. -/
theorem terminal_lines (t₀ t : Tty) (hidle : t₀.reader = .idle) (hflag : t₀.kb.readableFlag = false)
    (tr : List TermEvent)
    (ht : Trace (fun s ev s' => Orderly s ev ∧ TermStep s ev s') t₀ tr t) :
    Fair (boxEvents tr) ∧
    (∃ lines, lines.Sublist (typedLines tr) ∧
      List.Forall₂ (fun line rd => rd.2 = line.take rd.1) lines (readsMade tr)) ∧
    (Lossless (boxEvents tr) →
      ((readsMade tr).map Prod.snd).flatten <+: (typedLines tr).flatten) := by
  obtain ⟨-, hfair⟩ := run_tied hidle hflag ht
  refine ⟨hfair, ?_, fun hl => ⟨_, hfair.flatten_eq hl⟩⟩
  obtain ⟨lines, hsub, hall⟩ := hfair.sublist
  exact ⟨lines, (List.sublist_append_left _ _).trans hsub, hall⟩

/-! ## Calls one after the other -/

/-- A key, or a read of `n` bytes that is left alone. -/
inductive Act where
  | key (sc : UInt8)
  | read (n : Int)

/-- The mailbox's history when each act is finished before the next; none when a read finds no line
or a key is Ctrl-L. -/
def replay : Keyboard → List Act → Option (List (BoxEvent UInt8))
  | _, [] => some []
  | kb, .key sc :: acts =>
    if IsCtrlL kb sc then none
    else (replay (processKeyboardInput kb sc []) acts).map fun es =>
      (completed kb sc).toList.map put ++ es
  | kb, .read n :: acts =>
    match terminalRead kb n with
    | none => none
    | some (kb', _, out) => (replay kb' acts).map fun es => take n.toNat out :: es

/-- An orderly run whose keys and calls are those of `acts`. -/
def Performs (kb : Keyboard) (acts : List Act) (tr : List TermEvent) : Prop :=
  (∃ t, Trace (fun s ev s' => Orderly s ev ∧ TermStep s ev s') ⟨kb, .idle⟩ tr t) ∧
    (∀ sc text line, .key sc text line ∈ tr → .key sc ∈ acts) ∧ ∀ n, .call n ∈ tr → .read n ∈ acts

theorem boxEvents_ticks (m : Nat) : boxEvents (List.replicate m .tick) = [] := by
  unfold boxEvents
  rw [List.filterMap_eq_nil_iff]
  intro ev hev
  rw [List.eq_of_mem_replicate hev]

theorem boxEvents_call (n : Int) (tr : List TermEvent) :
    boxEvents (.call n :: tr) = boxEvents tr := rfl

theorem boxEvents_key (sc : UInt8) (text line : List UInt8) (tr : List TermEvent) :
    boxEvents (.key sc text (some line) :: tr) = put line :: boxEvents tr := rfl

theorem boxEvents_read (n v : Int) (m : Nat) (out : List UInt8) :
    boxEvents (.call n :: (List.replicate m .tick ++ [.ret n v out])) = [take n.toNat out] := by
  rw [boxEvents_call, boxEvents_append, boxEvents_ticks]
  rfl

/-- **A replay is a run of the terminal.** -/
theorem replay_performs : ∀ (acts : List Act) (kb : Keyboard) {es : List (BoxEvent UInt8)},
    replay kb acts = some es → ∃ tr, Performs kb acts tr ∧ boxEvents tr = es
  | [], kb, es, h => by
    cases h
    exact ⟨[], ⟨⟨_, .nil _⟩, nofun, nofun⟩, rfl⟩
  | .key sc :: acts, kb, es, h => by
    unfold replay at h
    split at h
    · cases h
    · rename_i hl
      obtain ⟨es', hes, rfl⟩ := Option.map_eq_some_iff.mp h
      obtain ⟨tr, ⟨⟨t, ht⟩, hkeys, hcalls⟩, rfl⟩ := replay_performs acts _ hes
      refine ⟨.key sc [] (completed kb sc) :: tr,
        ⟨⟨t, .cons ⟨⟨hl, fun _ => id⟩, .key kb _ sc []⟩ ht⟩, ?_, ?_⟩, ?_⟩
      · rintro sc' text line hmem
        rcases List.mem_cons.mp hmem with heq | hmem
        · cases heq
          exact List.mem_cons_self
        · exact List.mem_cons_of_mem _ (hkeys _ _ _ hmem)
      · intro n hmem
        rcases List.mem_cons.mp hmem with heq | hmem
        · cases heq
        · exact List.mem_cons_of_mem _ (hcalls _ hmem)
      · cases hc : completed kb sc <;> simp [boxEvents]
  | .read n :: acts, kb, es, h => by
    unfold replay at h
    split at h
    · cases h
    · rename_i kb' v out hread
      obtain ⟨es', hes, rfl⟩ := Option.map_eq_some_iff.mp h
      obtain ⟨tr, ⟨⟨t, ht⟩, hkeys, hcalls⟩, rfl⟩ := replay_performs acts _ hes
      obtain ⟨m, hm⟩ := read_alone hread
      have hmem : ∀ ev ∈ TermEvent.call n :: (List.replicate m .tick ++ [.ret n v out]),
          ev = .call n ∨ ev = .tick ∨ ev = .ret n v out := by
        intro ev hev
        rcases List.mem_cons.mp hev with rfl | hev
        · exact Or.inl rfl
        · rcases List.mem_append.mp hev with hev | hev
          · exact Or.inr (Or.inl (List.eq_of_mem_replicate hev))
          · exact Or.inr (Or.inr (List.mem_singleton.mp hev))
      have hm' := hm.mono_of (P := fun ev => ev = .call n ∨ ev = .tick ∨ ev = .ret n v out)
        (fun s ev s' hev hs => (⟨by rcases hev with rfl | rfl | rfl <;> trivial, hs⟩ :
          Orderly s ev ∧ TermStep s ev s')) hmem
      refine ⟨_, ⟨⟨t, hm'.append ht⟩, ?_, ?_⟩, ?_⟩
      · intro sc text line hev
        rcases List.mem_append.mp hev with hev | hev
        · rcases hmem _ hev with h | h | h <;> cases h
        · exact List.mem_cons_of_mem _ (hkeys _ _ _ hev)
      · intro n' hev
        rcases List.mem_append.mp hev with hev | hev
        · rcases hmem _ hev with h | h | h
          · cases h
            exact List.mem_cons_self
          · cases h
          · cases h
        · exact List.mem_cons_of_mem _ (hcalls _ hev)
      · rw [boxEvents_append, boxEvents_read]
        rfl

/-- One line typed and read in full. -/
theorem terminal_lines_one :
    ∃ tr, Performs (keyboardInit bootKeyboard) [.key 0x1E, .key 0x1C, .read 128] tr ∧
      ((readsMade tr).map Prod.snd).flatten <+: (typedLines tr).flatten := by
  have hreplay : replay (keyboardInit bootKeyboard) [.key 0x1E, .key 0x1C, .read 128] =
      some ([] ++ [put [97, 10]] ++ [take 128 [97, 10]]) := by decide
  obtain ⟨tr, hp, hes⟩ := replay_performs _ _ hreplay
  obtain ⟨t, ht⟩ := hp.1
  refine ⟨tr, hp, (terminal_lines _ t rfl rfl tr ht).2.2 ?_⟩
  unfold Lossless
  rw [hes, always_snoc, always_snoc, contents_snoc]
  exact ⟨⟨always_nil, rfl⟩, fun x hx => by cases hx; decide⟩

/-- Two lines typed before a read: only the second is returned. -/
def lostActs : List Act := [.key 0x1E, .key 0x1C, .key 0x30, .key 0x1C, .read 128]

/-- A read shorter than the line: its rest is never returned. -/
def cutActs : List Act := [.key 0x1E, .key 0x1C, .read 1, .key 0x30, .key 0x1C, .read 128]

/-! ## ENTER in the middle of a read -/

/-- **An ENTER handled while a read copies**: the read goes on in the new line where it had got to
in the old one. -/
theorem read_interrupted {kb : Keyboard} (hflag : kb.readableFlag = true) {n : Int} {i : Nat}
    (hi : i ≤ (stored kb).length) (hn : i ≤ n.toNat) {sc : UInt8} {line : List UInt8}
    (hc : completed kb sc = some line) : ∃ m m' v t,
      Trace TermStep ⟨kb, .idle⟩
        (.call n :: (List.replicate m .tick ++ .key sc [] (some line) ::
          (List.replicate m' .tick ++ [.ret n v (finalBuf line n ((stored kb).take i))]))) t := by
  obtain ⟨m, hcopy⟩ := copy_part kb n [] i (by simpa using hi) (by simpa using hn)
  obtain ⟨m', hrest⟩ := rest_alone (processKeyboardInput kb sc []) n ((stored kb).take i)
  rw [(key_enter [] hc).1] at hrest
  have hkey := TermStep.key kb (.copyTest n ((stored kb).take i)) sc []
  rw [hc] at hkey
  exact ⟨2 + m, m', _, _, .cons (.call kb n) (((call_copies hflag n).trans hcopy).append
    (.cons hkey hrest))⟩

theorem boxEvents_interrupted (n v : Int) (m m' : Nat) (sc : UInt8) (line out : List UInt8) :
    boxEvents (.call n :: (List.replicate m .tick ++ .key sc [] (some line) ::
      (List.replicate m' .tick ++ [.ret n v out]))) = [put line, take n.toNat out] := by
  rw [boxEvents_call, boxEvents_append, boxEvents_key, boxEvents_append, boxEvents_ticks,
    boxEvents_ticks]
  rfl

/-- The keyboard with `ab` and a newline stored and `c` pending. -/
def midKeyboard : Keyboard :=
  [0x1E, 0x30, 0x1C, 0x2E].foldl (fun kb sc => processKeyboardInput kb sc [])
    (keyboardInit bootKeyboard)

/-- **Lines are lost, cut and mixed.** Typing `a`, ENTER, `b`, ENTER and reading returns `b` and a
newline; reading one byte of the first line in between returns `ab` and a newline; and when a read
of `ab` has copied one byte as the line `c` is completed, it returns `a` and a newline, which is the
start of neither line. -/
theorem typed_lines_lost_cut_mixed :
    (∃ tr, Performs (keyboardInit bootKeyboard) lostActs tr ∧
      ¬ ((readsMade tr).map Prod.snd).flatten <+: (typedLines tr).flatten) ∧
    (∃ tr, Performs (keyboardInit bootKeyboard) cutActs tr ∧
      ¬ ((readsMade tr).map Prod.snd).flatten <+: (typedLines tr).flatten) ∧
    ∃ tr t, Trace TermStep ⟨keyboardInit bootKeyboard, .idle⟩ tr t ∧
      typedLines tr = [[97, 98, 10], [99, 10]] ∧ readsMade tr = [(128, [97, 10])] := by
  have hlost : replay (keyboardInit bootKeyboard) lostActs =
      some [put [97, 10], put [98, 10], take 128 [98, 10]] := by decide
  have hcut : replay (keyboardInit bootKeyboard) cutActs =
      some [put [97, 10], take 1 [97], put [98, 10], take 128 [98, 10]] := by decide
  obtain ⟨tr, hp, hes⟩ := replay_performs _ _ hlost
  obtain ⟨tr', hp', hes'⟩ := replay_performs _ _ hcut
  refine ⟨⟨tr, hp, ?_⟩, ⟨tr', hp', ?_⟩, ?_⟩
  · unfold readsMade typedLines
    rw [hes]
    decide
  · unfold readsMade typedLines
    rw [hes']
    decide
  · have hstored : stored midKeyboard = [97, 98, 10] := by decide
    have hflag : midKeyboard.readableFlag = true := by decide
    have hc : completed midKeyboard 0x1C = some [99, 10] := by decide
    obtain ⟨m, m', v, t, hread⟩ := read_interrupted hflag (n := 128) (i := 1)
      (by rw [hstored]; decide) (by decide) hc
    rw [hstored] at hread
    have hkeys := Trace.cons (TermStep.key (keyboardInit bootKeyboard) .idle 0x1E [])
      (.cons (.key _ _ 0x30 []) (.cons (.key _ _ 0x1C []) (.single (.key _ _ 0x2E []))))
    refine ⟨_, t, hkeys.append hread, ?_⟩
    unfold typedLines readsMade
    rw [boxEvents_append, boxEvents_interrupted]
    decide

end MyOS.Terminal
