import MyOS.Terminal.Editor
import MyOS.Terminal.Lines
import MyOS.Video.Document

/-!
# What is echoed and what is delivered

A key changes the screen and the pending line in one branch of `process_keyboard_input`
(`keyboard.c:375-478`), but not by one routine: `putc` and `back_space` (`lib.c:310-331`, `73-89`)
on one side, stores to `buffer` and its counter on the other. TAB, marked as to be revised in the
source, puts two blanks on screen and nothing in the buffer.

* `echoOps`: the screen routines a branch calls, in order. `handleKey_screen` says that the screen
  is what they make of it.
* `echoed`: the text on screen since the start of the line, each `putc` minus each `back_space`.
* `Synced`: echo and pending line are the same, and as much of it can be deleted as there is.
  `Synced.key` is one key.
* **`echo_is_pending_iff`**: along a line, what is on screen is what is pending, and what ENTER will
  store, exactly as long as TAB is not pressed.
* `Displayed` / **`screen_shows_line`**: on such lines the cells of the screen are the document that
  was there at the start of the line with the pending line behind it (`Video.Shows`).
-/

namespace MyOS.Terminal

open MyOS.Machine MyOS.Kernel MyOS.Video

variable {k k' : Keyboard} {sc : UInt8} {t : List UInt8}

/-! ## The echo of a key -/

/-- The routines of `lib.c` a branch calls, with the modifier flags set. -/
def echoOps (k : Keyboard) (sc : UInt8) (text : List UInt8) : KeyKind → List ScreenOp
  | .ctrlL => [.clearScreen, .updateTerminalCursor]
  | .printout => .clear :: text.map .putc
  | .enter => [.putc 10, .updateTerminalCursor]
  | .backspace => .backSpace :: .updateTerminalCursor ::
      if k.bufferContentCounter < 0 then backspaceExceptionText.map .putc else []
  | .tab => [.putc 32, .putc 32, .updateTerminalCursor]
  | .char => if k.bufferContentCounter < 128 then
      [.putc (keyOf (charTable k) sc), .updateTerminalCursor] else []
  | .ignored => []

theorem puts_eq (s : Screen) (text : List UInt8) :
    puts s text = (text.map ScreenOp.putc).foldl ScreenOp.apply s := by
  unfold puts
  rw [List.foldl_map]
  rfl

/-- **The screen after a key is what its routines make of it.** -/
theorem handleKey_screen (k : Keyboard) (sc : UInt8) (text : List UInt8) (kind : KeyKind) :
    (handleKey k sc text kind).screen = (echoOps k sc text kind).foldl ScreenOp.apply k.screen := by
  cases kind with
  | printout => exact puts_eq (clear k.screen) text
  | backspace =>
    unfold handleKey backspaceKey echoOps
    generalize backspaceExceptionText = message
    simp only [List.foldl_cons]
    split
    · rw [if_neg (by omega)]
      rfl
    · split
      · rw [if_neg (by omega)]
        rfl
      · rw [if_pos (by omega)]
        exact puts_eq _ message
  | char =>
    unfold handleKey charKey echoOps
    simp only
    split <;> rfl
  | _ => rfl

/-- With the counter where it should be, BACKSPACE reports nothing. -/
theorem echoOps_backspace (h0 : 0 ≤ k.bufferContentCounter) (text : List UInt8) :
    echoOps k sc text .backspace = [.backSpace, .updateTerminalCursor] := by
  unfold echoOps
  dsimp only
  rw [if_neg (by omega)]

/-- What a routine does to the text on screen. -/
def echo (t : List UInt8) : ScreenOp → List UInt8
  | .putc c => t ++ [c]
  | .backSpace => t.dropLast
  | _ => t

/-- What a key does to it. -/
def keyEcho (k : Keyboard) (t : List UInt8) (sc : UInt8) : List UInt8 :=
  (echoOps (setModifiers k sc) sc [] (keyKind (setModifiers k sc) sc)).foldl echo t

/-- The keyboard after some keys. -/
def typed (k : Keyboard) (keys : List UInt8) : Keyboard :=
  keys.foldl (fun k sc => processKeyboardInput k sc []) k

/-- The text on screen after some keys, when it was `t` before. -/
def echoedFrom (k : Keyboard) (t : List UInt8) : List UInt8 → List UInt8
  | [] => t
  | sc :: keys => echoedFrom (processKeyboardInput k sc []) (keyEcho k t sc) keys

/-- The text on screen since the start of the line. -/
def echoed (k : Keyboard) (keys : List UInt8) : List UInt8 := echoedFrom k [] keys

/-! ## The line -/

/-- The start of a line: nothing is pending and nothing can be deleted, and Ctrl is up. -/
structure LineStart (k : Keyboard) : Prop where
  pending_zero : k.bufferContentCounter = 0
  backspacable_zero : k.backspacableCounter = 0
  ctrl_up : k.ctrlLeftFlag = false ∧ k.ctrlRightFlag = false

/-- The keys of a line: not Ctrl, and not ENTER. -/
def LineKey (sc : UInt8) : Prop := sc ≠ 0x1D ∧ sc ≠ 0x1C

/-- The text on screen is the pending line, and all of it can be deleted. -/
structure Synced (k : Keyboard) (t : List UInt8) : Prop where
  nonneg : 0 ≤ k.bufferContentCounter
  backspacable : k.backspacableCounter = k.bufferContentCounter
  ctrl_up : k.ctrlLeftFlag = false ∧ k.ctrlRightFlag = false
  pending_eq : pending k = t

theorem LineStart.synced (h : LineStart k) : Synced k [] := by
  have h0 := h.pending_zero
  have h1 := h.backspacable_zero
  refine ⟨by omega, by omega, h.ctrl_up, ?_⟩
  unfold pending
  rw [h0]
  rfl

theorem Synced.length_eq (h : Synced k t) : (t.length : Int) = k.bufferContentCounter := by
  have h0 := h.nonneg
  rw [← h.pending_eq]
  unfold pending
  rw [List.length_map, List.length_range]
  omega

theorem Synced.setModifiers (h : Synced k t) (hsc : sc ≠ 0x1D) : Synced (setModifiers k sc) t := by
  refine ⟨h.nonneg, h.backspacable, ?_, h.pending_eq⟩
  unfold Kernel.setModifiers
  simp only [if_neg hsc, h.ctrl_up.1, h.ctrl_up.2, ite_self, and_self]

/-- Without Ctrl, a key of a line edits it, is TAB, or does nothing. -/
theorem keyKind_line (hctrl : k.ctrlLeftFlag = false ∧ k.ctrlRightFlag = false) (hsc : LineKey sc) :
    keyKind k sc = .backspace ∨ keyKind k sc = .char ∨ keyKind k sc = .ignored ∨
      keyKind k sc = .tab := by
  have hfacts := keyFacts k sc
  have hup : (k.ctrlLeftFlag || k.ctrlRightFlag) = false := by rw [hctrl.1, hctrl.2]; rfl
  cases hkind : keyKind k sc with
  | ctrlL =>
    rw [hkind, KeyFacts, hup] at hfacts
    exact absurd hfacts.1 (by decide)
  | printout =>
    rw [hkind, KeyFacts, hup] at hfacts
    exact absurd hfacts (by decide)
  | enter =>
    rw [hkind] at hfacts
    exact absurd ((keyOf_norm_iff sc).1.mp hfacts.2) hsc.2
  | backspace => exact Or.inl rfl
  | char => exact Or.inr (Or.inl rfl)
  | ignored => exact Or.inr (Or.inr (Or.inl rfl))
  | tab => exact Or.inr (Or.inr (Or.inr rfl))

theorem keyKind_tab_iff (hctrl : k.ctrlLeftFlag = false ∧ k.ctrlRightFlag = false) :
    keyKind k sc = .tab ↔ sc = 0x0F := by
  constructor
  · intro h
    exact (keyOf_norm_iff sc).2.1.mp (keyFacts_of h)
  · rintro rfl
    unfold keyKind
    simp only [hctrl.1, hctrl.2, Bool.or_self, Bool.false_eq_true, false_and, if_false]
    rw [if_neg (by decide), if_neg (by decide), if_neg (fun h => absurd h.1 (by decide)),
      if_neg (by decide), if_pos (by decide)]

theorem pending_charKey (h0 : 0 ≤ k.bufferContentCounter) (h : k.bufferContentCounter < 128)
    (sc : UInt8) : pending (charKey k sc) = pending k ++ [keyOf (charTable k) sc] := by
  unfold charKey
  rw [if_pos h]
  unfold pending
  simp only
  rw [show (k.bufferContentCounter + 1).toNat = k.bufferContentCounter.toNat + 1 by omega,
    List.range_succ, List.map_append, List.map_singleton, Function.update_self]
  congr 1
  apply List.map_congr_left
  intro i hi
  rw [List.mem_range] at hi
  exact Function.update_of_ne (by omega) _ _

theorem pending_backspaceKey (h : 0 < k.bufferContentCounter) :
    pending (backspaceKey k) = (pending k).dropLast := by
  unfold backspaceKey
  simp only
  rw [if_pos h]
  unfold pending
  simp only
  rw [show k.bufferContentCounter.toNat = (k.bufferContentCounter - 1).toNat + 1 by omega,
    List.range_succ, List.map_append, List.map_singleton, List.dropLast_concat]
  apply List.map_congr_left
  intro i hi
  rw [List.mem_range] at hi
  exact Function.update_of_ne (by omega) _ _

theorem Synced.charKey (h : Synced k t) (sc : UInt8) : Synced (charKey k sc)
    (if k.bufferContentCounter < 128 then t ++ [keyOf (charTable k) sc] else t) := by
  obtain ⟨h0, hb, hctrl, hp⟩ := h
  by_cases hroom : k.bufferContentCounter < 128
  · have hp' := pending_charKey h0 hroom sc
    rw [if_pos hroom]
    rw [hp] at hp'
    refine ⟨?_, ?_, ?_, hp'⟩ <;> (unfold Kernel.charKey; rw [if_pos hroom])
    · simp only
      omega
    · simp only
      omega
    · exact hctrl
  · rw [if_neg hroom]
    unfold Kernel.charKey
    rw [if_neg hroom]
    exact ⟨h0, hb, hctrl, hp⟩

theorem Synced.backspaceKey (h : Synced k t) (hpos : 0 < k.backspacableCounter) :
    Synced (backspaceKey k) t.dropLast := by
  obtain ⟨h0, hb, hctrl, hp⟩ := h
  have hpend : 0 < k.bufferContentCounter := by omega
  have hp' := pending_backspaceKey hpend
  rw [hp] at hp'
  refine ⟨?_, ?_, ?_, hp'⟩ <;> (unfold Kernel.backspaceKey; simp only; rw [if_pos hpend])
  · simp only
    omega
  · simp only
    omega
  · exact hctrl

/-- **A key of a line other than TAB** does the same to the screen and to the pending line. -/
theorem Synced.key (h : Synced k t) (hsc : LineKey sc) (htab : sc ≠ 0x0F) :
    Synced (processKeyboardInput k sc []) (keyEcho k t sc) := by
  have hm := h.setModifiers hsc.1
  rw [processKeyboardInput_eq]
  unfold keyEcho
  generalize Kernel.setModifiers k sc = k₁ at *
  rcases keyKind_line hm.ctrl_up hsc with hkind | hkind | hkind | hkind
  · rw [hkind, echoOps_backspace hm.nonneg]
    exact hm.backspaceKey (keyFacts_of hkind)
  · have hecho : (echoOps k₁ sc [] .char).foldl echo t =
        if k₁.bufferContentCounter < 128 then t ++ [keyOf (charTable k₁) sc] else t := by
      simp only [echoOps]
      split <;> rfl
    rw [hkind, hecho]
    exact hm.charKey sc
  · rw [hkind]
    exact hm
  · exact absurd ((keyKind_tab_iff hm.ctrl_up).mp hkind) htab

/-- TAB echoes two blanks and keeps nothing. -/
theorem Synced.tab (h : Synced k t) :
    keyEcho k t 0x0F ≠ pending (processKeyboardInput k 0x0F []) := by
  have hm : Synced (Kernel.setModifiers k 0x0F) t := h.setModifiers (by decide)
  have hkind := (keyKind_tab_iff hm.ctrl_up).mpr rfl
  rw [processKeyboardInput_eq]
  unfold keyEcho
  rw [hkind]
  change t ++ [32] ++ [32] ≠ pending (Kernel.setModifiers k 0x0F)
  rw [hm.pending_eq]
  intro heq
  have hlen := congrArg List.length heq
  simp at hlen

/-! ## Whole lines -/

theorem forall_prefix_cons {α : Type} {P : List α → Prop} {a : α} {l : List α} :
    (∀ pre, pre <+: a :: l → P pre) ↔ P [] ∧ ∀ pre, pre <+: l → P (a :: pre) := by
  constructor
  · intro h
    exact ⟨h [] List.nil_prefix, fun pre hpre => h (a :: pre) ((List.prefix_cons_inj a).mpr hpre)⟩
  · rintro ⟨hnil, hcons⟩ pre hpre
    rcases List.prefix_cons_iff.mp hpre with rfl | ⟨pre', rfl, hpre'⟩
    · exact hnil
    · exact hcons pre' hpre'

theorem echoedFrom_pending_iff {keys : List UInt8} (h : Synced k t)
    (hkeys : ∀ sc ∈ keys, LineKey sc) :
    (∀ pre, pre <+: keys → echoedFrom k t pre = pending (typed k pre)) ↔ 0x0F ∉ keys := by
  induction keys generalizing k t with
  | nil =>
    refine iff_of_true ?_ (by simp)
    intro pre hpre
    rw [List.prefix_nil.mp hpre]
    exact h.pending_eq.symm
  | cons sc keys ih =>
    rw [List.forall_mem_cons] at hkeys
    rw [forall_prefix_cons, List.mem_cons, not_or]
    by_cases htab : sc = 0x0F
    · subst htab
      refine iff_of_false ?_ (fun hn => hn.1 rfl)
      -- the line and its echo part right behind the TAB
      rintro ⟨-, hpre⟩
      exact h.tab (hpre [] List.nil_prefix)
    · have hrest := ih (h.key hkeys.1 htab) hkeys.2
      constructor
      · rintro ⟨-, hpre⟩
        exact ⟨Ne.symm htab, hrest.mp hpre⟩
      · rintro ⟨-, hn⟩
        exact ⟨h.pending_eq.symm, hrest.mpr hn⟩

/-- **What is on screen is what is delivered, as long as TAB is not pressed.** From the start of a
line, after each of any keys but Ctrl and ENTER: the text echoed since the start of the line is the
pending line, and ENTER stores that text and a newline. -/
theorem echo_is_pending_iff (k : Keyboard) (keys : List UInt8) (hstart : LineStart k)
    (hkeys : ∀ sc ∈ keys, LineKey sc) :
    (∀ pre, pre <+: keys → echoed k pre = pending (typed k pre) ∧
      ∀ text, stored (processKeyboardInput (typed k pre) 0x1C text) = echoed k pre ++ [10]) ↔
      0x0F ∉ keys := by
  have hiff := echoedFrom_pending_iff hstart.synced hkeys
  rw [← hiff]
  constructor
  · exact fun h pre hpre => (h pre hpre).1
  · intro h pre hpre
    refine ⟨h pre hpre, fun text => ?_⟩
    have hline : completed (typed k pre) 0x1C = some (pending (typed k pre) ++ [10]) :=
      if_pos (by decide)
    rw [(key_enter text hline).1, ← h pre hpre]
    rfl

theorem lineStart_bootTerminal (s : Screen) : LineStart (bootTerminal s) := ⟨rfl, rfl, rfl, rfl⟩

/-- `a`, `b` and BACKSPACE: `a` is on screen and pending. -/
theorem echo_is_pending_iff_typed :
    echoed (bootTerminal bootKeyboard.screen) [0x1E, 0x30, 0x0E] = [97] ∧
    echoed (bootTerminal bootKeyboard.screen) [0x1E, 0x30, 0x0E] =
      pending (typed (bootTerminal bootKeyboard.screen) [0x1E, 0x30, 0x0E]) := by
  have hkeys : ∀ sc ∈ [0x1E, 0x30, 0x0E], LineKey sc := by
    intro sc hsc
    simp only [List.mem_cons, List.not_mem_nil, or_false] at hsc
    rcases hsc with rfl | rfl | rfl <;> exact ⟨by decide, by decide⟩
  have h := (echo_is_pending_iff _ _ (lineStart_bootTerminal bootKeyboard.screen) hkeys).mpr
    (by decide)
  exact ⟨by decide, (h _ List.prefix_rfl).1⟩

/-- `a`, TAB and BACKSPACE: `a` and a blank are on screen, nothing is pending, and ENTER stores a
newline alone. -/
theorem tab_parts_echo :
    LineStart (bootTerminal bootKeyboard.screen) ∧
    echoed (bootTerminal bootKeyboard.screen) [0x1E, 0x0F, 0x0E] = [97, 32] ∧
    pending (typed (bootTerminal bootKeyboard.screen) [0x1E, 0x0F, 0x0E]) = [] ∧
    stored (processKeyboardInput (typed (bootTerminal bootKeyboard.screen) [0x1E, 0x0F, 0x0E])
      0x1C []) = [10] := by
  refine ⟨lineStart_bootTerminal _, ?_, ?_, ?_⟩
  all_goals decide

/-! ## The line on the screen -/

/-- The document `base` with the line `t` behind it is on the screen, from a row of `base` on. -/
def Displayed (base : Page UInt8) (s : Screen) (t : List UInt8) : Prop :=
  (∀ c ∈ t, isBreak c = false) ∧ ∃ top, top ≤ base.done.length ∧
    Shows s (base.write isBreak 80 t) top

variable {base : Page UInt8} {s : Screen}

theorem Displayed.updateTerminalCursor (h : Displayed base s t) :
    Displayed base (Kernel.updateTerminalCursor s) t := by
  obtain ⟨hb, top, htop, h1, h2, h3, h4, h5, h6, h7⟩ := h
  exact ⟨hb, top, htop, h1, h2, h3, h4, h5, h6, h7⟩

/-- A line of at most 128 characters starts at most two rows above its end, so its start stays on
the screen. -/
theorem Displayed.putc (h : Displayed base s t) (hbase : base.last.length < 80)
    (hlen : t.length < 128) {c : UInt8} (hc : isBreak c = false) :
    Displayed base (Kernel.putc s c) (t ++ [c]) := by
  obtain ⟨hb, top, htop, hs⟩ := h
  have hb' : ∀ c' ∈ t ++ [c], isBreak c' = false := by
    rw [List.forall_mem_append]
    exact ⟨hb, by simpa using hc⟩
  have hpos := Page.position_write hb' 80 base
  have hputc := hs.putc c
  rw [← Page.write_snoc] at hputc
  rw [List.length_append, List.length_singleton] at hpos
  refine ⟨hb', _, ?_, hputc⟩
  split <;> omega

theorem Displayed.backSpace (h : Displayed base s t) (hbase : base.last.length < 80)
    (hne : t ≠ []) : Displayed base (Kernel.backSpace s) t.dropLast := by
  obtain ⟨hb, top, htop, hs⟩ := h
  obtain ⟨t', c, rfl⟩ := t.eq_nil_or_concat'.resolve_left hne
  rw [List.forall_mem_append] at hb
  rw [Page.write_snoc] at hs
  rw [List.dropLast_concat]
  have hlast := Page.length_last_write_lt isBreak (by decide : 0 < 80) hbase t'
  have hpos := Page.position_write hb.1 80 base
  exact ⟨hb.1, top, htop, hs.backSpace c (hb.2 c (List.mem_singleton_self c)) hlast (by omega)⟩

/-- A key of a line other than TAB keeps the line on the screen. -/
theorem Displayed.key (h : Displayed base k.screen t) (hbase : base.last.length < 80)
    (hsync : Synced k t) (hsc : LineKey sc) (htab : sc ≠ 0x0F) :
    Displayed base (processKeyboardInput k sc []).screen (keyEcho k t sc) := by
  have hm := hsync.setModifiers hsc.1
  rw [processKeyboardInput_eq, handleKey_screen]
  unfold keyEcho
  change Displayed base (Kernel.setModifiers k sc).screen t at h
  generalize Kernel.setModifiers k sc = k₁ at *
  have hlen := hm.length_eq
  rcases keyKind_line hm.ctrl_up hsc with hkind | hkind | hkind | hkind
  · have hpos : 0 < k₁.backspacableCounter := keyFacts_of hkind
    have hne : t ≠ [] := by
      rintro rfl
      have hb := hm.backspacable
      simp only [List.length_nil] at hlen
      omega
    rw [hkind, echoOps_backspace hm.nonneg]
    exact (h.backSpace hbase hne).updateTerminalCursor
  · have hc : isBreak (keyOf (charTable k₁) sc) = false :=
      decide_eq_false (not_or.mpr (char_ne_break hkind))
    rw [hkind]
    simp only [echoOps]
    split
    · exact (h.putc hbase (by omega) hc).updateTerminalCursor
    · exact h
  · rw [hkind]
    exact h
  · exact absurd ((keyKind_tab_iff hm.ctrl_up).mp hkind) htab

theorem displayed_run (hbase : base.last.length < 80) {keys : List UInt8} (hs : Synced k t)
    (hd : Displayed base k.screen t) (hkeys : ∀ sc ∈ keys, LineKey sc) (htab : 0x0F ∉ keys) :
    Displayed base (typed k keys).screen (pending (typed k keys)) := by
  induction keys generalizing k t with
  | nil =>
    change Displayed base k.screen (pending k)
    rw [hs.pending_eq]
    exact hd
  | cons sc keys ih =>
    rw [List.forall_mem_cons] at hkeys
    rw [List.mem_cons, not_or] at htab
    have hne : sc ≠ 0x0F := Ne.symm htab.1
    exact ih (hs.key hkeys.1 hne) (hd.key hbase hs hkeys.1 hne) hkeys.2 htab.2

/-- **The pending line is on the screen**, behind the document that was there at the start of the
line, as long as TAB is not pressed. -/
theorem screen_shows_line {keys : List UInt8} {top : Nat} (hstart : LineStart k)
    (hshows : Shows k.screen base top) (hkeys : ∀ sc ∈ keys, LineKey sc) (htab : 0x0F ∉ keys) :
    ∃ top', Shows (typed k keys).screen (base.write isBreak 80 (pending (typed k keys))) top' := by
  have hd : Displayed base k.screen [] := ⟨nofun, top, hshows.top_le, hshows⟩
  obtain ⟨-, top', -, h⟩ := displayed_run hshows.last_lt hstart.synced hd hkeys htab
  exact ⟨top', h⟩

end MyOS.Terminal
