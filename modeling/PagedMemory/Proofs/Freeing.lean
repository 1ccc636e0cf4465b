import PagedMemory.Space.Range
import PagedMemory.Proofs.Changes

/-!
# Freeing a range

What freeing does is a function of the view: entry by entry the pages of a slot are
unmapped (`View.cleared`), then the page table is unlinked (`View.freedSlot`), and so
on for every slot of the range (`View.freed`). Other slots and other spaces do not
change, and no reference is left that the slots of the range have made.
-/

namespace PagedMemory

/-- The directory slot belongs to the range. -/
def InRange (start : VirtualAddress) (size : Nat) (i : Slot) : Prop :=
  start.directorySlot.val ≤ i.val ∧
    i.val < start.directorySlot.val + (size + 4194303) / 4194304

theorem mem_take_drop_allSlots (first count : Nat) {i : Slot} :
    i ∈ (allSlots.drop first).take count ↔ first ≤ i.val ∧ i.val < first + count := by
  unfold allSlots
  rw [List.mem_take_iff_getElem]
  simp only [List.length_drop, List.length_finRange, List.getElem_drop, List.getElem_finRange]
  constructor
  · rintro ⟨j, below, rfl⟩
    simp only [Fin.val_cast]
    omega
  · rintro ⟨above, below⟩
    refine ⟨i.val - first, by omega, Fin.ext ?_⟩
    simp only [Fin.val_cast]
    omega

/-- A range is accepted if it begins with a slot and ends within the directory. -/
theorem rangeSlots_eq_ok_iff {operation : RangeOperation} {start : VirtualAddress} {size : Nat}
    {slots : List Slot} :
    rangeSlots operation start size = .ok slots ↔ start.isAligned .large = true ∧
      start.directorySlot.val + (size + 4194303) / 4194304 ≤ 1024 ∧
      (allSlots.drop start.directorySlot.val).take ((size + 4194303) / 4194304) = slots := by
  unfold rangeSlots
  dsimp only
  by_cases aligned : start.isAligned .large = true
  · rw [if_neg (by simp [aligned])]
    by_cases fits : start.directorySlot.val + (size + 4194303) / 4194304 ≤ 1024
    · rw [if_pos fits, Except.ok.injEq]
      exact ⟨fun same => ⟨aligned, fits, same⟩, fun ⟨_, _, same⟩ => same⟩
    · rw [if_neg fits]
      exact ⟨nofun, fun ⟨_, within, _⟩ => absurd within fits⟩
  · rw [if_pos (by simp [aligned])]
    exact ⟨nofun, fun ⟨whole, _⟩ => absurd whole aligned⟩

theorem mem_rangeSlots_iff {operation : RangeOperation} {start : VirtualAddress} {size : Nat}
    {slots : List Slot} (range : rangeSlots operation start size = .ok slots) {i : Slot} :
    i ∈ slots ↔ InRange start size i := by
  obtain ⟨-, -, rfl⟩ := rangeSlots_eq_ok_iff.mp range
  exact mem_take_drop_allSlots _ _

/-- The changes that freeing some directory slots of a space may make. -/
inductive Frees (s : Space) (slots : List Slot) : Change → Prop
  | note : Frees s slots .note
  | unmap {i j : Slot} (inside : i ∈ slots) : Frees s slots (.unmap s (i, j))
  | unlink {i : Slot} (inside : i ∈ slots) : Frees s slots (.unlink s i)

theorem Frees.lasting {s : Space} {slots : List Slot} {c : Change} (h : Frees s slots c)
    (s' : Space) : c ≠ .create s' ∧ c ≠ .destroy s' := by
  cases h <;> exact ⟨nofun, nofun⟩

theorem Frees.sparing {s : Space} {slots : List Slot} {c : Change} (h : Frees s slots c) :
    c.Sparing := by
  cases h <;> trivial

namespace View

variable {v : View} {o : Owed} {s s' : Space} {i i' : Slot} {js slots : List Slot}

/-- Entries under one directory slot are cleared in turn. -/
def cleared (v : View) (s : Space) (i : Slot) (js : List Slot) : View :=
  js.foldl (fun v j => v.unmapped s (i, j)) v

/-- The page table of a directory slot is given up with all that it maps. -/
def freedSlot (v : View) (s : Space) (i : Slot) : View :=
  match v.link s i with
  | some t => (v.cleared s i allSlots).unlinked s i t
  | none => v

def freed (v : View) (s : Space) (slots : List Slot) : View :=
  slots.foldl (fun v i => v.freedSlot s i) v

@[simp] theorem cleared_cons (j : Slot) (js : List Slot) :
    v.cleared s i (j :: js) = (v.unmapped s (i, j)).cleared s i js := rfl

@[simp] theorem freed_cons (i : Slot) (slots : List Slot) :
    v.freed s (i :: slots) = (v.freedSlot s i).freed s slots := rfl

@[simp] theorem link_cleared (v : View) (s : Space) (i : Slot) (js : List Slot) :
    (v.cleared s i js).link = v.link := by
  induction js generalizing v with
  | nil => rfl
  | cons j js ih => rw [cleared_cons, ih, link_unmapped]

@[simp] theorem live_cleared (v : View) (s : Space) (i : Slot) (js : List Slot) :
    (v.cleared s i js).live = v.live := by
  induction js generalizing v with
  | nil => rfl
  | cons j js ih => rw [cleared_cons, ih, live_unmapped]

theorem leaf_cleared_of_ne {k : Place} (other : ¬ (s' = s ∧ k.1 = i)) :
    (v.cleared s i js).leaf s' k = v.leaf s' k := by
  induction js generalizing v with
  | nil => rfl
  | cons j js ih =>
    rw [cleared_cons, ih, leaf_unmapped_of_ne]
    rintro ⟨same, rfl⟩
    exact other ⟨same, rfl⟩

theorem leaf_cleared_of_zero {j : Slot} (zero : v.leaf s (i, j) = .zero) :
    (v.cleared s i js).leaf s (i, j) = .zero := by
  induction js generalizing v with
  | nil => exact zero
  | cons j' js ih =>
    refine ih ?_
    by_cases same : j' = j
    · rw [same, leaf_unmapped_self]
    · rwa [leaf_unmapped_of_ne fun h => same (congrArg Prod.snd h.2).symm]

theorem leaf_cleared_of_mem {j : Slot} (hj : j ∈ js) :
    (v.cleared s i js).leaf s (i, j) = .zero := by
  induction js generalizing v with
  | nil => cases hj
  | cons j' js ih =>
    rcases List.mem_cons.mp hj with rfl | hj
    · rw [cleared_cons]
      exact leaf_cleared_of_zero (leaf_unmapped_self v s (i, _))
    · exact ih hj

theorem link_freedSlot (v : View) (s : Space) (i : Slot) (s' : Space) (i' : Slot) :
    (v.freedSlot s i).link s' i' = if s' = s ∧ i' = i then none else v.link s' i' := by
  unfold freedSlot
  split
  · rw [link_unlinked, link_cleared]
  · next vacant =>
    split
    · next here => rw [here.1, here.2, vacant]
    · rfl

@[simp] theorem live_freedSlot (v : View) (s : Space) (i : Slot) :
    (v.freedSlot s i).live = v.live := by
  unfold freedSlot
  split
  · rw [live_unlinked, live_cleared]
  · rfl

theorem leaf_freedSlot_of_ne {k : Place} (other : ¬ (s' = s ∧ k.1 = i)) :
    (v.freedSlot s i).leaf s' k = v.leaf s' k := by
  unfold freedSlot
  split
  · rw [leaf_unlinked, leaf_cleared_of_ne other]
  · rfl

/-- The slots of the range are vacant afterwards, and no others are changed. -/
theorem link_freed (v : View) (s : Space) (slots : List Slot) (s' : Space) (i' : Slot) :
    (v.freed s slots).link s' i' = if s' = s ∧ i' ∈ slots then none else v.link s' i' := by
  induction slots generalizing v with
  | nil => rw [if_neg fun h => List.not_mem_nil h.2]; rfl
  | cons i slots ih =>
    rw [freed_cons, ih, link_freedSlot]
    by_cases same : s' = s
    · by_cases here : i' = i
      · simp [same, here]
      · simp [same, here]
    · simp [same]

theorem leaf_freed_of_ne {k : Place} (other : ¬ (s' = s ∧ k.1 ∈ slots)) :
    (v.freed s slots).leaf s' k = v.leaf s' k := by
  induction slots generalizing v with
  | nil => rfl
  | cons i slots ih =>
    rw [freed_cons, ih fun h => other ⟨h.1, List.mem_cons_of_mem _ h.2⟩, leaf_freedSlot_of_ne]
    rintro ⟨same, rfl⟩
    exact other ⟨same, List.mem_cons_self⟩

/-! ## As sequences of changes -/

theorem acts_cleared (hs : s ∈ v.live) (inside : i ∈ slots) (js : List Slot) :
    Acts (Frees s slots) v o (v.cleared s i js) o := by
  induction js generalizing v with
  | nil => exact .refl
  | cons j js ih =>
    refine (Acts.single (.unmap inside) (.unmap hs)).trans (ih ?_)
    rwa [live_unmapped]

theorem acts_freedSlot (hs : s ∈ v.live) (inside : i ∈ slots) :
    Acts (Frees s slots) v o (v.freedSlot s i) o := by
  unfold freedSlot
  split
  · next t linked =>
    refine (acts_cleared hs inside allSlots).tail (.unlink inside) (.unlink ?_ ?_ fun j => ?_)
    · rwa [live_cleared]
    · rwa [link_cleared]
    · exact leaf_cleared_of_mem (mem_allSlots j)
  · exact .refl

theorem acts_freed (hs : s ∈ v.live) {whole : List Slot} (inside : ∀ i ∈ slots, i ∈ whole) :
    Acts (Frees s whole) v o (v.freed s slots) o := by
  induction slots generalizing v with
  | nil => exact .refl
  | cons i slots ih =>
    refine (acts_freedSlot hs (inside i List.mem_cons_self)).trans (ih ?_ fun i' h => ?_)
    · rwa [live_freedSlot]
    · exact inside i' (List.mem_cons_of_mem _ h)

end View

namespace Machine.Shows

variable {m : Machine} {v : View} {o : Owed} {s : Space}

theorem dropEntry (shows : m.Shows v) (sound : v.Sound o) (hs : s ∈ v.live) {i : Slot}
    {t : FrameId} (linked : v.link s i = some t) (j : Slot) :
    Ends (Space.dropEntry t j) m Exhausts fun _ m' => m'.Shows (v.unmapped s (i, j)) := by
  refine (shows.readLeaf sound.separate hs linked j).bind ?_
  rintro e m₁ ⟨rfl, shows₁⟩
  unfold View.unmapped
  split
  · next present =>
    have target := View.refers_leaf present
    rw [View.refers] at target
    rw [target]
    refine (shows₁.release sound.fits (sound.mapped s hs _ present)
      (sound.not_free hs (c := .leaf (i, j)) target)).bind fun _ m₂ shows₂ => ?_
    exact shows₂.writeLeaf { sound.separate with } hs linked j .zero
  · next absent =>
    rw [Entry.target_eq_none_iff.mpr (Bool.not_eq_true _ ▸ absent)]
    exact shows₁.writeLeaf sound.separate hs linked j .zero

theorem dropEntries (sound : v.Sound o) (hs : s ∈ v.live) {i : Slot} {t : FrameId}
    (linked : v.link s i = some t) (js : List Slot) (m : Machine) (shows : m.Shows v) :
    Ends (js.forM (Space.dropEntry t)) m Exhausts fun _ m' => m'.Shows (v.cleared s i js) := by
  induction js generalizing m v with
  | nil => exact Ends.pure shows
  | cons j js ih =>
    refine (shows.dropEntry sound hs linked j).bind fun _ m₁ shows₁ => ?_
    refine ih (sound.unmapped hs) ?_ ?_ m₁ shows₁
    · rwa [View.live_unmapped]
    · rwa [View.link_unmapped]

/-- All that matters about the list of slots is that none is missing from it. -/
private theorem freeTable (shows : m.Shows v) (sound : v.Sound o) (hs : s ∈ v.live) (i : Slot)
    {js : List Slot} (all : ∀ j, j ∈ js) :
    Ends (do
        match ← inspect fun m => s.tableAt m.ram i with
        | none => pure ()
        | some table =>
          js.forM (Space.dropEntry table)
          PagedMemory.release table
          writeEntry s.root i .zero : Kernel Unit) m Exhausts
      fun _ m' => m'.Shows
        (match v.link s i with
        | some t => (v.cleared s i js).unlinked s i t
        | none => v) := by
  refine (shows.tableAt sound.separate hs i).bind ?_
  rintro found m₁ ⟨rfl, shows₁⟩
  cases linked : v.link s i with
  | none => exact Ends.pure shows₁
  | some t =>
    refine (dropEntries sound hs linked js m₁ shows₁).bind fun _ m₂ shows₂ => ?_
    have hs' : s ∈ (v.cleared s i js).live := by rwa [View.live_cleared]
    have linked' : (v.cleared s i js).link s i = some t := by rwa [View.link_cleared]
    have ready := (View.acts_cleared hs (List.mem_singleton_self i) js).sound sound
    obtain ⟨tracked, one⟩ := ready.table s hs' i t linked'
    refine (shows₂.release ready.fits (ready.fits.inside tracked)
      (ready.not_free hs' (c := .link i) linked')).bind fun _ m₃ shows₃ => ?_
    exact shows₃.writeUnlinked { ready.separate with } hs' linked' (View.free_release tracked one)
      fun j => View.leaf_cleared_of_mem (all j)

theorem freeSlot (shows : m.Shows v) (sound : v.Sound o) (hs : s ∈ v.live) (i : Slot) :
    Ends (s.freeSlot i) m Exhausts fun _ m' => m'.Shows (v.freedSlot s i) :=
  shows.freeTable sound hs i mem_allSlots

theorem freeSlots (sound : v.Sound o) (hs : s ∈ v.live) (slots : List Slot) (m : Machine)
    (shows : m.Shows v) :
    Ends (slots.forM s.freeSlot) m Exhausts fun _ m' => m'.Shows (v.freed s slots) := by
  induction slots generalizing m v with
  | nil => exact Ends.pure shows
  | cons i slots ih =>
    refine (shows.freeSlot sound hs i).bind fun _ m₁ shows₁ => ?_
    refine ih ((View.acts_freedSlot hs (List.mem_singleton_self i)).sound sound) ?_ m₁ shows₁
    rwa [View.live_freedSlot]

theorem freeRange (shows : m.Shows v) (sound : v.Sound o) (hs : s ∈ v.live)
    {start : VirtualAddress} {size : Nat} {slots : List Slot}
    (range : rangeSlots .free start size = .ok slots) :
    Ends (s.freeRange start size) m Exhausts fun _ m' => m'.Shows (v.freed s slots).flushed := by
  unfold Space.freeRange
  refine Ends.bind (P := fun found m' => found = slots ∧ m'.Shows v)
    (Ends.demand range ⟨rfl, shows⟩) ?_
  rintro _ m₁ ⟨rfl, shows₁⟩
  refine (freeSlots sound hs _ m₁ shows₁).bind fun _ m₂ shows₂ => ?_
  refine (shows₂.remark _).bind fun _ m₃ shows₃ => ?_
  exact shows₃.flush

end Machine.Shows

end PagedMemory
