import PagedMemory.Proofs.Lifecycle

/-!
# The space of the kernel

The directory and the tables of the kernel lie below the tracked frames and map nothing
else (`Identity`). That holds of cleared memory, where the kernel has no tables yet, and
after `Space.initKernel`; as nothing below the tracked frames is ever written to, it
holds ever after. This is all that cloning the space of the kernel needs.
-/

namespace PagedMemory

theorem Space.kernelTable_ne_root (i : Slot) : kernelTable i ≠ kernel.root :=
  fun same => Nat.succ_ne_zero i.val (congrArg Page.index same)

/-- The entries of a table map some of the first frames only. -/
def MapsBelow (pages : Nat) (x : Frame) : Prop :=
  ∀ j, (x.entry j).present = true → (x.entry j).frame.index < pages

theorem MapsBelow.zero (pages : Nat) : MapsBelow pages Frame.zero := by
  intro j present
  rw [Frame.entry_zero] at present
  cases present

theorem MapsBelow.setEntry {pages : Nat} {x : Frame} {i : Slot} {e : Entry}
    (below : MapsBelow pages x) (h : e.frame.index < pages) : MapsBelow pages (x.setEntry i e) := by
  intro j present
  by_cases same : j = i
  · rw [same, Frame.entry_setEntry_self]
    exact h
  · rw [Frame.entry_setEntry_of_ne _ _ same] at present ⊢
    exact below j present

/-- Whatever the kernel maps is one of the first `pages` frames. -/
def Identity (pages : Nat) (b : FrameId → Frame) : Prop :=
  ∀ i t, ((b Space.kernel.root).entry i).target = some t →
    t = Space.kernelTable i ∧ i.val * 1024 < pages ∧ MapsBelow pages (b t)

namespace View

variable {v : View} {o : Owed}

/-- The bytes of any frames are replaced. -/
def stored (v : View) (b : FrameId → Frame) : View :=
  { v with bytes := b }

theorem Sound.stored (sound : v.Sound o) (b : FrameId → Frame) : (v.stored b).Sound o :=
  { sound with }

/-- How many frames lie below the tracked ones. -/
def lowPages (v : View) : Nat :=
  v.layout.low.value / 4096

theorem Fits.untracked_of_lt (fits : v.Fits) {f : FrameId} (below : f.index < v.lowPages) :
    ¬ v.tracks f = true ∧ f.index < v.size := by
  have size := fits.2
  have low := fits.1.low_le
  have main := fits.1.mainStart_le
  have aligned := fits.1.aligned.1
  simp only [Address.isAligned, PageSize.bytes, beq_iff_eq] at aligned
  unfold lowPages at below
  rw [tracks_iff]
  omega

/-- Two frames below the tracked ones have room for the directory and the tables. -/
theorem Fits.kernelTable (fits : v.Fits) (room : 8192 ≤ v.layout.low.value) {i : Slot}
    (used : i.val * 1024 < v.lowPages) :
    ¬ v.tracks (Space.kernelTable i) = true ∧ (Space.kernelTable i).index < v.size := by
  refine fits.untracked_of_lt ?_
  unfold lowPages at used ⊢
  show i.val + 1 < _
  omega

theorem Fits.kernelRoot (fits : v.Fits) (room : 8192 ≤ v.layout.low.value) :
    ¬ v.tracks Space.kernel.root = true ∧ Space.kernel.root.index < v.size := by
  refine fits.untracked_of_lt ?_
  unfold lowPages
  show 0 < _
  omega

/-- A kernel that maps the first frames only maps nothing that is counted. -/
theorem Quiet.of_identity (fits : v.Fits) (room : 8192 ≤ v.layout.low.value)
    (identity : Identity v.lowPages v.bytes) : v.Quiet Space.kernel where
  root := fits.kernelRoot room
  table i t linked := by
    obtain ⟨rfl, used, -⟩ := identity i t linked
    exact fits.kernelTable room used
  page i t linked j present := fits.untracked_of_lt ((identity i t linked).2.2 j present)

end View

/-- Cleared memory holds no tables of the kernel. -/
theorem Identity.of_zero {pages : Nat} {b : FrameId → Frame}
    (zero : b Space.kernel.root = Frame.zero) : Identity pages b := by
  intro i t linked
  rw [zero, Frame.entry_zero] at linked
  cases linked

/-- Storing in a frame that is not the directory, with entries that are allowed. -/
theorem Identity.store {pages : Nat} {b : FrameId → Frame} {f : FrameId} {x : Frame}
    (identity : Identity pages b) (other : f ≠ Space.kernel.root)
    (entries : MapsBelow pages x) :
    Identity pages (fun g => if g = f then x else b g) := by
  intro i t linked
  dsimp only at linked
  rw [if_neg other.symm] at linked
  obtain ⟨table, used, maps⟩ := identity i t linked
  refine ⟨table, used, ?_⟩
  dsimp only
  split
  · exact entries
  · exact maps

/-- Linking a table whose entries are allowed. -/
theorem Identity.link {pages : Nat} {b : FrameId → Frame} {i : Slot} (identity : Identity pages b)
    (used : i.val * 1024 < pages) (entries : MapsBelow pages (b (Space.kernelTable i))) :
    Identity pages (fun g => if g = Space.kernel.root then
      (b Space.kernel.root).setEntry i (.link (Space.kernelTable i)) else b g) := by
  intro i' t linked
  dsimp only at linked ⊢
  rw [if_pos rfl] at linked
  by_cases same : i' = i
  · subst same
    rw [Frame.entry_setEntry_self] at linked
    obtain rfl : Space.kernelTable i' = t := Option.some.inj linked
    rw [if_neg (Space.kernelTable_ne_root i')]
    exact ⟨rfl, used, entries⟩
  · rw [Frame.entry_setEntry_of_ne _ _ same] at linked
    obtain ⟨rfl, rest⟩ := identity i' t linked
    rw [if_neg (Space.kernelTable_ne_root i')]
    exact ⟨rfl, rest⟩

namespace Machine.Shows

variable {m : Machine} {v : View} {o : Owed}

/-- Only memory below the tracked frames differs from the view, and the tables of the
kernel are in order. -/
def Prepared (v : View) (table : Option FrameId) (m : Machine) : Prop :=
  ∃ b, (∀ f, v.tracks f = true → b f = v.bytes f) ∧ Identity v.lowPages b ∧
    (∀ t, table = some t → MapsBelow v.lowPages (b t)) ∧ m.Shows (v.stored b)

/-- A store below the tracked frames. -/
private theorem storeLow {f : FrameId} {change : Frame → Frame} {b : FrameId → Frame}
    (shows : m.Shows (v.stored b)) (sound : v.Sound o)
    (low : ¬ v.tracks f = true ∧ f.index < v.size) (same : ∀ f, v.tracks f = true → b f = v.bytes f) :
    Ends (PagedMemory.modifyFrame f change) m Exhausts fun _ m' =>
      (∀ g, v.tracks g = true → (if g = f then change (b f) else b g) = v.bytes g) ∧
      m'.Shows (v.stored fun g => if g = f then change (b f) else b g) := by
  refine (shows.modifyFrame change low.2
    ((sound.stored b).not_hidden_of_untracked low.1)).mono fun _ m' shows' => ⟨?_, shows'⟩
  intro g tracked
  rw [if_neg, same g tracked]
  rintro rfl
  exact low.1 tracked

theorem mapIdentity (sound : v.Sound o) (room : 8192 ≤ v.layout.low.value) {i : Slot}
    (used : i.val * 1024 < v.lowPages) (m : Machine) (ready : Prepared v none m) :
    Ends (Space.mapIdentity v.lowPages i) m Exhausts fun _ m' => Prepared v none m' := by
  obtain ⟨b, same, identity, -, shows⟩ := ready
  have table := sound.fits.kernelTable room used
  have apart := Space.kernelTable_ne_root i
  refine (shows.storeLow sound table same).bind ?_
  rintro _ m₁ ⟨same₁, shows₁⟩
  refine (Ends.forM (fun rest m' => (∀ j ∈ rest, i.val * 1024 + j.val < v.lowPages) ∧
    Prepared v (some (Space.kernelTable i)) m') ?_ _ m₁ ⟨?_, _, same₁, ?_, ?_, shows₁⟩).bind ?_
  · rintro j rest m₂ ⟨below, b₂, same₂, identity₂, maps₂, shows₂⟩
    refine (shows₂.storeLow sound table same₂).mono ?_
    rintro _ m₃ ⟨same₃, shows₃⟩
    have entries : MapsBelow v.lowPages ((b₂ (Space.kernelTable i)).setEntry j
        (.make (Space.identityFrame i j) .userWritable)) :=
      (maps₂ _ rfl).setEntry (below j List.mem_cons_self)
    refine ⟨fun j' h => below j' (List.mem_cons_of_mem _ h), _, same₃,
      identity₂.store apart entries, ?_, shows₃⟩
    rintro t same
    cases same
    rwa [if_pos rfl]
  · intro j h
    exact of_decide_eq_true (List.mem_filter.mp h).2
  · exact identity.store apart (MapsBelow.zero _)
  · rintro t same
    cases same
    rw [if_pos rfl]
    exact MapsBelow.zero _
  · rintro _ m₂ ⟨-, b₂, same₂, identity₂, maps₂, shows₂⟩
    refine (shows₂.storeLow sound (sound.fits.kernelRoot room) same₂).mono ?_
    rintro _ m₃ ⟨same₃, shows₃⟩
    exact ⟨_, same₃, identity₂.link used (maps₂ _ rfl), nofun, shows₃⟩

/-- Making the space of the kernel changes memory that nobody counts, and nothing else. -/
theorem initKernel (shows : m.Shows v) (sound : v.Sound o) (room : 8192 ≤ v.layout.low.value) :
    Ends Space.initKernel m Exhausts fun s m' => s = Space.kernel ∧ ∃ b,
      (∀ f, v.tracks f = true → b f = v.bytes f) ∧
      (v.stored b).flushed.Quiet Space.kernel ∧ m'.Shows (v.stored b).flushed := by
  unfold Space.initKernel
  refine Ends.bind (P := fun l m' => l = v.layout ∧ m'.Shows v)
    (Ends.inspect rfl ⟨shows.layout, shows⟩) ?_
  rintro _ m₁ ⟨rfl, shows₁⟩
  refine (shows₁.storeLow (b := v.bytes) sound (sound.fits.kernelRoot room) fun _ _ => rfl).bind ?_
  rintro _ m₂ ⟨same₂, shows₂⟩
  refine (Ends.forM (fun rest m' => (∀ i ∈ rest, i.val * 1024 < v.lowPages) ∧ Prepared v none m')
    ?_ _ m₂ ⟨?_, _, same₂, .of_zero (if_pos rfl), nofun, shows₂⟩).bind ?_
  · rintro i rest m₃ ⟨below, ready⟩
    refine (mapIdentity sound room (below i List.mem_cons_self) m₃ ready).mono fun _ m₄ ready₄ => ?_
    exact ⟨fun i' h => below i' (List.mem_cons_of_mem _ h), ready₄⟩
  · intro i h
    exact of_decide_eq_true (List.mem_filter.mp h).2
  · rintro _ m₃ ⟨-, b, same₃, identity, -, shows₃⟩
    refine shows₃.flush.bind fun _ m₄ shows₄ => ?_
    refine (shows₄.remark _).bind fun _ m₅ shows₅ => ?_
    exact Ends.pure ⟨rfl, b, same₃, .of_identity sound.fits room identity, shows₅⟩

end Machine.Shows

end PagedMemory
