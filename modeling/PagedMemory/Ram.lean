import PagedMemory.Frame
import PagedMemory.Halt

/-!
# Physical memory

The memory is an array of frames. Reaching for a frame past its end stops the
kernel. `modify` changes one frame and leaves the others alone.
-/

namespace PagedMemory

structure Ram where
  frames : Array Frame

namespace Ram

/-- Cleared memory of so many bytes, rounded down to whole frames. -/
def cleared (bytes : Nat) : Ram :=
  ⟨Array.replicate (bytes / 4096) Frame.zero⟩

def size (r : Ram) : Nat :=
  r.frames.size

def frame? (r : Ram) (f : FrameId) : Option Frame :=
  r.frames[f.index]?

def frame (r : Ram) (f : FrameId) : Except Halt Frame :=
  match r.frame? f with
  | some bytes => .ok bytes
  | none => .error (.outsideMemory f)

/-- The entry of the frame read as a directory or table. -/
def entry (r : Ram) (f : FrameId) (i : Slot) : Except Halt Entry :=
  match r.frame? f with
  | some bytes => .ok (bytes.entry i)
  | none => .error (.outsideMemory f)

def modify (r : Ram) (f : FrameId) (change : Frame → Frame) : Ram :=
  ⟨r.frames.modify f.index change⟩

@[simp] theorem size_modify (r : Ram) (f : FrameId) (change : Frame → Frame) :
    (r.modify f change).size = r.size := by
  simp [size, modify]

@[simp] theorem frame?_modify_self (r : Ram) (f : FrameId) (change : Frame → Frame) :
    (r.modify f change).frame? f = (r.frame? f).map change := by
  simp [frame?, modify, Array.getElem?_modify]

theorem frame?_modify_of_ne (r : Ram) {f g : FrameId} (change : Frame → Frame) (h : g ≠ f) :
    (r.modify f change).frame? g = r.frame? g := by
  have : f.index ≠ g.index := fun e => h (Page.ext e.symm)
  simp [frame?, modify, Array.getElem?_modify, this]

/-- A change that leaves the frame as it is. -/
theorem modify_of_fixed {r : Ram} {f : FrameId} {change : Frame → Frame}
    (fixed : ∀ bytes, r.frame? f = some bytes → change bytes = bytes) : r.modify f change = r := by
  unfold modify
  congr 1
  refine Array.ext (Array.size_modify ..) fun i _ inside => ?_
  rw [Array.getElem_modify]
  split
  · next same => exact fixed _ (Array.getElem?_eq_some_iff.mpr ⟨same ▸ inside, by simp only [same]⟩)
  · rfl

theorem modify_modify (r : Ram) (f : FrameId) (change change' : Frame → Frame) :
    (r.modify f change).modify f change' = r.modify f fun bytes => change' (change bytes) := by
  unfold modify
  congr 1
  refine Array.ext (by simp) fun i _ _ => ?_
  simp only [Array.getElem_modify]
  split <;> rfl

theorem entry_eq_ok_iff {r : Ram} {f : FrameId} {i : Slot} {e : Entry} :
    r.entry f i = .ok e ↔ ∃ bytes, r.frame? f = some bytes ∧ bytes.entry i = e := by
  unfold entry
  cases r.frame? f <;> simp

theorem frame?_eq_none_iff {r : Ram} {f : FrameId} : r.frame? f = none ↔ r.size ≤ f.index :=
  Array.getElem?_eq_none_iff

end Ram

end PagedMemory
