import PagedMemory.Machine

/-!
# Starting a machine

A machine starts with cleared memory and a pool in which only the reserved frames
are taken. It starts on an accepted layout only.
-/

namespace PagedMemory

namespace Machine

/-- A machine with cleared memory of the given size, which need not be the size that
the layout promises. -/
def start (config : Config) (layout : Layout) (valid : layout.Valid) (policy : Policy)
    (ramBytes : Nat) : Machine where
  ram := .cleared ramBytes
  pool := .boot layout policy valid
  flushes := 0
  config := config
  events := #[.framesAvailable (layout.trackedFrames - layout.reservedFrames) layout.trackedFrames]
  reads := #[]
  terminations := #[]

/-- A machine without a memory manager. A layout that is not accepted stops it. -/
def bare (layout : Layout) (policy : Policy) (ramBytes : Nat) : Except Halt Machine :=
  match verdict : layout.validate with
  | .ok () => .ok (start .standard layout (Layout.validate_eq_ok_iff.1 verdict) policy ramBytes)
  | .error cause => .error (.invalidLayout cause)

/-- A machine with the memory that its layout promises. -/
def boot (config : Config) (layout : Layout) (policy : Policy) : Except LayoutError Machine :=
  match verdict : layout.validate with
  | .ok () =>
    let valid := Layout.validate_eq_ok_iff.1 verdict
    let m := start config layout valid policy layout.high.value
    .ok { m with
      events := #[.memoryFound layout.high.value layout.mainStart.value] ++ m.events }
  | .error cause => .error cause

/-- The machine with an empty journal. -/
def forget (m : Machine) : Machine :=
  { m with events := #[], reads := #[], terminations := #[] }

end Machine

end PagedMemory
