import Mathlib.Data.List.ReduceOption
import PagedMemory.Boot
import PagedMemory.Space.Lifecycle
import PagedMemory.UserAccess

/-!
# Scripts

A script drives the memory manager without mention of any frame. Its instructions name a
space or a page by the number of the instruction that has given it out (`Handles`), and so
do the answers of the environment (`Scene`). The same script can therefore be played on
machines that hand out different frames. What a player can compare is the replies, in
which spaces and pages are left out (`Product.anonymous`).

Only what is still there can be named: a space until it is destroyed, a page until it is
freed or installed. An instruction that names anything else is not played.
-/

namespace PagedMemory

/-- What an instruction gives out. -/
inductive Product (S F : Type)
  | done
  | space (s : S)
  | page (f : F)
  | shared (yes : Bool)
  | resolved (how : Resolution)
  | bytes (read : List UInt8)
deriving DecidableEq

/-- The product as far as it is the same on all machines. -/
def Product.anonymous {S F : Type} : Product S F → Product Unit Unit
  | .done => .done
  | .space _ => .space ()
  | .page _ => .page ()
  | .shared yes => .shared yes
  | .resolved how => .resolved how
  | .bytes read => .bytes read

abbrev Reply := Except MemoryError (Product Unit Unit)

/-- What can be named, by the number of the instruction that has given it out. -/
abbrev Names (α : Type) := Nat → Option α

namespace Names

variable {α : Type}

def set (names : Names α) (i : Nat) (a : α) : Names α :=
  fun j => if j = i then some a else names j

def drop (names : Names α) (gone : List Nat) : Names α :=
  fun j => if j ∈ gone then none else names j

end Names

/-- The spaces and the pages in hand. -/
structure Handles where
  spaces : Names Space
  pages : Names FrameId

/-- An environment that names spaces by number. -/
structure Scene where
  current : Pid
  processes : List Pid
  space : Pid → Option Nat
  image : Pid → Option Image
  openCount : ExecutableId → Nat
  device : ExecutableId → DeviceId
  blockMap : ExecutableId → Nat → BlockNumber
  readBlock : DeviceId → BlockNumber → Except BlockError Block

def Scene.environment (scene : Scene) (h : Handles) : Environment where
  current := scene.current
  processes := scene.processes
  addressSpace pid := (scene.space pid).bind h.spaces
  image := scene.image
  openCount := scene.openCount
  device := scene.device
  blockMap := scene.blockMap
  readBlock := scene.readBlock

inductive Instruction
  | create (parent : Option Nat) (start : VirtualAddress) (size : Nat)
  | clear (space : Nat) (start : VirtualAddress) (size : Nat)
  | destroy (space : Nat) (start : VirtualAddress) (size : Nat)
  | allocPage
  | freePage (page : Nat)
  | install (space : Nat) (start : VirtualAddress) (pages : List (Option Nat))
  | mapEmpty (space : Nat) (va : VirtualAddress)
  | share (source : Nat) (address : VirtualAddress) (target : Nat) (goal : VirtualAddress)
  | fault (scene : Scene) (kind : FaultKind) (va : VirtualAddress)
  | verify (scene : Scene) (address : VirtualAddress) (size : Nat)
  | copyOut (scene : Scene) (address : VirtualAddress) (bytes : List UInt8)
  | copyIn (scene : Scene) (address : VirtualAddress) (length : Nat)

namespace Instruction

/-- What is asked of the memory manager, if all that is named is there. -/
def operation (h : Handles) : Instruction → Option (Attempt (Product Space FrameId))
  | .create none start size =>
    some do return .space (← Space.createFrom none start size)
  | .create (some parent) start size =>
    (h.spaces parent).map fun p => do return .space (← Space.createFrom (some p) start size)
  | .clear space start size =>
    (h.spaces space).map fun s => do
      s.clear start size
      return .done
  | .destroy space start size =>
    (h.spaces space).map fun s => do
      s.destroy start size
      return .done
  | .allocPage => some do return .page (← PagedMemory.allocPage)
  | .freePage page =>
    (h.pages page).map fun f => do
      release f
      return .done
  | .install space start pages =>
    if (∀ page ∈ pages.reduceOption, (h.pages page).isSome) ∧ pages.reduceOption.Nodup then
      (h.spaces space).map fun s => do
        s.installArguments start (pages.map (Option.bind · h.pages))
        return .done
    else none
  | .mapEmpty space va =>
    (h.spaces space).map fun s => do
      mapEmptyPage s va
      return .done
  | .share source address target goal =>
    (h.spaces source).bind fun s => (h.spaces target).map fun t => do
      return .shared (← tryToShare s address t goal)
  | .fault scene kind va => some do return .resolved (← handleFault (scene.environment h) kind va)
  | .verify scene address size =>
    some do
      verifyArea (scene.environment h) address size
      return .done
  | .copyOut scene address bytes =>
    some do
      copyToUser (scene.environment h) address bytes
      return .done
  | .copyIn scene address length =>
    some do return .bytes (← copyFromUser (scene.environment h) address length)

end Instruction

namespace Handles

def empty : Handles :=
  ⟨fun _ => none, fun _ => none⟩

/-- What is left to be named once an instruction has been played, whether it succeeds or
not. -/
def spend (h : Handles) : Instruction → Handles
  | .destroy space _ _ => { h with spaces := h.spaces.drop [space] }
  | .freePage page => { h with pages := h.pages.drop [page] }
  | .install _ _ pages => { h with pages := h.pages.drop pages.reduceOption }
  | _ => h

/-- What an instruction gives out can be named by its number. -/
def gain (h : Handles) (number : Nat) : Product Space FrameId → Handles
  | .space s => { h with spaces := h.spaces.set number s }
  | .page f => { h with pages := h.pages.set number f }
  | _ => h

def after (h : Handles) (number : Nat) (instruction : Instruction) :
    Except MemoryError (Product Space FrameId) → Handles
  | .ok product => (h.spend instruction).gain number product
  | .error _ => h.spend instruction

end Handles

/-- A script was played on a machine since its start without stopping it, with these replies. -/
inductive Plays (config : Config) (layout : Layout) (policy : Policy) :
    List Instruction → List Reply → Handles → Machine → Prop
  | start {m : Machine} (boot : Machine.boot config layout policy = .ok m) :
      Plays config layout policy [] [] .empty m
  | next {script : List Instruction} {replies : List Reply} {h : Handles} {m m' : Machine}
      {instruction : Instruction} {op : Attempt (Product Space FrameId)}
      {result : Except MemoryError (Product Space FrameId)}
      (before : Plays config layout policy script replies h m)
      (known : instruction.operation h = some op) (run : outcome op m = .ok (result, m')) :
      Plays config layout policy (script ++ [instruction])
        (replies ++ [result.map Product.anonymous]) (h.after script.length instruction result) m'

namespace Plays

variable {config : Config} {layout : Layout} {policy : Policy} {script : List Instruction}
  {instruction : Instruction} {replies : List Reply} {h : Handles} {m : Machine}

theorem of_nil (plays : Plays config layout policy [] replies h m) :
    replies = [] ∧ h = .empty ∧ Machine.boot config layout policy = .ok m := by
  generalize whole : ([] : List Instruction) = played at plays
  cases plays with
  | start boot => exact ⟨rfl, rfl, boot⟩
  | next => exact absurd whole.symm (List.append_ne_nil_of_right_ne_nil _ (List.cons_ne_nil _ _))

theorem of_concat (plays : Plays config layout policy (script ++ [instruction]) replies h m) :
    ∃ replies₀ h₀ m₀ op result, Plays config layout policy script replies₀ h₀ m₀ ∧
      instruction.operation h₀ = some op ∧ outcome op m₀ = .ok (result, m) ∧
      replies = replies₀ ++ [result.map Product.anonymous] ∧
      h = h₀.after script.length instruction result := by
  generalize whole : script ++ [instruction] = played at plays
  cases plays with
  | start => exact absurd whole (List.append_ne_nil_of_right_ne_nil _ (List.cons_ne_nil _ _))
  | next before known run =>
    obtain ⟨rfl, same⟩ := List.append_inj' whole rfl
    cases same
    exact ⟨_, _, _, _, _, before, known, run, rfl, rfl⟩

end Plays

end PagedMemory
