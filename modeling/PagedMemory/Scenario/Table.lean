/-!
# Tables by number

Processes and executables are known by a number. A table lists them in ascending
order of it, and holds at most one entry for each.
-/

namespace PagedMemory

structure Table (α : Type) where
  entries : List (Nat × α)

namespace Table

variable {α : Type}

def empty : Table α :=
  ⟨[]⟩

def find? (t : Table α) (key : Nat) : Option α :=
  t.entries.lookup key

def contains (t : Table α) (key : Nat) : Bool :=
  (t.find? key).isSome

private def insertEntry (key : Nat) (a : α) : List (Nat × α) → List (Nat × α)
  | [] => [(key, a)]
  | entry :: rest =>
    if key < entry.1 then (key, a) :: entry :: rest
    else if key = entry.1 then (key, a) :: rest
    else entry :: insertEntry key a rest

/-- Adds an entry, or replaces the one with the same number. -/
def insert (t : Table α) (key : Nat) (a : α) : Table α :=
  ⟨insertEntry key a t.entries⟩

def erase (t : Table α) (key : Nat) : Table α :=
  ⟨t.entries.filter fun entry => entry.1 != key⟩

/-- Changes an entry, if there is one. -/
def modify (t : Table α) (key : Nat) (change : α → α) : Table α :=
  ⟨t.entries.map fun entry => if entry.1 = key then (key, change entry.2) else entry⟩

def keys (t : Table α) : List Nat :=
  t.entries.map Prod.fst

def values (t : Table α) : List α :=
  t.entries.map Prod.snd

end Table

end PagedMemory
