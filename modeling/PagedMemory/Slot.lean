import PagedMemory.Address

/-!
# Slots of the two-level tables

A linear address selects a slot of the page directory by its top ten bits and a
slot of a page table by the next ten. The pair of slots names a small page:
`splitSlots` and `Slot.join` are inverse between the pages and the pairs.
-/

namespace PagedMemory

/-- A position in a page directory or a page table. -/
abbrev Slot := Fin 1024

/-- Every slot, in ascending order. -/
def allSlots : List Slot :=
  List.finRange 1024

namespace Slot

def ofNat? (n : Nat) : Option Slot :=
  if h : n < 1024 then some ⟨n, h⟩ else none

/-- The first linear address that a directory slot covers. -/
def base (directory : Slot) : VirtualAddress :=
  ⟨directory.val * 4194304, by omega⟩

/-- The first linear address that a table slot under a directory slot covers. -/
def join (directory table : Slot) : VirtualAddress :=
  ⟨directory.val * 4194304 + table.val * 4096, by omega⟩

def directoryText (directory : Slot) : String :=
  "DirIndex(" ++ toString directory.val ++ ")"

def tableText (table : Slot) : String :=
  "TableIndex(" ++ toString table.val ++ ")"

end Slot

namespace Address

/-- The directory slot that covers a linear address. -/
def directorySlot (va : VirtualAddress) : Slot :=
  ⟨va.value / 4194304, by have := va.value_lt; omega⟩

/-- The slot, in the table of its directory slot, that covers a linear address. -/
def tableSlot (va : VirtualAddress) : Slot :=
  ⟨va.value / 4096 % 1024, by omega⟩

def splitSlots (va : VirtualAddress) : Slot × Slot :=
  (va.directorySlot, va.tableSlot)

@[simp] theorem directorySlot_join (directory table : Slot) :
    (Slot.join directory table).directorySlot = directory := by
  ext
  simp only [directorySlot, Slot.join]
  omega

@[simp] theorem tableSlot_join (directory table : Slot) :
    (Slot.join directory table).tableSlot = table := by
  ext
  simp only [tableSlot, Slot.join]
  omega

/-- Joining the slots of an address gives the start of its page. -/
theorem join_slots (va : VirtualAddress) :
    Slot.join va.directorySlot va.tableSlot = va.alignDown .small := by
  ext
  rw [value_alignDown]
  simp only [directorySlot, tableSlot, Slot.join, PageSize.bytes]
  omega

@[simp] theorem directorySlot_alignDown (va : VirtualAddress) :
    (va.alignDown .small).directorySlot = va.directorySlot := by
  rw [← join_slots, directorySlot_join]

@[simp] theorem tableSlot_alignDown (va : VirtualAddress) :
    (va.alignDown .small).tableSlot = va.tableSlot := by
  rw [← join_slots, tableSlot_join]

@[simp] theorem splitSlots_alignDown (va : VirtualAddress) :
    (va.alignDown .small).splitSlots = va.splitSlots := by
  simp only [splitSlots, directorySlot_alignDown, tableSlot_alignDown]

/-- Two addresses have the same slots if they lie in the same page. -/
theorem splitSlots_eq_iff {va va' : VirtualAddress} :
    va.splitSlots = va'.splitSlots ↔ va.value / 4096 = va'.value / 4096 := by
  rw [splitSlots, splitSlots, Prod.mk.injEq, directorySlot, directorySlot, tableSlot, tableSlot,
    Fin.mk.injEq, Fin.mk.injEq]
  omega

end Address

@[simp] theorem mem_allSlots (i : Slot) : i ∈ allSlots :=
  List.mem_finRange i

theorem nodup_allSlots : allSlots.Nodup :=
  List.nodup_finRange 1024

end PagedMemory
