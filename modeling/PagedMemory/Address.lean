import PagedMemory.Text.Hex

/-!
# Addresses, pages and offsets

An address is a number below 4 GiB together with the memory it refers to. Pages
come in two sizes; a page is kept as its index, so that it is aligned by
construction, and an offset is kept below the size of its page. Splitting an
address into page and offset and joining the two are inverse to each other.
-/

namespace PagedMemory

/-- The memory an address refers to: either one, or that before or behind the page tables. -/
inductive AddressKind
  | memory
  | virtual
  | physical
deriving DecidableEq

inductive PageSize
  | small
  | large
deriving DecidableEq

namespace PageSize

/-- The binary logarithm of the size in bytes. -/
def shift : PageSize → Nat
  | small => 12
  | large => 22

def bytes : PageSize → Nat
  | small => 4096
  | large => 4194304

/-- How many pages of this size make up 4 GiB. -/
def count : PageSize → Nat
  | small => 1048576
  | large => 1024

def text : PageSize → String
  | small => "4K"
  | large => "4M"

theorem bytes_eq (s : PageSize) : s.bytes = 1 <<< s.shift := by
  cases s <;> rfl

@[simp] theorem count_mul_bytes (s : PageSize) : s.count * s.bytes = 4294967296 := by
  cases s <;> rfl

theorem bytes_pos (s : PageSize) : 0 < s.bytes := by
  cases s <;> decide

end PageSize

@[ext] structure Address (kind : AddressKind) where
  value : Nat
  value_lt : value < 4294967296
deriving DecidableEq

@[ext] structure Page (kind : AddressKind) (size : PageSize) where
  index : Nat
  index_lt : index < size.count
deriving DecidableEq

@[ext] structure Offset (size : PageSize) where
  value : Nat
  value_lt : value < size.bytes
deriving DecidableEq

abbrev VirtualAddress := Address .virtual

abbrev PhysicalAddress := Address .physical

/-- A frame is a small page of physical memory, named by its index. -/
abbrev FrameId := Page .physical .small

namespace Page

variable {kind : AddressKind} {size : PageSize}

/-- The page that starts at address zero. -/
def first : Page kind size :=
  ⟨0, by cases size <;> decide⟩

def ofIndex? (n : Nat) : Option (Page kind size) :=
  if h : n < size.count then some ⟨n, h⟩ else none

theorem join_lt (p : Page kind size) (o : Offset size) :
    p.index * size.bytes + o.value < 4294967296 := by
  have page := p.index_lt
  have offset := o.value_lt
  cases size <;> simp only [PageSize.count, PageSize.bytes] at * <;> omega

/-- The address at an offset into the page. -/
def join (p : Page kind size) (o : Offset size) : Address kind :=
  ⟨p.index * size.bytes + o.value, p.join_lt o⟩

/-- The first address of the page. -/
def base (p : Page kind size) : Address kind :=
  p.join ⟨0, size.bytes_pos⟩

@[simp] theorem value_join (p : Page kind size) (o : Offset size) :
    (p.join o).value = p.index * size.bytes + o.value := rfl

@[simp] theorem value_base (p : Page kind size) :
    p.base.value = p.index * size.bytes := rfl

end Page

namespace Offset

variable {size : PageSize}

def ofValue? (n : Nat) : Option (Offset size) :=
  if h : n < size.bytes then some ⟨n, h⟩ else none

end Offset

namespace Address

variable {kind : AddressKind}

def zero : Address kind :=
  ⟨0, by decide⟩

def ofValue? (n : Nat) : Option (Address kind) :=
  if h : n < 4294967296 then some ⟨n, h⟩ else none

/-- The address `n` bytes further on, unless that lies past the end. -/
def add? (a : Address kind) (n : Nat) : Option (Address kind) :=
  ofValue? (a.value + n)

/-- The address `n` bytes further on, going round to zero past the end. -/
def wrappingAdd (a : Address kind) (n : Nat) : Address kind :=
  ⟨(a.value + n) % 4294967296, Nat.mod_lt _ (by decide)⟩

/-- The distance from an address that does not lie above. -/
def offsetFrom? (a origin : Address kind) : Option Nat :=
  if origin.value ≤ a.value then some (a.value - origin.value) else none

def page (size : PageSize) (a : Address kind) : Page kind size :=
  ⟨a.value / size.bytes, by
    rw [Nat.div_lt_iff_lt_mul size.bytes_pos, PageSize.count_mul_bytes]
    exact a.value_lt⟩

def offset (size : PageSize) (a : Address kind) : Offset size :=
  ⟨a.value % size.bytes, Nat.mod_lt _ size.bytes_pos⟩

def split (size : PageSize) (a : Address kind) : Page kind size × Offset size :=
  (a.page size, a.offset size)

/-- The first address of the page that holds `a`. -/
def alignDown (size : PageSize) (a : Address kind) : Address kind :=
  (a.page size).base

def isAligned (size : PageSize) (a : Address kind) : Bool :=
  a.value % size.bytes == 0

@[simp] theorem join_split (size : PageSize) (a : Address kind) :
    (a.page size).join (a.offset size) = a := by
  ext
  exact Nat.div_add_mod' a.value size.bytes

@[simp] theorem page_join {size : PageSize} (p : Page kind size) (o : Offset size) :
    (p.join o).page size = p := by
  ext
  simp only [page, Page.value_join]
  rw [Nat.add_comm, Nat.add_mul_div_right _ _ size.bytes_pos, Nat.div_eq_of_lt o.value_lt,
    Nat.zero_add]

@[simp] theorem offset_join {size : PageSize} (p : Page kind size) (o : Offset size) :
    (p.join o).offset size = o := by
  ext
  simp only [offset, Page.value_join]
  rw [Nat.add_comm, Nat.add_mul_mod_self_right, Nat.mod_eq_of_lt o.value_lt]

@[simp] theorem page_base {size : PageSize} (p : Page kind size) :
    p.base.page size = p :=
  page_join p _

theorem value_alignDown (size : PageSize) (a : Address kind) :
    (a.alignDown size).value = a.value - a.value % size.bytes := by
  simp only [alignDown, Page.value_base, page]
  have := Nat.div_add_mod' a.value size.bytes
  omega

theorem alignDown_of_aligned {size : PageSize} {a : Address kind}
    (aligned : a.isAligned size = true) : a.alignDown size = a := by
  simp only [isAligned, beq_iff_eq] at aligned
  ext
  rw [value_alignDown, aligned, Nat.sub_zero]

@[simp] theorem page_alignDown (size : PageSize) (a : Address kind) :
    (a.alignDown size).page size = a.page size :=
  page_base _

end Address

namespace AddressKind

/-- The name an address of this kind carries in diagnostics. -/
def addressName : AddressKind → String
  | memory => "MemoryAddress"
  | virtual => "VA"
  | physical => "PA"

def pageName : AddressKind → String
  | memory => "MemoryPage"
  | virtual => "VirtualPage"
  | physical => "PhysicalPage"

end AddressKind

namespace Address

variable {kind : AddressKind}

def text (a : Address kind) : String :=
  Text.hexUpper 8 a.value

/-- The text with the kind of address named. -/
def namedText (a : Address kind) : String :=
  kind.addressName ++ "(" ++ a.text ++ ")"

end Address

namespace Page

variable {kind : AddressKind} {size : PageSize}

def text (p : Page kind size) : String :=
  p.base.text ++ "/" ++ size.text

/-- The text with the kind of page named. -/
def namedText (p : Page kind size) : String :=
  kind.pageName ++ "<" ++ size.text ++ ">(" ++ p.base.text ++ ")"

end Page

namespace Offset

variable {size : PageSize}

/-- The text with the size of the page named. -/
def namedText (o : Offset size) : String :=
  "Offset<" ++ size.text ++ ">(" ++ Text.hexUpper 0 o.value ++ ")"

end Offset

end PagedMemory
