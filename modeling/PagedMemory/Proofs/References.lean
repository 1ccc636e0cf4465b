import Mathlib.Algebra.BigOperators.Group.Finset.Basic
import Mathlib.Algebra.GroupWithZero.Nat
import Mathlib.Algebra.Order.BigOperators.Group.Finset
import Mathlib.Data.Fintype.BigOperators
import Mathlib.Data.Fintype.Prod
import Mathlib.Data.Fintype.Sum
import Mathlib.Tactic.DeriveFintype
import PagedMemory.Proofs.View

/-!
# Counting references

A space refers to frames from its cells: as its directory, as the page table that a
directory slot links, and as the page that an entry maps. `View.references` counts the
cells of all live spaces that refer to a frame.

A change of one cell moves one unit of that sum (`references_update`), and a frame with
a single reference is referred to by a single cell (`references_eq_one`). Nothing else
about the sum is used anywhere.
-/

namespace PagedMemory

/-- The places in which a space can refer to a frame. -/
inductive Cell
  | root
  | link (i : Slot)
  | leaf (k : Place)
deriving DecidableEq, Fintype

-- There are more than a million cells, and unification would start to list them.
attribute [irreducible] instFintypeCell

/-- One for the frame that is referred to, zero for every other one. -/
def hits (target : Option FrameId) : FrameId → Nat :=
  fun f => if target = some f then 1 else 0

@[simp] theorem hits_none : hits none = 0 := rfl

theorem hits_self (f : FrameId) : hits (some f) f = 1 :=
  if_pos rfl

theorem hits_of_ne {target : Option FrameId} {f : FrameId} (h : target ≠ some f) :
    hits target f = 0 :=
  if_neg h

theorem hits_le_one (target : Option FrameId) (f : FrameId) : hits target f ≤ 1 := by
  unfold hits
  split
  · exact Nat.le_refl 1
  · exact Nat.zero_le 1

/-- The cells of a space are its directory, its links and its entries. -/
def cells : Unit ⊕ Slot ⊕ Place ≃ Cell where
  toFun
    | .inl _ => .root
    | .inr (.inl i) => .link i
    | .inr (.inr k) => .leaf k
  invFun
    | .root => .inl ()
    | .link i => .inr (.inl i)
    | .leaf k => .inr (.inr k)
  left_inv := by rintro (_ | _ | _) <;> rfl
  right_inv := by rintro (_ | _ | _) <;> rfl

theorem sum_cells (g : Cell → Nat) :
    ∑ c : Cell, g c = g .root + ∑ i : Slot, g (.link i) + ∑ k : Place, g (.leaf k) := by
  have split : ∑ x : Unit ⊕ Slot ⊕ Place, g (cells x) = ∑ c : Cell, g c :=
    Fintype.sum_equiv cells _ _ fun _ => rfl
  rw [← split, Fintype.sum_sum_type, Fintype.sum_sum_type, Fintype.sum_unique, ← Nat.add_assoc]
  rfl

theorem sum_hits {ι : Type} [Fintype ι] (target : ι → Option FrameId) (f : FrameId) :
    ∑ i, hits (target i) f = (Finset.univ.filter fun i => target i = some f).card := by
  rw [Finset.card_filter]
  rfl

namespace View

variable {v w : View}

/-- The frame that a cell refers to. -/
def refers (v : View) (s : Space) : Cell → Option FrameId
  | .root => some s.root
  | .link i => v.link s i
  | .leaf k => (v.leaf s k).target

/-- How many cells of a space refer to a frame. -/
def uses (v : View) (s : Space) (f : FrameId) : Nat :=
  ∑ c : Cell, hits (v.refers s c) f

/-- How many cells of all live spaces refer to a frame. -/
def references (v : View) (f : FrameId) : Nat :=
  ∑ s ∈ v.live, v.uses s f

private theorem sum_update {ι : Type} [DecidableEq ι] {I : Finset ι} {k : ι} (hk : k ∈ I)
    (g g' : ι → Nat) (off : ∀ i ∈ I, i ≠ k → g' i = g i) :
    ∑ i ∈ I, g' i + g k = ∑ i ∈ I, g i + g' k := by
  have rest : ∑ i ∈ I.erase k, g' i = ∑ i ∈ I.erase k, g i :=
    Finset.sum_congr rfl fun i hi =>
      off i (Finset.mem_of_mem_erase hi) (Finset.ne_of_mem_erase hi)
  rw [← Finset.add_sum_erase I g hk, ← Finset.add_sum_erase I g' hk, rest]
  omega

/-- A change of one cell moves one reference. -/
theorem references_update {s : Space} {c : Cell} (hs : s ∈ v.live) (live : w.live = v.live)
    (off : ∀ s' ∈ v.live, ∀ c', (s' = s → c' ≠ c) → w.refers s' c' = v.refers s' c')
    (f : FrameId) :
    w.references f + hits (v.refers s c) f = v.references f + hits (w.refers s c) f := by
  have cells : w.uses s f + hits (v.refers s c) f = v.uses s f + hits (w.refers s c) f :=
    sum_update (Finset.mem_univ c) (fun c => hits (v.refers s c) f)
      (fun c => hits (w.refers s c) f) fun c' _ other => by rw [off s hs c' fun _ => other]
  have spaces : w.references f + v.uses s f = v.references f + w.uses s f := by
    rw [references, live]
    refine sum_update hs (fun s => v.uses s f) (fun s => w.uses s f) fun s' hs' other => ?_
    exact Finset.sum_congr rfl fun c' _ => by rw [off s' hs' c' fun same => absurd same other]
  omega

theorem references_congr (live : w.live = v.live)
    (same : ∀ s ∈ v.live, ∀ c, w.refers s c = v.refers s c) (f : FrameId) :
    w.references f = v.references f := by
  rw [references, live]
  refine Finset.sum_congr rfl fun s hs => Finset.sum_congr rfl fun c _ => ?_
  rw [same s hs c]

theorem uses_pos {s : Space} {c : Cell} {f : FrameId} (refers : v.refers s c = some f) :
    0 < v.uses s f := by
  have here : hits (v.refers s c) f ≤ v.uses s f := by
    unfold uses
    exact Finset.single_le_sum (f := fun c => hits (v.refers s c) f) (fun _ _ => Nat.zero_le _)
      (Finset.mem_univ c)
  rw [refers, hits_self] at here
  exact here

theorem uses_le_references {s : Space} (hs : s ∈ v.live) (f : FrameId) :
    v.uses s f ≤ v.references f :=
  Finset.single_le_sum (f := fun s => v.uses s f) (fun _ _ => Nat.zero_le _) hs

theorem references_pos {s : Space} {c : Cell} {f : FrameId} (hs : s ∈ v.live)
    (refers : v.refers s c = some f) : 0 < v.references f :=
  Nat.lt_of_lt_of_le (uses_pos refers) (uses_le_references hs f)

/-- Two cells of a space that refer to a frame are two references. -/
private theorem two_le_uses {s : Space} {c c' : Cell} {f : FrameId} (apart : c' ≠ c)
    (h : v.refers s c = some f) (h' : v.refers s c' = some f) : 2 ≤ v.uses s f := by
  have pair : ∑ d ∈ {c, c'}, hits (v.refers s d) f ≤ v.uses s f := by
    unfold uses
    exact Finset.sum_le_sum_of_subset (Finset.subset_univ _)
  rw [Finset.sum_pair apart.symm, h, h', hits_self] at pair
  exact pair

/-- A frame with one reference is referred to by one cell. -/
theorem references_eq_one {s s' : Space} {c c' : Cell} {f : FrameId} (one : v.references f ≤ 1)
    (hs : s ∈ v.live) (h : v.refers s c = some f) (hs' : s' ∈ v.live)
    (h' : v.refers s' c' = some f) : s' = s ∧ c' = c := by
  by_cases spaces : s' = s
  · subst spaces
    refine ⟨rfl, ?_⟩
    by_contra apart
    have := two_le_uses apart h h'
    have := uses_le_references hs' f
    omega
  · have pair : ∑ d ∈ {s, s'}, v.uses d f ≤ v.references f := by
      refine Finset.sum_le_sum_of_subset ?_
      intro d hd
      rcases Finset.mem_insert.mp hd with rfl | hd
      · exact hs
      · rwa [Finset.mem_singleton.mp hd]
    rw [Finset.sum_pair (Ne.symm spaces)] at pair
    have := uses_pos h
    have := uses_pos h'
    omega

/-! ## Several cells at once -/

/-- Where only one space has changed, the references have changed by what its cells have. -/
theorem references_exchange {s : Space} (hs : s ∈ v.live) (live : w.live = v.live)
    (others : ∀ s' ∈ v.live, s' ≠ s → ∀ c, w.refers s' c = v.refers s' c) (f : FrameId) :
    w.references f + v.uses s f = v.references f + w.uses s f := by
  rw [references, live]
  refine sum_update hs (fun s => v.uses s f) (fun s => w.uses s f) fun s' hs' other => ?_
  exact Finset.sum_congr rfl fun c _ => by rw [others s' hs' other c]

/-- The cells of a space refer to a frame more often by what its links and entries do. -/
theorem uses_add {s : Space} {f : FrameId} (a : Slot → Nat) (b : Place → Nat)
    (links : ∀ i, hits (w.link s i) f = hits (v.link s i) f + a i)
    (leaves : ∀ k, hits (w.leaf s k).target f = hits (v.leaf s k).target f + b k) :
    w.uses s f = v.uses s f + ∑ i, a i + ∑ k, b k := by
  have link : ∑ i, hits (w.refers s (.link i)) f =
      ∑ i, hits (v.refers s (.link i)) f + ∑ i, a i := by
    rw [← Finset.sum_add_distrib]
    exact Finset.sum_congr rfl fun i _ => links i
  have leaf : ∑ k, hits (w.refers s (.leaf k)) f =
      ∑ k, hits (v.refers s (.leaf k)) f + ∑ k, b k := by
    rw [← Finset.sum_add_distrib]
    exact Finset.sum_congr rfl fun k _ => leaves k
  have root : w.refers s .root = v.refers s .root := rfl
  rw [uses, uses, sum_cells, sum_cells, link, leaf, root]
  omega

/-! ## Spaces that come and go -/

/-- A space that maps nothing joins the live ones. -/
def opened (v : View) (s : Space) : View :=
  { v with
    live := insert s v.live
    link := fun s' i => if s' = s then none else v.link s' i
    leaf := fun s' k => if s' = s then .zero else v.leaf s' k }

/-- A space leaves the live ones; what its directory and tables held comes into sight. -/
def closed (v : View) (s : Space) (b : FrameId → Frame) : View :=
  { v with live := v.live.erase s, bytes := b }

theorem uses_eq_of_empty {s : Space} (links : ∀ i, v.link s i = none)
    (leaves : ∀ k, (v.leaf s k).target = none) (f : FrameId) :
    v.uses s f = hits (some s.root) f := by
  unfold uses
  refine Finset.sum_eq_single Cell.root ?_ fun absent => absurd (Finset.mem_univ _) absent
  intro c _ other
  cases c with
  | root => exact absurd rfl other
  | link i => simp only [refers, links, hits_none, Pi.zero_apply]
  | leaf k => simp only [refers, leaves, hits_none, Pi.zero_apply]

theorem references_opened {s : Space} (fresh : s ∉ v.live) (f : FrameId) :
    (v.opened s).references f = v.references f + hits (some s.root) f := by
  have new : (v.opened s).uses s f = hits (some s.root) f :=
    uses_eq_of_empty (fun _ => if_pos rfl) (fun _ => congrArg Entry.target (if_pos rfl)) f
  have others : ∑ s' ∈ v.live, (v.opened s).uses s' f = v.references f := by
    refine Finset.sum_congr rfl fun s' hs' => Finset.sum_congr rfl fun c _ => ?_
    have apart : s' ≠ s := fun same => fresh (same ▸ hs')
    cases c <;> simp only [refers, opened, if_neg apart]
  have whole : (v.opened s).references f =
      (v.opened s).uses s f + ∑ s' ∈ v.live, (v.opened s).uses s' f :=
    Finset.sum_insert fresh
  rw [whole, new, others, Nat.add_comm]

theorem references_closed {s : Space} (hs : s ∈ v.live) (b : FrameId → Frame) (f : FrameId) :
    v.references f = (v.closed s b).references f + v.uses s f := by
  rw [Nat.add_comm]
  exact (Finset.add_sum_erase v.live (fun s' => v.uses s' f) hs).symm

end View

end PagedMemory
