import PagedMemory.Proofs.Changes

/-!
# What a space sees

A space sees the bytes of a page if the page is present (`View.seen`). Frames are shared,
copied and moved behind its back, but what it sees of a page changes only by a change that
is made to that very page (`Act.seen_of_spares`), and by each of these in a foreseeable way.
-/

namespace PagedMemory

/-- The change is not made to this page of the space. -/
def Change.Spares (s : Space) (k : Place) : Change → Prop
  | .fill s' k' _ | .expose s' k' | .store s' k' _ | .unmap s' k' | .install s' k' _ |
    .share _ _ s' k' _ => ¬ (s = s' ∧ k = k')
  | .create s' | .destroy s' => s ≠ s'
  | _ => True

namespace View

variable {v v' : View} {o o' : Owed} {s s' : Space} {k k' : Place} {e : Entry} {f : FrameId}
  {b : Frame}

/-- The bytes that a page shows, if it is present. -/
def seen (v : View) (s : Space) (k : Place) : Option Frame :=
  if (v.leaf s k).present then some (v.bytes (v.leaf s k).frame) else none

theorem seen_of_present (present : (v.leaf s k).present = true) :
    v.seen s k = some (v.bytes (v.leaf s k).frame) :=
  if_pos present

theorem seen_of_absent (absent : (v.leaf s k).present = false) : v.seen s k = none := by
  rw [seen, absent]
  rfl

theorem seen_congr (leaf : v'.leaf s k = v.leaf s k)
    (bytes : (v.leaf s k).present = true →
      v'.bytes (v.leaf s k).frame = v.bytes (v.leaf s k).frame) : v'.seen s k = v.seen s k := by
  unfold seen
  rw [leaf]
  split
  · next present => rw [bytes present]
  · rfl

/-- Giving the entry of another page makes no difference. -/
theorem seen_setLeaf_of_ne (e : Entry) (other : ¬ (s = s' ∧ k = k')) :
    (v.setLeaf s' k' e).seen s k = v.seen s k :=
  seen_congr (leaf_setLeaf_of_ne e other) fun _ => rfl

/-- Nor does giving the entry of this page other flags. -/
theorem seen_reflag (present : e.present = (v.leaf s' k').present)
    (frame : e.frame = (v.leaf s' k').frame) : (v.setLeaf s' k' e).seen s k = v.seen s k := by
  by_cases here : s = s' ∧ k = k'
  · obtain ⟨rfl, rfl⟩ := here
    unfold seen
    rw [leaf_setLeaf_self, present, frame]
    rfl
  · exact seen_setLeaf_of_ne e here

theorem seen_setBytes (b : Frame) (other : (v.leaf s k).present = true → (v.leaf s k).frame ≠ f) :
    (v.setBytes f b).seen s k = v.seen s k :=
  seen_congr rfl fun present => bytes_setBytes_of_ne b (other present)

/-- No page that is seen lies in a free frame. -/
theorem seen_grant (sound : v.Sound o) (hs : s ∈ v.live) (free : v.Free f) (b : Frame) :
    (v.grant f b).seen s k = v.seen s k := by
  refine seen_setBytes b fun present same => ?_
  exact sound.refers_ne_free (c := .leaf k) hs free (same ▸ refers_leaf present)

theorem seen_filled_self : (v.filled s k f b).seen s k = some b := by
  rw [seen_of_present (by rw [leaf_filled_self]; rfl), leaf_filled_self]
  exact congrArg some (if_pos rfl)

theorem seen_aliased_self (present : (v.leaf s k).present = true) :
    (v.aliased s k s' k').seen s' k' = v.seen s k := by
  rw [seen_of_present (by rw [leaf_aliased_self]; exact present), leaf_aliased_self,
    bytes_aliased, seen_of_present present]
  rfl

theorem seen_aliased_of_ne {s₁ : Space} {k₁ : Place} (other : ¬ (s₁ = s' ∧ k₁ = k')) :
    (v.aliased s k s' k').seen s₁ k₁ = v.seen s₁ k₁ := by
  unfold aliased
  split
  · have first : (v.setLeaf s k (v.leaf s k).writeProtected).seen s₁ k₁ = v.seen s₁ k₁ :=
      seen_reflag rfl rfl
    exact (seen_setLeaf_of_ne (v := v.setLeaf s k (v.leaf s k).writeProtected) _ other).trans first
  · exact seen_setLeaf_of_ne _ other

/-- A page that is moved shows what it did. -/
theorem seen_copied {s₁ : Space} {k₁ : Place} (sound : v.Sound o) (hs : s ∈ v.live)
    (hs₁ : s₁ ∈ v.live) (present : (v.leaf s k).present = true) (free : v.Free f) :
    (v.copied s k f).seen s₁ k₁ = v.seen s₁ k₁ := by
  by_cases here : s₁ = s ∧ k₁ = k
  · obtain ⟨rfl, rfl⟩ := here
    rw [seen_of_present (by rw [leaf_copied_self]; rfl), leaf_copied_self, seen_of_present present]
    exact congrArg some (if_pos rfl)
  · have granted := seen_grant (k := k₁) sound hs₁ free (v.bytes (v.leaf s k).frame)
    exact (seen_setLeaf_of_ne (v := v.grant f _) _ here).trans granted

/-- Only the page itself maps a frame that it can be written through. -/
theorem seen_store_of_ne (sound : v.Sound o) (hs : s' ∈ v.live) (hs₁ : s ∈ v.live)
    (present : (v.leaf s' k').present = true) (writable : (v.leaf s' k').writable = true)
    (other : ¬ (s = s' ∧ k = k')) :
    (v.setBytes (v.leaf s' k').frame b).seen s k = v.seen s k := by
  refine seen_setBytes b fun maps same => other ?_
  obtain ⟨tracked, one⟩ := sound.exclusive s' hs k' present writable
  obtain ⟨space, cell⟩ := sound.sole tracked one hs (refers_leaf present) hs₁
    (d := .leaf k) (same ▸ refers_leaf maps)
  exact ⟨space, Cell.leaf.inj cell⟩

theorem seen_store_self (present : (v.leaf s k).present = true) :
    (v.setBytes (v.leaf s k).frame b).seen s k = some b := by
  rw [seen_of_present (v := v.setBytes _ _) present]
  exact congrArg some (if_pos rfl)

theorem seen_unmapped_of_ne (other : ¬ (s = s' ∧ k = k')) :
    (v.unmapped s' k').seen s k = v.seen s k := by
  refine seen_congr (leaf_unmapped_of_ne other) fun _ => ?_
  rw [bytes_unmapped]

theorem seen_founded_of_ne (sound : v.Sound o) (free : v.Free s'.root) (hs : s ∈ v.live)
    (other : s ≠ s') : (v.founded s').seen s k = v.seen s k := by
  have granted := seen_grant (k := k) sound hs free Frame.zero
  have old : (v.founded s').leaf s k = (v.grant s'.root Frame.zero).leaf s k := if_neg other
  exact (seen_congr old fun _ => rfl).trans granted

theorem seen_founded_self : (v.founded s).seen s k = none := by
  refine seen_of_absent ?_
  rw [show (v.founded s).leaf s k = .zero from if_pos rfl]
  rfl

/-- What a space sees of a page changes only by changes that are made to the page. -/
theorem Act.seen_of_spares {c : Change} (act : Act v o c v' o') (sound : v.Sound o)
    (hs : s ∈ v.live) (spares : c.Spares s k) : v'.seen s k = v.seen s k := by
  cases act with
  | link hs' vacant free => exact seen_grant sound hs free _
  | fill hs' absent free =>
    exact (seen_setLeaf_of_ne (v := v.grant _ _) _ spares).trans (seen_grant sound hs free _)
  | share => exact seen_aliased_of_ne spares
  | expose => exact seen_setLeaf_of_ne _ spares
  | permit => exact seen_reflag rfl rfl
  | copy hs' present free => exact seen_copied sound hs' hs present free
  | touch => exact seen_reflag rfl rfl
  | store hs' present writable => exact seen_store_of_ne sound hs' hs present writable spares
  | unmap => exact seen_unmapped_of_ne spares
  | create free => exact seen_founded_of_ne sound free hs spares
  | destroy hs' shown =>
    refine seen_congr rfl fun present => shown _ ?_
    exact sound.not_hidden_of_leaf hs (refers_leaf present)
  | hold free => exact seen_grant sound hs free _
  | install =>
    unfold View.remap
    split <;> exact seen_setLeaf_of_ne _ spares
  | _ => rfl

end View

end PagedMemory
