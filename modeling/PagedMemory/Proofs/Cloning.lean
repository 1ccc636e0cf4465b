import PagedMemory.Proofs.Freeing

/-!
# Cloning a range

The parent is a live space or one whose tables are not counted, like that of the
kernel, which maps nothing that is counted either (`View.Quiet`). Cloning an entry is a
function of the view, and so is cloning a table; which frames become the tables of the
child is left open by `View.Cloned`, the relation between the views before and after.

A clone that was completed has, in each place, a read-only copy of what the parent maps
there, and the parent keeps no more rights to a page that is counted (`Cloned.leaf`). No
entry of any other space is changed by it.
-/

namespace PagedMemory

/-- What a page shows of its entry, whatever the rights to it are. -/
def Entry.page (e : Entry) : Option (FrameId × Bool) :=
  if e.present then some (e.frame, e.dirty) else none

@[simp] theorem Entry.page_writeProtected (e : Entry) : e.writeProtected.page = e.page := rfl

theorem Entry.page_eq_none_iff {e : Entry} : e.page = none ↔ e.present = false := by
  simp [page]

/-- The changes that cloning some directory slots into a child may make. Only the pages of
a parent that is not live are exposed. -/
inductive Clones (live : Finset Space) (parent child : Space) (slots : List Slot) : Change → Prop
  | note : Clones live parent child slots .note
  | link {i : Slot} (inside : i ∈ slots) : Clones live parent child slots (.link child i)
  | share {k : Place} {e : Entry} (inside : k.1 ∈ slots) :
      Clones live parent child slots (.share parent k child k e)
  | expose {k : Place} (inside : k.1 ∈ slots) (foreign : parent ∉ live) :
      Clones live parent child slots (.expose child k)

theorem Clones.lasting {live : Finset Space} {parent child : Space} {slots : List Slot}
    {c : Change} (h : Clones live parent child slots c) (s : Space) :
    c ≠ .create s ∧ c ≠ .destroy s := by
  cases h <;> exact ⟨nofun, nofun⟩

theorem Clones.sparing {live : Finset Space} {parent child : Space} {slots : List Slot}
    {c : Change} (h : Clones live parent child slots c) : c.Sparing := by
  cases h <;> trivial

namespace View

variable {v v' : View} {o o' : Owed} {parent child : Space}

def page (v : View) (s : Space) (k : Place) : Option (FrameId × Bool) :=
  (v.leaf s k).page

/-- The directory and the tables are not counted, nor is anything that they map. -/
structure Quiet (v : View) (p : Space) : Prop where
  root : ¬ v.tracks p.root = true ∧ p.root.index < v.size
  table : ∀ i t, ((v.bytes p.root).entry i).target = some t →
    ¬ v.tracks t = true ∧ t.index < v.size
  page : ∀ i t, ((v.bytes p.root).entry i).target = some t → ∀ j,
    ((v.bytes t).entry j).present = true →
      ¬ v.tracks ((v.bytes t).entry j).frame = true ∧ ((v.bytes t).entry j).frame.index < v.size

/-- A space can be cloned if it is live or maps nothing that is counted. -/
def Parent (v : View) (p : Space) : Prop :=
  p ∈ v.live ∨ v.Quiet p

/-- The page table of a parent. -/
def sourceLink (v : View) (p : Space) (i : Slot) : Option FrameId :=
  if p ∈ v.live then v.link p i else ((v.bytes p.root).entry i).target

/-- The entry of a parent. -/
def sourceLeaf (v : View) (p : Space) (k : Place) : Entry :=
  if p ∈ v.live then v.leaf p k
  else
    match ((v.bytes p.root).entry k.1).target with
    | some t => (v.bytes t).entry k.2
    | none => .zero

/-- The entry of a space when a place of the parent has been cloned. The parent loses the right
to write to a page that is counted. -/
def sharedLeaf (v : View) (parent child s : Space) (k : Place) : Entry :=
  if (v.sourceLeaf parent k).present = true ∧ (s = child ∨
      s = parent ∧ s ∈ v.live ∧ v.tracks (v.sourceLeaf parent k).frame = true) then
    (v.sourceLeaf parent k).writeProtected
  else v.leaf s k

def clonedEntry (v : View) (parent child : Space) (k : Place) : View :=
  if (v.sourceLeaf parent k).present then
    if parent ∈ v.live then v.aliased parent k child k
    else v.setLeaf child k (v.sourceLeaf parent k).writeProtected
  else v

def clonedTable (v : View) (parent child : Space) (i : Slot) (js : List Slot) : View :=
  js.foldl (fun v j => v.clonedEntry parent child (i, j)) v

/-- Slots were cloned in turn, up to the first one for which no page table was left. -/
inductive Cloned (parent child : Space) (js : List Slot) :
    List Slot → View → Option Slot → View → Prop
  | done {v : View} : Cloned parent child js [] v none v
  | vacant {v v' : View} {i : Slot} {rest : List Slot} {left : Option Slot}
      (vacant : v.sourceLink parent i = none) (more : Cloned parent child js rest v left v') :
      Cloned parent child js (i :: rest) v left v'
  | full {v : View} {i : Slot} {rest : List Slot} {t : FrameId}
      (linked : v.sourceLink parent i = some t) (full : ∀ f, ¬ v.Free f) :
      Cloned parent child js (i :: rest) v (some i) v
  | table {v v' : View} {i : Slot} {rest : List Slot} {left : Option Slot} {t g : FrameId}
      (linked : v.sourceLink parent i = some t) (free : v.Free g)
      (more : Cloned parent child js rest
        ((v.linked child i g).clonedTable parent child i js) left v') :
      Cloned parent child js (i :: rest) v left v'

/-! ## Parents -/

theorem Quiet.acts {allowed : Change → Prop} {p : Space} (quiet : v.Quiet p)
    (acts : Acts allowed v o v' o') (sound : v.Sound o) : v'.Quiet p := by
  have size := acts.setting.2.1
  have root : v'.bytes p.root = v.bytes p.root := acts.untracked sound quiet.root.1
  have table {i : Slot} {t : FrameId} (linked : ((v.bytes p.root).entry i).target = some t) :
      v'.bytes t = v.bytes t := acts.untracked sound (quiet.table i t linked).1
  refine ⟨?_, fun i t linked => ?_, fun i t linked j present => ?_⟩
  · rw [acts.tracks, size]
    exact quiet.root
  · rw [acts.tracks, size]
    exact quiet.table i t (root ▸ linked)
  · rw [root] at linked
    rw [table linked] at present ⊢
    rw [acts.tracks, size]
    exact quiet.page i t linked j present

/-- A quiet space is not live. -/
theorem Quiet.not_live {p : Space} (quiet : v.Quiet p) (sound : v.Sound o) : p ∉ v.live :=
  fun live => quiet.root.1 (sound.root p live).1

theorem sourceLeaf_of_live {p : Space} (live : p ∈ v.live) (k : Place) :
    v.sourceLeaf p k = v.leaf p k := if_pos live

/-- What a quiet space maps is not counted. -/
theorem Quiet.sourceLeaf {p : Space} (quiet : v.Quiet p) (sound : v.Sound o) {k : Place}
    (present : (v.sourceLeaf p k).present = true) :
    ¬ v.tracks (v.sourceLeaf p k).frame = true ∧ (v.sourceLeaf p k).frame.index < v.size := by
  unfold View.sourceLeaf at present ⊢
  rw [if_neg (quiet.not_live sound)] at present ⊢
  split at present
  · next t linked =>
    exact quiet.page k.1 t linked k.2 present
  · cases present

/-! ## Single entries -/

section Entries

variable {s : Space} {k k' : Place}

theorem leaf_aliased_of_ne {s' s₁ : Space} {k₁ : Place} (source : ¬ (s₁ = s ∧ k₁ = k))
    (target : ¬ (s₁ = s' ∧ k₁ = k')) : (v.aliased s k s' k').leaf s₁ k₁ = v.leaf s₁ k₁ := by
  unfold aliased
  split
  · exact (leaf_setLeaf_of_ne _ target).trans (leaf_setLeaf_of_ne _ source)
  · exact leaf_setLeaf_of_ne _ target

/-- An entry that is shared maps the same frame as before. -/
theorem target_aliased_of_ne {s' s₁ : Space} {k₁ : Place} (other : ¬ (s₁ = s' ∧ k₁ = k')) :
    ((v.aliased s k s' k').leaf s₁ k₁).target = (v.leaf s₁ k₁).target := by
  by_cases source : s₁ = s ∧ k₁ = k
  · obtain ⟨rfl, rfl⟩ := source
    unfold aliased
    split
    · have lapsed : ((v.setLeaf s₁ k₁ (v.leaf s₁ k₁).writeProtected).setLeaf s' k'
          (v.leaf s₁ k₁).writeProtected).leaf s₁ k₁ = (v.leaf s₁ k₁).writeProtected :=
        (leaf_setLeaf_of_ne _ other).trans (leaf_setLeaf_self _ s₁ k₁ _)
      exact (congrArg Entry.target lapsed).trans rfl
    · exact congrArg Entry.target (leaf_setLeaf_of_ne _ other)
  · rw [leaf_aliased_of_ne source other]

/-- Where a page is mapped a second time at the same place of another space. -/
theorem leaf_aliased (v : View) (s s' s₁ : Space) (k : Place) :
    (v.aliased s k s' k).leaf s₁ k =
      if s₁ = s' ∨ s₁ = s ∧ v.tracks (v.leaf s k).frame = true then (v.leaf s k).writeProtected
      else v.leaf s₁ k := by
  by_cases target : s₁ = s'
  · rw [if_pos (.inl target), target, leaf_aliased_self]
  · have other : ¬ (s₁ = s' ∧ k = k) := fun h => target h.1
    unfold aliased
    split
    · next tracked =>
      have first := leaf_setLeaf_of_ne (v := v.setLeaf s k (v.leaf s k).writeProtected)
        (v.leaf s k).writeProtected other
      refine first.trans ?_
      by_cases source : s₁ = s
      · rw [if_pos (.inr ⟨source, tracked⟩), source, leaf_setLeaf_self]
      · rw [if_neg fun h => h.elim target fun h => source h.1,
          leaf_setLeaf_of_ne _ fun h => source h.1]
    · next untracked =>
      rw [if_neg fun h => h.elim target fun h => untracked h.2, leaf_setLeaf_of_ne _ other]

@[simp] theorem link_clonedEntry (v : View) (parent child : Space) (k : Place) :
    (v.clonedEntry parent child k).link = v.link := by
  unfold clonedEntry
  split
  · split
    · rw [link_aliased]
    · rfl
  · rfl

@[simp] theorem live_clonedEntry (v : View) (parent child : Space) (k : Place) :
    (v.clonedEntry parent child k).live = v.live := by
  unfold clonedEntry
  split
  · split
    · rw [live_aliased]
    · rfl
  · rfl

@[simp] theorem bytes_clonedEntry (v : View) (parent child : Space) (k : Place) :
    (v.clonedEntry parent child k).bytes = v.bytes := by
  unfold clonedEntry
  split
  · split
    · rw [bytes_aliased]
    · rfl
  · rfl

@[simp] theorem layout_clonedEntry (v : View) (parent child : Space) (k : Place) :
    (v.clonedEntry parent child k).layout = v.layout := by
  unfold clonedEntry
  split
  · split
    · rw [layout_aliased]
    · rfl
  · rfl

theorem leaf_clonedEntry_of_ne {s₁ : Space} {k₁ : Place} (other : k₁ ≠ k) :
    (v.clonedEntry parent child k).leaf s₁ k₁ = v.leaf s₁ k₁ := by
  unfold clonedEntry
  split
  · split
    · exact leaf_aliased_of_ne (fun h => other h.2) fun h => other h.2
    · exact leaf_setLeaf_of_ne _ fun h => other h.2
  · rfl

theorem leaf_clonedEntry_self (v : View) (parent child s : Space) (k : Place) :
    (v.clonedEntry parent child k).leaf s k = v.sharedLeaf parent child s k := by
  unfold clonedEntry sharedLeaf
  by_cases present : (v.sourceLeaf parent k).present = true
  · by_cases live : parent ∈ v.live
    · rw [if_pos present, if_pos live, sourceLeaf_of_live live] at *
      rw [leaf_aliased]
      refine if_congr ?_ rfl rfl
      constructor
      · rintro (rfl | ⟨rfl, tracked⟩)
        · exact ⟨present, .inl rfl⟩
        · exact ⟨present, .inr ⟨rfl, live, tracked⟩⟩
      · rintro ⟨-, rfl | ⟨rfl, -, tracked⟩⟩
        · exact .inl rfl
        · exact .inr ⟨rfl, tracked⟩
    · rw [if_pos present, if_neg live]
      by_cases target : s = child
      · rw [if_pos ⟨present, .inl target⟩, target, leaf_setLeaf_self]
      · rw [leaf_setLeaf_of_ne _ fun h => target h.1, if_neg]
        rintro ⟨-, same | ⟨rfl, here, -⟩⟩
        · exact target same
        · exact live here
  · rw [if_neg present, if_neg fun h => present h.1]

theorem acts_clonedEntry {slots : List Slot} (sound : v.Sound o) (ok : v.Parent parent)
    (hs : child ∈ v.live) (blank : (v.leaf child k).present = false) (inside : k.1 ∈ slots) :
    Acts (Clones v.live parent child slots) v o (v.clonedEntry parent child k) o := by
  unfold clonedEntry
  split
  · next present =>
    split
    · next live =>
      rw [sourceLeaf_of_live live] at present
      exact .single (.share inside) (.share live hs present blank)
    · next foreign =>
      obtain ⟨untracked, inside'⟩ := (ok.resolve_left foreign).sourceLeaf sound present
      exact .single (.expose inside foreign) (.expose hs blank inside' untracked)
  · exact .refl

end Entries

/-! ## Tables and ranges -/

/-- A view in which some slots of a child can be filled by cloning. -/
structure Ready (v : View) (o : Owed) (parent child : Space) (slots : List Slot) : Prop where
  sound : v.Sound o
  source : v.Parent parent
  target : child ∈ v.live
  apart : parent ≠ child
  distinct : slots.Nodup
  vacant : ∀ i ∈ slots, v.link child i = none
  blank : ∀ i ∈ slots, ∀ j, (v.leaf child (i, j)).present = false

theorem Parent.acts {allowed : Change → Prop} {p : Space} (ok : v.Parent p)
    (acts : Acts allowed v o v' o') (sound : v.Sound o) (live : v'.live = v.live) : v'.Parent p := by
  rcases ok with hp | quiet
  · exact .inl (live ▸ hp)
  · exact .inr (quiet.acts acts sound)

theorem sourceLink_congr {p : Space} {i : Slot} (live : v'.live = v.live)
    (link : p ∈ v.live → v'.link p i = v.link p i)
    (bytes : p ∉ v.live → v'.bytes p.root = v.bytes p.root) :
    v'.sourceLink p i = v.sourceLink p i := by
  unfold sourceLink
  rw [live]
  split
  · next hp => exact link hp
  · next foreign => rw [bytes foreign]

theorem sourceLeaf_congr {p : Space} {k : Place} (live : v'.live = v.live)
    (leaf : v'.leaf p k = v.leaf p k)
    (root : p ∉ v.live → v'.bytes p.root = v.bytes p.root)
    (table : ∀ t, p ∉ v.live → ((v.bytes p.root).entry k.1).target = some t →
      v'.bytes t = v.bytes t) :
    v'.sourceLeaf p k = v.sourceLeaf p k := by
  unfold sourceLeaf
  rw [live, leaf]
  split
  · rfl
  · next foreign =>
    rw [root foreign]
    split
    · next t linked => rw [table t foreign linked]
    · rfl

theorem sharedLeaf_congr {s : Space} {k : Place} (live : v'.live = v.live)
    (layout : v'.layout = v.layout) (leaf : v'.leaf s k = v.leaf s k)
    (source : v'.sourceLeaf parent k = v.sourceLeaf parent k) :
    v'.sharedLeaf parent child s k = v.sharedLeaf parent child s k := by
  have tracks (f : FrameId) : v'.tracks f = v.tracks f := by
    simp only [View.tracks, layout]
  simp only [sharedLeaf, tracks, live, leaf, source]

/-- Beside the child, cloning a place changes at most the rights to it. -/
theorem target_sharedLeaf {s : Space} {k : Place} (other : s ≠ child) :
    (v.sharedLeaf parent child s k).target = (v.leaf s k).target := by
  unfold sharedLeaf
  split
  · next shared =>
    obtain ⟨-, rfl, live, -⟩ := shared.imp_right fun h => h.resolve_left other
    rw [sourceLeaf_of_live live]
    rfl
  · rfl

/-- The child gets a read-only copy of what the parent maps. -/
theorem sharedLeaf_self (v : View) (parent child : Space) (k : Place) :
    v.sharedLeaf parent child child k =
      if (v.sourceLeaf parent k).present = true then (v.sourceLeaf parent k).writeProtected
      else v.leaf child k :=
  if_congr (and_iff_left (.inl rfl)) rfl rfl

/-- The child maps what the parent does. -/
theorem target_sharedLeaf_self {k : Place} (blank : (v.leaf child k).target = none) :
    (v.sharedLeaf parent child child k).target = (v.sourceLeaf parent k).target := by
  rw [sharedLeaf_self]
  split
  · rfl
  · next absent =>
    rw [blank]
    exact (Entry.target_eq_none_iff.mpr (Bool.not_eq_true _ ▸ absent)).symm

/-- A page of the child shows what the page of the parent does. -/
theorem page_sharedLeaf {s : Space} {k : Place} (live : parent ∈ v.live)
    (blank : (v.leaf child k).present = false) :
    (v.sharedLeaf parent child s k).page = if s = child then v.page parent k else v.page s k := by
  by_cases target : s = child
  · rw [if_pos target, target, sharedLeaf_self, sourceLeaf_of_live live]
    split
    · exact Entry.page_writeProtected _
    · next absent =>
      rw [View.page, Entry.page_eq_none_iff.mpr blank,
        Entry.page_eq_none_iff.mpr (Bool.not_eq_true _ ▸ absent)]
  · rw [if_neg target, sharedLeaf, sourceLeaf_of_live live]
    split
    · next shared =>
      rw [(shared.2.resolve_left target).1]
      exact Entry.page_writeProtected _
    · rfl

section Tables

variable {i : Slot} {js slots rest : List Slot} {g : FrameId}

@[simp] theorem clonedTable_cons (j : Slot) (js : List Slot) :
    v.clonedTable parent child i (j :: js) =
      (v.clonedEntry parent child (i, j)).clonedTable parent child i js := rfl

@[simp] theorem link_clonedTable (v : View) (parent child : Space) (i : Slot) (js : List Slot) :
    (v.clonedTable parent child i js).link = v.link := by
  induction js generalizing v with
  | nil => rfl
  | cons j js ih => rw [clonedTable_cons, ih, link_clonedEntry]

@[simp] theorem live_clonedTable (v : View) (parent child : Space) (i : Slot) (js : List Slot) :
    (v.clonedTable parent child i js).live = v.live := by
  induction js generalizing v with
  | nil => rfl
  | cons j js ih => rw [clonedTable_cons, ih, live_clonedEntry]

@[simp] theorem bytes_clonedTable (v : View) (parent child : Space) (i : Slot) (js : List Slot) :
    (v.clonedTable parent child i js).bytes = v.bytes := by
  induction js generalizing v with
  | nil => rfl
  | cons j js ih => rw [clonedTable_cons, ih, bytes_clonedEntry]

@[simp] theorem layout_clonedTable (v : View) (parent child : Space) (i : Slot) (js : List Slot) :
    (v.clonedTable parent child i js).layout = v.layout := by
  induction js generalizing v with
  | nil => rfl
  | cons j js ih => rw [clonedTable_cons, ih, layout_clonedEntry]

theorem leaf_clonedTable_of_ne {s : Space} {k : Place} (other : ¬ (k.1 = i ∧ k.2 ∈ js)) :
    (v.clonedTable parent child i js).leaf s k = v.leaf s k := by
  induction js generalizing v with
  | nil => rfl
  | cons j js ih =>
    rw [clonedTable_cons, ih fun h => other ⟨h.1, List.mem_cons_of_mem _ h.2⟩,
      leaf_clonedEntry_of_ne]
    rintro rfl
    exact other ⟨rfl, List.mem_cons_self⟩

/-- The entries of a table that has been cloned. -/
theorem leaf_clonedTable (distinct : js.Nodup) (s : Space) (k : Place) :
    (v.clonedTable parent child i js).leaf s k =
      if k.1 = i ∧ k.2 ∈ js then v.sharedLeaf parent child s k else v.leaf s k := by
  induction js generalizing v with
  | nil => exact (if_neg fun h => List.not_mem_nil h.2).symm
  | cons j js ih =>
    obtain ⟨fresh, distinct⟩ := List.nodup_cons.mp distinct
    rw [clonedTable_cons]
    by_cases here : k = (i, j)
    · subst here
      rw [leaf_clonedTable_of_ne fun h => fresh h.2, leaf_clonedEntry_self,
        if_pos ⟨rfl, List.mem_cons_self⟩]
    · have kept (s' : Space) :
          (v.clonedEntry parent child (i, j)).leaf s' k = v.leaf s' k := leaf_clonedEntry_of_ne here
      have shared : (v.clonedEntry parent child (i, j)).sharedLeaf parent child s k =
          v.sharedLeaf parent child s k :=
        sharedLeaf_congr (live_clonedEntry v parent child _) (layout_clonedEntry v parent child _)
          (kept s) (sourceLeaf_congr (live_clonedEntry v parent child _) (kept parent)
            (fun _ => by rw [bytes_clonedEntry]) fun _ _ _ => by rw [bytes_clonedEntry])
      rw [ih distinct, shared, kept]
      refine if_congr (and_congr_right fun slot => ?_) rfl rfl
      rw [List.mem_cons, or_iff_right fun entry => here (Prod.ext slot entry)]

/-- The entries behind the one that is cloned stay blank. -/
theorem blank_clonedEntry {j : Slot} (fresh : j ∉ js)
    (blank : ∀ j' ∈ j :: js, (v.leaf child (i, j')).present = false) :
    ∀ j' ∈ js, ((v.clonedEntry parent child (i, j)).leaf child (i, j')).present = false := by
  intro j' hj
  rw [leaf_clonedEntry_of_ne]
  · exact blank j' (List.mem_cons_of_mem _ hj)
  · rintro same
    cases same
    exact fresh hj

theorem acts_clonedTable (sound : v.Sound o) (ok : v.Parent parent) (hs : child ∈ v.live)
    (distinct : js.Nodup) (blank : ∀ j ∈ js, (v.leaf child (i, j)).present = false)
    (inside : i ∈ slots) :
    Acts (Clones v.live parent child slots) v o (v.clonedTable parent child i js) o := by
  induction js generalizing v with
  | nil => exact .refl
  | cons j js ih =>
    obtain ⟨fresh, distinct⟩ := List.nodup_cons.mp distinct
    have first := acts_clonedEntry sound ok hs (blank j List.mem_cons_self) inside
    have live := live_clonedEntry v parent child (i, j)
    exact first.trans (live ▸ ih (first.sound sound) (ok.acts first sound live) (live.symm ▸ hs)
      distinct (blank_clonedEntry fresh blank))

theorem Ready.sublist (ready : v.Ready o parent child slots) (sub : rest.Sublist slots) :
    v.Ready o parent child rest :=
  { ready with
    distinct := ready.distinct.sublist sub
    vacant := fun i h => ready.vacant i (sub.subset h)
    blank := fun i h => ready.blank i (sub.subset h) }

theorem Ready.tail (ready : v.Ready o parent child (i :: rest)) :
    v.Ready o parent child rest :=
  ready.sublist (List.sublist_cons_self i rest)

/-- A slot that is ready gets a page table. -/
theorem Ready.made (ready : v.Ready o parent child (i :: rest)) (free : v.Free g)
    (inside : i ∈ slots) :
    Acts (Clones v.live parent child slots) v o (v.linked child i g) o :=
  .single (.link inside) (.link ready.target (ready.vacant i List.mem_cons_self) free)

/-- A slot that is ready gets a page table and is filled. -/
theorem Ready.acts (ready : v.Ready o parent child (i :: rest)) (free : v.Free g)
    (distinct : js.Nodup) (inside : i ∈ slots) :
    Acts (Clones v.live parent child slots) v o
      ((v.linked child i g).clonedTable parent child i js) o := by
  have made := ready.made free inside
  exact made.trans (acts_clonedTable (v := v.linked child i g) (made.sound ready.sound)
    (ready.source.acts made ready.sound rfl) ready.target distinct
    (fun j _ => ready.blank i List.mem_cons_self j) inside)

theorem Ready.next (ready : v.Ready o parent child (i :: rest)) (free : v.Free g)
    (distinct : js.Nodup) :
    ((v.linked child i g).clonedTable parent child i js).Ready o parent child rest := by
  have acts := ready.acts free distinct (List.mem_cons_self : i ∈ i :: rest)
  have live : ((v.linked child i g).clonedTable parent child i js).live = v.live :=
    live_clonedTable (v.linked child i g) parent child i js
  obtain ⟨fresh, others⟩ := List.nodup_cons.mp ready.distinct
  refine ⟨acts.sound ready.sound, ready.source.acts acts ready.sound live,
    live.symm ▸ ready.target, ready.apart, others, fun i' h => ?_, fun i' h j => ?_⟩
  · rw [link_clonedTable]
    refine (if_neg ?_).trans (ready.vacant i' (List.mem_cons_of_mem _ h))
    rintro ⟨-, rfl⟩
    exact fresh h
  · rw [leaf_clonedTable_of_ne]
    · exact ready.blank i' (List.mem_cons_of_mem _ h) j
    · rintro ⟨rfl, -⟩
      exact fresh h

/-- A new page table does not change what the parent maps. -/
theorem Ready.sourceLeaf_linked (ready : v.Ready o parent child (i :: rest)) (free : v.Free g)
    (k : Place) : (v.linked child i g).sourceLeaf parent k = v.sourceLeaf parent k := by
  have made := ready.made free (List.mem_cons_self : i ∈ i :: rest)
  apply sourceLeaf_congr
  · rfl
  · rfl
  · intro foreign
    exact made.untracked ready.sound (ready.source.resolve_left foreign).root.1
  · intro t foreign linked
    exact made.untracked ready.sound ((ready.source.resolve_left foreign).table k.1 t linked).1

theorem Ready.sourceLink_linked (ready : v.Ready o parent child (i :: rest)) (free : v.Free g)
    (i' : Slot) : (v.linked child i g).sourceLink parent i' = v.sourceLink parent i' := by
  have made := ready.made free (List.mem_cons_self : i ∈ i :: rest)
  apply sourceLink_congr
  · rfl
  · intro _
    rw [link_linked, if_neg fun h => ready.apart h.1]
  · intro foreign
    exact made.untracked ready.sound (ready.source.resolve_left foreign).root.1

/-- The parent keeps its tables while a slot is filled. -/
theorem Ready.sourceLink_next (ready : v.Ready o parent child (i :: rest)) (free : v.Free g)
    (distinct : js.Nodup) (i' : Slot) :
    ((v.linked child i g).clonedTable parent child i js).sourceLink parent i' =
      v.sourceLink parent i' := by
  have acts := ready.acts free distinct (List.mem_cons_self : i ∈ i :: rest)
  apply sourceLink_congr
  · exact live_clonedTable (v.linked child i g) parent child i js
  · intro _
    rw [link_clonedTable, link_linked, if_neg fun h => ready.apart h.1]
  · intro foreign
    exact acts.untracked ready.sound (ready.source.resolve_left foreign).root.1

/-- Nothing changes under the other slots while one is filled. -/
theorem Ready.sourceLeaf_next (ready : v.Ready o parent child (i :: rest)) (free : v.Free g)
    {k : Place} (other : k.1 ≠ i) :
    ((v.linked child i g).clonedTable parent child i js).sourceLeaf parent k =
      v.sourceLeaf parent k := by
  refine Eq.trans ?_ (ready.sourceLeaf_linked free k)
  apply sourceLeaf_congr
  · exact live_clonedTable (v.linked child i g) parent child i js
  · exact leaf_clonedTable_of_ne fun h => other h.1
  · exact fun _ => by rw [bytes_clonedTable]
  · exact fun _ _ _ => by rw [bytes_clonedTable]

namespace Cloned

variable {left : Option Slot}

theorem acts (cloned : Cloned parent child js rest v left v')
    (ready : v.Ready o parent child rest) (distinct : js.Nodup)
    (inside : ∀ i ∈ rest, i ∈ slots) : Acts (Clones v.live parent child slots) v o v' o := by
  induction cloned with
  | done => exact .refl
  | vacant _ _ ih => exact ih ready.tail fun i' h => inside i' (List.mem_cons_of_mem _ h)
  | full => exact .refl
  | @table v v' i rest left t g linked free more ih =>
    have first := ready.acts free distinct (inside i List.mem_cons_self)
    have live : ((v.linked child i g).clonedTable parent child i js).live = v.live :=
      live_clonedTable (v.linked child i g) parent child i js
    rw [live] at ih
    exact first.trans (ih (ready.next free distinct) fun i' h =>
      inside i' (List.mem_cons_of_mem _ h))

/-- Only slots of the range are linked. -/
theorem link_of_not_mem (cloned : Cloned parent child js rest v left v') {s : Space} {i : Slot}
    (outside : i ∉ rest) : v'.link s i = v.link s i := by
  induction cloned with
  | done => rfl
  | full => rfl
  | vacant _ _ ih => exact ih fun h => outside (List.mem_cons_of_mem _ h)
  | @table v v' i' rest left t g linked free more ih =>
    rw [ih fun h => outside (List.mem_cons_of_mem _ h), link_clonedTable, link_linked, if_neg]
    rintro ⟨-, rfl⟩
    exact outside List.mem_cons_self

/-- The entries after a completed clone. -/
theorem leaf (cloned : Cloned parent child js rest v none v')
    (ready : v.Ready o parent child rest) (distinct : js.Nodup)
    (covered : ∀ i ∈ rest, v.sourceLink parent i = none →
      ∀ j, (v.sourceLeaf parent (i, j)).present = false) (s : Space) (k : Place) :
    v'.leaf s k =
      if k.1 ∈ rest ∧ k.2 ∈ js then v.sharedLeaf parent child s k else v.leaf s k := by
  generalize goal : (none : Option Slot) = left at cloned
  induction cloned with
  | done => exact (if_neg fun h => List.not_mem_nil h.1).symm
  | full => cases goal
  | @vacant v v' i rest left vacant more ih =>
    rw [ih ready.tail (fun i' h => covered i' (List.mem_cons_of_mem _ h)) goal]
    by_cases here : k.1 = i
    · have absent : (v.sourceLeaf parent k).present = false := by
        have whole : ((i, k.2) : Place) = k := Prod.ext here.symm rfl
        exact whole ▸ covered i List.mem_cons_self vacant k.2
      have same : v.sharedLeaf parent child s k = v.leaf s k := by
        unfold sharedLeaf
        refine if_neg fun h => ?_
        rw [absent] at h
        cases h.1
      rw [same, ite_self, ite_self]
    · simp only [List.mem_cons, or_iff_right here]
  | @table v v' i rest left t g linked free more ih =>
    obtain ⟨fresh, -⟩ := List.nodup_cons.mp ready.distinct
    have live : ((v.linked child i g).clonedTable parent child i js).live = v.live :=
      live_clonedTable (v.linked child i g) parent child i js
    have layout : ((v.linked child i g).clonedTable parent child i js).layout = v.layout :=
      layout_clonedTable (v.linked child i g) parent child i js
    rw [ih (ready.next free distinct) ?_ goal]
    · by_cases here : k.1 = i
      · have shared : (v.linked child i g).sharedLeaf parent child s k =
            v.sharedLeaf parent child s k :=
          sharedLeaf_congr rfl rfl rfl (ready.sourceLeaf_linked free k)
        have outside : ¬ k.1 ∈ rest := here ▸ fresh
        rw [if_neg fun h => outside h.1, leaf_clonedTable distinct, shared]
        simp only [here, List.mem_cons_self, true_and]
        rfl
      · have kept : ((v.linked child i g).clonedTable parent child i js).leaf s k = v.leaf s k :=
          leaf_clonedTable_of_ne fun h => here h.1
        rw [sharedLeaf_congr live layout kept (ready.sourceLeaf_next free here), kept]
        simp only [List.mem_cons, or_iff_right here]
    · intro i' inside vacant j
      have other : i' ≠ i := by
        rintro rfl
        exact fresh inside
      rw [ready.sourceLink_next free distinct] at vacant
      rw [ready.sourceLeaf_next free other]
      exact covered i' (List.mem_cons_of_mem _ inside) vacant j

/-- Other spaces keep all their page tables. -/
theorem link_of_ne (cloned : Cloned parent child js rest v left v') {s : Space}
    (other : s ≠ child) (i : Slot) : v'.link s i = v.link s i := by
  induction cloned with
  | done => rfl
  | full => rfl
  | vacant _ _ ih => exact ih
  | @table v v' i' rest left t g linked free more ih =>
    rw [ih, link_clonedTable, link_linked, if_neg fun h => other h.1]

/-- A completed clone has a page table where the parent has one. -/
theorem link_eq_none_iff (cloned : Cloned parent child js rest v none v')
    (ready : v.Ready o parent child rest) (distinct : js.Nodup) {i : Slot} (inside : i ∈ rest) :
    v'.link child i = none ↔ v.sourceLink parent i = none := by
  generalize goal : (none : Option Slot) = left at cloned
  induction cloned with
  | done => exact absurd inside List.not_mem_nil
  | full => cases goal
  | @vacant v v' i' rest left vacant more ih =>
    obtain ⟨fresh, -⟩ := List.nodup_cons.mp ready.distinct
    rcases List.mem_cons.mp inside with rfl | inside
    · rw [more.link_of_not_mem fresh, ready.vacant i List.mem_cons_self, vacant]
    · exact ih ready.tail inside goal
  | @table v v' i' rest left t g linked free more ih =>
    obtain ⟨fresh, -⟩ := List.nodup_cons.mp ready.distinct
    rcases List.mem_cons.mp inside with rfl | inside
    · have made : v'.link child i = some g := by
        rw [more.link_of_not_mem fresh, link_clonedTable, link_linked, if_pos ⟨rfl, rfl⟩]
      rw [made, linked]
      exact ⟨nofun, nofun⟩
    · rw [ih (ready.next free distinct) inside goal, ready.sourceLink_next free distinct]

/-- The pages that a completed clone maps. -/
theorem page (cloned : Cloned parent child js rest v none v')
    (ready : v.Ready o parent child rest) (distinct : js.Nodup) (live : parent ∈ v.live)
    (covered : ∀ i, v.link parent i = none → ∀ j, v.page parent (i, j) = none) (s : Space)
    (k : Place) :
    v'.page s k = if s = child ∧ k.1 ∈ rest ∧ k.2 ∈ js then v.page parent k else v.page s k := by
  have blank (i : Slot) (_ : i ∈ rest) (vacant : v.sourceLink parent i = none) (j : Slot) :
      (v.sourceLeaf parent (i, j)).present = false := by
    rw [sourceLeaf_of_live live, ← Entry.page_eq_none_iff]
    exact covered i ((if_pos live).symm.trans vacant) j
  rw [View.page, cloned.leaf ready distinct blank]
  by_cases inside : k.1 ∈ rest ∧ k.2 ∈ js
  · rw [if_pos inside, page_sharedLeaf live (ready.blank k.1 inside.1 k.2)]
    simp only [inside, and_true]
  · rw [if_neg inside, if_neg fun h => inside h.2]
    rfl

end Cloned

end Tables

end View

/-! ## Running a clone -/

theorem Machine.sourceLink_view (m : Machine) (live : Finset Space) (p : Space) (i : Slot) :
    (m.view live).sourceLink p i = p.link m.ram i := by
  unfold View.sourceLink
  split <;> rfl

theorem Machine.sourceLeaf_view (m : Machine) (live : Finset Space) (p : Space) (k : Place) :
    (m.view live).sourceLeaf p k = p.leaf m.ram k := by
  unfold View.sourceLeaf
  split <;> rfl

namespace Machine.Shows

variable {m : Machine} {v : View} {o : Owed} {parent child : Space}

/-- A parent is one in every view that the machine shows. -/
theorem parent_view (shows : m.Shows v) (sound : v.Sound o) (ok : v.Parent parent) :
    (m.view v.live).Parent parent := by
  rcases ok with live | quiet
  · exact .inl live
  · have tracks (f : FrameId) : (m.view v.live).tracks f = v.tracks f := shows.manages f
    have bytes {f : FrameId} (untracked : ¬ v.tracks f = true) :
        (m.view v.live).bytes f = v.bytes f :=
      shows.bytes f (sound.not_hidden_of_untracked untracked)
    have size : (m.view v.live).size = v.size := shows.size
    refine .inr ⟨?_, fun i t linked => ?_, fun i t linked j present => ?_⟩
    · rw [tracks, size]
      exact quiet.root
    · rw [bytes quiet.root.1] at linked
      rw [tracks, size]
      exact quiet.table i t linked
    · rw [bytes quiet.root.1] at linked
      rw [bytes (quiet.table i t linked).1] at present ⊢
      rw [tracks, size]
      exact quiet.page i t linked j present

/-- Looking up a page table of a parent. -/
theorem sourceTable (shows : m.Shows v) (sound : v.Sound o) (ok : v.Parent parent) (i : Slot) :
    Ends (inspect fun m => parent.tableAt m.ram i) m Exhausts fun found m' =>
      found = v.sourceLink parent i ∧ m'.Shows v := by
  unfold View.sourceLink
  split
  · next live => exact shows.tableAt sound.separate live i
  · next foreign =>
    have quiet := ok.resolve_left foreign
    refine Ends.inspect (Space.tableAt_eq (shows.inside quiet.root.2) i) ⟨?_, shows⟩
    rw [Space.link, shows.bytes _ (sound.not_hidden_of_untracked quiet.root.1)]

theorem sourceEntry (shows : m.Shows v) (sound : v.Sound o) (ok : v.Parent parent) {i : Slot}
    {t : FrameId} (linked : v.sourceLink parent i = some t) (j : Slot) :
    Ends (readEntry t j) m Exhausts fun e m' =>
      e = v.sourceLeaf parent (i, j) ∧ m'.Shows v := by
  unfold View.sourceLink at linked
  unfold View.sourceLeaf
  split
  · next live =>
    rw [if_pos live] at linked
    exact shows.readLeaf sound.separate live linked j
  · next foreign =>
    rw [if_neg foreign] at linked
    obtain ⟨untracked, inside⟩ := (ok.resolve_left foreign).table i t linked
    refine Ends.inspect (Ram.entry_eq_bytes (shows.inside inside) j) ⟨?_, shows⟩
    rw [linked, shows.bytes _ (sound.not_hidden_of_untracked untracked)]

theorem cloneEntry (shows : m.Shows v) (sound : v.Sound o) (ok : v.Parent parent)
    (hc : child ∈ v.live) (apart : parent ≠ child) {i : Slot} {source target : FrameId}
    (theirs : v.sourceLink parent i = some source) (ours : v.link child i = some target) (j : Slot) :
    Ends (Space.cloneEntry source target j) m Exhausts fun _ m' =>
      m'.Shows (v.clonedEntry parent child (i, j)) := by
  refine (shows.sourceEntry sound ok theirs j).bind ?_
  rintro e m₁ ⟨rfl, shows₁⟩
  unfold View.clonedEntry
  split
  · next present =>
    refine (shows₁.writeLeaf sound.separate hc ours j _).bind fun _ m₂ shows₂ => ?_
    refine (shows₂.isManaged _).bind ?_
    rintro tracked m₃ ⟨rfl, shows₃⟩
    split
    · next tracked =>
      change v.tracks _ = true at tracked
      have live : parent ∈ v.live := by
        by_contra foreign
        exact ((ok.resolve_left foreign).sourceLeaf sound present).1 tracked
      rw [View.sourceLeaf_of_live live] at present tracked shows₃ ⊢
      unfold View.sourceLink at theirs
      rw [if_pos live] at theirs
      refine (shows₃.writeLeaf (sound.separate.setLeaf _ _ _) live theirs j _).bind
        fun _ m₄ shows₄ => ?_
      refine (shows₄.retain sound.fits (sound.mapped parent live _ present)
        (sound.not_free live (View.refers_leaf present))).mono fun _ m₅ shows₅ => ?_
      rw [if_pos live, View.aliased, if_pos tracked, View.setLeaf_comm _ _ apart]
      exact shows₅
    · next untracked =>
      change ¬ v.tracks _ = true at untracked
      refine Ends.pure ?_
      split
      · next live =>
        rw [View.sourceLeaf_of_live live] at untracked shows₃
        rw [View.aliased, if_neg untracked]
        exact shows₃
      · exact shows₃
  · exact Ends.pure shows₁

theorem cloneEntries {i : Slot} {source target : FrameId} (js : List Slot) (m : Machine)
    (shows : m.Shows v) (sound : v.Sound o) (ok : v.Parent parent) (hc : child ∈ v.live)
    (apart : parent ≠ child) (theirs : v.sourceLink parent i = some source)
    (ours : v.link child i = some target) (distinct : js.Nodup)
    (blank : ∀ j ∈ js, (v.leaf child (i, j)).present = false) :
    Ends (js.forM (Space.cloneEntry source target)) m Exhausts fun _ m' =>
      m'.Shows (v.clonedTable parent child i js) := by
  induction js generalizing m v with
  | nil => exact Ends.pure shows
  | cons j js ih =>
    obtain ⟨fresh, distinct⟩ := List.nodup_cons.mp distinct
    refine (shows.cloneEntry sound ok hc apart theirs ours j).bind fun _ m₁ shows₁ => ?_
    have acts := View.acts_clonedEntry (k := (i, j)) sound ok hc (blank j List.mem_cons_self)
      (List.mem_singleton_self i)
    have live := View.live_clonedEntry v parent child (i, j)
    refine ih m₁ shows₁ (acts.sound sound) (ok.acts acts sound live) (live.symm ▸ hc) ?_ ?_ distinct
      (View.blank_clonedEntry fresh blank)
    · rwa [View.sourceLink_congr live (fun _ => by rw [View.link_clonedEntry])
        fun _ => by rw [View.bytes_clonedEntry]]
    · rwa [View.link_clonedEntry]

theorem cloneSlots {js : List Slot} (distinct : js.Nodup) (slots : List Slot) (m : Machine)
    (shows : m.Shows v) (ready : v.Ready o parent child slots) :
    Ends (parent.cloneSlots child js slots) m Exhausts fun left m' =>
      ∃ v', View.Cloned parent child js slots v left v' ∧ m'.Shows v' := by
  induction slots generalizing m v with
  | nil => exact Ends.pure ⟨v, .done, shows⟩
  | cons i rest ih =>
    refine (shows.sourceTable ready.sound ready.source i).bind ?_
    rintro found m₁ ⟨rfl, shows₁⟩
    cases linked : v.sourceLink parent i with
    | none =>
      refine (ih m₁ shows₁ ready.tail).mono ?_
      rintro left m₂ ⟨v', cloned, shows₂⟩
      exact ⟨v', .vacant linked cloned, shows₂⟩
    | some t =>
      refine shows₁.allocFrame?.bind ?_
      rintro (_ | g) m₂ post
      · exact Ends.pure ⟨v, .full linked post.1, post.2⟩
      · obtain ⟨free, b, shows₂⟩ := post
        refine (clearGranted ready.sound free shows₂).bind fun _ m₃ shows₃ => ?_
        refine (linkGranted ready.sound free shows₃ ready.target
          (ready.vacant i List.mem_cons_self)).bind fun _ m₄ shows₄ => ?_
        have made := ready.made free (List.mem_cons_self : i ∈ i :: rest)
        have theirs := (ready.sourceLink_linked free i).trans linked
        have ours := View.link_linked_self v child i g
        refine (cloneEntries js m₄ shows₄ (made.sound ready.sound)
          (ready.source.acts made ready.sound rfl) ready.target ready.apart theirs ours
          distinct fun j _ => ready.blank i List.mem_cons_self j).bind fun _ m₅ shows₅ => ?_
        refine (ih m₅ shows₅ (ready.next free distinct)).mono ?_
        rintro left m₆ ⟨v', cloned, shows₆⟩
        exact ⟨v', .table linked free cloned, shows₆⟩

end Machine.Shows

end PagedMemory
