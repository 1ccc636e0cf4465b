import PagedMemory.Proofs.Calls

/-!
# Counts and references after a run

What `Kept` says of a view is read off the machine itself. A count is the number of
directories, links and entries that refer to the frame and of hands that hold it, and a
frame that a user can write to has one reference. The three kinds of references are
counted in memory, by looking at every slot of every directory and table.
-/

namespace PagedMemory

open Finset

/-- How many spaces have their directory in the frame. -/
def rootReferences (live : Finset Space) (f : FrameId) : Nat :=
  #{s ∈ live | s.root = f}

/-- How many directory slots link the frame as a page table. -/
def linkReferences (r : Ram) (live : Finset Space) (f : FrameId) : Nat :=
  ∑ s ∈ live, #{i : Slot | s.link r i = some f}

/-- How many entries of page tables map the frame. -/
def leafReferences (r : Ram) (live : Finset Space) (f : FrameId) : Nat :=
  ∑ s ∈ live, #{k : Place | (s.leaf r k).target = some f}

/-- The references of a view are those found in memory. -/
theorem Machine.Shows.references {m : Machine} {v : View} (shows : m.Shows v) (f : FrameId) :
    v.references f = rootReferences v.live f + linkReferences m.ram v.live f +
      leafReferences m.ram v.live f := by
  rw [rootReferences, linkReferences, leafReferences, Finset.card_filter, ← Finset.sum_add_distrib,
    ← Finset.sum_add_distrib, View.references]
  refine Finset.sum_congr rfl fun s hs => ?_
  rw [View.uses, sum_cells]
  have root : hits (v.refers s .root) f = if s.root = f then 1 else 0 := by
    simp only [hits, View.refers, Option.some.injEq]
  have links : ∑ i, hits (v.refers s (.link i)) f = #{i : Slot | s.link m.ram i = some f} := by
    rw [← sum_hits]
    exact Finset.sum_congr rfl fun i _ => by rw [shows.link s hs, View.refers]
  have leaves : ∑ k, hits (v.refers s (.leaf k)) f =
      #{k : Place | (s.leaf m.ram k).target = some f} := by
    rw [← sum_hits (fun k => (s.leaf m.ram k).target)]
    exact Finset.sum_congr rfl fun k _ => by rw [shows.leaf s hs, View.refers]
  rw [root, links, leaves]

namespace Kept

variable {l : Layout} {m : Machine} {b : Books} {v : View} {lost : Owed}

theorem refCount? (kept : Kept l m b v lost) {f : FrameId} (tracked : v.tracks f = true) :
    m.pool.refCount? f = some (v.count f) :=
  kept.shows.refCount?_eq_some_iff.mpr ⟨tracked, rfl⟩

/-- What the kernel maps is not counted. -/
theorem kernel_leaf (kept : Kept l m b v lost) (room : 8192 ≤ l.low.value) {k : Place}
    {f : FrameId} (maps : (Space.kernel.leaf m.ram k).target = some f) : ¬ v.tracks f = true := by
  have quiet := kept.quiet room
  have seen {g : FrameId} (untracked : ¬ v.tracks g = true) : m.ram.bytes g = v.bytes g :=
    kept.shows.bytes g (kept.sound.not_hidden_of_untracked untracked)
  unfold Space.leaf at maps
  cases linked : Space.kernel.link m.ram k.1 with
  | none =>
    rw [linked] at maps
    cases maps
  | some t =>
    rw [linked] at maps
    rw [Space.link, seen quiet.root.1] at linked
    dsimp only at maps
    rw [seen (quiet.table _ t linked).1] at maps
    obtain ⟨present, rfl⟩ := Entry.target_eq_some_iff.mp maps
    exact (quiet.page _ t linked _ present).1

end Kept

section Tiny

/-- The first space that is made lies in the first frame. -/
def tinySpace : Space :=
  ⟨Layout.tiny.mainStart.page .small⟩

def tinyPage : VirtualAddress :=
  ⟨4096, by decide⟩

/-- The page behind the first one. -/
def tinyBehind : VirtualAddress :=
  tinyPage.wrappingAdd 4096

/-- The first address that the page table of the first space does not cover. -/
def tinyNext : VirtualAddress :=
  ⟨4194304, by decide⟩

def tinyMapping : Call :=
  .mapEmpty tinySpace tinyPage

/-- A space has been made, and then one of its pages. -/
def tinyBefore : Books × Machine :=
  (Call.create none .zero 0).after (⟨∅, ∅⟩, Machine.tiny)

def tinyAfter : Books × Machine :=
  tinyMapping.after tinyBefore

/-- Beside the space with one page there is an empty one. -/
def tinySpaces : Books × Machine :=
  (Call.create none .zero 0).after tinyAfter

def tinyOther : Space :=
  ⟨tinyFrame 5⟩

def tinySharing : Call :=
  .share tinySpace tinyPage tinyOther tinyPage

/-- The page of the first space is mapped by the second one too, and one frame is free. -/
def tinyAliased : Books × Machine :=
  tinySharing.after tinySpaces

/-- What is computed of the run to this state. -/
theorem computed_tinyAliased :
    ((Call.create none .zero 0).serve ⟨∅, ∅⟩ Machine.tiny).toBool = true ∧
    tinyMapping.Allowed tinyBefore.2 tinyBefore.1 ∧
    (tinyMapping.serve tinyBefore.1 tinyBefore.2).toBool = true ∧
    ((Call.create none .zero 0).serve tinyAfter.1 tinyAfter.2).toBool = true ∧
    tinySharing.Allowed tinySpaces.2 tinySpaces.1 ∧
    (tinySharing.serve tinySpaces.1 tinySpaces.2).toBool = true := by
  unfold tinyMapping tinySharing Call.Allowed Call.Named Call.OntoUnmapped Space.Maps
  decide +kernel

theorem allowed_tinyMapping : tinyMapping.Allowed tinyBefore.2 tinyBefore.1 :=
  computed_tinyAliased.2.1

theorem reaches_tinyAfter :
    Reaches (fun m b c => c.Allowed m b ∧ c.Thorough m) .standard .tiny .lowest tinyAfter.2
      tinyAfter.1 := by
  obtain ⟨makes, allowed, maps, -⟩ := computed_tinyAliased
  have start : Reaches (fun m b c => c.Allowed m b ∧ c.Thorough m) .standard .tiny .lowest
      Machine.tiny ⟨∅, ∅⟩ := .boot Machine.boot_tiny
  have made := start.next (r := (⟨∅, ∅⟩, Machine.tiny)) (c := .create none .zero 0)
    ⟨⟨nofun, trivial⟩, trivial⟩ makes
  exact .next made ⟨allowed, trivial⟩ maps

theorem sound_tinyAfter : (tinyAfter.2.view tinyAfter.1.live).Sound (tinyAfter.1.owed .tiny) :=
  reaches_tinyAfter.sound fun _ _ _ h => h

theorem reaches_tinySpaces : Reaches (fun m b c => c.Allowed m b ∧ c.Thorough m) .standard .tiny
    .lowest tinySpaces.2 tinySpaces.1 :=
  .next reaches_tinyAfter ⟨⟨nofun, trivial⟩, trivial⟩ computed_tinyAliased.2.2.2.1

theorem reaches_tinyAliased : Reaches (fun m b c => c.Allowed m b ∧ c.Thorough m) .standard .tiny
    .lowest tinyAliased.2 tinyAliased.1 := by
  obtain ⟨-, -, -, -, allowed, shares⟩ := computed_tinyAliased
  exact .next reaches_tinySpaces ⟨allowed, trivial⟩ shares

theorem sound_tinyAliased :
    (tinyAliased.2.view tinyAliased.1.live).Sound (tinyAliased.1.owed .tiny) :=
  reaches_tinyAliased.sound fun _ _ _ h => h

/-- A process that runs in the first space. -/
def tinyWriter : Environment :=
  .solitary 1 (some tinySpace) (some (.anonymous .zero))

def tinyDoubling : Call :=
  .share tinySpace tinyPage tinySpace tinyBehind

/-- Three entries of two spaces map the page. -/
def tinyTripled : Books × Machine :=
  tinyDoubling.after tinyAliased

def tinyWriting : Call :=
  .copyOut tinyWriter tinyPage [7]

/-- The page has been written to at one of its three places, and moved there. Only the kernel
computes this run, which is too long for the elaborator. -/
@[irreducible] def tinyParted : Books × Machine :=
  tinyWriting.after tinyTripled

/-- What is computed of this state and of the run to it. -/
theorem computed_tinyParted :
    tinyDoubling.Allowed tinyAliased.2 tinyAliased.1 ∧
    (tinyDoubling.serve tinyAliased.1 tinyAliased.2).toBool = true ∧
    tinySpace ∈ tinyTripled.1.live ∧
    (tinyWriting.serve tinyTripled.1 tinyTripled.2).toBool = true ∧
    tinySpace ∈ tinyParted.1.live ∧ tinyOther ∈ tinyParted.1.live ∧
    tinySpace.leaf tinyParted.2.ram (0, 1) =
      { Entry.make (tinyFrame 7) .userWritable with accessed := true, dirty := true } ∧
    tinyParted.2.pool.manages (tinyFrame 3) = true ∧
    (tinySpace.leaf tinyParted.2.ram (0, 2)).target = some (tinyFrame 3) ∧
    (tinyOther.leaf tinyParted.2.ram (0, 1)).target = some (tinyFrame 3) := by
  unfold tinyDoubling Call.Allowed Call.Named Call.OntoUnmapped Space.Maps
  decide +kernel

theorem reaches_tinyParted : Reaches (fun m b c => c.Allowed m b ∧ c.Thorough m) .standard .tiny
    .lowest tinyParted.2 tinyParted.1 := by
  obtain ⟨unmapped, doubles, live, writes, -⟩ := computed_tinyParted
  have tripled : Reaches (fun m b c => c.Allowed m b ∧ c.Thorough m) .standard .tiny .lowest
      tinyTripled.2 tinyTripled.1 := .next reaches_tinyAliased ⟨unmapped, trivial⟩ doubles
  have named : tinyWriter.Names tinyTripled.1.live := Environment.names_solitary live 1 _
  unfold tinyParted
  exact tripled.next (c := tinyWriting) ⟨⟨named, trivial⟩, trivial⟩ writes

end Tiny

/-- After every run of thorough calls, the count of a frame that is handed out is the number
of references that live spaces make to it and of hands that hold it. A frame that holds a
directory or a page table is counted once and mapped by no entry. -/
theorem counts_match_references {config : Config} {layout : Layout} {policy : Policy} {m : Machine}
    {b : Books} (reach : Reaches (fun m b c => c.Allowed m b ∧ c.Thorough m) config layout policy
      m b) :
    (∀ f : FrameId, layout.mainStart.value ≤ f.base.value → f.base.value < layout.high.value →
      m.pool.refCount? f = some (rootReferences b.live f + linkReferences m.ram b.live f +
        leafReferences m.ram b.live f + if f ∈ b.held then 1 else 0)) ∧
    ∀ s ∈ b.live, ∀ t, (t = s.root ∨ ∃ i, s.link m.ram i = some t) →
      m.pool.refCount? t = some 1 ∧
        ∀ s' ∈ b.live, ∀ k, (s'.leaf m.ram k).target ≠ some t := by
  obtain ⟨v, kept⟩ := reach.kept_of_thorough fun _ _ _ h => h
  have valid := kept.sound.fits.1
  rw [kept.layout] at valid
  refine ⟨fun f above below => ?_, fun s hs t table => ?_⟩
  · have tracked : v.tracks f = true := by
      have := valid.low_le
      rw [View.tracks, kept.layout, Bool.and_eq_true, decide_eq_true_eq, decide_eq_true_eq]
      omega
    have unreserved : layout.reserve f = 0 := if_neg fun h => absurd h.2 (Nat.not_lt.mpr above)
    have counted := kept.sound.counted f tracked
    rw [add_zero, Books.owed, Pi.add_apply, unreserved, Nat.zero_add,
      kept.shows.references, kept.live] at counted
    rw [kept.refCount? tracked, counted]
    rfl
  · rw [← kept.live] at hs
    have structural : v.tracks t = true ∧ v.count t = 1 ∧ v.Structural t := by
      rcases table with rfl | ⟨i, linked⟩
      · obtain ⟨tracked, one⟩ := kept.sound.root s hs
        exact ⟨tracked, one, s, hs, .inl rfl⟩
      · rw [kept.shows.link s hs] at linked
        obtain ⟨tracked, one⟩ := kept.sound.table s hs i t linked
        exact ⟨tracked, one, s, hs, .inr ⟨i, linked⟩⟩
    obtain ⟨tracked, one, structural⟩ := structural
    refine ⟨(kept.refCount? tracked).trans (congrArg some one), fun s' hs' k maps => ?_⟩
    rw [← kept.live] at hs'
    rw [kept.shows.leaf s' hs'] at maps
    exact kept.sound.not_structural_of_leaf hs' maps structural

theorem counts_match_references_tiny :
    Reaches (fun m b c => c.Allowed m b ∧ c.Thorough m) .standard .tiny .lowest tinyAfter.2
      tinyAfter.1 ∧
    tinyAfter.2.pool.refCount? ⟨3, by decide⟩ =
      some (rootReferences tinyAfter.1.live ⟨3, by decide⟩ +
        linkReferences tinyAfter.2.ram tinyAfter.1.live ⟨3, by decide⟩ +
        leafReferences tinyAfter.2.ram tinyAfter.1.live ⟨3, by decide⟩ +
        if ⟨3, by decide⟩ ∈ tinyAfter.1.held then 1 else 0) := by
  have counted := (counts_match_references reaches_tinyAfter).1 ⟨3, by decide⟩
  exact ⟨reaches_tinyAfter, counted (by decide) (by decide)⟩

/-- After every run, a page that a user can write to is tracked, has a count of one and is
mapped by no other entry of any space. All entries that map one tracked frame have the same
dirty bit. -/
theorem writable_pages_exclusive {config : Config} {layout : Layout} {policy : Policy}
    {m : Machine} {b : Books}
    (reach : Reaches (fun m b c => c.Allowed m b) config layout policy m b) :
    (∀ s ∈ b.live, ∀ k, (s.leaf m.ram k).present = true → (s.leaf m.ram k).writable = true →
      m.pool.refCount? (s.leaf m.ram k).frame = some 1 ∧
        ∀ s' k', b.Knows m s' → (s'.leaf m.ram k').target = some (s.leaf m.ram k).frame →
          s' = s ∧ k' = k) ∧
    ∀ f, m.pool.manages f = true → ∀ s s', b.Knows m s → b.Knows m s' → ∀ k k',
      (s.leaf m.ram k).target = some f → (s'.leaf m.ram k').target = some f →
        (s'.leaf m.ram k').dirty = (s.leaf m.ram k).dirty := by
  obtain ⟨v, lost, kept⟩ := reach.kept fun _ _ _ h => h
  -- Only entries of live spaces map a tracked frame.
  have known {s : Space} {k : Place} {f : FrameId} (knows : b.Knows m s)
      (tracked : v.tracks f = true) (maps : (s.leaf m.ram k).target = some f) : s ∈ v.live := by
    rw [Books.Knows, kept.shows.layout, kept.layout, ← kept.live] at knows
    rcases knows with live | ⟨rfl, room⟩
    · exact live
    · exact absurd tracked (kept.kernel_leaf room maps)
  refine ⟨fun s hs k present writable => ?_, fun f managed s s' hs hs' k k' maps maps' => ?_⟩
  · rw [← kept.live] at hs
    rw [kept.shows.leaf s hs] at present writable ⊢
    obtain ⟨tracked, one⟩ := kept.sound.exclusive s hs k present writable
    refine ⟨(kept.refCount? tracked).trans (congrArg some one), fun s' k' knows maps => ?_⟩
    have hs' := known knows tracked maps
    rw [kept.shows.leaf s' hs'] at maps
    obtain ⟨space, cell⟩ := kept.sound.sole tracked one hs (View.refers_leaf present) hs'
      (d := .leaf k') maps
    exact ⟨space, Cell.leaf.inj cell⟩
  · rw [kept.shows.manages] at managed
    have live := known hs managed maps
    have live' := known hs' managed maps'
    rw [kept.shows.leaf s live] at maps ⊢
    rw [kept.shows.leaf s' live'] at maps' ⊢
    exact kept.agree f managed s live s' live' k k' maps maps'

/-- The page that was written to is exclusive, and those who map the old one agree about it. -/
theorem writable_pages_exclusive_tiny :
    Reaches (fun m b c => c.Allowed m b) .standard .tiny .lowest tinyParted.2 tinyParted.1 ∧
    tinySpace ∈ tinyParted.1.live ∧ tinyOther ∈ tinyParted.1.live ∧
    tinySpace.leaf tinyParted.2.ram (0, 1) =
      { Entry.make (tinyFrame 7) .userWritable with accessed := true, dirty := true } ∧
    tinyParted.2.pool.refCount? (tinyFrame 7) = some 1 ∧
    (∀ s k, tinyParted.1.Knows tinyParted.2 s →
      (s.leaf tinyParted.2.ram k).target = some (tinyFrame 7) → s = tinySpace ∧ k = (0, 1)) ∧
    (tinySpace.leaf tinyParted.2.ram (0, 2)).target = some (tinyFrame 3) ∧
    (tinyOther.leaf tinyParted.2.ram (0, 1)).target = some (tinyFrame 3) ∧
    (tinyOther.leaf tinyParted.2.ram (0, 1)).dirty =
      (tinySpace.leaf tinyParted.2.ram (0, 2)).dirty := by
  have reach : Reaches (fun m b c => c.Allowed m b) .standard .tiny .lowest tinyParted.2
      tinyParted.1 := reaches_tinyParted.mono fun _ _ _ => And.left
  obtain ⟨-, -, -, -, live, other, written, managed, first, second⟩ := computed_tinyParted
  have present := congrArg Entry.present written
  have writable := congrArg Entry.writable written
  obtain ⟨exclusive, agree⟩ := writable_pages_exclusive reach
  have sole := exclusive tinySpace live (0, 1) present writable
  rw [written] at sole
  exact ⟨reach, live, other, written, sole.1, sole.2, first, second,
    agree _ managed _ _ (.inl live) (.inl other) _ _ first second⟩

end PagedMemory
