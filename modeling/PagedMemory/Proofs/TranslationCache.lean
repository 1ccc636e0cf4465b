import Mathlib.Data.Set.Basic
import PagedMemory.Proofs.ReferenceCounts

/-!
# The cache of recent lookups

Between any two calls the processor may look up a page of a live space, or of the space of
the kernel, and go by what it found until the cache is emptied. It never asks memory again
in the meantime, so every call that makes a cached lookup false has to empty the cache.

One call either empties the cache or lets all that was looked up stand
(`Call.upholds_lookups`). By induction over the calls and lookups of a run, nothing that
the processor goes by is ever out of date (`Caches.kept`).
-/

namespace PagedMemory

/-- What the processor remembers of a page. -/
structure Lookup where
  space : Space
  address : VirtualAddress
  frame : FrameId
  writable : Bool

namespace Lookup

/-- The entry gives at least the rights that are remembered. -/
def Reads (f : Lookup) (e : Entry) : Prop :=
  e.present = true ∧ e.frame = f.frame ∧ (f.writable = true → e.writable = true)

/-- Looking up the page in memory again would give the same. -/
def Holds (f : Lookup) (r : Ram) : Prop :=
  f.Reads (f.space.leaf r f.address.splitSlots)

theorem Reads.of_stands {f : Lookup} {e e' : Entry} (reads : f.Reads e) (stands : e.Stands e') :
    f.Reads e' := by
  obtain ⟨present, frame, writable⟩ := reads
  obtain ⟨present', frame', writable'⟩ := stands present
  exact ⟨present', frame'.trans frame, fun h => writable' (writable h)⟩

/-- The processor has been told of the tables: the space is live, or that of the kernel. -/
def Known (f : Lookup) (b : Books) : Prop :=
  f.space ∈ b.live ∨ f.space = Space.kernel

end Lookup

/-- What is left of the cache after an operation, which may have emptied it. -/
def remembered (m m' : Machine) (cache : Set Lookup) : Set Lookup :=
  if m'.flushes = m.flushes then cache else ∅

/-- The machines, books and caches that calls and lookups lead to from the start. -/
inductive Caches (config : Config) (layout : Layout) (policy : Policy) :
    Machine → Books → Set Lookup → Prop
  | boot {m : Machine} (start : Machine.boot config layout policy = .ok m) :
      Caches config layout policy m ⟨∅, ∅⟩ ∅
  | call {m m' : Machine} {b b' : Books} {cache : Set Lookup} {c : Call}
      (before : Caches config layout policy m b cache) (named : c.Named m b)
      (run : c.serve b m = .ok (b', m')) :
      Caches config layout policy m' b' (remembered m m' cache)
  | look {m : Machine} {b : Books} {cache : Set Lookup} {f : Lookup}
      (before : Caches config layout policy m b cache) (known : f.Known b)
      (holds : f.Holds m.ram) : Caches config layout policy m b (insert f cache)

namespace Kept

variable {l : Layout} {m m' : Machine} {b b' : Books} {v v' : View} {lost lost' : Owed}

/-- What the kernel maps for itself does not change unless the cache is emptied. -/
theorem kernel_leaf_eq (kept : Kept l m b v lost) (kept' : Kept l m' b' v' lost')
    (room : 8192 ≤ l.low.value) (stands : v.Stands v') (k : Place) :
    Space.kernel.leaf m'.ram k = Space.kernel.leaf m.ram k := by
  have quiet := kept.quiet room
  have same {g : FrameId} (untracked : ¬ v.tracks g = true) :
      m'.ram.bytes g = m.ram.bytes g := by
    have untracked' : ¬ v'.tracks g = true := by rwa [View.tracks, stands.layout]
    rw [kept.shows.bytes g (kept.sound.not_hidden_of_untracked untracked),
      kept'.shows.bytes g (kept'.sound.not_hidden_of_untracked untracked'),
      stands.untracked g untracked]
  apply Space.leaf_congr (same quiet.root.1)
  intro t linked
  rw [Space.link, kept.shows.bytes _ (kept.sound.not_hidden_of_untracked quiet.root.1)] at linked
  exact same (quiet.table k.1 t linked).1

/-- A lookup that stands is as good as a new one. -/
theorem holds_of_stands (kept : Kept l m b v lost) (kept' : Kept l m' b' v' lost')
    (room : 8192 ≤ l.low.value) (stands : v.Stands v') {f : Lookup} (known : f.Known b)
    (holds : f.Holds m.ram) : f.Known b' ∧ f.Holds m'.ram := by
  rcases known with live | kernel
  · rw [← kept.live] at live
    have live' := stands.live live
    refine ⟨.inl (kept'.live ▸ live'), ?_⟩
    rw [Lookup.Holds, kept.shows.leaf _ live] at holds
    rw [Lookup.Holds, kept'.shows.leaf _ live']
    exact holds.of_stands (stands.entries _ live _)
  · refine ⟨.inr kernel, ?_⟩
    rw [Lookup.Holds, kernel] at holds ⊢
    rwa [kept.kernel_leaf_eq kept' room stands]

end Kept

/-- Whatever is remembered over a call is as true after it as it was before. -/
theorem Call.upholds_lookups {l : Layout} {m : Machine} {b : Books} {v : View} {lost : Owed}
    {c : Call} {cache : Set Lookup} (named : c.Named m b) (kept : Kept l m b v lost)
    (room : 8192 ≤ l.low.value) (holds : ∀ f ∈ cache, f.Known b ∧ f.Holds m.ram) :
    Ends (c.serve b) m (fun _ => True) fun b' m' => (∃ v' lost', Kept l m' b' v' lost') ∧
      ∀ f ∈ remembered m m' cache, f.Known b' ∧ f.Holds m'.ram := by
  refine (Call.kept named kept).mono ?_
  rintro b' m' ⟨v', lost', kept', upholds, -⟩
  refine ⟨⟨v', lost', kept'⟩, ?_⟩
  unfold remembered
  split
  · next same =>
    intro f h
    rw [kept.shows.flushes, kept'.shows.flushes] at same
    rcases upholds with more | stands
    · exact absurd same (Nat.ne_of_gt more)
    · exact kept.holds_of_stands kept' room stands (holds f h).1 (holds f h).2
  · exact fun f h => h.elim

/-- After every run, what is remembered is true. -/
theorem Caches.kept {config : Config} {layout : Layout} {policy : Policy} {m : Machine} {b : Books}
    {cache : Set Lookup} (run : Caches config layout policy m b cache)
    (room : 8192 ≤ layout.low.value) :
    (∃ v lost, Kept layout m b v lost) ∧ ∀ f ∈ cache, f.Known b ∧ f.Holds m.ram := by
  induction run with
  | boot start => exact ⟨⟨_, _, .boot start⟩, fun f h => h.elim⟩
  | call before named run ih =>
    obtain ⟨⟨v, lost, kept⟩, holds⟩ := ih
    exact (Call.upholds_lookups named kept room holds).of_run run
  | look before known found ih =>
    refine ⟨ih.1, ?_⟩
    rintro f (rfl | h)
    · exact ⟨known, found⟩
    · exact ih.2 f h

theorem Caches.next {config : Config} {layout : Layout} {policy : Policy} {r : Books × Machine}
    {cache : Set Lookup} {c : Call} (before : Caches config layout policy r.2 r.1 cache)
    (named : c.Named r.2 r.1) (runs : (c.serve r.1 r.2).toBool = true) :
    Caches config layout policy (c.after r).2 (c.after r).1
      (remembered r.2 (c.after r).2 cache) :=
  .call before named (c.run_of_toBool runs)

/-- Whatever the processor remembers between two calls, memory still says so: the page is
present, in the same frame and with no fewer rights. Freeing a range and cloning one empty
the cache exactly once, whether they succeed or run out of memory. -/
theorem lookups_stay_true {config : Config} {layout : Layout} {policy : Policy} {m : Machine}
    {b : Books} {cache : Set Lookup} (room : 8192 ≤ layout.low.value)
    (run : Caches config layout policy m b cache) :
    (∀ f ∈ cache, f.Holds m.ram) ∧
    (∀ (s : Space) start size m₁ m₂, s.freeRange start size m₁ = .ok ((), m₂) →
      m₂.flushes = m₁.flushes + 1) ∧
    ∀ (parent child : Space) start size m₁ result m₂,
      outcome (parent.cloneRange child start size) m₁ = .ok (result, m₂) →
        m₂.flushes = m₁.flushes + 1 := by
  refine ⟨fun f h => ((run.kept room).2 f h).2, ?_, ?_⟩
  · intro s start size m₁ m₂ freed
    exact (s.flushes_freeRange start size m₁).of_run freed
  · intro parent child start size m₁ result m₂ cloned
    exact (parent.flushes_cloneRange child start size m₁).of_run cloned

section Tiny

/-- The processor looks up the only page and finds that it may be written to. -/
def tinyLookup : Lookup :=
  ⟨tinySpace, tinyPage, (tinySpace.leaf tinyAfter.2.ram tinyPage.splitSlots).frame, true⟩

/-- A page is handed out after that. -/
def tinyLater : Books × Machine :=
  Call.allocPage.after tinyAfter

theorem holds_tinyLookup : tinyLookup.Holds tinyAfter.2.ram := by
  unfold Lookup.Holds Lookup.Reads
  decide +kernel

/-- The lookup is still remembered when the page has been handed out. -/
theorem caches_tinyLater : ∃ cache, tinyLookup ∈ cache ∧
    Caches .standard .tiny .lowest tinyLater.2 tinyLater.1 cache := by
  have start : Caches .standard .tiny .lowest Machine.tiny ⟨∅, ∅⟩ ∅ := .boot Machine.boot_tiny
  have made := Caches.next (r := (⟨∅, ∅⟩, Machine.tiny)) (c := .create none .zero 0) start
    nofun (by decide +kernel)
  have mapped := Caches.next (r := tinyBefore) (c := tinyMapping) made
    allowed_tinyMapping.1 (by decide +kernel)
  have looked := Caches.look (f := tinyLookup) mapped (.inl (by decide +kernel)) holds_tinyLookup
  refine ⟨_, ?_, Caches.next (r := tinyAfter) (c := .allocPage) looked trivial (by decide +kernel)⟩
  have unflushed : (Call.allocPage.after tinyAfter).2.flushes = tinyAfter.2.flushes := by
    decide +kernel
  rw [remembered, if_pos unflushed]
  exact Set.mem_insert _ _

end Tiny

theorem lookups_stay_true_tiny : 8192 ≤ Layout.tiny.low.value ∧ ∃ cache, tinyLookup ∈ cache ∧
    Caches .standard .tiny .lowest tinyLater.2 tinyLater.1 cache ∧
    tinyLookup.Holds tinyLater.2.ram := by
  have room : 8192 ≤ Layout.tiny.low.value := by decide
  obtain ⟨cache, inside, run⟩ := caches_tinyLater
  exact ⟨room, cache, inside, run, (lookups_stay_true room run).1 tinyLookup inside⟩

end PagedMemory
