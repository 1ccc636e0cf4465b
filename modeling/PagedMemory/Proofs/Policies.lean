import Mathlib.Data.Fintype.Fin
import PagedMemory.Proofs.Playing

/-!
# The choice of frames cannot be observed

Which free frame is handed out next is a matter of policy. A script that is played under two
policies uses different frames, and recycled frames hold different bytes. Yet every frame is
overwritten before anybody can look into it, so that the replies are the same, and what the
two machines are left with differs in the names of the frames only (`Corresponds`).
-/

namespace PagedMemory

/-! ## Counting frames -/

namespace FramePool

variable {p q : FramePool}

/-- How many frames have a given count. -/
theorem count_counts (p : FramePool) (k : Nat) :
    p.counts.count k =
      (Finset.univ.filter fun i : Fin p.counts.size => p.count (p.frame i) = k).card := by
  simp only [count_frame]
  rw [← Array.count_toList]
  exact (Fin.card_filter_univ_eq_vector_get_eq_count k ⟨p.counts.toList, rfl⟩).symm

private theorem count_counts_le (ρ : Renaming)
    (same : ∀ f, p.manages f → q.manages (ρ f) ∧ q.count (ρ f) = p.count f) (k : Nat) :
    p.counts.count k ≤ q.counts.count k := by
  have placed (i : Fin p.counts.size) : ∃ j, q.frame j = ρ (p.frame i) :=
    exists_frame_eq (same _ (p.manages_frame i)).1
  choose place at_place using placed
  rw [count_counts, count_counts]
  refine Finset.card_le_card_of_injOn place ?_ ?_
  · intro i hi
    rw [Finset.mem_coe, Finset.mem_filter] at hi ⊢
    refine ⟨Finset.mem_univ _, ?_⟩
    rw [at_place, (same _ (p.manages_frame i)).2, hi.2]
  · intro i _ j _ together
    have frames : p.frame i = p.frame j := ρ.injective (by rw [← at_place, together, at_place])
    have indexes := congrArg Page.index frames
    rw [index_frame, index_frame] at indexes
    exact Fin.ext (Nat.add_left_cancel indexes)

/-- The statistics do not depend on which frame is which. -/
theorem stats_eq (ρ : Renaming) (layout : q.layout = p.layout)
    (manages : ∀ f, q.manages (ρ f) = p.manages f)
    (count : ∀ f, p.manages f = true → q.count (ρ f) = p.count f) : q.stats = p.stats := by
  -- The renaming and its inverse carry free frames to free frames.
  have free : q.counts.count 0 = p.counts.count 0 := by
    refine Nat.le_antisymm (count_counts_le ρ.symm (fun f tracked => ?_) 0)
      (count_counts_le ρ (fun f tracked => ⟨(manages f).trans tracked, count f tracked⟩) 0)
    rw [← ρ.apply_symm_apply f, manages] at tracked
    refine ⟨tracked, ?_⟩
    rw [← count _ tracked, ρ.apply_symm_apply]
  unfold stats
  rw [q.size_counts, p.size_counts, layout, free]

end FramePool

/-! ## What the users are left with -/

/-- What the users of two machines can name is the same up to the names of frames: the
spaces with their page tables, the pages, what can be read in them, and how many references
there are to each frame. -/
structure Corresponds (ρ : Renaming) (h : Handles) (m : Machine) (h' : Handles) (n : Machine) :
    Prop where
  spaces : ∀ i, h'.spaces i = (h.spaces i).map (Space.rename ρ)
  pages : ∀ i, h'.pages i = (h.pages i).map ρ
  link : ∀ i s, h.spaces i = some s → ∀ j, (s.rename ρ).link n.ram j = (s.link m.ram j).map ρ
  leaf : ∀ i s, h.spaces i = some s → ∀ k, (s.rename ρ).leaf n.ram k = (s.leaf m.ram k).rename ρ
  mapped : ∀ i s, h.spaces i = some s → ∀ k f, (s.leaf m.ram k).target = some f →
    n.ram.bytes (ρ f) = m.ram.bytes f
  held : ∀ i f, h.pages i = some f → n.ram.bytes (ρ f) = m.ram.bytes f
  refCount? : ∀ f, n.pool.refCount? (ρ f) = m.pool.refCount? f

namespace Kin

variable {h h' : Handles} {m n : Machine}

/-- What is seen in a frame that a user can reach. -/
private theorem bytes_eq {c : Pairs} {o : Owed} {ρ : Renaming} {v w : View} {f : FrameId}
    (t : View.Twins c o ρ v w) (shows : m.Shows v) (shows' : n.Shows w)
    (visible : v.Visible c.held f) : n.ram.bytes (ρ f) = m.ram.bytes f := by
  have shown := t.shown visible
  rw [shows.bytes f shown, shows'.bytes _ fun hidden => shown (t.alike.hidden hidden)]
  exact t.alike.bytes f visible

theorem corresponds (kin : Kin h h' m n) :
    n.reads = m.reads ∧ n.terminations = m.terminations ∧ n.flushes = m.flushes ∧
      n.pool.stats = m.pool.stats ∧ ∃ ρ : Renaming, Corresponds ρ h m h' n := by
  obtain ⟨o, ρ, v, w, t, shows, shows'⟩ := kin.twins
  have manages (f : FrameId) : n.pool.manages (ρ f) = m.pool.manages f := by
    rw [shows.manages, shows'.manages, t.alike.tracks']
  have count (f : FrameId) (tracked : m.pool.manages f = true) :
      n.pool.count (ρ f) = m.pool.count f := by
    have tracked' := (manages f).trans tracked
    rw [shows.manages] at tracked
    rw [shows'.manages] at tracked'
    rw [shows.count f tracked, shows'.count _ tracked', t.alike.count f tracked]
  have layout : n.pool.layout = m.pool.layout := by
    rw [shows.layout, shows'.layout, t.alike.layout]
  have live {i : Nat} {s : Space} (found : h.spaces i = some s) : s ∈ v.live := by
    obtain ⟨s', found'⟩ := kin.spaces.exists_eq_some found
    exact (t.space s s' ⟨i, found, found'⟩).1
  refine ⟨?_, ?_, ?_, FramePool.stats_eq ρ layout manages count, ρ, ?_⟩
  · rw [shows.reads, shows'.reads, t.alike.reads]
  · rw [shows.terminations, shows'.terminations, t.alike.terminations]
  · rw [shows.flushes, shows'.flushes, t.alike.flushes]
  · constructor
    · exact kin.spaces.eq_map fun s s' paired => (t.space s s' paired).2
    · exact kin.pages.eq_map fun f g paired => (t.page f g paired).1
    · intro i s found j
      rw [shows.link s (live found), shows'.link _ (t.alike.live' (live found)),
        t.alike.link s (live found)]
    · intro i s found k
      rw [shows.leaf s (live found), shows'.leaf _ (t.alike.live' (live found)),
        t.alike.leaf s (live found)]
    · intro i s found k f target
      rw [shows.leaf s (live found)] at target
      exact bytes_eq t shows shows' (.inr ⟨s, live found, k, target⟩)
    · intro i f found
      obtain ⟨g, found'⟩ := kin.pages.exists_eq_some found
      exact bytes_eq t shows shows' (.inl ⟨g, i, found, found'⟩)
    · intro f
      unfold FramePool.refCount?
      rw [manages]
      split
      · next tracked => rw [count f tracked]
      · rfl

end Kin

/-! ## Whole scripts -/

/-- Under all policies a script has the same replies and leaves the machines kin. -/
theorem Plays.kin {config : Config} {layout : Layout} {policy policy' : Policy}
    {script : List Instruction} {replies replies' : List Reply} {h h' : Handles} {m n : Machine}
    (clears : config.zeroFill = true) (first : Plays config layout policy script replies h m)
    (second : Plays config layout policy' script replies' h' n) :
    replies' = replies ∧ Kin h h' m n := by
  induction first generalizing replies' h' n with
  | start boot =>
    obtain ⟨rfl, rfl, boot'⟩ := second.of_nil
    exact ⟨rfl, .boot clears boot boot'⟩
  | @next script replies h m m' instruction op result before known run ih =>
    obtain ⟨replies₀, h₀, n₀, op', result', before', known', run', rfl, rfl⟩ := second.of_concat
    obtain ⟨rfl, kin⟩ := ih before'
    have answered := kin.played known known' script.length result m' result' n run run'
    rcases result with cause | a <;> rcases result' with cause' | b
    · obtain ⟨rfl, kin'⟩ := answered
      exact ⟨rfl, kin'⟩
    · exact answered.elim
    · exact answered.elim
    · obtain ⟨same, kin'⟩ := answered
      refine ⟨?_, kin'⟩
      show _ ++ [Except.ok b.anonymous] = _ ++ [Except.ok a.anonymous]
      rw [same]

/-- Nobody can tell by which policy frames are handed out, neither from the replies to a
script nor from what it leaves behind. -/
theorem frame_policy_unobservable {config : Config} {layout : Layout} {policy policy' : Policy}
    {script : List Instruction} {replies replies' : List Reply} {h h' : Handles} {m n : Machine}
    (clears : config.zeroFill = true) (first : Plays config layout policy script replies h m)
    (second : Plays config layout policy' script replies' h' n) :
    replies' = replies ∧ n.reads = m.reads ∧ n.terminations = m.terminations ∧
      n.flushes = m.flushes ∧ n.pool.stats = m.pool.stats ∧
      ∃ ρ : Renaming, Corresponds ρ h m h' n := by
  obtain ⟨same, kin⟩ := first.kin clears second
  exact ⟨same, kin.corresponds⟩

section Tiny

/-- One process, whose space is the first thing that is given out. -/
def tinyScene : Scene where
  current := 1
  processes := [1]
  space _ := some 0
  image _ := none
  openCount _ := 0
  device _ := 0
  blockMap _ _ := 0
  readBlock _ _ := .ok (Vector.replicate 1024 0)

def tinyAddress : VirtualAddress :=
  Address.zero.wrappingAdd taskSize

/-- Where the directory of the first space is. -/
def tinyRoot : Policy → FrameId
  | .lowest => tinyFrame 2
  | .highest => tinyFrame 7

def tinyStart (policy : Policy) : Machine :=
  { Machine.tiny with pool := { Machine.tiny.pool with policy := policy } }

/-- A space is made and gets a page, which its process reads. -/
def tinyScript : List Instruction :=
  [.create none .zero 0, .mapEmpty 0 tinyAddress, .copyIn tinyScene tinyAddress 2]

theorem plays_tinyScript (policy : Policy) : ∃ h m, h.spaces 0 = some ⟨tinyRoot policy⟩ ∧
    Plays .standard .tiny policy tinyScript
      [.ok (.space ()), .ok .done, .ok (.bytes [0, 0])] h m := by
  let h : Handles := ⟨fun i => if i = 0 then some ⟨tinyRoot policy⟩ else none, fun _ => none⟩
  let create : Attempt (Product Space FrameId) := do
    return .space (← Space.createFrom none .zero 0)
  let fill : Attempt (Product Space FrameId) := do
    mapEmptyPage ⟨tinyRoot policy⟩ tinyAddress
    return .done
  let read : Attempt (Product Space FrameId) := do
    return .bytes (← copyFromUser (tinyScene.environment h) tinyAddress 2)
  have made : (tinyStart policy).product create = some (.space ⟨tinyRoot policy⟩) := by
    cases policy <;> decide +kernel
  have filled : ((tinyStart policy).after create).product fill = some .done := by
    cases policy <;> decide +kernel
  have seen : (((tinyStart policy).after create).after fill).product read =
      some (.bytes [0, 0]) := by
    cases policy <;> decide +kernel
  have first : Plays .standard .tiny policy [.create none .zero 0] [.ok (.space ())] h _ :=
    .next (.start rfl) rfl (Machine.run_of_product made)
  have second : Plays .standard .tiny policy [.create none .zero 0, .mapEmpty 0 tinyAddress]
      [.ok (.space ()), .ok .done] h _ :=
    .next first rfl (Machine.run_of_product filled)
  exact ⟨h, _, rfl, .next second rfl (Machine.run_of_product seen)⟩

theorem frame_policy_unobservable_tiny : ∃ replies h h' m n,
    Plays .standard .tiny .lowest tinyScript replies h m ∧
    Plays .standard .tiny .highest tinyScript replies h' n ∧
    h.spaces 0 = some ⟨⟨2, by decide⟩⟩ ∧ h'.spaces 0 = some ⟨⟨7, by decide⟩⟩ ∧
    n.pool.stats = m.pool.stats ∧ ∃ ρ : Renaming, Corresponds ρ h m h' n := by
  obtain ⟨h, m, root, lowest⟩ := plays_tinyScript .lowest
  obtain ⟨h', n, root', highest⟩ := plays_tinyScript .highest
  obtain ⟨-, -, -, -, stats, related⟩ := frame_policy_unobservable rfl lowest highest
  exact ⟨_, h, h', m, n, lowest, highest, root, root', stats, related⟩

end Tiny

end PagedMemory
