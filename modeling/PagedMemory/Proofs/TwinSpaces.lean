import Mathlib.Data.List.ReduceOption
import PagedMemory.Proofs.Twins

/-!
# Spaces and pages of twin machines

Which frames a clone uses for its tables is open, but on twin machines a clone of
corresponding spaces gets equally far and leads to views that are alike again
(`View.Twins.cloned`). So a space is made on both machines or on neither of them, and what
is made corresponds from then on. What ends, or is handed over, corresponds no longer.
-/

namespace PagedMemory

namespace Pairs

/-- Pages leave the hand of their holder. -/
def without (c : Pairs) (pages : List FrameId) : Pairs :=
  { c with pages := fun x y => c.pages x y ∧ x ∉ pages }

theorem Within.without_nil (c : Pairs) : (c.without []).Within c :=
  ⟨fun _ _ h => h, fun _ _ h => h.1⟩

/-- Pages leave the hand of their holder one after the other. -/
theorem Within.without (c : Pairs) {f : FrameId} {rest pages : List FrameId} (head : f ∈ pages)
    (tail : rest ⊆ pages) : (c.without pages).Within ((c.drop f).without rest) := by
  refine ⟨fun _ _ h => h, fun x y h => ⟨⟨h.1, ?_⟩, fun among => h.2 (tail among)⟩⟩
  rintro rfl
  exact h.2 head

end Pairs

namespace View

namespace Twins

variable {c : Pairs} {o : Owed} {ρ : Renaming} {v v' w w' : View} {p p' s s' : Space}

theorem freed (t : v.Twins c o ρ w) (hs : c.spaces s s') (slots : List Slot) :
    (v.freed s slots).Twins c o ρ (w.freed s' slots) := by
  obtain ⟨live, rfl⟩ := t.space s s' hs
  exact t.sparing (acts_freed live fun _ h => h) (fun _ h => h.sparing) (fun _ h => h.lasting)
    (t.alike.freed live slots)

/-- A page table of the child is made and filled on both sides. -/
private theorem clonedTable {i : Slot} {js rest : List Slot} {g g' : FrameId}
    (t : v.Twins c o ρ w) (hp : c.spaces p p') (hs : c.spaces s s')
    (ready : v.Ready o p s (i :: rest)) (distinct : js.Nodup) (free : v.Free g)
    (free' : w.Free g') :
    ∃ ρ' : Renaming, ((v.linked s i g).clonedTable p s i js).Twins c o ρ'
      ((w.linked s' i g').clonedTable p' s' i js) := by
  obtain ⟨ρ', rfl, t'⟩ := t.fresh free free'
  obtain ⟨live, rfl⟩ := t'.space p p' hp
  obtain ⟨-, rfl⟩ := t'.space s s' hs
  have acts := ready.acts free distinct (List.mem_singleton_self i)
  exact ⟨ρ', t'.sparing acts (fun _ h => h.sparing) (fun _ h => h.lasting)
    ((t'.alike.linked s i g).clonedTable live s i js)⟩

/-- A clone gets equally far on both sides. -/
theorem cloned {js slots : List Slot} {left left' : Option Slot} (t : v.Twins c o ρ w)
    (hp : c.spaces p p') (hs : c.spaces s s') (ready : v.Ready o p s slots) (distinct : js.Nodup)
    (cloned : v.Cloned p s js slots left v') (cloned' : w.Cloned p' s' js slots left' w') :
    left' = left ∧ ∃ ρ' : Renaming, v'.Twins c o ρ' w' := by
  have source {v w : View} {ρ : Renaming} (t : v.Twins c o ρ w) (i : Slot) :
      w.sourceLink p' i = (v.sourceLink p i).map ρ := by
    obtain ⟨live, rfl⟩ := t.space p p' hp
    unfold View.sourceLink
    rw [if_pos live, if_pos (t.alike.live' live), t.alike.link p live]
  -- The second clone has to take the same branch: a table is linked on both sides or on
  -- neither, and a frame is free on both or on neither. The renaming grows with each table.
  induction cloned generalizing w ρ with
  | done =>
    cases cloned'
    exact ⟨rfl, ρ, t⟩
  | @vacant v v' i rest left vacant more ih =>
    have none := source t i
    rw [vacant] at none
    cases cloned' with
    | vacant _ more' => exact ih t ready.tail more'
    | full linked' => exact nomatch none.symm.trans linked'
    | table linked' => exact nomatch none.symm.trans linked'
  | @full v i rest table linked full =>
    have found := source t i
    rw [linked] at found
    cases cloned' with
    | vacant vacant' => exact nomatch found.symm.trans vacant'
    | full => exact ⟨rfl, ρ, t⟩
    | table _ free' => exact (t.alike.no_free' full _ free').elim
  | @table v v' i rest left table g linked free more ih =>
    have found := source t i
    rw [linked] at found
    cases cloned' with
    | vacant vacant' => exact nomatch found.symm.trans vacant'
    | full _ full' => exact (t.alike.no_free full' _ free).elim
    | table _ free' more' =>
      obtain ⟨ρ', t'⟩ := t.clonedTable hp hs ready distinct free free'
      exact ih t' (ready.next free distinct) more'

end Twins

end View

/-- A space was just made on both sides and maps nothing yet. -/
def Founded (c : Pairs) (s s' : Space) (m n : Machine) : Prop :=
  ∃ o ρ v w, View.Twins c o ρ v w ∧ v.Free s.root ∧ w.Free s'.root ∧
    m.Shows (v.founded s) ∧ n.Shows (w.founded s')

namespace Twins

variable {c : Pairs} {m n : Machine} {s s' : Space}

theorem freeRange (t : Twins c m n) (hs : c.spaces s s') (start : VirtualAddress) (size : Nat) :
    Both (s.freeRange start size) (s'.freeRange start size) m n fun _ _ m' n' => Twins c m' n' := by
  cases range : rangeSlots .free start size with
  | error cause =>
    have stop : s.freeRange start size m = .error cause := by
      unfold Space.freeRange demand
      rw [range]
      rfl
    exact Both.of_stop stop
  | ok slots =>
    obtain ⟨o, ρ, v, w, t, shows, shows'⟩ := t
    obtain ⟨live, live'⟩ := t.live hs
    exact Both.of_ends (shows.freeRange t.sound live range) (shows'.freeRange t.sound' live' range)
      fun _ _ m' n' h h' => ⟨o, ρ, _, _, (t.freed hs slots).flushed, h, h'⟩

theorem releaseRoot (t : Twins c m n) (hs : c.spaces s s') :
    Both s.releaseRoot s'.releaseRoot m n fun _ _ m' n' => Twins (c.part s) m' n' := by
  obtain ⟨o, ρ, v, w, t, shows, shows'⟩ := t
  obtain ⟨live, live'⟩ := t.live hs
  refine Both.of_ends (shows.releaseRoot t.sound live) (shows'.releaseRoot t.sound' live') ?_
  rintro _ _ m' n' ⟨b, same, h⟩ ⟨b', same', h'⟩
  obtain ⟨o', t'⟩ := t.ended hs same same'
  exact ⟨o', ρ, _, _, t', h, h'⟩

theorem destroy (t : Twins c m n) (hs : c.spaces s s') (start : VirtualAddress) (size : Nat) :
    Both (s.destroy start size) (s'.destroy start size) m n fun _ _ m' n' =>
      Twins (c.part s) m' n' :=
  (t.freeRange hs start size).bind fun _ _ _ _ t₁ => t₁.releaseRoot hs

theorem create (t : Twins c m n) :
    BothTry Space.create Space.create m n (Founded c) (Twins c) := by
  obtain ⟨o, ρ, v, w, t, shows, shows'⟩ := t
  refine BothTry.of_tries (shows.create t.sound) (shows'.create t.sound') ?_ ?_ ?_ ?_
  · rintro s s' m' n' ⟨free, h⟩ ⟨free', h'⟩
    exact ⟨o, ρ, v, w, t, free, free', h, h'⟩
  · rintro _ _ m' n' ⟨rfl, -, h⟩ ⟨rfl, -, h'⟩
    exact ⟨rfl, o, ρ, v, w, t, h, h'⟩
  · rintro s _ m' n' ⟨free, -⟩ ⟨-, full, -⟩
    exact t.alike.no_free full _ free
  · rintro _ s' m' n' ⟨-, full, -⟩ ⟨free', -⟩
    exact t.alike.no_free' full _ free'

end Twins

namespace Founded

variable {c : Pairs} {m n : Machine} {p p' s s' : Space}

theorem twins (founded : Founded c s s' m n) : Twins (c.join s s') m n := by
  obtain ⟨o, ρ, v, w, t, free, free', shows, shows'⟩ := founded
  obtain ⟨ρ', t'⟩ := t.founded free free'
  exact ⟨o, ρ', _, _, t', shows, shows'⟩

/-- A new space is none of those that were there before. -/
theorem apart (founded : Founded c s s' m n) (x : Space) : ¬ c.spaces s x := by
  obtain ⟨o, ρ, v, w, t, free, -⟩ := founded
  exact fun h => t.sound.fresh free (t.space s x h).1

/-- A range of a parent is cloned into the new space as far as the free frames go. -/
theorem cloneRange (founded : Founded c s s' m n) (hp : c.spaces p p') (start : VirtualAddress)
    (size : Nat) :
    BothTry (p.cloneRange s start size) (p'.cloneRange s' start size) m n
      (fun _ _ m' n' => Twins (c.join s s') m' n') (Twins (c.join s s')) := by
  cases range : rangeSlots .clone start size with
  | error cause =>
    have stop : p.cloneInto s start size m = .error cause := by
      unfold Space.cloneInto demand
      rw [range]
      rfl
    exact BothTry.lift_bind (P := fun _ _ _ _ => False) (Both.of_stop stop)
      fun _ _ _ _ => False.elim
  | ok slots =>
    obtain ⟨o, ρ, v, w, t, free, free', shows, shows'⟩ := founded
    obtain ⟨source, source'⟩ := t.live hp
    have slotsDistinct := nodup_rangeSlots range
    have ready := View.ready_founded t.sound (.inl source) free slotsDistinct
    have ready' := View.ready_founded t.sound' (.inl source') free' slotsDistinct
    obtain ⟨ρ', t'⟩ := t.founded free free'
    have equally {left left' : Option Slot} {v' w' : View}
        (cloned : (v.founded s).Cloned p s (Space.clonedEntries start) slots left v')
        (cloned' : (w.founded s').Cloned p' s' (Space.clonedEntries start) slots left' w') :
        left' = left ∧ ∃ ρ' : Renaming, v'.Twins (c.join s s') o ρ' w' :=
      t'.cloned (.inl hp) (.inr ⟨rfl, rfl⟩) ready (nodup_clonedEntries start) cloned cloned'
    refine BothTry.of_tries (shows.cloneRange ready range) (shows'.cloneRange ready' range)
      ?_ ?_ ?_ ?_
    · rintro _ _ m' n' ⟨v', cloned, h⟩ ⟨w', cloned', h'⟩
      obtain ⟨-, ρ₁, t₁⟩ := equally cloned cloned'
      exact ⟨o, ρ₁, _, _, t₁.flushed, h, h'⟩
    · rintro _ _ m' n' ⟨rfl, i, v', cloned, h⟩ ⟨rfl, i', w', cloned', h'⟩
      obtain ⟨-, ρ₁, t₁⟩ := equally cloned cloned'
      exact ⟨rfl, o, ρ₁, _, _, (t₁.freed (.inr ⟨rfl, rfl⟩) slots).flushed, h, h'⟩
    · rintro _ _ m' n' ⟨v', cloned, -⟩ ⟨-, i', w', cloned', -⟩
      exact nomatch (equally cloned cloned').1
    · rintro _ _ m' n' ⟨-, i, v', cloned, -⟩ ⟨w', cloned', -⟩
      exact nomatch (equally cloned cloned').1

end Founded

namespace Twins

variable {c : Pairs} {m n : Machine}

theorem createFrom (t : Twins c m n) {parent parent' : Option Space}
    (parents : Option.Rel c.spaces parent parent') (start : VirtualAddress) (size : Nat) :
    BothTry (Space.createFrom parent start size) (Space.createFrom parent' start size) m n
      (fun s s' m' n' => (∀ x, ¬ c.spaces s x) ∧ Twins (c.join s s') m' n') (Twins c) := by
  refine BothTry.bind t.create fun s s' m₁ n₁ founded => ?_
  cases parents with
  | none => exact BothTry.pure ⟨founded.apart, founded.twins⟩
  | some hp =>
    have cloned := (founded.cloneRange hp start size).mono (fun _ _ _ _ t₂ => t₂)
      fun m₂ n₂ t₂ => (t₂.releaseRoot (.inr ⟨rfl, rfl⟩)).mono fun _ _ _ _ t₃ =>
        t₃.mono (.join_part founded.apart s')
    exact BothTry.bind cloned.undoing fun _ _ m₂ n₂ t₂ => BothTry.pure ⟨founded.apart, t₂⟩

/-! ## Pages in hand -/

theorem allocPage (t : Twins c m n) :
    BothTry PagedMemory.allocPage PagedMemory.allocPage m n
      (fun f g m' n' => ¬ c.held f ∧ Twins (c.hold f g) m' n') (Twins c) := by
  refine BothTry.bind t.allocFrame fun f g m₁ n₁ fresh => ?_
  refine BothTry.lift_bind fresh.zeroFrame fun _ _ m₂ n₂ t₂ => ?_
  exact BothTry.pure ⟨fresh.not_held, t₂⟩

/-- Pages are given up in turn, each of them together with the one that it corresponds to. -/
theorem releaseEach (pages : List (FrameId × FrameId)) (t : Twins c m n)
    (held : ∀ x ∈ pages, c.pages x.1 x.2) (distinct : (pages.map Prod.fst).Nodup) :
    Both ((pages.map Prod.fst).forM PagedMemory.release)
      ((pages.map Prod.snd).forM PagedMemory.release) m n fun _ _ m' n' =>
        Twins (c.without (pages.map Prod.fst)) m' n' := by
  induction pages generalizing c m n with
  | nil => exact Both.pure (t.mono (.without_nil c))
  | cons x pages ih =>
    obtain ⟨apart, distinct⟩ := List.nodup_cons.mp distinct
    refine (t.release (held x List.mem_cons_self)).bind fun _ _ m₁ n₁ t₁ => ?_
    refine (ih t₁ (fun y hy => ⟨held y (List.mem_cons_of_mem _ hy), ?_⟩) distinct).mono
      fun _ _ m₂ n₂ t₂ => t₂.mono (.without c List.mem_cons_self (List.subset_cons_self _ _))
    intro same
    exact apart (List.mem_map.mpr ⟨y, hy, same⟩)

/-- A list of numbered pages, the last one first, as far as index `k`. -/
private theorem zipIdx_take_succ {α β : Type} {xs : List α} {k : Nat} {x : α} (φ : α → β)
    (found : xs[k]? = some x) :
    ((xs.take (k + 1)).map φ).zipIdx.reverse =
      (φ x, k) :: ((xs.take k).map φ).zipIdx.reverse := by
  rw [List.map_take, List.map_take]
  exact zipIdx_reverse_succ (by rw [List.getElem?_map, found]; rfl)

/-- The pages among the first `k` leave the hands of their holders, whether all of them can
be mapped or not. -/
theorem installEach {s s' : Space} (start : VirtualAddress)
    (whole : List (Option (FrameId × FrameId))) (k : Nat) (t : Twins c m n) (hs : c.spaces s s')
    (held : ∀ x ∈ (whole.take k).reduceOption, c.pages x.1 x.2)
    (distinct : ((whole.take k).reduceOption.map Prod.fst).Nodup) :
    BothTry
      (s.installEach start (whole.map (Option.map Prod.fst))
        ((whole.take k).map (Option.map Prod.fst)).zipIdx.reverse)
      (s'.installEach start (whole.map (Option.map Prod.snd))
        ((whole.take k).map (Option.map Prod.snd)).zipIdx.reverse) m n
      (fun _ _ m' n' => Twins (c.without ((whole.take k).reduceOption.map Prod.fst)) m' n')
      (Twins (c.without ((whole.take k).reduceOption.map Prod.fst))) := by
  -- The last page goes first, and the rest correspond without it.
  induction k generalizing c m n with
  | zero => exact BothTry.pure (t.mono (.without_nil c))
  | succ k ih =>
    cases found : whole[k]? with
    | none =>
      have same : whole.take (k + 1) = whole.take k := by simp [List.take_add_one, found]
      rw [same] at held distinct ⊢
      exact ih t hs held distinct
    | some entry =>
      rw [zipIdx_take_succ _ found, zipIdx_take_succ _ found]
      cases entry with
      | none =>
        have same : (whole.take (k + 1)).reduceOption = (whole.take k).reduceOption := by
          simp [List.take_add_one, found, List.reduceOption_append]
        rw [same] at held distinct ⊢
        exact ih t hs held distinct
      | some x =>
        have last : (whole.take (k + 1)).reduceOption = (whole.take k).reduceOption ++ [x] := by
          simp [List.take_add_one, found, List.reduceOption_append]
        have given (φ : FrameId × FrameId → FrameId) :
            ((whole.map (Option.map φ)).take (k + 1)).filterMap id =
              ((whole.take (k + 1)).reduceOption).map φ := by
          rw [← List.map_take, ← List.reduceOption_map]
          rfl
        unfold Space.installEach Space.argumentAddress
        dsimp only [Option.map_some]
        cases place : start.add (taskSize - (maxArgumentPages - k) * pageBytes) with
        | error cause =>
          exact BothTry.lift_bind (P := fun _ _ _ _ => False) (Both.of_stop rfl)
            fun _ _ _ _ => False.elim
        | ok va =>
          refine BothTry.lift_bind (P := fun a b m' n' => (a = va ∧ b = va) ∧ Twins c m' n')
            (Both.pure ⟨⟨rfl, rfl⟩, t⟩) ?_
          rintro _ va m₁ n₁ ⟨⟨rfl, rfl⟩, t₁⟩
          rw [given, given]
          have mapped := (t₁.mapOne hs (held x (by simp [last])) va).mono
            (fun _ _ _ _ t₂ => t₂) fun m₂ n₂ t₂ => releaseEach _ t₂ held distinct
          refine BothTry.bind mapped.undoing fun _ _ m₂ n₂ t₂ => ?_
          rw [last] at held distinct ⊢
          rw [List.map_append] at distinct ⊢
          obtain ⟨distinct, -, apart⟩ := List.nodup_append.mp distinct
          have rest := ih t₂ hs (fun y hy => ⟨held y (List.mem_append_left _ hy),
            apart y.1 (List.mem_map_of_mem hy) x.1 (List.mem_singleton_self _)⟩) distinct
          have within := Pairs.Within.without c
            (List.mem_append_right _ (List.mem_singleton_self x.1))
            (List.subset_append_left ((whole.take k).reduceOption.map Prod.fst) [x.1])
          exact rest.mono (fun _ _ _ _ t₃ => t₃.mono within) fun _ _ t₃ => t₃.mono within

/-- The pages leave the hands of their holders, whether all of them can be mapped or not. -/
theorem installArguments {s s' : Space} (start : VirtualAddress)
    (whole : List (Option (FrameId × FrameId))) (t : Twins c m n) (hs : c.spaces s s')
    (held : ∀ x ∈ whole.reduceOption, c.pages x.1 x.2)
    (distinct : (whole.reduceOption.map Prod.fst).Nodup) :
    BothTry (s.installArguments start (whole.map (Option.map Prod.fst)))
      (s'.installArguments start (whole.map (Option.map Prod.snd))) m n
      (fun _ _ m' n' => Twins (c.without (whole.reduceOption.map Prod.fst)) m' n')
      (Twins (c.without (whole.reduceOption.map Prod.fst))) := by
  have each := installEach start whole whole.length t hs
  rw [List.take_length] at each
  unfold Space.installArguments
  rw [List.length_map, List.length_map]
  split
  · exact BothTry.bind (P := fun _ _ _ _ => False) BothTry.halt fun _ _ _ _ => False.elim
  · exact each held distinct

end Twins

end PagedMemory
