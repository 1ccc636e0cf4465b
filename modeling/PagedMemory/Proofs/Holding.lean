import PagedMemory.Proofs.Lifecycle
import PagedMemory.Proofs.Lookups

/-!
# Pages in hand

Pages are held by whoever was handed them. Argument pages pass from the one who holds
them to the entries that map them, the last one first. When one of them cannot be
mapped, it is given up together with those that were still to be mapped, so that no
reference is left in hand either way.

An entry that is replaced on the way leaves its reference to nobody. That is the only
loss: nothing is owed afterwards that was not owed before if the pages go where nothing
was mapped.
-/

namespace PagedMemory

/-- The references of somebody who holds each page of a list. -/
def tally (pages : List FrameId) : Owed :=
  fun f => pages.count f

theorem tally_cons (f : FrameId) (pages : List FrameId) :
    tally (f :: pages) = tally pages + hits (some f) := by
  funext g
  simp only [tally, Pi.add_apply, hits, List.count_cons, beq_iff_eq, Option.some.injEq]

theorem tally_concat (pages : List FrameId) (f : FrameId) :
    tally (pages ++ [f]) = tally pages + hits (some f) := by
  rw [← tally_cons]
  funext g
  simp only [tally, List.count_append, List.count_cons, List.count_nil, Nat.zero_add]

theorem tally_pos {f : FrameId} {pages : List FrameId} (h : f ∈ pages) : 0 < tally pages f :=
  List.count_pos_iff.mpr h

/-- The changes that handing pages to a space may make. -/
inductive Installs (s : Space) (pages : List FrameId) : Change → Prop
  | link {i : Slot} : Installs s pages (.link s i)
  | install {k : Place} {f : FrameId} (given : f ∈ pages) : Installs s pages (.install s k f)
  | yield {f : FrameId} (given : f ∈ pages) : Installs s pages (.yield f)

theorem Installs.lasting {s : Space} {pages : List FrameId} {c : Change}
    (h : Installs s pages c) (s' : Space) : c ≠ .create s' ∧ c ≠ .destroy s' := by
  cases h <;> exact ⟨nofun, nofun⟩

theorem Installs.gentle {s : Space} {pages : List FrameId} {c : Change}
    (h : Installs s pages c) : c.Gentle := by
  cases h <;> trivial

/-- The pages among the first `n` of a numbered list. -/
def numbered (pages : List (Option FrameId)) (n : Nat) : List FrameId :=
  (pages.take n).filterMap id

theorem numbered_succ {pages : List (Option FrameId)} {n : Nat} {f : FrameId}
    (h : pages[n]? = some (some f)) : numbered pages (n + 1) = numbered pages n ++ [f] := by
  simp [numbered, List.take_add_one, h]

theorem numbered_succ_of_none {pages : List (Option FrameId)} {n : Nat}
    (h : pages[n]? = some none ∨ pages[n]? = none) :
    numbered pages (n + 1) = numbered pages n := by
  rcases h with h | h <;> simp [numbered, List.take_add_one, h]

theorem numbered_length (pages : List (Option FrameId)) :
    numbered pages pages.length = pages.filterMap id := by
  rw [numbered, List.take_length]

/-- A numbered list, the last entry first, as far as index `n`. -/
theorem zipIdx_reverse_succ {α : Type} {xs : List α} {n : Nat} {x : α} (found : xs[n]? = some x) :
    (xs.take (n + 1)).zipIdx.reverse = (x, n) :: (xs.take n).zipIdx.reverse := by
  have inside : n < xs.length := (List.getElem?_eq_some_iff.mp found).1
  simp [List.take_add_one, found, List.zipIdx_append, Nat.min_eq_left (Nat.le_of_lt inside)]

namespace Space

/-- Where the argument page with a given index goes. -/
def ArgumentAt (start : VirtualAddress) (i : Nat) (va : VirtualAddress) : Prop :=
  start.add (taskSize - (maxArgumentPages - i) * pageBytes) = .ok va

theorem ArgumentAt.value {start va : VirtualAddress} {i : Nat} (h : ArgumentAt start i va) :
    va.value = start.value + (67108864 - (32 - i) * 4096) := by
  unfold ArgumentAt Address.add Address.add? Address.ofValue? at h
  split at h
  · next b found =>
    split at found
    · cases found
      cases h
      rfl
    · cases found
  · cases h

/-- Argument pages with different indices go to different pages. -/
theorem ArgumentAt.splitSlots_ne {start va va' : VirtualAddress} {i j : Nat}
    (h : ArgumentAt start i va) (h' : ArgumentAt start j va') (below : i < j) (few : j < 32) :
    va.splitSlots ≠ va'.splitSlots := by
  intro same
  have directory := congrArg (fun k => k.1.val) same
  have table := congrArg (fun k => k.2.val) same
  simp only [Address.splitSlots, Address.directorySlot, Address.tableSlot, h.value, h'.value]
    at directory table
  omega

end Space

/-- Argument pages are mapped in turn, the last one first. An invariant tells for every index what
holds when the pages below it are left. -/
theorem Tries.installEach {s : Space} {start : VirtualAddress} {pages : List (Option FrameId)}
    {stops : Halt → Prop} {failed : MemoryError → Machine → Prop} (I : Nat → Machine → Prop)
    (skip : ∀ n m, pages[n]? = some none → I (n + 1) m → I n m)
    (stuck : ∀ n f cause, pages[n]? = some (some f) →
      start.add (taskSize - (maxArgumentPages - n) * pageBytes) = .error cause → stops cause)
    (step : ∀ n f va m, pages[n]? = some (some f) → Space.ArgumentAt start n va → I (n + 1) m →
      Tries (s.mapOne f va .userWritable) m stops (fun _ m' => I n m') fun cause m' =>
        Ends ((numbered pages (n + 1)).forM release) m' stops fun _ m'' => failed cause m'')
    (n : Nat) (inside : n ≤ pages.length) (m : Machine) (left : I n m) :
    Tries (s.installEach start pages (pages.take n).zipIdx.reverse) m stops
      (fun _ m' => I 0 m') failed := by
  induction n generalizing m with
  | zero => exact Tries.pure left
  | succ n ih =>
    have found := List.getElem?_eq_getElem inside
    rw [zipIdx_reverse_succ found]
    cases entry : pages[n] with
    | none => exact ih (by omega) m (skip n m (found.trans (congrArg some entry)) left)
    | some f =>
      rw [entry] at found
      unfold Space.installEach
      refine Tries.lift_bind (P := fun va m' => Space.ArgumentAt start n va ∧ m' = m)
        (Ends.look (fun _ place => ⟨place, rfl⟩) fun cause => stuck n f cause found) ?_
      rintro va _ ⟨place, rfl⟩
      refine Tries.bind (Tries.undoing (step n f va _ found place left)) ?_
      intro _ m' next
      exact ih (by omega) m' next

namespace View

variable {v v' : View} {o : Owed} {s : Space}

/-- The holder of each page of the list has the only reference to it. -/
structure Holds (v : View) (pages : List FrameId) : Prop where
  distinct : pages.Nodup
  tracked : ∀ f ∈ pages, v.tracks f = true
  one : ∀ f ∈ pages, v.count f = 1

/-- Nothing is mapped where the argument pages below index `n` go. -/
def Vacant (v : View) (s : Space) (start : VirtualAddress) (pages : List (Option FrameId))
    (n : Nat) : Prop :=
  ∀ i f va, i < n → pages[i]? = some (some f) → Space.ArgumentAt start i va →
    (v.leaf s va.splitSlots).present = false

theorem Sound.not_free_of_owed (sound : v.Sound o) {f : FrameId} (held : 0 < o f) :
    ¬ v.Free f := by
  rintro ⟨tracked, zero⟩
  have := sound.counted f tracked
  omega

/-- Handing over the last page of a list does not touch the others. -/
theorem Holds.handed {pages : List FrameId} {f : FrameId} {k : Place} {i : Slot} {o' : Owed}
    (holds : v.Holds (pages ++ [f])) (sound : v.Sound (o + tally pages + hits (some f)))
    (acts : Acts (fun c => c = .link s i ∨ c = .install s k f) v
      (o + tally pages + hits (some f)) v' o') : v'.Holds pages := by
  have distinct := List.nodup_append.mp holds.distinct
  refine ⟨distinct.1, fun g h => ?_, fun g h => ?_⟩
  · exact (acts.tracks g).trans (holds.tracked g (List.mem_append_left _ h))
  · have held : 0 < (o + tally pages + hits (some f)) g := by
      have := tally_pos h
      rw [Pi.add_apply, Pi.add_apply]
      omega
    refine (acts.held sound (holds.tracked g (List.mem_append_left _ h)) held
      (holds.one g (List.mem_append_left _ h)) ?_).2
    rintro c (rfl | rfl)
    · exact ⟨nofun, nofun⟩
    · refine ⟨nofun, fun s' k' same => ?_⟩
      cases same
      exact distinct.2.2 _ h _ (List.mem_singleton_self _) rfl

/-- A page is handed over to an entry. -/
theorem acts_handed {allowed : Change → Prop} {k : Place} {f t : FrameId} (hs : s ∈ v.live)
    (tracked : v.tracks f = true) (one : v.count f = 1) (covers : v.Covers s k.1 t v')
    (link : allowed (.link s k.1)) (install : allowed (.install s k f)) :
    Acts allowed v (o + hits (some f)) (v'.remap s k (.make f .userWritable))
      (o + hits (v.leaf s k).target) := by
  have used : ¬ v.Free f := fun free => Nat.one_ne_zero (one.symm.trans free.2)
  rw [← covers.leaf]
  refine (covers.acts hs link).tail install (.install (covers.live ▸ hs) ?_ ?_ rfl)
  · rwa [covers.tracks]
  · rwa [(covers.of_not_free used).1]

end View

namespace Machine.Shows

variable {m : Machine} {v : View} {o : Owed} {s : Space}

theorem allocPage (shows : m.Shows v) (sound : v.Sound o) :
    Tries PagedMemory.allocPage m Exhausts
      (fun f m' => v.Free f ∧ m'.Shows (v.grant f Frame.zero))
      (fun cause m' => cause = .outOfMemory ∧ (∀ f, ¬ v.Free f) ∧ m'.Shows v) := by
  refine Tries.bind shows.allocFrame ?_
  rintro f m₁ ⟨free, b, shows₁⟩
  refine Tries.lift_bind (clearGranted sound free shows₁) fun _ m₂ shows₂ => ?_
  exact Tries.pure ⟨free, shows₂⟩

/-- A page that somebody holds is given up. -/
theorem freePage (shows : m.Shows v) (sound : v.Sound o) {f : FrameId}
    (tracked : v.tracks f = true) (held : 0 < o f) :
    Ends (PagedMemory.release f) m Exhausts fun _ m' => m'.Shows (v.release f) :=
  shows.release sound.fits (sound.fits.inside tracked) (sound.not_free_of_owed held)

theorem releaseEach {whole : List FrameId} (pages : List FrameId) (m : Machine)
    (shows : m.Shows v) (sound : v.Sound (o + tally pages))
    (tracked : ∀ f ∈ pages, v.tracks f = true) (inside : ∀ f ∈ pages, f ∈ whole) :
    Ends (pages.forM PagedMemory.release) m Exhausts fun _ m' =>
      ∃ v', View.Acts (Installs s whole) v (o + tally pages) v' o ∧ m'.Shows v' := by
  induction pages generalizing m v with
  | nil => exact Ends.pure ⟨v, .refl, shows⟩
  | cons f pages ih =>
    rw [tally_cons, ← add_assoc] at sound ⊢
    have held : 0 < (o + tally pages + hits (some f)) f := by
      rw [Pi.add_apply, hits_self]
      omega
    refine (shows.freePage sound (tracked f List.mem_cons_self) held).bind fun _ m₁ shows₁ => ?_
    have given : View.Acts (Installs s whole) v (o + tally pages + hits (some f)) (v.release f)
        (o + tally pages) := .single (.yield (inside f List.mem_cons_self)) (.yield rfl)
    refine (ih m₁ shows₁ (given.sound sound) (fun g h => ?_)
      fun g h => inside g (List.mem_cons_of_mem _ h)).mono ?_
    · exact (given.tracks g).trans (tracked g (List.mem_cons_of_mem _ h))
    · rintro _ m₂ ⟨v', acts, shows₂⟩
      exact ⟨v', given.trans acts, shows₂⟩

/-- The pages below index `n` were handed over, or all of them are given up. -/
def Installed (v : View) (o : Owed) (s : Space) (start : VirtualAddress)
    (pages : List (Option FrameId)) (n : Nat) (m' : Machine) : Prop :=
  ∃ v' lost, View.Acts (Installs s (pages.filterMap id)) v (o + tally (numbered pages n)) v'
    (o + lost) ∧ (v.Vacant s start pages n → lost = 0) ∧ m'.Shows v'

/-- The pages below index `n` are left, and the others were handed over. -/
structure Installing (v : View) (o : Owed) (s : Space) (start : VirtualAddress)
    (pages : List (Option FrameId)) (n : Nat) (w : View) (lost : Owed) : Prop where
  acts : View.Acts (Installs s (pages.filterMap id)) v (o + tally (pages.filterMap id)) w
    (o + lost + tally (numbered pages n))
  holds : w.Holds (numbered pages n)
  vacant : v.Vacant s start pages pages.length → lost = 0 ∧ w.Vacant s start pages n

namespace Installing

variable {start va : VirtualAddress} {pages : List (Option FrameId)} {n : Nat} {f : FrameId}
  {w w' : View} {lost : Owed}

theorem skip (installing : Installing v o s start pages (n + 1) w lost)
    (none : pages[n]? = some none) : Installing v o s start pages n w lost := by
  have same := numbered_succ_of_none (.inl none)
  refine ⟨same ▸ installing.acts, same ▸ installing.holds, fun vacant => ?_⟩
  obtain ⟨no_loss, left⟩ := installing.vacant vacant
  exact ⟨no_loss, fun i f va below => left i f va (Nat.lt_succ_of_lt below)⟩

/-- The next page is handed over. What was mapped where it goes is lost. -/
theorem hand {t : FrameId} (installing : Installing v o s start pages (n + 1) w lost)
    (sound : v.Sound (o + tally (pages.filterMap id))) (hs : s ∈ v.live)
    (found : pages[n]? = some (some f)) (place : Space.ArgumentAt start n va) (few : n < 32)
    (covers : w.Covers s va.directorySlot t w') :
    Installing v o s start pages n (w'.remap s va.splitSlots (.make f .userWritable))
      (lost + hits (w.leaf s va.splitSlots).target) := by
  obtain ⟨acts, holds, vacant⟩ := installing
  have ready := acts.sound sound
  rw [numbered_succ found] at acts holds ready
  rw [tally_concat, ← add_assoc] at acts ready
  have lives : s ∈ w.live := (acts.live fun _ => Installs.lasting).symm ▸ hs
  have handed : View.Acts
      (fun c => c = .link s va.directorySlot ∨ c = .install s va.splitSlots f) _ _ _ _ :=
    View.acts_handed (o := o + lost + tally (numbered pages n)) lives (holds.tracked f (by simp))
      (holds.one f (by simp)) covers (.inl rfl) (.inr rfl)
  refine ⟨?_, holds.handed ready handed, fun unmapped => ?_⟩
  · have given : f ∈ pages.filterMap id :=
      List.mem_filterMap.mpr ⟨_, List.mem_of_getElem? found, rfl⟩
    rw [← add_assoc, add_right_comm]
    apply acts.trans
    apply handed.mono
    rintro c (rfl | rfl)
    · exact .link
    · exact .install given
  · obtain ⟨rfl, left⟩ := vacant unmapped
    have absent := left n f va (Nat.lt_succ_self n) found place
    rw [Entry.target_eq_none_iff.mpr absent, hits_none]
    refine ⟨add_zero 0, fun i g va' below found' place' => ?_⟩
    rw [View.leaf_remap_of_ne _ fun h => place'.splitSlots_ne place below few h.2, covers.leaf]
    exact left i g va' (Nat.lt_succ_of_lt below) found' place'

end Installing

theorem installEach (start : VirtualAddress) {pages : List (Option FrameId)} (shows : m.Shows v)
    (hs : s ∈ v.live) (sound : v.Sound (o + tally (pages.filterMap id)))
    (holds : v.Holds (pages.filterMap id)) (few : pages.length ≤ maxArgumentPages) :
    Tries (s.installEach start pages (pages.take pages.length).zipIdx.reverse) m (fun _ => True)
      (fun _ m' => Installed v o s start pages pages.length m')
      (fun _ m' => Installed v o s start pages pages.length m') := by
  let left (n : Nat) (m' : Machine) : Prop :=
    ∃ w lost, Installing v o s start pages n w lost ∧ m'.Shows w
  have step (n : Nat) (f : FrameId) (va : VirtualAddress) (m₁ : Machine)
      (found : pages[n]? = some (some f)) (place : Space.ArgumentAt start n va)
      (before : left (n + 1) m₁) :
      Tries (s.mapOne f va .userWritable) m₁ (fun _ => True) (fun _ m' => left n m') fun _ m' =>
        Ends ((numbered pages (n + 1)).forM PagedMemory.release) m' (fun _ => True)
          fun _ m'' => Installed v o s start pages pages.length m'' := by
    obtain ⟨w, lost, installing, shows₁⟩ := before
    have inside : n < 32 := Nat.lt_of_lt_of_le (List.getElem?_eq_some_iff.mp found).1 few
    have sound₁ := installing.acts.sound sound
    have lives : s ∈ w.live := (installing.acts.live fun _ => Installs.lasting).symm ▸ hs
    apply ((shows₁.mapOne sound₁ lives f va .userWritable).mono_stops fun _ _ => trivial).mono
    · rintro _ m₂ ⟨t, w', covers, shows₂⟩
      exact ⟨_, _, installing.hand sound hs found place inside covers, shows₂⟩
    · rintro _ m₂ ⟨-, -, -, shows₂⟩
      have among (g : FrameId) (given : g ∈ numbered pages (n + 1)) : g ∈ pages.filterMap id :=
        ((List.take_sublist _ _).filterMap id).subset given
      apply ((releaseEach (s := s) _ m₂ shows₂ sound₁ installing.holds.tracked among).mono_stops
        fun _ _ => trivial).mono
      rintro _ m₃ ⟨v', acts, shows₃⟩
      refine ⟨v', lost, ?_, fun vacant => (installing.vacant vacant).1, shows₃⟩
      rw [numbered_length]
      exact installing.acts.trans acts
  have start' : left pages.length m := by
    refine ⟨v, 0, ⟨?_, (numbered_length pages).symm ▸ holds, fun vacant => ⟨rfl, vacant⟩⟩, shows⟩
    rw [numbered_length, add_zero]
    exact .refl
  apply (Tries.installEach left ?_ (fun _ _ _ _ _ => trivial) step _ (Nat.le_refl _) m
    start').mono_done
  · rintro _ m' ⟨w, lost, installing, shows'⟩
    refine ⟨w, lost, ?_, fun vacant => (installing.vacant vacant).1, shows'⟩
    rw [numbered_length]
    exact installing.acts
  · rintro n m' none ⟨w, lost, installing, shows'⟩
    exact ⟨w, lost, installing.skip none, shows'⟩

/-- The pages leave the hands of their holder, whether all of them can be mapped or not. -/
theorem installArguments {start : VirtualAddress} {pages : List (Option FrameId)}
    (shows : m.Shows v) (hs : s ∈ v.live) (sound : v.Sound (o + tally (pages.filterMap id)))
    (holds : v.Holds (pages.filterMap id)) :
    Tries (s.installArguments start pages) m (fun _ => True)
      (fun _ m' => Installed v o s start pages pages.length m')
      (fun _ m' => Installed v o s start pages pages.length m') := by
  unfold Space.installArguments
  split
  · exact Tries.lift_bind (P := fun _ _ => False) (Ends.halt trivial) nofun
  · next few =>
    have each := installEach start shows hs sound holds (Nat.not_lt.mp few)
    rwa [List.take_length] at each

end Machine.Shows

end PagedMemory
