import PagedMemory.Proofs.Scripts
import PagedMemory.Proofs.Start
import PagedMemory.Proofs.TwinAccess
import PagedMemory.Proofs.TwinSpaces

/-!
# One script on two machines

Played on two machines, a script gives out spaces and pages on both of them. Those with the
same number correspond (`Pairs.named`). What the machines have in common while the script
goes on is that they are twins in this sense (`Kin`): every instruction has equal replies on
them and leaves them kin (`Kin.played`).
-/

namespace PagedMemory

namespace Names

variable {α : Type} {a b : Names α} {x y u w : α} {i j : Nat} {gone names : List Nat}

/-- What has the same number corresponds. -/
def Paired (a b : Names α) (x y : α) : Prop :=
  ∃ i, a i = some x ∧ b i = some y

/-- The same numbers are in use, and no two of them stand for the same thing. -/
structure Match (a b : Names α) : Prop where
  same : ∀ i, (b i).isSome = (a i).isSome
  unique : ∀ i j x, a i = some x → a j = some x → i = j

theorem of_set (found : (a.set i x) j = some u) : j = i ∧ u = x ∨ a j = some u := by
  unfold set at found
  split at found
  · next here => exact .inl ⟨here, (Option.some.inj found).symm⟩
  · exact .inr found

theorem of_drop (found : (a.drop gone) j = some u) : a j = some u ∧ j ∉ gone := by
  unfold drop at found
  split at found
  · cases found
  · next kept => exact ⟨found, kept⟩

theorem Paired.of_set (paired : (a.set i x).Paired (b.set i y) u w) :
    a.Paired b u w ∨ u = x ∧ w = y := by
  obtain ⟨j, found, found'⟩ := paired
  unfold set at found found'
  split at found
  · next here =>
    rw [if_pos here] at found'
    exact .inr ⟨(Option.some.inj found).symm, (Option.some.inj found').symm⟩
  · next other =>
    rw [if_neg other] at found'
    exact .inl ⟨j, found, found'⟩

namespace Match

theorem empty : Match (fun _ => none : Names α) fun _ => none where
  same _ := rfl
  unique _ _ _ found := nomatch found

theorem exists_eq_some (pair : a.Match b) (found : a i = some x) : ∃ y, b i = some y := by
  rw [← Option.isSome_iff_exists, pair.same, found]
  rfl

theorem rel (pair : a.Match b) (i : Nat) : Option.Rel (a.Paired b) (a i) (b i) := by
  cases found : a i with
  | none =>
    have unused := pair.same i
    rw [found, Option.isSome_none, Option.isSome_eq_false_iff, Option.isNone_iff_eq_none] at unused
    rw [unused]
    exact .none
  | some x =>
    obtain ⟨y, found'⟩ := pair.exists_eq_some found
    rw [found']
    exact .some ⟨i, found, found'⟩

theorem eq_map (pair : a.Match b) {φ : α → α} (maps : ∀ x y, a.Paired b x y → y = φ x) (i : Nat) :
    b i = (a i).map φ := by
  have rel := pair.rel i
  generalize a i = x, b i = y at rel ⊢
  cases rel with
  | none => rfl
  | some paired => exact congrArg some (maps _ _ paired)

/-- Something new is given a number. -/
theorem set (pair : a.Match b) (new : ∀ y, ¬ a.Paired b x y) (i : Nat) (y : α) :
    (a.set i x).Match (b.set i y) := by
  have unused (j : Nat) : a j ≠ some x := by
    intro found
    obtain ⟨y, found'⟩ := pair.exists_eq_some found
    exact new y ⟨j, found, found'⟩
  constructor
  · intro j
    unfold Names.set
    split
    · rfl
    · exact pair.same j
  · intro j k u found found'
    obtain ⟨hj, rfl⟩ | old := of_set found
    · obtain ⟨hk, -⟩ | old' := of_set found'
      · exact hj.trans hk.symm
      · exact (unused k old').elim
    · obtain ⟨-, rfl⟩ | old' := of_set found'
      · exact (unused j old).elim
      · exact pair.unique j k u old old'

theorem drop (pair : a.Match b) (gone : List Nat) : (a.drop gone).Match (b.drop gone) := by
  constructor
  · intro j
    unfold Names.drop
    split
    · rfl
    · exact pair.same j
  · intro j k u found found'
    exact pair.unique j k u (of_drop found).1 (of_drop found').1

/-- What has lost its number corresponds to nothing. -/
theorem of_paired_drop (pair : a.Match b) (paired : (a.drop gone).Paired (b.drop gone) u w) :
    a.Paired b u w ∧ ∀ i ∈ gone, a i ≠ some u := by
  obtain ⟨j, found, found'⟩ := paired
  obtain ⟨found, kept⟩ := of_drop found
  refine ⟨⟨j, found, (of_drop found').1⟩, fun i hi same => kept ?_⟩
  rwa [pair.unique j i u found same]

theorem nodup (pair : a.Match b) (distinct : names.Nodup) : (names.filterMap a).Nodup :=
  distinct.filterMap fun i j x found found' => pair.unique i j x found found'

end Match

end Names

/-- Spaces and pages with the same number correspond. -/
def Pairs.named (h h' : Handles) : Pairs :=
  ⟨h.spaces.Paired h'.spaces, h.pages.Paired h'.pages⟩

theorem Pairs.named_space {h h' : Handles} {i : Nat} {s s' : Space} (found : h.spaces i = some s)
    (found' : h'.spaces i = some s') : (Pairs.named h h').spaces s s' :=
  ⟨i, found, found'⟩

/-- The machines are twins, and what has the same number corresponds. -/
structure Kin (h h' : Handles) (m n : Machine) : Prop where
  spaces : h.spaces.Match h'.spaces
  pages : h.pages.Match h'.pages
  twins : Twins (Pairs.named h h') m n

namespace Kin

variable {h h' : Handles} {m n m' n' : Machine} {s s' : Space} {f g : FrameId} {number i : Nat}

/-- Machines that have just started are kin, whatever their policies are. -/
theorem boot {config : Config} {layout : Layout} {policy policy' : Policy}
    (clears : config.zeroFill = true) (start : Machine.boot config layout policy = .ok m)
    (start' : Machine.boot config layout policy' = .ok n) : Kin .empty .empty m n := by
  obtain ⟨valid, shows⟩ := Machine.shows_boot start
  obtain ⟨-, shows'⟩ := Machine.shows_boot start'
  refine ⟨.empty, .empty, layout.reserve, Equiv.refl _, _, _, ?_, shows, shows'⟩
  refine ⟨View.sound_initial valid, .refl _ _, clears, ?_, ?_⟩
  · rintro _ _ ⟨_, found, -⟩
    cases found
  · rintro _ _ ⟨_, found, -⟩
    cases found

/-- The answers of a scene correspond. -/
theorem alike (kin : Kin h h' m n) (scene : Scene) :
    (scene.environment h).Alike (Pairs.named h h') (scene.environment h') where
  current := rfl
  processes := rfl
  image := rfl
  openCount := rfl
  device := rfl
  blockMap := rfl
  readBlock := rfl
  named pid := by
    show Option.Rel _ ((scene.space pid).bind h.spaces) ((scene.space pid).bind h'.spaces)
    cases scene.space pid with
    | none => exact .none
    | some i => exact kin.spaces.rel i

/-! ## What comes and goes -/

theorem gainSpace (kin : Kin h h' m n) (new : ∀ x, ¬ (Pairs.named h h').spaces s x)
    (t : Twins ((Pairs.named h h').join s s') m' n') :
    Kin (h.gain number (.space s)) (h'.gain number (.space s')) m' n' where
  spaces := kin.spaces.set new number s'
  pages := kin.pages
  twins := t.mono ⟨fun _ _ paired => paired.of_set, fun _ _ paired => paired⟩

theorem gainPage (kin : Kin h h' m n) (new : ¬ (Pairs.named h h').held f)
    (t : Twins ((Pairs.named h h').hold f g) m' n') :
    Kin (h.gain number (.page f)) (h'.gain number (.page g)) m' n' where
  spaces := kin.spaces
  pages := kin.pages.set (fun y paired => new ⟨y, paired⟩) number g
  twins := t.mono ⟨fun _ _ paired => paired, fun _ _ paired => paired.of_set⟩

theorem dropSpace (kin : Kin h h' m n) (found : h.spaces i = some s)
    (t : Twins ((Pairs.named h h').part s) m' n') :
    Kin { h with spaces := h.spaces.drop [i] } { h' with spaces := h'.spaces.drop [i] } m' n' where
  spaces := kin.spaces.drop [i]
  pages := kin.pages
  twins := by
    refine t.mono ⟨fun x y paired => ?_, fun _ _ paired => paired⟩
    obtain ⟨paired, kept⟩ := kin.spaces.of_paired_drop paired
    refine ⟨paired, ?_⟩
    rintro rfl
    exact kept i (List.mem_singleton_self i) found

theorem dropPages (kin : Kin h h' m n) {gone : List Nat} {pages : List FrameId}
    (named : ∀ f ∈ pages, ∃ i ∈ gone, h.pages i = some f)
    (t : Twins ((Pairs.named h h').without pages) m' n') :
    Kin { h with pages := h.pages.drop gone } { h' with pages := h'.pages.drop gone } m' n' where
  spaces := kin.spaces
  pages := kin.pages.drop gone
  twins := by
    refine t.mono ⟨fun _ _ paired => paired, fun x y paired => ?_⟩
    obtain ⟨paired, kept⟩ := kin.pages.of_paired_drop paired
    refine ⟨paired, fun among => ?_⟩
    obtain ⟨i, hi, found⟩ := named x among
    exact kept i hi found

/-! ## One instruction -/

/-- Both machines give out what has the same number, or fail in the same way. -/
def Answers (h h' : Handles) (number : Nat) (instruction : Instruction)
    (op op' : Attempt (Product Space FrameId)) (m n : Machine) : Prop :=
  BothTry op op' m n
    (fun a b m' n' => b.anonymous = a.anonymous ∧
      Kin ((h.spend instruction).gain number a) ((h'.spend instruction).gain number b) m' n')
    (Kin (h.spend instruction) (h'.spend instruction))

/-- An instruction that neither gives out nor takes away a space or a page. -/
private theorem respond {α : Type} {op op' : Attempt α} (product : α → Product Space FrameId)
    {instruction : Instruction} (kin : Kin h h' m n)
    (same : ConcurTry (Twins (Pairs.named h h')) op op')
    (idle : ∀ g : Handles, g.spend instruction = g ∧ ∀ a, g.gain number (product a) = g) :
    Answers h h' number instruction (do return product (← op)) (do return product (← op'))
      m n := by
  unfold Answers
  rw [(idle h).1, (idle h').1]
  refine BothTry.bind ((same.both kin.twins).mono_failed fun m' n' t => { kin with twins := t }) ?_
  rintro _ a m' n' ⟨rfl, t⟩
  refine BothTry.pure ⟨rfl, ?_⟩
  rw [(idle h).2, (idle h').2]
  exact { kin with twins := t }

/-- The pages with the numbers of a list, on both sides at once. -/
private theorem exists_pages (kin : Kin h h' m n) (names : List (Option Nat))
    (known : ∀ i ∈ names.reduceOption, (h.pages i).isSome) :
    ∃ whole : List (Option (FrameId × FrameId)),
      names.map (Option.bind · h.pages) = whole.map (Option.map Prod.fst) ∧
      names.map (Option.bind · h'.pages) = whole.map (Option.map Prod.snd) ∧
      (∀ x ∈ whole.reduceOption, (Pairs.named h h').pages x.1 x.2) ∧
      whole.reduceOption.map Prod.fst = names.reduceOption.filterMap h.pages := by
  induction names with
  | nil => exact ⟨[], rfl, rfl, nofun, rfl⟩
  | cons name names ih =>
    cases name with
    | none =>
      obtain ⟨whole, first, second, paired, same⟩ := ih known
      refine ⟨none :: whole, ?_, ?_, paired, same⟩
      · rw [List.map_cons, List.map_cons, first]
        rfl
      · rw [List.map_cons, List.map_cons, second]
        rfl
    | some i =>
      obtain ⟨whole, first, second, paired, same⟩ :=
        ih fun j hj => known j (List.mem_cons_of_mem _ hj)
      obtain ⟨f, found⟩ := Option.isSome_iff_exists.mp (known i List.mem_cons_self)
      obtain ⟨g, found'⟩ := kin.pages.exists_eq_some found
      refine ⟨some (f, g) :: whole, ?_, ?_, ?_, ?_⟩
      · rw [List.map_cons, List.map_cons, first, Option.bind_some, found]
        rfl
      · rw [List.map_cons, List.map_cons, second, Option.bind_some, found']
        rfl
      · intro x hx
        rw [List.reduceOption_cons_of_some] at hx
        rcases List.mem_cons.mp hx with rfl | hx
        · exact ⟨i, found, found'⟩
        · exact paired x hx
      · rw [List.reduceOption_cons_of_some, List.reduceOption_cons_of_some, List.map_cons, same,
          List.filterMap_cons_some found]

/-- A space that is made gets the number on both sides. -/
private theorem created (kin : Kin h h' m n) {parent : Option Nat} {p p' : Option Space}
    (parents : Option.Rel (Pairs.named h h').spaces p p') {start : VirtualAddress} {size : Nat} :
    Answers h h' number (.create parent start size)
      (do return .space (← Space.createFrom p start size))
      (do return .space (← Space.createFrom p' start size)) m n := by
  refine BothTry.bind ((kin.twins.createFrom parents start size).mono_failed
    fun m' n' t => { kin with twins := t }) ?_
  rintro s s' m' n' ⟨new, t⟩
  exact BothTry.pure ⟨rfl, kin.gainSpace new t⟩

/-- Pages that are installed leave the hands of their holders on both sides, mapped or not. -/
private theorem installed (kin : Kin h h' m n) {i : Nat} {s s' : Space}
    (hs : (Pairs.named h h').spaces s s') {start : VirtualAddress} {names : List (Option Nat)}
    (there : ∀ i ∈ names.reduceOption, (h.pages i).isSome)
    (distinct : names.reduceOption.Nodup) :
    Answers h h' number (.install i start names)
      (do s.installArguments start (names.map (Option.bind · h.pages)); return .done)
      (do s'.installArguments start (names.map (Option.bind · h'.pages)); return .done) m n := by
  obtain ⟨whole, first, second, paired, same⟩ := kin.exists_pages names there
  have given : ∀ f ∈ whole.reduceOption.map Prod.fst,
      ∃ j ∈ names.reduceOption, h.pages j = some f := by
    intro f hf
    rwa [same, List.mem_filterMap] at hf
  have different : (whole.reduceOption.map Prod.fst).Nodup := by
    rw [same]
    exact kin.pages.nodup distinct
  rw [first, second]
  refine BothTry.bind ((kin.twins.installArguments start whole hs paired different).mono_failed
    fun m' n' t => kin.dropPages given t) fun _ _ m' n' t => ?_
  exact BothTry.pure ⟨rfl, kin.dropPages given t⟩

theorem played (kin : Kin h h' m n) {instruction : Instruction}
    {op op' : Attempt (Product Space FrameId)} (known : instruction.operation h = some op)
    (known' : instruction.operation h' = some op') (number : Nat) :
    Answers h h' number instruction op op' m n := by
  cases instruction with
  | create parent start size =>
    cases parent with
    | none =>
      cases known
      cases known'
      exact kin.created .none
    | some i =>
      obtain ⟨p, found, rfl⟩ := Option.map_eq_some_iff.mp known
      obtain ⟨p', found', rfl⟩ := Option.map_eq_some_iff.mp known'
      exact kin.created (.some (Pairs.named_space found found'))
  | clear i start size =>
    obtain ⟨s, found, rfl⟩ := Option.map_eq_some_iff.mp known
    obtain ⟨s', found', rfl⟩ := Option.map_eq_some_iff.mp known'
    have hs := Pairs.named_space found found'
    refine kin.respond (fun _ => .done) (.lift fun m₁ n₁ t => ?_) fun _ => ⟨rfl, fun _ => rfl⟩
    exact (t.freeRange hs start size).mono fun _ _ _ _ t' => ⟨rfl, t'⟩
  | destroy i start size =>
    obtain ⟨s, found, rfl⟩ := Option.map_eq_some_iff.mp known
    obtain ⟨s', found', rfl⟩ := Option.map_eq_some_iff.mp known'
    have hs := Pairs.named_space found found'
    refine BothTry.lift_bind (kin.twins.destroy hs start size) fun _ _ m' n' t => ?_
    exact BothTry.pure ⟨rfl, kin.dropSpace found t⟩
  | allocPage =>
    cases known
    cases known'
    refine BothTry.bind (kin.twins.allocPage.mono_failed fun m' n' t => { kin with twins := t }) ?_
    rintro f g m' n' ⟨new, t⟩
    exact BothTry.pure ⟨rfl, kin.gainPage new t⟩
  | freePage i =>
    obtain ⟨f, found, rfl⟩ := Option.map_eq_some_iff.mp known
    obtain ⟨g, found', rfl⟩ := Option.map_eq_some_iff.mp known'
    refine BothTry.lift_bind (kin.twins.release ⟨i, found, found'⟩) fun _ _ m' n' t => ?_
    have given : ∀ x ∈ [f], ∃ j ∈ [i], h.pages j = some x := by simpa using found
    refine BothTry.pure ⟨rfl, kin.dropPages given (t.mono ⟨fun _ _ paired => paired, ?_⟩)⟩
    exact fun x y p => ⟨p.1, fun same => p.2 (List.mem_singleton.mpr same)⟩
  | install i start names =>
    rw [Instruction.operation, Option.ite_none_right_eq_some] at known known'
    obtain ⟨⟨there, distinct⟩, known⟩ := known
    obtain ⟨s, found, rfl⟩ := Option.map_eq_some_iff.mp known
    obtain ⟨s', found', rfl⟩ := Option.map_eq_some_iff.mp known'.2
    exact kin.installed (Pairs.named_space found found') there distinct
  | mapEmpty i va =>
    obtain ⟨s, found, rfl⟩ := Option.map_eq_some_iff.mp known
    obtain ⟨s', found', rfl⟩ := Option.map_eq_some_iff.mp known'
    refine kin.respond (fun _ => .done) ?_ fun _ => ⟨rfl, fun _ => rfl⟩
    exact Twins.mapEmptyPage (Pairs.named_space found found') va
  | share i address j goal =>
    obtain ⟨s, found, known⟩ := Option.bind_eq_some_iff.mp known
    obtain ⟨t, target, rfl⟩ := Option.map_eq_some_iff.mp known
    obtain ⟨s', found', known'⟩ := Option.bind_eq_some_iff.mp known'
    obtain ⟨t', target', rfl⟩ := Option.map_eq_some_iff.mp known'
    refine kin.respond .shared ?_ fun _ => ⟨rfl, fun _ => rfl⟩
    exact Twins.tryToShare (Pairs.named_space target target') (Pairs.named_space found found')
      address goal
  | fault scene kind va =>
    cases known
    cases known'
    refine kin.respond .resolved ?_ fun _ => ⟨rfl, fun _ => rfl⟩
    exact Twins.handleFault (kin.alike scene) kind va
  | verify scene address size =>
    cases known
    cases known'
    refine kin.respond (fun _ => .done) ?_ fun _ => ⟨rfl, fun _ => rfl⟩
    exact Twins.verifyArea (kin.alike scene) address size
  | copyOut scene address bytes =>
    cases known
    cases known'
    refine kin.respond (fun _ => .done) ?_ fun _ => ⟨rfl, fun _ => rfl⟩
    exact Twins.copyToUser (kin.alike scene) address bytes
  | copyIn scene address length =>
    cases known
    cases known'
    refine kin.respond .bytes ?_ fun _ => ⟨rfl, fun _ => rfl⟩
    exact Twins.copyFromUser (kin.alike scene) address length

end Kin

end PagedMemory
