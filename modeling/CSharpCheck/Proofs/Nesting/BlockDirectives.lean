import CSharpCheck.Proofs.Directives.Blocks

/-!
# Sequences of directives about blocks

Which sequences of directives about blocks are properly nested and complete, and what going through
one does to open blocks. Both agree: from no open blocks, a sequence is nested and complete exactly
if none of its directives is misplaced and no block is left open.
-/

namespace CSharpCheck

/-! ### Sequences of directives -/

namespace BlockDirective

mutual

/-- The directives are properly nested and complete, in text that is active or not. -/
inductive Nested : (active : Bool) → List BlockDirective → Prop where
  | nil (active : Bool) : Nested active []
  | region {active : Bool} {body rest : List BlockDirective} : Nested active body →
      Nested active rest → Nested active (region :: (body ++ endRegion :: rest))
  | condition {active holds : Bool} {body branches rest : List BlockDirective} :
      Nested (active && holds) body → Branches active (active && !holds) branches →
      Nested active rest → Nested active (openIf holds :: (body ++ (branches ++ endIf :: rest)))

/-- The directives are further branches of a block. The text around the block is active if
`surroundings` says so, and a further branch of it can be if `pending` says so. -/
inductive Branches : (surroundings pending : Bool) → List BlockDirective → Prop where
  | nil (surroundings pending : Bool) : Branches surroundings pending []
  | elseIf {surroundings pending holds : Bool} {body more : List BlockDirective} :
      Nested (pending && holds) body → Branches surroundings (pending && !holds) more →
      Branches surroundings pending (elseIf holds :: (body ++ more))
  | last {surroundings pending : Bool} {body : List BlockDirective} :
      Nested pending body → Branches surroundings pending (otherwise :: body)
  /-- In inactive text nothing comes of a branch behind the last one. -/
  | excluded {body more : List BlockDirective} :
      Nested false body → Branches false false more →
      Branches false false (otherwise :: (body ++ more))

end

/-- The kinds of the blocks that are open behind a directive, innermost first. A directive that
would close a block of another kind than the innermost one closes none. -/
def kindsAfter (kinds : List BlockKind) : BlockDirective → List BlockKind
  | openIf _ => .condition :: kinds
  | region => .region :: kinds
  | elseIf _ | otherwise => kinds
  | endIf => if kinds.head? = some .condition then kinds.tail else kinds
  | endRegion => if kinds.head? = some .region then kinds.tail else kinds

/-- The kinds of the blocks that directives leave open, innermost first. -/
def kindsOpen (ds : List BlockDirective) : List BlockKind := ds.foldl kindsAfter []

/-- The end of a condition does not close a region, and then the condition stays open as well. -/
example : kindsOpen [openIf true, region, endIf] = [.region, .condition] := rfl

end BlockDirective

/-! ### Runs over directives -/

namespace Blocks

/-- Going through directives leads from open blocks to open blocks, and some of the directives are
found misplaced or none. -/
inductive Runs : Blocks → List BlockDirective → Blocks → (misplaced : Bool) → Prop where
  | nil (blocks : Blocks) : Runs blocks [] blocks false
  | cons {blocks mid last : Blocks} {d : BlockDirective} {ds : List BlockDirective}
      {misplaced misplaced' : Bool} : Meets d blocks mid misplaced → Runs mid ds last misplaced' →
      Runs blocks (d :: ds) last (misplaced || misplaced')

variable {blocks mid last outer : Blocks} {b : Block} {d : BlockDirective}
  {ds rest : List BlockDirective} {misplaced misplaced' active holds : Bool}

theorem Runs.append (h : Runs blocks ds mid misplaced) (h' : Runs mid rest last misplaced') :
    Runs blocks (ds ++ rest) last (misplaced || misplaced') := by
  induction h with
  | nil => exact h'
  | cons hmeets _ ih =>
    rw [Bool.or_assoc]
    exact .cons hmeets (ih h')

theorem exists_meets (d : BlockDirective) (blocks : Blocks) :
    ∃ next misplaced, Meets d blocks next misplaced := by
  cases hd : d.expects with
  | none =>
    cases d with
    | openIf holds => exact ⟨_, _, .openIf holds default blocks⟩
    | region => exact ⟨_, _, .region default blocks⟩
    | elseIf | otherwise | endIf | endRegion => contradiction
  | some kind =>
    by_cases hhead : blocks.head?.map (·.kind) = some kind
    · obtain ⟨b, hb, hkind⟩ := Option.map_eq_some_iff.1 hhead
      obtain ⟨outer, rfl⟩ := List.head?_eq_some_iff.1 hb
      cases d with
      | openIf | region => contradiction
      | elseIf holds =>
        cases hd
        cases hseen : b.elseSeen with
        | false => exact ⟨_, _, .elseIf holds outer hkind hseen⟩
        | true => exact ⟨_, _, .behindLast outer rfl hkind hseen⟩
      | otherwise =>
        cases hd
        cases hseen : b.elseSeen with
        | false => exact ⟨_, _, .otherwise outer hkind hseen⟩
        | true => exact ⟨_, _, .behindLast outer rfl hkind hseen⟩
      | endIf =>
        cases hd
        exact ⟨_, _, .endIf outer hkind⟩
      | endRegion =>
        cases hd
        exact ⟨_, _, .endRegion outer hkind⟩
    · exact ⟨blocks, true, .astray hd hhead⟩

/-- All directives can be gone through. -/
theorem exists_runs (ds : List BlockDirective) (blocks : Blocks) :
    ∃ last misplaced, Runs blocks ds last misplaced := by
  induction ds generalizing blocks with
  | nil => exact ⟨blocks, false, .nil blocks⟩
  | cons d ds ih =>
    obtain ⟨mid, misplaced, hmeets⟩ := exists_meets d blocks
    obtain ⟨last, misplaced', hruns⟩ := ih mid
    exact ⟨last, _, .cons hmeets hruns⟩

/-- The kinds of the open blocks depend on the directives alone. -/
theorem Meets.map_kind (h : Meets d blocks mid misplaced) :
    mid.map (·.kind) = d.kindsAfter (blocks.map (·.kind)) := by
  cases h with
  | openIf | region | elseIf | otherwise => rfl
  | behindLast outer hd =>
    cases d with
    | elseIf | otherwise => rfl
    | openIf | endIf | region | endRegion => contradiction
  | endIf outer hkind | endRegion outer hkind => simp [BlockDirective.kindsAfter, hkind]
  | astray hd hhead =>
    rw [← List.head?_map] at hhead
    cases d with
    | openIf | region => contradiction
    | elseIf | otherwise => rfl
    | endIf | endRegion =>
      cases hd
      exact (if_neg hhead).symm

theorem Runs.map_kind (h : Runs blocks ds last misplaced) :
    last.map (·.kind) = ds.foldl BlockDirective.kindsAfter (blocks.map (·.kind)) := by
  induction h with
  | nil => rfl
  | cons hmeets _ ih => rw [ih, hmeets.map_kind, List.foldl_cons]

end Blocks

/-! ### From a run without errors to nesting -/

/-- Whether a further branch of the block is active if its condition holds. -/
def Block.pending (b : Block) : Bool := b.parentActive && !b.branchTaken

/-- The directives are further branches that the block may have. -/
structure Block.Continues (b : Block) (ds : List BlockDirective) : Prop where
  branches : BlockDirective.Branches b.parentActive b.pending ds
  last : b.parentActive = true → b.elseSeen = true → ds = []

namespace Block

open BlockDirective

variable {b : Block} {body branches : List BlockDirective} {holds : Bool}

@[simp] theorem pending_opened (span : Span) (active holds : Bool) :
    (opened span active holds).pending = (active && !holds) := by
  cases active <;> cases holds <;> rfl

@[simp] theorem pending_elseIf (b : Block) (holds : Bool) :
    (b.elseIf holds).pending = (b.pending && !holds) := by
  unfold pending elseIf
  cases b.parentActive <;> cases b.branchTaken <;> cases holds <;> rfl

@[simp] theorem pending_otherwise (b : Block) : b.otherwise.pending = false :=
  Bool.and_false _

theorem pending_eq_false (h : b.parentActive = false) : b.pending = false := by
  rw [pending, h, Bool.false_and]

theorem continues_nil (b : Block) : b.Continues [] := ⟨.nil _ _, fun _ _ ↦ rfl⟩

theorem Continues.elseIf (hseen : b.elseSeen = false) (hbody : Nested (b.elseIf holds).active body)
    (h : (b.elseIf holds).Continues branches) :
    b.Continues (.elseIf holds :: (body ++ branches)) where
  branches := .elseIf hbody (b.pending_elseIf holds ▸ h.branches)
  last _ hlast := by
    rw [hseen] at hlast
    contradiction

theorem Continues.otherwise (hseen : b.elseSeen = false) (hbody : Nested b.otherwise.active body)
    (h : b.otherwise.Continues branches) : b.Continues (.otherwise :: (body ++ branches)) where
  branches := by
    cases hparent : b.parentActive with
    | true =>
      rw [h.last hparent rfl, List.append_nil]
      exact .last hbody
    | false =>
      have hbranches := h.branches
      have hactive : b.otherwise.active = false := pending_eq_false hparent
      rw [pending_eq_false hparent]
      rw [hactive] at hbody
      rw [pending_otherwise, show b.otherwise.parentActive = false from hparent] at hbranches
      exact .excluded hbody hbranches
  last _ hlast := by
    rw [hseen] at hlast
    contradiction

/-- In inactive text any branch may come behind the last one. -/
theorem Continues.misplacedBranch {d : BlockDirective} (hd : d.beginsBranch = true)
    (hparent : b.parentActive = false) (hbody : Nested b.misplacedBranch.active body)
    (h : b.misplacedBranch.Continues branches) : b.Continues (d :: (body ++ branches)) where
  branches := by
    have hbranches := h.branches
    have hparent' : b.misplacedBranch.parentActive = false := hparent
    rw [pending_eq_false hparent', hparent'] at hbranches
    rw [pending_eq_false hparent, hparent]
    cases d with
    | elseIf holds => exact .elseIf hbody hbranches
    | otherwise => exact .excluded hbody hbranches
    | openIf | endIf | region | endRegion => contradiction
  last hactive _ := by
    rw [hparent] at hactive
    contradiction

/-- The block has a condition, the text around it is active or not, and so is a further branch if
its condition holds. In active text its last branch has not begun. -/
structure Stands (b : Block) (surroundings pending : Bool) : Prop where
  kind : b.kind = .condition
  parentActive : b.parentActive = surroundings
  pending : b.pending = pending
  fresh : surroundings = true → b.elseSeen = false

/-- Only in inactive text a branch may come behind the last one. -/
theorem Stands.excluded {surroundings pending : Bool} (h : b.Stands surroundings pending)
    (hseen : b.elseSeen = true) : b.parentActive = false ∧ pending = false := by
  have hparent : b.parentActive = false := by
    rw [h.parentActive, Bool.eq_false_iff]
    intro hactive
    rw [h.fresh hactive] at hseen
    contradiction
  exact ⟨hparent, h.pending ▸ pending_eq_false hparent⟩

end Block

namespace Blocks

open BlockDirective

variable {blocks mid last outer : Blocks} {b : Block} {d : BlockDirective}
  {ds rest more : List BlockDirective} {misplaced active holds : Bool}

/-- The directives complete the open blocks. -/
inductive Closes : Blocks → List BlockDirective → Prop where
  | nil {ds : List BlockDirective} : Nested true ds → Closes [] ds
  | condition {b : Block} {outer : Blocks} {body branches rest : List BlockDirective} :
      b.kind = .condition → Nested b.active body → b.Continues branches → Closes outer rest →
      Closes (b :: outer) (body ++ (branches ++ .endIf :: rest))
  | region {b : Block} {outer : Blocks} {body rest : List BlockDirective} :
      b.kind = .region → Nested b.active body → Closes outer rest →
      Closes (b :: outer) (body ++ .endRegion :: rest)

/-- A whole block may stand before directives that complete the open blocks. -/
theorem Closes.prepend (ds : List BlockDirective) (h : Closes blocks rest)
    (hds : ∀ body, Nested blocks.active body → Nested blocks.active (ds ++ body)) :
    Closes blocks (ds ++ rest) := by
  cases h with
  | nil h => exact .nil (hds _ h)
  | condition hkind hbody hbranches hrest =>
    rw [← List.append_assoc]
    exact .condition hkind (hds _ hbody) hbranches hrest
  | region hkind hbody hrest =>
    rw [← List.append_assoc]
    exact .region hkind (hds _ hbody) hrest

/-- Open blocks can be completed. -/
theorem exists_closes (blocks : Blocks) : ∃ ds, Closes blocks ds := by
  induction blocks with
  | nil => exact ⟨[], .nil (.nil true)⟩
  | cons b outer ih =>
    obtain ⟨rest, hrest⟩ := ih
    cases hkind : b.kind with
    | condition => exact ⟨_, .condition hkind (.nil _) b.continues_nil hrest⟩
    | region => exact ⟨_, .region hkind (.nil _) hrest⟩

/-- A further branch may stand before what completes the block from there on. -/
theorem Closes.branch {c : Block} (hkind : b.kind = .condition) (hc : c.kind = .condition)
    (h : Closes (c :: outer) rest)
    (hd : ∀ body branches, Nested c.active body → c.Continues branches →
      b.Continues (d :: (body ++ branches))) : Closes (b :: outer) (d :: rest) := by
  cases h with
  | region hregion =>
    rw [hc] at hregion
    contradiction
  | @condition _ _ body branches rest _ hbody hbranches hrest =>
    have hwhole := Closes.condition hkind (.nil _) (hd body branches hbody hbranches) hrest
    simpa using hwhole

/-- What completes the blocks that are open behind a directive which is not misplaced completes,
together with the directive, those before it. -/
theorem Meets.closes (h : Meets d blocks mid misplaced) (hmisplaced : misplaced = false)
    (hds : Closes mid ds) : Closes blocks (d :: ds) := by
  cases h with
  | openIf holds span =>
    cases hds with
    | region hkind => contradiction
    | @condition _ _ body branches rest _ hbody hbranches hrest =>
      have hbranches' := hbranches.branches
      rw [Block.pending_opened] at hbranches'
      have hitem := hrest.prepend (.openIf holds :: (body ++ (branches ++ [.endIf])))
        fun tail htail ↦ by simpa using Nested.condition hbody hbranches' htail
      simpa using hitem
  | region span =>
    cases hds with
    | condition hkind => contradiction
    | @region _ _ body rest _ hbody hrest =>
      replace hbody : Nested blocks.active body := hbody
      have hitem := hrest.prepend (.region :: (body ++ [.endRegion]))
        fun tail htail ↦ by simpa using Nested.region hbody htail
      simpa using hitem
  | elseIf holds outer hkind hseen =>
    exact hds.branch hkind (c := Block.elseIf _ holds) hkind fun _ _ hbody hbranches ↦
      .elseIf hseen hbody hbranches
  | otherwise outer hkind hseen =>
    exact hds.branch hkind (c := Block.otherwise _) hkind fun _ _ hbody hbranches ↦
      .otherwise hseen hbody hbranches
  | behindLast outer hd hkind =>
    exact hds.branch hkind (c := Block.misplacedBranch _) hkind fun _ _ hbody hbranches ↦
      .misplacedBranch hd hmisplaced hbody hbranches
  | endIf outer hkind => exact .condition hkind (.nil _) (Block.continues_nil _) hds
  | endRegion outer hkind => exact .region hkind (.nil _) hds
  | astray => contradiction

/-- What completes the blocks that are open behind directives, none of which is misplaced, completes
together with them those before them. -/
theorem Runs.closes (h : Runs blocks ds last misplaced) (hmisplaced : misplaced = false)
    (hmore : Closes last more) : Closes blocks (ds ++ more) := by
  induction h with
  | nil => exact hmore
  | cons hmeets _ ih =>
    rw [Bool.or_eq_false_iff] at hmisplaced
    exact hmeets.closes hmisplaced.1 (ih hmisplaced.2 hmore)

/-! ### From nesting to a run without errors -/

theorem Runs.of_openIf (h : Runs blocks (.openIf holds :: ds) last misplaced) :
    ∃ span, Runs (.opened span blocks.active holds :: blocks) ds last misplaced := by
  cases h with
  | cons hmeets hrest =>
    cases hmeets with
    | openIf => exact ⟨_, hrest⟩
    | behindLast | astray => contradiction

theorem Runs.of_region (h : Runs blocks (.region :: ds) last misplaced) :
    ∃ span, Runs (.region span blocks.active :: blocks) ds last misplaced := by
  cases h with
  | cons hmeets hrest =>
    cases hmeets with
    | region => exact ⟨_, hrest⟩
    | behindLast | astray => contradiction

theorem Runs.of_endIf (hkind : b.kind = .condition)
    (h : Runs (b :: outer) (.endIf :: ds) last misplaced) : Runs outer ds last misplaced := by
  cases h with
  | cons hmeets hrest =>
    cases hmeets with
    | endIf => exact hrest
    | behindLast => contradiction
    | astray hd hhead =>
      cases hd
      simp [hkind] at hhead

theorem Runs.of_endRegion (hkind : b.kind = .region)
    (h : Runs (b :: outer) (.endRegion :: ds) last misplaced) : Runs outer ds last misplaced := by
  cases h with
  | cons hmeets hrest =>
    cases hmeets with
    | endRegion => exact hrest
    | behindLast => contradiction
    | astray hd hhead =>
      cases hd
      simp [hkind] at hhead

/-- Behind a directive that begins a branch, the block stands as it did, and the branch is active
only if the block was waiting for it. -/
theorem Runs.of_elseIf {surroundings pending : Bool} (hb : b.Stands surroundings pending)
    (h : Runs (b :: outer) (.elseIf holds :: ds) last misplaced) :
    ∃ c : Block, c.Stands surroundings (pending && !holds) ∧ c.active = (pending && holds) ∧
      Runs (c :: outer) ds last misplaced := by
  cases h with
  | cons hmeets hrest =>
    cases hmeets with
    | elseIf =>
      have hpending := b.pending_elseIf holds
      rw [hb.pending] at hpending
      have hactive : (b.elseIf holds).active = (pending && holds) := by
        rw [← hb.pending]
        rfl
      exact ⟨b.elseIf holds, ⟨hb.kind, hb.parentActive, hpending, hb.fresh⟩, hactive, hrest⟩
    | behindLast outer hd hkind hseen =>
      obtain ⟨hparent, rfl⟩ := hb.excluded hseen
      rw [hparent]
      exact ⟨b.misplacedBranch, ⟨hb.kind, hb.parentActive, hb.pending, hb.fresh⟩, rfl, hrest⟩
    | astray hd hhead =>
      cases hd
      simp [hb.kind] at hhead

theorem Runs.of_otherwise {surroundings pending : Bool} (hb : b.Stands surroundings pending)
    (h : Runs (b :: outer) (.otherwise :: ds) last misplaced) :
    ∃ c : Block, c.kind = .condition ∧ c.parentActive = surroundings ∧ c.pending = false ∧
      c.active = pending ∧ Runs (c :: outer) ds last misplaced := by
  cases h with
  | cons hmeets hrest =>
    cases hmeets with
    | otherwise =>
      exact ⟨b.otherwise, hb.kind, hb.parentActive, b.pending_otherwise, hb.pending, hrest⟩
    | behindLast outer hd hkind hseen =>
      obtain ⟨hparent, rfl⟩ := hb.excluded hseen
      rw [hparent]
      exact ⟨b.misplacedBranch, hb.kind, hb.parentActive, hb.pending, rfl, hrest⟩
    | astray hd hhead =>
      cases hd
      simp [hb.kind] at hhead

end Blocks

namespace BlockDirective

open Blocks

mutual

/-- Directives that are properly nested and complete are not found misplaced, and the same blocks
are open behind them as before. -/
theorem runs_of_nested {active : Bool} {ds : List BlockDirective} (h : Nested active ds)
    {misplaced : Bool} {blocks last : Blocks} {rest : List BlockDirective}
    (hactive : blocks.active = active) (hruns : Runs blocks (ds ++ rest) last misplaced) :
    Runs blocks rest last misplaced :=
  match h with
  | .nil _ => hruns
  | .region hbody hmore => by
    simp only [List.cons_append, List.append_assoc] at hruns
    obtain ⟨span, hopen⟩ := hruns.of_region
    have hclose := runs_of_nested hbody (by exact hactive) hopen
    exact runs_of_nested hmore hactive (hclose.of_endRegion rfl)
  | @Nested.condition _ holds _ _ _ hbody hbranches hmore => by
    simp only [List.cons_append, List.append_assoc] at hruns
    obtain ⟨span, hopen⟩ := hruns.of_openIf
    rw [hactive] at hopen
    have hbranch := runs_of_nested hbody rfl hopen
    have hstands : (Block.opened span active holds).Stands active (active && !holds) :=
      ⟨rfl, rfl, Block.pending_opened span active holds, fun _ ↦ rfl⟩
    exact runs_of_nested hmore hactive (runs_of_branches hbranches hstands hbranch)

/-- Further branches that a block may have are not found misplaced. -/
theorem runs_of_branches {surroundings pending : Bool} {ds : List BlockDirective}
    (h : Branches surroundings pending ds) {misplaced : Bool} {b : Block} {outer last : Blocks}
    {rest : List BlockDirective} (hb : b.Stands surroundings pending)
    (hruns : Runs (b :: outer) (ds ++ .endIf :: rest) last misplaced) :
    Runs outer rest last misplaced :=
  match h with
  | .nil _ _ => hruns.of_endIf hb.kind
  | .elseIf hbody hmore => by
    simp only [List.cons_append, List.append_assoc] at hruns
    obtain ⟨c, hc, hactive, hbranch⟩ := hruns.of_elseIf hb
    exact runs_of_branches hmore hc (runs_of_nested hbody hactive hbranch)
  | .last hbody => by
    obtain ⟨c, hkind, -, -, hactive, hbranch⟩ := hruns.of_otherwise hb
    exact (runs_of_nested hbody (by exact hactive) hbranch).of_endIf hkind
  | .excluded hbody hmore => by
    simp only [List.cons_append, List.append_assoc] at hruns
    obtain ⟨c, hkind, hparent, hpending, hactive, hbranch⟩ := hruns.of_otherwise hb
    have hstands : c.Stands false false := ⟨hkind, hparent, hpending, fun h ↦ nomatch h⟩
    exact runs_of_branches hmore hstands (runs_of_nested hbody (by exact hactive) hbranch)

end

variable {last : Blocks} {ds : List BlockDirective} {misplaced : Bool}

/-- Going through directives from no open blocks, none is misplaced and no block is left open
exactly if the directives are properly nested and complete. -/
theorem nested_iff (h : Runs [] ds last misplaced) :
    Nested true ds ↔ misplaced = false ∧ last = [] := by
  constructor
  · intro hnested
    rw [← List.append_nil ds] at h
    cases runs_of_nested hnested rfl h with
    | nil => exact ⟨rfl, rfl⟩
  · rintro ⟨hmisplaced, rfl⟩
    have hcloses := h.closes hmisplaced (.nil (.nil true))
    rw [List.append_nil] at hcloses
    cases hcloses with
    | nil hnested => exact hnested

/-- None of the directives is misplaced exactly if more directives can complete them. -/
theorem exists_nested_append_iff (h : Runs [] ds last misplaced) :
    (∃ more, Nested true (ds ++ more)) ↔ misplaced = false := by
  constructor
  · rintro ⟨more, hnested⟩
    obtain ⟨end_, misplaced', hmore⟩ := exists_runs more last
    have hall := ((nested_iff (h.append hmore)).1 hnested).1
    exact (Bool.or_eq_false_iff.1 hall).1
  · intro hmisplaced
    obtain ⟨more, hmore⟩ := exists_closes last
    cases h.closes hmisplaced hmore with
    | nil hnested => exact ⟨more, hnested⟩

end BlockDirective

end CSharpCheck
