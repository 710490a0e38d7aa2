import CSharpCheck.Directive.Line

/-!
# What directives do to blocks

A directive about blocks opens a block, begins a further branch of the innermost block or closes it.
One that does not fit the innermost block is found misplaced, and changes nothing but that a branch
behind the last one is excluded.
-/

namespace CSharpCheck

/-- A directive about blocks. A condition holds if it has been evaluated and is true. -/
inductive BlockDirective where
  | openIf (holds : Bool)
  | elseIf (holds : Bool)
  | otherwise
  | endIf
  | region
  | endRegion
  deriving DecidableEq, Repr

namespace BlockDirective

/-- The kind of block that has to be the innermost one at the directive. -/
def expects : BlockDirective → Option BlockKind
  | openIf _ | region => none
  | elseIf _ | otherwise | endIf => some .condition
  | endRegion => some .region

/-- Whether the directive begins a further branch of a block. -/
def beginsBranch : BlockDirective → Bool
  | elseIf _ | otherwise => true
  | openIf _ | endIf | region | endRegion => false

/-- The directive about blocks that a directive is, if any. -/
def ofName? (holds : Bool) : DirectiveName → Option BlockDirective
  | .ifName => some (openIf holds)
  | .elifName => some (elseIf holds)
  | .elseName => some otherwise
  | .endifName => some endIf
  | .region => some region
  | .endregion => some endRegion
  | _ => none

/-- The directive about blocks that the remarks of a reading step tell of, if any. -/
def ofRemarks? : List Remark → Option BlockDirective
  | .directive name _ :: rest =>
    (DirectiveName.ofText? name).bind (ofName? (rest.contains (.condition true)))
  | _ => none

end BlockDirective

/-- Whether a condition has been evaluated and is true. -/
def Effect.holds (e : Effect) : Bool := e.remarks.contains (.condition true)

/-- Whether the finding is that blocks are not nested as they should be. -/
def Finding.isOfNesting (x : Finding) : Bool :=
  match x.cause with
  | .directive .endifExpected | .directive .endregionExpected
  | .directive .unexpectedDirective => true
  | _ => false

/-- What a directive does to open blocks, and whether it is found misplaced. -/
inductive Blocks.Meets : BlockDirective → Blocks → Blocks → (misplaced : Bool) → Prop where
  | openIf (holds : Bool) (span : Span) (blocks : Blocks) :
      Meets (.openIf holds) blocks (.opened span blocks.active holds :: blocks) false
  | region (span : Span) (blocks : Blocks) :
      Meets .region blocks (.region span blocks.active :: blocks) false
  | elseIf {b : Block} (holds : Bool) (outer : Blocks) : b.kind = .condition →
      b.elseSeen = false → Meets (.elseIf holds) (b :: outer) (b.elseIf holds :: outer) false
  | otherwise {b : Block} (outer : Blocks) : b.kind = .condition → b.elseSeen = false →
      Meets .otherwise (b :: outer) (b.otherwise :: outer) false
  /-- Behind the last branch, only a block in active text minds another one. -/
  | behindLast {d : BlockDirective} {b : Block} (outer : Blocks) : d.beginsBranch = true →
      b.kind = .condition → b.elseSeen = true →
      Meets d (b :: outer) (b.misplacedBranch :: outer) b.parentActive
  | endIf {b : Block} (outer : Blocks) : b.kind = .condition → Meets .endIf (b :: outer) outer false
  | endRegion {b : Block} (outer : Blocks) : b.kind = .region →
      Meets .endRegion (b :: outer) outer false
  | astray {d : BlockDirective} {kind : BlockKind} {blocks : Blocks} : d.expects = some kind →
      blocks.head?.map (·.kind) ≠ some kind → Meets d blocks blocks true

/-! ### Findings of other directives -/

/-- None of the findings is about the nesting of blocks. -/
def Calm (fs : List Finding) : Prop := ∀ x ∈ fs, x.isOfNesting = false

namespace Calm

variable {fs gs : List Finding}

@[simp] theorem nil : Calm [] := fun _ h ↦ nomatch h

@[simp] theorem cons_iff {x : Finding} : Calm (x :: fs) ↔ x.isOfNesting = false ∧ Calm fs :=
  List.forall_mem_cons

@[simp] theorem append_iff : Calm (fs ++ gs) ↔ Calm fs ∧ Calm gs := List.forall_mem_append

theorem any_eq_false (h : Calm fs) : fs.any Finding.isOfNesting = false := by
  rw [List.any_eq_false]
  intro x hx
  rw [h x hx]
  exact Bool.false_ne_true

theorem ite {p : Prop} [Decidable p] (h : Calm fs) (h' : Calm gs) : Calm (if p then fs else gs) := by
  split
  · exact h
  · exact h'

theorem single (problem : DirectiveProblem) (t : Token)
    (h : Finding.isOfNesting ⟨.directive problem, t.span⟩ = false) :
    Calm [problemAt problem t] := cons_iff.2 ⟨h, nil⟩

end Calm

theorem calm_leftover (ts : List Token) : Calm (leftover ts) := by
  cases ts with
  | nil => exact .nil
  | cons t ts => exact .single _ t rfl

theorem calm_evaluate (symbols : List String) (args : List Token) (stop : Token) :
    Calm (evaluate symbols args stop).2.1 := by
  unfold evaluate
  split
  · exact calm_leftover _
  · exact .single _ _ rfl

theorem calm_lineFindings (args : List Token) (stop : Token) : Calm (lineFindings args stop) := by
  unfold lineFindings
  split
  · exact .single _ _ rfl
  · apply Calm.ite (calm_leftover _)
    apply Calm.ite _ (.single _ _ rfl)
    split
    · exact .ite (calm_leftover _) (calm_leftover _)
    · exact .nil

theorem calm_warningListFindings (nameNext : Bool) (ts : List Token) :
    Calm (warningListFindings nameNext ts) := by
  induction ts generalizing nameNext with
  | nil => exact .nil
  | cons t ts ih => exact .ite (ih false) (.ite (ih true) (.single _ t rfl))

theorem calm_checksumFindings (args : List Token) (stop : Token) :
    Calm (checksumFindings args stop) := by
  unfold checksumFindings
  simp only
  split
  · exact .single _ _ rfl
  · exact .ite (.single _ _ rfl) (calm_leftover _)

theorem calm_pragmaFindings (args : List Token) (stop : Token) :
    Calm (pragmaFindings args stop) := by
  unfold pragmaFindings
  split
  · exact .single _ _ rfl
  · apply Calm.ite _ (.ite (calm_checksumFindings _ _) (.single _ _ rfl))
    split
    · exact .single _ _ rfl
    · exact .ite (calm_warningListFindings _ _) (.single _ _ rfl)

theorem calm_nullableFindings (name : Token) (args : List Token) (stop : Token) :
    Calm (nullableFindings name args stop) := by
  unfold nullableFindings
  rw [Calm.cons_iff]
  apply And.intro rfl
  split
  · exact .single _ _ rfl
  · apply Calm.ite _ (.single _ _ rfl)
    split
    · exact .nil
    · exact .ite (calm_leftover _) (.single _ _ rfl)

theorem calm_fileFindings (script seenToken : Bool) (name : Token) (args : List Token)
    (stop : Token) : Calm (fileFindings script seenToken name args stop) := by
  unfold fileFindings
  apply Calm.ite (.single _ _ rfl)
  apply Calm.ite (.single _ _ rfl)
  split
  · exact .single _ _ rfl
  · exact .ite (calm_leftover _) (.single _ _ rfl)

/-! ### Directive lines -/

/-- The effect is what the directive about blocks, if there is one, does to the blocks, and what is
found about their nesting is found at the name of the directive. -/
structure Effect.Follows (e : Effect) (blocks : Blocks) (directive : Option BlockDirective)
    (name : Token) : Prop where
  stays : directive = none → e.state.blocks = blocks
  meets : ∀ d ∈ directive, blocks.Meets d e.state.blocks (e.findings.any (·.isOfNesting))
  calm : directive = none → Calm e.findings
  placed : ∀ x ∈ e.findings, x.isOfNesting = true → x.span = name.span

namespace DirectiveState

variable (s : DirectiveState)

theorem calm_condition (evaluated : Bool) (args : List Token) (stop : Token) :
    Calm (s.condition evaluated args stop).2.1 := by
  unfold condition
  split
  · exact calm_evaluate _ _ _
  · exact .nil

/-- A condition is remarked to hold exactly when it counts as true. -/
theorem contains_condition (evaluated : Bool) (args : List Token) (stop : Token) :
    (s.condition evaluated args stop).2.2.contains (.condition true) =
      (s.condition evaluated args stop).1 := by
  unfold condition
  split
  · unfold evaluate
    split
    · next holds _ _ => cases holds <;> rfl
    · rfl
  · rfl

/-- A directive that finds nothing about nesting follows what it does. -/
theorem follows_of_calm {e : Effect} {d : BlockDirective} {name : Token} (h : Calm e.findings)
    (hmeets : s.blocks.Meets d e.state.blocks false) : e.Follows s.blocks (some d) name where
  stays hnone := nomatch hnone
  meets d' hd' := by
    cases hd'
    rw [h.any_eq_false]
    exact hmeets
  calm _ := h
  placed x hx hnest := by
    rw [h x hx] at hnest
    contradiction

/-- A directive that is not about blocks leaves them alone. -/
theorem follows_none {e : Effect} {name : Token} (h : Calm e.findings)
    (hstays : e.state.blocks = s.blocks) : e.Follows s.blocks none name where
  stays _ := hstays
  meets d hd := nomatch hd
  calm _ := h
  placed x hx hnest := by
    rw [h x hx] at hnest
    contradiction

theorem follows_unchanged {findings : List Finding} (h : Calm findings) (name : Token) :
    (s.unchanged findings).Follows s.blocks none name :=
  s.follows_none h rfl

theorem follows_ifActive {e : Effect} {name : Token} (h : e.Follows s.blocks none name) :
    (s.ifActive e).Follows s.blocks none name := by
  unfold ifActive
  split
  · exact h
  · exact s.follows_unchanged .nil name

/-- A finding about nesting that is made at the name. -/
theorem follows_of_found {e : Effect} {d : BlockDirective} {name : Token}
    {misplaced : Bool} (problem : DirectiveProblem)
    (hproblem : Finding.isOfNesting ⟨.directive problem, name.span⟩ = true)
    (hfound : e.findings = if misplaced then [problemAt problem name] else [])
    (hmeets : s.blocks.Meets d e.state.blocks misplaced) :
    e.Follows s.blocks (some d) name where
  stays h := nomatch h
  meets d' hd' := by
    cases hd'
    rw [hfound]
    cases misplaced with
    | false => exact hmeets
    | true =>
      have hany : [problemAt problem name].any (·.isOfNesting) = true := by
        rw [List.any_cons, problemAt, hproblem, Bool.true_or]
      rw [if_pos rfl, hany]
      exact hmeets
  calm h := nomatch h
  placed x hx _ := by
    rw [hfound] at hx
    split at hx
    · rw [List.mem_singleton.1 hx]
      rfl
    · contradiction

/-- A directive that does not fit the innermost block changes nothing. -/
theorem follows_astray {d : BlockDirective} {kind : BlockKind} (hd : d.expects = some kind)
    (hblocks : s.blocks.head?.map (·.kind) ≠ some kind) (problem : DirectiveProblem) {name : Token}
    (hproblem : Finding.isOfNesting ⟨.directive problem, name.span⟩ = true) :
    (s.unchanged [problemAt problem name]).Follows s.blocks (some d) name :=
  s.follows_of_found problem hproblem rfl (.astray hd hblocks)

theorem follows_openIf (name : Token) (args : List Token) (stop : Token) :
    (s.openIf name args stop).Follows s.blocks
      (some (.openIf (s.openIf name args stop).holds)) name := by
  have hholds : (s.openIf name args stop).holds = (s.condition s.active args stop).1 :=
    s.contains_condition s.active args stop
  apply s.follows_of_calm (s.calm_condition _ _ _)
  rw [hholds]
  exact .openIf _ _ _

/-- A directive for a block with a condition goes astray anywhere else. -/
theorem follows_onCondition {d : Bool → BlockDirective} {name : Token}
    {apply : Block → Blocks → Effect} (hd : ∀ holds, (d holds).expects = some .condition)
    (h : ∀ b outer, s.blocks = b :: outer → b.kind = .condition →
      (apply b outer).Follows s.blocks (some (d (apply b outer).holds)) name) :
    (s.onCondition name apply).Follows s.blocks
      (some (d (s.onCondition name apply).holds)) name := by
  unfold onCondition
  split
  · next hblocks => exact s.follows_astray (hd _) (by simp [hblocks]) .unexpectedDirective rfl
  · next b outer hblocks =>
    split
    · next hkind => exact h b outer hblocks hkind
    · next hkind => exact s.follows_astray (hd _) (by simpa [hblocks] using hkind) .endregionExpected rfl

variable {b : Block} {outer : Blocks}

theorem follows_elseIf (hblocks : s.blocks = b :: outer) (hkind : b.kind = .condition)
    (name : Token) (args : List Token) (stop : Token) :
    (s.elseIf b outer name args stop).Follows s.blocks
      (some (.elseIf (s.elseIf b outer name args stop).holds)) name := by
  unfold elseIf
  split
  · next hseen =>
    apply s.follows_of_found .unexpectedDirective rfl rfl
    rw [hblocks]
    exact .behindLast outer rfl hkind hseen
  · next hseen =>
    have hholds := s.contains_condition b.parentActive args stop
    apply s.follows_of_calm (s.calm_condition b.parentActive args stop)
    simp only [Effect.holds, hholds, hblocks]
    exact .elseIf _ outer hkind (Bool.eq_false_iff.2 hseen)

theorem follows_otherwise (hblocks : s.blocks = b :: outer) (hkind : b.kind = .condition)
    (name : Token) (args : List Token) :
    (s.otherwise b outer name args).Follows s.blocks (some .otherwise) name := by
  unfold otherwise
  split
  · next hseen =>
    apply s.follows_of_found .unexpectedDirective rfl rfl
    rw [hblocks]
    exact .behindLast outer rfl hkind hseen
  · next hseen =>
    apply s.follows_of_calm (.ite (calm_leftover _) .nil)
    rw [hblocks]
    exact .otherwise outer hkind (Bool.eq_false_iff.2 hseen)

theorem follows_endIf (hblocks : s.blocks = b :: outer) (hkind : b.kind = .condition)
    (name : Token) (args : List Token) :
    (s.endIf b outer args).Follows s.blocks (some .endIf) name := by
  apply s.follows_of_calm (.ite (calm_leftover _) .nil)
  rw [hblocks]
  exact .endIf outer hkind

theorem follows_endRegion (name : Token) :
    (s.endRegion name).Follows s.blocks (some .endRegion) name := by
  have hexpects : BlockDirective.endRegion.expects = some .region := rfl
  unfold endRegion
  split
  · next hblocks => exact s.follows_astray hexpects (by simp [hblocks]) .unexpectedDirective rfl
  · next b outer hblocks =>
    split
    · next hkind =>
      apply s.follows_of_calm .nil
      rw [hblocks]
      exact .endRegion outer hkind
    · next hkind =>
      exact s.follows_astray hexpects (by simpa [hblocks] using hkind) .endifExpected rfl

theorem follows_define (defined : Bool) (name : Token) (args : List Token) (stop : Token) :
    (s.define defined name args stop).Follows s.blocks none name := by
  unfold define
  split
  · exact s.follows_unchanged (.single _ _ rfl) name
  · split
    · exact s.follows_unchanged (.single _ _ rfl) name
    · split
      · exact s.follows_unchanged (.single _ _ rfl) name
      · exact s.follows_none (calm_leftover _) rfl

/-- Every directive follows what the directive about blocks does that it is. -/
theorem follows_apply (script : Bool) (directive : Option DirectiveName) (name : Token)
    (args : List Token) (stop : Token) :
    (s.apply script directive name args stop).Follows s.blocks
      (directive.bind (BlockDirective.ofName? (s.apply script directive name args stop).holds))
      name := by
  have hchecked {findings : List Finding} (h : Calm findings) :=
    s.follows_ifActive (s.follows_unchanged h name)
  unfold apply
  split
  · exact s.follows_openIf name args stop
  · exact s.follows_onCondition (d := .elseIf) (fun _ ↦ rfl) fun b outer hb hkind ↦
      s.follows_elseIf hb hkind name args stop
  · exact s.follows_onCondition (d := fun _ ↦ .otherwise) (fun _ ↦ rfl) fun b outer hb hkind ↦
      s.follows_otherwise hb hkind name args
  · exact s.follows_onCondition (d := fun _ ↦ .endIf) (fun _ ↦ rfl) fun b outer hb hkind ↦
      s.follows_endIf hb hkind name args
  · apply s.follows_of_calm .nil
    exact .region name.span s.blocks
  · exact s.follows_endRegion name
  · exact s.follows_ifActive (s.follows_define true name args stop)
  · exact s.follows_ifActive (s.follows_define false name args stop)
  · exact hchecked (.single _ _ rfl)
  · exact hchecked (.single _ _ rfl)
  · exact hchecked (calm_lineFindings args stop)
  · exact hchecked (calm_pragmaFindings args stop)
  · exact hchecked (calm_nullableFindings name args stop)
  · exact hchecked (calm_fileFindings script s.seenToken name args stop)
  · exact hchecked (calm_fileFindings script s.seenToken name args stop)
  · exact hchecked (.single _ _ rfl)

theorem remarks_ifActive (e : Effect) (h : e.remarks = []) : (s.ifActive e).remarks = [] := by
  unfold ifActive
  split
  · exact h
  · rfl

theorem remarks_condition (evaluated : Bool) (args : List Token) (stop : Token) :
    (s.condition evaluated args stop).2.2 = [] ∨
      ∃ holds, (s.condition evaluated args stop).2.2 = [.condition holds] := by
  unfold condition
  split
  · unfold evaluate
    split
    · exact .inr ⟨_, rfl⟩
    · exact .inl rfl
  · exact .inl rfl

/-- Of what a directive does, only the reading of a condition is remarked upon. -/
theorem remarks_apply (script : Bool) (directive : Option DirectiveName) (name : Token)
    (args : List Token) (stop : Token) :
    (s.apply script directive name args stop).remarks = [] ∨
      ∃ holds, (s.apply script directive name args stop).remarks = [.condition holds] := by
  have hsilent {e : Effect} (h : e.remarks = []) :
      e.remarks = [] ∨ ∃ holds, e.remarks = [.condition holds] := .inl h
  have hchecked (findings : List Finding) := hsilent (s.remarks_ifActive (s.unchanged findings) rfl)
  have hdefine (defined : Bool) : (s.define defined name args stop).remarks = [] := by
    unfold define
    split
    · rfl
    · split
      · rfl
      · split <;> rfl
  have hcondition {apply : Block → Blocks → Effect}
      (h : ∀ b outer, (apply b outer).remarks = [] ∨
        ∃ holds, (apply b outer).remarks = [.condition holds]) :
      (s.onCondition name apply).remarks = [] ∨
        ∃ holds, (s.onCondition name apply).remarks = [.condition holds] := by
    unfold onCondition
    split
    · exact hsilent rfl
    · split
      · exact h _ _
      · exact hsilent rfl
  unfold apply
  split
  · exact s.remarks_condition s.active args stop
  · apply hcondition
    intro b outer
    unfold elseIf
    split
    · exact hsilent rfl
    · exact s.remarks_condition b.parentActive args stop
  · apply hcondition
    intro b outer
    unfold otherwise
    split <;> exact hsilent rfl
  · exact hcondition fun _ _ ↦ hsilent rfl
  · exact hsilent rfl
  · unfold endRegion
    split
    · exact hsilent rfl
    · split <;> exact hsilent rfl
  · exact hsilent (s.remarks_ifActive _ (hdefine true))
  · exact hsilent (s.remarks_ifActive _ (hdefine false))
  all_goals exact hchecked _

/-- Every directive line follows what the directive about blocks does that its remarks tell of, and
then it has a name. -/
theorem follows_process (script : Bool) (line : DirectiveLine) :
    ∃ name, (s.process script line).Follows s.blocks
        (BlockDirective.ofRemarks? (s.process script line).remarks) name ∧
      (BlockDirective.ofRemarks? (s.process script line).remarks ≠ none →
        name ∈ line.body ∧ name.text ≠ "") := by
  have hnone {e : Effect} (h : ∀ name, e.Follows s.blocks none name) (hremarks : e.remarks = []) :
      ∃ name, e.Follows s.blocks (BlockDirective.ofRemarks? e.remarks) name ∧
        (BlockDirective.ofRemarks? e.remarks ≠ none → name ∈ line.body ∧ name.text ≠ "") := by
    rw [hremarks]
    exact ⟨line.hash, h _, fun hd ↦ absurd rfl hd⟩
  have hnameless := hnone
    (fun name ↦ s.follows_ifActive (s.follows_unchanged (.single .directiveExpected
      line.hash rfl) name))
    (by unfold ifActive; split <;> rfl)
  unfold process
  split
  · exact hnameless
  · next name args hbody =>
    split
    · split
      · exact hnone (fun name ↦ s.follows_unchanged .nil name) rfl
      · exact hnameless
    · split
      · have hfollows := s.follows_apply script (DirectiveName.ofText? name.text) name args line.stop
        refine ⟨name, ⟨hfollows.stays, hfollows.meets, hfollows.calm, hfollows.placed⟩, ?_⟩
        intro hd
        refine ⟨hbody ▸ List.mem_cons_self, fun htext ↦ hd ?_⟩
        simp [BlockDirective.ofRemarks?, htext, DirectiveName.ofText?]
      · exact hnameless

end DirectiveState

end CSharpCheck
