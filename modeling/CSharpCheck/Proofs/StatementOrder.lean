import CSharpCheck.Proofs.ErrorOrder
import CSharpCheck.Proofs.Rules.AttributedTypes
import CSharpCheck.Proofs.Rules.Order

/-!
# Statements come before declarations

A statement at the top level that comes after the declaration of a namespace or a type is reported,
once in a text and at the first such statement.
-/

namespace CSharpCheck

/-! ### What has been found -/

/-- The finding that a statement is out of place. -/
def TokenStream.misplacedAt (stream : TokenStream) (index : Nat) : Finding :=
  ⟨.grammar .statementAfterDeclarations, (stream.token index).span⟩

namespace Progress

variable {stream : TokenStream} {p : Progress} {found : List Finding} {reported : Prop}

/-- The findings that a statement is out of place, the latest first. -/
def misplaced (p : Progress) : List Finding :=
  p.found.filter (·.cause == .grammar .statementAfterDeclarations)

/-- Whether another rule of the grammar has been found broken. -/
def otherwiseFaulty (p : Progress) : Bool :=
  p.found.any fun x ↦ x.isSyntax && x.cause != .grammar .statementAfterDeclarations

/-- The statements that are out of place have been found, and no error goes unnoticed after this
unless one has been found before. -/
structure Steady (found : List Finding) (reported : Prop) (p : Progress) : Prop where
  misplaced : p.misplaced = found
  quiet : p.charged = true ∨ p.abandonedAt.isSome = true → p.otherwiseFaulty = true ∨ reported

theorem steady_start (stream : TokenStream) : (start stream).Steady [] reported := by
  refine ⟨rfl, fun h ↦ ?_⟩
  rcases h with h | h
  · contradiction
  · contradiction

theorem Steady.weaken {reported' : Prop} (h : p.Steady found reported)
    (himp : reported → reported') : p.Steady found reported' :=
  ⟨h.misplaced, fun hquiet ↦ (h.quiet hquiet).imp_right himp⟩

/-- The use of a feature is no error. -/
theorem Steady.use (h : p.Steady found reported) (feature : Feature) (span : Span) :
    (p.note ⟨.use feature, span⟩).Steady found reported := by
  constructor
  · rw [Progress.misplaced, Progress.note, List.filter_cons_of_neg (by simp)]
    exact h.misplaced
  · rw [otherwiseFaulty, Progress.note, List.any_cons, Finding.isSyntax, Bool.false_and,
      Bool.false_or]
    exact h.quiet

/-- Only the report that a statement is out of place makes a difference. -/
theorem invariantUnder_steady (stream : TokenStream) (found : List Finding) (reported : Prop) :
    InvariantUnder stream (· ≠ .statementAfterDeclarations) (Steady found reported) where
  advance p hp count := by
    have hquiet : (p.advance count).charged = true → p.charged = true := by
      intro hcharged
      rw [← Bool.not_eq_false]
      intro hnot
      rw [charged_advance hnot] at hcharged
      contradiction
    constructor
    · rw [misplaced, found_advance]
      exact hp.misplaced
    · rw [otherwiseFaulty, found_advance, abandonedAt_advance]
      exact fun h ↦ hp.quiet (h.imp_left hquiet)
  use p hp feature index := hp.use feature _
  report p hp place e he := by
    unfold report
    split
    · exact hp
    · have hother : (⟨.grammar e, p.errorSpan stream place⟩ : Finding).cause ≠
          .grammar .statementAfterDeclarations := fun h ↦ he (Cause.grammar.inj h)
      constructor
      · rw [misplaced, note, List.filter_cons_of_neg (by simpa using hother)]
        exact hp.misplaced
      · intro _
        left
        simp [otherwiseFaulty, note, Finding.isSyntax, he]
  abandon p hp := by
    constructor
    · rw [misplaced, abandon, List.filter_cons_of_neg (by simp)]
      exact hp.misplaced
    · intro _
      left
      simp [otherwiseFaulty, abandon, Finding.isSyntax]

/-- The report that a statement is out of place. -/
theorem Steady.report_misplaced (stream : TokenStream) (h : p.Steady found False)
    (hclean : p.otherwiseFaulty = false) :
    (p.report stream .here .statementAfterDeclarations).Steady
      (stream.misplacedAt p.index :: found) True := by
  have hheard : (p.charged || p.abandonedAt.isSome) = false := by
    rw [← Bool.not_eq_true, Bool.or_eq_true]
    intro hquiet
    rcases h.quiet hquiet with hfaulty | hreported
    · rw [hclean] at hfaulty
      contradiction
    · exact hreported
  rw [report, hheard, if_neg Bool.false_ne_true]
  constructor
  · rw [Progress.misplaced, Progress.note, List.filter_cons_of_pos (by simp)]
    exact congrArg _ h.misplaced
  · exact fun _ ↦ .inr True.intro

/-- An error that has been found is not forgotten. -/
theorem invariant_otherwiseFaulty (stream : TokenStream) :
    Invariant stream (·.otherwiseFaulty = true) where
  advance p hp count := by rwa [otherwiseFaulty, found_advance]
  use p hp feature index := by
    rw [otherwiseFaulty, note, List.any_cons, Bool.or_eq_true]
    exact .inr hp
  report p hp place e := by
    unfold report
    split
    · exact hp
    · rw [otherwiseFaulty, note, List.any_cons, Bool.or_eq_true]
      exact .inr hp
  abandon p hp := by
    rw [otherwiseFaulty, abandon, List.any_cons, Bool.or_eq_true]
    exact .inr hp

end Progress

namespace Rule

variable {α : Type} {stream : TokenStream} {room : Nat} {around : Surroundings} {p : Progress}
  {found : List Finding} {reported : Prop}

/-- A rule that is not concerned with the order of statements reports none to be out of place. -/
theorem steady_runWith {r : Rule α} (hr : r.without .order = r) (hp : p.Steady found reported) :
    (r.runWith (grammarRules.enter room) around p).2.Steady found reported :=
  runWith_invariantUnder (Progress.invariantUnder_steady around.stream found reported)
    (Rules.enter_invariantUnder (Progress.invariantUnder_steady around.stream found reported)
      (fun q ↦ reportsOnly_of_without (grammarRules_without_order q)) room)
    (reportsOnly_of_without hr) rfl hp

theorem otherwiseFaulty_of_report {place : ErrorPlace} {e : GrammarError}
    (h : (p.report stream place e).otherwiseFaulty = false) : p.otherwiseFaulty = false := by
  rw [← Bool.not_eq_true] at h ⊢
  exact fun hp ↦ h ((Progress.invariant_otherwiseFaulty stream).report p hp place e)

theorem otherwiseFaulty_of_runWith (r : Rule α)
    (h : (r.runWith (grammarRules.enter room) around p).2.otherwiseFaulty = false) :
    p.otherwiseFaulty = false := by
  rw [← Bool.not_eq_true] at h ⊢
  exact fun hp ↦ h <| runWith_invariant (Progress.invariant_otherwiseFaulty around.stream)
    (Rules.enter_invariant (Progress.invariant_otherwiseFaulty around.stream) _ _) r rfl hp

end Rule

/-! ### Elements of a text -/

/-- What an element of a text is taken for by the tokens ahead. -/
inductive ElementKind where
  | aliasDirective
  | usingDirective
  | globalAttribute
  | namespaceDeclaration
  | strayBrace
  | typeDeclaration
  | member
  | statement
  deriving DecidableEq

/-- What the next element of a text is taken for. -/
def Ahead.elementKind (ts : Ahead) : ElementKind :=
  if ts.isWord .externWord && ts.tail.isContextual "alias" then .aliasDirective
  else if ts.isUsingDirective false then .usingDirective
  else if ts.isGlobalAttribute then .globalAttribute
  else if ts.isWord .namespaceWord then .namespaceDeclaration
  else if ts.is .closeBrace then .strayBrace
  else if ts.isTypeDeclaration then .typeDeclaration
  else if ts.isMemberOnly then .member
  else .statement

namespace ElementKind

/-- The element counts as the declaration of a namespace or a type. -/
def declares : ElementKind → Bool
  | namespaceDeclaration | typeDeclaration => true
  | _ => false

/-- The element is a statement to be reported. -/
def misplaced (kind : ElementKind) (state : Rule.UnitState) : Bool :=
  kind == .statement && state.declarationSeen && !state.misplacedReported

end ElementKind

/-- What the states tell when an element has been read in between. -/
structure Rule.UnitState.Passes (kind : ElementKind) (state state' : Rule.UnitState) : Prop where
  declarationSeen : state'.declarationSeen = (state.declarationSeen || kind.declares)
  misplacedReported :
    state'.misplacedReported = (state.misplacedReported || kind.misplaced state)

namespace Rule

variable {stream : TokenStream} {room : Nat} {kinds : List TypeKind} {p : Progress}
  {found : List Finding} {state : UnitState} {kind : ElementKind}

/-- What the rule finds when it reads an element of the kind: that the element is out of place, if
it is, and nothing else of this sort. -/
def ReadsElement (stream : TokenStream) (room : Nat) (kinds : List TypeKind) (kind : ElementKind)
    (state : UnitState) (p : Progress) (r : Rule UnitState) : Prop :=
  ∀ found, p.Steady found (state.misplacedReported = true) →
    let end_ := r.runWith (grammarRules.enter room) ⟨stream, false, kinds⟩ p
    state.Passes kind end_.1 ∧
      (end_.2.otherwiseFaulty = false →
        end_.2.Steady
          (if kind.misplaced state then stream.misplacedAt p.index :: found else found)
          (end_.1.misplacedReported = true))

namespace ReadsElement

/-- A rule that is not concerned with the order of statements, and what it tells. -/
theorem bind_pure {α : Type} {r : Rule α} {f : α → UnitState} (hr : r.without .order = r)
    (hkind : kind.misplaced state = false)
    (hseen : ∀ a, (f a).declarationSeen = (state.declarationSeen || kind.declares))
    (hreported : ∀ a, (f a).misplacedReported = state.misplacedReported) :
    ReadsElement stream room kinds kind state p (r >>= fun a ↦ Pure.pure (f a)) := by
  intro found hp
  simp only [runWith_bind, runWith_pure]
  constructor
  · constructor
    · exact hseen _
    · rw [hreported, hkind, Bool.or_false]
  · intro _
    rw [hreported, hkind, if_neg Bool.false_ne_true]
    exact steady_runWith hr hp

theorem requireHere {r : Rule UnitState} (h : ∀ p, ReadsElement stream room kinds kind state p r)
    (f : Feature) : ReadsElement stream room kinds kind state p (requireHere f >>= fun _ ↦ r) :=
  fun found hp ↦ h _ found (hp.use f _)

/-- A statement is reported if it is out of place, unless another error has been found. -/
theorem report (hkind : kind.misplaced state = true) {r : Rule Unit}
    (hr : r.without .order = r) {state' : UnitState}
    (hseen : state'.declarationSeen = (state.declarationSeen || kind.declares))
    (hreported : state'.misplacedReported = true) :
    ReadsElement stream room kinds kind state p
      (do errorHere .statementAfterDeclarations; r; return state') := by
  intro found hp
  have hrun : (do Rule.errorHere .statementAfterDeclarations; r; return state' :
      Rule UnitState).runWith (grammarRules.enter room) ⟨stream, false, kinds⟩ p =
        (state', (r.runWith (grammarRules.enter room) ⟨stream, false, kinds⟩
          (p.report stream .here .statementAfterDeclarations)).2) := by
    simp only [runWith_bind, runWith_pure]
    rfl
  dsimp only
  rw [hrun, hkind, if_pos rfl]
  have hnot : state.misplacedReported = true → False := by
    intro hyes
    simp [ElementKind.misplaced, hyes] at hkind
  constructor
  · constructor
    · exact hseen
    · rw [hkind, Bool.or_true]
      exact hreported
  · intro hclean
    have hreport := (hp.weaken hnot).report_misplaced stream
      (otherwiseFaulty_of_report (otherwiseFaulty_of_runWith r hclean))
    exact (steady_runWith hr hreport).weaken fun _ ↦ hreported

theorem topLevelStatement :
    ReadsElement stream room kinds .statement state p (topLevelStatement state) := by
  have hcall (p : Progress) : ReadsElement stream room kinds .statement state p
      (if state.declarationSeen && !state.misplacedReported then do
        errorHere .statementAfterDeclarations
        call (.statement true) pure
        return {
          state with
          elementSeen := true
          statementNoted := state.statementNoted || true
          misplacedReported :=
            state.misplacedReported || (state.declarationSeen && !state.misplacedReported) }
      else do
        call (.statement true) pure
        return {
          state with
          elementSeen := true
          statementNoted := state.statementNoted || true
          misplacedReported :=
            state.misplacedReported || (state.declarationSeen && !state.misplacedReported) }) := by
    split
    · next hmisplaced =>
      apply report
      · exact hmisplaced
      · simp
      · exact (Bool.or_false _).symm
      · dsimp only
        rw [hmisplaced, Bool.or_true]
    · next hmisplaced =>
      rw [Bool.not_eq_true] at hmisplaced
      apply bind_pure
      · simp
      · exact hmisplaced
      · exact fun _ ↦ (Bool.or_false _).symm
      · intro _
        rw [hmisplaced, Bool.or_false]
  intro found hp
  unfold Rule.topLevelStatement
  simp only [runWith, Bool.not_false, Bool.true_and]
  split
  · exact requireHere hcall .topLevelStatements found hp
  · exact hcall p found hp

theorem unitElement :
    ReadsElement stream room kinds p.ahead.elementKind state p (unitElement false state) := by
  intro found hp
  unfold Rule.unitElement Ahead.elementKind
  simp only [runWith, Bool.false_or]
  revert found
  split
  · exact bind_pure (by simp) rfl (fun _ ↦ (Bool.or_false _).symm) fun _ ↦ rfl
  split
  · split
    · rw [← bind_assoc]
      exact bind_pure (by simp) rfl (fun _ ↦ (Bool.or_false _).symm) fun _ ↦ rfl
    · exact bind_pure (by simp) rfl (fun _ ↦ (Bool.or_false _).symm) fun _ ↦ rfl
  split
  · exact bind_pure (by simp) rfl (fun _ ↦ (Bool.or_false _).symm) fun _ ↦ rfl
  split
  · exact bind_pure (by simp) rfl (fun _ ↦ (Bool.or_true _).symm) fun _ ↦ rfl
  split
  · rw [← bind_assoc]
    exact bind_pure (by simp) rfl (fun _ ↦ (Bool.or_false _).symm) fun _ ↦ rfl
  split
  · exact bind_pure (by simp) rfl (fun _ ↦ (Bool.or_true _).symm) fun _ ↦ rfl
  split
  · exact bind_pure (by simp) rfl (fun _ ↦ (Bool.or_false _).symm) fun _ ↦ rfl
  · exact topLevelStatement

/-- What follows an element only tells its state. -/
theorem bind {r : Rule UnitState} {next : UnitState → Rule UnitState}
    (h : ReadsElement stream room kinds kind state p r)
    (hnext : ∀ state, (next state).without .order = next state)
    (hstate : ∀ state q, ((next state).runWith (grammarRules.enter room) ⟨stream, false, kinds⟩
      q).1 = state) :
    ReadsElement stream room kinds kind state p (r >>= next) := by
  intro found hp
  obtain ⟨hpasses, hsteady⟩ := h found hp
  dsimp only
  rw [runWith_bind, hstate]
  refine ⟨hpasses, fun hclean ↦ ?_⟩
  exact steady_runWith (hnext _) (hsteady (otherwiseFaulty_of_runWith _ hclean))

theorem elementOrRecover :
    ReadsElement stream room kinds p.ahead.elementKind state p (elementOrRecover false state) := by
  refine bind (p := p) unitElement (fun state ↦ ?_) fun state q ↦ ?_
  · simp
  · simp only [runWith_bind]
    split
    · simp only [runWith_bind, runWith_pure]
    · rfl

end ReadsElement

/-- The places at which elements are read, in order, in at most `limit` rounds. -/
def placesFrom (stream : TokenStream) : (limit : Nat) → UnitState → Progress → List Progress
  | 0, _, _ => []
  | limit + 1, state, p =>
    if p.ahead.isEmpty then []
    else
      let end_ := grammarRules.run (elementOrRecover false state) ⟨stream, false, []⟩ p
      p :: if p.index < end_.2.index then placesFrom stream limit end_.1 end_.2 else []

/-- The first place at which a statement is out of place, when the state is reached before. -/
def firstMisplaced (state : UnitState) (places : List Progress) : Option Progress :=
  if state.misplacedReported then none
  else
    (if state.declarationSeen then places
      else places.dropWhile (!·.ahead.elementKind.declares)).find?
        (·.ahead.elementKind == .statement)

theorem firstMisplaced_nil (state : UnitState) : firstMisplaced state [] = none := by
  simp [firstMisplaced]

/-- The first place is the one that is found out of place, or it is passed. -/
theorem firstMisplaced_cons {state' : UnitState} (h : state.Passes p.ahead.elementKind state')
    (places : List Progress) : firstMisplaced state (p :: places) =
      if p.ahead.elementKind.misplaced state then some p else firstMisplaced state' places := by
  obtain ⟨hseen, hreported⟩ := h
  unfold firstMisplaced
  rw [hseen, hreported]
  cases hstate : state.misplacedReported with
  | true => simp [ElementKind.misplaced, hstate]
  | false =>
    cases hdeclared : state.declarationSeen with
    | true =>
      cases hkind : p.ahead.elementKind == .statement <;>
        simp [ElementKind.misplaced, hstate, hdeclared, hkind]
    | false =>
      cases hdeclares : p.ahead.elementKind.declares with
      | true =>
        have hkind : (p.ahead.elementKind == .statement) = false := by
          cases hkind : p.ahead.elementKind <;> simp_all [ElementKind.declares]
        simp [ElementKind.misplaced, hstate, hdeclared, hdeclares, hkind]
      | false => simp [ElementKind.misplaced, hstate, hdeclared, hdeclares]

/-- After a statement that is out of place no other one is reported. -/
theorem firstMisplaced_of_passes {state' : UnitState} (h : state.Passes kind state')
    (hkind : kind.misplaced state = true) (places : List Progress) :
    firstMisplaced state' places = none := by
  rw [firstMisplaced, h.misplacedReported, hkind, Bool.or_true, if_pos rfl]

/-- One round over the elements of a text. -/
def unitRound (state : UnitState) : Rule (Round UnitState) := do
  if ← ask fun ts ↦ ts.isEmpty || (false && ts.is .closeBrace) then return .stop state
  else return .again (← elementOrRecover false state)

theorem unitElements_eq :
    unitElements false = loop ⟨false, false, false, false⟩ unitRound fun _ ↦ Pure.pure () := rfl

theorem runWith_unitRound {enter : Surroundings → (q : Nonterminal) → Progress →
    q.Result × Progress} {around : Surroundings} (state : UnitState) (p : Progress) :
    (unitRound state).runWith enter around p =
      if p.ahead.isEmpty then (.stop state, p)
      else
        (.again ((elementOrRecover false state).runWith enter around p).1,
          ((elementOrRecover false state).runWith enter around p).2) := by
  have hask : (ask fun ts ↦ ts.isEmpty || (false && ts.is .closeBrace)).runWith enter around p =
      (p.ahead.isEmpty, p) := by
    simp [ask, runWith]
  rw [unitRound, runWith_bind, hask]
  by_cases hempty : p.ahead.isEmpty = true
  · rw [if_pos hempty, if_pos hempty]
    rfl
  · rw [if_neg hempty, if_neg hempty, runWith_bind, runWith_pure]

/-- What reading at most `limit` elements of a text leads to. -/
def readElements (stream : TokenStream) (limit : Nat) (state : UnitState) (p : Progress) :
    UnitState × Progress :=
  rounds (fun state p ↦ grammarRules.run (unitRound state) ⟨stream, false, []⟩ p) limit state p

theorem readElements_succ (stream : TokenStream) (limit : Nat) (state : UnitState)
    (p : Progress) : readElements stream (limit + 1) state p =
      if p.ahead.isEmpty then (state, p)
      else
        let end_ := grammarRules.run (elementOrRecover false state) ⟨stream, false, []⟩ p
        if p.index < end_.2.index then readElements stream limit end_.1 end_.2 else end_ := by
  rw [readElements, rounds, Rules.run, runWith_unitRound]
  by_cases hempty : p.ahead.isEmpty = true
  · rw [if_pos hempty, if_pos hempty]
  · rw [if_neg hempty, if_neg hempty]
    rfl

theorem otherwiseFaulty_of_readElements {limit : Nat}
    (h : (readElements stream limit state p).2.otherwiseFaulty = false) :
    p.otherwiseFaulty = false := by
  rw [← Bool.not_eq_true] at h ⊢
  intro hp
  refine h (rounds_invariant (P := (·.otherwiseFaulty = true)) (fun state q hq ↦ ?_) limit hp)
  rw [← Bool.not_eq_false]
  intro hclean
  rw [otherwiseFaulty_of_runWith _ hclean] at hq
  contradiction

/-- What is found in the rounds over the elements of a text, unless another error is found. -/
theorem misplaced_readElements (limit : Nat) (state : UnitState) {p : Progress}
    {found : List Finding} (hp : p.Steady found (state.misplacedReported = true))
    (hclean : (readElements stream limit state p).2.otherwiseFaulty = false) :
    (readElements stream limit state p).2.misplaced =
      ((firstMisplaced state (placesFrom stream limit state p)).map
        (stream.misplacedAt ·.index)).toList ++ found := by
  induction limit generalizing state p found with
  | zero =>
    rw [placesFrom, firstMisplaced_nil]
    exact hp.misplaced
  | succ limit ih =>
    rw [readElements_succ] at hclean ⊢
    rw [placesFrom]
    by_cases hempty : p.ahead.isEmpty = true
    · rw [if_pos hempty, if_pos hempty, firstMisplaced_nil]
      exact hp.misplaced
    rw [if_neg hempty] at hclean ⊢
    rw [if_neg hempty]
    have helement : ReadsElement stream maxNesting [] p.ahead.elementKind state p
        (elementOrRecover false state) := .elementOrRecover
    obtain ⟨hpasses, hsteady⟩ := helement found hp
    dsimp only [Rules.run] at hpasses hsteady hclean ⊢
    generalize (elementOrRecover false state).runWith (grammarRules.enter maxNesting)
      ⟨stream, false, []⟩ p = next at hpasses hsteady hclean ⊢
    -- The finding at this element, if there is one, comes before those of the elements behind it.
    have hbehind (places : List Progress) :
        ((firstMisplaced next.1 places).map (stream.misplacedAt ·.index)).toList ++
            (if p.ahead.elementKind.misplaced state then stream.misplacedAt p.index :: found
              else found) =
          ((firstMisplaced state (p :: places)).map (stream.misplacedAt ·.index)).toList ++
            found := by
      rw [firstMisplaced_cons hpasses]
      by_cases hkind : p.ahead.elementKind.misplaced state = true
      · rw [if_pos hkind, if_pos hkind, firstMisplaced_of_passes hpasses hkind]
        rfl
      · rw [if_neg hkind, if_neg hkind]
    rw [← hbehind]
    by_cases hmoves : p.index < next.2.index
    · rw [if_pos hmoves] at hclean ⊢
      rw [if_pos hmoves]
      exact ih next.1 (hsteady (otherwiseFaulty_of_readElements hclean)) hclean
    · rw [if_neg hmoves] at hclean ⊢
      rw [if_neg hmoves, firstMisplaced_nil]
      exact (hsteady hclean).misplaced

theorem placesFrom_placedIn (limit : Nat) (state : UnitState) {p : Progress}
    (hp : p.PlacedIn stream) : ∀ q ∈ placesFrom stream limit state p, q.PlacedIn stream := by
  induction limit generalizing state p with
  | zero => exact List.forall_mem_nil _
  | succ limit ih =>
    rw [placesFrom]
    split
    · exact List.forall_mem_nil _
    · refine List.forall_mem_cons.2 ⟨hp, ?_⟩
      split
      · exact ih _ (placedIn_runWith _ hp)
      · exact List.forall_mem_nil _

end Rule

/-! ### Whole texts -/

open Rule

variable {stream : TokenStream}

/-- The places in regular code at which the elements of a text are read, in order. -/
def elementPlaces (stream : TokenStream) : List Progress :=
  placesFrom stream stream.size ⟨false, false, false, false⟩ (.start stream)

/-- A statement is reported just if it is the first one behind an element that counts as a
declaration. -/
theorem misplaced_readUnit (hclean : (readUnit stream false).otherwiseFaulty = false) :
    (readUnit stream false).misplaced =
      ((((elementPlaces stream).dropWhile (!·.ahead.elementKind.declares)).find?
        (·.ahead.elementKind == .statement)).map (stream.misplacedAt ·.index)).toList := by
  have hrounds := misplaced_readElements stream.size ⟨false, false, false, false⟩
    (Progress.steady_start stream) hclean
  rw [List.append_nil] at hrounds
  exact hrounds

/-- Whether the declaration of a namespace or a type is read at the place, by the rules for
namespaces and for members. -/
def Progress.readsDeclaration (stream : TokenStream) (p : Progress) : Bool :=
  match p.ahead.elementKind with
  | .namespaceDeclaration => true
  | .typeDeclaration | .member =>
    (memberHead.runWith (grammarRules.enter (maxNesting - 1)) ⟨stream, false, []⟩
      p).2.ahead.isTypeKeyword
  | _ => false

namespace Ahead

variable {ts : Ahead}

theorem isTypeDeclaration_of_elementKind (h : ts.elementKind = .typeDeclaration) :
    ts.isTypeDeclaration = true := by
  unfold elementKind at h
  repeat' split at h
  all_goals first | contradiction | assumption

theorem not_isTypeDeclaration_of_elementKind (h : ts.elementKind = .member) :
    ¬ts.isTypeDeclaration = true := by
  unfold elementKind at h
  repeat' split at h
  all_goals first | contradiction | assumption

end Ahead

/-- Behind plain attribute sections, what counts as a declaration is read as one. -/
theorem Progress.readsDeclaration_eq {p : Progress} (hp : p.PlacedIn stream)
    (hsections : p.ahead.elementKind = .typeDeclaration ∨ p.ahead.elementKind = .member →
      PlainSections (sectionsAt ⟨stream, false, []⟩ (maxNesting - 1) p)) :
    p.readsDeclaration stream = p.ahead.elementKind.declares := by
  have hread (h : p.ahead.elementKind = .typeDeclaration ∨ p.ahead.elementKind = .member) :=
    isTypeDeclaration_eq hp (hsections h)
  cases hkind : p.ahead.elementKind with
  | typeDeclaration =>
    rw [readsDeclaration, hkind]
    dsimp only
    rw [← hread (.inl hkind), Ahead.isTypeDeclaration_of_elementKind hkind]
    rfl
  | member =>
    rw [readsDeclaration, hkind]
    dsimp only
    rw [← hread (.inr hkind),
      Bool.eq_false_iff.2 (Ahead.not_isTypeDeclaration_of_elementKind hkind)]
    rfl
  | _ =>
    rw [readsDeclaration, hkind]
    rfl

theorem dropWhile_eq_of_forall {α : Type} {f g : α → Bool} {l : List α} (h : ∀ a ∈ l, f a = g a) :
    l.dropWhile f = l.dropWhile g := by
  induction l with
  | nil => rfl
  | cons a l ih =>
    obtain ⟨ha, hl⟩ := List.forall_mem_cons.1 h
    rw [List.dropWhile_cons, List.dropWhile_cons, ha, ih hl]

/-- In regular code without other syntax errors, a statement at the top level is reported to be out
of place if it is the first one behind the declaration of a namespace or a type, and no other one
is. The attributes of types must not contain braces or semicolons. -/
theorem misplaced_statement_reported (hclean : (readUnit stream false).otherwiseFaulty = false)
    (hsections : ∀ p ∈ elementPlaces stream,
      p.ahead.elementKind = .typeDeclaration ∨ p.ahead.elementKind = .member →
        PlainSections (sectionsAt ⟨stream, false, []⟩ (maxNesting - 1) p)) :
    (readUnit stream false).misplaced =
      ((((elementPlaces stream).dropWhile (!·.readsDeclaration stream)).find?
        (·.ahead.elementKind == .statement)).map (stream.misplacedAt ·.index)).toList := by
  have hplaced := placesFrom_placedIn stream.size ⟨false, false, false, false⟩
    (Progress.placedIn_start stream)
  have hdrop : (elementPlaces stream).dropWhile (!·.readsDeclaration stream) =
      (elementPlaces stream).dropWhile (!·.ahead.elementKind.declares) := by
    apply dropWhile_eq_of_forall
    intro p hp
    rw [Progress.readsDeclaration_eq (hplaced p hp) (hsections p hp)]
  rw [misplaced_readUnit hclean, hdrop]

theorem misplaced_statement_reported_attributed :
    ∃ stream, TokenStream.ofTokens? (tokensOf "[A] class C \x7b \x7d M();".toList) = some stream ∧
      (readUnit stream false).otherwiseFaulty = false ∧
      (∀ p ∈ elementPlaces stream,
        p.ahead.elementKind = .typeDeclaration ∨ p.ahead.elementKind = .member →
          PlainSections (sectionsAt ⟨stream, false, []⟩ (maxNesting - 1) p)) ∧
      (readUnit stream false).misplaced = [stream.misplacedAt 7] := by
  have hsome : (TokenStream.ofTokens? (tokensOf "[A] class C \x7b \x7d M();".toList)).isSome := by
    decide +kernel
  have hclean : ∀ stream ∈ TokenStream.ofTokens? (tokensOf "[A] class C \x7b \x7d M();".toList),
      (readUnit stream false).otherwiseFaulty = false := by
    decide +kernel
  have hkinds : ∀ stream ∈ TokenStream.ofTokens? (tokensOf "[A] class C \x7b \x7d M();".toList),
      ∀ p ∈ elementPlaces stream,
        (sectionsAt ⟨stream, false, []⟩ (maxNesting - 1) p).map (·.kind) ∈
          [[], [.symbol .openBracket, .identifier, .symbol .closeBracket]] := by
    decide +kernel
  have hfirst : ∀ stream ∈ TokenStream.ofTokens? (tokensOf "[A] class C \x7b \x7d M();".toList),
      ((((elementPlaces stream).dropWhile (!·.readsDeclaration stream)).find?
        (·.ahead.elementKind == .statement)).map (stream.misplacedAt ·.index)).toList =
          [stream.misplacedAt 7] := by
    decide +kernel
  obtain ⟨stream, hstream⟩ := Option.isSome_iff_exists.1 hsome
  have hsections : ∀ p ∈ elementPlaces stream,
      p.ahead.elementKind = .typeDeclaration ∨ p.ahead.elementKind = .member →
        PlainSections (sectionsAt ⟨stream, false, []⟩ (maxNesting - 1) p) := by
    intro p hp _
    rcases List.mem_pair.1 (hkinds stream hstream p hp) with hnone | hsection
    · rw [List.map_eq_nil_iff.1 hnone]
      exact .nil
    · exact PlainSections.of_kinds hsection
  refine ⟨stream, hstream, hclean stream hstream, hsections, ?_⟩
  rw [misplaced_statement_reported (hclean stream hstream) hsections]
  exact hfirst stream hstream

/-- A brace in an attribute hides the declaration of the type behind it. -/
theorem not_misplaced_statement_reported :
    ¬∀ stream : TokenStream, (readUnit stream false).otherwiseFaulty = false →
      (readUnit stream false).misplaced =
        ((((elementPlaces stream).dropWhile (!·.readsDeclaration stream)).find?
          (·.ahead.elementKind == .statement)).map (stream.misplacedAt ·.index)).toList := by
  intro h
  have hsome : (TokenStream.ofTokens?
      (tokensOf "[A(new int[] \x7b 1 \x7d)] class C \x7b \x7d M();".toList)).isSome := by
    decide +kernel
  have hquiet : ∀ stream ∈ TokenStream.ofTokens?
      (tokensOf "[A(new int[] \x7b 1 \x7d)] class C \x7b \x7d M();".toList),
      (readUnit stream false).otherwiseFaulty = false ∧ (readUnit stream false).misplaced = [] ∧
        ((((elementPlaces stream).dropWhile (!·.readsDeclaration stream)).find?
          (·.ahead.elementKind == .statement)).map (stream.misplacedAt ·.index)).toList ≠ [] := by
    decide +kernel
  obtain ⟨stream, hstream⟩ := Option.isSome_iff_exists.1 hsome
  obtain ⟨hclean, hnone, hsome⟩ := hquiet stream hstream
  exact hsome ((h stream hclean).symm.trans hnone)

end CSharpCheck
