import CSharpCheck.Proofs.Reading.Places
import CSharpCheck.Proofs.Recovery.Braces
import CSharpCheck.Proofs.Rules.Composition
import CSharpCheck.Validation

/-!
# Recovery leaves closing braces to the constructs around

After an error tokens are skipped up to a place where reading can go on. Where members, statements
or elements are read, a closing brace is skipped only with its opening brace, and so it is in
enumerations. Where accessors are read, the brace that closes them is skipped if the error is
found there.
-/

namespace CSharpCheck

/-- Whether the name of an accessor comes next. -/
def Ahead.isAccessor (ofEvent : Bool) (ts : Ahead) : Bool :=
  ts.head?.any fun t ↦ t.isIdentifier && (Rule.accessorNames ofEvent).contains t.text

namespace Rule

variable {α : Type} {room : Nat} {around : Surroundings} {p : Progress}

/-- The rule does what `reads` does, unless that stays where it is. Then an error is reported, and
tokens are skipped among which every closing brace closes one of them. -/
def ReadsOrSkips (rule reads : Rule α) (room : Nat) (around : Surroundings) (p : Progress) : Prop :=
  let q := (reads.runWith (grammarRules.enter room) around p).2
  (rule.runWith (grammarRules.enter room) around p).2 = q ∨
    q.ahead = p.ahead ∧ ∃ error inStatement,
      OwnBraces (p.ahead.take (p.ahead.recovery inStatement)) ∧
      (rule.runWith (grammarRules.enter room) around p).2 =
        (q.report around.stream .here error).advance (p.ahead.recovery inStatement)

/-- Reads a member. A token that no member begins with is reported and skipped. -/
def memberOrRecover : Rule Unit := do
  unless ← moves member do
    invalidMember
    recover false

theorem typeBody_eq : typeBody = whileAhead (isBefore .closeBrace) memberOrRecover := rfl

variable {enter : Surroundings → (q : Nonterminal) → Progress → q.Result × Progress}

theorem runWith_moves (rule : Rule Unit) : (moves rule).runWith enter around p =
    (p.index != (rule.runWith enter around p).2.index, (rule.runWith enter around p).2) := by
  show ((here >>= fun start ↦ rule >>= fun _ ↦ here >>= fun stop ↦ pure (start != stop)) :
    Rule Bool).runWith enter around p = _
  simp only [here, runWith_bind, runWith]

/-- Where the token ahead is no closing brace, a rule that may stay there is followed by a report
and a recovery just if it does. -/
theorem readsOrSkips_unless_moves (rule note : Rule Unit) {error : View → GrammarError}
    (hnote : note = look fun v ↦ errorHere (error v)) (inStatement : Bool)
    (hp : p.PlacedIn around.stream) (hguard : p.ahead.is .closeBrace = false) :
    ReadsOrSkips (do unless ← moves rule do note; recover inStatement) rule room around p := by
  have hplaced := @placedIn_runWith _ room _ _ rule hp
  subst hnote
  simp only [ReadsOrSkips, runWith_bind, runWith_moves]
  generalize rule.runWith (grammarRules.enter room) around p = q at hplaced ⊢
  by_cases hstays : p.index = q.2.index
  · have hahead := hp.ahead_eq hplaced hstays.symm
    refine .inr ⟨hahead, error ⟨q.2.index, q.2.previous around.stream, q.2.ahead⟩, inStatement,
      Ahead.ownBraces_recovery inStatement hguard, ?_⟩
    rw [hstays, bne_self_eq_false, if_neg Bool.false_ne_true, ← hahead]
    simp only [runWith_bind, runWith, errorHere, recover, skip, Progress.ahead_report]
  · rw [if_pos (bne_iff_ne.2 hstays)]
    exact .inl rfl

theorem is_closeBrace_of_isBefore {ts : Ahead} (h : isBefore .closeBrace ts = true) :
    ts.is .closeBrace = false := by
  rw [isBefore, Bool.and_eq_true, Bool.not_eq_true', Bool.not_eq_true'] at h
  exact h.2

theorem readsOrSkips_memberOrRecover (hp : p.PlacedIn around.stream)
    (hguard : isBefore .closeBrace p.ahead = true) :
    ReadsOrSkips memberOrRecover member room around p :=
  readsOrSkips_unless_moves member invalidMember rfl false hp (is_closeBrace_of_isBefore hguard)

theorem readsOrSkips_statementOrRecover (rule : Rule Unit) (hp : p.PlacedIn around.stream)
    (hguard : isBefore .closeBrace p.ahead = true) :
    ReadsOrSkips (statementOrRecover rule) rule room around p :=
  readsOrSkips_unless_moves rule (do errorHere (.invalidTerm (← nextText))) rfl true hp
    (is_closeBrace_of_isBefore hguard)

/-- A closing brace that closes no namespace is reported and passed over. -/
theorem index_unitElement (state : UnitState) (h : p.ahead.is .closeBrace = true) :
    ((unitElement false state).runWith (grammarRules.enter room) around p).2.index =
      p.index + 1 := by
  obtain ⟨t, rest, hahead, ht⟩ := Ahead.exists_of_any h
  have hkind : t.kind = .symbol .closeBrace := eq_of_beq ht
  have hword (k : Keyword) : p.ahead.isWord k = false := by
    simp [hahead, Ahead.isWord, Token.isWord, hkind]
  have husing : p.ahead.isUsingDirective false = false := by
    have hcontextual : p.ahead.isContextual "global" = false := by
      simp [hahead, Ahead.isContextual, Token.isContextual, Token.isIdentifier, hkind]
    simp [Ahead.isUsingDirective, hword, hcontextual]
  have hattribute : p.ahead.isGlobalAttribute = false := by
    simp [Ahead.isGlobalAttribute, hahead, Ahead.is_cons, Token.is, hkind]
  simp only [unitElement, runWith, hword, husing, hattribute, h, Bool.false_and,
    Bool.false_eq_true, if_false, if_true, runWith_bind, errorHere, skipToken, skip]
  rw [runWith_pure, Progress.index_advance, Progress.ahead_report, Progress.index_report, hahead]
  simp

theorem readsOrSkips_elementOrRecover (inNamespace : Bool) (state : UnitState)
    (hp : p.PlacedIn around.stream)
    (hguard : inNamespace = true → p.ahead.is .closeBrace = false) :
    ReadsOrSkips (elementOrRecover inNamespace state) (unitElement inNamespace state) room around
      p := by
  have hplaced := @placedIn_runWith _ room _ _ (unitElement inNamespace state) hp
  have hbrace : p.index = ((unitElement inNamespace state).runWith (grammarRules.enter room)
      around p).2.index → p.ahead.is .closeBrace = false := by
    intro hstays
    cases inNamespace with
    | true => exact hguard rfl
    | false =>
      rw [Bool.eq_false_iff]
      intro hclose
      rw [index_unitElement state hclose] at hstays
      omega
  have hhere (p : Progress) : here.runWith (grammarRules.enter room) around p = (p.index, p) := rfl
  simp only [ReadsOrSkips, elementOrRecover, runWith_bind, hhere]
  generalize (unitElement inNamespace state).runWith (grammarRules.enter room) around p = q
    at hplaced hbrace ⊢
  by_cases hstays : p.index = q.2.index
  · have hahead := hp.ahead_eq hplaced hstays.symm
    refine .inr ⟨hahead, .namespaceMemberExpected, false,
      Ahead.ownBraces_recovery false (hbrace hstays), ?_⟩
    rw [hstays, beq_self_eq_true, if_pos rfl, ← hahead]
    simp only [runWith_bind, runWith, errorHere, recover, skip, Progress.ahead_report]
    rfl
  · left
    rw [if_neg (by simpa using hstays)]
    rfl

/-- Reads the value of a member of an enumeration. -/
def enumValue : Rule Unit := do
  if ← accept .equals then expression

/-- An enumeration member without a name is reported and skipped up to the next one. -/
theorem runWith_enumMember :
    let q := (attributeSections.runWith enter around p).2
    q.ahead.isIdentifier = false →
      enumMember.runWith enter around p =
        enumValue.runWith enter around
          ((q.report around.stream .missing .identifierExpected).advance
            (q.ahead.takeWhile (!·.isOneOf [.comma, .closeBrace])).length) := by
  intro q hname
  have hexpect : expectIdentifier.runWith enter around q =
      (false, q.report around.stream .missing .identifierExpected) := by
    simp only [expectIdentifier, expectIf, acceptIf, ask, errorMissing, runWith_bind, runWith,
      hname]
    rfl
  have hread : (attributeSections.runWith enter around p).2 = q := rfl
  simp only [enumMember, enumValue, runWith_bind, hread, hexpect, skip, runWith,
    Progress.ahead_report, Bool.false_eq_true, if_false]

/-- Reads what stands in front of the name of an accessor. -/
def accessorStart : Rule Unit := do
  attributeSections
  accessorModifiers

/-- An accessor without a name is reported and skipped. -/
theorem runWith_accessor (ofEvent automatic : Bool) :
    let q := (accessorStart.runWith enter around p).2
    q.ahead.isAccessor ofEvent = false →
      (accessor ofEvent automatic).runWith enter around p =
        ((), (q.report around.stream .here
          (if ofEvent then .addOrRemoveExpected else .getOrSetExpected)).advance
            (q.ahead.accessorRecovery (accessorNames ofEvent))) := by
  intro q hname
  have hread : (accessorModifiers.runWith enter around
      (attributeSections.runWith enter around p).2).2 = q := by
    simp only [q, accessorStart, runWith_bind]
  rw [Ahead.isAccessor] at hname
  simp only [accessor, runWith_bind, hread, ask, runWith, hname, Bool.false_eq_true, if_false]
  simp only [errorHere, skip, runWith, Progress.ahead_report]

end Rule

open Rule

/-- Where members, statements and elements are read, a recovery skips a closing brace only with its
opening brace, wherever the reading of a text has come to. In enumerations it skips none. Where an
accessor is named, it skips a closing brace without its opening brace just if the error is found at
that brace, and then no second one. -/
theorem recoveries_keep_braces {room : Nat} {around : Surroundings} {p : Progress}
    (hp : p.PlacedIn around.stream) :
    (isBefore .closeBrace p.ahead = true →
      ReadsOrSkips memberOrRecover member room around p ∧
        ∀ rule, ReadsOrSkips (statementOrRecover rule) rule room around p) ∧
    (∀ (inNamespace : Bool) (state : UnitState),
      (inNamespace = true → p.ahead.is .closeBrace = false) →
        ReadsOrSkips (elementOrRecover inNamespace state) (unitElement inNamespace state) room
          around p) ∧
    (∀ q, (attributeSections.runWith (grammarRules.enter room) around p).2 = q →
      q.ahead.isIdentifier = false → ∃ n,
        enumMember.runWith (grammarRules.enter room) around p =
          enumValue.runWith (grammarRules.enter room) around
            ((q.report around.stream .missing .identifierExpected).advance n) ∧
        ∀ t ∈ q.ahead.take n, t.is .closeBrace = false) ∧
    ∀ ofEvent automatic q, (accessorStart.runWith (grammarRules.enter room) around p).2 = q →
      q.ahead.isAccessor ofEvent = false → ∃ n,
        ((accessor ofEvent automatic).runWith (grammarRules.enter room) around p).2 =
          (q.report around.stream .here
            (if ofEvent then .addOrRemoveExpected else .getOrSetExpected)).advance n ∧
        (OwnBraces (q.ahead.take n) ↔ q.ahead.is .closeBrace = false) ∧
        (q.ahead.is .closeBrace = true → OwnBraces (q.ahead.take n).tail) := by
  refine ⟨fun hguard ↦ ⟨?_, fun rule ↦ ?_⟩, fun inNamespace state hguard ↦ ?_, ?_, ?_⟩
  · exact readsOrSkips_memberOrRecover hp hguard
  · exact readsOrSkips_statementOrRecover rule hp hguard
  · exact readsOrSkips_elementOrRecover inNamespace state hp hguard
  · rintro q rfl hname
    exact ⟨_, runWith_enumMember hname, Ahead.not_closeBrace_of_enumRecovery⟩
  · rintro ofEvent automatic q rfl hname
    refine ⟨_, congrArg Prod.snd (runWith_accessor ofEvent automatic hname), ?_, ?_⟩
    · exact Ahead.ownBraces_accessorRecovery_iff _
    · exact Ahead.ownBraces_tail_accessorRecovery _

theorem recoveries_keep_braces_member :
    let stream : TokenStream := ⟨(tokensOf ") \x7b \x7d int x; \x7d".toList).toArray, default⟩
    (Progress.start stream).PlacedIn stream ∧
      isBefore .closeBrace (Progress.start stream).ahead = true ∧
      ReadsOrSkips memberOrRecover member maxNesting ⟨stream, false, []⟩ (.start stream) := by
  intro stream
  have hguard : isBefore .closeBrace (Progress.start stream).ahead = true := by decide +kernel
  refine ⟨Progress.placedIn_start stream, hguard, ?_⟩
  exact ((@recoveries_keep_braces maxNesting ⟨stream, false, []⟩ _
    (Progress.placedIn_start stream)).1 hguard).1

/-- The error at an accessor is found at the brace that closes the accessors, and with that brace
skipped the one that closes the type is taken for it. -/
theorem accessor_error_takes_brace :
    (Survey.ofText false [] "class C \x7b int P \x7b private \x7d \x7d".toList).findings =
      [⟨.use .propertyAccessorModifiers, ⟨⟨1, 19, 18⟩, ⟨1, 26, 25⟩⟩⟩,
        ⟨.grammar .getOrSetExpected, ⟨⟨1, 27, 26⟩, ⟨1, 28, 27⟩⟩⟩,
        ⟨.grammar (.expected .closeBrace), ⟨⟨1, 30, 29⟩, ⟨1, 30, 29⟩⟩⟩] := by
  decide +kernel

end CSharpCheck
