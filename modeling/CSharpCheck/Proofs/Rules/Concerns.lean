import CSharpCheck.Proofs.Rules.Composition

/-!
# Concerns of whole texts

Whether a text is a script, and whether its statements come before its declarations, matters to few
rules only. A rule is relieved of such a concern by leaving out what it does about it. That this
changes nothing is an equation that can be proved rule by rule.
-/

namespace CSharpCheck

/-- What matters to a text as a whole and not to most of its parts. -/
inductive Concern where
  /-- Whether the text is a script, in which there are no namespaces. -/
  | script
  /-- Whether the statements at the top level come before the declarations. -/
  | order
  deriving DecidableEq

namespace Rule

variable {α β σ : Type} {c : Concern}

/-- The rule without a concern. Without the first one it is the rule for regular code, and no
namespaces are read; without the second one statements are not reported to be out of place. -/
def without {α : Type} (c : Concern) : Rule α → Rule α
  | pure result => pure result
  | look next => look fun v ↦ (next v).without c
  | script next =>
    if c = .script then (next false).without c else script fun isScript ↦ (next isScript).without c
  | enclosing next => enclosing fun kinds ↦ (next kinds).without c
  | advance count next => advance count (next.without c)
  | require feature index next => require feature index (next.without c)
  | report place error next =>
    if c = .order ∧ error = .statementAfterDeclarations then next.without c
    else report place error (next.without c)
  | call .namespaceDeclaration next =>
    if c = .script then (next false).without c
    else call .namespaceDeclaration fun fileScoped ↦ (next fileScoped).without c
  | call q next => call q fun r ↦ (next r).without c
  | loop init round next =>
    loop init (fun state ↦ (round state).without c) fun state ↦ (next state).without c
  | within kind body next => within kind (body.without c) (next.without c)

/-! ### Composition -/

@[simp] theorem without_bind (r : Rule α) (k : α → Rule β) :
    (r >>= k).without c = r.without c >>= fun a ↦ (k a).without c := by
  change (r.bind k).without c = (r.without c).bind fun a ↦ (k a).without c
  induction r with
  | script next ih =>
    by_cases hc : c = .script
    · simp only [Rule.bind, without, if_pos hc, ih]
    · simp only [Rule.bind, without, if_neg hc, ih]
  | report place error next ih =>
    by_cases he : c = .order ∧ error = .statementAfterDeclarations
    · simp only [Rule.bind, without, if_pos he, ih]
    · simp only [Rule.bind, without, if_neg he, ih]
  | call q next ih =>
    cases q with
    | namespaceDeclaration =>
      by_cases hc : c = .script
      · simp only [Rule.bind, without, if_pos hc, ih]
      · simp only [Rule.bind, without, if_neg hc, ih]
    | _ => simp only [Rule.bind, without, ih]
  | _ => simp only [Rule.bind, without, *]

@[simp] theorem without_pure (a : α) : (Pure.pure a : Rule α).without c = Pure.pure a := rfl

@[simp] theorem without_result (a : α) : (pure a : Rule α).without c = pure a := rfl

@[simp] theorem without_map (f : α → β) (r : Rule α) :
    (f <$> r).without c = f <$> r.without c :=
  without_bind r _

@[simp] theorem without_ite (p : Prop) [Decidable p] (r s : Rule α) :
    (if p then r else s).without c = if p then r.without c else s.without c := by
  split <;> rfl

@[simp] theorem without_look (next : View → Rule α) :
    (look next).without c = look fun v ↦ (next v).without c := rfl

@[simp] theorem without_enclosing (next : List TypeKind → Rule α) :
    (enclosing next).without c = enclosing fun kinds ↦ (next kinds).without c := rfl

@[simp] theorem without_require (f : Feature) (index : Nat) (r : Rule α) :
    (require f index r).without c = require f index (r.without c) := rfl

@[simp] theorem without_loop (init : σ) (round : σ → Rule (Round σ)) (next : σ → Rule α) :
    (loop init round next).without c =
      loop init (fun state ↦ (round state).without c) fun state ↦ (next state).without c := rfl

@[simp] theorem without_call {q : Nonterminal} (h : q ≠ .namespaceDeclaration)
    (next : q.Result → Rule α) :
    (call q next).without c = call q fun r ↦ (next r).without c := by
  cases q <;> first | rfl | contradiction

@[simp] theorem without_within (kind : TypeKind) (body : Rule Unit) (r : Rule α) :
    (within kind body r).without c = within kind (body.without c) (r.without c) := rfl

theorem without_report {e : GrammarError} (h : e ≠ .statementAfterDeclarations)
    (place : ErrorPlace) (r : Rule α) :
    (report place e r).without c = report place e (r.without c) :=
  if_neg fun he ↦ h he.2

/-! ### Looking and moving -/

@[simp] theorem without_here : here.without c = here := rfl

@[simp] theorem without_ask (question : Ahead → α) : (ask question).without c = ask question := rfl

@[simp] theorem without_ahead : ahead.without c = ahead := rfl

@[simp] theorem without_next (s : Symbol) : (next s).without c = next s := rfl

@[simp] theorem without_nextOneOf (symbols : List Symbol) :
    (nextOneOf symbols).without c = nextOneOf symbols := rfl

@[simp] theorem without_nextWord (k : Keyword) : (nextWord k).without c = nextWord k := rfl

@[simp] theorem without_nextWordOf (words : List Keyword) :
    (nextWordOf words).without c = nextWordOf words := rfl

@[simp] theorem without_nextIdentifier : nextIdentifier.without c = nextIdentifier := rfl

@[simp] theorem without_nextContextual (word : String) :
    (nextContextual word).without c = nextContextual word := rfl

@[simp] theorem without_nextText : nextText.without c = nextText := rfl

@[simp] theorem without_skip (count : Nat) : (skip count).without c = skip count := rfl

@[simp] theorem without_skipToken : skipToken.without c = skipToken := rfl

@[simp] theorem without_acceptIf (question : Ahead → Bool) :
    (acceptIf question).without c = acceptIf question := by
  simp [acceptIf]

@[simp] theorem without_accept (s : Symbol) : (accept s).without c = accept s := without_acceptIf _

@[simp] theorem without_acceptWord (k : Keyword) : (acceptWord k).without c = acceptWord k :=
  without_acceptIf _

@[simp] theorem without_allow (s : Symbol) : (allow s).without c = allow s := by simp [allow]

@[simp] theorem without_allowWord (k : Keyword) : (allowWord k).without c = allowWord k := by
  simp [allowWord]

/-! ### Reporting and noting -/

@[simp] theorem without_errorHere {e : GrammarError} (h : e ≠ .statementAfterDeclarations) :
    (errorHere e).without c = errorHere e :=
  without_report h _ _

@[simp] theorem without_errorMissing {e : GrammarError} (h : e ≠ .statementAfterDeclarations) :
    (errorMissing e).without c = errorMissing e :=
  without_report h _ _

@[simp] theorem without_expectIf (question : Ahead → Bool) {e : GrammarError}
    (h : e ≠ .statementAfterDeclarations) :
    (expectIf question e).without c = expectIf question e := by
  simp [expectIf, h]

@[simp] theorem without_expect (s : Symbol) : (expect s).without c = expect s :=
  without_expectIf _ nofun

@[simp] theorem without_need (s : Symbol) : (need s).without c = need s := by simp [need]

@[simp] theorem without_needWord (k : Keyword) : (needWord k).without c = needWord k := by
  simp [needWord]

@[simp] theorem without_needContextual (word : String) :
    (needContextual word).without c = needContextual word := by
  simp [needContextual]

@[simp] theorem without_expectIdentifier : expectIdentifier.without c = expectIdentifier :=
  without_expectIf _ nofun

@[simp] theorem without_needIdentifier : needIdentifier.without c = needIdentifier := by
  simp [needIdentifier]

@[simp] theorem without_requireAt (f : Feature) (index : Nat) :
    (requireAt f index).without c = requireAt f index := rfl

@[simp] theorem without_requireHere (f : Feature) : (requireHere f).without c = requireHere f := rfl

@[simp] theorem without_takeFeature (f : Feature) : (takeFeature f).without c = takeFeature f := by
  simp [takeFeature]

@[simp] theorem without_requireUses (start : Nat) (uses : List ScanUse) :
    (requireUses start uses).without c = requireUses start uses := by
  induction uses with
  | nil => rfl
  | cons use uses ih => simp [requireUses, ih]

/-! ### Repeating -/

@[simp] theorem without_repeating (round : Rule Bool) :
    (repeating round).without c = repeating (round.without c) := by
  simp [repeating]

@[simp] theorem without_whileAhead (question : Ahead → Bool) (body : Rule Unit) :
    (whileAhead question body).without c = whileAhead question (body.without c) := by
  simp [whileAhead]

@[simp] theorem without_commaSeparated (item : Rule Unit) :
    (commaSeparated item).without c = commaSeparated (item.without c) := by
  simp [commaSeparated]

@[simp] theorem without_commaSeparatedWith (init : σ) (item : σ → Rule σ) :
    (commaSeparatedWith init item).without c =
      commaSeparatedWith init fun state ↦ (item state).without c := by
  simp [commaSeparatedWith]

@[simp] theorem without_commaSeparatedUpTo (s : Symbol) (item : Rule Unit) :
    (commaSeparatedUpTo s item).without c = commaSeparatedUpTo s (item.without c) := by
  simp [commaSeparatedUpTo]

/-! ### Nonterminals -/

@[simp] theorem without_expression : expression.without c = expression := rfl

@[simp] theorem without_statement : statement.without c = statement := rfl

@[simp] theorem without_pattern : pattern.without c = pattern := rfl

@[simp] theorem without_unary : unary.without c = unary := rfl

@[simp] theorem without_initializer : initializer.without c = initializer := rfl

@[simp] theorem without_member : member.without c = member := rfl

end Rule

end CSharpCheck
