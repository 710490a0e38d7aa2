import CSharpCheck.Proofs.Relocation.Basic

/-!
# Relocated directive lines

A relocated directive line has the same effect, relocated.
-/

namespace CSharpCheck

variable (m : Relocation)

/-! ### Conditions -/

/-- The relocated verdict on a condition. -/
def Verdict.relocate : Verdict → Verdict
  | .value holds rest => .value holds (rest.map (·.relocate m))
  | .invalid offender => .invalid (offender.map (·.relocate m))

namespace Condition

variable {m}

theorem chain_relocate {operand : List Token → Verdict}
    {operator? : Token → Option (Bool → Bool → Bool)}
    (hoperand : ∀ ts, operand (ts.map (·.relocate m)) = (operand ts).relocate m)
    (hoperator : ∀ t : Token, operator? (t.relocate m) = operator? t) (limit : Nat) (holds : Bool)
    (ts : List Token) :
    chain operand operator? limit holds (ts.map (·.relocate m)) =
      (chain operand operator? limit holds ts).relocate m := by
  induction limit generalizing holds ts with
  | zero => rfl
  | succ limit ih =>
    cases ts with
    | nil => rfl
    | cons t rest =>
      simp only [List.map_cons, chain, hoperator, hoperand]
      cases operator? t with
      | none => rfl
      | some combine =>
        cases operand rest with
        | value right rest => exact ih _ rest
        | invalid offender => rfl

theorem joined_relocate {operand : List Token → Verdict}
    {operator? : Token → Option (Bool → Bool → Bool)}
    (hoperand : ∀ ts, operand (ts.map (·.relocate m)) = (operand ts).relocate m)
    (hoperator : ∀ t : Token, operator? (t.relocate m) = operator? t) (ts : List Token) :
    joined operand operator? (ts.map (·.relocate m)) =
      (joined operand operator? ts).relocate m := by
  rw [joined, joined, hoperand]
  cases operand ts with
  | value holds rest =>
    simp only [Verdict.relocate, List.length_map]
    exact chain_relocate hoperand hoperator _ _ rest
  | invalid offender => rfl

variable {symbols : List String} {inner : List Token → Verdict}

theorem primary_relocate (symbols : List String)
    (hinner : ∀ ts, inner (ts.map (·.relocate m)) = (inner ts).relocate m)
    (ts : List Token) :
    primary symbols inner (ts.map (·.relocate m)) = (primary symbols inner ts).relocate m := by
  cases ts with
  | nil => rfl
  | cons t rest =>
    simp only [List.map_cons, primary, Token.isWord_relocate, Token.isIdentifier_relocate,
      Token.name_relocate, Token.is_relocate, hinner]
    split
    · rfl
    · split
      · rfl
      · split
        · rfl
        · split
          · cases inner rest with
            | invalid offender => rfl
            | value holds rest =>
              cases rest with
              | nil => rfl
              | cons close rest =>
                simp only [Verdict.relocate, List.map_cons, Token.is_relocate]
                split <;> rfl
          · rfl

theorem unary_relocate (hinner : ∀ ts, inner (ts.map (·.relocate m)) = (inner ts).relocate m)
    (ts : List Token) :
    unary symbols inner (ts.map (·.relocate m)) = (unary symbols inner ts).relocate m := by
  induction ts with
  | nil => rfl
  | cons t rest ih =>
    have hprimary := primary_relocate symbols hinner (t :: rest)
    rw [List.map_cons] at hprimary
    simp only [List.map_cons, unary, Token.is_relocate, ih, hprimary]
    split
    · cases unary symbols inner rest <;> rfl
    · rfl

theorem readWithin_relocate (depth : Nat) (ts : List Token) :
    readWithin symbols depth (ts.map (·.relocate m)) =
      (readWithin symbols depth ts).relocate m := by
  induction depth generalizing ts with
  | zero => simp [readWithin, Verdict.relocate]
  | succ depth ih =>
    exact joined_relocate (joined_relocate (joined_relocate (unary_relocate ih) fun t ↦ by
      simp [comparison?]) fun t ↦ by simp [conjunction?]) (fun t ↦ by simp [disjunction?]) ts

theorem read_relocate (ts : List Token) :
    read symbols (ts.map (·.relocate m)) = (read symbols ts).relocate m := by
  rw [read, read, List.length_map]
  exact readWithin_relocate _ ts

end Condition

/-! ### Effects -/

/-- The relocated open block. -/
def Block.relocate (b : Block) : Block := { b with span := b.span.relocate m }

/-- The relocated state of directive processing. -/
def DirectiveState.relocate (s : DirectiveState) : DirectiveState :=
  { s with blocks := s.blocks.map (·.relocate m) }

/-- The relocated remark. -/
def Remark.relocate : Remark → Remark
  | .directive name place => .directive (m.text name) (m.place place)
  | .condition holds => .condition holds

/-- The relocated effect of a directive line. -/
def Effect.relocate (e : Effect) : Effect :=
  ⟨e.state.relocate m, e.findings.map (·.relocate m), e.remarks.map (·.relocate m)⟩

/-- Whether the line is free text behind its hash. -/
def DirectiveLine.isFree (l : DirectiveLine) : Bool :=
  l.body.head?.any (·.kind == .directiveMessage)

/-- The relocated directive line. -/
def DirectiveLine.relocate (l : DirectiveLine) : DirectiveLine :=
  ⟨l.hash.relocate m, l.body.map (·.relocate m), l.stop.relocate m⟩

@[simp] theorem Blocks.active_relocate (blocks : Blocks) :
    Blocks.active (blocks.map (·.relocate m)) = blocks.active := by
  cases blocks <;> rfl

@[simp] theorem Blocks.anyOpen_relocate (blocks : Blocks) (kind : BlockKind) :
    Blocks.anyOpen (blocks.map (·.relocate m)) kind = blocks.anyOpen kind := by
  simp only [Blocks.anyOpen, List.any_map]
  rfl

@[simp] theorem DirectiveState.active_relocate (s : DirectiveState) :
    (s.relocate m).active = s.active :=
  Blocks.active_relocate m s.blocks

theorem leftover_relocate (ts : List Token) :
    leftover (ts.map (·.relocate m)) = (leftover ts).map (·.relocate m) := by
  cases ts <;> rfl

/-- The value of a condition and what its reading finds, relocated. -/
theorem evaluate_relocate (symbols : List String) (args : List Token) (stop : Token) :
    evaluate symbols (args.map (·.relocate m)) (stop.relocate m) =
      ((evaluate symbols args stop).1, (evaluate symbols args stop).2.1.map (·.relocate m),
        (evaluate symbols args stop).2.2.map (·.relocate m)) := by
  rw [evaluate, evaluate, Condition.read_relocate]
  cases Condition.read symbols args with
  | value holds rest =>
    simp only [Verdict.relocate, leftover_relocate]
    rfl
  | invalid offender => cases offender <;> rfl

/-! ### Directives that are only checked -/

/-- Digits make a word. -/
theorem oneLine_of_isDigit {word : String} (h : word.toList.all Char.isDigit = true) :
    OneLine word := by
  intro c hc
  have hdigit := List.all_eq_true.1 h c hc
  refine Bool.eq_false_iff.2 fun hend ↦ ?_
  simp only [isLineEnd, Bool.or_eq_true, beq_iff_eq] at hend
  rcases hend with (((rfl | rfl) | rfl) | rfl) | rfl <;> contradiction

@[simp] theorem isLineNumber_text (text : String) :
    isLineNumber (m.text text) = isLineNumber text := by
  refine m.answer_text false (fun word hnumber ↦ ?_) text
  have hdigits := Bool.of_not_eq_false hnumber
  simp only [isLineNumber, Bool.and_eq_true] at hdigits
  exact oneLine_of_isDigit hdigits.1.2

theorem lineFindings_relocate (args : List Token) (stop : Token) :
    lineFindings (args.map (·.relocate m)) (stop.relocate m) =
      (lineFindings args stop).map (·.relocate m) := by
  cases args with
  | nil => rfl
  | cons t rest =>
    have hhidden : (t.relocate m).isContextual "hidden" = t.isContextual "hidden" :=
      t.isContextual_relocate m (by decide)
    simp only [List.map_cons, lineFindings, Token.isWord_relocate, hhidden, Token.kind_relocate,
      Token.text_relocate, isLineNumber_text]
    split
    · exact leftover_relocate m rest
    · split
      · cases rest with
        | nil => rfl
        | cons u rest =>
          simp only [List.map_cons, Token.kind_relocate]
          split
          · exact leftover_relocate m rest
          · exact leftover_relocate m (u :: rest)
      · rfl

theorem lineBreakdown?_relocate (args : List Token) :
    lineBreakdown? (args.map (·.relocate m)) = lineBreakdown? args := by
  cases args with
  | nil => rfl
  | cons t rest =>
    let question (text : String) : Option Breakdown := lineBreakdown? [{ t with text }]
    have hwords (word : String) (h : question word ≠ none) : OneLine word := by
      simp only [question, lineBreakdown?, ne_eq, ite_eq_right_iff, not_forall] at h
      exact oneLine_of_isDigit h.1.2.1
    exact m.answer_text none hwords t.text

theorem warningListFindings_relocate (nameNext : Bool) (ts : List Token) :
    warningListFindings nameNext (ts.map (·.relocate m)) =
      (warningListFindings nameNext ts).map (·.relocate m) := by
  induction ts generalizing nameNext with
  | nil => rfl
  | cons t ts ih =>
    simp only [List.map_cons, warningListFindings, Token.isIdentifier_relocate,
      Token.kind_relocate, Token.is_relocate, ih]
    split
    · rfl
    · split <;> rfl

theorem checksumFindings_relocate (args : List Token) (stop : Token) :
    checksumFindings (args.map (·.relocate m)) (stop.relocate m) =
      (checksumFindings args stop).map (·.relocate m) := by
  have hfind : ((args.map (·.relocate m)).take 3).find? (·.kind != .stringLiteral) =
      ((args.take 3).find? (·.kind != .stringLiteral)).map (·.relocate m) := by
    rw [← List.map_take, List.find?_map]
    rfl
  simp only [checksumFindings, hfind]
  cases (args.take 3).find? (·.kind != .stringLiteral) with
  | some t => rfl
  | none =>
    simp only [Option.map_none, List.length_take, List.length_map]
    split
    · rfl
    · rw [← List.map_drop]
      exact leftover_relocate m _

theorem pragmaFindings_relocate (args : List Token) (stop : Token) :
    pragmaFindings (args.map (·.relocate m)) (stop.relocate m) =
      (pragmaFindings args stop).map (·.relocate m) := by
  have hword (t : Token) (word : String) (hword : OneLine word) :
      ((t.relocate m).text == word) = (t.text == word) := m.text_beq hword
  cases args with
  | nil => rfl
  | cons t rest =>
    simp only [List.map_cons, pragmaFindings, hword t "warning" (by decide),
      hword t "checksum" (by decide)]
    split
    · cases rest with
      | nil => rfl
      | cons action ids =>
        simp only [List.map_cons, hword action "disable" (by decide),
          hword action "restore" (by decide)]
        split
        · exact warningListFindings_relocate m true ids
        · rfl
    · split
      · exact checksumFindings_relocate m rest stop
      · rfl

theorem nullableFindings_relocate (name : Token) (args : List Token) (stop : Token) :
    nullableFindings (name.relocate m) (args.map (·.relocate m)) (stop.relocate m) =
      (nullableFindings name args stop).map (·.relocate m) := by
  unfold nullableFindings
  refine congrArg (List.cons _) ?_
  cases args with
  | nil => rfl
  | cons setting rest =>
    simp only [List.map_cons, Token.text_relocate,
      m.contains_text ["enable", "disable", "restore"] (by decide)]
    split
    · cases rest with
      | nil => rfl
      | cons target rest =>
        simp only [List.map_cons, Token.text_relocate,
          m.contains_text ["warnings", "annotations"] (by decide)]
        split
        · exact leftover_relocate m rest
        · rfl
    · rfl

theorem fileFindings_relocate (script seenToken : Bool) (name : Token) (args : List Token)
    (stop : Token) :
    fileFindings script seenToken (name.relocate m) (args.map (·.relocate m)) (stop.relocate m) =
      (fileFindings script seenToken name args stop).map (·.relocate m) := by
  unfold fileFindings
  split
  · rfl
  · split
    · rfl
    · cases args with
      | nil => rfl
      | cons t rest =>
        simp only [List.map_cons, Token.kind_relocate]
        split
        · exact leftover_relocate m rest
        · rfl

/-! ### Directives of blocks and symbols -/

theorem ofText?_text (text : String) :
    DirectiveName.ofText? (m.text text) = DirectiveName.ofText? text := by
  refine m.answer_text none (fun word h ↦ ?_) text
  unfold DirectiveName.ofText? at h
  split at h <;> first | contradiction | decide

namespace DirectiveState

variable (s : DirectiveState)

theorem condition_relocate (evaluated : Bool) (args : List Token) (stop : Token) :
    (s.relocate m).condition evaluated (args.map (·.relocate m)) (stop.relocate m) =
      ((s.condition evaluated args stop).1,
        (s.condition evaluated args stop).2.1.map (·.relocate m),
        (s.condition evaluated args stop).2.2.map (·.relocate m)) := by
  unfold condition
  split
  · exact evaluate_relocate m s.symbols args stop
  · rfl

theorem openIf_relocate (name : Token) (args : List Token) (stop : Token) :
    (s.relocate m).openIf (name.relocate m) (args.map (·.relocate m)) (stop.relocate m) =
      (s.openIf name args stop).relocate m := by
  simp only [openIf, condition_relocate, active_relocate]
  rfl

theorem elseIf_relocate (b : Block) (outer : Blocks) (name : Token) (args : List Token)
    (stop : Token) :
    (s.relocate m).elseIf (b.relocate m) (outer.map (·.relocate m)) (name.relocate m)
        (args.map (·.relocate m)) (stop.relocate m) =
      (s.elseIf b outer name args stop).relocate m := by
  obtain ⟨kind, span, parentActive, active, branchTaken, elseSeen⟩ := b
  cases elseSeen with
  | true => cases parentActive <;> rfl
  | false =>
    simp only [elseIf, Block.relocate, Bool.false_eq_true, if_false, condition_relocate]
    rfl

theorem otherwise_relocate (b : Block) (outer : Blocks) (name : Token) (args : List Token) :
    (s.relocate m).otherwise (b.relocate m) (outer.map (·.relocate m)) (name.relocate m)
        (args.map (·.relocate m)) =
      (s.otherwise b outer name args).relocate m := by
  obtain ⟨kind, span, parentActive, active, branchTaken, elseSeen⟩ := b
  have hleftover := leftover_relocate m args
  cases elseSeen <;> cases parentActive <;>
    simp only [otherwise, Block.relocate, Bool.false_eq_true, if_false, if_true, hleftover] <;> rfl

theorem endIf_relocate (b : Block) (outer : Blocks) (args : List Token) :
    (s.relocate m).endIf (b.relocate m) (outer.map (·.relocate m)) (args.map (·.relocate m)) =
      (s.endIf b outer args).relocate m := by
  obtain ⟨kind, span, parentActive, active, branchTaken, elseSeen⟩ := b
  have hleftover := leftover_relocate m args
  cases parentActive <;>
    simp only [endIf, Block.relocate, Bool.false_eq_true, if_false, if_true, hleftover] <;> rfl

theorem onCondition_relocate (name : Token) {apply apply' : Block → Blocks → Effect}
    (h : ∀ b outer, apply' (b.relocate m) (outer.map (·.relocate m)) =
      (apply b outer).relocate m) :
    (s.relocate m).onCondition (name.relocate m) apply' =
      (s.onCondition name apply).relocate m := by
  obtain ⟨symbols, blocks, seenToken⟩ := s
  cases blocks with
  | nil => rfl
  | cons b outer =>
    change (if b.kind = .condition then _ else _) = Effect.relocate m (if b.kind = .condition then _
      else _)
    split
    · exact h b outer
    · rfl

theorem endRegion_relocate (name : Token) :
    (s.relocate m).endRegion (name.relocate m) = (s.endRegion name).relocate m := by
  obtain ⟨symbols, blocks, seenToken⟩ := s
  cases blocks with
  | nil => rfl
  | cons b outer =>
    change (if b.kind = .region then _ else _) = Effect.relocate m (if b.kind = .region then _
      else _)
    split <;> rfl

theorem define_relocate (defined : Bool) (name : Token) (args : List Token) (stop : Token) :
    (s.relocate m).define defined (name.relocate m) (args.map (·.relocate m)) (stop.relocate m) =
      (s.define defined name args stop).relocate m := by
  cases args with
  | nil => rfl
  | cons t rest =>
    simp only [List.map_cons, define, Token.isIdentifier_relocate, Token.name_relocate]
    change (if _ then _ else if s.seenToken = true then _ else _) = _
    split
    · rfl
    · split
      · rfl
      · simp only [leftover_relocate]
        rfl

theorem ifActive_relocate {effect effect' : Effect} (h : effect' = effect.relocate m) :
    (s.relocate m).ifActive effect' = (s.ifActive effect).relocate m := by
  subst h
  unfold ifActive
  rw [active_relocate]
  split <;> rfl

/-- A relocated directive has the same effect, relocated. -/
theorem apply_relocate (script : Bool) (directive : Option DirectiveName) (name : Token)
    (args : List Token) (stop : Token) :
    (s.relocate m).apply script directive (name.relocate m) (args.map (·.relocate m))
        (stop.relocate m) =
      (s.apply script directive name args stop).relocate m := by
  have hmessage : ((args.map (·.relocate m)).head?.map (·.text)).getD "" =
      m.text ((args.head?.map (·.text)).getD "") := by
    cases args with
    | nil => exact (m.text_eq_self (show OneLine "" by decide)).symm
    | cons => rfl
  have hchecked {findings findings' : List Finding}
      (h : findings' = findings.map (·.relocate m)) :
      (s.relocate m).ifActive ((s.relocate m).unchanged findings') =
        (s.ifActive (s.unchanged findings)).relocate m :=
    s.ifActive_relocate m (by rw [h]; rfl)
  unfold apply
  cases directive with
  | none => exact hchecked rfl
  | some directive =>
    cases directive with
    | ifName => exact s.openIf_relocate m name args stop
    | elifName =>
      exact s.onCondition_relocate m name fun b outer ↦ s.elseIf_relocate m b outer name args stop
    | elseName =>
      exact s.onCondition_relocate m name fun b outer ↦ s.otherwise_relocate m b outer name args
    | endifName => exact s.onCondition_relocate m name fun b outer ↦ s.endIf_relocate m b outer args
    | region => simp only [active_relocate]; rfl
    | endregion => exact s.endRegion_relocate m name
    | define => exact s.ifActive_relocate m (s.define_relocate m true name args stop)
    | undef => exact s.ifActive_relocate m (s.define_relocate m false name args stop)
    | error => exact hchecked (by rw [hmessage]; rfl)
    | warning => exact hchecked (by rw [hmessage]; rfl)
    | line => exact hchecked (lineFindings_relocate m args stop)
    | pragma => exact hchecked (pragmaFindings_relocate m args stop)
    | nullable => exact hchecked (nullableFindings_relocate m name args stop)
    | reference | load => exact hchecked (fileFindings_relocate m script _ name args stop)

/-- A relocated directive line has the same effect, relocated. Of a line of free text in a script it
has to stay known whether the line is the beginning of the text. -/
theorem process_relocate (script : Bool) (line : DirectiveLine)
    (hstart : script = true → line.isFree = true →
      (m.offset line.hash.span.start.offset = 0 ↔ line.hash.span.start.offset = 0)) :
    (s.relocate m).process script (line.relocate m) = (s.process script line).relocate m := by
  have hnameless : (s.relocate m).ifActive ((s.relocate m).unchanged
      [problemAt .directiveExpected (line.hash.relocate m)]) =
      (s.ifActive (s.unchanged [problemAt .directiveExpected line.hash])).relocate m :=
    s.ifActive_relocate m rfl
  obtain ⟨hash, body, stop⟩ := line
  cases body with
  | nil => exact hnameless
  | cons name args =>
    simp only [DirectiveLine.relocate, List.map_cons, process, Token.kind_relocate,
      Token.isIdentifier_relocate, Token.isKeyword_relocate, Token.text_relocate, ofText?_text,
      apply_relocate] at hnameless ⊢
    rw [hnameless]
    split
    · next hmessage =>
      have hfirst : (script && (hash.relocate m).span.start.offset == 0) =
          (script && hash.span.start.offset == 0) := by
        cases script with
        | false => rfl
        | true =>
          rw [Bool.true_and, Bool.true_and, Bool.eq_iff_iff, beq_iff_eq, beq_iff_eq]
          refine Iff.trans ?_ (hstart rfl (by simp [DirectiveLine.isFree, hmessage]))
          rw [← m.offset_place]
          rfl
      rw [hfirst]
      split <;> rfl
    · split <;> rfl

theorem breakdown?_relocate (line : DirectiveLine) :
    (s.relocate m).breakdown? (line.relocate m) = s.breakdown? line := by
  obtain ⟨hash, body, stop⟩ := line
  cases body with
  | nil => rfl
  | cons name args =>
    simp only [DirectiveLine.relocate, List.map_cons, breakdown?, active_relocate,
      Token.isIdentifier_relocate, Token.isKeyword_relocate, Token.text_relocate, ofText?_text,
      lineBreakdown?_relocate]

end DirectiveState

end CSharpCheck
