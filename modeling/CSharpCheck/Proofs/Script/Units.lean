import CSharpCheck.Proofs.Script.Runs

/-!
# Whole texts read as scripts

The rules that ask for the kind of the text are those for expressions as statements and for
statements at the top level. They agree as well, and so do the rules for whole texts as long as
the word that begins a namespace does not come up.
-/

namespace CSharpCheck

namespace Rule

variable {stream : TokenStream} {room : Nat}

/-! ### Statements -/

/-- A symbol that is missing is an error. -/
theorem faulty_need {p q : Progress} (hp : p.Agrees q) {s : Symbol} (hs : p.ahead.is s = false)
    {enter : Surroundings → (q : Nonterminal) → Progress → q.Result × Progress}
    {around : Surroundings} : ((need s).runWith enter around p).2.Faulty := by
  have hrun : (need s).runWith enter around p =
      ((), p.report around.stream .missing (.expected s)) := by
    simp [need, expect, expectIf, acceptIf, ask, errorMissing, runWith_bind, runWith, hs]
  rw [hrun]
  exact hp.faulty_report _ _ _

/-- Only a script may end without a semicolon, and regular code that does so is faulty. -/
theorem agrees_needUnlessEmpty (topLevel : Bool) (hcalls : CallsAgree stream room) :
    Agrees stream room (· = ·)
      (do unless topLevel && false && (← ask (·.isEmpty)) do need .semicolon)
      (do unless topLevel && true && (← ask (·.isEmpty)) do need .semicolon) := by
  intro kinds p q hp
  by_cases hend : topLevel = true ∧ p.ahead = []
  · have hnot : p.ahead.is .semicolon = false := by
      rw [hend.2]
      rfl
    intro regular script hclean
    refine absurd ?_ hclean
    simp only [regular, Bool.and_false, Bool.false_and, runWith_bind]
    exact faulty_need hp hnot
  · have hneed := Agrees.of_without hcalls (without_need .semicolon)
    simpa [ask, runWith_bind, runWith, hp.ahead, hend] using @hneed kinds p q hp

theorem agrees_expressionStatement (topLevel : Bool) (hcalls : CallsAgree stream room) :
    Agrees stream room (· = ·) (expressionStatement topLevel) (expressionStatement topLevel) := by
  refine .bind (.of_without hcalls without_expression) fun _ _ _ ↦ ?_
  refine .bind (.of_without hcalls (without_accept .semicolon)) fun accepted _ h ↦ ?_
  obtain rfl := h
  exact .ite (fun _ ↦ .pure rfl) fun _ ↦ .script (agrees_needUnlessEmpty topLevel hcalls)

theorem agrees_statementRule (topLevel : Bool) (hcalls : CallsAgree stream room) :
    Agrees stream room (· = ·) (statementRule topLevel) (statementRule topLevel) := by
  refine .look fun v _ ↦ .ite (fun _ ↦ .of_without hcalls (by simp)) fun _ ↦ ?_
  refine .ite (fun _ ↦ .of_without hcalls (by simp)) fun _ ↦ ?_
  cases hword : wordStatementAhead v.ahead with
  | some rule => exact .of_without hcalls (without_wordStatementAhead hword)
  | none =>
    refine .ite (fun _ ↦ .of_without hcalls (by simp)) fun _ ↦ ?_
    refine .ite (fun _ ↦ .of_without hcalls (by simp)) fun _ ↦ ?_
    refine .ite (fun _ ↦ .of_without hcalls (by simp)) fun _ ↦ ?_
    refine .ite (fun _ ↦ .of_without hcalls (by simp)) fun _ ↦ ?_
    refine .ite (fun _ ↦ .of_without hcalls (by simp)) fun _ ↦ ?_
    cases v.ahead.localKind with
    | some kind => cases kind <;> exact .of_without hcalls (by simp)
    | none => exact agrees_expressionStatement topLevel hcalls

theorem agrees_grammarRules (hcalls : CallsAgree stream room) {q : Nonterminal}
    (hq : q ≠ .namespaceDeclaration) :
    Agrees stream room (· = ·) (grammarRules q) (grammarRules q) := by
  cases q with
  | namespaceDeclaration => contradiction
  | statement topLevel => exact agrees_statementRule topLevel hcalls
  | _ => exact .of_without hcalls (by simp [grammarRules])

theorem callsAgree (stream : TokenStream) (room : Nat) : CallsAgree stream room := by
  induction room with
  | zero =>
    intro q hq kinds p p' hp regular script hclean
    refine absurd ?_ hclean
    simp only [regular, runWith, Rules.enter, hp.abandonedAt.1, Option.isSome_none,
      Bool.false_eq_true, if_false]
    exact p.faulty_abandon stream
  | succ room ih =>
    intro q hq kinds p p' hp
    simp only [runWith, Rules.enter, hp.abandonedAt.1, hp.abandonedAt.2, Option.isSome_none,
      Bool.false_eq_true, if_false]
    exact agrees_grammarRules ih hq hp

/-! ### Elements -/

/-- What decides how the next element is read in a script. -/
def UnitState.Alike (s t : UnitState) : Prop := t.elementSeen = s.elementSeen

theorem agrees_topLevelStatement (s t : UnitState) :
    Agrees stream room UnitState.Alike (topLevelStatement s) (topLevelStatement t) := by
  have hstatement (regular script : UnitState) (h : regular.Alike script) :
      Agrees stream room UnitState.Alike
        (call (.statement true) pure >>= fun _ ↦ Pure.pure regular)
        (call (.statement true) pure >>= fun _ ↦ Pure.pure script) :=
    .bind (callsAgree stream room (.statement true) nofun) fun _ _ _ ↦ .pure h
  refine .script ?_
  simp only [Bool.not_true, Bool.false_and, Bool.false_eq_true, if_false]
  split
  · refine .requireHere_left ?_ _
    split
    · exact .errorHere_left _
    · exact hstatement _ _ rfl
  · split
    · exact .errorHere_left _
    · exact hstatement _ _ rfl

theorem agrees_unitElement {s t : UnitState} (h : s.Alike t) :
    Agrees stream room UnitState.Alike (unitElement false s) (unitElement false t) := by
  have hplain {r : Rule Unit} (hr : r.without .script = r) {regular script : UnitState}
      (h : regular.Alike script) :
      Agrees stream room UnitState.Alike
        (r >>= fun _ ↦ Pure.pure regular) (r >>= fun _ ↦ Pure.pure script) :=
    .bind (.of_without (callsAgree stream room) hr) fun _ _ _ ↦ .pure h
  refine .look fun v hnamespace ↦ .ite (fun _ ↦ hplain without_aliasDirective h) fun _ ↦ ?_
  refine .ite (fun _ ↦ ?_) fun _ ↦ ?_
  · dsimp only
    rw [UnitState.Alike] at h
    rw [h]
    exact .ite (fun _ ↦ .errorHere_left _) fun _ ↦ hplain without_usingDirective h
  refine .ite (fun _ ↦ ?_) fun _ ↦ ?_
  · exact .bind (.of_without (callsAgree stream room) without_attributeSection) fun _ _ _ ↦ .pure rfl
  refine .ite (fun hword ↦ ?_) fun _ ↦ ?_
  · obtain ⟨t, ht, hword⟩ := (Option.any_eq_true ..).mp hword
    rw [hnamespace t (List.mem_of_mem_head? ht)] at hword
    contradiction
  refine .ite (fun _ ↦ .errorHere_left _) fun _ ↦ ?_
  refine .ite (fun _ ↦ hplain without_member rfl) fun _ ↦ ?_
  exact .ite (fun _ ↦ hplain without_member rfl) fun _ ↦ agrees_topLevelStatement s t

theorem agrees_elementOrRecover {s t : UnitState} (h : s.Alike t) :
    Agrees stream room UnitState.Alike (elementOrRecover false s) (elementOrRecover false t) := by
  have hhere := Agrees.of_without (callsAgree stream room) without_here
  refine .bind hhere fun start _ hstart ↦ .bind (agrees_unitElement h) fun s t hst ↦ ?_
  refine .bind hhere fun stop _ hstop ↦ ?_
  obtain rfl := hstart
  obtain rfl := hstop
  exact .ite (fun _ ↦ .errorHere_left _) fun _ ↦ .pure hst

theorem agrees_unitElements :
    Agrees stream room (· = ·) (unitElements false) (unitElements false) := by
  refine .loop (R := UnitState.Alike) rfl (fun s t hst ↦ ?_) fun _ _ _ ↦ .pure rfl
  refine .bind (.of_without (callsAgree stream room) (without_ask _)) fun stops _ hstops ↦ ?_
  obtain rfl := hstops
  refine .ite (fun _ ↦ .pure (.stop hst)) fun _ ↦ ?_
  exact .bind (agrees_elementOrRecover hst) fun s t hst ↦ .pure (.again hst)

end Rule

/-- What is read without an error as regular code, and declares no namespace, has no findings of
its own as a script. -/
theorem readUnit_script_found {stream : TokenStream}
    (hwords : ∀ t ∈ stream.tokens.toList, t.isWord .namespaceWord = false)
    (hclean : ¬(readUnit stream false).Faulty) :
    (readUnit stream true).found ⊆ (readUnit stream false).found :=
  (Rule.agrees_unitElements (Progress.Agrees.start hwords) hclean).2.found

end CSharpCheck
