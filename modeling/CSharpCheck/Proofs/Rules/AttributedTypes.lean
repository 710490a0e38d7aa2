import CSharpCheck.Proofs.Nesting.Depths
import CSharpCheck.Proofs.Reading.Places
import CSharpCheck.Proofs.Rules.Composition

/-!
# Type declarations with attributes

That a type is declared next is found out by looking ahead over its attribute sections and its
modifiers. The sections are not read for that: the search for the end of one gives up at a brace
or semicolon. Where there are none of these, it comes to where the sections have been read.
-/

namespace CSharpCheck

/-- What stands between the brackets of an attribute section has no braces and no semicolons, and
the square brackets in it are closed. -/
structure PlainContent (ts : List Token) : Prop where
  depth : depthBehind? .openBracket .closeBracket 0 ts = some 0
  plain : ∀ t ∈ ts, t.isOneOf [.semicolon, .openBrace, .closeBrace] = false

/-- Attribute sections with plain content, one after the other. -/
inductive PlainSections : List Token → Prop where
  | nil : PlainSections []
  | cons {opening closing : Token} {content rest : List Token} :
      opening.is .openBracket = true → PlainContent content → closing.is .closeBracket = true →
      PlainSections rest → PlainSections (opening :: (content ++ closing :: rest))

/-- An attribute without arguments. -/
theorem PlainSections.of_kinds {ts : List Token}
    (h : ts.map (·.kind) = [.symbol .openBracket, .identifier, .symbol .closeBracket]) :
    PlainSections ts := by
  obtain ⟨opening, ts, rfl, hopening, h⟩ := List.map_eq_cons_iff.1 h
  obtain ⟨name, ts, rfl, hname, h⟩ := List.map_eq_cons_iff.1 h
  obtain ⟨closing, ts, rfl, hclosing, h⟩ := List.map_eq_cons_iff.1 h
  obtain rfl := List.map_eq_nil_iff.1 h
  show PlainSections (opening :: ([name] ++ closing :: []))
  refine .cons ?_ ⟨?_, ?_⟩ ?_ .nil
  · rw [Token.is, hopening]
    rfl
  · simp [depthBehind?, Token.is, hname]
  · rw [List.forall_mem_singleton, Token.isOneOf, hname]
  · rw [Token.is, hclosing]
    rfl

namespace Ahead

/-- The search for a closing bracket passes over what closes its own brackets. -/
theorem closeFrom_append {opening closing : Symbol} {depth n : Nat} {content : List Token}
    (h : depthBehind? opening closing depth content = some n)
    (hplain : ∀ t ∈ content, t.isOneOf [.semicolon, .openBrace, .closeBrace] = false)
    (rest : Ahead) : closeFrom opening closing (depth + 1) (content ++ rest) =
      (closeFrom opening closing (n + 1) rest).map (· + content.length) := by
  induction content generalizing depth with
  | nil =>
    cases h
    simp
  | cons t ts ih =>
    obtain ⟨ht, hts⟩ := List.forall_mem_cons.1 hplain
    have hnext (depth : Nat) (h : depthBehind? opening closing depth ts = some n) :
        (closeFrom opening closing (depth + 1) (ts ++ rest)).map (· + 1) =
          (closeFrom opening closing (n + 1) rest).map (· + (t :: ts).length) := by
      rw [ih h hts, Option.map_map]
      rfl
    rw [depthBehind?] at h
    rw [List.cons_append, closeFrom]
    split
    · next hopen =>
      rw [if_pos hopen] at h
      exact hnext (depth + 1) h
    · next hopen =>
      rw [if_neg hopen] at h
      split
      · next hclose =>
        rw [if_pos hclose] at h
        cases depth with
        | zero => contradiction
        | succ depth =>
          rw [if_neg (by omega)]
          exact hnext depth h
      · next hclose =>
        rw [if_neg hclose] at h
        rw [if_neg (by rw [ht]; exact Bool.false_ne_true)]
        exact hnext depth h

/-- Plain sections are looked over to their end. -/
theorem attributeSections_append {sections : List Token} (h : PlainSections sections)
    {rest : Ahead} (hrest : rest.is .openBracket = false) :
    attributeSections (sections ++ rest) = some sections.length := by
  induction h with
  | nil => rw [List.nil_append, attributeSections, hrest, if_neg Bool.false_ne_true]; rfl
  | @cons opening closing content tail hopening hcontent hclosing _ ih =>
    have hclosingFirst : closing.is .openBracket = false := by
      rw [Token.is, eq_of_beq hclosing]
      rfl
    have hclose : closeFrom .openBracket .closeBracket 0
        (opening :: (content ++ closing :: tail) ++ rest) = some (content.length + 1) := by
      rw [List.cons_append, closeFrom, if_pos hopening, List.append_assoc,
        closeFrom_append hcontent.depth hcontent.plain, List.cons_append, closeFrom,
        hclosingFirst, if_neg Bool.false_ne_true, if_pos hclosing]
      simp
    have hfirst : is (opening :: (content ++ closing :: tail) ++ rest) .openBracket = true :=
      hopening
    have hdrop : (content ++ closing :: tail ++ rest).drop (content.length + 1) = tail ++ rest := by
      rw [List.append_assoc, ← List.drop_drop, List.drop_left]
      rfl
    rw [attributeSections, if_pos hfirst, matchingClose, hclose]
    simp only [List.cons_append]
    rw [hdrop, ih, Option.map_some, List.length_cons, List.length_append, List.length_cons]
    refine congrArg some ?_
    omega

end Ahead

namespace Rule

variable {stream : TokenStream} {room : Nat} {around : Surroundings} {p : Progress}
  {enter : Surroundings → (q : Nonterminal) → Progress → q.Result × Progress}

/-- Reads what comes before the keyword of a type declaration. -/
def memberHead : Rule (List Placed) := do
  let _ ← memberAttributes
  modifierList

/-- Behind its attributes and modifiers, a keyword decides that a type declaration is read. -/
theorem runWith_memberRule
    (h : (memberHead.runWith enter around p).2.ahead.isTypeKeyword = true) :
    memberRule.runWith enter around p =
      (call (.typeDeclaration (memberHead.runWith enter around p).1) Rule.pure).runWith enter around
        (memberHead.runWith enter around p).2 := by
  have hhead : memberHead.runWith enter around p =
      modifierList.runWith enter around (memberAttributes.runWith enter around p).2 := by
    rw [memberHead, runWith_bind]
  rw [hhead] at h ⊢
  simp only [memberRule, here, runWith_bind, runWith, h, if_true]

/-- So it is one level of nesting further in. -/
theorem enter_member (room : Nat) (habandoned : p.abandonedAt = none)
    (h : (memberHead.runWith (grammarRules.enter room) around p).2.ahead.isTypeKeyword = true) :
    grammarRules.enter (room + 1) around .member p =
      grammarRules.enter room around
        (.typeDeclaration (memberHead.runWith (grammarRules.enter room) around p).1)
        (memberHead.runWith (grammarRules.enter room) around p).2 := by
  rw [Rules.enter, habandoned, Option.isSome_none, if_neg Bool.false_ne_true]
  exact runWith_memberRule h

/-- The attribute sections of a member are read up to the first token that begins no section. -/
theorem exists_memberAttributes (room : Nat) (hp : p.PlacedIn around.stream) :
    ∃ n ≤ p.ahead.length,
      (memberAttributes.runWith (grammarRules.enter room) around p).2.index = p.index + n ∧
      (memberAttributes.runWith (grammarRules.enter room) around p).2.ahead = p.ahead.drop n ∧
      Ahead.is (p.ahead.drop n) .openBracket = false := by
  have hensures : memberAttributes.Ensures (fun _ t ↦ t.ahead.is .openBracket = false)
      ⟨p.index, p.ahead, none, none⟩ := by
    refine ensures_loop (I := fun t ↦ t.Holds [])
      (J := fun _ t ↦ t.ahead.is .openBracket = false) nofun (fun targets t ht ↦ ?_)
      (fun targets t ↦ ?_) fun _ _ h ↦ h
    · refine ensures_ask ?_
      split
      · next hopens =>
        refine ensures_bind.2 ((keepsAt_attributeSection hopens [] ht).mono fun target u hu ↦ ?_)
        cases target with
        | none => exact hu
        | some target => exact hu
      · next hopens =>
        rw [Bool.not_eq_true] at hopens
        exact hopens
    · exact .ask (.ite (fun hopens ↦ (movesAt_attributeSection hopens).bind_left _)
        fun _ ↦ movesAt_pure (by simp))
  obtain ⟨t, hindex, hahead, hprecedes, hend⟩ := exists_of_ensures room hp hensures.later
  obtain ⟨n, hn, hmoved, hdrop⟩ := hprecedes.moved
  rw [hindex, hahead]
  exact ⟨n, hn, hmoved, hdrop, hdrop ▸ hend⟩

/-- Modifiers are read as they are counted. -/
theorem ahead_modifierList : (modifierList.runWith enter around p).2.ahead =
    p.ahead.drop p.ahead.modifiers := by
  have hrequire (modifiers : List Placed) (p : Progress) :
      ((requireModifiers modifiers).runWith enter around p).2.ahead = p.ahead := by
    induction modifiers generalizing p with
    | nil => rfl
    | cons m ms ih =>
      rw [requireModifiers]
      split
      · exact ih _
      · exact ih p
  rw [modifierList]
  simp only [runWith]
  rw [runWith_bind]
  split
  · simp only [runWith_bind, runWith_pure, hrequire, requireAt, runWith]
    exact Progress.ahead_advance p _
  · simp only [runWith_bind, runWith_pure, hrequire]
    exact Progress.ahead_advance p _

/-- The tokens that are read as the attribute sections of a member. -/
def sectionsAt (around : Surroundings) (room : Nat) (p : Progress) : List Token :=
  p.ahead.take
    ((memberAttributes.runWith (grammarRules.enter room) around p).2.index - p.index)

/-- Behind plain attribute sections, looking ahead comes to the same keyword as reading. -/
theorem isTypeDeclaration_eq (hp : p.PlacedIn around.stream)
    (hsections : PlainSections (sectionsAt around room p)) :
    p.ahead.isTypeDeclaration =
      (memberHead.runWith (grammarRules.enter room) around p).2.ahead.isTypeKeyword := by
  obtain ⟨n, hn, hindex, hahead, hend⟩ := exists_memberAttributes room hp
  have hlook : p.ahead.attributeSections = some n := by
    rw [sectionsAt, hindex, Nat.add_sub_cancel_left] at hsections
    have happend := Ahead.attributeSections_append hsections hend
    rwa [List.take_append_drop, List.length_take, Nat.min_eq_left hn] at happend
  rw [memberHead, runWith_bind, ahead_modifierList, hahead, Ahead.isTypeDeclaration, hlook]

end Rule

end CSharpCheck
