import CSharpCheck.Proofs.Directives.ConditionGrammar
import CSharpCheck.Proofs.Directives.Readers

/-!
# Well-formed conditions

Conditions as trees, their words and their values. Reading the tokens of the words gives the value.
-/

namespace CSharpCheck

/-- An ordinary identifier. -/
structure Identifier where
  chars : List Char
  isName : IsName chars
  notReserved : Keyword.ofText? (String.ofList chars) = none

namespace Identifier

/-- The name of the symbol. -/
def name (x : Identifier) : String := String.ofList x.chars

/-- The word that the identifier is. -/
def word (x : Identifier) : Word true := ⟨x.chars, [namePiece false x.chars], x.isName.isWord true⟩

end Identifier

/-- The word that is a reserved word. -/
def Word.reserved (k : Keyword) : Word true := ⟨k.text.toList, _, k.isWord_text true⟩

/-- The word that is a symbol. -/
def Word.symbol (s : Symbol) : Word true := ⟨s.text.toList, _, s.isWord_text true⟩

namespace Condition

/-- A well-formed condition of a level. -/
inductive Tree : Level → Type where
  | constant (holds : Bool) : Tree .primary
  | symbol (x : Identifier) : Tree .primary
  | parentheses (c : Tree .disjunction) : Tree .primary
  | primary (c : Tree .primary) : Tree .negation
  | not (c : Tree .negation) : Tree .negation
  | negation (c : Tree .negation) : Tree .comparison
  | equal (l : Tree .comparison) (r : Tree .negation) : Tree .comparison
  | unequal (l : Tree .comparison) (r : Tree .negation) : Tree .comparison
  | comparison (c : Tree .comparison) : Tree .conjunction
  | and (l : Tree .conjunction) (r : Tree .comparison) : Tree .conjunction
  | conjunction (c : Tree .conjunction) : Tree .disjunction
  | or (l : Tree .disjunction) (r : Tree .conjunction) : Tree .disjunction

namespace Tree

/-- The value of a condition where the given symbols are defined. -/
def value (defined : String → Bool) {level : Level} : Tree level → Bool
  | constant holds => holds
  | symbol x => defined x.name
  | parentheses c | primary c | negation c | comparison c | conjunction c => c.value defined
  | not c => !c.value defined
  | equal l r => l.value defined == r.value defined
  | unequal l r => l.value defined != r.value defined
  | and l r => l.value defined && r.value defined
  | or l r => l.value defined || r.value defined

/-- The words of a condition. -/
def words {level : Level} : Tree level → List (Word true)
  | constant holds => [.reserved (if holds then .trueWord else .falseWord)]
  | symbol x => [x.word]
  | parentheses c => .symbol .openParen :: (c.words ++ [.symbol .closeParen])
  | primary c | negation c | comparison c | conjunction c => c.words
  | not c => .symbol .bang :: c.words
  | equal l r => l.words ++ .symbol .equalsEquals :: r.words
  | unequal l r => l.words ++ .symbol .bangEquals :: r.words
  | and l r => l.words ++ .symbol .ampersandAmpersand :: r.words
  | or l r => l.words ++ .symbol .barBar :: r.words

end Tree

/-! ### Tokens of the words -/

/-- What of a token the reading of a condition looks at. -/
def key (t : Token) : Kind × Option String := (t.kind, t.name)

/-- The same of the tokens of a word. -/
def keys {b : Bool} (w : Word b) : List (Kind × Option String) := w.pieces.map fun p ↦ (p.kind, p.name)

theorem map_key_argumentTokens (p : Position) (ws : List (Word true)) :
    (Word.argumentTokens p ws).map key = ws.flatMap keys := by
  induction ws generalizing p with
  | nil => rfl
  | cons w ws ih =>
    have hword (q : Position) : (wordTokens q false w.chars w.pieces).map key = keys w := by
      unfold wordTokens keys Cursor.tokens
      split
      · simp [*]
      · next p ps heq =>
        rw [heq, List.map_cons, List.map_map]
        rfl
    rw [Word.argumentTokens, List.map_append, hword, ih, List.flatMap_cons]

/-! ### Reading -/

section

variable {symbols : List String} {t : Token}

theorem kind_of_key {k : Kind} {name : Option String} (h : key t = (k, name)) : t.kind = k :=
  congrArg Prod.fst h

theorem exists_split {ts : List Token} {k : Kind × Option String}
    {ks ls : List (Kind × Option String)} (h : ts.map key = ks ++ k :: ls) :
    ∃ us t vs, ts = us ++ t :: vs ∧ us.map key = ks ∧ key t = k ∧ vs.map key = ls := by
  obtain ⟨us, rest, rfl, hus, hrest⟩ := List.map_eq_append_iff.1 h
  obtain ⟨t, vs, rfl, ht, hvs⟩ := List.map_eq_cons_iff.1 hrest
  exact ⟨us, t, vs, rfl, hus, ht, hvs⟩

/-- The key of a symbol. -/
abbrev symbolKey (s : Symbol) : Kind × Option String := (.symbol s, none)

theorem is_of_key {s : Symbol} (h : key t = symbolKey s) : t.is s = true := by
  rw [Token.is, kind_of_key h, beq_self_eq_true]

/-- The words of two operands with an operator between them. -/
theorem exists_operands {ts : List Token} {s : Symbol} {l r : List (Word true)}
    (h : ts.map key = (l ++ .symbol s :: r).flatMap keys) :
    ∃ us t vs, ts = us ++ t :: vs ∧ us.map key = l.flatMap keys ∧ t.is s = true ∧
      vs.map key = r.flatMap keys := by
  have hkeys : (l ++ .symbol s :: r).flatMap keys =
      l.flatMap keys ++ symbolKey s :: r.flatMap keys := by
    simp [keys, Word.symbol, Piece.bare]
  obtain ⟨us, t, vs, hts, hus, ht, hvs⟩ := exists_split (hkeys ▸ h)
  exact ⟨us, t, vs, hts, hus, is_of_key ht, hvs⟩

/-- The words of a condition have its value by the grammar of conditions. -/
theorem Tree.denotes {level : Level} (c : Tree level) (defined : String → Bool) {ts : List Token}
    (hts : ts.map key = c.words.flatMap keys) : Denotes defined level ts (c.value defined) := by
  induction c generalizing ts with
  | constant holds =>
    obtain ⟨t, us, rfl, ht, hus⟩ := List.map_eq_cons_iff.1 hts
    obtain rfl := List.map_eq_nil_iff.1 hus
    have hkind := kind_of_key ht
    cases holds with
    | true => exact .trueWord (by simp [Token.isWord, hkind])
    | false => exact .falseWord (by simp [Token.isWord, hkind])
  | symbol x =>
    obtain ⟨t, us, rfl, ht, hus⟩ := List.map_eq_cons_iff.1 hts
    obtain rfl := List.map_eq_nil_iff.1 hus
    have hkind : t.kind = .identifier := by
      rw [kind_of_key ht]
      simp [namePiece, nameKind, x.notReserved]
    have hname : t.name = some x.name := congrArg Prod.snd ht
    have hvalue : (Tree.symbol x).value defined = defined (t.name.getD "") := by
      rw [hname]
      rfl
    rw [hvalue]
    exact .symbol (by simp [Token.isIdentifier, hkind])
  | parentheses c ih =>
    obtain ⟨us, o, vs, rfl, hus, ho, hvs⟩ := exists_operands (l := []) hts
    obtain rfl := List.map_eq_nil_iff.1 hus
    obtain ⟨us, t, ws, rfl, hus, ht, hws⟩ := exists_operands hvs
    obtain rfl := List.map_eq_nil_iff.1 hws
    exact .parentheses ho (ih hus) ht
  | primary c ih => exact .primary (ih hts)
  | not c ih =>
    obtain ⟨us, o, vs, rfl, hus, ho, hvs⟩ := exists_operands (l := []) hts
    obtain rfl := List.map_eq_nil_iff.1 hus
    exact .not ho (ih hvs)
  | negation c ih => exact .negation (ih hts)
  | comparison c ih => exact .comparison (ih hts)
  | conjunction c ih => exact .conjunction (ih hts)
  | equal l r ihl ihr =>
    obtain ⟨us, o, vs, rfl, hus, ho, hvs⟩ := exists_operands hts
    exact .equal (ihl hus) ho (ihr hvs)
  | unequal l r ihl ihr =>
    obtain ⟨us, o, vs, rfl, hus, ho, hvs⟩ := exists_operands hts
    exact .unequal (ihl hus) ho (ihr hvs)
  | and l r ihl ihr =>
    obtain ⟨us, o, vs, rfl, hus, ho, hvs⟩ := exists_operands hts
    exact .and (ihl hus) ho (ihr hvs)
  | or l r ihl ihr =>
    obtain ⟨us, o, vs, rfl, hus, ho, hvs⟩ := exists_operands hts
    exact .or (ihl hus) ho (ihr hvs)

/-- A condition that makes up the rest of a line is read to its value. -/
theorem Tree.read_eq (c : Tree .disjunction) (symbols : List String) (p : Position) :
    read symbols (Word.argumentTokens p c.words) = .value (c.value symbols.contains) [] := by
  have hdenotes := c.denotes symbols.contains (map_key_argumentTokens p c.words)
  have hread := hdenotes.reads.reader_eq (Nat.le_refl _) (closes_nil _)
  rwa [List.append_nil] at hread

end

end Condition

end CSharpCheck
