import CSharpCheck.Proofs.Directives.Conditions

/-!
# What conditional text denotes

A text of lines of code and directive lines, as a tree of items. Walking through the tree selects
lines of code and defines symbols, by recursion on the tree. Reading the text of the tree, where
blocks are kept on a stack and excluded lines are skipped unread, comes to the same.
-/

namespace CSharpCheck

/-! ### Items -/

/-- A line of code: words with single spaces between them, or any text that does not look like a
directive line, which may stand where it is not selected. -/
inductive CodeLine where
  | words (ws : List (Word false))
  | other (text : List Char) (oneLine : ∀ c ∈ text, isLineEnd c = false) (unhashed : Unhashed text)

namespace CodeLine

/-- The text of the line. -/
def text : CodeLine → List Char
  | words ws => Word.line ws
  | other text _ _ => text

/-- The tokens of the line, if it consists of words. -/
def tokens (p : Position) : CodeLine → List Token
  | words ws => Word.tokens p true ws
  | other _ _ _ => []

/-- Whether the line consists of words. -/
def isPlain : CodeLine → Bool
  | words _ => true
  | other _ _ _ => false

end CodeLine

mutual

/-- A line of code, a directive that defines or undefines a symbol, or a block. -/
inductive Item where
  | code (line : CodeLine)
  | define (defined : Bool) (x : Identifier)
  | conditional (test : Condition.Tree .disjunction) (body : Items) (branches : Branches)
  | region (body : Items)

/-- Items one below the other. -/
inductive Items where
  | nil
  | cons (item : Item) (items : Items)

/-- The branches of a conditional block behind the first one, up to its end. -/
inductive Branches where
  | endIf
  | otherwise (body : Items)
  | elseIf (test : Condition.Tree .disjunction) (body : Items) (branches : Branches)

end

/-! ### Text -/

/-- A directive line: its name, and words behind the name. -/
def directiveText (name : String) (args : List (Word true)) : List Char :=
  '#' :: (name.toList ++ Word.arguments args)

mutual

/-- The lines of an item. -/
def Item.lines : Item → List (List Char)
  | .code line => [line.text]
  | .define defined x => [directiveText (if defined then "define" else "undef") [x.word]]
  | .conditional test body branches =>
    directiveText "if" test.words :: (body.lines ++ branches.lines)
  | .region body => directiveText "region" [] :: (body.lines ++ [directiveText "endregion" []])

/-- The lines of items. -/
def Items.lines : Items → List (List Char)
  | .nil => []
  | .cons item items => item.lines ++ items.lines

/-- The lines of branches. -/
def Branches.lines : Branches → List (List Char)
  | .endIf => [directiveText "endif" []]
  | .otherwise body => directiveText "else" [] :: (body.lines ++ [directiveText "endif" []])
  | .elseIf test body branches =>
    directiveText "elif" test.words :: (body.lines ++ branches.lines)

end

/-- The text of lines, each of which ends with a line feed. -/
def textOfLines (lines : List (List Char)) : List Char := lines.flatMap (· ++ ['\n'])

/-- The beginning of the line below the lines. -/
def Position.down (p : Position) (lines : List (List Char)) : Position :=
  lines.foldl (fun p line ↦ (p.right line.length).below) p

/-! ### Walking through items -/

/-- What a walk through items has come to. -/
structure Walk where
  /-- The beginning of the next line. -/
  place : Position
  /-- Whether a symbol is defined. -/
  defined : String → Bool
  /-- The selected lines of code. -/
  selected : List (Position × CodeLine)
  findings : List Finding

namespace Walk

/-- The beginning of a walk where the given symbols are defined. -/
def start (symbols : List String) : Walk := ⟨.first, symbols.contains, [], []⟩

/-- The tokens of the selected lines. -/
def tokens (w : Walk) : List Token := w.selected.flatMap fun (p, line) ↦ line.tokens p

/-- The walk behind lines that select nothing. -/
def past (w : Walk) (lines : List (List Char)) : Walk :=
  { w with place := w.place.down lines }

/-- A selected line of code. -/
def select (w : Walk) (line : CodeLine) : Walk :=
  { w with selected := w.selected ++ [(w.place, line)] }.past [line.text]

/-- Defines or undefines a symbol, unless a token of code has been selected. -/
def define (w : Walk) (defined : Bool) (x : Identifier) : Walk :=
  let name := if defined then "define" else "undef"
  let w' :=
    if w.tokens = [] then
      { w with defined := fun y ↦ if y = x.name then defined else w.defined y }
    else
      { w with findings := w.findings ++
          [⟨.directive .defineAfterToken, ⟨w.place.right 1, w.place.right (1 + name.length)⟩⟩] }
  w'.past [directiveText name [x.word]]

end Walk

mutual

/-- The walk through an item. -/
def Item.walk : Item → Walk → Walk
  | .code line, w => w.select line
  | .define defined x, w => w.define defined x
  | .conditional test body branches, w =>
    let w' := w.past [directiveText "if" test.words]
    if test.value w.defined then (body.walk w').past branches.lines
    else branches.walk (w'.past body.lines)
  | .region body, w =>
    (body.walk (w.past [directiveText "region" []])).past [directiveText "endregion" []]

/-- The walk through items in order. -/
def Items.walk : Items → Walk → Walk
  | .nil, w => w
  | .cons item items, w => items.walk (item.walk w)

/-- The walk through the branches of a block where none before has been selected: it goes through
the first one whose condition holds. -/
def Branches.walk : Branches → Walk → Walk
  | .endIf, w => w.past [directiveText "endif" []]
  | .otherwise body, w =>
    (body.walk (w.past [directiveText "else" []])).past [directiveText "endif" []]
  | .elseIf test body branches, w =>
    let w' := w.past [directiveText "elif" test.words]
    if test.value w.defined then (body.walk w').past branches.lines
    else branches.walk (w'.past body.lines)

end

/-! ### Directive lines -/

/-- The directive line at a position. -/
def directiveLine (p : Position) (name : String) (args : List (Word true)) : DirectiveLine :=
  ⟨hashToken p, directiveToken (p.right 1) name.toList ::
    Word.argumentTokens (p.right (1 + name.toList.length)) args,
    directiveEndToken (p.right (directiveText name args).length)⟩

/-- The name is the one of the directive. Free text follows some of the names, if anything does. -/
structure Names (name : String) (directive : DirectiveName) (args : List (Word true)) : Prop where
  isName : IsName name.toList
  ofText?_eq : DirectiveName.ofText? name = some directive
  ne_line : directive ≠ .line
  message : messageDirectives.contains name = false ∨ args = []

section

variable {args : List (Word true)}

theorem names_if : Names "if" .ifName args where
  isName := .of_check rfl rfl
  ofText?_eq := by decide
  ne_line := by decide
  message := .inl (by decide)

theorem names_elif : Names "elif" .elifName args where
  isName := .of_check rfl rfl
  ofText?_eq := by decide
  ne_line := by decide
  message := .inl (by decide)

theorem names_else : Names "else" .elseName args where
  isName := .of_check rfl rfl
  ofText?_eq := by decide
  ne_line := by decide
  message := .inl (by decide)

theorem names_endif : Names "endif" .endifName args where
  isName := .of_check rfl rfl
  ofText?_eq := by decide
  ne_line := by decide
  message := .inl (by decide)

theorem names_region : Names "region" .region [] where
  isName := .of_check rfl rfl
  ofText?_eq := by decide
  ne_line := by decide
  message := .inr rfl

theorem names_endregion : Names "endregion" .endregion [] where
  isName := .of_check rfl rfl
  ofText?_eq := by decide
  ne_line := by decide
  message := .inr rfl

theorem names_define : Names "define" .define args where
  isName := .of_check rfl rfl
  ofText?_eq := by decide
  ne_line := by decide
  message := .inl (by decide)

theorem names_undef : Names "undef" .undef args where
  isName := .of_check rfl rfl
  ofText?_eq := by decide
  ne_line := by decide
  message := .inl (by decide)

end

theorem isWordLike_directiveToken (p : Position) (name : List Char) :
    (directiveToken p name).kind ≠ .directiveMessage ∧
      ((directiveToken p name).isIdentifier || (directiveToken p name).isKeyword) = true := by
  simp only [directiveToken, Token.isIdentifier, Token.isKeyword, nameKind]
  split <;> simp

/-- What a directive line does is what its directive does. -/
theorem Names.process_eq {name : String} {directive : DirectiveName} {args : List (Word true)}
    (h : Names name directive args) (script : Bool) (state : DirectiveState) (p : Position)
    {effect : Effect}
    (heffect : state.apply script (some directive) (directiveToken (p.right 1) name.toList)
      (Word.argumentTokens (p.right (1 + name.toList.length)) args)
      (directiveEndToken (p.right (directiveText name args).length)) = effect) :
    ∃ remarks, state.process script (directiveLine p name args) = { effect with remarks } ∧
      state.breakdown? (directiveLine p name args) = none := by
  obtain ⟨hmessage, hword⟩ := isWordLike_directiveToken (p.right 1) name.toList
  have htext : (directiveToken (p.right 1) name.toList).text = name := String.ofList_toList
  have hline : (some directive == some DirectiveName.line) = false := by simpa using h.ne_line
  simp only [DirectiveState.process, DirectiveState.breakdown?, directiveLine, hmessage, if_false,
    hword, if_true, htext, h.ofText?_eq, heffect, hline, Bool.and_false, Bool.false_eq_true]
  exact ⟨_, rfl, trivial⟩

namespace ActiveReader

/-- The reader goes on in what is left of the text, or skips lines there if the text is inactive. -/
def Resumes (r : ActiveReader) (rest : List Char) (p : Position) (state : DirectiveState) : Prop :=
  if state.active then r.At rest p false state else r.Skipping rest p state

/-- A directive line takes the effect of its directive. -/
theorem At.directive (script : Bool) {r : ActiveReader} {name : String} {directive : DirectiveName}
    {args : List (Word true)} {rest : List Char} {p : Position} {state : DirectiveState}
    {effect : Effect} (h : r.At (directiveText name args ++ '\n' :: rest) p false state)
    (hnames : Names name directive args)
    (heffect : state.apply script (some directive) (directiveToken (p.right 1) name.toList)
      (Word.argumentTokens (p.right (1 + name.toList.length)) args)
      (directiveEndToken (p.right (directiveText name args).length)) = effect) :
    ∃ next, Advances script r [] effect.findings next ∧
      next.Resumes rest (p.right (directiveText name args).length).below effect.state := by
  obtain ⟨remarks, hprocess, hbreak⟩ := hnames.process_eq script state p heffect
  have hseparated : Separated (Word.arguments args ++ '\n' :: rest) := by
    cases args with
    | nil => exact ⟨rest, .inr rfl⟩
    | cons w ws => exact ⟨_, .inl rfl⟩
  have hmessage : messageDirectives.contains (String.ofList name.toList) = true →
      ∃ cs, Word.arguments args ++ '\n' :: rest = '\n' :: cs := by
    intro hcontains
    rw [String.ofList_toList] at hcontains
    rcases hnames.message with hnot | rfl
    · rw [hnot] at hcontains
      contradiction
    · exact ⟨rest, rfl⟩
  rw [directiveText, List.cons_append, List.append_assoc] at h
  obtain ⟨opened, hopening, hopened⟩ := h.opening script hnames.isName hseparated hmessage
  obtain ⟨gathered, hwords, hgathered⟩ := hopened.words script args
  have hlength : 1 + name.toList.length + (Word.arguments args).length =
      (directiveText name args).length := by
    simp only [directiveText, List.length_cons, List.length_append]
    omega
  rw [Position.right_right, hlength] at hgathered
  obtain ⟨next, hdone, hnext⟩ := hgathered.done script hprocess hbreak
  exact ⟨next, hopening.trans (hwords.trans hdone), hnext⟩

end ActiveReader

/-! ### Lines that are not selected -/

theorem textOfLines_cons (line : List Char) (lines : List (List Char)) (rest : List Char) :
    textOfLines (line :: lines) ++ rest = line ++ '\n' :: (textOfLines lines ++ rest) := by
  simp [textOfLines]

theorem textOfLines_append (xs ys : List (List Char)) (rest : List Char) :
    textOfLines (xs ++ ys) ++ rest = textOfLines xs ++ (textOfLines ys ++ rest) := by
  simp [textOfLines]

@[simp] theorem Position.down_append (p : Position) (xs ys : List (List Char)) :
    p.down (xs ++ ys) = (p.down xs).down ys := List.foldl_append

@[simp] theorem Position.down_cons (p : Position) (line : List Char) (lines : List (List Char)) :
    p.down (line :: lines) = (p.right line.length).below.down lines := rfl

@[simp] theorem Position.down_nil (p : Position) : p.down [] = p := rfl

theorem Word.isLineEnd_of_mem_line {ws : List (Word false)} {c : Char} (h : c ∈ Word.line ws) :
    isLineEnd c = false := by
  induction ws with
  | nil => simp [Word.line] at h
  | cons w ws ih =>
    have hw := (w.isWord ['\n'] ⟨[], .inr rfl⟩).oneLine c
    cases ws with
    | nil =>
      rw [show Word.line [w] = w.chars by simp [Word.line, List.intercalate]] at h
      exact hw h
    | cons v ws =>
      rw [show Word.line (w :: v :: ws) = w.chars ++ ' ' :: Word.line (v :: ws) by
        simp [Word.line, List.intercalate]] at h
      rcases List.mem_append.1 h with h | h
      · exact hw h
      · rcases List.mem_cons.1 h with rfl | h
        · decide
        · exact ih h

theorem Word.unhashed_line (ws : List (Word false)) : Unhashed (Word.line ws) := by
  cases ws with
  | nil => simp [Unhashed, Word.line]
  | cons w ws =>
    have hspells := w.isWord ['\n'] ⟨[], .inr rfl⟩
    obtain ⟨c, cs, hchars⟩ := List.exists_cons_of_ne_nil hspells.ne_nil
    have hhash := hspells.head_ne_hash
    have hgap := hspells.gap_eq
    have hlineEnd := hspells.oneLine c (by simp [hchars])
    rw [hchars] at hhash hgap
    have hblank : isBlank c = false := by
      rw [Bool.eq_false_iff]
      intro hblank
      have hslash : c ≠ '/' := by
        rintro rfl
        exact absurd hblank (by decide)
      have hitem : gapItem? false (c :: cs ++ ['\n']) = some .blank := by
        simp [gapItem?, hslash, hlineEnd, hblank]
      rw [gap, hitem] at hgap
      simp at hgap
    obtain ⟨ds, hline⟩ : ∃ ds, Word.line (w :: ws) = c :: ds := by
      cases ws with
      | nil => exact ⟨cs, by simp [Word.line, List.intercalate, hchars]⟩
      | cons v ws => exact ⟨_, by simp [Word.line, List.intercalate, hchars]; rfl⟩
    rw [Unhashed, hline]
    simpa [hblank] using hhash

theorem CodeLine.oneLine (line : CodeLine) : ∀ c ∈ line.text, isLineEnd c = false := by
  cases line with
  | words ws => exact fun c hc ↦ Word.isLineEnd_of_mem_line hc
  | other text oneLine unhashed => exact oneLine

theorem CodeLine.unhashed (line : CodeLine) : Unhashed line.text := by
  cases line with
  | words ws => exact Word.unhashed_line ws
  | other text oneLine unhashed => exact unhashed

/-! ### Effects of directives -/

namespace DirectiveState

variable {symbols : List String} {b : Block} {outer : Blocks} {seen : Bool}

theorem evaluate_words (test : Condition.Tree .disjunction) (symbols : List String) (p : Position)
    (stop : Token) : evaluate symbols (Word.argumentTokens p test.words) stop =
      (test.value symbols.contains, [], [.condition (test.value symbols.contains)]) := by
  simp [evaluate, test.read_eq, leftover]

/-- A condition opens a block, which is active if the text around is and the condition holds. -/
theorem apply_if (script : Bool) (s : DirectiveState) (test : Condition.Tree .disjunction)
    (p : Position) (name stop : Token) :
    ∃ remarks, s.apply script (some .ifName) name (Word.argumentTokens p test.words) stop =
      ⟨{ s with
          blocks := .opened name.span s.active (s.active && test.value s.symbols.contains) ::
            s.blocks },
        [], remarks⟩ := by
  simp only [apply, openIf, condition]
  cases hactive : s.active
  · exact ⟨[], by simp⟩
  · exact ⟨_, by rw [if_pos rfl, evaluate_words]; rfl⟩

/-- A further condition counts where the text around the block is active. -/
theorem apply_elif (script : Bool) (hkind : b.kind = .condition) (helse : b.elseSeen = false)
    (test : Condition.Tree .disjunction) (p : Position) (name stop : Token) :
    ∃ holds remarks, (b.parentActive = true → holds = test.value symbols.contains) ∧
      apply script ⟨symbols, b :: outer, seen⟩ (some .elifName) name
          (Word.argumentTokens p test.words) stop =
        ⟨⟨symbols, b.elseIf holds :: outer, seen⟩, [], remarks⟩ := by
  simp only [apply, onCondition, hkind, if_true, elseIf, helse, Bool.false_eq_true, if_false,
    condition]
  cases hparent : b.parentActive
  · exact ⟨false, [], by simp, rfl⟩
  · exact ⟨_, _, fun _ ↦ rfl, by rw [if_pos rfl, evaluate_words]⟩

theorem apply_else (script : Bool) (hkind : b.kind = .condition) (helse : b.elseSeen = false)
    (name stop : Token) :
    apply script ⟨symbols, b :: outer, seen⟩ (some .elseName) name [] stop =
      ⟨⟨symbols, b.otherwise :: outer, seen⟩, [], []⟩ := by
  simp [apply, onCondition, hkind, otherwise, helse, leftover]

theorem apply_endif (script : Bool) (hkind : b.kind = .condition) (name stop : Token) :
    apply script ⟨symbols, b :: outer, seen⟩ (some .endifName) name [] stop =
      ⟨⟨symbols, outer, seen⟩, [], []⟩ := by
  simp [apply, onCondition, hkind, endIf, leftover]

theorem apply_endregion (script : Bool) (hkind : b.kind = .region) (name stop : Token) :
    apply script ⟨symbols, b :: outer, seen⟩ (some .endregion) name [] stop =
      ⟨⟨symbols, outer, seen⟩, [], []⟩ := by
  simp [apply, endRegion, hkind]

theorem apply_define_of_not_active (script : Bool) {s : DirectiveState} (h : s.active = false)
    (name : Token) (args : List Token) (stop : Token) :
    s.apply script (some .define) name args stop = ⟨s, [], []⟩ ∧
      s.apply script (some .undef) name args stop = ⟨s, [], []⟩ := by
  simp [apply, ifActive, h, unchanged]

/-- Before the first token of code, a symbol is defined or undefined. -/
theorem apply_define_of_not_seen (script : Bool) {s : DirectiveState} (hactive : s.active = true)
    (hseen : s.seenToken = false) (x : Identifier) (p : Position) (name stop : Token) :
    s.apply script (some .define) name (Word.argumentTokens p [x.word]) stop =
        ⟨{ s with symbols := x.name :: s.symbols.filter (· != x.name) }, [], []⟩ ∧
      s.apply script (some .undef) name (Word.argumentTokens p [x.word]) stop =
        ⟨{ s with symbols := s.symbols.filter (· != x.name) }, [], []⟩ := by
  obtain ⟨t, hargs, hidentifier, hname⟩ : ∃ t, Word.argumentTokens p [x.word] = [t] ∧
      t.isIdentifier = true ∧ t.name = some x.name := by
    refine ⟨_, rfl, ?_, rfl⟩
    simp [Token.isIdentifier, Cursor.token, namePiece, nameKind, x.notReserved]
  simp [apply, ifActive, hactive, define, hargs, hidentifier, hname, hseen, leftover]

/-- Behind the first token of code, nothing is defined any more. -/
theorem apply_define_of_seen (script : Bool) {s : DirectiveState} (hactive : s.active = true)
    (hseen : s.seenToken = true) (x : Identifier) (p : Position) (name stop : Token) :
    s.apply script (some .define) name (Word.argumentTokens p [x.word]) stop =
        ⟨s, [problemAt .defineAfterToken name], []⟩ ∧
      s.apply script (some .undef) name (Word.argumentTokens p [x.word]) stop =
        ⟨s, [problemAt .defineAfterToken name], []⟩ := by
  obtain ⟨t, hargs, hidentifier⟩ : ∃ t, Word.argumentTokens p [x.word] = [t] ∧
      t.isIdentifier = true := by
    refine ⟨_, rfl, ?_⟩
    simp [Token.isIdentifier, Cursor.token, namePiece, nameKind, x.notReserved]
  simp [apply, ifActive, hactive, define, hargs, hidentifier, hseen, unchanged]

end DirectiveState

namespace ActiveReader

variable {r : ActiveReader} {rest : List Char} {p : Position} {state : DirectiveState}

theorem Resumes.skipping (h : r.Resumes rest p state) (hactive : state.active = false) :
    r.Skipping rest p state := by
  rwa [Resumes, if_neg (by simp [hactive])] at h

theorem Resumes.at (h : r.Resumes rest p state) (hactive : state.active = true) :
    r.At rest p false state := by
  rwa [Resumes, if_pos hactive] at h

theorem Skipping.at_directive {name : String} {args : List (Word true)}
    (h : r.Skipping (directiveText name args ++ rest) p state) :
    r.At (directiveText name args ++ rest) p false state := h.at_hash

theorem Skipping.at_branches {branches : Branches}
    (h : r.Skipping (textOfLines branches.lines ++ rest) p state) :
    r.At (textOfLines branches.lines ++ rest) p false state := by
  cases branches <;> exact h.at_hash

end ActiveReader

/-! ### Items that are not selected -/

section

open ActiveReader DirectiveState

variable (script : Bool)

mutual

/-- Items that are not selected contribute nothing, and the state behind them is the same. -/
theorem Item.excluded (item : Item) {r : ActiveReader} {rest : List Char} {p : Position}
    {state : DirectiveState} (h : r.Skipping (textOfLines item.lines ++ rest) p state)
    (hstate : state.active = false) :
    ∃ next, Advances script r [] [] next ∧ next.Skipping rest (p.down item.lines) state := by
  cases item with
  | code line =>
    rw [Item.lines, textOfLines_cons] at h
    exact ⟨r, .refl r, h.line_excluded line.unhashed line.oneLine⟩
  | define defined x =>
    rw [Item.lines, textOfLines_cons] at h
    cases defined with
    | false =>
      obtain ⟨next, hadvances, hnext⟩ := h.at_directive.directive script names_undef
        (apply_define_of_not_active script hstate _ _ _).2
      exact ⟨next, hadvances, hnext.skipping hstate⟩
    | true =>
      obtain ⟨next, hadvances, hnext⟩ := h.at_directive.directive script names_define
        (apply_define_of_not_active script hstate _ _ _).1
      exact ⟨next, hadvances, hnext.skipping hstate⟩
  | conditional test body branches =>
    rw [Item.lines, textOfLines_cons, textOfLines_append] at h
    obtain ⟨remarks, hopen⟩ := apply_if script state test _ _ _
    simp only [hstate, Bool.false_and] at hopen
    obtain ⟨opened, hif, hopened⟩ := h.at_directive.directive script names_if hopen
    obtain ⟨closing, hbody, hclosing⟩ := body.excluded (hopened.skipping rfl) rfl
    obtain ⟨next, hend, hnext⟩ := branches.closed rfl rfl rfl hclosing.at_branches
    rw [Item.lines, Position.down_cons, Position.down_append]
    exact ⟨next, hif.trans (hbody.trans hend), hnext.skipping hstate⟩
  | region body =>
    rw [Item.lines, textOfLines_cons, textOfLines_append] at h
    obtain ⟨opened, hregion, hopened⟩ := h.at_directive.directive script names_region rfl
    obtain ⟨closing, hbody, hclosing⟩ := body.excluded (hopened.skipping hstate) hstate
    rw [textOfLines_cons] at hclosing
    obtain ⟨next, hend, hnext⟩ := hclosing.at_directive.directive script names_endregion
      (apply_endregion script rfl _ _)
    rw [Item.lines, Position.down_cons, Position.down_append]
    exact ⟨next, hregion.trans (hbody.trans hend), hnext.skipping hstate⟩

theorem Items.excluded (items : Items) {r : ActiveReader} {rest : List Char} {p : Position}
    {state : DirectiveState} (h : r.Skipping (textOfLines items.lines ++ rest) p state)
    (hstate : state.active = false) :
    ∃ next, Advances script r [] [] next ∧ next.Skipping rest (p.down items.lines) state := by
  cases items with
  | nil => exact ⟨r, .refl r, h⟩
  | cons item items =>
    rw [Items.lines, textOfLines_append] at h
    obtain ⟨mid, hfirst, hmid⟩ := item.excluded h hstate
    obtain ⟨next, hrest, hnext⟩ := items.excluded hmid hstate
    rw [Items.lines, Position.down_append]
    exact ⟨next, hfirst.trans hrest, hnext⟩

/-- When a branch has been selected, or none can be, the branches up to the end of the block
contribute nothing. -/
theorem Branches.closed (branches : Branches) {r : ActiveReader} {rest : List Char} {p : Position}
    {symbols : List String} {b : Block} {outer : Blocks} {seen : Bool}
    (hkind : b.kind = .condition) (helse : b.elseSeen = false) (htaken : b.branchTaken = true)
    (h : r.At (textOfLines branches.lines ++ rest) p false ⟨symbols, b :: outer, seen⟩) :
    ∃ next, Advances script r [] [] next ∧
      next.Resumes rest (p.down branches.lines) ⟨symbols, outer, seen⟩ := by
  cases branches with
  | endIf =>
    rw [Branches.lines, textOfLines_cons] at h
    exact h.directive script names_endif (apply_endif script hkind _ _)
  | otherwise body =>
    rw [Branches.lines, textOfLines_cons, textOfLines_append] at h
    obtain ⟨opened, hopening, hopened⟩ :=
      h.directive script names_else (apply_else script hkind helse _ _)
    have hinner : Blocks.active (b.otherwise :: outer) = false := by
      simp [Blocks.active, Block.otherwise, htaken]
    obtain ⟨closing, hbody, hclosing⟩ := body.excluded (hopened.skipping hinner) hinner
    rw [textOfLines_cons] at hclosing
    obtain ⟨next, hend, hnext⟩ := hclosing.at_directive.directive script names_endif
      (apply_endif script (b := b.otherwise) hkind _ _)
    rw [Branches.lines, Position.down_cons, Position.down_append]
    exact ⟨next, hopening.trans (hbody.trans hend), hnext⟩
  | elseIf test body branches =>
    rw [Branches.lines, textOfLines_cons, textOfLines_append] at h
    obtain ⟨holds, remarks, -, helif⟩ := apply_elif script hkind helse test _ _ _
    obtain ⟨opened, hopening, hopened⟩ := h.directive script names_elif helif
    have hinner : Blocks.active (b.elseIf holds :: outer) = false := by
      simp [Blocks.active, Block.elseIf, htaken]
    obtain ⟨closing, hbody, hclosing⟩ := body.excluded (hopened.skipping hinner) hinner
    have htaken' : (b.elseIf holds).branchTaken = true := by simp [Block.elseIf, htaken]
    obtain ⟨next, hend, hnext⟩ :=
      branches.closed (b := b.elseIf holds) hkind helse htaken' hclosing.at_branches
    rw [Branches.lines, Position.down_cons, Position.down_append]
    exact ⟨next, hopening.trans (hbody.trans hend), hnext⟩

end

/-! ### Items that are selected -/

namespace Walk

/-- Whether all selected lines consist of words. -/
def isPlain (w : Walk) : Bool := w.selected.all (·.2.isPlain)

theorem isPlain_of_prefix {w w' : Walk} (h : w.selected <+: w'.selected) (hplain : w'.isPlain = true) :
    w.isPlain = true := by
  rw [isPlain, List.all_eq_true] at hplain ⊢
  exact fun line hline ↦ hplain line (h.subset hline)

end Walk

mutual

theorem Item.selected_prefix (item : Item) (w : Walk) : w.selected <+: (item.walk w).selected := by
  cases item with
  | code line => exact List.prefix_append _ _
  | define defined x =>
    rw [Item.walk, Walk.define, Walk.past]
    simp only
    split <;> exact List.prefix_refl _
  | conditional test body branches =>
    rw [Item.walk]
    split
    · exact body.selected_prefix (w.past _)
    · exact branches.selected_prefix ((w.past _).past _)
  | region body => exact body.selected_prefix (w.past _)

theorem Items.selected_prefix (items : Items) (w : Walk) :
    w.selected <+: (items.walk w).selected := by
  cases items with
  | nil => exact List.prefix_refl _
  | cons item items => exact (item.selected_prefix w).trans (items.selected_prefix _)

theorem Branches.selected_prefix (branches : Branches) (w : Walk) :
    w.selected <+: (branches.walk w).selected := by
  cases branches with
  | endIf => exact List.prefix_refl _
  | otherwise body => exact body.selected_prefix (w.past _)
  | elseIf test body branches =>
    rw [Branches.walk]
    split
    · exact body.selected_prefix (w.past _)
    · exact branches.selected_prefix ((w.past _).past _)

end

namespace ActiveReader

/-- The reader is where the walk is, inside of the blocks, and knows the same symbols. -/
structure Follows (r : ActiveReader) (w : Walk) (rest : List Char) (blocks : Blocks) : Prop where
  at_place : r.At rest w.place false ⟨r.state.symbols, blocks, !w.tokens.isEmpty⟩
  defined : w.defined = r.state.symbols.contains

/-- In some steps the reader contributes the tokens and the findings that the walk adds. -/
def Contributes (r next : ActiveReader) (w w' : Walk) : Prop :=
  ∃ ts fs, Advances script r ts fs next ∧ w'.tokens = w.tokens ++ ts ∧
    w'.findings = w.findings ++ fs

variable {script} in
theorem Contributes.trans {r mid next : ActiveReader} {u v w : Walk}
    (h : Contributes script r mid u v) (h' : Contributes script mid next v w) :
    Contributes script r next u w := by
  obtain ⟨ts, fs, hadvances, htokens, hfindings⟩ := h
  obtain ⟨us, gs, hadvances', htokens', hfindings'⟩ := h'
  refine ⟨ts ++ us, fs ++ gs, hadvances.trans hadvances', ?_, ?_⟩
  · rw [htokens', htokens, List.append_assoc]
  · rw [hfindings', hfindings, List.append_assoc]

variable {script} in
/-- Steps that contribute nothing go past lines. -/
theorem Advances.contributes {r next : ActiveReader} (h : Advances script r [] [] next) (w : Walk)
    (lines : List (List Char)) : Contributes script r next w (w.past lines) :=
  ⟨[], [], h, (List.append_nil _).symm, (List.append_nil _).symm⟩

variable {script}

theorem Follows.of_at {r : ActiveReader} {w : Walk} {rest : List Char} {blocks : Blocks}
    {symbols : List String} (h : r.At rest w.place false ⟨symbols, blocks, !w.tokens.isEmpty⟩)
    (hdefined : w.defined = symbols.contains) : r.Follows w rest blocks where
  at_place := by
    rw [h.state]
    exact h
  defined := by
    rw [h.state]
    exact hdefined

/-- A directive that only changes the blocks, and leaves the text active. -/
theorem Follows.past_directive {r : ActiveReader} {w : Walk} {rest : List Char}
    {blocks blocks' : Blocks} {name : String} {directive : DirectiveName} {args : List (Word true)}
    {remarks : List Remark} (h : r.Follows w (directiveText name args ++ '\n' :: rest) blocks)
    (hnames : Names name directive args)
    (heffect : DirectiveState.apply script ⟨r.state.symbols, blocks, !w.tokens.isEmpty⟩
      (some directive) (directiveToken (w.place.right 1) name.toList)
      (Word.argumentTokens (w.place.right (1 + name.toList.length)) args)
      (directiveEndToken (w.place.right (directiveText name args).length)) =
        ⟨⟨r.state.symbols, blocks', !w.tokens.isEmpty⟩, [], remarks⟩)
    (hactive : Blocks.active blocks' = true) :
    ∃ next, Contributes script r next w (w.past [directiveText name args]) ∧
      next.Follows (w.past [directiveText name args]) rest blocks' := by
  obtain ⟨next, hadvances, hnext⟩ := h.at_place.directive script hnames heffect
  exact ⟨next, hadvances.contributes w _, .of_at (hnext.at hactive) h.defined⟩

end ActiveReader

/-- Removing a symbol undefines it. -/
theorem contains_filter_ne (symbols : List String) (x : String) :
    (symbols.filter (· != x)).contains = fun y ↦ if y = x then false else symbols.contains y := by
  funext y
  rw [Bool.eq_iff_iff]
  by_cases hy : y = x <;> simp [hy]

/-- Adding a symbol defines it. -/
theorem contains_cons_filter_ne (symbols : List String) (x : String) :
    (x :: symbols.filter (· != x)).contains =
      fun y ↦ if y = x then true else symbols.contains y := by
  funext y
  rw [Bool.eq_iff_iff]
  by_cases hy : y = x <;> simp [hy]

theorem Word.isEmpty_tokens (p : Position) (b : Bool) (ws : List (Word false)) :
    (Word.tokens p b ws).isEmpty = ws.isEmpty := by
  cases ws with
  | nil => rfl
  | cons w ws =>
    obtain ⟨t, ts, htokens, -⟩ := (w.isWord ['\n'] ⟨[], .inr rfl⟩).exists_wordTokens p b
    simp [Word.tokens, htokens]

mutual

/-- Reading items that are selected comes to what walking through them comes to. -/
theorem Item.walks (item : Item) {r : ActiveReader} {w : Walk} {rest : List Char} {blocks : Blocks}
    (hactive : Blocks.active blocks = true) (hplain : (item.walk w).isPlain = true)
    (h : r.Follows w (textOfLines item.lines ++ rest) blocks) :
    ∃ next, Contributes script r next w (item.walk w) ∧
      next.Follows (item.walk w) rest blocks := by
  cases item with
  | code line =>
    rw [Item.lines, textOfLines_cons] at h
    cases line with
    | other text oneLine unhashed =>
      simp [Item.walk, Walk.select, Walk.past, Walk.isPlain, CodeLine.isPlain] at hplain
    | words ws =>
      obtain ⟨next, hadvances, hnext⟩ := h.at_place.words script ws
        fun w _ ↦ w.isWord _ ⟨_, .inr rfl⟩
      have htokens : ((Item.code (.words ws)).walk w).tokens =
          w.tokens ++ Word.tokens w.place true ws := by
        simp [Item.walk, Walk.select, Walk.tokens, Walk.past, CodeLine.tokens]
      refine ⟨next, ⟨_, [], hadvances, htokens, (List.append_nil _).symm⟩, ?_⟩
      have happend (ts us : List Token) : (ts ++ us).isEmpty = (ts.isEmpty && us.isEmpty) := by
        cases ts <;> rfl
      have hseen : (!((Item.code (.words ws)).walk w).tokens.isEmpty) =
          (!w.tokens.isEmpty || !ws.isEmpty) := by
        rw [htokens, happend, Word.isEmpty_tokens, Bool.not_and]
      have hat := hnext.afterLineFeed
      simp only [← hseen] at hat
      exact .of_at hat h.defined
  | define defined x =>
    rw [Item.lines, textOfLines_cons] at h
    have hstate : DirectiveState.active ⟨r.state.symbols, blocks, !w.tokens.isEmpty⟩ = true :=
      hactive
    by_cases htokens : w.tokens = []
    · have hseen : (!w.tokens.isEmpty) = false := by simp [htokens]
      have heffects := DirectiveState.apply_define_of_not_seen script hstate hseen x
      have hwalk : (Item.define defined x).walk w = Walk.past { w with
          defined := fun y ↦ if y = x.name then defined else w.defined y }
            [directiveText (if defined then "define" else "undef") [x.word]] := by
        simp only [Item.walk, Walk.define, if_pos htokens]
      rw [hwalk, h.defined]
      cases defined with
      | false =>
        obtain ⟨next, hadvances, hnext⟩ :=
          h.at_place.directive script names_undef (heffects _ _ _).2
        refine ⟨next, ⟨[], [], hadvances, (List.append_nil _).symm, (List.append_nil _).symm⟩, ?_⟩
        exact .of_at (hnext.at hactive) (contains_filter_ne _ _).symm
      | true =>
        obtain ⟨next, hadvances, hnext⟩ :=
          h.at_place.directive script names_define (heffects _ _ _).1
        refine ⟨next, ⟨[], [], hadvances, (List.append_nil _).symm, (List.append_nil _).symm⟩, ?_⟩
        exact .of_at (hnext.at hactive) (contains_cons_filter_ne _ _).symm
    · have hseen : (!w.tokens.isEmpty) = true := by simpa using htokens
      have heffects := DirectiveState.apply_define_of_seen script hstate hseen x
      have hwalk : (Item.define defined x).walk w = Walk.past { w with
          findings := w.findings ++ [⟨.directive .defineAfterToken, ⟨w.place.right 1,
            w.place.right (1 + (if defined then "define" else "undef").length)⟩⟩] }
            [directiveText (if defined then "define" else "undef") [x.word]] := by
        simp only [Item.walk, Walk.define, if_neg htokens]
      rw [hwalk]
      cases defined with
      | false =>
        obtain ⟨next, hadvances, hnext⟩ :=
          h.at_place.directive script names_undef (heffects _ _ _).2
        exact ⟨next, ⟨[], _, hadvances, (List.append_nil _).symm, rfl⟩,
          .of_at (hnext.at hactive) h.defined⟩
      | true =>
        obtain ⟨next, hadvances, hnext⟩ :=
          h.at_place.directive script names_define (heffects _ _ _).1
        exact ⟨next, ⟨[], _, hadvances, (List.append_nil _).symm, rfl⟩,
          .of_at (hnext.at hactive) h.defined⟩
  | conditional test body branches =>
    rw [Item.lines, textOfLines_cons, textOfLines_append] at h
    obtain ⟨remarks, hopen⟩ := DirectiveState.apply_if script
      ⟨r.state.symbols, blocks, !w.tokens.isEmpty⟩ test _ _ _
    have hstate : DirectiveState.active ⟨r.state.symbols, blocks, !w.tokens.isEmpty⟩ = true :=
      hactive
    simp only [hstate, Bool.true_and, ← h.defined] at hopen
    cases hholds : test.value w.defined with
    | true =>
      have hwalk : (Item.conditional test body branches).walk w =
          (body.walk (w.past [directiveText "if" test.words])).past branches.lines := by
        rw [Item.walk, if_pos hholds]
      rw [hwalk] at hplain ⊢
      rw [hholds] at hopen
      obtain ⟨opened, hif, hopened⟩ := h.past_directive names_if hopen rfl
      obtain ⟨closing, hbody, hclosing⟩ := body.walks rfl hplain hopened
      obtain ⟨next, hend, hnext⟩ := branches.closed script rfl rfl rfl hclosing.at_place
      exact ⟨next, hif.trans (hbody.trans (hend.contributes _ _)),
        .of_at (hnext.at hactive) hclosing.defined⟩
    | false =>
      have hwalk : (Item.conditional test body branches).walk w =
          branches.walk ((w.past [directiveText "if" test.words]).past body.lines) := by
        rw [Item.walk, if_neg (by simp [hholds])]
      rw [hwalk] at hplain ⊢
      rw [hholds] at hopen
      obtain ⟨opened, hif, hopened⟩ := h.at_place.directive script names_if hopen
      obtain ⟨closing, hbody, hclosing⟩ := body.excluded script (hopened.skipping rfl) rfl
      obtain ⟨next, hend, hnext⟩ := branches.walks rfl rfl rfl rfl hactive hplain
        (.of_at hclosing.at_branches h.defined)
      exact ⟨next, (hif.contributes w _).trans ((hbody.contributes _ _).trans hend), hnext⟩
  | region body =>
    rw [Item.lines, textOfLines_cons, textOfLines_append] at h
    have hinner : Blocks.active (.region (directiveToken (w.place.right 1) "region".toList).span
        (Blocks.active blocks) :: blocks) = true := hactive
    obtain ⟨opened, hregion, hopened⟩ := h.past_directive names_region rfl hinner
    obtain ⟨closing, hbody, hclosing⟩ := body.walks hinner hplain hopened
    rw [textOfLines_cons] at hclosing
    obtain ⟨next, hend, hnext⟩ := hclosing.past_directive names_endregion
      (DirectiveState.apply_endregion script rfl _ _) hactive
    exact ⟨next, hregion.trans (hbody.trans hend), hnext⟩

theorem Items.walks (items : Items) {r : ActiveReader} {w : Walk} {rest : List Char}
    {blocks : Blocks} (hactive : Blocks.active blocks = true)
    (hplain : (items.walk w).isPlain = true)
    (h : r.Follows w (textOfLines items.lines ++ rest) blocks) :
    ∃ next, Contributes script r next w (items.walk w) ∧
      next.Follows (items.walk w) rest blocks := by
  cases items with
  | nil => exact ⟨r, (Advances.refl r).contributes w [], h⟩
  | cons item items =>
    rw [Items.lines, textOfLines_append] at h
    have hitem := Walk.isPlain_of_prefix (items.selected_prefix (item.walk w)) hplain
    obtain ⟨mid, hfirst, hmid⟩ := item.walks hactive hitem h
    obtain ⟨next, hrest, hnext⟩ := items.walks hactive hplain hmid
    exact ⟨next, hfirst.trans hrest, hnext⟩

/-- As long as no branch of a block has been selected, the reader goes on to the first one whose
condition holds. -/
theorem Branches.walks (branches : Branches) {r : ActiveReader} {w : Walk} {rest : List Char}
    {b : Block} {outer : Blocks} (hkind : b.kind = .condition) (helse : b.elseSeen = false)
    (htaken : b.branchTaken = false) (hparent : b.parentActive = true)
    (hactive : Blocks.active outer = true) (hplain : (branches.walk w).isPlain = true)
    (h : r.Follows w (textOfLines branches.lines ++ rest) (b :: outer)) :
    ∃ next, Contributes script r next w (branches.walk w) ∧
      next.Follows (branches.walk w) rest outer := by
  cases branches with
  | endIf =>
    rw [Branches.lines, textOfLines_cons] at h
    exact h.past_directive names_endif (DirectiveState.apply_endif script hkind _ _) hactive
  | otherwise body =>
    rw [Branches.lines, textOfLines_cons, textOfLines_append] at h
    have hinner : Blocks.active (b.otherwise :: outer) = true := by
      simp [Blocks.active, Block.otherwise, htaken, hparent]
    obtain ⟨opened, hopening, hopened⟩ := h.past_directive names_else
      (DirectiveState.apply_else script hkind helse _ _) hinner
    obtain ⟨closing, hbody, hclosing⟩ := body.walks hinner hplain hopened
    rw [textOfLines_cons] at hclosing
    obtain ⟨next, hend, hnext⟩ := hclosing.past_directive names_endif
      (DirectiveState.apply_endif script (b := b.otherwise) hkind _ _) hactive
    exact ⟨next, hopening.trans (hbody.trans hend), hnext⟩
  | elseIf test body branches =>
    rw [Branches.lines, textOfLines_cons, textOfLines_append] at h
    obtain ⟨holds, remarks, hvalue, helif⟩ := DirectiveState.apply_elif script hkind helse test _ _ _
    replace hvalue := hvalue hparent
    rw [← h.defined] at hvalue
    cases holds with
    | true =>
      have hwalk : (Branches.elseIf test body branches).walk w =
          (body.walk (w.past [directiveText "elif" test.words])).past branches.lines := by
        rw [Branches.walk, if_pos hvalue.symm]
      rw [hwalk] at hplain ⊢
      have hinner : Blocks.active (b.elseIf true :: outer) = true := by
        simp [Blocks.active, Block.elseIf, htaken, hparent]
      have htaken' : (b.elseIf true).branchTaken = true := by
        simp [Block.elseIf, htaken, hparent]
      obtain ⟨opened, hopening, hopened⟩ := h.past_directive names_elif helif hinner
      obtain ⟨closing, hbody, hclosing⟩ := body.walks hinner hplain hopened
      obtain ⟨next, hend, hnext⟩ :=
        branches.closed script (b := b.elseIf true) hkind helse htaken' hclosing.at_place
      exact ⟨next, hopening.trans (hbody.trans (hend.contributes _ _)),
        .of_at (hnext.at hactive) hclosing.defined⟩
    | false =>
      have hwalk : (Branches.elseIf test body branches).walk w =
          branches.walk ((w.past [directiveText "elif" test.words]).past body.lines) := by
        rw [Branches.walk, if_neg (by simp [← hvalue])]
      rw [hwalk] at hplain ⊢
      have hinner : Blocks.active (b.elseIf false :: outer) = false := by
        simp [Blocks.active, Block.elseIf]
      have htaken' : (b.elseIf false).branchTaken = false := by simp [Block.elseIf, htaken]
      obtain ⟨opened, hopening, hopened⟩ := h.at_place.directive script names_elif helif
      obtain ⟨closing, hbody, hclosing⟩ := body.excluded script (hopened.skipping hinner) hinner
      obtain ⟨next, hend, hnext⟩ := branches.walks (b := b.elseIf false) hkind helse htaken' hparent
        hactive hplain (.of_at hclosing.at_branches h.defined)
      exact ⟨next, (hopening.contributes w _).trans ((hbody.contributes _ _).trans hend), hnext⟩

end

end

/-! ### The whole text -/

/-- Where `A` is not defined, `C` is defined and `x ;` is selected. -/
def elseOfA : Items :=
  .cons (.conditional
    (.conjunction (.comparison (.negation (.primary
      (.symbol ⟨['A'], (.of_check rfl rfl), by decide⟩)))))
    (.cons (.code (.other ['"', '#'] (by simp [isLineEnd]) (by decide))) .nil)
    (.otherwise
      (.cons (.define true ⟨['C'], (.of_check rfl rfl), by decide⟩)
        (.cons (.code (.words [⟨['x'], _, IsName.isWord (.of_check rfl rfl) false⟩,
          ⟨[';'], _, Symbol.isWord_text .semicolon false⟩])) .nil)))) .nil

end CSharpCheck
