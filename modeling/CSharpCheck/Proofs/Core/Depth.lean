import CSharpCheck.Proofs.Core.Syntax

/-!
# Depth

How deep the parts of a program are nested in one another: the number of statements, parentheses,
brackets, branches of conditionals and signs around a place, at most. Operands of operators,
arguments, postfix parts and branches of a chain of else-ifs stand side by side.

The text of a program may also be read in another way than it has been put together. A name, a
less-than sign, dotted names with commas between them, a greater-than sign and a parenthesis are a
call with type arguments, and an `else` belongs to the nearest `if` that has none.
-/

namespace CSharpCheck.Core

/-! ### Depth as put together -/

mutual

def Expression.depth : Expression → Nat
  | .assignment target value => max target.depth value.depth
  | .operations chain => chain.depth
  | .conditional test yes no => max test.depth (max (yes.depth + 1) (no.depth + 1))

def Operations.depth : Operations → Nat
  | .operand u => u.depth
  | .operation left _ right => max left.depth right.depth

def Unary.depth : Unary → Nat
  | .primary p => p.depth
  | .sign _ u => u.depth + 1

def Primary.depth : Primary → Nat
  | .parentheses e => e.depth + 1
  | .callable c => c.depth

def Callable.depth : Callable → Nat
  | .name _ | .literal _ | .constant _ => 0
  | .member p _ => p.depth
  | .emptyCall c => max c.depth 1
  | .call c args => max c.depth (args.depth + 1)
  | .index p args => max p.depth (args.depth + 1)

def Expressions.depth : Expressions → Nat
  | .one e => e.depth
  | .more e es => max e.depth es.depth

end

/-! ### Depth as read -/

/-- Where in an expression a place is. -/
inductive Place where
  /-- In front of an operand. -/
  | operand
  /-- Behind a name. -/
  | name
  /-- Behind any other operand. -/
  | value
  /-- In type arguments. -/
  | typeArguments
  deriving DecidableEq, Repr

/-- How deep a place is inside the innermost brackets, or the innermost branch before a colon, that
it is in: behind how many colons, and behind how many signs of the operand. -/
structure Level where
  branches : Nat
  signs : Nat
  deriving DecidableEq, Repr

/-- A place with the levels around it. Brackets and branches before a colon separate the levels from
one another, the innermost first. -/
structure Nesting where
  place : Place
  level : Level
  outer : List Level
  deriving DecidableEq, Repr

namespace Nesting

/-- The number of brackets, branches and signs around the place. -/
def depth (n : Nesting) : Nat :=
  n.level.branches + n.level.signs + n.outer.foldr (fun l depth ↦ l.branches + l.signs + 1 + depth) 0

/-- The nesting of the next operand in the same operation. -/
def next (n : Nesting) : Nesting := ⟨.operand, ⟨n.level.branches, 0⟩, n.outer⟩

/-- The nesting inside brackets that open here. -/
def inside (n : Nesting) : Nesting := ⟨.operand, ⟨0, 0⟩, n.level :: n.outer⟩

/-- The nesting behind the innermost brackets. -/
def outside (n : Nesting) : Nesting :=
  match n.outer with
  | level :: outer => ⟨.value, level, outer⟩
  | [] => ⟨.value, ⟨0, 0⟩, []⟩

/-- The nesting behind the colon of the innermost branch. -/
def otherwise (n : Nesting) : Nesting :=
  match n.outer with
  | level :: outer => ⟨.operand, ⟨level.branches + 1, 0⟩, outer⟩
  | [] => ⟨.operand, ⟨1, 0⟩, []⟩

/-- Whether dotted names with commas between them come next, then a greater-than sign and a
parenthesis, where a name comes next or what may follow a name. -/
def closesTypeArguments : (nameNext : Bool) → List Kind → Bool
  | true, .identifier :: ks => closesTypeArguments false ks
  | false, .symbol .dot :: ks | false, .symbol .comma :: ks => closesTypeArguments true ks
  | false, .symbol .greater :: .symbol .openParen :: _ => true
  | _, _ => false

/-- The nesting behind a token of the kind, when the kinds `ks` follow. -/
def step (n : Nesting) (k : Kind) (ks : List Kind) : Nesting :=
  match n.place, k with
  | .typeArguments, .symbol .greater => { n with place := .value }
  | .typeArguments, _ => n
  | .operand, .identifier => { n with place := .name }
  | .operand, .symbol .plus | .operand, .symbol .minus | .operand, .symbol .bang
  | .operand, .symbol .tilde =>
    { n with level := ⟨n.level.branches, n.level.signs + 1⟩ }
  | .operand, .symbol .openParen => n.inside
  | .operand, .symbol .closeParen => n.outside
  | .operand, _ => { n with place := .value }
  | _, .symbol .dot => { n with place := .operand }
  | _, .symbol .openParen | _, .symbol .openBracket => n.inside
  | _, .symbol .closeParen | _, .symbol .closeBracket => n.outside
  | _, .symbol .comma => ⟨.operand, ⟨0, 0⟩, n.outer⟩
  | _, .symbol .question => n.next.inside
  | _, .symbol .colon => n.otherwise
  | .name, .symbol .less =>
    if closesTypeArguments true ks then { n with place := .typeArguments } else n.next
  | _, _ => n.next

/-- The greatest depth on the way through tokens of the kinds. -/
def deepest : Nesting → List Kind → Nat
  | n, [] => n.depth
  | n, k :: ks => max n.depth ((n.step k ks).deepest ks)

end Nesting

/-- The depth of the expression as its text is read. -/
def Expression.depthAsRead (e : Expression) : Nat :=
  (⟨.operand, ⟨0, 0⟩, []⟩ : Nesting).deepest (kinds e.words)

/-! ### The two depths -/

/-- The depth inside brackets that open here. -/
theorem depth_inside (p : Place) (l : Level) (outer : List Level) :
    (Nesting.mk .operand ⟨0, 0⟩ (l :: outer)).depth = (Nesting.mk p l outer).depth + 1 := by
  simp only [Nesting.depth, List.foldr_cons]
  omega

theorem depth_level (p : Place) (branches signs : Nat) (outer : List Level) :
    (Nesting.mk p ⟨branches, signs⟩ outer).depth =
      branches + signs + (Nesting.mk .operand ⟨0, 0⟩ outer).depth := by
  simp only [Nesting.depth]
  omega

theorem Nesting.deepest_cons_le {n : Nesting} {k : Kind} {ks : List Kind} {bound : Nat}
    (hn : n.depth ≤ bound) (h : (n.step k ks).deepest ks ≤ bound) : n.deepest (k :: ks) ≤ bound :=
  Nat.max_le.2 ⟨hn, h⟩

/-- From behind an operand on, whatever its signs, no place is too deep. -/
def Nesting.Stays (bound branches : Nat) (outer : List Level) (ks : List Kind) : Prop :=
  ∀ p signs, p = Place.name ∨ p = .value → (Nesting.mk p ⟨branches, signs⟩ outer).depth ≤ bound →
    (Nesting.mk p ⟨branches, signs⟩ outer).deepest ks ≤ bound

/-- An operator, and what else is in front of an operand on the same level, but no less-than
sign. -/
theorem Nesting.Stays.operation {bound b : Nat} {outer : List Level} {ks : List Kind}
    {op : Operation} (hop : op ≠ .less)
    (h : (Nesting.mk .operand ⟨b, 0⟩ outer).deepest ks ≤ bound) :
    Nesting.Stays bound b outer (.symbol op.symbol :: ks) := by
  intro p signs hp hdepth
  refine deepest_cons_le hdepth ?_
  have hstep : (Nesting.mk p ⟨b, signs⟩ outer).step (.symbol op.symbol) ks =
      ⟨.operand, ⟨b, 0⟩, outer⟩ := by
    rcases hp with rfl | rfl <;> cases op <;> first | rfl | contradiction
  rwa [hstep]

mutual

/-- Without less-than signs, no place in an expression is deeper than it has been put together. -/
theorem Expression.deepest_le (e : Expression) (hless : .symbol .less ∉ e.words) {b : Nat}
    {outer : List Level} {rest : List Kind} {bound : Nat}
    (hbound : (Nesting.mk .operand ⟨b, 0⟩ outer).depth + e.depth ≤ bound)
    (hrest : ∀ d, Nesting.Stays bound d outer rest) :
    (Nesting.mk .operand ⟨b, 0⟩ outer).deepest (kinds e.words ++ rest) ≤ bound := by
  match e with
  | .operations chain => exact chain.deepest_le hless hbound (hrest b)
  | .assignment target value =>
    simp only [Expression.words, List.mem_append, List.mem_cons, not_or] at hless
    simp only [Expression.depth] at hbound
    rw [Expression.words, kinds_append, kinds_cons, List.append_assoc, List.cons_append]
    refine target.deepest_le hless.1 (by omega) fun p signs hp hdepth ↦ ?_
    refine Nesting.deepest_cons_le hdepth ?_
    have hvalue := value.deepest_le (b := b) hless.2.2 (by omega) hrest
    rcases hp with rfl | rfl <;> exact hvalue
  | .conditional test yes no =>
    simp only [Expression.words, List.mem_append, List.mem_cons, not_or] at hless
    simp only [Expression.depth] at hbound
    have hyes := depth_inside .operand ⟨b, 0⟩ outer
    have hno := depth_level .operand (b + 1) 0 outer
    have hbase := depth_level .operand b 0 outer
    simp only [Expression.words, kinds_append, kinds_cons, List.append_assoc, List.cons_append]
    refine test.deepest_le hless.1 (by omega) fun p signs hp hdepth ↦ ?_
    refine Nesting.deepest_cons_le hdepth ?_
    have hbranch : (Nesting.mk .operand ⟨0, 0⟩ (⟨b, 0⟩ :: outer)).deepest
        (kinds yes.words ++ .symbol .colon :: (kinds no.words ++ rest)) ≤ bound := by
      refine yes.deepest_le hless.2.2.1 (by omega) fun d q signs hq hdepth ↦ ?_
      refine Nesting.deepest_cons_le hdepth ?_
      have hother := no.deepest_le (b := b + 1) hless.2.2.2.2 (by omega) hrest
      rcases hq with rfl | rfl <;> exact hother
    rcases hp with rfl | rfl <;> exact hbranch

theorem Operations.deepest_le (o : Operations) (hless : .symbol .less ∉ o.words) {b : Nat}
    {outer : List Level} {rest : List Kind} {bound : Nat}
    (hbound : (Nesting.mk .operand ⟨b, 0⟩ outer).depth + o.depth ≤ bound)
    (hrest : Nesting.Stays bound b outer rest) :
    (Nesting.mk .operand ⟨b, 0⟩ outer).deepest (kinds o.words ++ rest) ≤ bound := by
  match o with
  | .operand u => exact u.deepest_le hless hbound hrest
  | .operation left op right =>
    simp only [Operations.words, List.mem_append, List.mem_cons, not_or] at hless
    simp only [Operations.depth] at hbound
    rw [Operations.words, kinds_append, kinds_cons, List.append_assoc, List.cons_append]
    have hop : op ≠ .less := by
      rintro rfl
      exact hless.2.1 rfl
    refine left.deepest_le hless.1 (by omega) (.operation hop ?_)
    exact right.deepest_le hless.2.2 (by omega) hrest

theorem Unary.deepest_le (u : Unary) (hless : .symbol .less ∉ u.words) {b s : Nat}
    {outer : List Level} {rest : List Kind} {bound : Nat}
    (hbound : (Nesting.mk .operand ⟨b, s⟩ outer).depth + u.depth ≤ bound)
    (hrest : Nesting.Stays bound b outer rest) :
    (Nesting.mk .operand ⟨b, s⟩ outer).deepest (kinds u.words ++ rest) ≤ bound := by
  match u with
  | .primary p => exact p.deepest_le hless hbound fun q hq ↦ hrest q s hq
  | .sign sign u =>
    simp only [Unary.words, List.mem_cons, not_or] at hless
    simp only [Unary.depth] at hbound
    have hsign := depth_level .operand b (s + 1) outer
    have hbase := depth_level .operand b s outer
    have hu := u.deepest_le (s := s + 1) hless.2 (by omega) hrest
    rw [Unary.words, kinds_cons, List.cons_append]
    refine Nesting.deepest_cons_le (by omega) ?_
    cases sign <;> exact hu

theorem Primary.deepest_le (p : Primary) (hless : .symbol .less ∉ p.words) {l : Level}
    {outer : List Level} {rest : List Kind} {bound : Nat}
    (hbound : (Nesting.mk .operand l outer).depth + p.depth ≤ bound)
    (hrest : ∀ q, q = Place.name ∨ q = .value → (Nesting.mk q l outer).depth ≤ bound →
      (Nesting.mk q l outer).deepest rest ≤ bound) :
    (Nesting.mk .operand l outer).deepest (kinds p.words ++ rest) ≤ bound := by
  match p with
  | .callable c => exact c.deepest_le hless hbound hrest
  | .parentheses e =>
    simp only [Primary.words, List.mem_append, List.mem_cons, not_or] at hless
    simp only [Primary.depth] at hbound
    have hinside := depth_inside .operand l outer
    have hvalue : (Nesting.mk .value l outer).depth = (Nesting.mk .operand l outer).depth := rfl
    simp only [Primary.words, kinds_append, kinds_cons, kinds_nil, List.append_assoc,
      List.cons_append, List.nil_append]
    refine Nesting.deepest_cons_le (by omega) ?_
    have hbound : (Nesting.mk .operand ⟨0, 0⟩ (l :: outer)).depth + e.depth ≤ bound := by omega
    refine e.deepest_le hless.2.1 hbound fun d q signs hq hdepth ↦ ?_
    refine Nesting.deepest_cons_le hdepth ?_
    have hbehind := hrest .value (.inr rfl) (by omega)
    rcases hq with rfl | rfl <;> exact hbehind

theorem Callable.deepest_le (c : Callable) (hless : .symbol .less ∉ c.words) {l : Level}
    {outer : List Level} {rest : List Kind} {bound : Nat}
    (hbound : (Nesting.mk .operand l outer).depth + c.depth ≤ bound)
    (hrest : ∀ q, q = Place.name ∨ q = .value → (Nesting.mk q l outer).depth ≤ bound →
      (Nesting.mk q l outer).deepest rest ≤ bound) :
    (Nesting.mk .operand l outer).deepest (kinds c.words ++ rest) ≤ bound := by
  have hname : (Nesting.mk .name l outer).depth = (Nesting.mk .operand l outer).depth := rfl
  have hvalue : (Nesting.mk .value l outer).depth = (Nesting.mk .operand l outer).depth := rfl
  have hinside := depth_inside .operand l outer
  match c with
  | .name n =>
    exact Nesting.deepest_cons_le (by omega) (hrest .name (.inl rfl) (by omega))
  | .literal literal =>
    have hbehind := hrest .value (.inr rfl) (by omega)
    refine Nesting.deepest_cons_le (by omega) ?_
    cases literal <;> exact hbehind
  | .constant k =>
    have hbehind := hrest .value (.inr rfl) (by omega)
    refine Nesting.deepest_cons_le (by omega) ?_
    cases k <;> exact hbehind
  | .member p n =>
    simp only [Callable.words, List.mem_append, not_or] at hless
    simp only [Callable.depth] at hbound
    simp only [Callable.words, kinds_append, kinds_cons, kinds_nil, List.append_assoc,
      List.cons_append, List.nil_append]
    refine p.deepest_le hless.1 hbound fun q hq hdepth ↦ ?_
    refine Nesting.deepest_cons_le hdepth ?_
    have hbehind : (Nesting.mk .operand l outer).deepest (.identifier :: rest) ≤ bound :=
      Nesting.deepest_cons_le (by omega) (hrest .name (.inl rfl) (by omega))
    rcases hq with rfl | rfl <;> exact hbehind
  | .emptyCall c =>
    simp only [Callable.words, List.mem_append, not_or] at hless
    simp only [Callable.depth] at hbound
    simp only [Callable.words, kinds_append, kinds_cons, kinds_nil, List.append_assoc,
      List.cons_append, List.nil_append]
    refine c.deepest_le hless.1 (by omega) fun q hq hdepth ↦ ?_
    refine Nesting.deepest_cons_le hdepth ?_
    have hbehind : (Nesting.mk .operand ⟨0, 0⟩ (l :: outer)).deepest
        (.symbol .closeParen :: rest) ≤ bound :=
      Nesting.deepest_cons_le (by omega) (hrest .value (.inr rfl) (by omega))
    rcases hq with rfl | rfl <;> exact hbehind
  | .call c args =>
    simp only [Callable.words, List.mem_append, List.mem_cons, not_or] at hless
    simp only [Callable.depth] at hbound
    simp only [Callable.words, kinds_append, kinds_cons, kinds_nil, List.append_assoc,
      List.cons_append, List.nil_append]
    refine c.deepest_le hless.1 (by omega) fun q hq hdepth ↦ ?_
    refine Nesting.deepest_cons_le hdepth ?_
    have hargs : (Nesting.mk .operand ⟨0, 0⟩ (l :: outer)).deepest
        (kinds args.words ++ .symbol .closeParen :: rest) ≤ bound := by
      refine args.deepest_le hless.2.2.1 (by omega) fun d q signs hq hdepth ↦ ?_
      refine Nesting.deepest_cons_le hdepth ?_
      have hbehind := hrest .value (.inr rfl) (by omega)
      rcases hq with rfl | rfl <;> exact hbehind
    rcases hq with rfl | rfl <;> exact hargs
  | .index p args =>
    simp only [Callable.words, List.mem_append, List.mem_cons, not_or] at hless
    simp only [Callable.depth] at hbound
    simp only [Callable.words, kinds_append, kinds_cons, kinds_nil, List.append_assoc,
      List.cons_append, List.nil_append]
    refine p.deepest_le hless.1 (by omega) fun q hq hdepth ↦ ?_
    refine Nesting.deepest_cons_le hdepth ?_
    have hargs : (Nesting.mk .operand ⟨0, 0⟩ (l :: outer)).deepest
        (kinds args.words ++ .symbol .closeBracket :: rest) ≤ bound := by
      refine args.deepest_le hless.2.2.1 (by omega) fun d q signs hq hdepth ↦ ?_
      refine Nesting.deepest_cons_le hdepth ?_
      have hbehind := hrest .value (.inr rfl) (by omega)
      rcases hq with rfl | rfl <;> exact hbehind
    rcases hq with rfl | rfl <;> exact hargs

theorem Expressions.deepest_le (es : Expressions) (hless : .symbol .less ∉ es.words)
    {outer : List Level} {rest : List Kind} {bound : Nat}
    (hbound : (Nesting.mk .operand ⟨0, 0⟩ outer).depth + es.depth ≤ bound)
    (hrest : ∀ d, Nesting.Stays bound d outer rest) :
    (Nesting.mk .operand ⟨0, 0⟩ outer).deepest (kinds es.words ++ rest) ≤ bound := by
  match es with
  | .one e => exact e.deepest_le hless hbound hrest
  | .more e es =>
    simp only [Expressions.words, List.mem_append, List.mem_cons, not_or] at hless
    simp only [Expressions.depth] at hbound
    rw [Expressions.words, kinds_append, kinds_cons, List.append_assoc, List.cons_append]
    refine e.deepest_le hless.1 (by omega) fun d q signs hq hdepth ↦ ?_
    refine Nesting.deepest_cons_le hdepth ?_
    have hmore := es.deepest_le hless.2.2 (by omega) hrest
    rcases hq with rfl | rfl <;> exact hmore

end

/-- Without less-than signs, an expression is read no deeper than it has been put together. -/
theorem Expression.depthAsRead_le {e : Expression} (h : .symbol .less ∉ e.words) :
    e.depthAsRead ≤ e.depth := by
  have hstart : (Nesting.mk .operand ⟨0, 0⟩ []).depth + e.depth ≤ e.depth :=
    Nat.le_of_eq (Nat.zero_add _)
  have hle : (Nesting.mk .operand ⟨0, 0⟩ []).deepest (kinds e.words ++ []) ≤ e.depth :=
    e.deepest_le h hstart fun _ _ _ _ hdepth ↦ hdepth
  rwa [List.append_nil] at hle

/-! ### Depth of statements -/

mutual

/-- The depth of the statement, when `measure` gives the depth of the expressions in it. -/
def Statement.depth (measure : Expression → Nat) : Statement → Nat
  | .declaration _ value => measure value
  | .body b => b.depth measure

def Body.depth (measure : Expression → Nat) : Body → Nat
  | .empty => 0
  | .block ss => ss.depth measure + 1
  | .assignment n value =>
    measure (.assignment (.primary (.callable (.name n))) value)
  | .emptyCall f =>
    measure (.operations (.operand (.primary (.callable (.emptyCall (.name f))))))
  | .call f args =>
    measure (.operations (.operand (.primary (.callable (.call (.name f) args)))))
  | .ifThen test yes => max (measure test) (yes.depth measure + 1)
  | .ifElse test yes no =>
    max (measure test) (max (yes.depth measure + 1) (no.elseDepth measure))
  | .whileDo test b | .doWhile b test => max (measure test) (b.depth measure + 1)
  | .return value => measure value

/-- The depth of a statement after `else`. An `if` there goes on with the chain. -/
def Body.elseDepth (measure : Expression → Nat) : Body → Nat
  | .ifThen test yes => max (measure test) (yes.depth measure + 1)
  | .ifElse test yes no =>
    max (measure test) (max (yes.depth measure + 1) (no.elseDepth measure))
  | b => b.depth measure + 1

def Statements.depth (measure : Expression → Nat) : Statements → Nat
  | .nil => 0
  | .cons s ss => max (s.depth measure) (ss.depth measure)

end

/-! ### The nearest if -/

/-- Whether the statement is an `if`. -/
def Body.startsIf : Body → Bool
  | .ifThen _ _ | .ifElse _ _ _ => true
  | _ => false

theorem Body.elseDepth_eq (measure : Expression → Nat) (b : Body) :
    b.elseDepth measure = b.depth measure + if b.startsIf then 0 else 1 := by
  cases b <;> simp [Body.elseDepth, Body.depth, Body.startsIf]

/-- Whether an `else` behind the statement belongs to an `if` in it. -/
def Body.isOpen : Body → Bool
  | .ifThen _ _ => true
  | .ifElse _ _ no => no.isOpen
  | .whileDo _ b => b.isOpen
  | _ => false

def Statement.isOpen : Statement → Bool
  | .declaration _ _ => false
  | .body b => b.isOpen

/-- The statement with an `else` and a statement behind it, which belong to the nearest `if` in
it. -/
def Body.withElse : Body → Body → Body
  | .ifThen test yes, no =>
    if yes.isOpen then .ifThen test (yes.withElse no) else .ifElse test yes no
  | .ifElse test yes other, no => .ifElse test yes (other.withElse no)
  | .whileDo test b, no => .whileDo test (b.withElse no)
  | b, _ => b

mutual

/-- The statement as its text is read: every `else` belongs to the nearest `if`. -/
def Statement.asRead : Statement → Statement
  | .declaration n value => .declaration n value
  | .body b => .body b.asRead

def Body.asRead : Body → Body
  | .block ss => .block ss.asRead
  | .ifThen test yes => .ifThen test yes.asRead
  | .ifElse test yes no =>
    if yes.asRead.isOpen then .ifThen test (yes.asRead.withElse no.asRead)
    else .ifElse test yes.asRead no.asRead
  | .whileDo test b => .whileDo test b.asRead
  | .doWhile b test => .doWhile b.asRead test
  | b => b

def Statements.asRead : Statements → Statements
  | .nil => .nil
  | .cons s ss => .cons s.asRead ss.asRead

end

mutual

/-- Whether every `else` in the statement belongs to the nearest `if`. -/
def Statement.IsSettled : Statement → Prop
  | .declaration _ _ => True
  | .body b => b.IsSettled

def Body.IsSettled : Body → Prop
  | .block ss => ss.IsSettled
  | .ifThen _ yes => yes.IsSettled
  | .ifElse _ yes no => yes.isOpen = false ∧ yes.IsSettled ∧ no.IsSettled
  | .whileDo _ b | .doWhile b _ => b.IsSettled
  | _ => True

def Statements.IsSettled : Statements → Prop
  | .nil => True
  | .cons s ss => s.IsSettled ∧ ss.IsSettled

end

theorem Body.words_withElse {b : Body} (h : b.isOpen = true) (no : Body) :
    (b.withElse no).words = b.words ++ .reserved .elseWord :: no.words := by
  match b with
  | .ifThen test yes =>
    rw [Body.withElse]
    split
    · next hyes => simp [Body.words, yes.words_withElse hyes]
    · simp [Body.words]
  | .ifElse test yes other =>
    rw [Body.isOpen] at h
    simp [Body.withElse, Body.words, other.words_withElse h]
  | .whileDo test b =>
    rw [Body.isOpen] at h
    simp [Body.withElse, Body.words, b.words_withElse h]
  | .empty | .block _ | .assignment _ _ | .emptyCall _ | .call _ _ | .doWhile _ _ | .return _ =>
    simp [Body.isOpen] at h

theorem Body.parenthesized_withElse {b : Body} (h : b.isOpen = true) (no : Body) :
    (b.withElse no).parenthesized = b.parenthesized ++ no.parenthesized := by
  match b with
  | .ifThen test yes =>
    rw [Body.withElse]
    split
    · next hyes => simp [Body.parenthesized, yes.parenthesized_withElse hyes]
    · simp [Body.parenthesized]
  | .ifElse test yes other =>
    rw [Body.isOpen] at h
    simp [Body.withElse, Body.parenthesized, other.parenthesized_withElse h]
  | .whileDo test b =>
    rw [Body.isOpen] at h
    simp [Body.withElse, Body.parenthesized, b.parenthesized_withElse h]
  | .empty | .block _ | .assignment _ _ | .emptyCall _ | .call _ _ | .doWhile _ _ | .return _ =>
    simp [Body.isOpen] at h

theorem Body.isSettled_withElse {b no : Body} (hb : b.IsSettled) (hno : no.IsSettled) :
    (b.withElse no).IsSettled := by
  match b with
  | .ifThen test yes =>
    rw [Body.withElse]
    split
    · exact yes.isSettled_withElse hb hno
    · next hyes => exact ⟨by simpa using hyes, hb, hno⟩
  | .ifElse test yes other => exact ⟨hb.1, hb.2.1, other.isSettled_withElse hb.2.2 hno⟩
  | .whileDo test b => exact b.isSettled_withElse hb hno
  | .empty | .block _ | .assignment _ _ | .emptyCall _ | .call _ _ | .doWhile _ _ | .return _ =>
    exact hb

mutual

/-- The text stays the same. -/
theorem Statement.words_asRead (s : Statement) : s.asRead.words = s.words := by
  match s with
  | .declaration n value => rfl
  | .body b => simp [Statement.asRead, Statement.words, b.words_asRead]

theorem Body.words_asRead (b : Body) : b.asRead.words = b.words := by
  match b with
  | .block ss => simp [Body.asRead, Body.words, ss.words_asRead]
  | .ifThen test yes => simp [Body.asRead, Body.words, yes.words_asRead]
  | .ifElse test yes no =>
    rw [Body.asRead]
    split
    · next hyes =>
      simp [Body.words, Body.words_withElse hyes, yes.words_asRead, no.words_asRead]
    · simp [Body.words, yes.words_asRead, no.words_asRead]
  | .whileDo test b => simp [Body.asRead, Body.words, b.words_asRead]
  | .doWhile b test => simp [Body.asRead, Body.words, b.words_asRead]
  | .empty | .assignment _ _ | .emptyCall _ | .call _ _ | .return _ => rfl

theorem Statements.words_asRead (ss : Statements) : ss.asRead.words = ss.words := by
  match ss with
  | .nil => rfl
  | .cons s ss => simp [Statements.asRead, Statements.words, s.words_asRead, ss.words_asRead]

end

mutual

theorem Statement.parenthesized_asRead (s : Statement) :
    s.asRead.parenthesized = s.parenthesized := by
  match s with
  | .declaration n value => rfl
  | .body b => simp [Statement.asRead, Statement.parenthesized, b.parenthesized_asRead]

theorem Body.parenthesized_asRead (b : Body) : b.asRead.parenthesized = b.parenthesized := by
  match b with
  | .block ss => simp [Body.asRead, Body.parenthesized, ss.parenthesized_asRead]
  | .ifThen test yes => simp [Body.asRead, Body.parenthesized, yes.parenthesized_asRead]
  | .ifElse test yes no =>
    rw [Body.asRead]
    split
    · next hyes =>
      simp [Body.parenthesized, Body.parenthesized_withElse hyes, yes.parenthesized_asRead,
        no.parenthesized_asRead]
    · simp [Body.parenthesized, yes.parenthesized_asRead, no.parenthesized_asRead]
  | .whileDo test b => simp [Body.asRead, Body.parenthesized, b.parenthesized_asRead]
  | .doWhile b test => simp [Body.asRead, Body.parenthesized, b.parenthesized_asRead]
  | .empty | .assignment _ _ | .emptyCall _ | .call _ _ | .return _ => rfl

theorem Statements.parenthesized_asRead (ss : Statements) :
    ss.asRead.parenthesized = ss.parenthesized := by
  match ss with
  | .nil => rfl
  | .cons s ss =>
    simp [Statements.asRead, Statements.parenthesized, s.parenthesized_asRead,
      ss.parenthesized_asRead]

end

mutual

theorem Statement.isSettled_asRead (s : Statement) : s.asRead.IsSettled := by
  match s with
  | .declaration n value => trivial
  | .body b => exact b.isSettled_asRead

theorem Body.isSettled_asRead (b : Body) : b.asRead.IsSettled := by
  match b with
  | .block ss => exact ss.isSettled_asRead
  | .ifThen test yes => exact yes.isSettled_asRead
  | .ifElse test yes no =>
    rw [Body.asRead]
    split
    · exact Body.isSettled_withElse yes.isSettled_asRead no.isSettled_asRead
    · next hyes => exact ⟨by simpa using hyes, yes.isSettled_asRead, no.isSettled_asRead⟩
  | .whileDo test b => exact b.isSettled_asRead
  | .doWhile b test => exact b.isSettled_asRead
  | .empty | .assignment _ _ | .emptyCall _ | .call _ _ | .return _ => trivial

theorem Statements.isSettled_asRead (ss : Statements) : ss.asRead.IsSettled := by
  match ss with
  | .nil => trivial
  | .cons s ss => exact ⟨s.isSettled_asRead, ss.isSettled_asRead⟩

end

/-- The depth of the statements as their text is read. -/
def Statements.depthAsRead (ss : Statements) : Nat := ss.asRead.depth Expression.depthAsRead

end CSharpCheck.Core
