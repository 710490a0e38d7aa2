import CSharpCheck.Directive.Condition

/-!
# The grammar of conditions

Which tokens make a condition, and with which value, is told by a grammar with one level for each
strength of operators. Reading a condition of a level takes the longest run of tokens that a
condition of the level can begin with: it ends there with the value, or it halts because no
condition goes on with the next token.
-/

namespace CSharpCheck.Condition

/-- The levels of conditions: operators of a higher level bind less tightly. -/
inductive Level where
  | primary | negation | comparison | conjunction | disjunction
  deriving DecidableEq, Repr

/-- The tokens make a condition of the level, which has the value where the given symbols are
defined. Operators of one level are applied from left to right. -/
inductive Denotes (defined : String → Bool) : Level → List Token → Bool → Prop where
  | trueWord {t : Token} : t.isWord .trueWord = true → Denotes defined .primary [t] true
  | falseWord {t : Token} : t.isWord .falseWord = true → Denotes defined .primary [t] false
  | symbol {t : Token} : t.isIdentifier = true →
      Denotes defined .primary [t] (defined (t.name.getD ""))
  | parentheses {o c : Token} {ts : List Token} {v : Bool} : o.is .openParen = true →
      Denotes defined .disjunction ts v → c.is .closeParen = true →
      Denotes defined .primary (o :: (ts ++ [c])) v
  | primary {ts : List Token} {v : Bool} : Denotes defined .primary ts v →
      Denotes defined .negation ts v
  | not {o : Token} {ts : List Token} {v : Bool} : o.is .bang = true →
      Denotes defined .negation ts v → Denotes defined .negation (o :: ts) (!v)
  | negation {ts : List Token} {v : Bool} : Denotes defined .negation ts v →
      Denotes defined .comparison ts v
  | equal {o : Token} {ts us : List Token} {v w : Bool} : Denotes defined .comparison ts v →
      o.is .equalsEquals = true → Denotes defined .negation us w →
      Denotes defined .comparison (ts ++ o :: us) (v == w)
  | unequal {o : Token} {ts us : List Token} {v w : Bool} : Denotes defined .comparison ts v →
      o.is .bangEquals = true → Denotes defined .negation us w →
      Denotes defined .comparison (ts ++ o :: us) (v != w)
  | comparison {ts : List Token} {v : Bool} : Denotes defined .comparison ts v →
      Denotes defined .conjunction ts v
  | and {o : Token} {ts us : List Token} {v w : Bool} : Denotes defined .conjunction ts v →
      o.is .ampersandAmpersand = true → Denotes defined .comparison us w →
      Denotes defined .conjunction (ts ++ o :: us) (v && w)
  | conjunction {ts : List Token} {v : Bool} : Denotes defined .conjunction ts v →
      Denotes defined .disjunction ts v
  | or {o : Token} {ts us : List Token} {v w : Bool} : Denotes defined .disjunction ts v →
      o.is .barBar = true → Denotes defined .conjunction us w →
      Denotes defined .disjunction (ts ++ o :: us) (v || w)

/-- Some condition of the level begins with the tokens. -/
def Viable (defined : String → Bool) (level : Level) (ts : List Token) : Prop :=
  ∃ us v, Denotes defined level (ts ++ us) v

/-! ### Readers -/

/-- The reading of a condition of a level, where `inner` reads what is inside of parentheses. -/
def reader (symbols : List String) (inner : List Token → Verdict) : Level → List Token → Verdict
  | .primary => Condition.primary symbols inner
  | .negation => unary symbols inner
  | .comparison => joined (unary symbols inner) comparison?
  | .conjunction => joined (joined (unary symbols inner) comparison?) conjunction?
  | .disjunction =>
    joined (joined (joined (unary symbols inner) comparison?) conjunction?) disjunction?

/-- What is left to do at a level behind an operand with the value: up to `limit` more operands. -/
def following (symbols : List String) (inner : List Token → Verdict) (limit : Nat) (holds : Bool)
    (rest : List Token) : Level → Verdict
  | .primary | .negation => .value holds rest
  | .comparison => chain (unary symbols inner) comparison? limit holds rest
  | .conjunction => chain (reader symbols inner .comparison) conjunction? limit holds rest
  | .disjunction => chain (reader symbols inner .conjunction) disjunction? limit holds rest

/-- No operator of a lower level comes first. -/
def Level.EndsBefore (rest : List Token) : Level → Prop
  | .primary | .negation | .comparison => True
  | .conjunction => ∀ t ∈ rest.head?, comparison? t = none
  | .disjunction => ∀ t ∈ rest.head?, comparison? t = none ∧ conjunction? t = none

/-- No operator of the level or of a lower one comes first. -/
def Level.Closes (rest : List Token) : Level → Prop
  | .primary | .negation => True
  | .comparison => ∀ t ∈ rest.head?, comparison? t = none
  | .conjunction => ∀ t ∈ rest.head?, comparison? t = none ∧ conjunction? t = none
  | .disjunction =>
    ∀ t ∈ rest.head?, comparison? t = none ∧ conjunction? t = none ∧ disjunction? t = none

/-- At the level the operators join operands of the level below. -/
inductive Joins :
    (level operand : Level) → (operator? : Token → Option (Bool → Bool → Bool)) → Prop where
  | comparison : Joins .comparison .negation comparison?
  | conjunction : Joins .conjunction .comparison conjunction?
  | disjunction : Joins .disjunction .conjunction disjunction?

section

variable {symbols : List String} {inner operand : List Token → Verdict} {t : Token}
  {operator? : Token → Option (Bool → Bool → Bool)}

theorem chain_of_none {rest : List Token} (h : ∀ t ∈ rest.head?, operator? t = none) (limit : Nat)
    (holds : Bool) : chain operand operator? limit holds rest = .value holds rest := by
  cases limit with
  | zero => rfl
  | succ limit =>
    cases rest with
    | nil => rfl
    | cons t rest =>
      rw [chain]
      simp [h t rfl]

theorem joined_of_value {ts rest : List Token} {holds : Bool}
    (h : operand ts = .value holds rest) :
    joined operand operator? ts = chain operand operator? rest.length holds rest := by
  simp [joined, h]

/-- A further operand behind its operator. -/
theorem chain_of_some {combine : Bool → Bool → Bool} {vs rest : List Token} {limit : Nat}
    {right : Bool} (left : Bool) (hlimit : (t :: vs).length ≤ limit)
    (ht : operator? t = some combine) (hoperand : operand vs = .value right rest)
    (hrest : rest.length ≤ vs.length) :
    ∃ n, rest.length ≤ n ∧
      chain operand operator? limit left (t :: vs) =
        chain operand operator? n (combine left right) rest := by
  cases limit with
  | zero => simp at hlimit
  | succ limit =>
    refine ⟨limit, ?_, ?_⟩
    · rw [List.length_cons] at hlimit
      omega
    · rw [chain]
      simp [ht, hoperand]

/-- An operator behind which no operand can be read. -/
theorem chain_of_invalid {combine : Bool → Bool → Bool} {vs : List Token} {limit : Nat}
    {offender : Option Token} (left : Bool) (hlimit : (t :: vs).length ≤ limit)
    (ht : operator? t = some combine) (hoperand : operand vs = .invalid offender) :
    chain operand operator? limit left (t :: vs) = .invalid offender := by
  cases limit with
  | zero => simp at hlimit
  | succ limit =>
    rw [chain]
    simp [ht, hoperand]

end

/-! ### Levels with operators -/

namespace Joins

variable {level operand : Level} {operator? : Token → Option (Bool → Bool → Bool)}
  {defined : String → Bool} {rest ts us : List Token} {v w : Bool}

theorem reader_eq (h : Joins level operand operator?) (symbols : List String)
    (inner : List Token → Verdict) :
    reader symbols inner level = joined (reader symbols inner operand) operator? := by
  cases h <;> rfl

theorem following_eq (h : Joins level operand operator?) (symbols : List String)
    (inner : List Token → Verdict) (limit : Nat) (holds : Bool) (rest : List Token) :
    following symbols inner limit holds rest level =
      chain (reader symbols inner operand) operator? limit holds rest := by
  cases h <;> rfl

theorem endsBefore_iff (h : Joins level operand operator?) :
    level.EndsBefore rest ↔ operand.Closes rest := by
  cases h <;> rfl

theorem closes_iff (h : Joins level operand operator?) :
    level.Closes rest ↔ operand.Closes rest ∧ ∀ t ∈ rest.head?, operator? t = none := by
  cases h <;> simp [Level.Closes, ← forall_and, and_assoc]

/-- A token is an operator of one level only. -/
theorem closes_of_some (h : Joins level operand operator?) {t : Token}
    {combine : Bool → Bool → Bool} (ht : operator? t = some combine) (us : List Token) :
    operand.Closes (t :: us) := by
  cases h with
  | comparison => trivial
  | conjunction =>
    rintro t ⟨⟩
    simp only [conjunction?, Option.ite_none_right_eq_some, Token.is, beq_iff_eq] at ht
    simp [comparison?, Token.is, ht.1]
  | disjunction =>
    rintro t ⟨⟩
    simp only [disjunction?, Option.ite_none_right_eq_some, Token.is, beq_iff_eq] at ht
    simp [comparison?, conjunction?, Token.is, ht.1]

/-- An operand is a condition of the level. -/
theorem denotes (h : Joins level operand operator?) (hts : Denotes defined operand ts v) :
    Denotes defined level ts v := by
  cases h with
  | comparison => exact .negation hts
  | conjunction => exact .comparison hts
  | disjunction => exact .conjunction hts

/-- A condition of the level goes on with an operator and an operand. -/
theorem denotes_join (h : Joins level operand operator?) {t : Token}
    {combine : Bool → Bool → Bool} (hts : Denotes defined level ts v)
    (ht : operator? t = some combine) (hus : Denotes defined operand us w) :
    Denotes defined level (ts ++ t :: us) (combine v w) := by
  cases h with
  | comparison =>
    unfold comparison? at ht
    split at ht
    · next heq =>
      cases ht
      exact .equal hts heq hus
    · rw [Option.ite_none_right_eq_some] at ht
      obtain ⟨hne, heq⟩ := ht
      cases heq
      exact .unequal hts hne hus
  | conjunction =>
    rw [conjunction?, Option.ite_none_right_eq_some] at ht
    obtain ⟨hand, heq⟩ := ht
    cases heq
    exact .and hts hand hus
  | disjunction =>
    rw [disjunction?, Option.ite_none_right_eq_some] at ht
    obtain ⟨hor, heq⟩ := ht
    cases heq
    exact .or hts hor hus

end Joins

/-! ### Conditions are read to their ends -/

/-- The tokens are read as a condition of the level with the value, in front of anything that does
not go on with it at a lower level. -/
def Reads (symbols : List String) (level : Level) (ts : List Token) (holds : Bool) : Prop :=
  ∀ ⦃depth : Nat⦄ ⦃rest : List Token⦄, ts.length ≤ depth → level.EndsBefore rest →
    ∃ limit, rest.length ≤ limit ∧
      reader symbols (readWithin symbols depth) level (ts ++ rest) =
        following symbols (readWithin symbols depth) limit holds rest level

namespace Reads

variable {symbols : List String} {level operand : Level} {ts us rest : List Token} {v w : Bool}
  {operator? : Token → Option (Bool → Bool → Bool)} {depth : Nat}

/-- Nothing is left to do in front of what does not go on with the condition. -/
theorem reader_eq (h : Reads symbols level ts v) (hdepth : ts.length ≤ depth)
    (hrest : level.Closes rest) :
    reader symbols (readWithin symbols depth) level (ts ++ rest) = .value v rest := by
  cases level with
  | primary | negation =>
    obtain ⟨limit, -, hread⟩ := @h depth rest hdepth trivial
    exact hread
  | comparison =>
    obtain ⟨limit, -, hread⟩ := @h depth rest hdepth trivial
    rwa [following, chain_of_none hrest] at hread
  | conjunction =>
    obtain ⟨limit, -, hread⟩ := @h depth rest hdepth fun t ht ↦ (hrest t ht).1
    rwa [following, chain_of_none fun t ht ↦ (hrest t ht).2] at hread
  | disjunction =>
    obtain ⟨limit, -, hread⟩ := @h depth rest hdepth fun t ht ↦
      ⟨(hrest t ht).1, (hrest t ht).2.1⟩
    rwa [following, chain_of_none fun t ht ↦ (hrest t ht).2.2] at hread

theorem of_operand (hlevel : Joins level operand operator?) (h : Reads symbols operand ts v) :
    Reads symbols level ts v := by
  intro depth rest hdepth hrest
  have hread := h.reader_eq hdepth (hlevel.endsBefore_iff.1 hrest)
  refine ⟨_, Nat.le_refl _, ?_⟩
  rw [hlevel.reader_eq, joined_of_value hread, hlevel.following_eq]

/-- What is left to do behind the first operands begins with the operator. -/
theorem join (hlevel : Joins level operand operator?) {t : Token} {combine : Bool → Bool → Bool}
    (hts : Reads symbols level ts v) (ht : operator? t = some combine)
    (hus : Reads symbols operand us w) : Reads symbols level (ts ++ t :: us) (combine v w) := by
  intro depth rest hdepth hrest
  rw [List.length_append, List.length_cons] at hdepth
  have hoperator := hlevel.endsBefore_iff.2 (hlevel.closes_of_some ht (us ++ rest))
  obtain ⟨limit, hlimit, hleft⟩ := hts (Nat.le_trans (Nat.le_add_right _ _) hdepth) hoperator
  have hdepth' : us.length ≤ depth := by omega
  have hright := hus.reader_eq hdepth' (hlevel.endsBefore_iff.1 hrest)
  obtain ⟨n, hn, hchain⟩ := chain_of_some v hlimit ht hright (by simp)
  refine ⟨n, hn, ?_⟩
  rw [List.append_assoc, List.cons_append, hleft, hlevel.following_eq, hchain, hlevel.following_eq]

end Reads

section

variable {symbols : List String} {level operand : Level} {o : Token} {ts us rest : List Token}
  {v w : Bool} {operator? : Token → Option (Bool → Bool → Bool)} {next : Option Token} {depth : Nat}

/-! ### Primaries and negations -/

/-- What a primary begins with is no sign of negation. -/
theorem Denotes.exists_head {defined : String → Bool} (h : Denotes defined .primary ts v) :
    ∃ t us, ts = t :: us ∧ t.is .bang = false := by
  cases h with
  | trueWord ht | falseWord ht | symbol ht =>
    refine ⟨_, _, rfl, ?_⟩
    simp_all [Token.is, Token.isWord, Token.isIdentifier]
  | parentheses ho _ _ =>
    refine ⟨_, _, rfl, ?_⟩
    simp_all [Token.is]

/-- At the end of the line nothing is left to go on with. -/
theorem closes_nil (level : Level) : level.Closes [] := by
  cases level <;> simp [Level.Closes]

/-- A closing parenthesis goes on with no condition. -/
theorem closes_closeParen {c : Token} (hc : c.is .closeParen = true) (level : Level)
    (rest : List Token) : level.Closes (c :: rest) := by
  have hkind : c.kind = .symbol .closeParen := by simpa [Token.is] using hc
  cases level <;>
    simp [Level.Closes, comparison?, conjunction?, disjunction?, Token.is, hkind]

/-- Behind an opening parenthesis a condition is read, one level of parentheses further in. -/
theorem reader_openParen (ho : o.is .openParen = true) (us : List Token) :
    reader symbols (readWithin symbols (depth + 1)) .primary (o :: us) =
      match reader symbols (readWithin symbols depth) .disjunction us with
      | .invalid offender => .invalid offender
      | .value _ [] => .invalid none
      | .value holds (close :: rest) =>
        if close.is .closeParen then .value holds rest else .invalid (some close) := by
  have hkind : o.kind = .symbol .openParen := by simpa [Token.is] using ho
  have hword (k : Keyword) : o.isWord k = false := by simp [Token.isWord, hkind]
  have hname : o.isIdentifier = false := by simp [Token.isIdentifier, hkind]
  have hinner : readWithin symbols (depth + 1) us =
      reader symbols (readWithin symbols depth) .disjunction us := rfl
  simp only [reader, Condition.primary, hword, hname, ho, Bool.false_eq_true, if_false, if_true]
    at hinner ⊢
  rw [hinner]
  generalize joined _ _ us = verdict
  rcases verdict with ⟨holds, _ | ⟨close, rest⟩⟩ | offender <;> rfl

theorem reader_not (ho : o.is .bang = true) (inner : List Token → Verdict) (us : List Token) :
    reader symbols inner .negation (o :: us) = (reader symbols inner .negation us).negate :=
  if_pos ho

theorem reader_negation (h : ∀ t ∈ ts.head?, t.is .bang = false) (inner : List Token → Verdict) :
    reader symbols inner .negation ts = reader symbols inner .primary ts := by
  cases ts with
  | nil => rfl
  | cons t ts =>
    exact if_neg (Bool.eq_false_iff.1 (h t rfl))

/-- Every condition is read to its end. -/
theorem Denotes.reads (h : Denotes symbols.contains level ts v) : Reads symbols level ts v := by
  induction h with
  | @trueWord t ht =>
    intro depth rest _ _
    exact ⟨_, Nat.le_refl _, by simp [reader, Condition.primary, following, ht]⟩
  | @falseWord t ht =>
    intro depth rest _ _
    have hkind : t.kind = .keyword .falseWord := by simpa [Token.isWord] using ht
    exact ⟨_, Nat.le_refl _, by simp [reader, Condition.primary, following, Token.isWord, hkind]⟩
  | @symbol t ht =>
    intro depth rest _ _
    have hkind : t.kind = .identifier := by simpa [Token.isIdentifier] using ht
    refine ⟨_, Nat.le_refl _, ?_⟩
    simp [reader, Condition.primary, following, Token.isWord, Token.isIdentifier, hkind]
  | @parentheses o c ts v ho _ hc ih =>
    intro depth rest hdepth _
    obtain ⟨depth, rfl⟩ : ∃ n, depth = n + 1 := Nat.exists_eq_add_one.2 (by
      simp only [List.length_cons] at hdepth
      omega)
    have hinside : ts.length ≤ depth := by
      simp only [List.length_cons, List.length_append] at hdepth
      omega
    have hinner := ih.reader_eq hinside (closes_closeParen hc .disjunction rest)
    refine ⟨_, Nat.le_refl _, ?_⟩
    rw [List.cons_append, List.append_assoc, List.singleton_append, reader_openParen ho, hinner]
    simp [hc, following]
  | primary hts ih =>
    intro depth rest hdepth _
    obtain ⟨t, us, rfl, ht⟩ := hts.exists_head
    rw [reader_negation (by simp [ht])]
    exact ih hdepth trivial
  | not ho _ ih =>
    intro depth rest hdepth _
    have hcloses : Level.negation.Closes rest := trivial
    have hread := ih.reader_eq (Nat.le_of_succ_le hdepth) hcloses
    exact ⟨_, Nat.le_refl _, by rw [List.cons_append, reader_not ho, hread]; rfl⟩
  | negation _ ih => exact ih.of_operand .comparison
  | comparison _ ih => exact ih.of_operand .conjunction
  | conjunction _ ih => exact ih.of_operand .disjunction
  | equal _ ho _ ihl ihr => exact ihl.join .comparison (if_pos ho) ihr
  | @unequal o _ _ _ _ _ ho _ ihl ihr =>
    have hkind : o.kind = .symbol .bangEquals := by simpa [Token.is] using ho
    exact ihl.join .comparison (by simp [comparison?, Token.is, hkind]) ihr
  | and _ ho _ ihl ihr => exact ihl.join .conjunction (if_pos ho) ihr
  | or _ ho _ ihl ihr => exact ihl.join .disjunction (if_pos ho) ihr

/-! ### Where reading halts -/

/-- A condition of the level may begin with the tokens, but they do not make one. Reading halts
behind them, at the next token or at the end, whatever comes later. -/
structure Halts (symbols : List String) (level : Level) (ts : List Token) (next : Option Token) :
    Prop where
  viable : Viable symbols.contains level ts
  reader_eq : ∀ ⦃depth : Nat⦄ ⦃rest : List Token⦄, ts.length ≤ depth →
    (∀ t ∈ rest.head?, t ∈ next) →
      reader symbols (readWithin symbols depth) level (ts ++ rest) = .invalid rest.head?

namespace Halts

/-- Nothing that a primary may begin with comes next. -/
theorem nil (h : ∀ t ∈ next, t.isWord .trueWord = false ∧ t.isWord .falseWord = false ∧
    t.isIdentifier = false ∧ t.is .openParen = false) : Halts symbols .primary [] next where
  viable := ⟨[⟨.keyword .trueWord, "true", none, .point .first, false, []⟩], true, .trueWord rfl⟩
  reader_eq depth rest _ hrest := by
    cases rest with
    | nil => rfl
    | cons t rest =>
      obtain ⟨htrue, hfalse, hname, hopen⟩ := h t (hrest t rfl)
      simp [reader, Condition.primary, htrue, hfalse, hname, hopen]

/-- What is inside of parentheses halts. -/
theorem parentheses (ho : o.is .openParen = true) (h : Halts symbols .disjunction ts next) :
    Halts symbols .primary (o :: ts) next where
  viable := by
    obtain ⟨us, v, hv⟩ := h.viable
    refine ⟨us ++ [⟨.symbol .closeParen, ")", none, .point .first, false, []⟩], v, ?_⟩
    rw [List.cons_append, ← List.append_assoc]
    exact .parentheses ho hv rfl
  reader_eq depth rest hdepth hrest := by
    obtain ⟨depth, rfl⟩ : ∃ n, depth = n + 1 := Nat.exists_eq_add_one.2 (Nat.zero_lt_of_lt hdepth)
    rw [List.cons_append, reader_openParen ho, h.reader_eq (Nat.le_of_succ_le_succ hdepth) hrest]

/-- What is inside of parentheses ends, but no closing parenthesis follows. -/
theorem unclosed (ho : o.is .openParen = true) (h : Denotes symbols.contains .disjunction ts v)
    (hrest : Level.disjunction.Closes rest) (hnext : ∀ t ∈ rest.head?, t.is .closeParen = false) :
    Halts symbols .primary (o :: ts) rest.head? where
  viable := by
    refine ⟨[⟨.symbol .closeParen, ")", none, .point .first, false, []⟩], v, ?_⟩
    exact .parentheses ho h rfl
  reader_eq depth us hdepth hus := by
    obtain ⟨depth, rfl⟩ : ∃ n, depth = n + 1 := Nat.exists_eq_add_one.2 (Nat.zero_lt_of_lt hdepth)
    have hcloses : Level.disjunction.Closes us := fun t ht ↦ hrest t (hus t ht)
    rw [List.cons_append, reader_openParen ho,
      h.reads.reader_eq (Nat.le_of_succ_le_succ hdepth) hcloses]
    cases us with
    | nil => rfl
    | cons c us => simp [hnext c (hus c rfl)]

theorem primary (h : Halts symbols .primary ts rest.head?)
    (hnot : ∀ t ∈ (ts ++ rest).head?, t.is .bang = false) :
    Halts symbols .negation ts rest.head? where
  viable := by
    obtain ⟨us, v, hv⟩ := h.viable
    exact ⟨us, v, .primary hv⟩
  reader_eq depth us hdepth hus := by
    rw [reader_negation, h.reader_eq hdepth hus]
    cases ts with
    | nil => exact fun t ht ↦ hnot t (hus t ht)
    | cons t ts => exact hnot

theorem not (ho : o.is .bang = true) (h : Halts symbols .negation ts next) :
    Halts symbols .negation (o :: ts) next where
  viable := by
    obtain ⟨us, v, hv⟩ := h.viable
    exact ⟨us, !v, .not ho hv⟩
  reader_eq depth rest hdepth hrest := by
    rw [List.cons_append, reader_not ho, h.reader_eq (Nat.le_of_succ_le hdepth) hrest]
    rfl

/-- The first operand halts. -/
theorem of_operand (hlevel : Joins level operand operator?) (h : Halts symbols operand ts next) :
    Halts symbols level ts next where
  viable := by
    obtain ⟨us, v, hv⟩ := h.viable
    exact ⟨us, v, hlevel.denotes hv⟩
  reader_eq depth rest hdepth hrest := by
    rw [hlevel.reader_eq, joined, h.reader_eq hdepth hrest]

/-- A further operand halts. -/
theorem join (hlevel : Joins level operand operator?) {t : Token} {combine : Bool → Bool → Bool}
    (hts : Denotes symbols.contains level ts v) (ht : operator? t = some combine)
    (hus : Halts symbols operand us next) : Halts symbols level (ts ++ t :: us) next where
  viable := by
    obtain ⟨vs, w, hw⟩ := hus.viable
    refine ⟨vs, combine v w, ?_⟩
    rw [List.append_assoc, List.cons_append]
    exact hlevel.denotes_join hts ht hw
  reader_eq depth rest hdepth hrest := by
    rw [List.length_append, List.length_cons] at hdepth
    have hoperator := hlevel.endsBefore_iff.2 (hlevel.closes_of_some ht (us ++ rest))
    obtain ⟨limit, hlimit, hleft⟩ :=
      hts.reads (Nat.le_trans (Nat.le_add_right _ _) hdepth) hoperator
    have hdepth' : us.length ≤ depth := by omega
    rw [List.append_assoc, List.cons_append, hleft, hlevel.following_eq,
      chain_of_invalid v hlimit ht (hus.reader_eq hdepth' hrest)]

end Halts

/-! ### Every reading ends or halts -/

/-- The tokens begin with a condition of the level that nothing goes on with, or reading halts
behind some of them. -/
def Settles (symbols : List String) (level : Level) (ts : List Token) : Prop :=
  ∃ us rest, ts = us ++ rest ∧
    ((∃ v, Denotes symbols.contains level us v ∧ level.Closes rest) ∨
      Halts symbols level us rest.head?)

namespace Settles

/-- Operands of the level below are read until no operator follows one of them. -/
theorem extend (hlevel : Joins level operand operator?) {n : Nat}
    (hoperand : ∀ us : List Token, us.length < n → Settles symbols operand us)
    (h : Denotes symbols.contains level ts v) (hrest : operand.Closes rest)
    (hn : rest.length ≤ n) : Settles symbols level (ts ++ rest) := by
  induction hlength : rest.length using Nat.strongRecOn generalizing ts rest v with
  | ind k ih =>
    cases rest with
    | nil => exact ⟨ts, [], rfl, .inl ⟨v, h, hlevel.closes_iff.2 ⟨hrest, by simp⟩⟩⟩
    | cons t us =>
      cases ht : operator? t with
      | none => exact ⟨ts, t :: us, rfl, .inl ⟨v, h, hlevel.closes_iff.2 ⟨hrest, by simp [ht]⟩⟩⟩
      | some combine =>
        rw [List.length_cons] at hn hlength
        obtain ⟨us, rest, rfl, ⟨w, hw, hcloses⟩ | hhalts⟩ := hoperand us (by omega)
        · rw [List.length_append] at hn hlength
          have happend : ts ++ t :: (us ++ rest) = ts ++ t :: us ++ rest := by simp
          rw [happend]
          exact ih rest.length (by omega) (hlevel.denotes_join h ht hw) hcloses (by omega) rfl
        · exact ⟨ts ++ t :: us, rest, by simp, .inr (.join hlevel h ht hhalts)⟩

theorem of_operand (hlevel : Joins level operand operator?)
    (hoperand : ∀ us : List Token, us.length < ts.length → Settles symbols operand us)
    (h : Settles symbols operand ts) : Settles symbols level ts := by
  obtain ⟨us, rest, rfl, ⟨v, hv, hcloses⟩ | hhalts⟩ := h
  · exact extend hlevel hoperand (hlevel.denotes hv) hcloses (by simp)
  · exact ⟨us, rest, rfl, .inr (.of_operand hlevel hhalts)⟩

theorem primary (hinner : ∀ us : List Token, us.length < ts.length →
    Settles symbols .disjunction us) : Settles symbols .primary ts := by
  cases ts with
  | nil => exact ⟨[], [], rfl, .inr (.nil (by simp))⟩
  | cons t ts =>
    by_cases htrue : t.isWord .trueWord = true
    · exact ⟨[t], ts, rfl, .inl ⟨true, .trueWord htrue, trivial⟩⟩
    by_cases hfalse : t.isWord .falseWord = true
    · exact ⟨[t], ts, rfl, .inl ⟨false, .falseWord hfalse, trivial⟩⟩
    by_cases hname : t.isIdentifier = true
    · exact ⟨[t], ts, rfl, .inl ⟨_, .symbol hname, trivial⟩⟩
    by_cases hopen : t.is .openParen = true
    · obtain ⟨us, rest, rfl, ⟨v, hv, hcloses⟩ | hhalts⟩ := hinner ts (Nat.lt_succ_self _)
      · by_cases hclose : ∃ c rest', rest = c :: rest' ∧ c.is .closeParen = true
        · obtain ⟨c, rest', rfl, hc⟩ := hclose
          exact ⟨t :: (us ++ [c]), rest', by simp, .inl ⟨v, .parentheses hopen hv hc, trivial⟩⟩
        · refine ⟨t :: us, rest, rfl, .inr (.unclosed hopen hv hcloses fun c hc ↦ ?_)⟩
          obtain ⟨rest', rfl⟩ := List.head?_eq_some_iff.1 hc
          exact Bool.eq_false_iff.2 fun hclosed ↦ hclose ⟨c, rest', rfl, hclosed⟩
      · exact ⟨t :: us, rest, rfl, .inr (.parentheses hopen hhalts)⟩
    · refine ⟨[], t :: ts, rfl, .inr (.nil ?_)⟩
      simp_all

theorem negation (hinner : ∀ us : List Token, us.length < ts.length →
    Settles symbols .negation us) (h : Settles symbols .primary ts) :
    Settles symbols .negation ts := by
  by_cases hnot : ∃ o us, ts = o :: us ∧ o.is .bang = true
  · obtain ⟨o, us, rfl, ho⟩ := hnot
    obtain ⟨us, rest, rfl, ⟨v, hv, -⟩ | hhalts⟩ := hinner us (Nat.lt_succ_self _)
    · exact ⟨o :: us, rest, rfl, .inl ⟨!v, .not ho hv, trivial⟩⟩
    · exact ⟨o :: us, rest, rfl, .inr (.not ho hhalts)⟩
  · obtain ⟨us, rest, rfl, ⟨v, hv, -⟩ | hhalts⟩ := h
    · exact ⟨us, rest, rfl, .inl ⟨v, .primary hv, trivial⟩⟩
    · refine ⟨us, rest, rfl, .inr (.primary hhalts fun t ht ↦ ?_)⟩
      obtain ⟨ts, heq⟩ := List.head?_eq_some_iff.1 ht
      exact Bool.eq_false_iff.2 fun hbang ↦ hnot ⟨t, ts, heq, hbang⟩

end Settles

/-- Whatever the tokens, reading a condition of any level ends or halts. -/
theorem settles (symbols : List String) (level : Level) (ts : List Token) :
    Settles symbols level ts := by
  induction hn : ts.length using Nat.strongRecOn generalizing level ts with
  | ind n ih =>
    have hshorter (level : Level) (us : List Token) (hus : us.length < ts.length) :
        Settles symbols level us := ih us.length (hn ▸ hus) level us rfl
    have hprimary : Settles symbols .primary ts := .primary (hshorter .disjunction)
    have hnegation : Settles symbols .negation ts := .negation (hshorter .negation) hprimary
    have hcomparison : Settles symbols .comparison ts :=
      .of_operand .comparison (hshorter .negation) hnegation
    have hconjunction : Settles symbols .conjunction ts :=
      .of_operand .conjunction (hshorter .comparison) hcomparison
    cases level with
    | primary => exact hprimary
    | negation => exact hnegation
    | comparison => exact hcomparison
    | conjunction => exact hconjunction
    | disjunction => exact .of_operand .disjunction (hshorter .conjunction) hconjunction

end

end CSharpCheck.Condition
