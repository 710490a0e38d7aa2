import CSharpCheck.Grammar.Expression
import CSharpCheck.Proofs.Core.Lookahead

/-!
# Decisions by looking ahead

Nothing in an expression looks like a cast or a lambda. Type arguments of a name are those that a
parenthesis follows, and parentheses that seem to hold a declaration hold a product, or names that
have type arguments.
-/

namespace CSharpCheck.Core

/-! ### Casts -/

/-- Dotted names show no sign of a type. -/
theorem isTypeOnly_dotted_append {ds : List Token} (h : Dotted ds) (us : Ahead) :
    Ahead.isTypeOnly (ds ++ us) = Ahead.isTypeOnly us := by
  have hname {x : Token} (hx : x.kind = .identifier) (ts : Ahead) :
      Ahead.hasTypeSigns true 0 (x :: ts) = Ahead.hasTypeSigns true 0 ts := by
    simp [Ahead.hasTypeSigns, Token.is, Token.namesType, Token.isOneOf, Token.isWord, hx]
  have hmore {ts : List Token} (hts : MoreNames [.dot] ts) :
      Ahead.hasTypeSigns true 0 (ts ++ us) = Ahead.hasTypeSigns true 0 us := by
    induction hts with
    | nil => rfl
    | @cons d x ts hd hx _ ih =>
      obtain ⟨s, hs, hd⟩ := hd
      obtain rfl : s = .dot := by simpa using hs
      have hdot : Ahead.hasTypeSigns true 0 (d :: x :: (ts ++ us)) =
          Ahead.hasTypeSigns true 0 (x :: (ts ++ us)) := by
        simp [Ahead.hasTypeSigns, Token.is, Token.namesType, Token.isOneOf, Token.isWord, hd]
      rw [List.cons_append, List.cons_append, hdot, hname hx, ih]
  cases h with
  | mk hx hds =>
    rw [List.cons_append, Ahead.isTypeOnly, hname hx]
    exact hmore hds

theorem isTypeOnly_of_dotted {ds : List Token} (h : Dotted ds) : Ahead.isTypeOnly ds = false := by
  have happend := isTypeOnly_dotted_append h []
  rwa [List.append_nil] at happend

namespace Site

variable {S : Site} {ts us : Ahead} {open_ : List Enclosure} {l : Level} {outer : List Level}

theorem finds_typeScan (h : S.Runs ⟨.operand, open_⟩ ts) :
    S.Finds open_ (ts.typeScan false) 0 ts :=
  S.findsTypes_typeWithin _ open_ 0 ts h

/-- A type that ends in front of an operand is told by what it ends with. -/
theorem exists_of_typeEnd (h : S.Runs ⟨.operand, open_⟩ ts) {stop : Nat}
    (hstop : ts.typeEnd = some stop) :
    ∃ taken rest, ts = taken ++ rest ∧ stop = taken.length ∧
      S.TypeAhead open_ taken rest (ts.typeScan false).uses := by
  obtain ⟨taken, rest, hts, hlength, htype⟩ := finds_typeScan h stop hstop
  exact ⟨taken, rest, hts, by omega, htype⟩

/-- Behind a parenthesised expression there is nothing that a cast could be applied to. -/
theorem Runs.followsCast (h : S.Runs ⟨.behind false, open_⟩ ts) :
    ts.head?.any (·.followsCast) = false := by
  obtain ⟨d, hbehind⟩ := h.behind
  cases ts with
  | nil => rfl
  | cons t us =>
    obtain ⟨s, hs, ht⟩ := hbehind.head t rfl
    have hparen : s ≠ .openParen := by
      rintro rfl
      obtain ⟨next, hnext, -⟩ := h.next_behind ht (.inl (by decide))
      cases hnext
    have hbang : s ≠ .bang := by
      rintro rfl
      simp [behindSymbols, infixSymbols] at hs
    have htilde : s ≠ .tilde := by
      rintro rfl
      simp [behindSymbols, infixSymbols] at hs
    simp [Token.followsCast, Token.isIdentifier, Token.isLiteral, Token.namesType, Token.isWordOf,
      Token.isOneOf, ht, hparen, hbang, htilde]

/-- No parenthesis begins a cast. -/
theorem isCast_eq_false {t : Token} (h : S.Runs ⟨.operand, .parentheses :: open_⟩ us) :
    Ahead.isCast (t :: us) = false := by
  unfold Ahead.isCast
  simp only [List.drop_succ_cons, List.drop_zero]
  split
  · rfl
  · next stop hstop =>
    obtain ⟨taken, rest, rfl, rfl, htype⟩ := exists_of_typeEnd h hstop
    rw [List.drop_left, List.take_left]
    split
    · rfl
    · next close following =>
      cases hclose : close.is .closeParen with
      | false => rfl
      | true =>
        have hnot {o : List Enclosure} (hruns : S.Runs ⟨.operand, o⟩ (close :: following)) :
            False := by
          have hfalse := hruns.is_before (s := .closeParen) (by decide)
          simp [Ahead.is, hclose] at hfalse
        cases htype with
        | nullable _ _ hruns => exact absurd hruns hnot
        | pointer _ _ hruns _ => exact absurd hruns hnot
        | generic _ _ _ _ hruns => exact absurd hruns hnot
        | name hds hruns =>
          have hk : close.kind = .symbol .closeParen := by simpa [Token.is] using hclose
          obtain ⟨d, hbehind⟩ := hruns.behind
          have hfollowing : S.Runs ⟨.behind false, open_⟩ following := by
            cases hbehind with
            | closeParen _ henclosure hus =>
              rcases henclosure with ⟨-, rfl⟩ | ⟨hcall, -⟩
              · exact hus.of_deep
              · contradiction
            | operation ht hs =>
              rw [hk] at ht
              cases ht
              simp [infixSymbols] at hs
            | member ht | call ht | index ht | assignment ht | question ht | comma ht =>
              rw [hk] at ht
              cases ht
            | typeArguments _ ht =>
              rw [hk] at ht
              cases ht
          simp [isTypeOnly_of_dotted hds, hfollowing.followsCast]

/-! ### Lambdas -/

/-- Without an arrow there is no lambda. -/
theorem isLambda_eq_false (hplain : Plain S.allowed ts) (hbracket : ts.is .openBracket = false) :
    ts.isLambda = false := by
  have harrow {us : Ahead} (hus : us <:+ ts) : us.is .fatArrow = false := by
    rw [Bool.eq_false_iff]
    intro h
    obtain ⟨t, vs, rfl, ht⟩ := is_eq_true_iff.1 h
    exact hplain.arrow t (hus.subset List.mem_cons_self) ht
  have hmodifiers (us : Ahead) : Ahead.afterLambdaModifiers us <:+ us := by
    induction us with
    | nil => exact List.suffix_refl _
    | cons t us ih =>
      rw [Ahead.afterLambdaModifiers]
      split
      · exact ih.trans (List.suffix_cons t us)
      · exact List.suffix_refl _
  have hparameters {us : Ahead} (hus : us <:+ ts) : us.isLambdaParameters = false := by
    unfold Ahead.isLambdaParameters
    split
    · rfl
    · exact harrow ((List.drop_suffix _ _).trans hus)
  have hsections : ts.attributeSections = some 0 := by
    rw [Ahead.attributeSections, hbracket]
    rfl
  unfold Ahead.isLambda
  rw [hsections]
  simp only [List.drop_zero]
  have hus := hmodifiers ts
  generalize Ahead.afterLambdaModifiers ts = us at hus
  have htail : us.tail.is .fatArrow = false := harrow ((List.drop_suffix 1 us).trans hus)
  rw [htail, Bool.and_false, hparameters hus]
  simp only [Bool.false_eq_true, if_false]
  split
  · rfl
  · split
    · rfl
    · rw [hparameters ((List.drop_suffix _ us).trans hus), Bool.and_false]

/-! ### Type arguments -/

/-- A list of dotted names is a dotted name, or one with a comma and a list behind it. -/
theorem exists_dotted_of_list {args : List Token} (h : DottedList args) :
    ∃ ds, Dotted ds ∧ (args = ds ∨
      ∃ c rest, args = ds ++ c :: rest ∧ c.kind = .symbol .comma ∧ DottedList rest) := by
  have hmore {ts : List Token} (hts : MoreNames [.dot, .comma] ts) :
      ∃ ds, MoreNames [.dot] ds ∧ (ts = ds ∨
        ∃ c rest, ts = ds ++ c :: rest ∧ c.kind = .symbol .comma ∧ DottedList rest) := by
    induction hts with
    | nil => exact ⟨[], .nil, .inl rfl⟩
    | @cons d x ts hd hx hts ih =>
      obtain ⟨s, hs, hd⟩ := hd
      rcases List.mem_cons.1 hs with rfl | hs
      · obtain ⟨ds, hds, rfl | ⟨c, rest, rfl, hc, hrest⟩⟩ := ih
        · exact ⟨_, .cons ⟨.dot, by simp, hd⟩ hx hds, .inl rfl⟩
        · exact ⟨_, .cons ⟨.dot, by simp, hd⟩ hx hds, .inr ⟨c, rest, rfl, hc, hrest⟩⟩
      · obtain rfl : s = .comma := by simpa using hs
        exact ⟨[], .nil, .inr ⟨d, x :: ts, rfl, hd, .mk hx hts⟩⟩
  cases h with
  | mk hx hts =>
    obtain ⟨ds, hds, rfl | ⟨c, rest, rfl, hc, hrest⟩⟩ := hmore hts
    · exact ⟨_, .mk hx hds, .inl rfl⟩
    · exact ⟨_, .mk hx hds, .inr ⟨c, rest, rfl, hc, hrest⟩⟩

/-- A type that begins with a dotted name goes on with the suffixes behind the name. -/
theorem typeWithin_dottedName_append {ds : List Token} (hds : Dotted ds) {us : Ahead}
    (hus : us.isOneOf [.colonColon, .dot, .less] = false) (inExpression : Bool) (room place : Nat) :
    typeWithin (room + 1) inExpression place (ds ++ us) =
      typeSuffixes inExpression (place + ds.length) us := by
  have hnot {s : Symbol} (hs : s ∈ [Symbol.colonColon, .dot, .less]) : us.is s = false :=
    is_eq_false_of_isOneOf hus hs
  cases hds with
  | @mk x ds hx hds =>
    obtain ⟨y, hy, heq⟩ := exists_qualifiedName_eq hx hds (typeWithin room false) place us
    rw [qualifiedName_of_not_less hy (hnot (by decide)) (hnot (by decide)) (hnot (by decide))] at heq
    have hstem : typeStem (typeWithin room false) place (x :: (ds ++ us)) =
        .done (place + ds.length + 1) := by
      rw [← heq]
      simp [typeStem, Ahead.is, Token.is, Token.namesType, Ahead.isWord, Token.isWord,
        Ahead.isIdentifier, Token.isIdentifier, hx]
    have hdrop : (x :: (ds ++ us)).drop (place + ds.length + 1 - place) = us := by
      rw [show place + ds.length + 1 - place = ds.length + 1 by omega, List.drop_succ_cons,
        List.drop_left]
    rw [typeWithin]
    simp only [List.cons_append, hstem, TypeScan.andThen, TypeScan.done, hdrop, TypeScan.after,
      List.length_cons]
    rfl

/-- A dotted name is a type if nothing comes behind it that goes on with a type. -/
theorem typeWithin_dottedName {ds : List Token} (hds : Dotted ds) {us : Ahead}
    (hus : us.isOneOf [.colonColon, .dot, .less, .question, .openBracket] = false)
    {inExpression : Bool} (hstar : us.is .star = true → inExpression = true) (room place : Nat) :
    typeWithin (room + 1) inExpression place (ds ++ us) = .done (place + ds.length) := by
  have hnot {s : Symbol} (hs : s ∈ [Symbol.colonColon, .dot, .less, .question, .openBracket]) :
      us.is s = false := is_eq_false_of_isOneOf hus hs
  have hname : us.isOneOf [.colonColon, .dot, .less] = false := by
    rw [Bool.eq_false_iff, ne_eq, isOneOf_eq_true_iff]
    rintro ⟨s, hs, his⟩
    have hall : ∀ s ∈ [Symbol.colonColon, .dot, .less],
        s ∈ [Symbol.colonColon, .dot, .less, .question, .openBracket] := by decide
    simp [hnot (hall s hs)] at his
  rw [typeWithin_dottedName_append hds hname]
  cases us with
  | nil => rw [typeSuffixes]
  | cons t us =>
    have hquestion : t.is .question = false := hnot (by decide)
    have hbracket : t.is .openBracket = false := hnot (by decide)
    have hpointer : (t.is .star && !inExpression) = false := by
      cases ht : t.is .star with
      | false => rfl
      | true => simp [hstar ht]
    rw [typeSuffixes]
    simp [hquestion, hpointer, hbracket]

/-- A dotted name that ends with a comma or a greater-than sign is a type. -/
theorem typeWithin_dotted {ds : List Token} (hds : Dotted ds) {t : Token}
    (ht : t.kind = .symbol .comma ∨ t.kind = .symbol .greater) (room place : Nat) (us : Ahead) :
    typeWithin (room + 1) false place (ds ++ t :: us) = .done (place + ds.length) := by
  refine typeWithin_dottedName hds ?_ (fun h ↦ ?_) room place
  · rcases ht with ht | ht <;> simp [Ahead.isOneOf, Token.isOneOf, ht]
  · rcases ht with ht | ht <;> simp [Ahead.is, Token.is, ht] at h

/-- Dotted names with commas between them are closed by a greater-than sign. -/
theorem typeList_dottedList {args : List Token} (hargs : DottedList args) {g : Token}
    (hg : g.kind = .symbol .greater) (room place : Nat) (us : Ahead) :
    typeList (typeWithin (room + 1) false) false place (args ++ g :: us) =
      .done (place + args.length + 1) := by
  induction hn : args.length using Nat.strongRecOn generalizing args place with
  | ind n ih =>
    obtain ⟨ds, hds, rfl | ⟨c, rest, rfl, hc, hrest⟩⟩ := exists_dotted_of_list hargs
    · have hitem := typeWithin_dotted hds (.inr hg) room place us
      have hstop : (typeWithin (room + 1) false place (args ++ g :: us)).stop =
          some (place + args.length) := by rw [hitem]; rfl
      rw [typeList_of_some hstop, Nat.add_sub_cancel_left, List.drop_left, hitem]
      simp [Token.is, hg, TypeScan.after, TypeScan.done, hn]
    · have hitem := typeWithin_dotted hds (.inl hc) room place (rest ++ g :: us)
      have hstop : (typeWithin (room + 1) false place (ds ++ c :: rest ++ g :: us)).stop =
          some (place + ds.length) := by
        rw [List.append_assoc, List.cons_append, hitem]
        rfl
      rw [typeList_of_some hstop, Nat.add_sub_cancel_left, List.append_assoc, List.drop_left,
        List.cons_append, hitem]
      have hlength : rest.length < n := by
        rw [← hn]
        simp only [List.length_append, List.length_cons]
        omega
      simp only [Token.is, hc, beq_self_eq_true, if_true, ih _ hlength hrest _ rfl, TypeScan.after,
        TypeScan.done, List.append_nil, ← hn, List.length_append, List.length_cons]
      congr 2
      omega

theorem closesTypeArguments_true {ks : List Kind}
    (h : Nesting.closesTypeArguments true ks = true) :
    ∃ ls, ks = .identifier :: ls ∧ Nesting.closesTypeArguments false ls = true := by
  unfold Nesting.closesTypeArguments at h
  split at h
  · exact ⟨_, rfl, h⟩
  all_goals contradiction

theorem closesTypeArguments_false {ks : List Kind}
    (h : Nesting.closesTypeArguments false ks = true) :
    (∃ s ls, ks = .symbol s :: ls ∧ (s = .dot ∨ s = .comma) ∧
      Nesting.closesTypeArguments true ls = true) ∨
      ∃ ls, ks = .symbol .greater :: .symbol .openParen :: ls := by
  unfold Nesting.closesTypeArguments at h
  split at h
  · contradiction
  · exact .inl ⟨_, _, rfl, .inl rfl, h⟩
  · exact .inl ⟨_, _, rfl, .inr rfl, h⟩
  · exact .inr ⟨_, rfl⟩
  · contradiction

/-- In type arguments a name is followed by what may follow one. -/
theorem Fits.typeArgument {e : Expected} (he : e = .operand ∨ e = .member)
    (h : S.Fits ⟨e, open_⟩ ⟨.typeArguments, l, outer⟩ us)
    (hcloses : Nesting.closesTypeArguments true (S.kinds us) = true) :
    ∃ x vs, us = x :: vs ∧ x.kind = .identifier ∧
      S.Fits ⟨.behind true, open_⟩ ⟨.typeArguments, l, outer⟩ vs ∧
      Nesting.closesTypeArguments false (S.kinds vs) = true := by
  obtain ⟨x, vs, next, rfl, hnext, hvs⟩ := h.step (by rcases he with rfl | rfl <;> simp)
  obtain ⟨ks, hks, hcloses⟩ := closesTypeArguments_true hcloses
  rw [kinds_cons hvs.suffix, List.cons.injEq] at hks
  obtain ⟨hx, rfl⟩ := hks
  rw [hx] at hnext hvs
  refine ⟨x, vs, rfl, hx, ?_, hcloses⟩
  rcases he with rfl | rfl <;> cases hnext <;> exact hvs

/-- Type arguments that are read as such have the parentheses of a call behind them. -/
theorem Fits.exists_typeArguments (h : S.Fits ⟨.operand, open_⟩ ⟨.typeArguments, l, outer⟩ us)
    (hcloses : Nesting.closesTypeArguments true (S.kinds us) = true) :
    ∃ args g p vs, us = args ++ g :: p :: vs ∧ DottedList args ∧ g.kind = .symbol .greater ∧
      p.kind = .symbol .openParen ∧
      S.Fits ⟨.operand, .parentheses :: open_⟩ ⟨.operand, ⟨0, 0⟩, l :: outer⟩ vs := by
  have hmore {us : Ahead} (h : S.Fits ⟨.behind true, open_⟩ ⟨.typeArguments, l, outer⟩ us)
      (hcloses : Nesting.closesTypeArguments false (S.kinds us) = true) :
      ∃ ts g p vs, us = ts ++ g :: p :: vs ∧ MoreNames [.dot, .comma] ts ∧
        g.kind = .symbol .greater ∧ p.kind = .symbol .openParen ∧
        S.Fits ⟨.operand, .parentheses :: open_⟩ ⟨.operand, ⟨0, 0⟩, l :: outer⟩ vs := by
    induction hn : us.length using Nat.strongRecOn generalizing us with
    | ind n ih =>
      have hrest : S.rest ≠ us := by
        rintro rfl
        rw [kinds_rest] at hcloses
        contradiction
      obtain ⟨t, vs, next, rfl, hnext, hvs⟩ := h.next hrest
      rcases closesTypeArguments_false hcloses with ⟨s, ks, hks, hs, hcloses⟩ | ⟨ks, hks⟩
      · rw [kinds_cons hvs.suffix, List.cons.injEq] at hks
        obtain ⟨ht, rfl⟩ := hks
        have hname : ∃ e, (e = .operand ∨ e = .member) ∧ next = ⟨e, open_⟩ := by
          rw [ht] at hnext
          rcases hs with rfl | rfl
          · cases hnext
            exact ⟨_, .inr rfl, rfl⟩
          · rcases open_ with - | ⟨e, outer⟩
            · cases hnext
            · cases e <;> cases hnext <;> exact ⟨_, .inl rfl, rfl⟩
        obtain ⟨e, he, rfl⟩ := hname
        have hstep : (Nesting.mk .typeArguments l outer).step t.kind (S.kinds vs) =
            ⟨.typeArguments, l, outer⟩ := by
          rw [ht]
          rcases hs with rfl | rfl <;> rfl
        rw [hstep] at hvs
        obtain ⟨x, ws, rfl, hx, hws, hcloses⟩ := hvs.typeArgument he hcloses
        obtain ⟨ts, g, p, zs, rfl, hts, hg, hp, hzs⟩ :=
          ih ws.length (by rw [← hn]; simp only [List.length_cons]; omega) hws hcloses rfl
        refine ⟨t :: x :: ts, g, p, zs, rfl, .cons ⟨s, ?_, ht⟩ hx hts, hg, hp, hzs⟩
        rcases hs with rfl | rfl <;> simp
      · rw [kinds_cons hvs.suffix, List.cons.injEq] at hks
        obtain ⟨ht, hks⟩ := hks
        rw [ht] at hnext hvs
        cases hnext
        obtain ⟨p, zs, next, rfl, hnext, hzs⟩ := hvs.step (by simp)
        rw [kinds_cons hzs.suffix, List.cons.injEq] at hks
        obtain ⟨hp, -⟩ := hks
        rw [hp] at hnext hzs
        have hopen : next = ⟨.operand, .parentheses :: open_⟩ := by
          simp only [Outline.step, Outline.operandStep] at hnext
          split at hnext
          · contradiction
          · exact (Option.some.inj hnext).symm
        subst hopen
        exact ⟨[], t, p, zs, rfl, .nil, ht, hp, hzs⟩
  obtain ⟨x, vs, rfl, hx, hvs, hcloses⟩ := h.typeArgument (.inl rfl) hcloses
  obtain ⟨ts, g, p, zs, rfl, hts, hg, hp, hzs⟩ := hmore hvs hcloses
  exact ⟨x :: ts, g, p, zs, rfl, .mk hx hts, hg, hp, hzs⟩

/-- A less-than sign behind a name opens type arguments if these are closed in front of a
parenthesis. -/
theorem Fits.less {c : Bool} {t : Token} (ht : t.kind = .symbol .less)
    (h : S.Fits ⟨.behind c, open_⟩ ⟨.name, l, outer⟩ (t :: us)) :
    if Nesting.closesTypeArguments true (S.kinds us) then
      S.Fits ⟨.operand, open_⟩ ⟨.typeArguments, l, outer⟩ us
    else S.Fits ⟨.operand, open_⟩ ⟨.operand, ⟨l.branches, 0⟩, outer⟩ us := by
  obtain ⟨next, hnext, hus⟩ := h.next_behind ht (.inl (by decide))
  cases hnext
  simp only [Nesting.step, Nesting.next] at hus
  split
  · next hcloses => rwa [if_pos hcloses] at hus
  · next hcloses => rwa [if_neg hcloses] at hus

/-- A list of type arguments is closed if a parenthesis comes behind the greater-than sign. -/
theorem closesTypeArguments_append {args : List Token} (hargs : DottedList args) {g : Token}
    (hg : g.kind = .symbol .greater) (ks : List Kind) :
    Nesting.closesTypeArguments true (args.map (·.kind) ++ g.kind :: ks) =
      (ks.head? == some (.symbol .openParen)) := by
  have hmore {ts : List Token} (hts : MoreNames [.dot, .comma] ts) :
      Nesting.closesTypeArguments false (ts.map (·.kind) ++ g.kind :: ks) =
        (ks.head? == some (.symbol .openParen)) := by
    induction hts with
    | nil =>
      rw [List.map_nil, List.nil_append, hg]
      cases ks with
      | nil => rfl
      | cons k ks =>
        by_cases hk : k = .symbol .openParen
        · simp [Nesting.closesTypeArguments, hk]
        · simp [Nesting.closesTypeArguments, hk]
    | cons hd hx _ ih =>
      obtain ⟨s, hs, hd⟩ := hd
      rw [List.map_cons, List.map_cons, hd, hx, List.cons_append, List.cons_append, ← ih]
      rcases List.mem_cons.1 hs with rfl | hs
      · rfl
      · obtain rfl : s = .comma := by simpa using hs
        rfl
  cases hargs with
  | mk hx hts =>
    rw [List.map_cons, hx, List.cons_append, ← hmore hts]
    rfl

/-- The kinds of type arguments and of what comes behind them. -/
theorem kinds_typeArguments {args : List Token} {g : Token} (h : S.rest <:+ ts) :
    S.kinds (args ++ g :: ts) = args.map (·.kind) ++ g.kind :: S.kinds ts := by
  rw [kinds_append (h.trans (List.suffix_cons g ts)), kinds_cons h]

/-- In front of an operand, the kind of the next token is that of the expression's next word. -/
theorem Runs.head?_kinds (h : S.Runs ⟨.operand, open_⟩ ts) :
    (S.kinds ts).head? = ts.head?.map (·.kind) := by
  obtain ⟨t, us, next, rfl, -, hus⟩ := (h.fits ⟨.operand, ⟨0, 0⟩, []⟩).step (by simp)
  rw [kinds_cons hus.of_deep.suffix]
  rfl

/-- A less-than sign behind a name is an operator unless type arguments and a parenthesis come
behind it. -/
theorem Runs.expressionArgumentsEnd {t : Token} (h : S.Runs ⟨.operand, open_⟩ us)
    (hcloses : Nesting.closesTypeArguments true (S.kinds us) = false) :
    Ahead.expressionArgumentsEnd (t :: us) = none := by
  unfold Ahead.expressionArgumentsEnd
  split
  · rfl
  · next stop hstop =>
    rw [Ahead.argumentsEnd, Ahead.argumentScan, typeArguments_eq h] at hstop
    obtain ⟨args, g, rest, rfl, hargs, hg, hrest, rfl, -⟩ :=
      exists_of_typeList (S.findsTypes_typeWithin maxTypeDepth) h hstop
    have hdrop : (t :: (args ++ g :: rest)).drop (0 + 1 + args.length + 1) = rest := by
      rw [show 0 + 1 + args.length + 1 = (t :: (args ++ [g])).length by simp; omega]
      simp
    obtain ⟨d, hbefore⟩ := hrest.before
    obtain ⟨u, vs, rfl, hu⟩ := hbefore.exists_head
    rw [kinds_typeArguments hrest.suffix, closesTypeArguments_append hargs hg,
      hrest.head?_kinds] at hcloses
    simp only [hdrop]
    have hnot : u.kind ≠ .symbol .openParen := by simpa using hcloses
    rcases hu with hu | hu | ⟨s, hs, hu⟩
    · simp [Ahead.isKind, Ahead.isOneOf, Token.isOneOf, hu]
    · unfold isAtom at hu
      split at hu
      case h_8 => contradiction
      all_goals
        next hk => simp [Ahead.isKind, Ahead.isOneOf, Token.isOneOf, hk]
    · have hfollow : s ∉ Ahead.genericFollow := by
        revert hs hnot
        rw [hu]
        cases s <;> decide
      simpa [Ahead.isKind, Ahead.isOneOf, Token.isOneOf, hu] using hfollow

/-! ### Declarations in parentheses -/

/-- A dotted name, a star, a name and a closing parenthesis are a product. -/
theorem startsProduct_dotted {ds : List Token} (hds : Dotted ds) {t n c : Token}
    (ht : t.kind = .symbol .star) (hn : n.kind = .identifier) (hc : c.kind = .symbol .closeParen)
    (ks : List Kind) :
    startsProduct true (ds.map (·.kind) ++ t.kind :: n.kind :: c.kind :: ks) = true := by
  have hmore {ts : List Token} (hts : MoreNames [.dot] ts) :
      startsProduct false (ts.map (·.kind) ++ t.kind :: n.kind :: c.kind :: ks) = true := by
    induction hts with
    | nil =>
      rw [ht, hn, hc]
      rfl
    | cons hd hx _ ih =>
      obtain ⟨s, hs, hd⟩ := hd
      obtain rfl : s = .dot := by simpa using hs
      rw [List.map_cons, List.map_cons, hd, hx, List.cons_append, List.cons_append, ← ih]
      rfl
  cases hds with
  | mk hx hts =>
    rw [List.map_cons, hx, List.cons_append]
    exact hmore hts

/-- Behind an operator comes the next operand. -/
theorem Fits.operator {c : Bool} {p : Place} (hp : p = .name ∨ p = .value) {t : Token} {s : Symbol}
    (ht : t.kind = .symbol s) (hs : s ∈ infixSymbols)
    (hclosed : p = .name → s = .less → Nesting.closesTypeArguments true (S.kinds us) = false)
    (h : S.Fits ⟨.behind c, open_⟩ ⟨p, l, outer⟩ (t :: us)) :
    S.Fits ⟨.operand, open_⟩ ⟨.operand, ⟨l.branches, 0⟩, outer⟩ us := by
  have hends : ∀ s ∈ infixSymbols, s ∉ closers := by decide
  obtain ⟨next, hnext, hus⟩ := h.next_behind ht (.inl (hends s hs))
  have hoperand : Outline.behindStep c open_ (.symbol s) = some ⟨.operand, open_⟩ := by
    cases s <;> first | rfl | simp [infixSymbols] at hs
  rw [hoperand] at hnext
  cases hnext
  rwa [step_infixSymbol hp hs hclosed] at hus

/-- A name in front of a comma or a closing parenthesis is the last operand in parentheses. -/
theorem Fits.lastName {e : Enclosure} (he : e = .parentheses ∨ e = .conditional)
    (h : S.Fits ⟨.operand, e :: open_⟩ ⟨.operand, l, outer⟩ us) (hname : us.isIdentifier = true)
    (hend : Ahead.isOneOf (us.drop 1) [.comma, .closeParen] = true) :
    e = .parentheses ∧ ∃ n c vs, us = n :: c :: vs ∧ n.kind = .identifier ∧
      c.kind = .symbol .closeParen ∧
      S.Fits ⟨.behind true, e :: open_⟩ ⟨.name, l, outer⟩ (c :: vs) := by
  cases h.beforeOperand with
  | atom ht | sign ht =>
    simp only [Ahead.isIdentifier, List.head?_cons, Option.any_some, Token.isIdentifier,
      beq_iff_eq] at hname
    simp [hname, isAtom, isSign] at ht
  | parentheses ht => simp [Ahead.isIdentifier, Token.isIdentifier, ht] at hname
  | @name n us hn hus =>
    rw [List.drop_succ_cons, List.drop_zero] at hend
    have hnot {t : Token} {vs : Ahead} {s : Symbol} (hend : Ahead.isOneOf (t :: vs)
        [.comma, .closeParen] = true) (ht : t.kind = .symbol s) : s = .comma ∨ s = .closeParen := by
      simpa [Ahead.isOneOf, Token.isOneOf, ht] using hend
    cases hus.behindOperand (.inl rfl) with
    | closeParen hc henclosure _ =>
      rcases henclosure with ⟨rfl, -⟩ | ⟨rfl, -⟩
      · exact ⟨rfl, n, _, _, rfl, hn, hc, hus⟩
      · simp at he
    | comma _ henclosure _ =>
      rcases he with rfl | rfl <;> simp at henclosure
    | operation ht hs _ _ =>
      rcases hnot hend ht with rfl | rfl <;> simp [infixSymbols] at hs
    | member ht | call ht | index ht | assignment ht | question ht | colon ht | closeBracket ht =>
      simpa using hnot hend ht
    | typeArguments _ ht => simpa using hnot hend ht

/-- What seems to be a declaration in parentheses is a product, or a comparison with a name that
seems to have type arguments. -/
theorem Fits.declaration
    (h : S.Fits ⟨.operand, .parentheses :: open_⟩ ⟨.operand, ⟨0, 0⟩, outer⟩ us)
    (hproduct : startsProduct true (S.kinds us) = true → S.products = true)
    (hdeclares : us.isDeclarationBefore [.comma, .closeParen] = true) :
    S.allowed .deconstruction ∧ ∃ taken n c vs, us = taken ++ n :: c :: vs ∧
      us.typeEnd = some taken.length ∧ (∀ u ∈ (us.typeScan false).uses, S.allowed u.1) ∧
      c.kind = .symbol .closeParen ∧
      S.Fits ⟨.behind true, .parentheses :: open_⟩ ⟨.name, ⟨0, 0⟩, outer⟩ (c :: vs) := by
  unfold Ahead.isDeclarationBefore at hdeclares
  split at hdeclares
  · contradiction
  · next stop hstop =>
    obtain ⟨taken, rest, rfl, rfl, htype⟩ := exists_of_typeEnd h.toRuns hstop
    rw [← List.drop_drop, List.drop_left, Bool.and_eq_true] at hdeclares
    obtain ⟨hname, hend⟩ := hdeclares
    cases htype with
    | name hds hruns =>
      rw [hruns.isIdentifier_behind] at hname
      contradiction
    | nullable hds ht hruns =>
      have hfits := hruns.fits ⟨.operand, ⟨0, 0⟩, []⟩
      have hlast := (hfits.lastName (.inr rfl) hname hend).1
      contradiction
    | @pointer ds rest t uses hds ht hruns huses =>
      rw [List.append_assoc, List.singleton_append] at h
      have hrest := (h.dotted hds).operator (.inl rfl) ht (by decide) (fun _ h ↦ by cases h)
      obtain ⟨-, n, c, vs, rfl, hn, hc, hvs⟩ := hrest.lastName (.inl rfl) hname hend
      obtain ⟨_, _, _, heq, -, hws⟩ := hvs.step (by simp)
      cases heq
      refine ⟨S.deconstruction (hproduct ?_), _, n, c, vs, rfl, hstop, ?_, hc, hvs⟩
      · rw [List.append_assoc, List.singleton_append,
          kinds_append (hrest.suffix.trans (List.suffix_cons t _)), kinds_cons hrest.suffix,
          kinds_cons hvs.suffix, kinds_cons hws.suffix]
        exact startsProduct_dotted hds ht hn hc _
      · rw [huses]
        simp
    | @generic ds args rest t g uses hds ht hargs hg hruns huses =>
      rw [List.append_assoc, List.cons_append, List.append_assoc, List.singleton_append] at h
      have hless := h.dotted hds
      have hopen : Nesting.closesTypeArguments true (S.kinds (args ++ g :: rest)) = false := by
        rw [kinds_typeArguments hruns.suffix, closesTypeArguments_append hargs hg,
          hruns.head?_kinds]
        cases rest with
        | nil => rfl
        | cons n rest => simp_all [Ahead.isIdentifier, Token.isIdentifier]
      have hgreater : S.Fits ⟨.behind true, .parentheses :: open_⟩ ⟨.name, ⟨0, 0⟩, outer⟩
          (g :: rest) := by
        have hargument := hless.operator (.inl rfl) ht (by decide) (fun _ _ ↦ hopen)
        obtain ⟨es, hes, rfl | ⟨c, more, rfl, hc, -⟩⟩ := exists_dotted_of_list hargs
        · exact hargument.dotted hes
        · rw [List.append_assoc] at hargument
          have hcomma := (hargument.dotted hes).toRuns.not_comma (.inl rfl)
          simp [Ahead.is, Token.is, hc] at hcomma
      have hrest := hgreater.operator (.inl rfl) hg (by decide) (fun _ h ↦ by cases h)
      obtain ⟨-, n, c, vs, rfl, hn, hc, hvs⟩ := hrest.lastName (.inl rfl) hname hend
      have hmem : t ∈ ds ++ t :: (args ++ g :: n :: c :: vs) := by simp
      have hallowed := h.plain.less t hmem ht
      refine ⟨hallowed.2, _, n, c, vs, rfl, hstop, fun u hu ↦ ?_, hc, hvs⟩
      rw [huses u hu]
      exact hallowed.1

end Site

end CSharpCheck.Core
