import CSharpCheck.Proofs.Core.Names

/-!
# Types ahead

Where an operand may begin, the scan for types finds a dotted name, perhaps with a question mark, a
star or type arguments behind it, or no type at all.
-/

namespace CSharpCheck.Core.Site

variable {S : Site} {ts us vs : Ahead} {open_ : List Enclosure} {inner : InnerScan}

/-! ### Scanning names -/

/-- Of a dotted name only the last part matters for how the scan goes on. -/
theorem exists_qualifiedName_eq {x : Token} (hx : x.kind = .identifier) {ds : List Token}
    (hds : MoreNames [.dot] ds) (inner : InnerScan) (place : Nat) (vs : Ahead) :
    ∃ y, y.kind = .identifier ∧ qualifiedName inner place (x :: (ds ++ vs)) =
      qualifiedName inner (place + ds.length) (y :: vs) := by
  induction hds generalizing x place with
  | nil => exact ⟨x, hx, rfl⟩
  | @cons d z ts hd hz _ ih =>
    obtain ⟨s, hs, hd⟩ := hd
    obtain rfl : s = .dot := by simpa using hs
    obtain ⟨y, hy, heq⟩ := ih hz (place + 2)
    refine ⟨y, hy, ?_⟩
    have hlength : place + (d :: z :: ts).length = place + 2 + ts.length := by
      simp only [List.length_cons]
      omega
    rw [hlength, ← heq, qualifiedName]
    simp [Token.isIdentifier, hx, hz, Ahead.is, Token.is, hd, Ahead.isIdentifier, TypeScan.done,
      TypeScan.after]

theorem qualifiedName_of_not_less {y : Token} (hy : y.kind = .identifier)
    (hcolon : vs.is .colonColon = false) (hdot : vs.is .dot = false) (hless : vs.is .less = false)
    (place : Nat) : qualifiedName inner place (y :: vs) = .done (place + 1) := by
  rw [qualifiedName]
  simp [Token.isIdentifier, hy, hcolon, hdot, hless, TypeScan.done]

theorem qualifiedName_of_less {y : Token} (hy : y.kind = .identifier)
    (hless : vs.is .less = true) (place : Nat) (scan : TypeScan)
    (hscan : typeArguments inner (place + 1) vs = scan) :
    qualifiedName inner place (y :: vs) =
      match scan.stop with
      | none => (TypeScan.done (place + 1)).after scan.uses
      | some stop =>
        let following : Ahead := vs.drop (stop - (place + 1))
        if following.is .dot && Ahead.isIdentifier (following.drop 1) then
          (qualifiedName inner (stop + 1) (following.drop 1)).after scan.uses
        else scan := by
  have hcolon : vs.is .colonColon = false := by
    obtain ⟨t, us, rfl, ht⟩ := is_eq_true_iff.1 hless
    simp [Ahead.is, Token.is, ht]
  rw [qualifiedName]
  simp only [Token.isIdentifier, hy, hcolon, hless, hscan]
  rfl

/-- In front of an operand nothing is added to a type. -/
theorem typeSuffixes_before (h : S.Runs ⟨.operand, open_⟩ ts) (place : Nat) :
    typeSuffixes false place ts = .done place := by
  have hquestion := h.is_before (s := .question) (by decide)
  have hstar := h.is_before (s := .star) (by decide)
  have hbracket := h.is_before (s := .openBracket) (by decide)
  cases ts with
  | nil => rw [typeSuffixes]
  | cons t us =>
    simp only [Ahead.is, List.head?_cons, Option.any_some] at hquestion hstar hbracket
    rw [typeSuffixes]
    simp [hquestion, hstar, hbracket]

/-- Behind a name a question mark or a star may be added to a type. -/
theorem typeSuffixes_behind (h : S.Runs ⟨.behind true, open_⟩ ts) (place : Nat) :
    (typeSuffixes false place ts = .done place ∧ ts.is .question = false ∧ ts.is .star = false) ∨
      (∃ t us, ts = t :: us ∧ t.kind = .symbol .question ∧
        S.Runs ⟨.operand, .conditional :: open_⟩ us ∧
        typeSuffixes false place ts = ⟨some (place + 1), [(.nullableTypes, place)]⟩) ∨
      ∃ t us, ts = t :: us ∧ t.kind = .symbol .star ∧ S.Runs ⟨.operand, open_⟩ us ∧
        typeSuffixes false place ts = .done (place + 1) := by
  have hother {t : Token} {us : Ahead} (hquestion : t.is .question = false)
      (hstar : t.is .star = false) (hbracket : t.is .openBracket = false) :
      typeSuffixes false place (t :: us) = .done place ∧
        Ahead.is (t :: us) .question = false ∧ Ahead.is (t :: us) .star = false := by
    refine ⟨?_, hquestion, hstar⟩
    rw [typeSuffixes]
    simp [hquestion, hstar, hbracket]
  obtain ⟨d, hbehind⟩ := h.behind
  cases hbehind with
  | @question _ t us ht hus =>
    refine .inr (.inl ⟨t, us, rfl, ht, hus.of_deep, ?_⟩)
    rw [typeSuffixes]
    simp [Token.is, ht, typeSuffixes_before hus.of_deep, TypeScan.after, TypeScan.done]
  | @index _ t us ht hus =>
    have hcommas : us.takeWhile (·.is .comma) = [] := by
      have hcomma := hus.is_before (s := .comma) (by decide)
      cases us with
      | nil => rfl
      | cons u us =>
        refine List.takeWhile_cons_of_neg ?_
        simpa [Ahead.is] using hcomma
    have hclose := hus.is_before (s := .closeBracket) (by decide)
    have hquestion : t.is .question = false := by simp [Token.is, ht]
    have hstar : t.is .star = false := by simp [Token.is, ht]
    have hbracket : t.is .openBracket = true := by simp [Token.is, ht]
    refine .inl ⟨?_, hquestion, hstar⟩
    rw [typeSuffixes]
    simp [hquestion, hstar, hbracket, hcommas, hclose]
  | @operation _ s t us ht hs hclosed hus =>
    by_cases hstar : s = .star
    · subst hstar
      refine .inr (.inr ⟨t, us, rfl, ht, hus.of_deep, ?_⟩)
      rw [typeSuffixes]
      simp [Token.is, ht, typeSuffixes_before hus.of_deep]
    · have hne {x : Symbol} (hx : x ∉ infixSymbols) : s ≠ x := by
        rintro rfl
        exact hx hs
      have hquestion := hne (x := .question) (by decide)
      have hbracket := hne (x := .openBracket) (by decide)
      exact .inl (hother (by simpa [Token.is, ht] using hquestion)
        (by simpa [Token.is, ht] using hstar) (by simpa [Token.is, ht] using hbracket))
  | end_ hrest =>
    cases ts with
    | nil => exact .inl ⟨by rw [typeSuffixes], rfl, rfl⟩
    | cons t us =>
      have hcloses := S.closes t (by rw [show S.rest = t :: us from hrest]; rfl)
      have hnot {s : Symbol} (hs : s ∉ closers) : t.is s = false := by
        rw [Bool.eq_false_iff]
        intro his
        simp_all [Token.is, Token.isOneOf]
      exact .inl (hother (hnot (by decide)) (hnot (by decide)) (hnot (by decide)))
  | member ht | call ht | assignment ht | colon ht | comma ht | closeParen ht
  | closeBracket ht =>
    exact .inl (hother (by simp [Token.is, ht]) (by simp [Token.is, ht])
      (by simp [Token.is, ht]))
  | typeArguments _ ht =>
    exact .inl (hother (by simp [Token.is, ht]) (by simp [Token.is, ht])
      (by simp [Token.is, ht]))

/-! ### Types and lists of types -/

/-- What a scan for types may find in front of an operand: the tokens of the type, those behind it,
and the features that show. -/
inductive TypeAhead (S : Site) (open_ : List Enclosure) : Ahead → Ahead → List ScanUse → Prop where
  | name {ds rest : Ahead} {uses : List ScanUse} : Dotted ds →
      S.Runs ⟨.behind true, open_⟩ rest → (rest.is .less = false → uses = []) →
      TypeAhead S open_ ds rest uses
  | nullable {ds rest : Ahead} {t : Token} {uses : List ScanUse} : Dotted ds →
      t.kind = .symbol .question → S.Runs ⟨.operand, .conditional :: open_⟩ rest →
      TypeAhead S open_ (ds ++ [t]) rest uses
  | pointer {ds rest : Ahead} {t : Token} {uses : List ScanUse} : Dotted ds →
      t.kind = .symbol .star → S.Runs ⟨.operand, open_⟩ rest → uses = [] →
      TypeAhead S open_ (ds ++ [t]) rest uses
  | generic {ds args rest : Ahead} {t g : Token} {uses : List ScanUse} : Dotted ds →
      t.kind = .symbol .less → DottedList args → g.kind = .symbol .greater →
      S.Runs ⟨.operand, open_⟩ rest → (∀ u ∈ uses, u.1 = .generics) →
      TypeAhead S open_ (ds ++ t :: (args ++ [g])) rest uses

/-- If the scan finds a type, it is one that may come in front of an operand. -/
def Finds (S : Site) (open_ : List Enclosure) (scan : TypeScan) (place : Nat) (ts : Ahead) : Prop :=
  ∀ stop, scan.stop = some stop → ∃ taken rest, ts = taken ++ rest ∧
    stop = place + taken.length ∧ S.TypeAhead open_ taken rest scan.uses

/-- Whatever is open, the scanner finds types in front of operands. -/
def FindsTypes (S : Site) (inner : InnerScan) : Prop :=
  ∀ open_ place ts, S.Runs ⟨.operand, open_⟩ ts → S.Finds open_ (inner place ts) place ts

/-- Behind a type there is a comma or a greater-than sign only if the type is a dotted name without
type arguments. -/
theorem TypeAhead.of_separator {taken rest : Ahead} {uses : List ScanUse}
    (h : S.TypeAhead open_ taken rest uses) {s : Symbol} (hs : s = .comma ∨ s = .greater)
    (hrest : rest.is s = true) :
    Dotted taken ∧ uses = [] ∧ ∃ t us, rest = t :: us ∧ t.kind = .symbol s ∧
      S.Runs ⟨.operand, open_⟩ us := by
  have hnot {o : List Enclosure} (hruns : S.Runs ⟨.operand, o⟩ rest) : False := by
    rw [hruns.is_before (by rcases hs with rfl | rfl <;> decide)] at hrest
    contradiction
  cases h with
  | nullable _ _ hruns => exact absurd hruns hnot
  | pointer _ _ hruns _ => exact absurd hruns hnot
  | generic _ _ _ _ hruns => exact absurd hruns hnot
  | name hds hruns huses =>
    obtain ⟨t, us, rfl, ht⟩ := is_eq_true_iff.1 hrest
    have hless : Ahead.is (t :: us) .less = false := by
      rcases hs with rfl | rfl <;> simp [Ahead.is, Token.is, ht]
    refine ⟨hds, huses hless, t, us, rfl, ht, ?_⟩
    obtain ⟨next, hnext, hus⟩ := hruns.next_behind ht
      (.inl (by rcases hs with rfl | rfl <;> decide))
    rcases hs with rfl | rfl
    · rcases open_ with - | ⟨e, outer⟩
      · cases hnext
      · cases e <;> cases hnext <;> exact hus
    · cases hnext
      exact hus

theorem typeList_of_none {place : Nat} (h : (inner place ts).stop = none) :
    (typeList inner false place ts).stop = none := by
  rw [typeList]
  simp only [Bool.false_eq_true, if_false, Nat.add_zero, List.drop_zero]
  split
  · exact h
  · next heq =>
    rw [h] at heq
    contradiction

/-- Behind a type, a list of types goes on after a comma and ends with a greater-than sign. -/
theorem typeList_of_some {place stop : Nat} (h : (inner place ts).stop = some stop) :
    typeList inner false place ts =
      match ts.drop (stop - place) with
      | [] => TypeScan.fail.after (inner place ts).uses
      | t :: rest =>
        if t.is .comma then (typeList inner false (stop + 1) rest).after (inner place ts).uses
        else if t.is .greater then (TypeScan.done (stop + 1)).after (inner place ts).uses
        else TypeScan.fail.after (inner place ts).uses := by
  rw [typeList]
  simp only [Bool.false_eq_true, if_false, Nat.add_zero, List.drop_zero]
  split
  · next heq =>
    rw [h] at heq
    contradiction
  · next heq =>
    rw [h] at heq
    cases heq
    split
    · next hnil => rw [hnil]
    · next hcons => rw [hcons]

/-- Type arguments that are closed are dotted names with commas between them. -/
theorem exists_of_typeList (hinner : S.FindsTypes inner) {us : Ahead}
    (h : S.Runs ⟨.operand, open_⟩ us) {place stop : Nat}
    (hstop : (typeList inner false place us).stop = some stop) :
    ∃ args g rest, us = args ++ g :: rest ∧ DottedList args ∧ g.kind = .symbol .greater ∧
      S.Runs ⟨.operand, open_⟩ rest ∧ stop = place + args.length + 1 ∧
      (typeList inner false place us).uses = [] := by
  induction hn : us.length using Nat.strongRecOn generalizing us place stop with
  | ind n ih =>
    cases hend : (inner place us).stop with
    | none =>
      rw [typeList_of_none hend] at hstop
      contradiction
    | some m =>
      obtain ⟨taken, rest, rfl, rfl, htype⟩ := hinner open_ place us h m hend
      have hdrop : (taken ++ rest).drop (place + taken.length - place) = rest := by
        rw [Nat.add_sub_cancel_left, List.drop_left]
      rw [typeList_of_some hend, hdrop] at hstop ⊢
      have hfail (uses : List ScanUse) : (TypeScan.fail.after uses).stop = none := rfl
      cases hcomma : rest.is .comma with
      | true =>
        obtain ⟨htaken, huses, t, vs, rfl, ht, hvs⟩ := htype.of_separator (.inl rfl) hcomma
        have htrue : t.is .comma = true := by simp [Token.is, ht]
        simp only [htrue, if_true, huses] at hstop ⊢
        obtain ⟨args, g, tail, rfl, hargs, hg, htail, rfl, hnone⟩ :=
          ih vs.length (by rw [← hn]; simp only [List.length_append, List.length_cons]; omega)
            hvs hstop rfl
        cases htaken with
        | @mk x ds hx hds =>
          cases hargs with
          | @mk y es hy hes =>
            refine ⟨x :: (ds ++ t :: y :: es), g, tail, by simp, .mk hx ?_, hg, htail, ?_, ?_⟩
            · exact (hds.mono (by simp)).append (.cons ⟨.comma, by simp, ht⟩ hy hes)
            · simp only [List.length_cons, List.length_append]
              omega
            · rw [TypeScan.after, hnone]
              rfl
      | false =>
        cases hgreater : rest.is .greater with
        | true =>
          obtain ⟨htaken, huses, t, vs, rfl, ht, hvs⟩ := htype.of_separator (.inr rfl) hgreater
          have hfalse : t.is .comma = false := by simp [Token.is, ht]
          have htrue : t.is .greater = true := by simp [Token.is, ht]
          simp only [hfalse, htrue, if_true, Bool.false_eq_true, if_false, huses] at hstop ⊢
          refine ⟨taken, t, vs, rfl, ?_, ht, hvs, ?_, rfl⟩
          · cases htaken with
            | mk hx hds => exact .mk hx (hds.mono (by simp))
          · exact (Option.some.inj hstop).symm
        | false =>
          cases rest with
          | nil => cases hstop
          | cons t vs =>
            replace hcomma : t.is .comma = false := hcomma
            replace hgreater : t.is .greater = false := hgreater
            simp only [hcomma, hgreater, Bool.false_eq_true, if_false] at hstop
            cases hstop

/-- Type arguments begin with a less-than sign, which shows the use of generics. -/
theorem typeArguments_eq {t : Token} (h : S.Runs ⟨.operand, open_⟩ us) (place : Nat) :
    typeArguments inner place (t :: us) =
      (typeList inner false (place + 1) us).after [(.generics, place)] := by
  have hcomma := h.is_before (s := .comma) (by decide)
  have hgreater := h.is_before (s := .greater) (by decide)
  have hnone : us.isOneOf [.comma, .greater] = false := by
    cases us with
    | nil => rfl
    | cons u us =>
      replace hcomma : u.is .comma = false := hcomma
      replace hgreater : u.is .greater = false := hgreater
      unfold Ahead.isOneOf Token.isOneOf
      simp only [Token.is, beq_eq_false_iff_ne, ne_eq] at hcomma hgreater
      simp only [List.head?_cons, Option.any_some]
      split
      · next s hk => simp_all
      · rfl
  simp [typeArguments, hnone]

/-- Between parentheses or in a branch before a colon, no comma follows an operand. -/
theorem Runs.not_comma {c : Bool} {e : Enclosure} (he : e = .parentheses ∨ e = .conditional)
    (h : S.Runs ⟨.behind c, e :: open_⟩ ts) : ts.is .comma = false := by
  rw [Bool.eq_false_iff]
  intro hcomma
  obtain ⟨t, us, rfl, ht⟩ := is_eq_true_iff.1 hcomma
  obtain ⟨next, hnext, -⟩ := h.next_behind ht (.inl (by decide))
  rcases he with rfl | rfl <;> cases hnext

/-- Between parentheses, no comma follows a type, with a name or without. -/
theorem TypeAhead.not_comma {taken rest : Ahead} {uses : List ScanUse}
    (h : S.TypeAhead (.parentheses :: open_) taken rest uses) :
    Ahead.is (if rest.isIdentifier then rest.drop 1 else rest) .comma = false := by
  have hoperand {o : List Enclosure} {e : Enclosure} (he : e = .parentheses ∨ e = .conditional)
      (hruns : S.Runs ⟨.operand, e :: o⟩ rest) :
      Ahead.is (if rest.isIdentifier then rest.drop 1 else rest) .comma = false := by
    split
    · next hidentifier =>
      obtain ⟨d, hbefore⟩ := hruns.before
      cases hbefore with
      | name _ hus => exact hus.of_deep.not_comma he
      | atom ht | sign ht =>
        simp only [Ahead.isIdentifier, List.head?_cons, Option.any_some, Token.isIdentifier,
          beq_iff_eq] at hidentifier
        simp [hidentifier, isAtom, isSign] at ht
      | parentheses ht => simp [Ahead.isIdentifier, Token.isIdentifier, ht] at hidentifier
    · exact hruns.is_before (by decide)
  cases h with
  | name _ hruns =>
    rw [hruns.isIdentifier_behind]
    exact hruns.not_comma (.inl rfl)
  | nullable _ _ hruns => exact hoperand (.inr rfl) hruns
  | pointer _ _ hruns _ => exact hoperand (.inl rfl) hruns
  | generic _ _ _ _ hruns => exact hoperand (.inl rfl) hruns

/-- No tuple type begins in front of an operand, since no comma follows its first type. -/
theorem tupleType_stop (hinner : S.FindsTypes inner)
    (h : S.Runs ⟨.operand, .parentheses :: open_⟩ us) (t : Token) (place : Nat) :
    (tupleType inner place (t :: us)).stop = none := by
  have helements : (tupleElements inner 0 (place + 1) us).stop = none := by
    rw [tupleElements]
    simp only
    split
    · assumption
    · next stop hend =>
      obtain ⟨taken, rest, rfl, rfl, htype⟩ := hinner _ (place + 1) us h stop hend
      have hdrop : (taken ++ rest).drop (place + 1 + taken.length - (place + 1)) = rest := by
        rw [Nat.add_sub_cancel_left, List.drop_left]
      have hnamed : (taken ++ rest).drop ((if rest.isIdentifier then place + 1 + taken.length + 1
          else place + 1 + taken.length) - (place + 1)) =
          if rest.isIdentifier then rest.drop 1 else rest := by
        split
        · rw [show place + 1 + taken.length + 1 - (place + 1) = taken.length + 1 by omega,
            ← List.drop_drop, List.drop_left]
        · exact hdrop
      have hcomma := htype.not_comma
      rw [hdrop]
      split
      · rfl
      · next u vs hvs =>
        rw [hnamed] at hvs
        rw [hvs] at hcomma
        replace hcomma : u.is .comma = false := hcomma
        simp [hcomma, TypeScan.fail, TypeScan.after]
  simp only [tupleType, List.drop_succ_cons, List.drop_zero, helements]

theorem Runs.of_less {c : Bool} {t : Token} (ht : t.kind = .symbol .less)
    (h : S.Runs ⟨.behind c, open_⟩ (t :: ts)) : S.Runs ⟨.operand, open_⟩ ts := by
  obtain ⟨next, hnext, hts⟩ := h.next_behind ht (.inl (by decide))
  cases hnext
  exact hts

/-- Where the scan finds a dotted name, it looks for a question mark or a star behind it. -/
theorem finds_name {ds : List Token} (hds : Dotted ds) (hrest : S.Runs ⟨.behind true, open_⟩ us)
    (uses : List ScanUse) (huses : us.is .less = false → uses = []) (place : Nat) :
    S.Finds open_ ((typeSuffixes false (place + ds.length) us).after uses) place (ds ++ us) := by
  intro stop hstop
  rcases typeSuffixes_behind hrest (place + ds.length) with
    ⟨heq, -⟩ | ⟨t, vs, rfl, ht, hvs, heq⟩ | ⟨t, vs, rfl, ht, hvs, heq⟩
  · rw [heq] at hstop ⊢
    refine ⟨ds, us, rfl, (Option.some.inj hstop).symm, .name hds hrest fun hless ↦ ?_⟩
    rw [huses hless]
    rfl
  · rw [heq] at hstop
    refine ⟨ds ++ [t], vs, by simp, ?_, .nullable hds ht hvs⟩
    rw [List.length_append]
    exact (Option.some.inj hstop).symm
  · rw [heq] at hstop ⊢
    have hnone : uses = [] := huses (by simp [Ahead.is, Token.is, ht])
    refine ⟨ds ++ [t], vs, by simp, ?_, .pointer hds ht hvs (by rw [hnone]; rfl)⟩
    rw [List.length_append]
    exact (Option.some.inj hstop).symm

/-- Where the scan finds type arguments, the type ends with them. -/
theorem finds_generic {ds args : List Token} {t g : Token} (hds : Dotted ds)
    (ht : t.kind = .symbol .less) (hargs : DottedList args) (hg : g.kind = .symbol .greater)
    (hrest : S.Runs ⟨.operand, open_⟩ us) (uses : List ScanUse) (huses : ∀ u ∈ uses, u.1 = .generics)
    {place stop : Nat} (hstop : stop = place + ds.length + (args.length + 2)) :
    S.Finds open_ ((typeSuffixes false stop us).after uses) place
      (ds ++ t :: (args ++ g :: us)) := by
  intro m hm
  rw [typeSuffixes_before hrest] at hm ⊢
  refine ⟨ds ++ t :: (args ++ [g]), us, by simp, ?_, ?_⟩
  · rw [← Option.some.inj hm, hstop]
    simp only [List.length_append, List.length_cons, List.length_nil]
    omega
  · refine .generic hds ht hargs hg hrest ?_
    simpa [TypeScan.after, TypeScan.done] using huses

/-- The type that begins with a name in front of an operand. -/
theorem finds_qualifiedName (hinner : S.FindsTypes inner) {x : Token} (hx : x.kind = .identifier)
    (h : S.Runs ⟨.behind true, open_⟩ us) (place : Nat) :
    S.Finds open_ ((qualifiedName inner place (x :: us)).andThen fun stop ↦
      typeSuffixes false stop ((x :: us).drop (stop - place))) place (x :: us) := by
  obtain ⟨ds, vs, rfl, hds, hvs, hdot⟩ := h.exists_moreNames
  obtain ⟨y, hy, heq⟩ := exists_qualifiedName_eq hx hds inner place vs
  have hname : Dotted (x :: ds) := .mk hx hds
  have hend : place + ds.length + 1 = place + (x :: ds).length := by
    rw [List.length_cons]
    omega
  have hdrop : (x :: (ds ++ vs)).drop (place + ds.length + 1 - place) = vs := by
    rw [hend, Nat.add_sub_cancel_left]
    have hleft : (x :: ds ++ vs).drop (x :: ds).length = vs := List.drop_left
    exact hleft
  rw [heq]
  cases hless : vs.is .less with
  | false =>
    have hcolon := hvs.is_behind (s := .colonColon) (by decide)
    rw [qualifiedName_of_not_less hy hcolon hdot hless]
    have hfinds := finds_name hname hvs [] (fun _ ↦ rfl) place
    rw [← hend, List.cons_append] at hfinds
    simpa only [TypeScan.andThen, TypeScan.done, hdrop] using hfinds
  | true =>
    obtain ⟨t, ws, rfl, ht⟩ := is_eq_true_iff.1 hless
    have hws := hvs.of_less ht
    have hargs : typeArguments inner (place + ds.length + 1) (t :: ws) = _ :=
      typeArguments_eq hws (place + ds.length + 1)
    rw [qualifiedName_of_less hy hless _ _ hargs]
    cases hstop : (typeList inner false (place + ds.length + 1 + 1) ws).stop with
    | none =>
      have hfinds := finds_name hname hvs ((.generics, place + ds.length + 1) ::
          (typeList inner false (place + ds.length + 1 + 1) ws).uses)
        (fun h ↦ by rw [hless] at h; contradiction) place
      rw [← hend, List.cons_append] at hfinds
      simpa only [TypeScan.after, hstop, TypeScan.andThen, TypeScan.done, hdrop,
        List.append_nil, List.singleton_append] using hfinds
    | some stop =>
      obtain ⟨args, g, rest, rfl, hargs, hg, hrest, rfl, hnone⟩ :=
        exists_of_typeList hinner hws hstop
      have hsum : place + ds.length + 1 + 1 + args.length + 1 =
          place + (x :: ds).length + (args.length + 2) := by
        rw [List.length_cons]
        omega
      have hfollowing : (t :: (args ++ g :: rest)).drop
          (place + ds.length + 1 + 1 + args.length + 1 - (place + ds.length + 1)) = rest := by
        rw [show place + ds.length + 1 + 1 + args.length + 1 - (place + ds.length + 1) =
          (t :: (args ++ [g])).length by simp; omega]
        simp
      have hall : (x :: (ds ++ t :: (args ++ g :: rest))).drop
          (place + ds.length + 1 + 1 + args.length + 1 - place) = rest := by
        rw [hsum, show place + (x :: ds).length + (args.length + 2) - place =
          (x :: ds ++ t :: (args ++ [g])).length by simp; omega]
        simp
      have hdot' : Ahead.is rest .dot = false := hrest.is_before (by decide)
      have hfinds := finds_generic hname ht hargs hg hrest
        [(.generics, place + ds.length + 1)] (by simp) hsum
      rw [List.cons_append] at hfinds
      simp only [TypeScan.after, hstop, hnone, hfollowing, hdot', Bool.false_and,
        Bool.false_eq_true, if_false, TypeScan.andThen, hall, List.append_nil]
      exact hfinds

/-- No type begins with a literal, a constant or a sign. -/
theorem typeStem_plain {t : Token} (ht : isAtom t.kind = true ∨ isSign t.kind = true) (place : Nat) :
    typeStem inner place (t :: us) = .fail := by
  unfold isAtom isSign at ht
  rcases ht with ht | ht <;> split at ht
  all_goals first
    | contradiction
    | next hk =>
      simp [typeStem, Ahead.is, Token.is, Token.namesType, Keyword.namesType, Ahead.isWord,
        Token.isWord, Ahead.isIdentifier, Token.isIdentifier, hk]

/-- Wherever an operand may begin, the scan for types finds what may come there. -/
theorem findsTypes_typeWithin (S : Site) (room : Nat) : S.FindsTypes (typeWithin room false) := by
  induction room with
  | zero => exact fun open_ place ts _ stop hstop ↦ by simp [typeWithin, TypeScan.fail] at hstop
  | succ room ih =>
    intro open_ place ts h
    obtain ⟨d, hbefore⟩ := h.before
    rw [typeWithin]
    have hnone {stem : TypeScan} (hstem : stem.stop = none) (next : Nat → TypeScan) :
        S.Finds open_ (stem.andThen next) place ts := by
      intro stop hstop
      simp only [TypeScan.andThen, hstem] at hstop
      contradiction
    simp only
    cases hbefore with
    | @name t us ht hus =>
      have hstem : typeStem (typeWithin room false) place (t :: us) =
          qualifiedName (typeWithin room false) place (t :: us) := by
        simp [typeStem, Ahead.is, Token.is, Token.namesType, Ahead.isWord, Token.isWord,
          Ahead.isIdentifier, Token.isIdentifier, ht]
      rw [hstem]
      exact finds_qualifiedName ih ht hus.of_deep place
    | @atom t us ht =>
      refine hnone ?_ _
      rw [typeStem_plain (.inl ht)]
      rfl
    | @sign t us ht =>
      refine hnone ?_ _
      rw [typeStem_plain (.inr ht)]
      rfl
    | @parentheses t us ht _ hus =>
      refine hnone ?_ _
      rw [typeStem, if_pos (by simp [Ahead.is, Token.is, ht])]
      exact tupleType_stop ih hus.of_deep t place

end CSharpCheck.Core.Site
