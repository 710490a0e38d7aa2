import CSharpCheck.Proofs.Nesting.Brackets

/-!
# Calling conventions

The calling convention of a function pointer type is passed over up to the bracket that closes it,
and only square brackets are counted on the way. In a well-bracketed text what is passed over is
well bracketed, too.
-/

namespace CSharpCheck

/-- What is passed over as the calling convention of a function pointer type satisfies the
condition. -/
def Conventions (P : List Token → Prop) (ts : Ahead) : Prop :=
  ∀ rest, rest <:+ ts → Ahead.isWord rest .delegateWord = true →
    Ahead.is (Ahead.tail rest) .star = true →
      ∀ n, conventionLength (rest.drop 2) = some n → P ((rest.drop 2).take n)

/-- What is passed over as the calling convention of a function pointer type is well bracketed. -/
def ConventionsBracketed (ts : Ahead) : Prop :=
  ∀ rest, rest <:+ ts → Ahead.isWord rest .delegateWord = true →
    Ahead.is (Ahead.tail rest) .star = true →
      ∀ n, conventionLength (rest.drop 2) = some n → WellBracketed ((rest.drop 2).take n)

namespace Conventions

variable {P : List Token → Prop}

theorem suffix {ts us : Ahead} (h : Conventions P ts) (hu : us <:+ ts) : Conventions P us :=
  fun rest hrest ↦ h rest (hrest.trans hu)

theorem drop {ts : Ahead} (h : Conventions P ts) (n : Nat) : Conventions P (ts.drop n) :=
  h.suffix (List.drop_suffix n ts)

end Conventions

/-- A condition that plain tokens satisfy, tokens one after the other if both parts do, and tokens
in a pair of brackets if they do so without it. -/
structure Regular (P : List Token → Prop) : Prop where
  nil : P []
  singleton : ∀ t, Token.IsPlain t → P [t]
  append : ∀ ts us, P ts → P us → P (ts ++ us)
  enclose : ∀ (o c : Token) (first last : Symbol) (b : Bracket) (ts : List Token),
    o.is first = true → c.is last = true → first.side = .opening b → last.side = .closing b →
      P ts → P (o :: (ts ++ [c]))

namespace Regular

variable {P : List Token → Prop} (hP : Regular P)
include hP

theorem cons {t : Token} {ts : List Token} (ht : t.IsPlain) (h : P ts) : P (t :: ts) :=
  hP.append [t] ts (hP.singleton t ht) h

theorem of_plain {ts : List Token} (h : ∀ t ∈ ts, t.IsPlain) : P ts := by
  induction ts with
  | nil => exact hP.nil
  | cons t ts ih =>
    exact hP.cons (h t List.mem_cons_self) (ih fun u hu ↦ h u (List.mem_cons_of_mem t hu))

end Regular

theorem WellBracketed.regular : Regular WellBracketed where
  nil := .nil
  singleton _ ht := .cons_plain ht .nil
  append _ _ := .append
  enclose _ _ _ _ _ _ ho hc hfirst hlast :=
    .enclose ((Token.side_of_is ho).trans hfirst) ((Token.side_of_is hc).trans hlast)

private theorem ne_bracket_of_side {t : Token} {b : Bracket}
    (ho : t.is .openBracket = false) (hc : t.is .closeBracket = false)
    (h : t.side = .opening b ∨ t.side = .closing b) : b ≠ .bracket := by
  rintro rfl
  unfold Token.side Kind.side at h
  split at h
  · next s hk =>
    cases s <;> simp [Symbol.side] at h <;> simp [Token.is, hk] at ho hc
  all_goals simp at h

/-- A bracket that the count of square brackets finds is the partner of the innermost one, if the
text is well bracketed up to there. -/
private theorem after_take_closeFrom {open_ outer : Brackets} {ts : Ahead} {k : Nat}
    (h : (Brackets.after (open_ ++ .bracket :: outer) ts).isSome)
    (hk : Ahead.closeFrom .openBracket .closeBracket (open_.count .bracket + 1) ts = some k) :
    ∃ close, ts[k]? = some close ∧ close.is .closeBracket = true ∧
      open_.after (ts.take k) = some [] := by
  induction ts generalizing open_ k with
  | nil => simp [Ahead.closeFrom] at hk
  | cons t ts ih =>
    rw [Brackets.after_cons] at h
    obtain ⟨final, hfinal⟩ := Option.isSome_iff_exists.1 h
    obtain ⟨next, hnext, hrest⟩ := Option.bind_eq_some_iff.1 hfinal
    -- The search goes on after `t` inside the brackets `inner`.
    have goOn (inner : Brackets) (hstep : open_.step t.side = some inner)
        (hinner : next = inner ++ .bracket :: outer)
        (hk : (Ahead.closeFrom .openBracket .closeBracket (inner.count .bracket + 1) ts).map
          (· + 1) = some k) :
        ∃ close, (t :: ts)[k]? = some close ∧ close.is .closeBracket = true ∧
          open_.after ((t :: ts).take k) = some [] := by
      obtain ⟨k', hk', rfl⟩ := Option.map_eq_some_iff.1 hk
      subst hinner
      obtain ⟨close, hget, hclose, hafter⟩ := ih (by rw [hrest]; rfl) hk'
      refine ⟨close, by simpa using hget, hclose, ?_⟩
      rw [List.take_succ_cons, Brackets.after_cons, hstep, Option.bind_some, hafter]
    rw [Ahead.closeFrom] at hk
    split at hk
    · next ho =>
      rw [Token.side_of_is ho] at hnext goOn
      cases hnext
      exact goOn (.bracket :: open_) rfl rfl (by simpa using hk)
    · next ho =>
      split at hk
      · next hc =>
        rw [Token.side_of_is hc, Symbol.side, Brackets.step_closing] at hnext
        cases open_ with
        | nil =>
          simp only [List.count_nil, Nat.zero_add, if_true, Option.some.injEq] at hk
          subst hk
          exact ⟨t, rfl, hc, rfl⟩
        | cons b inner =>
          rw [List.cons_append, List.cons.injEq] at hnext
          obtain ⟨rfl, hinner⟩ := hnext
          rw [List.count_cons_self, if_neg (by omega), Nat.add_sub_cancel] at hk
          exact goOn inner (by rw [Token.side_of_is hc]; exact Brackets.step_closing.2 rfl)
            hinner.symm hk
      · next hc =>
        split at hk
        · contradiction
        · have hne := @ne_bracket_of_side t
          rw [Bool.not_eq_true] at ho hc
          cases hside : t.side with
          | neither =>
            rw [hside] at hnext goOn
            exact goOn open_ rfl (by simpa using hnext.symm) hk
          | opening b =>
            rw [hside] at hnext goOn
            refine goOn (b :: open_) rfl (by simpa using hnext.symm) ?_
            rwa [List.count_cons_of_ne (hne ho hc (.inl hside))]
          | closing b =>
            rw [hside, Brackets.step_closing] at hnext
            cases open_ with
            | nil =>
              rw [List.nil_append, List.cons.injEq] at hnext
              exact absurd hnext.1.symm (hne ho hc (.inr hside))
            | cons c inner =>
              rw [List.cons_append, List.cons.injEq] at hnext
              obtain ⟨rfl, hinner⟩ := hnext
              rw [List.count_cons_of_ne (hne ho hc (.inr hside))] at hk
              exact goOn inner (by rw [hside]; exact Brackets.step_closing.2 rfl) hinner.symm hk

/-- A calling convention that is passed over where brackets match is well bracketed. -/
private theorem wellBracketed_take_conventionLength {open_ : Brackets} {ts : Ahead} {n : Nat}
    (h : (open_.after ts).isSome) (hn : conventionLength ts = some n) :
    WellBracketed (ts.take n) := by
  unfold conventionLength at hn
  split at hn
  · next hword =>
    cases ts with
    | nil => simp [Ahead.isContextual] at hword
    | cons u ts =>
      have hu : u.IsPlain := by
        simp only [Ahead.isContextual, List.head?_cons, Option.any_some, Bool.or_eq_true] at hword
        exact hword.elim Token.isPlain_of_isContextual Token.isPlain_of_isContextual
      rw [Brackets.after_plain hu] at h
      split at hn
      · next ho =>
        cases ts with
        | nil => simp [Ahead.is, Ahead.tail] at ho
        | cons o ts =>
          replace ho : o.is .openBracket = true := ho
          obtain ⟨close, hclose, rfl⟩ := Option.map_eq_some_iff.1 hn
          replace hclose : Ahead.closeFrom .openBracket .closeBracket 0 (o :: ts) = some close :=
            hclose
          rw [Ahead.closeFrom, if_pos ho] at hclose
          obtain ⟨k, hk, rfl⟩ := Option.map_eq_some_iff.1 hclose
          rw [Brackets.after_cons, Token.side_of_is ho] at h
          obtain ⟨c, hget, hc, hafter⟩ := @after_take_closeFrom [] _ _ _ h hk
          have htake : ts.take (k + 1) = ts.take k ++ [c] := by
            rw [List.take_add_one, hget, Option.toList_some]
          rw [List.take_succ_cons, List.take_succ_cons, htake]
          exact .cons_plain hu (.enclose (Token.side_of_is ho) (Token.side_of_is hc) hafter)
      · cases hn
        exact .cons_plain hu .nil
  · cases hn
    exact .nil

/-- In a well-bracketed text the calling conventions are well bracketed. -/
theorem WellBracketed.conventionsBracketed {ts : Ahead} (h : WellBracketed ts) :
    ConventionsBracketed ts := by
  rintro rest ⟨before, rfl⟩ - - n hn
  rw [WellBracketed, ← List.take_append_drop 2 rest, ← List.append_assoc,
    Brackets.after_append] at h
  obtain ⟨open_, -, h⟩ := Option.bind_eq_some_iff.1 h
  exact wellBracketed_take_conventionLength (Option.isSome_of_eq_some h) hn

end CSharpCheck
