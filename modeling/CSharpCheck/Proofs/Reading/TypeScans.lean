import Mathlib.Data.List.TakeWhile
import CSharpCheck.Proofs.Reading.Combinators

/-!
# What type scans cover

Where a type scan finds a type, the tokens that it covers satisfy every regular condition that the
calling conventions of function pointer types satisfy. They are well bracketed, for one, as long as
the conventions are.
-/

namespace CSharpCheck

namespace TypeScan

/-- If the scan succeeds, it covers at least `least` tokens of the text at the place, which satisfy
every regular condition that the calling conventions of the text satisfy. -/
def Covers (scan : TypeScan) (least place : Nat) (ts : Ahead) : Prop :=
  ∀ stop, scan.stop = some stop → ∃ front rest, ts = front ++ rest ∧ least ≤ front.length ∧
    stop = place + front.length ∧ ∀ P, Regular P → Conventions P ts → P front

variable {scan : TypeScan} {least place : Nat} {ts : Ahead}

theorem covers_fail (least place : Nat) (ts : Ahead) : fail.Covers least place ts := by
  intro stop h
  contradiction

theorem covers_done (front : Ahead) {stop : Nat} (hstop : stop = place + front.length)
    (hleast : least ≤ front.length) {rest : Ahead}
    (h : ∀ P, Regular P → Conventions P (front ++ rest) → P front) :
    (done stop).Covers least place (front ++ rest) := by
  intro stop' hstop'
  cases hstop'
  exact ⟨front, rest, rfl, hleast, hstop, h⟩

theorem Covers.after (h : scan.Covers least place ts) (uses : List ScanUse) :
    (scan.after uses).Covers least place ts := h

/-- A scan that goes on after tokens of a regular kind covers them, too. -/
theorem Covers.shift {rest : Ahead} {start : Nat} (h : scan.Covers 0 start rest)
    (front : Ahead) (hstart : start = place + front.length) (hleast : least ≤ front.length)
    (hfront : ∀ P, Regular P → Conventions P (front ++ rest) → P front) :
    scan.Covers least place (front ++ rest) := by
  intro stop hstop
  obtain ⟨more, rest', rfl, -, rfl, hmore⟩ := h stop hstop
  refine ⟨front ++ more, rest', (List.append_assoc ..).symm, ?_, ?_, fun P hP hts ↦
    hP.append _ _ (hfront P hP hts) (hmore P hP (hts.suffix (List.suffix_append _ _)))⟩
  · rw [List.length_append]
    omega
  · rw [List.length_append]
    omega

theorem Covers.weaken (h : scan.Covers least place ts) : scan.Covers 0 place ts := by
  intro stop hstop
  obtain ⟨front, rest, hts, -, hrest⟩ := h stop hstop
  exact ⟨front, rest, hts, Nat.zero_le _, hrest⟩

end TypeScan

open TypeScan

private theorem exists_append_drop_takeWhile {p : Token → Bool}
    (hp : ∀ t, p t = true → t.IsPlain) (ts : Ahead) :
    ∃ front, front.length = (ts.takeWhile p).length ∧ (∀ P, Regular P → P front) ∧
      front ++ ts.drop (ts.takeWhile p).length = ts :=
  ⟨ts.takeWhile p, rfl, fun _ hP ↦ hP.of_plain fun t ht ↦ hp t (List.mem_takeWhile_imp ht),
    List.prefix_iff_eq_append.1 (List.takeWhile_prefix p)⟩

theorem covers_typeSuffixes (inExpression : Bool) (place : Nat) (ts : Ahead) :
    (typeSuffixes inExpression place ts).Covers 0 place ts := by
  have here (place : Nat) (ts : Ahead) : (done place).Covers 0 place ts :=
    covers_done [] rfl (Nat.zero_le _) fun _ hP _ ↦ hP.nil
  fun_induction typeSuffixes inExpression place ts with
  | case1 | case2 | case6 | case7 => exact here _ _
  | case3 place t rest ht _ ih =>
    exact (ih.shift [t] rfl (Nat.zero_le _) fun _ hP _ ↦
      hP.singleton t (Token.isPlain_of_is ht rfl)).after _
  | case4 place t rest _ ht ih =>
    rw [Bool.and_eq_true] at ht
    exact ih.shift [t] rfl (Nat.zero_le _) fun _ hP _ ↦
      hP.singleton t (Token.isPlain_of_is ht.1 rfl)
  | case5 place t rest _ _ ht commas hclose ih =>
    obtain ⟨front, hlength, hfront, happend⟩ :=
      exists_append_drop_takeWhile (p := (·.is .comma)) (fun _ h ↦ Token.isPlain_of_is h rfl) rest
    obtain ⟨close, rest', hdrop, hclose⟩ := Ahead.exists_of_any hclose
    have hrest : t :: rest = t :: (front ++ [close]) ++ rest' := by
      rw [List.cons_append, List.append_assoc, List.singleton_append, ← hdrop, happend]
    have hnext : rest.drop (commas + 1) = rest' := by
      rw [← List.drop_drop, hdrop, List.drop_succ_cons, List.drop_zero]
    rw [hnext] at ih ⊢
    rw [hrest]
    refine ih.shift _ ?_ (Nat.zero_le _) fun P hP _ ↦
      hP.enclose _ _ _ _ _ _ ht hclose rfl rfl (hfront P hP)
    rw [List.length_cons, List.length_append, hlength, List.length_singleton]
    omega

/-- Every scan of a scanner covers what it should. -/
def InnerScan.Covers (inner : InnerScan) : Prop :=
  ∀ place ts, (inner place ts).Covers 1 place ts

/-- The text around an item of a list, up to the token after it. -/
private theorem exists_item {item : TypeScan} {before ts : Ahead} {place stop : Nat} {t : Token}
    {rest : Ahead} (hitem : item.Covers 1 (place + before.length) ts)
    (hbefore : ∀ P, Regular P → P before) (hstop : item.stop = some stop)
    (hdrop : (before ++ ts).drop (stop - place) = t :: rest) :
    ∃ front, before ++ ts = front ++ t :: rest ∧ 1 ≤ front.length ∧
      stop = place + front.length ∧
      ∀ P, Regular P → Conventions P (before ++ ts) → P front := by
  obtain ⟨front, rest', rfl, hpos, rfl, hfront⟩ := hitem stop hstop
  refine ⟨before ++ front, ?_, ?_, ?_, fun P hP hts ↦
    hP.append _ _ (hbefore P hP) (hfront P hP (hts.suffix (List.suffix_append _ _)))⟩
  · rw [show place + before.length + front.length - place = (before ++ front).length by
      rw [List.length_append]; omega, ← List.append_assoc, List.drop_left] at hdrop
    rw [← hdrop, List.append_assoc]
  · rw [List.length_append]
    omega
  · rw [List.length_append]
    omega

private theorem covers_of_stop_eq_none {scan : TypeScan} (h : scan.stop = none)
    (least place : Nat) (ts : Ahead) : scan.Covers least place ts := by
  intro stop hstop
  rw [h] at hstop
  contradiction

theorem covers_typeList {inner : InnerScan} (hinner : inner.Covers) (passing : Bool)
    (place : Nat) (ts : Ahead) : (typeList inner passing place ts).Covers 1 place ts := by
  -- The words before a type say how a parameter is passed.
  have exists_words (ts : Ahead) : ∃ before, before.length = (if passing then
      (ts.takeWhile (·.isWordOf [.refWord, .inWord, .outWord, .readonlyWord])).length else 0) ∧
      (∀ P, Regular P → P before) ∧ before ++ ts.drop (if passing then
        (ts.takeWhile (·.isWordOf [.refWord, .inWord, .outWord, .readonlyWord])).length else 0) =
          ts := by
    cases passing with
    | false => exact ⟨[], rfl, fun _ hP ↦ hP.nil, rfl⟩
    | true => exact exists_append_drop_takeWhile (fun _ ↦ Token.isPlain_of_isWordOf) ts
  fun_induction typeList inner passing place ts with
  | case1 place ts words item hnone => exact covers_of_stop_eq_none hnone _ _ _
  | case2 | case5 => exact covers_fail _ _ _
  | case3 place ts words item stop hstop t rest hdrop ht ih =>
    obtain ⟨before, hlength, hbefore, happend⟩ := exists_words ts
    replace happend : before ++ ts.drop words = ts := happend
    have hitem : item.Covers 1 (place + before.length) (ts.drop words) := by
      rw [hlength]
      exact hinner _ _
    rw [← happend] at hdrop
    obtain ⟨front, hfront, hpos, rfl, hfront'⟩ := exists_item hitem hbefore hstop hdrop
    rw [hfront] at hfront'
    rw [← happend, hfront, List.append_cons]
    refine (ih.weaken.shift _ ?_ ?_ fun P hP hts ↦ ?_).after _
    · rw [List.length_append, List.length_singleton]
      rfl
    · rw [List.length_append]
      omega
    · rw [← List.append_cons] at hts
      exact hP.append _ _ (hfront' P hP hts) (hP.singleton _ (Token.isPlain_of_is ht rfl))
  | case4 place ts words item stop hstop t rest hdrop _ ht =>
    obtain ⟨before, hlength, hbefore, happend⟩ := exists_words ts
    replace happend : before ++ ts.drop words = ts := happend
    have hitem : item.Covers 1 (place + before.length) (ts.drop words) := by
      rw [hlength]
      exact hinner _ _
    rw [← happend] at hdrop
    obtain ⟨front, hfront, hpos, rfl, hfront'⟩ := exists_item hitem hbefore hstop hdrop
    rw [hfront] at hfront'
    rw [← happend, hfront, List.append_cons]
    refine (covers_done (front ++ [t]) ?_ ?_ fun P hP hts ↦ ?_).after _
    · rw [List.length_append, List.length_singleton]
      rfl
    · rw [List.length_append]
      omega
    · rw [← List.append_cons] at hts
      exact hP.append _ _ (hfront' P hP hts) (hP.singleton _ (Token.isPlain_of_is ht rfl))

theorem covers_typeArguments {inner : InnerScan} (hinner : inner.Covers) (place : Nat)
    {ts : Ahead} (hless : ts.is .less = true) :
    (typeArguments inner place ts).Covers 1 place ts := by
  obtain ⟨t, rest, rfl, ht⟩ := Ahead.exists_of_any hless
  have hplain {P : List Token → Prop} (hP : Regular P) : P [t] :=
    hP.singleton t (Token.isPlain_of_is ht rfl)
  unfold typeArguments
  refine Covers.after ?_ _
  simp only [List.drop_succ_cons, List.drop_zero]
  split
  · split
    · next hgreater =>
      obtain ⟨front, hlength, hfront, happend⟩ := exists_append_drop_takeWhile
        (p := (·.is .comma)) (fun _ h ↦ Token.isPlain_of_is h rfl) rest
      obtain ⟨g, rest', hdrop, hg⟩ := Ahead.exists_of_any hgreater
      have hrest : t :: rest = [t] ++ (front ++ [g]) ++ rest' := by
        rw [List.append_assoc, List.append_assoc, List.singleton_append, List.singleton_append,
          ← hdrop, happend]
      rw [hrest]
      refine covers_done _ ?_ ?_ fun P hP _ ↦ hP.append _ _ (hplain hP)
        (hP.append _ _ (hfront P hP) (hP.singleton g (Token.isPlain_of_is hg rfl)))
      · simp only [List.length_append, List.length_singleton, hlength]
        omega
      · simp
    · exact covers_fail _ _ _
  · exact (covers_typeList hinner false _ rest).weaken.shift [t] rfl (Nat.le_refl _) fun _ hP _ ↦
      hplain hP

theorem covers_qualifiedName {inner : InnerScan} (hinner : inner.Covers) (place : Nat)
    (ts : Ahead) : (qualifiedName inner place ts).Covers 1 place ts := by
  have covers_arguments {place : Nat} {t : Token} {rest : Ahead} (ht : t.IsPlain) :
      (if Ahead.is rest .less then typeArguments inner (place + 1) rest
        else done (place + 1)).Covers 1 place (t :: rest) := by
    split
    · next hless =>
      exact (covers_typeArguments hinner _ hless).weaken.shift [t] rfl (Nat.le_refl _)
        fun _ hP _ ↦ hP.singleton t ht
    · exact covers_done [t] rfl (Nat.le_refl _) fun _ hP _ ↦ hP.singleton t ht
  have isPlain {t : Token} (ht : ¬(!t.isIdentifier) = true) : t.IsPlain :=
    Token.isPlain_of_isIdentifier (by simpa using ht)
  fun_induction qualifiedName inner place ts with
  | case1 | case2 => exact covers_fail _ _ _
  | case3 place t rest ht halias ih =>
    obtain ⟨a, rest', rfl, ha⟩ := Ahead.exists_of_any halias
    refine Covers.after (ih.weaken.shift [t, a] rfl (by simp) fun _ hP _ ↦ ?_) _
    exact hP.cons (isPlain ht) (hP.singleton a (Token.isPlain_of_is ha rfl))
  | case4 place t rest ht =>
    exact (covers_done [t] rfl (Nat.le_refl _) fun _ hP _ ↦
      hP.singleton t (isPlain ht)).after _
  | case5 place t rest ht _ arguments stop hstop following hdot ih =>
    obtain ⟨front, rest', hrest, hpos, rfl, hfront⟩ :=
      covers_arguments (isPlain ht) stop hstop
    have hfollowing : following = rest' := by
      have hdrop : (t :: rest).drop front.length = rest' := by rw [hrest, List.drop_left]
      rw [← hdrop, ← Nat.sub_add_cancel hpos, List.drop_succ_cons]
      show rest.drop _ = _
      congr 1
      omega
    rw [hfollowing] at hdot ih ⊢
    rw [Bool.and_eq_true] at hdot
    obtain ⟨d, rest'', rfl, hd⟩ := Ahead.exists_of_any hdot.1
    rw [hrest] at hfront ⊢
    rw [List.append_cons]
    refine (ih.weaken.shift _ ?_ ?_ fun P hP hts ↦ ?_).after _
    · rw [List.length_append, List.length_singleton]
      rfl
    · rw [List.length_append]
      omega
    · rw [← List.append_cons] at hts
      exact hP.append _ _ (hfront P hP hts) (hP.singleton d (Token.isPlain_of_is hd rfl))
  | case6 place t rest ht => exact covers_arguments (isPlain ht)

/-- What the elements of a tuple type cover up to the parenthesis that closes it. -/
theorem exists_tupleElements {inner : InnerScan} (hinner : inner.Covers)
    {count place : Nat} {ts : Ahead} {stop : Nat}
    (h : (tupleElements inner count place ts).stop = some stop) :
    ∃ front close rest, ts = front ++ close :: rest ∧ close.is .closeParen = true ∧
      stop = place + front.length + 1 ∧ ∀ P, Regular P → Conventions P ts → P front := by
  -- An element, perhaps with a name, and the token after it.
  have exists_element {place stop : Nat} {ts : Ahead} {t : Token} {rest : Ahead}
      (hstop : (inner place ts).stop = some stop)
      (hdrop : ts.drop ((if Ahead.isIdentifier (ts.drop (stop - place)) then stop + 1 else stop)
        - place) = t :: rest) :
      ∃ front, ts = front ++ t :: rest ∧
        (if Ahead.isIdentifier (ts.drop (stop - place)) then stop + 1 else stop) =
          place + front.length ∧ ∀ P, Regular P → Conventions P ts → P front := by
    obtain ⟨front, rest', rfl, -, rfl, hfront⟩ := hinner place ts stop hstop
    have hsub (n : Nat) : place + n - place = n := by omega
    rw [hsub, List.drop_left] at hdrop ⊢
    by_cases hname : Ahead.isIdentifier rest' = true
    · rw [if_pos hname] at hdrop ⊢
      obtain ⟨name, rest', rfl, hname⟩ := Ahead.exists_of_any hname
      rw [Nat.add_assoc, hsub, ← List.drop_drop, List.drop_left] at hdrop
      cases hdrop
      refine ⟨front ++ [name], List.append_cons .., ?_, fun P hP hts ↦
        hP.append _ _ (hfront P hP hts) (hP.singleton name (Token.isPlain_of_isIdentifier hname))⟩
      rw [List.length_append, List.length_singleton, Nat.add_assoc]
    · rw [if_neg hname] at hdrop ⊢
      rw [hsub, List.drop_left] at hdrop
      exact ⟨front, by rw [hdrop], rfl, hfront⟩
  fun_induction tupleElements inner count place ts with
  | case1 count place ts item hnone =>
    rw [hnone] at h
    contradiction
  | case2 | case5 => contradiction
  | case3 count place ts item stop' hstop named stop'' t rest hdrop ht ih =>
    obtain ⟨front, rfl, hlength, hfront⟩ := exists_element hstop hdrop
    obtain ⟨more, close, rest', rfl, hclose, rfl, hmore⟩ := ih h
    refine ⟨front ++ t :: more, close, rest', by simp, hclose, ?_, fun P hP hts ↦
      hP.append _ _ (hfront P hP hts) (hP.cons (Token.isPlain_of_is ht rfl) (hmore P hP (hts.suffix
        ((List.suffix_cons _ _).trans (List.suffix_append _ _)))))⟩
    replace hlength : stop'' = place + front.length := hlength
    simp only [List.length_append, List.length_cons]
    omega
  | case4 count place ts item stop' hstop named stop'' t rest hdrop _ ht =>
    obtain ⟨front, rfl, hlength, hfront⟩ := exists_element hstop hdrop
    rw [Bool.and_eq_true] at ht
    cases h
    exact ⟨front, t, rest, rfl, ht.1, congrArg (· + 1) hlength, hfront⟩

theorem covers_tupleType {inner : InnerScan} (hinner : inner.Covers) (place : Nat) {ts : Ahead}
    (hopen : ts.is .openParen = true) :
    (tupleType inner place ts).Covers 1 place ts := by
  obtain ⟨t, rest, rfl, ht⟩ := Ahead.exists_of_any hopen
  intro stop hstop
  have helements : (tupleElements inner 0 (place + 1) rest).stop = some stop := by
    simp only [tupleType, List.drop_succ_cons, List.drop_zero] at hstop
    cases h : (tupleElements inner 0 (place + 1) rest).stop with
    | none => simp [h] at hstop
    | some stop' => simpa [h] using hstop
  obtain ⟨front, close, rest', rfl, hclose, rfl, hfront⟩ :=
    exists_tupleElements hinner helements
  refine ⟨t :: (front ++ [close]), rest', by simp, by simp, ?_, fun P hP hts ↦
    hP.enclose _ _ _ _ _ _ ht hclose rfl rfl (hfront P hP (hts.drop 1))⟩
  simp only [List.length_cons, List.length_append, List.length_nil]
  omega

theorem covers_functionPointer {inner : InnerScan} (hinner : inner.Covers) (place : Nat)
    {ts : Ahead} (hword : ts.isWord .delegateWord = true) (hstar : ts.tail.is .star = true) :
    (functionPointer inner place ts).Covers 1 place ts := by
  have hconvention {P : List Token → Prop} (hts : Conventions P ts) :=
    hts ts (List.suffix_refl ts) hword hstar
  obtain ⟨t, rest, rfl, ht⟩ := Ahead.exists_of_any hword
  obtain ⟨star, rest, rfl, hs⟩ := Ahead.exists_of_any hstar
  unfold functionPointer
  refine Covers.after ?_ _
  simp only [List.drop_succ_cons, List.drop_zero] at hconvention ⊢
  split
  · exact covers_fail _ _ _
  · next length hlength =>
    split
    · next hless =>
      obtain ⟨less, rest', hdrop, hl⟩ := Ahead.exists_of_any hless
      have htake : (rest.take length).length = length := by
        have := congrArg List.length hdrop
        rw [List.length_drop, List.length_cons] at this
        rw [List.length_take]
        omega
      have hrest : t :: star :: rest = (t :: star :: (rest.take length ++ [less])) ++ rest' := by
        rw [List.cons_append, List.cons_append, List.append_assoc, List.singleton_append, ← hdrop,
          List.take_append_drop]
      have hnext : rest.drop (length + 1) = rest' := by
        rw [← List.drop_drop, hdrop, List.drop_succ_cons, List.drop_zero]
      rw [hrest] at hconvention ⊢
      rw [hnext]
      refine (covers_typeList hinner true _ rest').weaken.shift _ ?_ (by simp) fun P hP hts ↦ ?_
      · simp only [List.length_cons, List.length_append, List.length_nil, htake]
        omega
      · exact hP.cons (Token.isPlain_of_isWord ht) (hP.cons (Token.isPlain_of_is hs rfl)
          (hP.append _ _ (hconvention hts length hlength)
            (hP.singleton less (Token.isPlain_of_is hl rfl))))
    · exact covers_fail _ _ _

theorem covers_typeStem {inner : InnerScan} (hinner : inner.Covers) (place : Nat) (ts : Ahead) :
    (typeStem inner place ts).Covers 1 place ts := by
  unfold typeStem
  split
  · next hopen => exact covers_tupleType hinner place hopen
  split
  · next hname =>
    obtain ⟨t, rest, rfl, ht⟩ := Ahead.exists_of_any hname
    exact covers_done [t] rfl (Nat.le_refl _) fun _ hP _ ↦
      hP.singleton t (Token.isPlain_of_namesType ht)
  split
  · next hpointer =>
    rw [Bool.and_eq_true] at hpointer
    exact covers_functionPointer hinner place hpointer.1 hpointer.2
  split
  · exact covers_qualifiedName hinner place ts
  · exact covers_fail _ _ _

/-- Whatever room a type scan has, it covers what it should. -/
theorem covers_typeWithin (room : Nat) (inExpression : Bool) :
    (typeWithin room inExpression).Covers := by
  induction room generalizing inExpression with
  | zero => exact covers_fail 1
  | succ room ih =>
    intro place ts stop hstop
    cases hstem : (typeStem (typeWithin room false) place ts).stop with
    | none => simp [typeWithin, andThen, hstem] at hstop
    | some stop' =>
      simp only [typeWithin, andThen, hstem] at hstop
      obtain ⟨front, rest, rfl, hpos, rfl, hfront⟩ :=
        covers_typeStem (ih false) place ts stop' hstem
      rw [show place + front.length - place = front.length by omega, List.drop_left] at hstop
      exact (covers_typeSuffixes inExpression _ rest).shift front rfl hpos hfront stop hstop

namespace Ahead

/-- The scan's end lies within the text, and the tokens before it satisfy every regular condition
that the calling conventions of the text satisfy. -/
private theorem regular_take_of_covers {scan : TypeScan} {ts : Ahead}
    (hscan : scan.Covers 1 0 ts) {stop : Nat} (h : scan.stop = some stop) :
    stop ≤ ts.length ∧ ∀ P, Regular P → Conventions P ts → P (ts.take stop) := by
  obtain ⟨front, rest, rfl, -, rfl, hfront⟩ := hscan stop h
  rw [Nat.zero_add, List.take_left, List.length_append]
  exact ⟨by omega, hfront⟩

/-- What may be passed over up to the end of a type. -/
theorem regular_take_typeScan {ts : Ahead} {inExpression : Bool} {stop : Nat}
    (h : (ts.typeScan inExpression).stop = some stop) :
    stop ≤ ts.length ∧ ∀ P, Regular P → Conventions P ts → P (ts.take stop) :=
  regular_take_of_covers (covers_typeWithin _ inExpression 0 ts) h

theorem regular_take_nameScan {ts : Ahead} {stop : Nat} (h : ts.nameScan.stop = some stop) :
    stop ≤ ts.length ∧ ∀ P, Regular P → Conventions P ts → P (ts.take stop) :=
  regular_take_of_covers (covers_qualifiedName (covers_typeWithin _ false) 0 ts) h

theorem regular_take_argumentScan {ts : Ahead} (hless : ts.is .less = true) {stop : Nat}
    (h : ts.argumentScan.stop = some stop) :
    stop ≤ ts.length ∧ ∀ P, Regular P → Conventions P ts → P (ts.take stop) :=
  regular_take_of_covers (covers_typeArguments (covers_typeWithin _ false) 0 hless) h

end Ahead

end CSharpCheck
