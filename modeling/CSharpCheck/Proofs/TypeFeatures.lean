import CSharpCheck.Grammar.CompilationUnit
import CSharpCheck.Proofs.Reading.Soundness
import CSharpCheck.Proofs.Reading.TypeScans
import CSharpCheck.Proofs.Rules.Composition
import CSharpCheck.Proofs.VersionChange

/-!
# Where the features of a type show

A type scan notes the features that show on its way. Those of a scan that finds a type stand at the
tokens of the type, with one exception: where a less-than sign follows a name, the scan looks for
type arguments before it knows that there are none, and what it has noted then stands behind the
type.
-/

namespace CSharpCheck

namespace TypeScan

variable {scan : TypeScan} {place start stop : Nat} {ts : Ahead} {u : ScanUse}

theorem andThen_of_none (h : scan.stop = none) (next : Nat → TypeScan) :
    scan.andThen next = scan := by
  rw [andThen, h]

theorem andThen_of_some (h : scan.stop = some stop) (next : Nat → TypeScan) :
    scan.andThen next = (next stop).after scan.uses := by
  rw [andThen, h]

/-! ### Features that show inside a scan -/

/-- What shows in a scan that succeeds shows between its ends. -/
def Inside (scan : TypeScan) (place : Nat) : Prop :=
  ∀ stop, scan.stop = some stop → ∀ u ∈ scan.uses, place ≤ u.2 ∧ u.2 < stop

theorem inside_fail (uses : List ScanUse) (place : Nat) : (fail.after uses).Inside place := by
  intro stop hstop
  contradiction

theorem inside_done (stop place : Nat) : (done stop).Inside place := by
  intro last hlast u hu
  contradiction

/-- What a scan shows may follow what has shown in front of its end. -/
theorem Inside.after (h : scan.Inside start) (hplace : place ≤ start) {uses : List ScanUse}
    (huses : ∀ stop, scan.stop = some stop → ∀ u ∈ uses, place ≤ u.2 ∧ u.2 < stop) :
    (scan.after uses).Inside place := by
  intro stop hstop u hu
  rcases List.mem_append.1 hu with hu | hu
  · exact huses stop hstop u hu
  · obtain ⟨hle, hlt⟩ := h stop hstop u hu
    exact ⟨Nat.le_trans hplace hle, hlt⟩

/-! ### Features that show behind a name -/

/-- What shows in a scan that succeeds shows between its ends, but for what type arguments show that
the scan looks for behind its end and does not find. -/
def Shows (inner : InnerScan) (scan : TypeScan) (place : Nat) (ts : Ahead) : Prop :=
  ∀ stop, scan.stop = some stop → ∀ u ∈ scan.uses, place ≤ u.2 ∧ u.2 < stop ∨
    Ahead.is (ts.drop (stop - place)) .less = true ∧
      (typeArguments inner stop (ts.drop (stop - place))).stop = none ∧
      u ∈ (typeArguments inner stop (ts.drop (stop - place))).uses

theorem Inside.shows (h : scan.Inside place) (inner : InnerScan) (ts : Ahead) :
    scan.Shows inner place ts := fun stop hstop u hu ↦ .inl (h stop hstop u hu)

/-- Unless a less-than sign follows, everything shows inside. -/
theorem Shows.inside {inner : InnerScan} (h : scan.Shows inner place ts)
    (hstop : scan.stop = some stop) (hless : Ahead.is (ts.drop (stop - place)) .less = false) :
    ∀ u ∈ scan.uses, place ≤ u.2 ∧ u.2 < stop := by
  intro u hu
  rcases h stop hstop u hu with hinside | ⟨hless', -⟩
  · exact hinside
  · rw [hless] at hless'
    contradiction

end TypeScan

open TypeScan

/-- The scans of a scanner end behind where they start, and where no less-than sign follows,
everything shows inside. -/
structure InnerScan.Gated (inner : InnerScan) : Prop where
  covers : inner.Covers
  inside {place : Nat} {ts : Ahead} {stop : Nat} : (inner place ts).stop = some stop →
    Ahead.is (ts.drop (stop - place)) .less = false →
      ∀ u ∈ (inner place ts).uses, place ≤ u.2 ∧ u.2 < stop

/-! ### Lists of types -/

theorem TypeScan.Covers.le_stop {scan : TypeScan} {least place stop : Nat} {ts : Ahead}
    (h : scan.Covers least place ts) (hstop : scan.stop = some stop) :
    place + least ≤ stop ∧ stop ≤ place + ts.length := by
  obtain ⟨front, rest, rfl, hleast, rfl, -⟩ := h stop hstop
  rw [List.length_append]
  omega

private theorem is_less_of_is {t : Token} {rest : Ahead} {s : Symbol} (h : t.is s = true)
    (hs : s ≠ .less) : Ahead.is (t :: rest) .less = false := by
  rw [Ahead.is, List.head?_cons, Option.any_some, Token.is, eq_of_beq h, beq_eq_false_iff_ne]
  exact fun heq ↦ hs (Kind.symbol.inj heq)

namespace InnerScan.Gated

variable {inner : InnerScan} (h : inner.Gated)

include h

/-- What shows in a type behind a few words shows in front of its end, if no less-than sign
follows. -/
theorem inside_item {place words stop : Nat} {ts : Ahead}
    (hstop : (inner (place + words) (ts.drop words)).stop = some stop)
    (hless : Ahead.is (ts.drop (stop - place)) .less = false) :
    place < stop ∧
      ∀ u ∈ (inner (place + words) (ts.drop words)).uses, place ≤ u.2 ∧ u.2 < stop := by
  obtain ⟨hle, -⟩ := (h.covers (place + words) (ts.drop words)).le_stop hstop
  refine ⟨by omega, fun u hu ↦ ?_⟩
  rw [show stop - place = words + (stop - (place + words)) by omega, ← List.drop_drop] at hless
  obtain ⟨hplace, hlt⟩ := h.inside hstop hless u hu
  omega

theorem inside_typeList (passing : Bool) (place : Nat) (ts : Ahead) :
    (typeList inner passing place ts).Inside place := by
  fun_induction typeList inner passing place ts with
  | case1 place ts words item hnone =>
    intro stop hstop
    rw [hnone] at hstop
    contradiction
  | case2 | case5 => exact inside_fail _ _
  | case3 place ts words item stop hstop t rest hdrop ht ih =>
    obtain ⟨hlt, huses⟩ := h.inside_item hstop (hdrop ▸ is_less_of_is ht (by decide))
    refine ih.after (by omega) fun stop' hstop' u hu ↦ ?_
    have hle := ((covers_typeList h.covers passing (stop + 1) rest).le_stop hstop').1
    have hinside := huses u hu
    omega
  | case4 place ts words item stop hstop t rest hdrop _ ht =>
    obtain ⟨hlt, huses⟩ := h.inside_item hstop (hdrop ▸ is_less_of_is ht (by decide))
    refine (inside_done (stop + 1) place).after (Nat.le_refl _) fun stop' hstop' u hu ↦ ?_
    cases hstop'
    have hinside := huses u hu
    omega

theorem inside_typeArguments (place : Nat) {ts : Ahead} (hless : ts.is .less = true) :
    (typeArguments inner place ts).Inside place := by
  intro stop hstop u hu
  obtain ⟨hle, -⟩ := (covers_typeArguments h.covers place hless).le_stop hstop
  rcases List.mem_cons.1 hu with rfl | hu
  · exact ⟨Nat.le_refl _, hle⟩
  · simp only [typeArguments, TypeScan.after] at hstop hu
    split at hu
    · split at hu <;> contradiction
    · next hbound =>
      rw [if_neg hbound] at hstop
      obtain ⟨hplace, hlt⟩ := h.inside_typeList false (place + 1) _ stop hstop u hu
      omega

end InnerScan.Gated

/-! ### The other forms of types -/

namespace InnerScan.Gated

variable {inner : InnerScan} (h : inner.Gated)

include h

/-- Behind a name the type arguments that are not closed have shown, if there is a less-than
sign. -/
theorem shows_qualifiedName (place : Nat) (ts : Ahead) :
    (qualifiedName inner place ts).Shows inner place ts := by
  -- What follows a part of a name are its type arguments, if there are any.
  have inside_arguments {place stop : Nat} {rest : Ahead}
      (hstop : (if rest.is .less then typeArguments inner place rest else done place).stop =
        some stop) : place ≤ stop ∧
      ∀ u ∈ (if rest.is .less then typeArguments inner place rest else done place).uses,
        place ≤ u.2 ∧ u.2 < stop := by
    split at hstop
    · next hless =>
      obtain ⟨hle, -⟩ := (covers_typeArguments h.covers place hless).le_stop hstop
      rw [if_pos hless]
      exact ⟨by omega, h.inside_typeArguments place hless stop hstop⟩
    · next hless =>
      cases hstop
      rw [if_neg hless]
      exact ⟨Nat.le_refl _, fun u hu ↦ by contradiction⟩
  fun_induction qualifiedName inner place ts with
  | case1 | case2 => exact (inside_fail [] _).shows inner _
  | case3 place t rest ht halias ih =>
    intro stop hstop u hu
    have hle := ((covers_qualifiedName h.covers (place + 2) (rest.drop 1)).le_stop hstop).1
    have hdrop : (t :: rest).drop (stop - place) = (rest.drop 1).drop (stop - (place + 2)) := by
      rw [List.drop_drop, show stop - place = 1 + (stop - (place + 2)) + 1 by omega,
        List.drop_succ_cons]
    rcases List.mem_cons.1 hu with rfl | hu
    · exact .inl ⟨by omega, by omega⟩
    · rw [hdrop]
      exact (ih stop hstop u hu).imp_left fun hinside ↦ by omega
  | case4 place t rest ht _ arguments hnone =>
    intro stop hstop u hu
    cases hstop
    have hless : Ahead.is rest .less = true := by
      by_contra hless
      rw [show arguments = done (place + 1) from if_neg hless] at hnone
      contradiction
    rw [show arguments = typeArguments inner (place + 1) rest from if_pos hless] at hnone hu
    rw [show (t :: rest).drop (place + 1 - place) = rest by
      rw [Nat.add_sub_cancel_left, List.drop_succ_cons, List.drop_zero]]
    exact .inr ⟨hless, hnone, by simpa [TypeScan.after, done] using hu⟩
  | case5 place t rest ht _ arguments stop hstop following hdot ih =>
    intro stop' hstop' u hu
    obtain ⟨hle, huses⟩ := inside_arguments hstop
    have hlt := ((covers_qualifiedName h.covers (stop + 1) (following.drop 1)).le_stop hstop').1
    have hdrop : (t :: rest).drop (stop' - place) =
        (following.drop 1).drop (stop' - (stop + 1)) := by
      rw [List.drop_drop, List.drop_drop, show stop' - place =
        stop - (place + 1) + (1 + (stop' - (stop + 1))) + 1 by omega, List.drop_succ_cons]
    rcases List.mem_append.1 hu with hu | hu
    · have hinside := huses u hu
      exact .inl ⟨by omega, by omega⟩
    · rw [hdrop]
      exact (ih stop' hstop' u hu).imp_left fun hinside ↦ by omega
  | case6 place t rest ht _ arguments stop hstop following hdot =>
    intro stop' hstop' u hu
    obtain ⟨hle, huses⟩ := inside_arguments hstop'
    have hinside := huses u hu
    exact .inl ⟨by omega, by omega⟩

/-- What shows in an element of a tuple type shows in front of the token behind it, if that is no
less-than sign. -/
theorem inside_element {place stop : Nat} {ts : Ahead} {t : Token} {rest : Ahead}
    (hstop : (inner place ts).stop = some stop)
    (hdrop : ts.drop ((if Ahead.isIdentifier (ts.drop (stop - place)) then stop + 1 else stop)
      - place) = t :: rest) (hless : Ahead.is (t :: rest) .less = false) :
    place < stop ∧ ∀ u ∈ (inner place ts).uses, place ≤ u.2 ∧ u.2 < stop := by
  refine ⟨((h.covers place ts).le_stop hstop).1, h.inside hstop ?_⟩
  by_cases hnamed : Ahead.isIdentifier (ts.drop (stop - place)) = true
  · obtain ⟨name, rest', hname, hidentifier⟩ := Ahead.exists_of_any hnamed
    rw [hname, Ahead.is, List.head?_cons, Option.any_some, Token.is, eq_of_beq hidentifier]
    rfl
  · rw [if_neg hnamed] at hdrop
    rw [hdrop]
    exact hless

theorem inside_tupleElements (count place : Nat) (ts : Ahead) :
    (tupleElements inner count place ts).Inside place := by
  have le_named (stop : Nat) (named : Bool) : stop ≤ if named then stop + 1 else stop := by
    cases named
    · exact Nat.le_refl _
    · exact Nat.le_succ _
  fun_induction tupleElements inner count place ts with
  | case1 count place ts item hnone =>
    intro stop hstop
    rw [hnone] at hstop
    contradiction
  | case2 | case5 => exact inside_fail _ _
  | case3 count place ts item stop hstop named stop' t rest hdrop ht ih =>
    obtain ⟨hlt, huses⟩ := h.inside_element hstop hdrop (is_less_of_is ht (by decide))
    have hnamed : stop ≤ stop' := le_named stop named
    refine ih.after (by omega) fun last hlast u hu ↦ ?_
    obtain ⟨front, close, rest', -, -, rfl, -⟩ := exists_tupleElements h.covers hlast
    have hinside := huses u hu
    omega
  | case4 count place ts item stop hstop named stop' t rest hdrop _ ht =>
    obtain ⟨hlt, huses⟩ := h.inside_element hstop hdrop
      (is_less_of_is (Bool.and_eq_true_iff.1 ht).1 (by decide))
    have hnamed : stop ≤ stop' := le_named stop named
    refine (inside_done (stop' + 1) place).after (Nat.le_refl _) fun last hlast u hu ↦ ?_
    cases hlast
    have hinside := huses u hu
    omega

theorem inside_tupleType (place : Nat) (ts : Ahead) :
    (tupleType inner place ts).Inside place := by
  have helements := h.inside_tupleElements 0 (place + 1) (ts.drop 1)
  intro stop hstop u hu
  simp only [tupleType] at hstop hu
  split at hstop
  · next hnone =>
    rw [hnone] at hstop
    contradiction
  · next stop' hstop' =>
    cases hstop
    obtain ⟨front, close, rest, -, -, rfl, -⟩ := exists_tupleElements h.covers hstop'
    rw [hstop'] at hu
    rcases List.mem_append.1 hu with hu | hu
    · have hinside := helements _ hstop' u hu
      omega
    · rw [List.mem_singleton.1 hu]
      exact ⟨Nat.le_refl _, by omega⟩

theorem inside_functionPointer (place : Nat) (ts : Ahead) :
    (functionPointer inner place ts).Inside place := by
  have inside_types (length : Nat) : (typeList inner true (place + 3 + length)
      ((ts.drop 2).drop (length + 1))).Inside place ∧ ∀ stop, (typeList inner true
        (place + 3 + length) ((ts.drop 2).drop (length + 1))).stop = some stop → place < stop := by
    refine ⟨fun stop hstop u hu ↦ ?_, fun stop hstop ↦ ?_⟩
    · have hinside := h.inside_typeList true _ _ stop hstop u hu
      omega
    · obtain ⟨hle, -⟩ := (covers_typeList h.covers true _ _).le_stop hstop
      omega
  unfold functionPointer
  simp only
  split
  · exact inside_fail _ _
  · next length _ =>
    split
    · obtain ⟨hinside, hlt⟩ := inside_types length
      refine hinside.after (Nat.le_refl _) fun stop hstop u hu ↦ ?_
      rw [List.mem_singleton.1 hu]
      exact ⟨Nat.le_refl _, hlt stop hstop⟩
    · exact inside_fail _ _

theorem shows_typeStem (place : Nat) (ts : Ahead) :
    (typeStem inner place ts).Shows inner place ts := by
  unfold typeStem
  split
  · exact (h.inside_tupleType place ts).shows inner ts
  split
  · exact (inside_done (place + 1) place).shows inner ts
  split
  · exact (h.inside_functionPointer place ts).shows inner ts
  split
  · exact h.shows_qualifiedName place ts
  · exact (inside_fail [] place).shows inner ts

end InnerScan.Gated

/-! ### Types -/

theorem inside_typeSuffixes (inExpression : Bool) (place : Nat) (ts : Ahead) :
    (typeSuffixes inExpression place ts).Inside place := by
  fun_induction typeSuffixes inExpression place ts with
  | case1 | case2 | case6 | case7 => exact inside_done _ _
  | case3 place t rest _ _ ih =>
    refine ih.after (Nat.le_succ _) fun stop hstop u hu ↦ ?_
    rw [List.mem_singleton.1 hu]
    exact ⟨Nat.le_refl _, ((covers_typeSuffixes inExpression (place + 1) rest).le_stop hstop).1⟩
  | case4 place t rest _ _ ih =>
    exact fun stop hstop u hu ↦ (ih stop hstop u hu).imp_left (by omega)
  | case5 place t rest _ _ _ commas _ ih =>
    exact fun stop hstop u hu ↦ (ih stop hstop u hu).imp_left (by omega)

/-- A less-than sign is no suffix of a type. -/
theorem typeSuffixes_of_less {ts : Ahead} (h : ts.is .less = true) (inExpression : Bool)
    (place : Nat) : typeSuffixes inExpression place ts = .done place := by
  obtain ⟨t, rest, rfl, ht⟩ := Ahead.exists_of_any h
  have hkind : t.kind = .symbol .less := eq_of_beq ht
  unfold typeSuffixes
  simp [Token.is, hkind]

theorem typeWithin_succ (room : Nat) (inExpression : Bool) (place : Nat) (ts : Ahead) :
    typeWithin (room + 1) inExpression place ts =
      (typeStem (typeWithin room false) place ts).andThen fun stop ↦
        typeSuffixes inExpression stop (ts.drop (stop - place)) := rfl

/-- What shows in a type of which a scan has found the end. -/
theorem shows_typeWithin (room : Nat) (inExpression : Bool)
    (h : (typeWithin room false).Gated) (place : Nat) (ts : Ahead) :
    (typeWithin (room + 1) inExpression place ts).Shows (typeWithin room false) place ts := by
  intro last hlast u hu
  cases hstop : (typeStem (typeWithin room false) place ts).stop with
  | none =>
    rw [typeWithin_succ, andThen_of_none hstop, hstop] at hlast
    contradiction
  | some stop =>
    rw [typeWithin_succ, andThen_of_some hstop] at hlast hu
    obtain ⟨hlt, -⟩ := (covers_typeStem h.covers place ts).le_stop hstop
    have hle := ((covers_typeSuffixes inExpression stop (ts.drop (stop - place))).le_stop hlast).1
    rcases List.mem_append.1 hu with hu | hu
    · rcases h.shows_typeStem place ts stop hstop u hu with hinside | hbehind
      · exact .inl ⟨hinside.1, by omega⟩
      · rw [typeSuffixes_of_less hbehind.1] at hlast
        cases hlast
        exact .inr hbehind
    · have hinside := inside_typeSuffixes inExpression stop _ last hlast u hu
      exact .inl ⟨by omega, hinside.2⟩

theorem gated_typeWithin (room : Nat) (inExpression : Bool) :
    (typeWithin room inExpression).Gated := by
  induction room generalizing inExpression with
  | zero => exact ⟨covers_typeWithin 0 inExpression, fun hstop ↦ by contradiction⟩
  | succ room ih =>
    exact ⟨covers_typeWithin (room + 1) inExpression,
      fun hstop hless ↦ (shows_typeWithin room inExpression (ih false) _ _).inside hstop hless⟩

/-! ### Reading a type -/

/-- The progress after noting the features that a scan from the given place shows. -/
def Progress.noteUses (p : Progress) (stream : TokenStream) (start : Nat) (uses : List ScanUse) :
    Progress :=
  { p with found := (uses.map fun u ↦
      (⟨.use u.1, (stream.token (start + u.2)).span⟩ : Finding)).reverse ++ p.found }

namespace Rule

variable {enter : Surroundings → (q : Nonterminal) → Progress → q.Result × Progress}

theorem runWith_requireUses (start : Nat) (uses : List ScanUse) (around : Surroundings)
    (p : Progress) : (requireUses start uses).runWith enter around p =
      ((), p.noteUses around.stream start uses) := by
  induction uses generalizing p with
  | nil => rfl
  | cons use uses ih =>
    rw [requireUses, runWith, ih]
    simp [Progress.noteUses, Progress.note]

/-- A type is read by noting what its scan shows and moving on to its end. -/
theorem runWith_type (inExpression : Bool) (around : Surroundings) (p : Progress) :
    (type inExpression).runWith enter around p =
      (p.ahead.typeScan inExpression).stop.elim (false, p.report around.stream .here .typeExpected)
        fun length ↦ (true, (p.noteUses around.stream p.index
          (p.ahead.typeScan inExpression).uses).advance length) := by
  cases hstop : (p.ahead.typeScan inExpression).stop with
  | none =>
    simp only [type, runWith, hstop]
    rfl
  | some length =>
    simp only [type, runWith, hstop, runWith_bind, runWith_requireUses]
    rfl

end Rule

/-- The features that the gate refuses in a type stand at tokens of the type, unless type arguments
have been looked for at a less-than sign behind it and not found: then they may have shown in
these. -/
theorem type_features_inside
    (enter : Surroundings → (q : Nonterminal) → Progress → q.Result × Progress)
    (around : Surroundings) (inExpression : Bool) (p : Progress) (gate : Gate) :
    let q := ((Rule.type inExpression).runWith enter around p).2
    ∃ new, q.found = new ++ p.found ∧ ∀ d ∈ gate.diagnostics new, d.category = .version →
      ∃ index, d.span = (around.stream.token index).span ∧ p.index ≤ index ∧
        (index < q.index ∨ q.ahead.is .less = true ∧
          let arguments := typeArguments nestedType (q.index - p.index) q.ahead
          arguments.stop = none ∧ ∃ f, (f, index - p.index) ∈ arguments.uses) := by
  intro q
  have hrun := @Rule.runWith_type enter inExpression around p
  cases hstop : (p.ahead.typeScan inExpression).stop with
  | none =>
    have hq : q = p.report around.stream .here .typeExpected := by
      rw [hstop] at hrun
      exact congrArg Prod.snd hrun
    rw [hq, Progress.report]
    split
    · exact ⟨[], rfl, fun d hd ↦ by cases hd⟩
    · refine ⟨[_], rfl, fun d hd hversion ↦ ?_⟩
      obtain ⟨f, span, hfinding, -⟩ := Gate.mem_diagnostics_version hd hversion
      have huse := List.mem_singleton.1 hfinding
      contradiction
  | some length =>
    have hq : q = (p.noteUses around.stream p.index
        (p.ahead.typeScan inExpression).uses).advance length := by
      rw [hstop] at hrun
      exact congrArg Prod.snd hrun
    have hshows := shows_typeWithin maxTypeDepth inExpression (gated_typeWithin _ _) 0 p.ahead
    obtain ⟨-, hle⟩ := (covers_typeWithin (maxTypeDepth + 1) inExpression 0 p.ahead).le_stop hstop
    have hindex : q.index = p.index + length := by
      rw [hq, Progress.index_advance, Nat.min_eq_left (by simpa [Progress.noteUses] using hle)]
      rfl
    have hahead : q.ahead = p.ahead.drop length := by
      rw [hq, Progress.ahead_advance]
      rfl
    refine ⟨_, by rw [hq, Progress.found_advance]; rfl, fun d hd hversion ↦ ?_⟩
    obtain ⟨f, span, hfinding, hd⟩ := Gate.mem_diagnostics_version hd hversion
    obtain ⟨u, hu, huse⟩ := List.mem_map.1 (List.mem_reverse.1 hfinding)
    cases huse
    refine ⟨p.index + u.2, by rw [(Gate.check_eq_some_iff.1 hd).2], Nat.le_add_right _ _, ?_⟩
    rw [hindex, hahead, Nat.add_sub_cancel_left, Nat.add_sub_cancel_left]
    rcases hshows length hstop u hu with ⟨-, hlt⟩ | ⟨hless, hnone, hu⟩
    · exact .inl (by omega)
    · exact .inr ⟨hless, hnone, u.1, hu⟩

/-- Behind `as`, the name `A` is a type that ends in front of the less-than sign, which the gate
refuses all the same. -/
theorem less_sign_refused :
    let name (text : String) (n : Nat) : Token :=
      ⟨.identifier, text, some text, ⟨⟨1, n + 1, n⟩, ⟨1, n + 2, n + 1⟩⟩, false, []⟩
    let stream : TokenStream := ⟨#[name "A" 0,
      ⟨.symbol .less, "<", none, ⟨⟨1, 3, 2⟩, ⟨1, 4, 3⟩⟩, false, []⟩, name "y" 4],
      ⟨.endOfFile, "", none, .point ⟨1, 6, 5⟩, false, []⟩⟩
    let q := (grammarRules.run (Rule.type true) ⟨stream, false, []⟩ (.start stream)).2
    q.index = 1 ∧ (Gate.ofChoice (.concrete .v1) []).diagnostics q.found =
      [⟨.error, "CS8022", "Feature 'generics' is not available in C# 1. " ++
        "Please use language version 2 or greater.", (stream.token 1).span, .version⟩] := by
  decide +kernel

end CSharpCheck
