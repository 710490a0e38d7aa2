import CSharpCheck.Proofs.Relocation.Questions
import CSharpCheck.Proofs.TypeFeatures

/-!
# Type scans in two passes

A reader that looks ahead for a type can go over it twice: a first pass only looks where the type
ends, and a second pass notes the features that show. Here the scanners are written for such passes.
They call one another with the number of type argument lists and tuples around, and note a feature
at once where it shows, if the pass is to note it. The two passes find the same end, which is where
the scans of the grammar end, and the second notes what the scans of the grammar collect.
-/

namespace CSharpCheck

/-- What a pass over a type may change. -/
structure PassState where
  progress : Progress
  /-- The depths at which scanners have been called, the latest first. -/
  depths : List Nat

/-- A pass over the tokens of a stream; places are counted from where it starts. -/
structure Pass where
  stream : TokenStream
  start : Nat
  /-- Whether the pass notes the features that show. -/
  noting : Bool

namespace Pass

/-- A stretch of a pass that finds an end or fails. -/
abbrev Stretch := StateM PassState (Option Nat)

/-- A scanner for types inside a type; the tokens start at the given place. -/
abbrev InnerStretch := Nat → Ahead → Stretch

/-- Goes on at the end that has been found, or gives the answer for a failure. -/
def Stretch.follow (x : Stretch) (failed : Option Nat) (next : Nat → Stretch) : Stretch := do
  match ← x with
  | none => return failed
  | some stop => next stop

/-- Records the call of a scanner. -/
def call (depth : Nat) : StateM PassState Unit :=
  modify fun s ↦ { s with depths := depth :: s.depths }

variable (pass : Pass)

/-- Notes the use of a feature, if the pass is to note it. -/
def require (f : Feature) (place : Nat) : StateM PassState Unit :=
  let finding : Finding := ⟨.use f, (pass.stream.token (pass.start + place)).span⟩
  if pass.noting then modify fun s ↦ { s with progress := s.progress.note finding } else return

/-- Goes over the suffixes of a type. -/
def suffixes (inExpression : Bool) (place : Nat) (ts : Ahead) : Stretch :=
  match ts with
  | [] => return some place
  | t :: rest =>
    if t.is .question then
      if inExpression && rest.head?.any (·.startsExpression) then return some place
      else do
        pass.require .nullableTypes place
        suffixes inExpression (place + 1) rest
    else if t.is .star && !inExpression then suffixes inExpression (place + 1) rest
    else if t.is .openBracket then
      let commas := (rest.takeWhile (·.is .comma)).length
      if Ahead.is (rest.drop commas) .closeBracket then
        suffixes inExpression (place + commas + 2) (rest.drop (commas + 1))
      else return some place
    else return some place
termination_by ts.length
decreasing_by all_goals simp only [List.length_drop, List.length_cons]; omega

/-- Goes over types with commas between them up to a greater-than sign. -/
def types (inner : InnerStretch) (passing : Bool) (place : Nat) (ts : Ahead) : Stretch :=
  let words := if passing then
      (ts.takeWhile (·.isWordOf [.refWord, .inWord, .outWord, .readonlyWord])).length
    else 0
  (inner (place + words) (ts.drop words)).follow none fun stop ↦
    match _h : ts.drop (stop - place) with
    | [] => return none
    | t :: rest =>
      if t.is .comma then types inner passing (stop + 1) rest
      else if t.is .greater then return some (stop + 1)
      else return none
termination_by ts.length
decreasing_by
  have := congrArg List.length _h
  simp only [List.length_drop, List.length_cons] at this
  omega

/-- Goes over type arguments from their less-than sign on. -/
def arguments (inner : InnerStretch) (depth place : Nat) (ts : Ahead) : Stretch := do
  call depth
  pass.require .generics place
  let rest := ts.drop 1
  let commas := (rest.takeWhile (·.is .comma)).length
  if Ahead.isOneOf rest [.comma, .greater] then
    if Ahead.is (rest.drop commas) .greater then return some (place + commas + 2) else return none
  else types inner false (place + 1) rest

/-- Goes over the parts of a name. -/
def nameParts (inner : InnerStretch) (depth place : Nat) (ts : Ahead) : Stretch :=
  match ts with
  | [] => return none
  | t :: rest =>
    if !t.isIdentifier then return none
    else if Ahead.is rest .colonColon then do
      pass.require .namespaceAliasQualifier (place + 1)
      nameParts inner depth (place + 2) (rest.drop 1)
    else
      (if Ahead.is rest .less then pass.arguments inner depth (place + 1) rest
        else return some (place + 1)).follow (some (place + 1)) fun stop ↦
          let following := rest.drop (stop - (place + 1))
          if Ahead.is following .dot && Ahead.isIdentifier (following.drop 1) then
            nameParts inner depth (stop + 1) (following.drop 1)
          else return some stop
termination_by ts.length
decreasing_by all_goals simp only [List.length_drop, List.length_cons]; omega

/-- Goes over a name with alias qualifiers, dots and type arguments. -/
def name (inner : InnerStretch) (depth place : Nat) (ts : Ahead) : Stretch := do
  call depth
  pass.nameParts inner depth place ts

/-- Goes over the elements of a tuple type; `count` elements came before. -/
def elements (inner : InnerStretch) (count place : Nat) (ts : Ahead) : Stretch :=
  (inner place ts).follow none fun stop ↦
    let stop := if Ahead.isIdentifier (ts.drop (stop - place)) then stop + 1 else stop
    match _h : ts.drop (stop - place) with
    | [] => return none
    | t :: rest =>
      if t.is .comma then elements inner (count + 1) (stop + 1) rest
      else if t.is .closeParen && 0 < count then return some (stop + 1)
      else return none
termination_by ts.length
decreasing_by
  have := congrArg List.length _h
  simp only [List.length_drop, List.length_cons] at this
  omega

/-- Goes over a tuple type from its opening parenthesis on. -/
def tuple (inner : InnerStretch) (depth place : Nat) (ts : Ahead) : Stretch := do
  call depth
  (elements inner 0 (place + 1) (ts.drop 1)).follow none fun stop ↦ do
    pass.require .tuples place
    return some stop

/-- Goes over a function pointer type from its `delegate` on. -/
def pointer (inner : InnerStretch) (depth place : Nat) (ts : Ahead) : Stretch := do
  call depth
  pass.require .functionPointers place
  let rest := ts.drop 2
  match conventionLength rest with
  | none => return none
  | some length =>
    if Ahead.is (rest.drop length) .less then
      types inner true (place + 3 + length) (rest.drop (length + 1))
    else return none

/-- Goes over a type without its suffixes. -/
def stem (inner : InnerStretch) (depth place : Nat) (ts : Ahead) : Stretch :=
  if ts.is .openParen then pass.tuple inner depth place ts
  else if ts.head?.any (·.namesType) then return some (place + 1)
  else if ts.isWord .delegateWord && ts.tail.is .star then pass.pointer inner depth place ts
  else if ts.isIdentifier then pass.name inner depth place ts
  else return none

/-- Goes over a type inside `depth` type argument lists and tuples. -/
def type (inExpression : Bool) (depth place : Nat) (ts : Ahead) : Stretch := do
  call depth
  if maxTypeDepth < depth then return none
  else
    (pass.stem (type false (depth + 1)) depth place ts).follow none fun stop ↦
      pass.suffixes inExpression stop (ts.drop (stop - place))
termination_by maxTypeDepth + 1 - depth

/-! ### What a pass does -/

/-- The progress after a pass on whose way the features have shown. -/
def noted (p : Progress) (uses : List ScanUse) : Progress :=
  if pass.noting then p.noteUses pass.stream pass.start uses else p

@[simp] theorem noted_nil (p : Progress) : pass.noted p [] = p := by
  unfold noted
  split <;> rfl

theorem noted_append (p : Progress) (uses more : List ScanUse) :
    pass.noted p (uses ++ more) = pass.noted (pass.noted p uses) more := by
  unfold noted
  split
  · simp [Progress.noteUses]
  · rfl

/-- The stretch finds the end that the scan finds, the features of the scan show on its way, and it
calls scanners at no greater depth. -/
def Performs (deepest : Nat) (x : Stretch) (scan : TypeScan) : Prop :=
  ∀ s, ∃ depths : List Nat, (∀ d ∈ depths, d ≤ deepest) ∧
    x.run s = (scan.stop, ⟨pass.noted s.progress scan.uses, depths ++ s.depths⟩)

variable {pass} {deepest depth : Nat} {x : Stretch} {item scan : TypeScan}

theorem performs_return (stop : Option Nat) : pass.Performs deepest (return stop) ⟨stop, []⟩ :=
  fun s ↦ ⟨[], by simp, by rw [noted_nil]; rfl⟩

theorem Performs.mono (h : pass.Performs deepest x scan) {deeper : Nat} (hle : deepest ≤ deeper) :
    pass.Performs deeper x scan := by
  intro s
  obtain ⟨depths, hdepths, hrun⟩ := h s
  exact ⟨depths, fun d hd ↦ Nat.le_trans (hdepths d hd) hle, hrun⟩

theorem Performs.require (h : pass.Performs deepest x scan) (f : Feature) (place : Nat) :
    pass.Performs deepest (do pass.require f place; x) (scan.after [(f, place)]) := by
  intro s
  obtain ⟨depths, hdepths, hrun⟩ := h ⟨pass.noted s.progress [(f, place)], s.depths⟩
  refine ⟨depths, hdepths, ?_⟩
  rw [TypeScan.after, noted_append, ← hrun]
  unfold Pass.require noted
  split <;> rfl

theorem Performs.call (h : pass.Performs deepest x scan) (hdepth : depth ≤ deepest) :
    pass.Performs deepest (do call depth; x) scan := by
  intro s
  obtain ⟨depths, hdepths, hrun⟩ := h ⟨s.progress, depth :: s.depths⟩
  refine ⟨depths ++ [depth], ?_, ?_⟩
  · intro d hd
    rcases List.mem_append.1 hd with hd | hd
    · exact hdepths d hd
    · rwa [List.mem_singleton.1 hd]
  · rw [List.append_assoc]
    exact hrun

private theorem after_uses {stop : Option Nat} (h : item.stop = stop) :
    TypeScan.after ⟨stop, []⟩ item.uses = item := by
  rw [TypeScan.after, List.append_nil, ← h]

/-- Behind a failure the answer for it stands, with what the scan has collected. -/
theorem Performs.follow_of_none (h : pass.Performs deepest x item) (hnone : item.stop = none)
    (failed : Option Nat) (next : Nat → Stretch) :
    pass.Performs deepest (x.follow failed next) (TypeScan.after ⟨failed, []⟩ item.uses) := by
  intro s
  obtain ⟨depths, hdepths, hrun⟩ := h s
  rw [hnone] at hrun
  refine ⟨depths, hdepths, ?_⟩
  rw [TypeScan.after, List.append_nil]
  simp only [Stretch.follow, StateT.run_bind, hrun]
  rfl

theorem Performs.fails (h : pass.Performs deepest x item) (hnone : item.stop = none)
    (next : Nat → Stretch) : pass.Performs deepest (x.follow none next) item := by
  have hfailed := h.follow_of_none hnone none next
  rwa [after_uses hnone] at hfailed

/-- A stretch goes on at the end that it finds. -/
theorem Performs.follow_of_some (h : pass.Performs deepest x item) {stop : Nat}
    (hstop : item.stop = some stop) (failed : Option Nat) {next : Nat → Stretch}
    (hnext : pass.Performs deepest (next stop) scan) :
    pass.Performs deepest (x.follow failed next) (scan.after item.uses) := by
  intro s
  obtain ⟨depths, hdepths, hrun⟩ := h s
  obtain ⟨more, hmore, hrun'⟩ := hnext ⟨pass.noted s.progress item.uses, depths ++ s.depths⟩
  rw [hstop] at hrun
  refine ⟨more ++ depths, ?_, ?_⟩
  · intro d hd
    rcases List.mem_append.1 hd with hd | hd
    · exact hmore d hd
    · exact hdepths d hd
  · rw [TypeScan.after, noted_append, List.append_assoc, ← hrun']
    simp only [Stretch.follow, StateT.run_bind, hrun]
    rfl

theorem Performs.andThen (h : pass.Performs deepest x item) {next : Nat → Stretch}
    {following : Nat → TypeScan}
    (hnext : ∀ stop, pass.Performs deepest (next stop) (following stop)) :
    pass.Performs deepest (x.follow none next) (item.andThen following) := by
  cases hstop : item.stop with
  | none =>
    rw [TypeScan.andThen_of_none hstop]
    exact h.fails hstop next
  | some stop =>
    rw [TypeScan.andThen_of_some hstop]
    exact h.follow_of_some hstop none (hnext stop)

/-! ### The scanners -/

theorem performs_fail : pass.Performs deepest (return none) .fail := performs_return none

theorem performs_done (stop : Nat) : pass.Performs deepest (return some stop) (.done stop) :=
  performs_return (some stop)

theorem performs_suffixes (inExpression : Bool) (place : Nat) (ts : Ahead) :
    pass.Performs deepest (pass.suffixes inExpression place ts)
      (typeSuffixes inExpression place ts) := by
  fun_induction typeSuffixes inExpression place ts with
  | case1 place =>
    rw [suffixes]
    exact performs_done place
  | case2 place t rest ht hoperand =>
    rw [suffixes, if_pos ht, if_pos hoperand]
    exact performs_done place
  | case3 place t rest ht hoperand ih =>
    rw [suffixes, if_pos ht, if_neg hoperand]
    exact ih.require .nullableTypes place
  | case4 place t rest ht hstar ih =>
    rw [suffixes, if_neg ht, if_pos hstar]
    exact ih
  | case5 place t rest ht hstar hopen commas hclose ih =>
    rw [suffixes, if_neg ht, if_neg hstar, if_pos hopen, if_pos hclose]
    exact ih
  | case6 place t rest ht hstar hopen commas hclose =>
    rw [suffixes, if_neg ht, if_neg hstar, if_pos hopen, if_neg hclose]
    exact performs_done place
  | case7 place t rest ht hstar hopen =>
    rw [suffixes, if_neg ht, if_neg hstar, if_neg hopen]
    exact performs_done place

/-- The stretches of a scanner for types inside a type do what its scans tell. -/
def PerformsInner (pass : Pass) (deepest : Nat) (stretch : InnerStretch) (inner : InnerScan) :
    Prop := ∀ place ts, pass.Performs deepest (stretch place ts) (inner place ts)

variable {stretch : InnerStretch} {inner : InnerScan}

private theorem length_lt_of_drop_eq_cons {ts rest : Ahead} {t : Token} {count : Nat}
    (h : ts.drop count = t :: rest) : rest.length < ts.length := by
  have hlength := congrArg List.length h
  simp only [List.length_drop, List.length_cons] at hlength
  omega

theorem performs_types (h : pass.PerformsInner deepest stretch inner) (passing : Bool)
    (place : Nat) (ts : Ahead) :
    pass.Performs deepest (types stretch passing place ts) (typeList inner passing place ts) := by
  induction hlength : ts.length using Nat.strongRecOn generalizing place ts with
  | ind length ih =>
    rw [types, typeList_eq]
    refine (h _ _).andThen fun stop ↦ ?_
    split
    · next hnil =>
      rw [hnil]
      exact performs_fail
    · next t rest hcons =>
      have hlt := hlength ▸ length_lt_of_drop_eq_cons hcons
      rw [hcons]
      dsimp only
      split
      · exact ih _ hlt _ _ rfl
      split
      · exact performs_done _
      · exact performs_fail

theorem performs_elements (h : pass.PerformsInner deepest stretch inner) (count place : Nat)
    (ts : Ahead) :
    pass.Performs deepest (elements stretch count place ts)
      (tupleElements inner count place ts) := by
  induction hlength : ts.length using Nat.strongRecOn generalizing count place ts with
  | ind length ih =>
    rw [elements, tupleElements_eq]
    refine (h _ _).andThen fun stop ↦ ?_
    generalize (if Ahead.isIdentifier (ts.drop (stop - place)) then stop + 1 else stop) = stop
    dsimp only
    split
    · next hnil =>
      rw [hnil]
      exact performs_fail
    · next t rest hcons =>
      have hlt := hlength ▸ length_lt_of_drop_eq_cons hcons
      rw [hcons]
      dsimp only
      split
      · exact ih _ hlt _ _ _ rfl
      split
      · exact performs_done _
      · exact performs_fail

theorem performs_arguments (h : pass.PerformsInner deepest stretch inner) (hdepth : depth ≤ deepest)
    (place : Nat) (ts : Ahead) :
    pass.Performs deepest (pass.arguments stretch depth place ts)
      (typeArguments inner place ts) := by
  refine Performs.call (Performs.require ?_ .generics place) hdepth
  dsimp only
  split
  · split
    · exact performs_done _
    · exact performs_fail
  · exact performs_types h false _ _

theorem performs_nameParts (h : pass.PerformsInner deepest stretch inner) (hdepth : depth ≤ deepest)
    (place : Nat) (ts : Ahead) :
    pass.Performs deepest (pass.nameParts stretch depth place ts)
      (qualifiedName inner place ts) := by
  have performs_suffix (place : Nat) (rest : Ahead) : pass.Performs deepest
      (if Ahead.is rest .less then pass.arguments stretch depth place rest else return some place)
      (if Ahead.is rest .less then typeArguments inner place rest else .done place) := by
    split
    · exact performs_arguments h hdepth place rest
    · exact performs_done place
  fun_induction qualifiedName inner place ts with
  | case1 place =>
    rw [nameParts]
    exact performs_fail
  | case2 place t rest ht =>
    rw [nameParts, if_pos ht]
    exact performs_fail
  | case3 place t rest ht halias ih =>
    rw [nameParts, if_neg ht, if_pos halias]
    exact ih.require .namespaceAliasQualifier (place + 1)
  | case4 place t rest ht halias arguments hnone =>
    rw [nameParts, if_neg ht, if_neg halias]
    exact (performs_suffix (place + 1) rest).follow_of_none hnone (some (place + 1)) _
  | case5 place t rest ht halias arguments stop hstop following hdot ih =>
    rw [nameParts, if_neg ht, if_neg halias]
    refine (performs_suffix (place + 1) rest).follow_of_some hstop _ ?_
    rw [if_pos hdot]
    exact ih
  | case6 place t rest ht halias arguments stop hstop following hdot =>
    rw [nameParts, if_neg ht, if_neg halias, ← after_uses hstop]
    refine (performs_suffix (place + 1) rest).follow_of_some hstop _ ?_
    rw [if_neg hdot]
    exact performs_done stop

theorem performs_name (h : pass.PerformsInner deepest stretch inner) (hdepth : depth ≤ deepest)
    (place : Nat) (ts : Ahead) :
    pass.Performs deepest (pass.name stretch depth place ts) (qualifiedName inner place ts) :=
  (performs_nameParts h hdepth place ts).call hdepth

theorem performs_tuple (h : pass.PerformsInner deepest stretch inner) (hdepth : depth ≤ deepest)
    (place : Nat) (ts : Ahead) :
    pass.Performs deepest (pass.tuple stretch depth place ts) (tupleType inner place ts) := by
  refine Performs.call ?_ hdepth
  have helements := performs_elements h 0 (place + 1) (ts.drop 1)
  unfold tupleType
  dsimp only
  split
  · next hnone => exact helements.fails hnone _
  · next stop hstop =>
    change pass.Performs deepest _
      (TypeScan.after ((TypeScan.done stop).after [(.tuples, place)]) _)
    refine helements.follow_of_some hstop none ?_
    exact (performs_done stop).require .tuples place

theorem performs_pointer (h : pass.PerformsInner deepest stretch inner) (hdepth : depth ≤ deepest)
    (place : Nat) (ts : Ahead) :
    pass.Performs deepest (pass.pointer stretch depth place ts)
      (functionPointer inner place ts) := by
  refine Performs.call (Performs.require ?_ .functionPointers place) hdepth
  dsimp only
  cases conventionLength (ts.drop 2) with
  | none => exact performs_fail
  | some length =>
    dsimp only
    split
    · exact performs_types h true _ _
    · exact performs_fail

theorem performs_stem (h : pass.PerformsInner deepest stretch inner) (hdepth : depth ≤ deepest)
    (place : Nat) (ts : Ahead) :
    pass.Performs deepest (pass.stem stretch depth place ts) (typeStem inner place ts) := by
  unfold stem typeStem
  split
  · exact performs_tuple h hdepth place ts
  split
  · exact performs_done _
  split
  · exact performs_pointer h hdepth place ts
  split
  · exact performs_name h hdepth place ts
  · exact performs_fail

/-- A pass over a type does what the scan tells that has as much room as the depth leaves. -/
theorem performs_type (inExpression : Bool) (depth place : Nat) (ts : Ahead) :
    pass.Performs (max depth (maxTypeDepth + 1)) (pass.type inExpression depth place ts)
      (typeWithin (maxTypeDepth + 1 - depth) inExpression place ts) := by
  induction hroom : maxTypeDepth + 1 - depth generalizing inExpression depth place ts with
  | zero =>
    rw [type]
    refine Performs.call ?_ (Nat.le_max_left _ _)
    rw [if_pos (by omega)]
    exact performs_fail
  | succ room ih =>
    rw [type]
    refine Performs.call ?_ (Nat.le_max_left _ _)
    rw [if_neg (by omega), typeWithin_succ]
    have hinner : pass.PerformsInner (max depth (maxTypeDepth + 1)) (pass.type false (depth + 1))
        (typeWithin room false) := by
      intro place ts
      rw [show max depth (maxTypeDepth + 1) = max (depth + 1) (maxTypeDepth + 1) by omega]
      exact ih false (depth + 1) place ts (by omega)
    exact (performs_stem hinner (Nat.le_max_left _ _) place ts).andThen fun stop ↦
      performs_suffixes inExpression stop _

end Pass

/-! ### Where the scanners find an end -/

section Ends

variable {inner : InnerScan} (h : inner.Covers) {place stop : Nat} {ts : Ahead}

include h

theorem typeArguments_ends (hstop : (typeArguments inner place ts).stop = some stop) :
    place < stop ∧ stop ≤ place + ts.length := by
  simp only [typeArguments, TypeScan.after] at hstop
  split at hstop
  · split at hstop
    · next hclose =>
      have hpos := List.length_pos_iff.2 (Ahead.ne_nil_of_any hclose)
      rw [List.length_drop, List.length_drop] at hpos
      cases hstop
      omega
    · contradiction
  · have hends := (covers_typeList h false (place + 1) (ts.drop 1)).le_stop hstop
    rw [List.length_drop] at hends
    omega

theorem tupleType_ends (hstop : (tupleType inner place ts).stop = some stop) :
    place < stop ∧ stop ≤ place + ts.length := by
  simp only [tupleType] at hstop
  split at hstop
  · next hnone =>
    rw [hnone] at hstop
    contradiction
  · next helements =>
    cases hstop
    obtain ⟨front, close, rest, hts, -, rfl, -⟩ := exists_tupleElements h helements
    have hlength := congrArg List.length hts
    simp only [List.length_drop, List.length_append, List.length_cons] at hlength
    omega

theorem functionPointer_ends (hstop : (functionPointer inner place ts).stop = some stop) :
    place < stop ∧ stop ≤ place + ts.length := by
  simp only [functionPointer, TypeScan.after] at hstop
  split at hstop
  · contradiction
  · split at hstop
    · have hends := (covers_typeList h true _ _).le_stop hstop
      simp only [List.length_drop] at hends
      omega
    · contradiction

end Ends

/-! ### The passes of the scanners -/

/-- The scanners that a pass may start with. -/
inductive TypeScanner where
  | type (inExpression : Bool)
  | qualifiedName
  | typeArguments
  | tupleType
  | functionPointer
  deriving DecidableEq, Repr

namespace TypeScanner

/-- The stretch of a pass that starts with a scanner. -/
def stretch (pass : Pass) (depth : Nat) : TypeScanner → Pass.InnerStretch
  | type inExpression => pass.type inExpression depth
  | qualifiedName => pass.name (pass.type false (depth + 1)) depth
  | typeArguments => pass.arguments (pass.type false (depth + 1)) depth
  | tupleType => pass.tuple (pass.type false (depth + 1)) depth
  | functionPointer => pass.pointer (pass.type false (depth + 1)) depth

/-- The scan of a scanner that has as much room as the depth leaves. -/
def scan (depth : Nat) : TypeScanner → InnerScan
  | type inExpression => typeWithin (maxTypeDepth + 1 - depth) inExpression
  | qualifiedName => CSharpCheck.qualifiedName (typeWithin (maxTypeDepth - depth) false)
  | typeArguments => CSharpCheck.typeArguments (typeWithin (maxTypeDepth - depth) false)
  | tupleType => CSharpCheck.tupleType (typeWithin (maxTypeDepth - depth) false)
  | functionPointer => CSharpCheck.functionPointer (typeWithin (maxTypeDepth - depth) false)

/-- Runs a scanner from a place of a stream, and tells at which place the end has been found. -/
def run (scanner : TypeScanner) (stream : TokenStream) (noting : Bool) (index depth : Nat)
    (s : PassState) : Option Nat × PassState :=
  let pass : Pass := ⟨stream, index, noting⟩
  let (stop, s) := (scanner.stretch pass depth 0 (stream.tokens.toList.drop index)).run s
  (stop.map (index + ·), s)

theorem performs (scanner : TypeScanner) (pass : Pass) (depth place : Nat) (ts : Ahead) :
    pass.Performs (max (depth + 1) (maxTypeDepth + 1)) (scanner.stretch pass depth place ts)
      (scanner.scan depth place ts) := by
  have hdepth : depth ≤ max (depth + 1) (maxTypeDepth + 1) := by omega
  have hinner : pass.PerformsInner (max (depth + 1) (maxTypeDepth + 1))
      (pass.type false (depth + 1)) (typeWithin (maxTypeDepth - depth) false) := by
    intro place ts
    rw [← Nat.add_sub_add_right maxTypeDepth 1 depth]
    exact Pass.performs_type false (depth + 1) place ts
  cases scanner with
  | type inExpression =>
    exact (Pass.performs_type inExpression depth place ts).mono (by omega)
  | qualifiedName => exact Pass.performs_name hinner hdepth place ts
  | typeArguments => exact Pass.performs_arguments hinner hdepth place ts
  | tupleType => exact Pass.performs_tuple hinner hdepth place ts
  | functionPointer => exact Pass.performs_pointer hinner hdepth place ts

theorem ends (scanner : TypeScanner) {depth place stop : Nat} {ts : Ahead}
    (hstop : (scanner.scan depth place ts).stop = some stop) :
    place < stop ∧ stop ≤ place + ts.length := by
  have hinner := covers_typeWithin (maxTypeDepth - depth) false
  cases scanner with
  | type inExpression => exact (covers_typeWithin _ inExpression place ts).le_stop hstop
  | qualifiedName => exact (covers_qualifiedName hinner place ts).le_stop hstop
  | typeArguments => exact typeArguments_ends hinner hstop
  | tupleType => exact tupleType_ends hinner hstop
  | functionPointer => exact functionPointer_ends hinner hstop

/-- A run finds the end of the scan and leaves what the scan tells. -/
theorem run_eq (scanner : TypeScanner) (stream : TokenStream) (noting : Bool) (index depth : Nat)
    (s : PassState) :
    let scan := scanner.scan depth 0 (stream.tokens.toList.drop index)
    ∃ depths : List Nat, (∀ d ∈ depths, d ≤ max (depth + 1) (maxTypeDepth + 1)) ∧
      scanner.run stream noting index depth s = (scan.stop.map (index + ·),
        ⟨if noting then s.progress.noteUses stream index scan.uses else s.progress,
          depths ++ s.depths⟩) := by
  intro scan
  obtain ⟨depths, hdepths, hrun⟩ := scanner.performs ⟨stream, index, noting⟩ depth 0
    (stream.tokens.toList.drop index) s
  exact ⟨depths, hdepths, by rw [run, hrun]; rfl⟩

end TypeScanner

namespace Rule

variable {enter : Surroundings → (q : Nonterminal) → Progress → q.Result × Progress}

/-- A type is read in two passes: one looks where it ends, and if there is an end, the other notes
the features on the way there. -/
theorem runWith_type_passes (inExpression : Bool) (around : Surroundings) {p : Progress}
    (hahead : p.ahead = around.stream.tokens.toList.drop p.index) :
    (type inExpression).runWith enter around p =
      let pass (noting : Bool) :=
        (TypeScanner.type inExpression).run around.stream noting p.index 0 ⟨p, []⟩
      (pass false).1.elim (false, p.report around.stream .here .typeExpected)
        fun stop ↦ (true, (pass true).2.progress.advance (stop - p.index)) := by
  obtain ⟨_, -, hprobing⟩ :=
    (TypeScanner.type inExpression).run_eq around.stream false p.index 0 ⟨p, []⟩
  obtain ⟨_, -, hnoting⟩ :=
    (TypeScanner.type inExpression).run_eq around.stream true p.index 0 ⟨p, []⟩
  rw [← hahead] at hprobing hnoting
  have hscan : (TypeScanner.type inExpression).scan 0 0 p.ahead = p.ahead.typeScan inExpression :=
    rfl
  rw [hscan] at hprobing hnoting
  rw [runWith_type]
  dsimp only
  rw [hprobing, hnoting]
  cases (p.ahead.typeScan inExpression).stop with
  | none => rfl
  | some length =>
    rw [Option.map_some, Option.elim_some, Option.elim_some, Nat.add_sub_cancel_left]
    rfl

end Rule

/-- A pass that notes features and one that does not find the same end of a type or a part of a
type, which is where the scan ends. It lies behind the start and not behind the end of the text. The
passes call scanners at no depth beyond the first at which there is no type, and only the pass that
notes features changes the progress of the reading. -/
theorem type_passes_agree (scanner : TypeScanner) (stream : TokenStream) (index depth : Nat)
    (s : PassState) :
    let scan := scanner.scan depth 0 (stream.tokens.toList.drop index)
    let probing := scanner.run stream false index depth s
    let noting := scanner.run stream true index depth s
    probing.1 = scan.stop.map (index + ·) ∧ noting.1 = probing.1 ∧
      (∀ stop, probing.1 = some stop → index < stop ∧ stop ≤ stream.tokens.size) ∧
      probing.2.progress = s.progress ∧
      noting.2.progress = s.progress.noteUses stream index scan.uses ∧
      ∀ q ∈ [probing.2, noting.2], ∃ depths : List Nat, q.depths = depths ++ s.depths ∧
        ∀ d ∈ depths, d ≤ max (depth + 1) (maxTypeDepth + 1) := by
  intro scan probing noting
  obtain ⟨depths, hdepths, hprobing⟩ := scanner.run_eq stream false index depth s
  obtain ⟨depths', hdepths', hnoting⟩ := scanner.run_eq stream true index depth s
  have hends : ∀ stop, probing.1 = some stop → index < stop ∧ stop ≤ stream.tokens.size := by
    intro stop hstop
    rw [show probing = _ from hprobing] at hstop
    obtain ⟨length, hlength, rfl⟩ := Option.map_eq_some_iff.1 hstop
    obtain ⟨hpos, hle⟩ := scanner.ends hlength
    rw [List.length_drop, Array.length_toList] at hle
    omega
  refine ⟨congrArg Prod.fst hprobing, ?_, hends, congrArg (·.2.progress) hprobing,
    congrArg (·.2.progress) hnoting, ?_⟩
  · exact (congrArg Prod.fst hnoting).trans (congrArg Prod.fst hprobing).symm
  · intro q hq
    rcases List.mem_cons.1 hq with rfl | hq
    · exact ⟨depths, congrArg (·.2.depths) hprobing, hdepths⟩
    · rw [List.mem_singleton.1 hq]
      exact ⟨depths', congrArg (·.2.depths) hnoting, hdepths'⟩

end CSharpCheck
