import CSharpCheck.Proofs.Reading.Places
import CSharpCheck.Proofs.Rules.Composition
import CSharpCheck.Proofs.TypePasses

/-!
# Declarations are read as they are looked over

Whether a declaration comes next is decided by looking over its modifiers and its name, and they are
read afterwards, by rules that ask the tokens ahead on their own. The reading comes to the place at
which the looking over has stopped. Only in front of `this` it goes one token further, over the dot.
-/

namespace CSharpCheck

/-! ### Tokens that are taken one by one -/

namespace Ahead

/-- The number of tokens in front of the first place at which the tokens ahead answer the question
with no. -/
def countWhile (question : Ahead → Bool) : Ahead → Nat
  | [] => 0
  | t :: ts => if question (t :: ts) then countWhile question ts + 1 else 0

theorem modifiers_eq (ts : Ahead) : ts.modifiers = ts.countWhile isModifier := by
  induction ts with
  | nil => rfl
  | cons t ts ih => rw [modifiers, countWhile, ih]

theorem localModifiers_eq (ts : Ahead) : ts.localModifiers = ts.countWhile isLocalModifier := by
  induction ts with
  | nil => rfl
  | cons t ts ih => rw [localModifiers, countWhile, ih]

theorem countWhile_le (question : Ahead → Bool) (ts : Ahead) :
    ts.countWhile question ≤ ts.length := by
  induction ts with
  | nil => exact Nat.le_refl 0
  | cons t ts ih =>
    rw [countWhile]
    split
    · exact Nat.succ_le_succ ih
    · exact Nat.zero_le _

end Ahead

namespace Progress

variable {p : Progress} {t : Token} {ts : Ahead}

/-- The next tokens with their places. -/
def nextTokens (p : Progress) (count : Nat) : List Placed :=
  (p.ahead.take count).zipIdx.map fun (t, offset) ↦ ⟨p.index + offset, t⟩

@[simp] theorem nextTokens_zero (p : Progress) : p.nextTokens 0 = [] := rfl

theorem advance_one (h : p.ahead = t :: ts) :
    p.advance 1 = { p with index := p.index + 1, ahead := ts, charged := false } := by
  simp only [advance, h, List.take_zero, List.length_nil, List.drop_zero, Nat.add_zero]

theorem advance_succ (h : p.ahead = t :: ts) (count : Nat) :
    p.advance (count + 1) = (p.advance 1).advance count := by
  rw [advance_one h]
  cases count with
  | zero => rw [advance_one h]; rfl
  | succ count =>
    cases ts with
    | nil => simp [advance, h]
    | cons u us =>
      simp only [advance, h, List.take_succ_cons, List.length_cons, List.drop_succ_cons]
      congr 1
      omega

theorem nextTokens_succ (h : p.ahead = t :: ts) (count : Nat) :
    p.nextTokens (count + 1) = ⟨p.index, t⟩ :: (p.advance 1).nextTokens count := by
  simp only [nextTokens, h, advance_one h, List.take_succ_cons, List.zipIdx_cons, List.map_cons,
    Nat.add_zero]
  congr 1
  rw [List.zipIdx_succ, List.map_map]
  refine List.map_congr_left fun u _ ↦ ?_
  rw [Function.comp_apply, Nat.add_assoc, Nat.add_comm 1]

/-- The progress with other findings. -/
def withFound (p : Progress) (found : List Finding) : Progress := { p with found }

@[simp] theorem index_withFound (p : Progress) (found : List Finding) :
    (p.withFound found).index = p.index := rfl

@[simp] theorem ahead_withFound (p : Progress) (found : List Finding) :
    (p.withFound found).ahead = p.ahead := rfl

@[simp] theorem nextTokens_withFound (p : Progress) (found : List Finding) (count : Nat) :
    (p.withFound found).nextTokens count = p.nextTokens count := rfl

@[simp] theorem withFound_withFound (p : Progress) (found more : List Finding) :
    (p.withFound found).withFound more = p.withFound more := rfl

/-- Moving on has nothing to do with what has been found. -/
@[simp] theorem advance_withFound (p : Progress) (found : List Finding) (count : Nat) :
    (p.withFound found).advance count = (p.advance count).withFound found := by
  unfold advance
  rw [ahead_withFound]
  split
  · rfl
  · rfl
  · rfl

theorem PlacedIn.length_ahead_lt {stream : TokenStream} (h : p.PlacedIn stream) :
    p.ahead.length < stream.size := by
  rw [h.ahead, List.length_drop, Array.length_toList, TokenStream.size]
  omega

end Progress

namespace Rule

variable (enter : Surroundings → (q : Nonterminal) → Progress → q.Result × Progress)
  (around : Surroundings) {p : Progress}

/-- Takes the next token if the tokens ahead answer the question with yes, and notes the feature
that the token uses after those that have been taken. -/
def takingRound (question : Ahead → Bool) (feature? : List Placed → Token → Option Feature)
    (taken : List Placed) : Rule (Round (List Placed)) := look fun v ↦
  match v.ahead with
  | [] => return .stop taken
  | t :: _ =>
    if question v.ahead then do
      match feature? taken t with
      | some f => requireHere f
      | none => pure ()
      skipToken
      return .again (taken ++ [⟨v.index, t⟩])
    else return .stop taken

/-- Takes tokens one by one as long as the tokens ahead answer the question with yes. -/
def taking (question : Ahead → Bool) (feature? : List Placed → Token → Option Feature) :
    Rule (List Placed) := loop [] (takingRound question feature?) pure

theorem localModifierList_eq :
    localModifierList = taking (·.isLocalModifier) localModifierFeature? := rfl

section Taking

variable (question : Ahead → Bool) (feature? : List Placed → Token → Option Feature)
  (taken : List Placed) {t : Token} {ts : Ahead}

theorem runWith_takingRound_stop
    (h : p.ahead = [] ∨ question p.ahead = false) :
    (takingRound question feature? taken).runWith enter around p = (.stop taken, p) := by
  rw [takingRound, runWith]
  dsimp only
  split
  · rfl
  · next hahead =>
    rcases h with h | h
    · rw [h] at hahead
      contradiction
    · rw [h, if_neg Bool.false_ne_true]
      rfl

theorem runWith_takingRound_again (hahead : p.ahead = t :: ts) (h : question p.ahead = true) :
    ∃ found, (takingRound question feature? taken).runWith enter around p =
        (.again (taken ++ [⟨p.index, t⟩]), (p.advance 1).withFound found) ∧
      (feature? taken t = none → found = p.found) := by
  rw [takingRound, runWith]
  dsimp only
  rw [hahead] at h ⊢
  dsimp only
  rw [if_pos h]
  cases feature? taken t with
  | none =>
    refine ⟨p.found, ?_, fun _ ↦ rfl⟩
    rw [← Progress.advance_withFound]
    rfl
  | some f =>
    refine ⟨⟨.use f, (around.stream.token p.index).span⟩ :: p.found, ?_,
      fun h ↦ absurd h (Option.some_ne_none f)⟩
    rw [← Progress.advance_withFound]
    rfl

/-- The tokens are taken up to the first place at which the answer is no. -/
theorem rounds_taking {limit : Nat} (hlimit : p.ahead.length < limit) :
    ∃ found, rounds (fun taken p ↦ (takingRound question feature? taken).runWith enter around p)
          limit taken p =
        (taken ++ p.nextTokens (p.ahead.countWhile question),
          (p.advance (p.ahead.countWhile question)).withFound found) ∧
      ((∀ taken t, feature? taken t = none) → found = p.found) := by
  induction limit generalizing taken p with
  | zero => omega
  | succ limit ih =>
    cases hahead : p.ahead with
    | nil =>
      refine ⟨p.found, ?_, fun _ ↦ rfl⟩
      rw [rounds, runWith_takingRound_stop enter around question feature? taken (.inl hahead)]
      rw [Ahead.countWhile, Progress.nextTokens_zero, List.append_nil]
      rfl
    | cons t ts =>
      by_cases h : question (t :: ts) = true
      · obtain ⟨found, hround, hfound⟩ :=
          runWith_takingRound_again enter around question feature? taken hahead (hahead ▸ h)
        have hshorter : (p.advance 1).ahead.length < limit := by
          rw [Progress.advance_one hahead]
          rw [hahead, List.length_cons] at hlimit
          exact Nat.lt_of_succ_lt_succ hlimit
        have hmoves : p.index < (p.advance 1).index := by
          rw [Progress.advance_one hahead]
          exact Nat.lt_succ_self _
        have hbehind : (p.advance 1).ahead = ts := by rw [Progress.advance_one hahead]
        obtain ⟨found', hrest, hfound'⟩ := ih (taken ++ [⟨p.index, t⟩])
          (p := (p.advance 1).withFound found) hshorter
        refine ⟨found', ?_, fun hnone ↦ (hfound' hnone).trans (hfound (hnone taken t))⟩
        rw [rounds, hround]
        dsimp only
        rw [Progress.index_withFound, if_pos hmoves, hrest]
        rw [Ahead.countWhile, if_pos h, Progress.nextTokens_succ hahead,
          Progress.advance_succ hahead (Ahead.countWhile question ts), Progress.ahead_withFound,
          hbehind, Progress.nextTokens_withFound, Progress.advance_withFound,
          Progress.withFound_withFound, List.append_assoc, List.singleton_append]
      · refine ⟨p.found, ?_, fun _ ↦ rfl⟩
        rw [rounds, runWith_takingRound_stop enter around question feature? taken
          (.inr (by rw [hahead]; exact Bool.eq_false_iff.2 h))]
        rw [Ahead.countWhile, if_neg h, Progress.nextTokens_zero, List.append_nil]
        rfl

end Taking

theorem runWith_taking (question : Ahead → Bool)
    (feature? : List Placed → Token → Option Feature) (hp : p.PlacedIn around.stream) :
    ∃ found, (taking question feature?).runWith enter around p =
        (p.nextTokens (p.ahead.countWhile question),
          (p.advance (p.ahead.countWhile question)).withFound found) ∧
      ((∀ taken t, feature? taken t = none) → found = p.found) := by
  obtain ⟨found, hrounds, hfound⟩ := rounds_taking enter around question feature? []
    hp.length_ahead_lt
  refine ⟨found, ?_, hfound⟩
  rw [taking, runWith, hrounds]
  rfl

/-! ### Modifiers -/

/-- Notes the features of the modifiers of a declaration and tells the modifiers. -/
def noted (modifiers : List Placed) : Rule (List Placed) := do
  match placeOf? .privateWord modifiers, placeOf? .protectedWord modifiers with
  | some i, some j => requireAt .privateProtected (max i j)
  | _, _ => pure ()
  requireModifiers modifiers
  return modifiers

/-- Reads the modifiers of a declaration one by one. -/
def modifiersInTurn : Rule (List Placed) := taking (·.isModifier) (fun _ _ ↦ none) >>= noted

theorem runWith_modifierList (p : Progress) :
    modifierList.runWith enter around p =
      (noted (p.nextTokens p.ahead.modifiers)).runWith enter around
        (p.advance p.ahead.modifiers) := rfl

/-- Reading the modifiers one by one leads to the same. -/
theorem runWith_modifiersInTurn (hp : p.PlacedIn around.stream) :
    modifiersInTurn.runWith enter around p = modifierList.runWith enter around p := by
  obtain ⟨found, htaking, hfound⟩ := runWith_taking enter around (·.isModifier) (fun _ _ ↦ none)
    hp
  have hkept : (p.advance p.ahead.modifiers).withFound p.found = p.advance p.ahead.modifiers := by
    rw [← Progress.advance_withFound]
    rfl
  rw [modifiersInTurn, runWith_bind, htaking, hfound fun _ _ ↦ rfl, runWith_modifierList,
    ← Ahead.modifiers_eq, hkept]

theorem runWith_requireModifiers (modifiers : List Placed) (p : Progress) :
    ∃ found, (requireModifiers modifiers).runWith enter around p = ((), p.withFound found) := by
  induction modifiers generalizing p with
  | nil => exact ⟨p.found, rfl⟩
  | cons m ms ih =>
    rw [requireModifiers]
    cases modifierFeature? m.token with
    | none => exact ih p
    | some f => exact ih _

/-- Noting features moves nothing. -/
theorem runWith_noted (modifiers : List Placed) (p : Progress) :
    ∃ found, (noted modifiers).runWith enter around p = (modifiers, p.withFound found) := by
  rw [noted]
  split
  · next i j _ _ =>
    obtain ⟨found, hfound⟩ := runWith_requireModifiers enter around modifiers
      (p.note ⟨.use .privateProtected, (around.stream.token (max i j)).span⟩)
    refine ⟨found, ?_⟩
    simp only [runWith_bind, requireAt, runWith, hfound]
    rfl
  · obtain ⟨found, hfound⟩ := runWith_requireModifiers enter around modifiers p
    refine ⟨found, ?_⟩
    simp only [runWith_bind, runWith, hfound]
    rfl

/-! ### Names of members -/

/-- Reads what may come behind a part of a member's name. -/
def nameRound (_ : Bool) : Rule (Round Bool) := look fun v ↦
  match v.ahead.qualifierArguments with
  | none => return .stop false
  | some length => do
    requireUses v.index (if 0 < length then v.ahead.argumentScan.uses else [])
    skip length
    qualifiedPart

theorem memberName_eq :
    memberName = skipToken >>= fun _ ↦ loop false nameRound pure := rfl

/-- Behind the last part of a name only a dot in front of `this` is passed over. -/
theorem runWith_qualifiedPart_last
    (h : p.ahead.is .dot = true → p.ahead.tail.isIdentifier = false) :
    let ends := p.ahead.is .dot && p.ahead.tail.isWord .thisWord
    qualifiedPart.runWith enter around p = (.stop ends, p.advance ends.toNat) := by
  rw [qualifiedPart, runWith]
  dsimp only
  cases hdot : p.ahead.is .dot with
  | false => rfl
  | true =>
    cases p.ahead.tail.isWord .thisWord with
    | true => rfl
    | false =>
      rw [h hdot]
      rfl

theorem runWith_qualifiedPart_next {dot name : Token} {ts : Ahead}
    (hahead : p.ahead = dot :: name :: ts) (hdot : dot.is .dot = true)
    (hname : name.isIdentifier = true) :
    qualifiedPart.runWith enter around p = (.again false, p.advance 2) := by
  have hkind : name.kind = .identifier := eq_of_beq hname
  have hthis : name.isWord .thisWord = false := by rw [Token.isWord, hkind]; rfl
  rw [qualifiedPart, runWith]
  dsimp only
  rw [hahead]
  simp [Ahead.is, Ahead.isWord, Ahead.isIdentifier, Ahead.tail, hdot, hname, hthis]
  rfl

theorem runWith_nameRound (state : Bool) {length : Nat}
    (h : p.ahead.qualifierArguments = some length) :
    ∃ found, (nameRound state).runWith enter around p =
      qualifiedPart.runWith enter around ((p.advance length).withFound found) := by
  rw [nameRound, runWith]
  dsimp only
  rw [h]
  dsimp only
  rw [runWith_bind, runWith_requireUses]
  refine ⟨(p.noteUses around.stream p.index
    (if 0 < length then p.ahead.argumentScan.uses else [])).found, ?_⟩
  rw [← Progress.advance_withFound]
  rfl

end Rule

namespace Ahead

variable {ts : Ahead} {t : Token}

/-- Whether a dot and `this` come behind the name of a member at the first token. -/
def namesIndexer (ts : Ahead) : Bool :=
  let behind : Ahead := ts.drop ts.declaredName
  behind.is .dot && behind.tail.isWord .thisWord

theorem not_is_dot_of_qualifierArguments (h : ts.qualifierArguments = none) :
    ts.is .dot = false := by
  cases ts with
  | nil => rfl
  | cons t ts =>
    unfold qualifierArguments at h
    split at h
    · next hless =>
      have hkind : t.kind = .symbol .less := eq_of_beq hless
      simp [is, Token.is, hkind]
    · contradiction

theorem qualifierArguments_le {length : Nat} (h : ts.qualifierArguments = some length) :
    length ≤ ts.length := by
  unfold qualifierArguments at h
  split at h
  · split at h
    · contradiction
    · next stop hstop =>
      split at h
      · cases h
        have hends := typeArguments_ends (covers_typeWithin maxTypeDepth false) hstop
        omega
      · contradiction
  · cases h
    exact Nat.zero_le _

/-- A name ends, unless a dot and another identifier come next. -/
theorem declaredName_of_last (t : Token) {ts : Ahead} {length : Nat}
    (hlength : (qualifierArguments ts).getD 0 = length)
    (h : is (ts.drop length) .dot = true → isIdentifier (tail (ts.drop length)) = false) :
    declaredName (t :: ts) = length + 1 := by
  rw [declaredName]
  rw [hlength, if_neg]
  intro hmore
  obtain ⟨hdot, hname⟩ := Bool.and_eq_true_iff.1 hmore
  rw [h hdot] at hname
  contradiction

theorem declaredName_of_next (t : Token) {ts us : Ahead} {length : Nat} {dot name : Token}
    (hlength : ts.qualifierArguments = some length) (hdrop : ts.drop length = dot :: name :: us)
    (hdot : dot.is .dot = true) (hname : name.isIdentifier = true) :
    declaredName (t :: ts) = length + 2 + declaredName (name :: us) := by
  rw [declaredName]
  rw [hlength, Option.getD_some, hdrop]
  simp [is, isIdentifier, tail, hdot, hname]

/-- Behind the last part of a name the tokens tell whether `this` comes next. -/
theorem namesIndexer_of_last (h : declaredName (t :: ts) = length + 1) :
    namesIndexer (t :: ts) =
      (is (ts.drop length) .dot && isWord (tail (ts.drop length)) .thisWord) := by
  rw [namesIndexer, h, List.drop_succ_cons]

end Ahead

namespace Rule

variable (enter : Surroundings → (q : Nonterminal) → Progress → q.Result × Progress)
  (around : Surroundings) {p : Progress}

/-- Behind the token `t` the reading has come to where the name that begins with it ends, or to
`this` behind the dot after it. -/
structure PassesName (t : Token) (p q : Progress) : Prop where
  index : q.index + 1 = p.index + Ahead.declaredName (t :: p.ahead) +
    (Ahead.namesIndexer (t :: p.ahead)).toNat
  ahead : q.ahead = (t :: p.ahead).drop (Ahead.declaredName (t :: p.ahead) +
    (Ahead.namesIndexer (t :: p.ahead)).toNat)

theorem runWith_nameRound_none (state : Bool) (t : Token)
    (hlength : p.ahead.qualifierArguments = none) :
    (nameRound state).runWith enter around p = (.stop (Ahead.namesIndexer (t :: p.ahead)), p) ∧
      PassesName t p p := by
  have hdot := Ahead.not_is_dot_of_qualifierArguments hlength
  have hname : Ahead.declaredName (t :: p.ahead) = 0 + 1 := by
    apply Ahead.declaredName_of_last
    · rw [hlength]
      rfl
    · intro h
      rw [List.drop_zero, hdot] at h
      contradiction
  have hindexer : Ahead.namesIndexer (t :: p.ahead) = false := by
    rw [Ahead.namesIndexer_of_last hname, List.drop_zero, hdot]
    rfl
  constructor
  · rw [hindexer, nameRound, runWith]
    dsimp only
    rw [hlength]
    rfl
  · constructor
    · rw [hname, hindexer]
      rfl
    · rw [hname, hindexer]
      rfl

section Parts

variable {length : Nat} (state : Bool) (t : Token)
  (hlength : p.ahead.qualifierArguments = some length)

include hlength

theorem exists_runWith_nameRound :
    ∃ q, (nameRound state).runWith enter around p = qualifiedPart.runWith enter around q ∧
      q.index = p.index + length ∧ q.ahead = p.ahead.drop length := by
  obtain ⟨found, hround⟩ := runWith_nameRound enter around state hlength
  refine ⟨_, hround, ?_, ?_⟩
  · rw [Progress.index_withFound, Progress.index_advance,
      Nat.min_eq_left (Ahead.qualifierArguments_le hlength)]
  · rw [Progress.ahead_withFound, Progress.ahead_advance]

/-- A round behind the last part of a name ends the reading of the name. -/
theorem runWith_nameRound_last
    (hlast : Ahead.is (p.ahead.drop length) .dot = true →
      Ahead.isIdentifier (Ahead.tail (p.ahead.drop length)) = false) :
    ∃ q, (nameRound state).runWith enter around p = (.stop (Ahead.namesIndexer (t :: p.ahead)), q) ∧
      PassesName t p q := by
  obtain ⟨q, hround, hindex, hahead⟩ := exists_runWith_nameRound enter around state hlength
  have hname : Ahead.declaredName (t :: p.ahead) = length + 1 := by
    apply Ahead.declaredName_of_last
    · rw [hlength, Option.getD_some]
    · exact hlast
  have hindexer := Ahead.namesIndexer_of_last hname
  rw [← hahead] at hlast hindexer
  rw [hround, runWith_qualifiedPart_last enter around hlast, ← hindexer]
  refine ⟨q.advance (Ahead.namesIndexer (t :: p.ahead)).toNat, rfl, ?_, ?_⟩
  · have hwithin : (Ahead.namesIndexer (t :: p.ahead)).toNat ≤ q.ahead.length := by
      cases hends : Ahead.namesIndexer (t :: p.ahead) with
      | false => exact Nat.zero_le _
      | true =>
        rw [hends] at hindexer
        obtain ⟨hdot, -⟩ := Bool.and_eq_true_iff.1 hindexer.symm
        exact List.length_pos_iff.2 (Ahead.ne_nil_of_any hdot)
    rw [Progress.index_advance, Nat.min_eq_left hwithin, hname]
    omega
  · rw [Progress.ahead_advance, hahead, List.drop_drop, hname, Nat.add_right_comm,
      List.drop_succ_cons]

/-- A round in front of another part of a name goes on behind the identifier of that part. -/
theorem runWith_nameRound_next {dot name : Token} {us : Ahead}
    (hdrop : p.ahead.drop length = dot :: name :: us) (hdot : dot.is .dot = true)
    (hname : name.isIdentifier = true) :
    ∃ q, (nameRound state).runWith enter around p = (.again false, q) ∧
      p.index < q.index ∧ q.ahead.length < p.ahead.length ∧
      Ahead.namesIndexer (t :: p.ahead) = Ahead.namesIndexer (name :: q.ahead) ∧
      ∀ r, PassesName name q r → PassesName t p r := by
  obtain ⟨q, hround, hindex, hahead⟩ := exists_runWith_nameRound enter around state hlength
  rw [hdrop] at hahead
  have hmore := Ahead.declaredName_of_next t hlength hdrop hdot hname
  have hpassed : (t :: p.ahead).drop (length + 2) = name :: us := by
    rw [List.drop_succ_cons, ← List.drop_drop, hdrop]
    rfl
  have hindexer : Ahead.namesIndexer (t :: p.ahead) = Ahead.namesIndexer (name :: us) := by
    rw [Ahead.namesIndexer, hmore, Ahead.namesIndexer, ← List.drop_drop, hpassed]
  have hindex' : (q.advance 2).index = p.index + length + 2 := by
    rw [Progress.index_advance, hahead, hindex]
    simp
  have hahead' : (q.advance 2).ahead = us := by
    rw [Progress.ahead_advance, hahead]
    rfl
  refine ⟨q.advance 2, ?_, by omega, ?_, by rw [hahead', hindexer], ?_⟩
  · rw [hround, runWith_qualifiedPart_next enter around hahead hdot hname]
  · have hlengths := congrArg List.length hdrop
    rw [List.length_drop, List.length_cons, List.length_cons] at hlengths
    rw [hahead']
    omega
  · intro r hr
    have hstop := hr.index
    have hbehind := hr.ahead
    rw [hahead'] at hstop hbehind
    constructor
    · rw [hindexer, hmore]
      omega
    · rw [hbehind, hindexer, hmore, Nat.add_assoc (length + 2)]
      conv_rhs => rw [← List.drop_drop, hpassed]

end Parts

/-- The rounds over the parts of a name come to where the name ends, or to `this`. -/
theorem rounds_nameRound {limit : Nat} (hlimit : p.ahead.length < limit) (state : Bool)
    (t : Token) :
    ∃ q, rounds (fun state p ↦ (nameRound state).runWith enter around p) limit state p =
        (Ahead.namesIndexer (t :: p.ahead), q) ∧ PassesName t p q := by
  induction limit generalizing p state t with
  | zero => omega
  | succ limit ih =>
    rw [rounds]
    cases hlength : p.ahead.qualifierArguments with
    | none =>
      obtain ⟨hround, hpasses⟩ := runWith_nameRound_none enter around state t hlength
      exact ⟨p, by rw [hround], hpasses⟩
    | some length =>
      by_cases hnext : Ahead.is (p.ahead.drop length) .dot = true ∧
          Ahead.isIdentifier (Ahead.tail (p.ahead.drop length)) = true
      · obtain ⟨dot, rest, hdots, hdot⟩ := Ahead.exists_of_any hnext.1
        obtain ⟨name, us, hnames, hname⟩ := Ahead.exists_of_any hnext.2
        rw [hdots, Ahead.tail, List.drop_one, List.tail_cons] at hnames
        rw [hnames] at hdots
        obtain ⟨q, hround, hmoves, hshorter, hindexer, hpasses⟩ :=
          runWith_nameRound_next enter around state t hlength hdots hdot hname
        obtain ⟨r, hrest, hr⟩ := ih (p := q) (by omega) false name
        rw [hround]
        dsimp only
        rw [if_pos hmoves, hrest, hindexer]
        exact ⟨r, rfl, hpasses r hr⟩
      · obtain ⟨q, hround, hpasses⟩ := runWith_nameRound_last enter around state t hlength
          fun hdot ↦ by
            rw [← Bool.not_eq_true]
            exact fun hname ↦ hnext ⟨hdot, hname⟩
        exact ⟨q, by rw [hround], hpasses⟩

theorem runWith_memberName {t : Token} {ts : Ahead} (hp : p.PlacedIn around.stream)
    (hahead : p.ahead = t :: ts) :
    ∃ q, memberName.runWith enter around p = (p.ahead.namesIndexer, q) ∧
      q.index = p.index + p.ahead.declaredName + p.ahead.namesIndexer.toNat ∧
      q.ahead = p.ahead.drop (p.ahead.declaredName + p.ahead.namesIndexer.toNat) := by
  have hone := Progress.advance_one hahead
  have hbehind : (p.advance 1).ahead = ts := by rw [hone]
  have hlimit := (hp.advance 1).length_ahead_lt
  obtain ⟨q, hrounds, hpasses⟩ := rounds_nameRound enter around hlimit false t
  have hindex := hpasses.index
  have hstop := hpasses.ahead
  rw [hbehind, ← hahead] at hrounds hindex hstop
  refine ⟨q, ?_, ?_, hstop⟩
  · rw [memberName_eq, runWith_bind]
    show ((loop false nameRound pure).runWith enter around (p.advance 1)) = _
    rw [runWith, hrounds]
    rfl
  · rw [hone] at hindex
    dsimp only at hindex
    omega

/-! ### Looking over and reading -/

theorem index_modifierList (p : Progress) :
    (modifierList.runWith enter around p).1 = p.nextTokens p.ahead.modifiers ∧
      (modifierList.runWith enter around p).2.index = p.index + p.ahead.modifiers := by
  obtain ⟨found, hnoted⟩ := runWith_noted enter around (p.nextTokens p.ahead.modifiers)
    (p.advance p.ahead.modifiers)
  have hle : p.ahead.modifiers ≤ p.ahead.length := by
    rw [Ahead.modifiers_eq]
    exact Ahead.countWhile_le _ _
  rw [runWith_modifierList, hnoted]
  constructor
  · rfl
  · rw [Progress.index_withFound, Progress.index_advance, Nat.min_eq_left hle]

theorem index_localModifierList (hp : p.PlacedIn around.stream) :
    (localModifierList.runWith enter around p).1 = p.nextTokens p.ahead.localModifiers ∧
      (localModifierList.runWith enter around p).2.index = p.index + p.ahead.localModifiers := by
  obtain ⟨found, htaking, -⟩ := runWith_taking enter around (·.isLocalModifier) localModifierFeature?
    hp
  have hle := Ahead.countWhile_le Ahead.isLocalModifier p.ahead
  rw [localModifierList_eq, htaking, Ahead.localModifiers_eq]
  constructor
  · rfl
  · rw [Progress.index_withFound, Progress.index_advance, Nat.min_eq_left hle]

end Rule

open Rule

end CSharpCheck
