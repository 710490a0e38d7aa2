import Mathlib.Data.List.Perm.Subperm
import CSharpCheck.Proofs.ReadingEnds
import CSharpCheck.Proofs.VersionChange

/-!
# The order of syntax errors

The grammar charges a token with one error at most, and it charges them in the order of the text.
Every error stands at the token that is charged with it, or at the end of the token before, so that
the errors are reported in the order in which they stand in the text.
-/

namespace CSharpCheck

/-- Whether the finding is a broken rule of the grammar. -/
def Finding.isSyntax (f : Finding) : Bool :=
  match f.cause with
  | .grammar _ => true
  | _ => false

/-- The finding stands at the token with the index, or at the end of the token before. Before the
first token it stands at the beginning of that one. -/
def Finding.StandsAt (stream : TokenStream) (index : Nat) (f : Finding) : Prop :=
  f.span = (stream.token index).span ∨
    f.span = .point (if index = 0 then (stream.token 0).span.start
      else (stream.token (index - 1)).span.stop)

/-! ### Charging tokens -/

/-- A jump moves on or changes nothing, and it finds nothing. -/
theorem Progress.jump_eq_or (p : Progress) (count : Nat) :
    p.jump count = p ∨ p.index < (p.jump count).index ∧ (p.jump count).found = p.found ∧
      (p.jump count).abandonedAt = p.abandonedAt := by
  unfold jump
  split
  · cases hahead : p.ahead with
    | nil => exact .inl (by simp [advance, hahead])
    | cons t ts => exact .inr (by simp [advance, hahead])
  · cases count with
    | zero => exact .inl (by simp)
    | succ count => exact .inr ⟨Nat.lt_add_of_pos_right (Nat.succ_pos _), rfl, rfl⟩

/-- The finding that the reading has been abandoned, if it has. -/
def Progress.abandonment (stream : TokenStream) (p : Progress) : List Finding :=
  (p.abandonedAt.map fun index ↦ ⟨.grammar .tooComplex, (stream.token index).span⟩).toList

/-- The errors have been charged to tokens up to the next one, and besides them the grammar has
found at most that it is abandoned. -/
structure Progress.Accounts (stream : TokenStream) (charges : List (Nat × Finding))
    (p : Progress) : Prop where
  increasing : charges.Pairwise (·.1 < ·.1)
  passed : ∀ c ∈ charges, c.1 ≤ p.index ∧ (c.1 = p.index → p.charged = true)
  within : p.index ≤ stream.tokens.size
  stands : ∀ c ∈ charges, c.2.StandsAt stream c.1
  simple : ∀ c ∈ charges, c.2.isGrammarError = true
  abandoned : ∀ index, p.abandonedAt = some index →
    index ≤ stream.tokens.size ∧ ∀ c ∈ charges, c.1 ≤ index
  found : p.found.reverse.filter (·.isSyntax) = charges.map (·.2) ++ p.abandonment stream

namespace Progress.Accounts

variable {stream : TokenStream} {charges : List (Nat × Finding)} {p : Progress}

theorem start (stream : TokenStream) : Accounts stream [] (.start stream) where
  increasing := .nil
  passed := List.forall_mem_nil _
  within := Nat.zero_le _
  stands := List.forall_mem_nil _
  simple := List.forall_mem_nil _
  abandoned := nofun
  found := rfl

/-- A jump leaves the token that may have been charged. -/
theorem jump (h : Accounts stream charges p) {count : Nat}
    (hwithin : (p.jump count).index ≤ stream.tokens.size) :
    Accounts stream charges (p.jump count) := by
  rcases p.jump_eq_or count with hjump | ⟨hlt, hfound, habandoned⟩
  · rwa [hjump]
  refine ⟨h.increasing, fun c hc ↦ ?_, hwithin, h.stands, h.simple, ?_, ?_⟩
  · have hle := (h.passed c hc).1
    exact ⟨by omega, fun heq ↦ by omega⟩
  · rw [habandoned]
    exact h.abandoned
  · rw [abandonment, hfound, habandoned]
    exact h.found

/-- Uses of features are not errors. -/
theorem use (h : Accounts stream charges p) (f : Feature) (span : Span) :
    Accounts stream charges (p.note ⟨.use f, span⟩) where
  increasing := h.increasing
  passed := h.passed
  within := h.within
  stands := h.stands
  simple := h.simple
  abandoned := h.abandoned
  found := by
    rw [note, List.reverse_cons, List.filter_append]
    exact (List.append_nil _).trans h.found

theorem standsAt_errorSpan (p : Progress) (stream : TokenStream) (place : ErrorPlace)
    (e : GrammarError) : Finding.StandsAt stream p.index ⟨.grammar e, p.errorSpan stream place⟩ := by
  cases place with
  | here => exact .inl rfl
  | missing =>
    refine .inr ?_
    by_cases hzero : p.index = 0
    · simp [errorSpan, previous, hzero]
    · simp [errorSpan, previous, hzero]

/-- A token is charged with an error if it has not been charged and nothing has been abandoned. -/
theorem report (h : Accounts stream charges p) {place : ErrorPlace} {e : GrammarError}
    (he : e ≠ .tooComplex) (hcharged : p.charged = false) (habandoned : p.abandonedAt = none) :
    Accounts stream (charges ++ [(p.index, ⟨.grammar e, p.errorSpan stream place⟩)])
      { p.note ⟨.grammar e, p.errorSpan stream place⟩ with charged := true } where
  increasing := by
    refine List.pairwise_append.2 ⟨h.increasing, List.pairwise_singleton _ _, fun c hc d hd ↦ ?_⟩
    rw [List.mem_singleton.1 hd]
    obtain ⟨hle, hcharge⟩ := h.passed c hc
    refine Nat.lt_of_le_of_ne hle fun heq ↦ ?_
    rw [hcharge heq] at hcharged
    contradiction
  passed := List.forall_mem_append.2
    ⟨fun c hc ↦ ⟨(h.passed c hc).1, fun _ ↦ rfl⟩,
      List.forall_mem_singleton.2 ⟨Nat.le_refl _, fun _ ↦ rfl⟩⟩
  within := h.within
  stands := List.forall_mem_append.2
    ⟨h.stands, List.forall_mem_singleton.2 (standsAt_errorSpan p stream place e)⟩
  simple := by
    refine List.forall_mem_append.2 ⟨h.simple, List.forall_mem_singleton.2 ?_⟩
    cases e with
    | tooComplex => exact absurd rfl he
    | _ => rfl
  abandoned index hindex := by
    rw [show p.abandonedAt = some index from hindex] at habandoned
    contradiction
  found := by
    have hnone : abandonment stream p = [] := by
      rw [abandonment, habandoned]
      rfl
    have hfound := h.found
    rw [hnone, List.append_nil] at hfound
    rw [note, List.reverse_cons, List.filter_append, hfound, List.map_append, abandonment,
      habandoned]
    exact (List.append_nil _).symm

/-- The reading is abandoned at the token that comes next. -/
theorem abandon (h : Accounts stream charges p) (habandoned : p.abandonedAt = none) :
    Accounts stream charges (p.abandon stream) where
  increasing := h.increasing
  passed c hc := by
    obtain ⟨hle, hcharge⟩ := h.passed c hc
    have hwithin := h.within
    refine ⟨hle.trans hwithin, fun heq ↦ hcharge ?_⟩
    have heq : c.1 = stream.tokens.size := heq
    omega
  within := Nat.le_refl _
  stands := h.stands
  simple := h.simple
  abandoned index hindex := by
    cases hindex
    exact ⟨h.within, fun c hc ↦ (h.passed c hc).1⟩
  found := by
    have hfound := h.found
    rw [abandonment, habandoned] at hfound
    rw [Progress.abandon, List.reverse_cons, List.filter_append, hfound]
    exact congrArg (· ++ _) (List.append_nil _)

end Progress.Accounts

namespace Moment

variable {β : Type} {rules : Rules} {stream : TokenStream} {charges : List (Nat × Finding)}
  {m n : Moment β}

/-- The second moment is reached from the first one, and on the way the errors are charged to
tokens, one after the other. -/
inductive Charges (rules : Rules) (m : Moment β) : List (Nat × Finding) → Moment β → Prop where
  | refl : Charges rules m [] m
  | tail {charges : List (Nat × Finding)} {n o : Moment β} : Charges rules m charges n →
      Next rules n o → Charges rules m (charges ++ n.charge?.toList) o

/-- A step goes on with what has been charged and what it charges. -/
theorem accounts_of_forward (hm : m.progress.Accounts stream charges)
    (hstream : m.around.stream = stream) (hn : n.around.stream = stream) (h : Forward rules m n) :
    n.progress.Accounts stream (charges ++ m.charge?.toList) := by
  obtain ⟨r, k, around, p, depth⟩ := m
  obtain ⟨hnext, -, hwithin, hcharge⟩ := h
  rw [hn] at hwithin
  rw [Next] at hnext
  cases r with
  | pure result =>
    rw [charge?, Option.toList_none, List.append_nil]
    cases k with
    | done => contradiction
    | resume next rest => cases hnext; exact hm
    | leave rest => cases hnext; exact hm
    | repeating round next rest =>
      cases result with
      | again state => cases hnext; exact hm
      | stop state => cases hnext; exact hm
    | outside next rest => cases hnext; exact hm
  | call q next =>
    rw [charge?, Option.toList_none, List.append_nil]
    rw [Moment.step] at hnext
    split at hnext
    · cases hnext
      exact hm
    · next habandoned =>
      split at hnext
      · cases hnext
        rw [show around.stream = stream from hstream]
        exact hm.abandon (by simpa using habandoned)
      · cases hnext
        exact hm
  | advance count next =>
    rw [charge?, Option.toList_none, List.append_nil]
    cases hnext
    exact hm.jump hwithin
  | require feature index next =>
    rw [charge?, Option.toList_none, List.append_nil]
    cases hnext
    exact hm.use feature _
  | report place error next =>
    cases hnext
    replace hstream : around.stream = stream := hstream
    simp only [charge?, Progress.report, hstream] at hcharge ⊢
    split
    · rw [Option.toList_none, List.append_nil]
      exact hm
    · next hquiet =>
      rw [if_neg hquiet] at hcharge
      simp only [Bool.or_eq_true, not_or, Bool.not_eq_true, Option.isSome_eq_false_iff,
        Option.isNone_iff_eq_none] at hquiet
      refine hm.report (fun he ↦ hcharge _ rfl (congrArg Cause.grammar he)) hquiet.1 hquiet.2
  | look | script | enclosing | loop | within =>
    rw [charge?, Option.toList_none, List.append_nil]
    cases hnext
    exact hm

/-- Whatever is reached by going forward, the errors on the way have been charged to tokens. -/
theorem Proceeds.exists_charges (h : Proceeds rules m n) (hm : m.Sound stream)
    (hp : m.progress.Accounts stream []) :
    ∃ charges, Charges rules m charges n ∧ n.progress.Accounts stream charges := by
  induction h with
  | refl => exact ⟨[], .refl, hp⟩
  | tail hsteps hstep ih =>
    obtain ⟨charges, hcharges, haccounts⟩ := ih
    have hsound := hm.reaches (Proceeds.reaches hsteps)
    exact ⟨_, hcharges.tail hstep.next, accounts_of_forward haccounts hsound.stream_eq
      (hsound.step hstep.next).stream_eq hstep⟩

end Moment

/-! ### The order of the text -/

/-- The starts and ends of the tokens, one after the other. -/
def tokenOffsets (tokens : List Token) : List Nat :=
  tokens.flatMap fun t ↦ [t.span.start.offset, t.span.stop.offset]

/-- No token of the stream ends before it starts, or starts before the ones before it end. -/
structure TokenStream.Ordered (stream : TokenStream) : Prop where
  start_le_stop : ∀ i, (stream.token i).span.start.offset ≤ (stream.token i).span.stop.offset
  stop_le_start : ∀ i j, i < j → j ≤ stream.tokens.size →
    (stream.token i).span.stop.offset ≤ (stream.token j).span.start.offset

/-- Leaving out bad tokens keeps the order. -/
theorem TokenStream.ordered_of_pairwise {body : List Token} {eof : Token}
    (h : (tokenOffsets (body ++ [eof])).Pairwise (· ≤ ·)) :
    Ordered ⟨(body.filter (·.kind != .bad)).toArray, eof⟩ := by
  have hsub : (body.filter (·.kind != .bad) ++ [eof]).Sublist (body ++ [eof]) :=
    List.filter_sublist.append_right _
  generalize body.filter (·.kind != .bad) = tokens at hsub ⊢
  obtain ⟨hsame, hnext⟩ := List.pairwise_flatMap.1 h
  have htoken (i : Nat) (hi : i < (tokens ++ [eof]).length) :
      token ⟨tokens.toArray, eof⟩ i = (tokens ++ [eof])[i] := by
    rw [List.length_append, List.length_singleton] at hi
    rw [token, List.getElem?_toArray, List.getElem_append]
    split
    · next hlt => rw [List.getElem?_eq_getElem hlt, Option.getD_some]
    · next hge => simp [List.getElem?_eq_none (Nat.le_of_not_lt hge)]
  have hmem (i : Nat) : token ⟨tokens.toArray, eof⟩ i ∈ tokens ++ [eof] := by
    rw [token, List.getElem?_toArray]
    cases htoken : tokens[i]? with
    | none => exact List.mem_append_right _ List.mem_cons_self
    | some t => exact List.mem_append_left _ (List.mem_of_getElem? htoken)
  refine ⟨fun i ↦ ?_, fun i j hij hj ↦ ?_⟩
  · simpa using hsame _ (hsub.subset (hmem i))
  · have hlength : j < (tokens ++ [eof]).length := by
      rw [List.length_append]
      exact Nat.lt_succ_of_le hj
    rw [htoken i (hij.trans hlength), htoken j hlength]
    exact List.pairwise_iff_getElem.1 (hnext.sublist hsub) i j _ hlength hij _
      (List.mem_cons_of_mem _ List.mem_cons_self) _ List.mem_cons_self

namespace Finding.StandsAt

variable {stream : TokenStream} {f g : Finding} {i j : Nat}

/-- An error does not start behind the start of its token. -/
theorem le_start (hstream : stream.Ordered) (hf : f.StandsAt stream i)
    (hi : i ≤ stream.tokens.size) :
    f.span.start.offset ≤ (stream.token i).span.start.offset := by
  rcases hf with hf | hf
  · rw [hf]
  · rw [hf]
    by_cases hzero : i = 0
    · simp [hzero, Span.point]
    · rw [if_neg hzero]
      exact hstream.stop_le_start (i - 1) i (by omega) hi

/-- An error does not start in front of the tokens before its own. -/
theorem start_le (hstream : stream.Ordered) (hg : g.StandsAt stream j) (hij : i < j)
    (hj : j ≤ stream.tokens.size) :
    (stream.token i).span.start.offset ≤ g.span.start.offset := by
  have hstart := hstream.start_le_stop i
  rcases hg with hg | hg
  · rw [hg]
    exact hstart.trans (hstream.stop_le_start i j hij hj)
  · rw [hg, if_neg (by omega)]
    refine hstart.trans ?_
    rcases Nat.lt_or_eq_of_le (Nat.le_sub_one_of_lt hij) with hlt | heq
    · exact (hstream.stop_le_start i (j - 1) hlt (by omega)).trans (hstream.start_le_stop _)
    · rw [heq]
      exact Nat.le_refl _

end Finding.StandsAt

namespace Progress.Accounts

variable {stream : TokenStream} {charges : List (Nat × Finding)} {p : Progress}

/-- What the grammar finds is found in the order of the text. -/
theorem ordered (h : Accounts stream charges p) (hstream : stream.Ordered) :
    (p.found.reverse.filter (·.isSyntax)).Pairwise
      (·.span.start.offset ≤ ·.span.start.offset) := by
  have hle (c : Nat × Finding) (hc : c ∈ charges) : c.1 ≤ stream.tokens.size :=
    (h.passed c hc).1.trans h.within
  rw [h.found]
  refine List.pairwise_append.2 ⟨List.pairwise_map.2 ?_, ?_, ?_⟩
  · refine h.increasing.imp_of_mem fun {c d} hc hd hlt ↦ ?_
    exact ((h.stands c hc).le_start hstream (hle c hc)).trans
      ((h.stands d hd).start_le hstream hlt (hle d hd))
  · unfold abandonment
    cases p.abandonedAt <;> simp
  · intro f hf g hg
    obtain ⟨c, hc, rfl⟩ := List.mem_map.1 hf
    obtain ⟨index, hindex, rfl⟩ := Option.map_eq_some_iff.1 (Option.mem_toList.1 hg)
    obtain ⟨hwithin, hcharges⟩ := h.abandoned index hindex
    refine ((h.stands c hc).le_start hstream (hle c hc)).trans ?_
    rcases Nat.lt_or_eq_of_le (hcharges c hc) with hlt | heq
    · exact (hstream.start_le_stop _).trans (hstream.stop_le_start _ _ hlt hwithin)
    · rw [heq]

/-- Tokens are charged once each. -/
theorem length_le (h : Accounts stream charges p) : charges.length ≤ stream.size := by
  have hnodup : (charges.map (·.1)).Nodup :=
    List.pairwise_map.2 (h.increasing.imp Nat.ne_of_lt)
  have hsub : charges.map (·.1) ⊆ List.range stream.size := by
    intro index hindex
    obtain ⟨c, hc, rfl⟩ := List.mem_map.1 hindex
    exact List.mem_range.2 (Nat.lt_succ_of_le ((h.passed c hc).1.trans h.within))
  simpa using (List.subperm_of_subset hnodup hsub).length_le

/-- The errors that have been charged are those that the grammar has found, but for being
abandoned. -/
theorem filter_isGrammarError (h : Accounts stream charges p) :
    p.found.reverse.filter (·.isGrammarError) = charges.map (·.2) := by
  have hsyn (f : Finding) : f.isGrammarError = (f.isGrammarError && f.isSyntax) := by
    rcases f with ⟨cause, span⟩
    cases cause with
    | grammar e => exact (Bool.and_true _).symm
    | _ => rfl
  have hcharged : (charges.map (·.2)).filter (·.isGrammarError) = charges.map (·.2) :=
    List.filter_eq_self.2 (List.forall_mem_map.2 h.simple)
  have habandoned : (p.abandonment stream).filter (·.isGrammarError) = [] := by
    unfold abandonment
    cases p.abandonedAt <;> rfl
  rw [funext hsyn, ← List.filter_filter, h.found, List.filter_append, hcharged, habandoned,
    List.append_nil]

end Progress.Accounts

/-- In the reading of a text errors are charged to tokens, and nothing else is found but that the
reading is abandoned. -/
theorem exists_charges (stream : TokenStream) (script : Bool) :
    ∃ (charges : List (Nat × Finding)) (last : Moment Unit),
      (Moment.start stream script).Charges grammarRules charges last ∧
      last.step grammarRules = none ∧ last.progress = readUnit stream script ∧
      (readUnit stream script).Accounts stream charges := by
  obtain ⟨last, hproceeds, hlast, -, hprogress, -⟩ := exists_last stream script
  obtain ⟨charges, hcharges, haccounts⟩ := hproceeds.exists_charges ⟨rfl, rfl⟩ (.start stream)
  exact ⟨charges, last, hcharges, hlast, hprogress, hprogress ▸ haccounts⟩

/-! ### Diagnostics -/

/-- Too deep nesting has a code of its own. -/
theorem GrammarError.code_eq_iff (e : GrammarError) : e.code = "CS8078" ↔ e = .tooComplex := by
  cases e with
  | expected symbol => cases symbol <;> decide
  | _ => simp [code]

namespace Gate

variable (g : Gate) (findings : List Finding)

/-- The syntax errors among diagnostics are the broken rules of the grammar. -/
theorem filter_grammar_diagnostics :
    (g.diagnostics findings).filter (·.category = .grammar) =
      g.diagnostics (findings.filter (·.isSyntax)) := by
  rw [diagnostics, diagnostics, List.filter_filterMap, List.filterMap_filter]
  refine congrArg (List.filterMap · findings) (funext fun x ↦ ?_)
  rcases x with ⟨cause, span⟩
  cases cause with
  | use f => simp only [diagnose, check, Finding.isSyntax]; split <;> rfl
  | _ => rfl

/-- The syntax errors other than that the text is too complex. -/
theorem filter_code_diagnostics :
    (g.diagnostics (findings.filter (·.isSyntax))).filter (·.code ≠ "CS8078") =
      g.diagnostics (findings.filter (·.isGrammarError)) := by
  rw [diagnostics, diagnostics, List.filter_filterMap, List.filterMap_filter, List.filterMap_filter]
  refine congrArg (List.filterMap · findings) (funext fun x ↦ ?_)
  rcases x with ⟨cause, span⟩
  cases cause with
  | grammar e =>
    by_cases he : e = .tooComplex
    · subst he
      rfl
    · have hcode := mt e.code_eq_iff.1 he
      have herror : Finding.isGrammarError ⟨.grammar e, span⟩ = true := by
        cases e <;> simp_all [Finding.isGrammarError]
      simp [Finding.isSyntax, diagnose, herror, hcode]
  | _ => rfl

end Gate

/-- Syntax errors come one for each token and in the order of the text. Where the spans of tokens
do not decrease up to the end of the text, the errors that the grammar reports, other than that the
text is too complex, are those charged to tokens whose indices increase. All of them are reported in
the order of their starts, and there are no more than tokens, but for one that says that the text is
too complex. -/
theorem syntax_errors_ordered (body : List Token) (eof : Token) (script : Bool) (gate : Gate)
    (heof : eof.kind = .endOfFile) (hspans : (tokenOffsets (body ++ [eof])).Pairwise (· ≤ ·)) :
    ∃ stream, TokenStream.ofTokens? (body ++ [eof]) = some stream ∧
      ∃ (charges : List (Nat × Finding)) (last : Moment Unit),
        (Moment.start stream script).Charges grammarRules charges last ∧
        last.step grammarRules = none ∧ last.progress = readUnit stream script ∧
        charges.Pairwise (·.1 < ·.1) ∧ (∀ c ∈ charges, c.1 < stream.size) ∧
        let reported := (gate.diagnostics (readUnit stream script).found.reverse).filter
          (·.category = .grammar)
        reported.filter (·.code ≠ "CS8078") = gate.diagnostics (charges.map (·.2)) ∧
        reported.Pairwise (·.span.start.offset ≤ ·.span.start.offset) ∧
        (reported.filter (·.code ≠ "CS8078")).length ≤ (body ++ [eof]).length ∧
        (reported.filter (·.code = "CS8078")).length ≤ 1 := by
  refine ⟨_, TokenStream.ofTokens?_append body heof, ?_⟩
  have hordered := TokenStream.ordered_of_pairwise hspans
  have hsize : TokenStream.size ⟨(body.filter (·.kind != .bad)).toArray, eof⟩ ≤
      (body ++ [eof]).length := by
    rw [List.length_append]
    exact Nat.succ_le_succ (List.length_filter_le _ _)
  generalize (⟨(body.filter (·.kind != .bad)).toArray, eof⟩ : TokenStream) = stream
    at hordered hsize ⊢
  obtain ⟨charges, last, hcharges, hlast, hprogress, haccounts⟩ := exists_charges stream script
  have hcode := gate.filter_code_diagnostics (readUnit stream script).found.reverse
  rw [haccounts.filter_isGrammarError] at hcode
  refine ⟨charges, last, hcharges, hlast, hprogress, haccounts.increasing, fun c hc ↦ ?_, ?_⟩
  · exact Nat.lt_succ_of_le ((haccounts.passed c hc).1.trans haccounts.within)
  dsimp only
  rw [gate.filter_grammar_diagnostics]
  refine ⟨hcode, ?_, ?_, ?_⟩
  · refine (haccounts.ordered hordered).filterMap _ fun f g hfg d hd e he ↦ ?_
    rw [Gate.span_of_diagnose hd, Gate.span_of_diagnose he]
    exact hfg
  · rw [hcode]
    calc (gate.diagnostics (charges.map (·.2))).length
      _ ≤ (charges.map (·.2)).length := List.length_filterMap_le _ _
      _ = charges.length := List.length_map _
      _ ≤ (body ++ [eof]).length := haccounts.length_le.trans hsize
  · have hcharged : (gate.diagnostics (charges.map (·.2))).filter (·.code = "CS8078") = [] := by
      rw [← hcode]
      refine List.filter_eq_nil_iff.2 fun d hd ↦ ?_
      simpa using (List.mem_filter.1 hd).2
    rw [haccounts.found, Gate.diagnostics_append, List.filter_append, hcharged, List.nil_append]
    calc ((gate.diagnostics (Progress.abandonment stream _)).filter (·.code = "CS8078")).length
      _ ≤ (gate.diagnostics (Progress.abandonment stream _)).length := List.length_filter_le _ _
      _ ≤ (Progress.abandonment stream _).length := List.length_filterMap_le _ _
      _ ≤ 1 := Option.length_toList_le

/-- Two stray braces are charged with one error each. -/
theorem syntax_errors_ordered_stray_braces :
    ∃ (stream : TokenStream) (charges : List (Nat × Finding)),
      TokenStream.ofTokens? ([⟨.symbol .closeBrace, "\x7d", none, ⟨⟨1, 1, 0⟩, ⟨1, 2, 1⟩⟩, true, []⟩,
        ⟨.symbol .closeBrace, "\x7d", none, ⟨⟨1, 2, 1⟩, ⟨1, 3, 2⟩⟩, false, []⟩] ++
        [⟨.endOfFile, "", none, .point ⟨1, 3, 2⟩, false, []⟩]) = some stream ∧
      charges.Pairwise (·.1 < ·.1) ∧
      (Gate.diagnostics ⟨.v14, []⟩ (charges.map (·.2))).map (·.code) = ["CS1022", "CS1022"] := by
  obtain ⟨stream, hstream, charges, last, -, -, -, hincreasing, -, hcharges, -⟩ :=
    syntax_errors_ordered
      [⟨.symbol .closeBrace, "\x7d", none, ⟨⟨1, 1, 0⟩, ⟨1, 2, 1⟩⟩, true, []⟩,
        ⟨.symbol .closeBrace, "\x7d", none, ⟨⟨1, 2, 1⟩, ⟨1, 3, 2⟩⟩, false, []⟩]
      ⟨.endOfFile, "", none, .point ⟨1, 3, 2⟩, false, []⟩ false ⟨.v14, []⟩ rfl (by decide)
  have hfound : (readUnit stream false).found.reverse =
      [⟨.grammar .namespaceMemberExpected, ⟨⟨1, 1, 0⟩, ⟨1, 2, 1⟩⟩⟩,
        ⟨.grammar .namespaceMemberExpected, ⟨⟨1, 2, 1⟩, ⟨1, 3, 2⟩⟩⟩] := by
    rw [← Option.some.inj hstream]
    decide +kernel
  refine ⟨stream, charges, hstream, hincreasing, ?_⟩
  rw [← hcharges, hfound]
  rfl

end CSharpCheck
