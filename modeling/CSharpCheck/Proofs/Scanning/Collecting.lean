import CSharpCheck.Proofs.Scanning.LiteralFaults
import CSharpCheck.Proofs.Scanning.OneLine
import CSharpCheck.Proofs.TokenFeeds

/-!
# What reading steps collect

The tokens and the findings that reading steps give, one step after the other, when excluded text
may be skipped between them. What is found starts where it belongs: a literal outside of directives
has the findings of its own scanner, and no finding of another token starts in it.
-/

namespace CSharpCheck

open Fault

/-! ### Findings in front of a cursor -/

namespace Cursor

variable {c : Cursor} {fs gs : List Finding} {text : List Char}

/-- The findings start in front of the cursor, or where it stands at the end of a line. -/
def Behind (c : Cursor) (fs : List Finding) : Prop :=
  ∀ x ∈ fs, x.span.start.offset < c.position.offset ∨
    x.span.start.offset = c.position.offset ∧ c.rest.head?.all isLineEnd = true

theorem Behind.append (hfs : c.Behind fs) (hgs : c.Behind gs) : c.Behind (fs ++ gs) :=
  List.forall_mem_append.2 ⟨hfs, hgs⟩

theorem Behind.advance (h : c.Behind fs) (n : Nat) : (c.advance n).Behind fs := by
  have hoffset : (c.advance n).position.offset = c.position.offset + min n c.rest.length :=
    c.offset_positionAt n
  intro x hx
  rcases h x hx with hlt | ⟨heq, hend⟩
  · exact .inl (by omega)
  · rcases Nat.eq_zero_or_pos (min n c.rest.length) with hzero | hpos
    · right
      refine ⟨by omega, ?_⟩
      rcases Nat.min_eq_zero_iff.1 hzero with rfl | hnil
      · exact hend
      · rw [rest_advance, List.length_eq_zero_iff.1 hnil, List.drop_nil]
        rfl
    · exact .inl (by omega)

/-- What is found at the end of a line in front of a literal is found outside of it. -/
theorem Behind.lt_of_literal (hc : c.In text) (h : c.Behind fs) {n : Nat} {l : Lexeme}
    (hle : c.position.offset ≤ n) (hliteral : IsLiteral (text.drop n) l) :
    ∀ x ∈ fs, x.span.start.offset < n := by
  intro x hx
  rcases h x hx with hlt | ⟨heq, hend⟩
  · omega
  · refine Nat.lt_of_le_of_ne (heq ▸ hle) fun hn ↦ ?_
    obtain ⟨d, ds, hdrop, hd⟩ := hliteral.not_isLineEnd
    rw [hc.rest, ← heq, hn, hdrop] at hend
    exact Bool.false_ne_true (hd.symm.trans hend)

/-- The faults of a group are found in front of the place behind it. -/
theorem behind_group (c : Cursor) {stop : Nat} {faults : List Fault} (hstop : stop ≤ c.rest.length)
    (hwithin : Within stop faults) (h : Enclosed c.rest stop faults) :
    (c.advance stop).Behind (faults.map c.finding) := by
  refine List.forall_mem_map.2 fun f hf ↦ ?_
  obtain ⟨hle, hlast⟩ := hwithin f hf
  simp only [finding, advance, offset_positionAt]
  rcases Nat.lt_or_eq_of_le (Nat.le_trans hle hlast) with hlt | heq
  · left
    omega
  · right
    refine ⟨by rw [heq], ?_⟩
    rcases h f hf with hlt | hend
    · omega
    · exact hend

end Cursor

namespace TokenSource

variable {s : TokenSource} {r : Reading} {text : List Char}

theorem enclosed_groupAt (s : TokenSource) {c : Cursor} (hc : c.rest ≠ []) :
    Enclosed c.rest (s.groupAt c).length (s.groupAt c).faults := by
  unfold groupAt
  split
  · rw [faults_directiveOpening]
    exact List.forall_mem_nil _
  · exact enclosed_scanGroup _ _ hc

theorem length_groupAt_le (s : TokenSource) (c : Cursor) :
    (s.groupAt c).length ≤ c.rest.length := by
  unfold groupAt
  split
  · next hopens =>
    simp only [opensDirective, Bool.and_eq_true, beq_iff_eq] at hopens
    obtain ⟨cs, hrest⟩ := List.head?_eq_some_iff.1 hopens.1.1
    rw [hrest]
    exact Nat.le_trans (length_directiveOpening_le cs) (length_restOfLine_le _)
  · exact length_scanGroup_le _ _ _

/-- A step goes on from some place further on. -/
theorem exists_advance_of_read (h : s.read = some r) : ∃ n,
    r.source.cursor.rest = s.cursor.rest.drop n ∧
      r.source.cursor.position = s.cursor.positionAt n := by
  obtain ⟨hrest, hposition⟩ := s.cursor.passGap_eq (gap s.inDirective s.cursor.rest)
  rw [read_eq (finished_of_read h)] at h
  split at h
  · cases h
    exact ⟨_, hrest, hposition⟩
  · split at h
    · cases h
      exact ⟨_, hrest, hposition⟩
    · cases h
      rw [readGroup_eq]
      generalize (s.groupAt s.behindGap).length = n
      refine ⟨gapLength (gap s.inDirective s.cursor.rest) + n, ?_, ?_⟩
      · rw [← List.drop_drop, ← hrest]
        rfl
      · rw [← Cursor.positionAt_add]
        change s.behindGap.position.after s.behindGap.rest n = _
        rw [behindGap, hrest, hposition]
        rfl

/-- What is found in a gap is found in front of the place behind it. -/
theorem behind_gapFindings (s : TokenSource) : s.behindGap.Behind s.gapFindings := by
  refine List.forall_mem_map.2 fun f hf ↦ .inl ?_
  obtain ⟨-, hlt⟩ := start_le_gapFaults 0 _ f (audible_subset _ _ hf)
  have hle := gapLength_le_length s.inDirective s.cursor.rest
  rw [behindGap, (s.cursor.passGap_eq _).2]
  simp only [Cursor.finding, Cursor.offset_positionAt]
  omega

/-- What a reading step finds stands between the places where it starts and where it stops. -/
theorem behind_of_read (h : s.read = some r) :
    r.source.cursor.Behind r.findings ∧
      ∀ x ∈ r.findings, s.cursor.position.offset ≤ x.span.start.offset := by
  have hgap : ∀ x ∈ s.gapFindings, s.cursor.position.offset ≤ x.span.start.offset :=
    List.forall_mem_map.2 fun _ _ ↦ Cursor.offset_le_positionAt _ _
  rw [read_eq (finished_of_read h)] at h
  split at h
  · cases h
    exact ⟨s.behind_gapFindings, hgap⟩
  · split at h
    · cases h
      exact ⟨s.behind_gapFindings, hgap⟩
    · next hrest =>
      cases h
      refine ⟨(s.behind_gapFindings.advance (s.groupAt s.behindGap).length).append ?_,
        List.forall_mem_append.2 ⟨hgap, List.forall_mem_map.2 fun f _ ↦ ?_⟩⟩
      · refine Cursor.behind_group _ (s.length_groupAt_le _) ?_ ?_
        · exact (s.within_groupAt _).audible _
        · exact fun f hf ↦ s.enclosed_groupAt hrest f (audible_subset _ _ hf)
      · exact Nat.le_trans s.offset_le_behindGap (Cursor.offset_le_positionAt _ _)

/-! ### Runs -/

/-- The tokens and the findings that reading steps give from the beginning of a text up to a source,
when excluded text may be skipped after any of them. -/
inductive Collects (text : List Char) : List Token → List Finding → TokenSource → Prop where
  | start : Collects text [] [] (.ofText text)
  | read {ts : List Token} {fs : List Finding} {s : TokenSource} {r : Reading} :
      Collects text ts fs s → s.read = some r →
      Collects text (ts ++ r.tokens) (fs ++ r.findings) r.source
  | skip {ts : List Token} {fs : List Finding} {s : TokenSource} : Collects text ts fs s →
      Collects text ts fs s.skipExcluded

namespace Collects

variable {ts : List Token} {fs : List Finding}

theorem readsTo (h : Collects text ts fs s) : ReadsTo text ts s := by
  induction h with
  | start => exact .start
  | read _ hread ih => exact .read ih hread
  | skip _ ih => exact .skip ih

theorem in_text (h : Collects text ts fs s) : s.cursor.In text := h.readsTo.reached.in

theorem readUpTo (h : Collects text ts fs s) (limit : Nat) :
    ∃ last, Collects text (ts ++ (readUpTo limit s).flatMap (·.tokens))
      (fs ++ (TokenSource.readUpTo limit s).flatMap (·.findings)) last := by
  induction limit generalizing ts fs s with
  | zero => exact ⟨s, by simpa [TokenSource.readUpTo] using h⟩
  | succ limit ih =>
    unfold TokenSource.readUpTo
    split
    · exact ⟨s, by simpa using h⟩
    · next r hread =>
      simp only [List.flatMap_cons, ← List.append_assoc]
      exact ih (h.read hread)

/-- Reading a text up to its end collects all tokens of it. -/
theorem exists_ofText (text : List Char) :
    ∃ s, Collects text (tokensOf text) (tokenFindings text) s :=
  start.readUpTo _

/-- All findings start in front of the place where reading goes on. -/
theorem behind (h : Collects text ts fs s) : s.cursor.Behind fs := by
  induction h with
  | start => exact List.forall_mem_nil _
  | @read ts fs s r _ hread ih =>
    refine Cursor.Behind.append ?_ (behind_of_read hread).1
    obtain ⟨n, hrest, hposition⟩ := exists_advance_of_read hread
    intro x hx
    rw [hrest, hposition]
    exact ih.advance n x hx
  | @skip ts fs s _ ih => exact ih.advance (excludedLength s.cursor.rest)

/-- A token was given by one of the steps. What was found before that step stands in front of it,
and what was found later stands behind it. -/
theorem exists_reading (h : Collects text ts fs s) {before after : List Token} {t : Token}
    (hts : ts = before ++ t :: after) : ∃ (ts' : List Token) (fs' : List Finding)
      (s' : TokenSource) (r : Reading) (first last : List Token) (later : List Finding),
      Collects text ts' fs' s' ∧ s'.read = some r ∧ before = ts' ++ first ∧
        r.tokens = first ++ t :: last ∧ fs = fs' ++ (r.findings ++ later) ∧
        (∀ x ∈ later, r.source.cursor.position.offset ≤ x.span.start.offset) ∧
        r.source.cursor.position.offset ≤ s.cursor.position.offset := by
  induction h generalizing before after with
  | start => cases before <;> contradiction
  | @read ts fs s r h hread ih =>
    rcases List.append_eq_append_iff.1 hts with ⟨first, hbefore, htokens⟩ | ⟨seen, hseen, hafter⟩
    · exact ⟨ts, fs, s, r, first, after, [], h, hread, hbefore, htokens,
        by rw [List.append_nil], List.forall_mem_nil _, Nat.le_refl _⟩
    · cases seen with
      | nil =>
        rw [List.append_nil] at hseen
        exact ⟨ts, fs, s, r, [], after, [], h, hread, by rw [List.append_nil, hseen], hafter.symm,
          by rw [List.append_nil], List.forall_mem_nil _, Nat.le_refl _⟩
      | cons u seen =>
        obtain ⟨rfl, -⟩ := List.cons.inj hafter
        obtain ⟨ts', fs', s', r', first, last, later, h', hread', hbefore, htokens, rfl, hlater,
          hle⟩ := ih hseen
        refine ⟨ts', fs', s', r', first, last, later ++ r.findings, h', hread', hbefore, htokens, ?_,
          List.forall_mem_append.2 ⟨hlater, fun x hx ↦ ?_⟩,
          Nat.le_trans hle (offset_le_of_read hread)⟩
        · simp only [List.append_assoc]
        · exact Nat.le_trans hle ((behind_of_read hread).2 x hx)
  | @skip ts fs s h ih =>
    obtain ⟨ts', fs', s', r, first, last, later, h', hread, hbefore, htokens, hfs, hlater, hle⟩ :=
      ih hts
    exact ⟨ts', fs', s', r, first, last, later, h', hread, hbefore, htokens, hfs, hlater,
      Nat.le_trans hle (offset_le_skipExcluded s)⟩

end Collects

end TokenSource

/-! ### Tokens outside of directives and strings -/

/-- The tokens close as much as they open, by the classes of what opens and of what closes. -/
def ClosesAll (opening closing : Kind) (ts : List Token) : Prop :=
  (ts.map (·.kind)).count opening = (ts.map (·.kind)).count closing

instance (opening closing : Kind) : DecidablePred (ClosesAll opening closing) :=
  fun ts ↦ inferInstanceAs (Decidable (List.count _ (ts.map (·.kind)) = _))

/-- The tokens close as many directive lines as they open. -/
abbrev OutsideDirectives (ts : List Token) : Prop := ClosesAll .directiveStart .directiveEnd ts

/-- The tokens close as many interpolated strings as they open. -/
abbrev OutsideStrings (ts : List Token) : Prop := ClosesAll .interpolatedStart .interpolatedEnd ts

namespace ClosesAll

variable {opening closing : Kind} {ts us : List Token}

theorem append (hts : ClosesAll opening closing ts) (hus : ClosesAll opening closing us) :
    ClosesAll opening closing (ts ++ us) := by
  rw [ClosesAll, List.map_append, List.count_append, List.count_append, hts, hus]

theorem of_append (hts : ClosesAll opening closing ts) (h : ClosesAll opening closing (ts ++ us)) :
    ClosesAll opening closing us := by
  rw [ClosesAll, List.map_append, List.count_append, List.count_append, hts] at h
  exact Nat.add_left_cancel h

end ClosesAll

theorem eq_nil_of_singleton_eq {α : Type} {a b : α} {first last : List α}
    (h : [a] = first ++ b :: last) : first = [] :=
  ((List.singleton_eq_append_iff.1 h).resolve_right (by simp)).1

theorem count_directives_of_not_delimits {ks : List Kind} (h : ∀ k ∈ ks, k.delimits = false) :
    ks.count .directiveStart = 0 ∧ ks.count .directiveEnd = 0 := by
  constructor
  · exact List.count_eq_zero.2 fun hmem ↦ Bool.false_ne_true (h _ hmem).symm
  · exact List.count_eq_zero.2 fun hmem ↦ Bool.false_ne_true (h _ hmem).symm

namespace TokenSource

variable {s : TokenSource} {r : Reading} {text : List Char} {ts : List Token}

/-- The directive lines that a step opens and closes. -/
theorem count_directives_of_read (h : s.read = some r) :
    (r.tokens.map (·.kind)).count .directiveStart + (if s.inDirective then 1 else 0) =
      (r.tokens.map (·.kind)).count .directiveEnd + (if r.source.inDirective then 1 else 0) := by
  obtain ⟨-, c, fs, -, ⟨hin, rfl⟩ | ⟨hin, rfl⟩ | ⟨hc, rfl⟩⟩ := read_cases h
  · simp [hin, Cursor.emptyToken]
  · simp [hin, Cursor.emptyToken]
  · rw [readGroup_eq]
    simp only [Cursor.kinds_tokens]
    cases hopens : s.opensDirective c with
    | true =>
      obtain ⟨ks, hks, hnone⟩ := not_delimits_directiveOpening c.rest
      obtain ⟨hstart, hend⟩ := count_directives_of_not_delimits hnone
      have hout : s.inDirective = false := by
        simp only [opensDirective, Bool.and_eq_true, Bool.not_eq_true'] at hopens
        exact hopens.2
      rw [groupAt, if_pos hopens, hks, hout]
      simp [hstart, hend]
    | false =>
      obtain ⟨hstart, hend⟩ := count_directives_of_not_delimits
        (derives_scanGroup s.inDirective maxOpenHoles c.rest).not_delimits
      rw [groupAt, if_neg (Bool.eq_false_iff.1 hopens), hstart, hend, Bool.or_false]

theorem ReadsTo.count_directives (h : ReadsTo text ts s) :
    (ts.map (·.kind)).count .directiveStart =
      (ts.map (·.kind)).count .directiveEnd + if s.inDirective then 1 else 0 := by
  induction h with
  | start => rfl
  | @read ts s r _ hread ih =>
    have hstep := count_directives_of_read hread
    rw [List.map_append, List.count_append, List.count_append]
    omega
  | skip _ ih => exact ih

/-- In front of a token that a step gives, the step ends no directive line. -/
theorem count_directiveEnd_of_read (h : s.read = some r) {first last : List Token} {t : Token}
    (htokens : r.tokens = first ++ t :: last) : (first.map (·.kind)).count .directiveEnd = 0 := by
  have hkinds := congrArg (List.map (·.kind)) htokens
  rw [List.map_append, List.map_cons] at hkinds
  obtain ⟨-, c, fs, -, ⟨-, rfl⟩ | ⟨-, rfl⟩ | ⟨-, rfl⟩⟩ := read_cases h
  · rw [eq_nil_of_singleton_eq hkinds]
    rfl
  · rw [eq_nil_of_singleton_eq hkinds]
    rfl
  · have hnone : (Piece.kinds (s.groupAt c).pieces).count .directiveEnd = 0 := by
      unfold groupAt
      split
      · obtain ⟨ks, hks, hline⟩ := not_delimits_directiveOpening c.rest
        rw [hks, List.count_cons_of_ne (by decide)]
        exact (count_directives_of_not_delimits hline).2
      · exact (count_directives_of_not_delimits
          (derives_scanGroup s.inDirective maxOpenHoles c.rest).not_delimits).2
    simp only [readGroup_eq, Cursor.kinds_tokens] at hkinds
    rw [hkinds, List.count_append] at hnone
    exact (Nat.add_eq_zero_iff.1 hnone).1

/-- A token that no directive line holds is given by a step outside of directives. -/
theorem Collects.inDirective_of_outside {fs : List Finding} (h : Collects text ts fs s)
    (hread : s.read = some r) {first last : List Token} {t : Token}
    (htokens : r.tokens = first ++ t :: last) (hout : OutsideDirectives (ts ++ first)) :
    s.inDirective = false := by
  have hcount := h.readsTo.count_directives
  rw [OutsideDirectives, ClosesAll, List.map_append, List.count_append, List.count_append,
    count_directiveEnd_of_read hread htokens] at hout
  cases hin : s.inDirective with
  | false => rfl
  | true =>
    rw [hin, if_pos rfl] at hcount
    omega

/-- A step closes all interpolated strings that it opens. -/
theorem outsideStrings_of_read (h : s.read = some r) : OutsideStrings r.tokens := by
  obtain ⟨-, c, fs, -, ⟨-, rfl⟩ | ⟨-, rfl⟩ | ⟨hc, rfl⟩⟩ := read_cases h
  · rfl
  · rfl
  · rw [readGroup_eq]
    simp only [ClosesAll, Cursor.kinds_tokens]
    unfold groupAt
    split
    · exact count_directiveOpening c.rest
    · exact (derives_scanGroup s.inDirective maxOpenHoles c.rest).balancesStrings.settled

theorem ReadsTo.outsideStrings (h : ReadsTo text ts s) : OutsideStrings ts := by
  induction h with
  | start => rfl
  | read _ hread ih => exact ih.append (outsideStrings_of_read hread)
  | skip _ ih => exact ih

/-- What a step gives in front of a token, if anything, leaves a directive line or an interpolated
string open. -/
theorem eq_nil_of_closesAll (h : s.read = some r) {first last : List Token} {t : Token}
    (htokens : r.tokens = first ++ t :: last) (hdirectives : OutsideDirectives first)
    (hstrings : OutsideStrings first) : first = [] := by
  have hends := count_directiveEnd_of_read h htokens
  have hkinds := congrArg (List.map (·.kind)) htokens
  rw [List.map_append, List.map_cons] at hkinds
  rw [← List.map_eq_nil_iff (f := (·.kind))]
  rw [OutsideDirectives, ClosesAll, hends, List.count_eq_zero] at hdirectives
  rw [OutsideStrings, ClosesAll] at hstrings
  generalize first.map (·.kind) = first at hkinds hdirectives hstrings
  obtain ⟨-, c, fs, -, ⟨-, rfl⟩ | ⟨-, rfl⟩ | ⟨-, rfl⟩⟩ := read_cases h
  · exact eq_nil_of_singleton_eq hkinds
  · exact eq_nil_of_singleton_eq hkinds
  · simp only [readGroup_eq, Cursor.kinds_tokens] at hkinds
    cases first with
    | nil => rfl
    | cons k ks =>
      exfalso
      cases hopens : s.opensDirective c with
      | true =>
        obtain ⟨ps, hps⟩ := directiveStart_of_opensDirective hopens
        rw [hps] at hkinds
        obtain ⟨rfl, -⟩ := List.cons.inj hkinds
        exact hdirectives List.mem_cons_self
      | false =>
        rw [groupAt, if_neg (Bool.eq_false_iff.1 hopens)] at hkinds
        rcases single_or_content_scanGroup s.inDirective maxOpenHoles c.rest with
          ⟨l, hl⟩ | ⟨ls, hls, hcontent⟩
        · exact List.cons_ne_nil k ks (eq_nil_of_singleton_eq (hl.symm.trans hkinds))
        · obtain ⟨rfl, hcontents⟩ := List.cons.inj (hls.symm.trans hkinds)
          have hlt := hcontent.lt_count_of_content hcontents
          omega

/-- A token outside of directives and interpolated strings is the first one of its step, and that
step starts outside of directives. -/
theorem Collects.first_of_outside {fs : List Finding} (h : Collects text ts fs s)
    (hread : s.read = some r) {first last : List Token} {t : Token}
    (htokens : r.tokens = first ++ t :: last) (hdirectives : OutsideDirectives (ts ++ first))
    (hstrings : OutsideStrings (ts ++ first)) : first = [] ∧ s.inDirective = false := by
  have hin := h.inDirective_of_outside hread htokens hdirectives
  have hbefore : OutsideDirectives ts := by
    have hcount := h.readsTo.count_directives
    rwa [hin] at hcount
  exact ⟨eq_nil_of_closesAll hread htokens (hbefore.of_append hdirectives)
    (h.readsTo.outsideStrings.of_append hstrings), hin⟩

end TokenSource

/-! ### Literals among the tokens -/

/-- What is found in a token. -/
def Token.found (t : Token) (fs : List Finding) : List Finding :=
  fs.filter fun x ↦
    t.span.start.offset ≤ x.span.start.offset && x.span.start.offset < t.span.stop.offset

/-- The finding for a fault of what the text holds from `start` on. -/
def Fault.findingIn (text : List Char) (start : Nat) (f : Fault) : Finding :=
  ⟨.lexical f.error, ⟨Position.first.after text (start + f.start),
    Position.first.after text (start + f.stop)⟩⟩

/-- The token is the literal that the text makes at its place. -/
structure Token.LiteralIn (text : List Char) (t : Token) (l : Lexeme) : Prop where
  literal : IsLiteral (text.drop t.span.start.offset) l
  kind : t.kind = l.kind
  chars : t.text.toList = (text.drop t.span.start.offset).take l.length
  features : t.features = l.features
  stop : t.span.stop.offset = t.span.start.offset + l.length

namespace Token

variable {t : Token} {fs gs : List Finding}

theorem found_append (t : Token) (fs gs : List Finding) :
    t.found (fs ++ gs) = t.found fs ++ t.found gs := List.filter_append _ _

theorem found_eq_nil (h : ∀ x ∈ fs, x.span.start.offset < t.span.start.offset ∨
    t.span.stop.offset ≤ x.span.start.offset) : t.found fs = [] := by
  refine List.filter_eq_nil_iff.2 fun x hx hin ↦ ?_
  obtain ⟨hstart, hstop⟩ := Bool.and_eq_true_iff.1 hin
  have hstart := of_decide_eq_true hstart
  have hstop := of_decide_eq_true hstop
  have hout := h x hx
  omega

end Token

theorem Cursor.exists_eq_token {c : Cursor} {pieces : List Piece} {t : Token}
    (h : t ∈ c.tokens pieces) : ∃ p ∈ pieces, ∃ atLineStart, t = c.token atLineStart p := by
  cases pieces with
  | nil => contradiction
  | cons p ps =>
    rcases List.mem_cons.1 h with rfl | h
    · exact ⟨p, List.mem_cons_self, _, rfl⟩
    · obtain ⟨q, hq, rfl⟩ := List.mem_map.1 h
      exact ⟨q, List.mem_cons_of_mem p hq, _, rfl⟩

/-- A literal among the pieces of a scan becomes a token with the findings of the literal. -/
theorem Piece.LiteralOf.token {c : Cursor} {text : List Char} {faults : List Fault} {p : Piece}
    (hc : c.In text) (h : p.LiteralOf c.rest faults) (hliteral : p.kind.isLiteral = true)
    (hstop : p.start + p.length ≤ c.rest.length) (hwithin : Within c.rest.length faults)
    (atLineStart : Bool) : ∃ l, (c.token atLineStart p).LiteralIn text l ∧
      (c.token atLineStart p).found ((upToGivingUp faults).map c.finding) =
        l.faults.map (Fault.findingIn text (c.token atLineStart p).span.start.offset) := by
  have hmessage : p.kind ≠ .directiveMessage := by
    intro hkind
    rw [hkind] at hliteral
    contradiction
  have hplace : (c.token atLineStart p).span.start.offset = c.position.offset + p.start := by
    rw [Cursor.token, Cursor.offset_positionAt, Nat.min_eq_left (by omega)]
  have hend : (c.token atLineStart p).span.stop.offset =
      c.position.offset + (p.start + p.length) := by
    rw [Cursor.token, Cursor.offset_positionAt, Nat.min_eq_left hstop]
  have hrest : text.drop (c.position.offset + p.start) = c.rest.drop p.start := by
    rw [hc.rest, List.drop_drop]
  have hlength : p.length = (plainLexeme (c.rest.drop p.start)).length :=
    congrArg (·.length) h.piece
  refine ⟨plainLexeme (c.rest.drop p.start), ⟨?_, congrArg (·.kind) h.piece, ?_,
    congrArg (·.features) h.piece, ?_⟩, ?_⟩
  · rw [hplace, hrest]
    exact h.literal
  · rw [hplace, hrest, ← hlength]
    simp only [Cursor.token, if_neg hmessage, String.toList_ofList]
  · rw [hend, hplace, ← hlength, Nat.add_assoc]
  · have hcongr : ∀ f ∈ upToGivingUp faults,
        ((fun x : Finding ↦ decide ((c.token atLineStart p).span.start.offset ≤ x.span.start.offset) &&
          decide (x.span.start.offset < (c.token atLineStart p).span.stop.offset)) ∘ c.finding) f =
          (decide (p.start ≤ f.start) && decide (f.start < p.start + p.length)) := by
      intro f hf
      obtain ⟨hle, hlast⟩ := hwithin f (upToGivingUp_subset _ hf)
      have hfinding : (c.finding f).span.start.offset = c.position.offset + f.start := by
        rw [Cursor.finding, Cursor.offset_positionAt, Nat.min_eq_left (by omega)]
      rw [Function.comp_apply, hfinding, hplace, hend]
      congr 1
      · exact decide_eq_decide.2 Nat.add_le_add_iff_left
      · exact decide_eq_decide.2 Nat.add_lt_add_iff_left
    rw [Token.found, List.filter_map, List.filter_congr hcongr, h.filter_upToGivingUp, List.map_map,
      hplace]
    refine List.map_congr_left fun f _ ↦ ?_
    simp only [Function.comp_apply, Cursor.finding, Fault.findingIn, Fault.shift,
      hc.positionAt_eq, Nat.add_assoc]

namespace TokenSource

variable {s : TokenSource} {r : Reading} {text : List Char} {t : Token}

/-- A literal that a step gives is the one that the text makes at its place. Outside of directives
the step finds in it what its scanner does. -/
theorem exists_literal_of_read (hs : s.cursor.In text) (h : s.read = some r) (ht : t ∈ r.tokens)
    (hliteral : t.kind.isLiteral = true) : ∃ l, t.LiteralIn text l ∧
      (s.inDirective = false →
        t.found r.findings = l.faults.map (Fault.findingIn text t.span.start.offset)) := by
  have hc : s.behindGap.In text := hs.passGap _
  have hplaces := (offset_le_of_mem_tokens h ht).1
  have hempty {kind : Kind} {atLineStart : Bool} (hkind : kind.isLiteral = false)
      (ht : t ∈ [s.behindGap.emptyToken kind atLineStart]) : False := by
    rw [List.mem_singleton.1 ht] at hliteral
    exact Bool.false_ne_true (hkind.symm.trans hliteral)
  rw [read_eq (finished_of_read h)] at h
  split at h
  · cases h
    exact (hempty rfl ht).elim
  · split at h
    · cases h
      exact (hempty rfl ht).elim
    · next hrest =>
      cases h
      rw [readGroup_eq] at ht ⊢
      obtain ⟨p, hp, atLineStart, rfl⟩ := Cursor.exists_eq_token ht
      have hstop := Nat.le_trans ((s.covers_groupAt hrest).tiled.le_of_mem p hp)
        (s.length_groupAt_le _)
      have hwithin := (s.within_groupAt s.behindGap).mono (s.length_groupAt_le _)
      have hscan : s.groupAt s.behindGap =
          scanGroup s.inDirective maxOpenHoles s.behindGap.rest := by
        unfold groupAt at hp ⊢
        split
        · next hopens =>
          rw [if_pos hopens] at hp
          have hnone := isLiteral_directiveOpening _ p hp
          exact (Bool.false_ne_true (hnone.symm.trans hliteral)).elim
        · rfl
      rw [hscan] at hp hwithin ⊢
      obtain ⟨l, hl, hfound⟩ := (literals_scanGroup s.inDirective maxOpenHoles hrest p hp
        hliteral).token hc hliteral hstop hwithin atLineStart
      refine ⟨l, hl, fun hout ↦ ?_⟩
      have hnone : (s.behindGap.token atLineStart p).found s.gapFindings = [] :=
        Token.found_eq_nil fun x hx ↦
          .inl (s.behind_gapFindings.lt_of_literal hc hplaces hl.literal x hx)
      rw [hout] at hfound ⊢
      rw [audible_false, Token.found_append, hnone, List.nil_append, hfound]

/-- Every literal of a run is the one that the text makes at its place. In a literal outside of
directives nothing is found but what its scanner finds. -/
theorem Collects.exists_literal {ts before after : List Token} {fs : List Finding}
    (h : Collects text ts fs s) (hts : ts = before ++ t :: after)
    (hliteral : t.kind.isLiteral = true) : ∃ l, t.LiteralIn text l ∧
      (OutsideDirectives before →
        t.found fs = l.faults.map (Fault.findingIn text t.span.start.offset)) := by
  obtain ⟨ts', fs', s', r, first, last, later, h', hread, hbefore, htokens, rfl, hlater, -⟩ :=
    h.exists_reading hts
  have ht : t ∈ r.tokens := by simp [htokens]
  obtain ⟨l, hl, hfound⟩ := exists_literal_of_read h'.in_text hread ht hliteral
  obtain ⟨hbehind, hordered, hstop⟩ := offset_le_of_mem_tokens hread ht
  have hstart := Nat.le_trans s'.offset_le_behindGap hbehind
  refine ⟨l, hl, fun hout ↦ ?_⟩
  have hearlier : t.found fs' = [] := Token.found_eq_nil fun x hx ↦
    .inl (h'.behind.lt_of_literal h'.in_text hstart hl.literal x hx)
  have hlast : t.found later = [] := Token.found_eq_nil fun x hx ↦
    .inr (Nat.le_trans hstop (hlater x hx))
  rw [Token.found_append, Token.found_append, hearlier, hlast, List.append_nil, List.nil_append]
  exact hfound (h'.inDirective_of_outside hread htokens (hbefore ▸ hout))

end TokenSource

end CSharpCheck
