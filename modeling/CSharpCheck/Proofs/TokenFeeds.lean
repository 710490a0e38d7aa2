import CSharpCheck.Proofs.TokenGrammar
import CSharpCheck.Proofs.TruePositions

/-!
# Token feeds under any schedule

The reader of a feed may ask for the next token and have excluded text skipped in any order, also
on a directive line and while tokens of a group are still waiting. Whatever the order, the tokens
read so far are the beginning of a stream of tokens and stand one behind the other in the text. The
delivered ones are all of them but those that wait.
-/

namespace CSharpCheck

open Phrase

/-! ### Directive lines in a stream -/

namespace Phrase

/-- Between the start of a directive line and whatever opens the next one or ends the text there is
one end of a directive line. -/
theorem Alternate.eq_directiveEnd {ks before between after : List Kind} {k : Kind}
    (h : Alternate ks) (hks : ks = before ++ .directiveStart :: (between ++ k :: after))
    (hk : k ≠ .directiveEnd) (hbetween : ∀ l ∈ between, l = .directiveEnd) :
    between = [.directiveEnd] := by
  induction h generalizing before with
  | endOfFile => cases before <;> simp at hks
  | line hrest ih =>
    match before with
    | [] =>
      match between with
      | [] =>
        simp only [List.nil_append, List.cons.injEq, true_and] at hks
        exact absurd hks.1.symm hk
      | [l] => rw [hbetween l List.mem_cons_self]
      | l :: m :: _ =>
        obtain rfl := hbetween m (by simp)
        simp only [List.nil_append, List.cons_append, List.cons.injEq, true_and] at hks
        rw [hks.2] at hrest
        cases hrest
    | [_] => simp at hks
    | _ :: _ :: before =>
      simp only [List.cons_append, List.cons.injEq] at hks
      exact ih hks.2.2

/-- The end of the text comes last in a stream, and nowhere else. -/
theorem Derives.exists_body {ks : List Kind} (h : Derives stream ks) :
    ∃ body, ks = body ++ [.endOfFile] ∧ .endOfFile ∉ body := by
  have hnone {ls : List Kind} (hls : .endOfFile ∉ ls.filter Kind.delimits) : .endOfFile ∉ ls :=
    fun hmem ↦ hls (List.mem_filter.2 ⟨hmem, rfl⟩)
  generalize hp : stream = p at h
  induction h with
  | streamItems hitems _ _ ih =>
    obtain ⟨body, rfl, hbody⟩ := ih hp
    refine ⟨_ ++ body, (List.append_assoc _ _ _).symm, ?_⟩
    rw [List.mem_append, not_or]
    exact ⟨hnone (by simp [hitems.delimiters]), hbody⟩
  | @directive ks _ hline _ _ ih =>
    obtain ⟨body, rfl, hbody⟩ := ih hp
    refine ⟨.directiveStart :: (ks ++ body), by simp, ?_⟩
    have hks : .endOfFile ∉ ks := hnone (by simp [hline.delimiters])
    simp [hks, hbody]
  | streamEnd => exact ⟨[], rfl, by simp⟩
  | _ => cases hp

end Phrase

/-! ### Tokens that have been read -/

namespace TokenSource

variable {s : TokenSource} {text : List Char} {ts : List Token}

/-- The tokens that reading steps give from the beginning of a text up to a source, when excluded
text may be skipped after any of them. -/
inductive ReadsTo (text : List Char) : List Token → TokenSource → Prop where
  | start : ReadsTo text [] (.ofText text)
  | read {ts : List Token} {s : TokenSource} {r : Reading} : ReadsTo text ts s →
      s.read = some r → ReadsTo text (ts ++ r.tokens) r.source
  | skip {ts : List Token} {s : TokenSource} : ReadsTo text ts s → ReadsTo text ts s.skipExcluded

namespace ReadsTo

theorem reached (h : ReadsTo text ts s) : Reached text s := by
  induction h with
  | start => exact .start
  | read _ hread ih => exact .read ih hread
  | skip _ ih => exact .skip ih

theorem spans_in (h : ReadsTo text ts s) : ∀ t ∈ ts, t.span.In text := by
  induction h with
  | start => exact List.forall_mem_nil _
  | read h hread ih =>
    exact List.forall_mem_append.2 ⟨ih, (in_of_read h.reached.in hread).tokens⟩
  | skip _ ih => exact ih

/-- What has been read stands in front of the place where reading goes on. -/
theorem stop_le (h : ReadsTo text ts s) :
    ∀ t ∈ ts, t.span.stop.offset ≤ s.cursor.position.offset := by
  induction h with
  | start => exact List.forall_mem_nil _
  | read _ hread ih =>
    refine List.forall_mem_append.2 ⟨fun t ht ↦ ?_, fun t ht ↦ ?_⟩
    · exact Nat.le_trans (ih t ht) (offset_le_of_read hread)
    · exact (offset_le_of_mem_tokens hread ht).2.2
  | @skip ts s _ ih => exact fun t ht ↦ Nat.le_trans (ih t ht) (offset_le_skipExcluded s)

/-- Tokens stand one behind the other. -/
theorem pairwise (h : ReadsTo text ts s) :
    ts.Pairwise (·.span.stop.offset ≤ ·.span.start.offset) := by
  induction h with
  | start => exact .nil
  | @read ts s r h hread ih =>
    refine List.pairwise_append.2 ⟨ih, pairwise_tokens_of_read hread, fun t ht u hu ↦ ?_⟩
    have hgap := s.offset_le_behindGap
    have hu := (offset_le_of_mem_tokens hread hu).1
    exact (h.stop_le t ht).trans (hgap.trans hu)
  | skip _ ih => exact ih

/-- What has been read is a stream, or the rest of a text makes it one. -/
theorem derives (h : ReadsTo text ts s) :
    (s.finished = true ∧ Derives stream (ts.map (·.kind))) ∨
      (s.finished = false ∧ ∀ ks, Remain s.inDirective ks →
        Derives stream (ts.map (·.kind) ++ ks)) := by
  induction h with
  | start => exact .inr ⟨rfl, fun ks hks ↦ hks⟩
  | @read ts s r _ hread ih =>
    have hgoes := finished_of_read hread
    obtain ⟨hends, -⟩ | ⟨-, hstream⟩ := ih
    · rw [hends] at hgoes
      contradiction
    rw [List.map_append]
    rcases remain_of_read hread with ⟨hends, hout, hkinds⟩ | ⟨hgoes, hremain⟩
    · rw [hkinds]
      exact .inl ⟨hends, hstream _ (hout ▸ .streamEnd)⟩
    · refine .inr ⟨hgoes, fun ks hks ↦ ?_⟩
      rw [List.append_assoc]
      exact hstream _ (hremain ks hks)
  | skip _ ih => exact ih

/-- As long as the text has not ended, some rest of it makes a stream of what has been read. -/
theorem exists_rest (h : ReadsTo text ts s) (hgoes : s.finished = false) :
    ∃ ks, Derives stream (ts.map (·.kind) ++ ks ++ [.endOfFile]) := by
  obtain ⟨hends, -⟩ | ⟨-, hstream⟩ := h.derives
  · rw [hgoes] at hends
    contradiction
  cases hin : s.inDirective with
  | false => exact ⟨[], by simpa using hstream [.endOfFile] (hin ▸ .streamEnd)⟩
  | true =>
    refine ⟨[.directiveEnd], ?_⟩
    rw [List.append_assoc]
    exact hstream _ (hin ▸ ⟨_, _, rfl, .lineEnd, .streamEnd⟩)

/-- What has been read is the beginning of a stream. -/
theorem exists_stream (h : ReadsTo text ts s) : ∃ ks, Derives stream (ts.map (·.kind) ++ ks) := by
  cases hgoes : s.finished with
  | false =>
    obtain ⟨ks, hks⟩ := h.exists_rest hgoes
    exact ⟨_, List.append_assoc _ _ _ ▸ hks⟩
  | true =>
    obtain ⟨-, hstream⟩ | ⟨hfalse, -⟩ := h.derives
    · exact ⟨[], by rwa [List.append_nil]⟩
    · rw [hgoes] at hfalse
      contradiction

/-- A source is finished as soon as the end of the text has been read. -/
theorem finished_iff (h : ReadsTo text ts s) :
    s.finished = true ↔ ∃ t ∈ ts, t.kind = .endOfFile := by
  obtain ⟨hends, hstream⟩ | ⟨hgoes, -⟩ := h.derives
  · obtain ⟨body, hbody, -⟩ := hstream.exists_body
    have hmem : .endOfFile ∈ ts.map (·.kind) := by simp [hbody]
    obtain ⟨t, ht, hkind⟩ := List.mem_map.1 hmem
    exact iff_of_true hends ⟨t, ht, hkind⟩
  · obtain ⟨ks, hks⟩ := h.exists_rest hgoes
    obtain ⟨body, hbody, hnone⟩ := hks.exists_body
    obtain rfl := List.append_inj_left' hbody rfl
    refine iff_of_false (by simp [hgoes]) fun ⟨t, ht, hkind⟩ ↦ hnone ?_
    exact List.mem_append_left _ (hkind ▸ List.mem_map_of_mem ht)

/-- In what has been read a directive line is closed once before the next one is opened or the text
ends. -/
theorem countP_directiveEnd (h : ReadsTo text ts s) {before between after : List Token}
    {opening next : Token} (hts : ts = before ++ opening :: (between ++ next :: after))
    (hopening : opening.kind = .directiveStart)
    (hnext : next.kind = .directiveStart ∨ next.kind = .endOfFile)
    (hbetween : ∀ t ∈ between, t.kind ≠ .directiveStart ∧ t.kind ≠ .endOfFile) :
    between.countP (·.kind == .directiveEnd) = 1 := by
  obtain ⟨ks, hks⟩ := h.exists_stream
  have hdelimits : next.kind.delimits = true := by rcases hnext with h | h <;> rw [h] <;> rfl
  have hends : ∀ k ∈ (between.map (·.kind)).filter Kind.delimits, k = .directiveEnd := by
    intro k hk
    obtain ⟨hmem, hk⟩ := List.mem_filter.1 hk
    obtain ⟨t, ht, rfl⟩ := List.mem_map.1 hmem
    have hneither := hbetween t ht
    revert hk hneither
    cases t.kind <;> simp [Kind.delimits]
  have hsplit : (ts.map (·.kind) ++ ks).filter Kind.delimits =
      (before.map (·.kind)).filter Kind.delimits ++ .directiveStart ::
        ((between.map (·.kind)).filter Kind.delimits ++ next.kind ::
          (after.map (·.kind) ++ ks).filter Kind.delimits) := by
    have hstart : Kind.directiveStart.delimits = true := rfl
    simp [hts, hopening, hdelimits, hstart]
  have hne : next.kind ≠ .directiveEnd := by rcases hnext with h | h <;> simp [h]
  have honly := hks.delimiters.eq_directiveEnd hsplit hne hends
  have hcount := congrArg (List.count .directiveEnd) honly
  rwa [List.count_filter rfl, List.count_singleton_self, List.count, List.countP_map] at hcount

/-- Nothing is read behind the end of the text. -/
theorem eq_nil_of_endOfFile (h : ReadsTo text ts s) {before after : List Token} {eof : Token}
    (hts : ts = before ++ eof :: after) (heof : eof.kind = .endOfFile) : after = [] := by
  obtain ⟨hends, hstream⟩ | ⟨hgoes, -⟩ := h.derives
  · obtain ⟨body, hbody, hnone⟩ := hstream.exists_body
    rcases List.eq_nil_or_concat after with rfl | ⟨init, last, rfl⟩
    · rfl
    · rw [hts, List.concat_eq_append, ← List.cons_append, ← List.append_assoc, List.map_append]
        at hbody
      obtain rfl := List.append_inj_left' hbody rfl
      simp [heof] at hnone
  · have hends := h.finished_iff.2 ⟨eof, by simp [hts], heof⟩
    rw [hgoes] at hends
    contradiction

end ReadsTo

end TokenSource

/-! ### Schedules -/

namespace TokenFeed

/-- What the reader of a feed may do: ask for the next token, or have excluded text skipped. -/
inductive Act where
  | pull | skip
  deriving DecidableEq, Repr

/-- The token that an act delivers, if any, and the feed after it. -/
def act (f : TokenFeed) : Act → Option Token × TokenFeed
  | .pull => (f.next.1, f.next.2.2)
  | .skip => (none, f.skipExcluded)

/-- The feed after the acts. -/
def after (f : TokenFeed) : List Act → TokenFeed
  | [] => f
  | a :: acts => (f.act a).2.after acts

/-- The tokens that the acts deliver. -/
def delivered (f : TokenFeed) : List Act → List Token
  | [] => []
  | a :: acts => (f.act a).1.toList ++ (f.act a).2.delivered acts

variable {f : TokenFeed} {text : List Char} {ts : List Token}

theorem after_append (f : TokenFeed) (acts acts' : List Act) :
    f.after (acts ++ acts') = (f.after acts).after acts' := by
  induction acts generalizing f with
  | nil => rfl
  | cons a acts ih => exact ih _

/-- The feed has delivered the tokens: with those that wait they are all that has been read. No
token waits behind the end of the text. -/
structure Follows (text : List Char) (ts : List Token) (f : TokenFeed) : Prop where
  reads : f.source.ReadsTo text (ts ++ f.waiting)
  waiting : f.source.finished = true → f.waiting = []

namespace Follows

theorem start (text : List Char) : Follows text [] (.ofText text) := ⟨.start, nofun⟩

/-- A reading step that is made for the next token. -/
theorem read (h : Follows text ts f) (hwaiting : f.waiting = []) {r : Reading}
    (hread : f.source.read = some r) :
    Follows text (ts ++ r.tokens.head?.toList) ⟨r.source, r.tokens.drop 1⟩ where
  reads := by
    have htokens : r.tokens.head?.toList ++ r.tokens.drop 1 = r.tokens := by
      cases r.tokens <;> rfl
    have hreads := h.reads.read hread
    rwa [hwaiting, List.append_nil, ← htokens, ← List.append_assoc] at hreads
  waiting hends := by
    rcases TokenSource.remain_of_read hread with ⟨-, -, hkinds⟩ | ⟨hgoes, -⟩
    · obtain ⟨t, htokens, -⟩ := List.map_eq_singleton_iff.1 hkinds
      simp [htokens]
    · rw [hgoes] at hends
      contradiction

theorem act (h : Follows text ts f) (a : Act) :
    Follows text (ts ++ (f.act a).1.toList) (f.act a).2 := by
  cases a with
  | skip =>
    refine ⟨?_, h.waiting⟩
    rw [TokenFeed.act, Option.toList_none, List.append_nil]
    exact h.reads.skip
  | pull =>
    simp only [TokenFeed.act, next]
    split
    · next t us hwaiting =>
      refine ⟨by simpa [hwaiting] using h.reads, fun hends ↦ ?_⟩
      rw [h.waiting hends] at hwaiting
      contradiction
    · next hwaiting =>
      split
      · exact ⟨by simpa using h.reads, h.waiting⟩
      · next r hread => exact h.read hwaiting hread

theorem after (h : Follows text ts f) (acts : List Act) :
    Follows text (ts ++ f.delivered acts) (f.after acts) := by
  induction acts generalizing ts f with
  | nil => simpa [delivered, TokenFeed.after] using h
  | cons a acts ih =>
    rw [delivered, ← List.append_assoc]
    exact ih (h.act a)

/-- A token is delivered as long as the end of the text has not been. -/
theorem isSome_next_iff (h : Follows text ts f) :
    f.next.1.isSome = true ↔ ∀ t ∈ ts, t.kind ≠ .endOfFile := by
  cases hends : f.source.finished with
  | true =>
    have hwaiting := h.waiting hends
    have hread : f.source.read = none := by simp [TokenSource.read, hends]
    obtain ⟨t, ht, heof⟩ := h.reads.finished_iff.1 hends
    rw [hwaiting, List.append_nil] at ht
    refine iff_of_false (by simp [next, hwaiting, hread]) fun hnone ↦ hnone t ht heof
  | false =>
    refine iff_of_true ?_ fun t ht heof ↦ ?_
    · obtain ⟨r, hread⟩ := TokenSource.exists_read hends
      obtain ⟨t, us, htokens⟩ : ∃ t us, r.tokens = t :: us := by
        cases TokenSource.gives_of_read hread <;> exact ⟨_, _, ‹_›⟩
      cases hwaiting : f.waiting with
      | nil => simp [next, hwaiting, hread, htokens]
      | cons t us => simp [next, hwaiting]
    · have htrue := h.reads.finished_iff.2 ⟨t, List.mem_append_left _ ht, heof⟩
      rw [hends] at htrue
      contradiction

end Follows

theorem position_le_act (f : TokenFeed) (a : Act) :
    f.position.offset ≤ (f.act a).2.position.offset := by
  cases a with
  | skip => exact TokenSource.offset_le_skipExcluded _
  | pull =>
    simp only [act, next]
    split
    · exact Nat.le_refl _
    · split
      · exact Nat.le_refl _
      · next hread => exact TokenSource.offset_le_of_read hread

theorem position_le_after (f : TokenFeed) (acts : List Act) :
    f.position.offset ≤ (f.after acts).position.offset := by
  induction acts generalizing f with
  | nil => exact Nat.le_refl _
  | cons a acts ih => exact Nat.le_trans (f.position_le_act a) (ih _)

end TokenFeed

/-- However pulling and skipping follow one another, the delivered tokens stand in the text in
order, each directive line is closed once before the next one is opened or the text ends, the end
of the text comes last, and the place up to which the text has been read never goes back. A pull
delivers a token unless the end of the text has been delivered before. -/
theorem delivered_consistent (text : List Char) (acts : List TokenFeed.Act) :
    let f := TokenFeed.ofText text
    let ts := f.delivered acts
    ts.Pairwise (·.span.start.offset ≤ ·.span.start.offset) ∧
    (∀ t ∈ ts, t.span.In text) ∧
    (∀ before opening between next after, ts = before ++ opening :: (between ++ next :: after) →
      opening.kind = .directiveStart → next.kind = .directiveStart ∨ next.kind = .endOfFile →
      (∀ t ∈ between, t.kind ≠ .directiveStart ∧ t.kind ≠ .endOfFile) →
      between.countP (·.kind == .directiveEnd) = 1) ∧
    (∀ before eof after, ts = before ++ eof :: after → eof.kind = .endOfFile → after = []) ∧
    (∀ first rest, acts = first ++ rest →
      (f.after first).position.offset ≤ (f.after acts).position.offset) ∧
    ∀ first rest, acts = first ++ .pull :: rest →
      ((f.after first).next.1.isSome = true ↔ ∀ t ∈ f.delivered first, t.kind ≠ .endOfFile) := by
  intro f ts
  have hfollows : TokenFeed.Follows text ts (f.after acts) :=
    (TokenFeed.Follows.start text).after acts
  have hreads := hfollows.reads
  have hin := (List.forall_mem_append.1 hreads.spans_in).1
  refine ⟨?_, hin, fun before opening between next after hts ↦ ?_,
    fun before eof after hts heof ↦ ?_, fun first rest hacts ↦ ?_, fun first rest _ ↦ ?_⟩
  · have hpairwise := (List.pairwise_append.1 hreads.pairwise).1
    exact hpairwise.imp_of_mem fun ht _ hle ↦ Nat.le_trans (hin _ ht).le hle
  · have hall : ts ++ (f.after acts).waiting =
        before ++ opening :: (between ++ next :: (after ++ (f.after acts).waiting)) := by simp [hts]
    exact hreads.countP_directiveEnd hall
  · have hall : ts ++ (f.after acts).waiting =
        before ++ eof :: (after ++ (f.after acts).waiting) := by simp [hts]
    exact (List.append_eq_nil_iff.1 (hreads.eq_nil_of_endOfFile hall heof)).1
  · rw [hacts, TokenFeed.after_append]
    exact TokenFeed.position_le_after _ _
  · exact ((TokenFeed.Follows.start text).after first).isSome_next_iff

/-- Excluded text is skipped behind the end of its directive line. -/
example : ((TokenFeed.ofText "#if A\rbroken(\r  #endif\rx".toList).delivered
      ([.pull, .pull, .pull, .pull, .skip] ++ List.replicate 5 .pull)).map (·.text) =
    ["#", "if", "A", "", "#", "endif", "", "x", ""] := by
  cbv

end CSharpCheck
