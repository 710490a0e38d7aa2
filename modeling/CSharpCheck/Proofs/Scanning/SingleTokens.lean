import CSharpCheck.Proofs.Directives.Readers
import CSharpCheck.Proofs.Scanning.Features
import Mathlib.Data.List.Chain

/-!
# Single tokens

A text may be written token by token, with single spaces between the tokens. It is then read token
by token, whatever the tokens are, as long as each of them is read for itself. A token may reach
over several lines.
-/

namespace CSharpCheck

/-- In front of the rest of the text, the characters are read as a single token of the kind, with
the name and the features, and without a fault. -/
structure ReadsAs (chars : List Char) (kind : Kind) (name : Option String)
    (features : List Feature) (rest : List Char) : Prop where
  ne_nil : chars ≠ []
  gap_eq : gap false (chars ++ rest) = []
  scan_eq : scanGroup false maxOpenHoles (chars ++ rest) =
    ⟨chars.length, [⟨kind, 0, chars.length, name, features⟩], []⟩

/-- A text that is read as a single token wherever a space follows. -/
structure Single where
  chars : List Char
  kind : Kind
  name : Option String
  features : List Feature
  reads : ∀ cs, ReadsAs chars kind name features (' ' :: cs)

/-- The text of single tokens with single spaces between them. -/
def Single.line (ss : List Single) : List Char := [' '].intercalate (ss.map (·.chars))

/-- The token is that of the text. -/
structure Single.IsToken (s : Single) (t : Token) : Prop where
  kind : t.kind = s.kind
  text : t.text = String.ofList s.chars
  features : t.features = s.features

/-- No two tokens that follow one another touch. -/
def Apart (ts : List Token) : Prop := ts.IsChain fun t u ↦ t.touches u = false

theorem exists_of_mem_forall₂ {α β : Type} {R : α → β → Prop} {as : List α} {bs : List β}
    (h : List.Forall₂ R as bs) {b : β} (hb : b ∈ bs) : ∃ a ∈ as, R a b := by
  induction h with
  | nil => contradiction
  | @cons a b' as bs hab _ ih =>
    rcases List.mem_cons.1 hb with rfl | hb
    · exact ⟨a, List.mem_cons_self, hab⟩
    · obtain ⟨a', ha', hab'⟩ := ih hb
      exact ⟨a', List.mem_cons_of_mem a ha', hab'⟩

/-- The last single token is read at the end of the text, too. -/
def Single.Closes (ss : List Single) : Prop :=
  ∀ s ∈ ss.getLast?, ReadsAs s.chars s.kind s.name s.features []

namespace ReadsAs

variable {chars rest : List Char} {kind : Kind} {name : Option String} {features : List Feature}

/-- A word that is a single token is read as such. -/
theorem of_spells {length : Nat}
    (h : Spells false chars [⟨kind, 0, length, name, features⟩] rest)
    (hlength : length = chars.length) : ReadsAs chars kind name features rest where
  ne_nil := h.ne_nil
  gap_eq := h.gap_eq
  scan_eq := hlength ▸ h.scan_eq

/-- A single token is no part of a directive, and it is not the end of the text. -/
theorem kind_ne (h : ReadsAs chars kind name features rest) :
    kind ≠ .directiveEnd ∧ kind ≠ .directiveStart ∧ kind ≠ .endOfFile ∧
      kind ≠ .directiveMessage := by
  have hne : chars ++ rest ≠ [] := List.append_ne_nil_of_left_ne_nil h.ne_nil rest
  obtain ⟨q, qs, hpieces, hkind⟩ := exists_piece_scanGroup false maxOpenHoles hne
  rw [h.scan_eq, List.cons.injEq] at hpieces
  obtain ⟨rfl, -⟩ := hpieces
  refine ⟨?_, ?_, ?_, ?_⟩
  all_goals
    rintro rfl
    rcases hkind with hkind | hkind <;> contradiction

/-- A hash is not read without a fault. -/
theorem head_ne_hash (h : ReadsAs chars kind name features rest) : chars.head? ≠ some '#' := by
  intro hhash
  obtain ⟨cs, rfl⟩ := List.head?_eq_some_iff.1 hhash
  have hscan := congrArg Group.faults h.scan_eq
  replace hscan : [_] = [] := hscan
  contradiction

/-- A single token carries none but the features of single tokens. -/
theorem mem_lexical (h : ReadsAs chars kind name features rest) {f : Feature} (hf : f ∈ features) :
    f ∈ Feature.lexical := by
  obtain ⟨seen, hseen⟩ : ∃ seen, features = Feature.listed seen := by
    have hpieces := congrArg Group.pieces h.scan_eq
    have hfirst {p q : Piece} {ps qs : List Piece} (h : p :: ps = q :: qs) :
        p.features = q.features := by rw [(List.cons.inj h).1]
    unfold scanGroup at hpieces
    split at hpieces
    · obtain ⟨seen, hseen⟩ := exists_listed_plainLexeme (chars ++ rest)
      exact ⟨seen, (hfirst hpieces).symm.trans hseen⟩
    · exact ⟨_, (hfirst hpieces).symm⟩
  rw [hseen] at hf
  exact (List.mem_filter.1 hf).1

end ReadsAs

/-- A word that is one token. -/
def Single.ofWord {chars : List Char} {kind : Kind} {name : Option String} {features : List Feature}
    (h : IsWord false chars [⟨kind, 0, chars.length, name, features⟩]) : Single :=
  ⟨chars, kind, name, features, fun cs ↦ .of_spells (h _ ⟨cs, .inl rfl⟩) rfl⟩

/-- A word that is one token at the end of the text, too. -/
theorem ReadsAs.of_isFullWord {chars : List Char} {kind : Kind} {name : Option String}
    {features : List Feature}
    (h : IsFullWord false chars [⟨kind, 0, chars.length, name, features⟩]) :
    ReadsAs chars kind name features [] := .of_spells (h [] (.inl rfl)) rfl

namespace ActiveReader

variable (script : Bool) {r : ActiveReader} {rest : List Char} {p : Position} {used : Bool}
  {state : DirectiveState}

/-- A single token contributes itself. -/
theorem At.single {chars : List Char} {kind : Kind} {name : Option String}
    {features : List Feature} (h : r.At (chars ++ rest) p used state)
    (hreads : ReadsAs chars kind name features rest) :
    ∃ (t : Token) (q : Position) (next : ActiveReader), Advances script r [t] [] next ∧
      next.At rest q true { state with seenToken := true } ∧
      (t.kind = kind ∧ t.text = String.ofList chars ∧ t.features = features) ∧
      t.span = ⟨p, q⟩ := by
  have hbefore : r.source.cursor.Before r.source.inDirective (chars ++ rest) p used :=
    h.inDirective ▸ h.before
  have hread := TokenSource.read_of_before h.finished hbefore (h.inDirective ▸ hreads.gap_eq)
  obtain ⟨c, cs, rfl⟩ := List.exists_cons_of_ne_nil hreads.ne_nil
  obtain ⟨hend, hstart, hfile, hmessage⟩ := hreads.kind_ne
  have hhash : (some c == some '#') = false := by simpa using hreads.head_ne_hash
  have hscan := hreads.scan_eq
  rw [List.cons_append] at hscan hread
  rw [if_neg (by simp [h.inDirective]), if_neg (by simp)] at hread
  have hgroup : r.source.readGroup [] ⟨c :: (cs ++ rest), p, used⟩ =
      ⟨(⟨c :: (cs ++ rest), p, used⟩ : Cursor).tokens
          [⟨kind, 0, (c :: cs).length, name, features⟩], [],
        ⟨⟨rest, p.after (c :: (cs ++ rest)) (c :: cs).length, true⟩, false, false⟩⟩ := by
    have hdrop : (c :: (cs ++ rest)).drop (c :: cs).length = rest := by
      rw [← List.cons_append, List.drop_left]
    simp only [TokenSource.readGroup, List.head?_cons, hhash, Bool.false_and, Bool.false_eq_true,
      if_false, h.inDirective, hscan, Cursor.advance, Cursor.positionAt, hdrop, Bool.or_false]
    rfl
  rw [hgroup] at hread
  refine ⟨_, p.after (c :: (cs ++ rest)) (c :: cs).length, _,
    .step hread (take_code script h.line rfl hend hstart hfile) rfl (.refl _), ?_, ?_, ?_⟩
  · exact
      { line := rfl
        state := by rw [h.state]
        inDirective := rfl
        finished := rfl
        before := .here }
  · refine ⟨rfl, ?_, rfl⟩
    have htake : (c :: (cs ++ rest)).take (c :: cs).length = c :: cs := by
      rw [← List.cons_append, List.take_left]
    simp only [Cursor.token, hmessage, List.drop_zero, htake, if_false]
  · simp [Cursor.token, Cursor.positionAt, Position.after_zero]

/-- Single tokens contribute themselves, and no two of them touch. -/
theorem At.singles {ss : List Single} (h : r.At (Single.line ss) p used state)
    (hcloses : Single.Closes ss) :
    ∃ (ts : List Token) (q : Position) (final : Bool) (next : ActiveReader),
      Advances script r ts [] next ∧
      next.At [] q final { state with seenToken := state.seenToken || !ss.isEmpty } ∧
      List.Forall₂ Single.IsToken ss ts ∧ Apart ts ∧ ∀ t ∈ ts.head?, t.span.start = p := by
  induction ss generalizing r p used state with
  | nil => exact ⟨[], p, used, r, .refl r, by simpa [Single.line] using h, .nil, .nil, by simp⟩
  | cons s ss ih =>
    cases ss with
    | nil =>
      have hline : Single.line [s] = s.chars ++ [] := by simp [Single.line, List.intercalate]
      rw [hline] at h
      obtain ⟨t, q, next, hadvances, hnext, ⟨hkind, htext, hfeatures⟩, hspan⟩ :=
        h.single script (hcloses s rfl)
      refine ⟨[t], q, true, next, hadvances, by simpa using hnext,
        .cons ⟨hkind, htext, hfeatures⟩ .nil, List.isChain_singleton t, ?_⟩
      simp [hspan]
    | cons s' ss =>
      have hline : Single.line (s :: s' :: ss) = s.chars ++ ' ' :: Single.line (s' :: ss) := by
        simp [Single.line, List.intercalate]
      rw [hline] at h
      obtain ⟨t, q, mid, hfirst, hmid, ⟨hkind, htext, hfeatures⟩, hspan⟩ :=
        h.single script (s.reads _)
      obtain ⟨ts, q', final, next, hrest, hnext, htokens, hapart, hhead⟩ :=
        ih hmid.afterSpace (by simpa [Single.Closes] using hcloses)
      refine ⟨t :: ts, q', final, next, hfirst.trans hrest, by simpa using hnext,
        .cons ⟨hkind, htext, hfeatures⟩ htokens,
        List.isChain_cons.2 ⟨fun u hu ↦ ?_, hapart⟩, by simp [hspan]⟩
      simp [Token.touches, hspan, hhead u hu, Position.right]

end ActiveReader

/-- The active text of single tokens with spaces between them consists of these tokens, and nothing
is found in it. -/
theorem exists_tokens_line {ss : List Single} (hcloses : Single.Closes ss) (script : Bool)
    (symbols : List String) :
    ∃ ts eof, eof.kind = .endOfFile ∧ List.Forall₂ Single.IsToken ss ts ∧ Apart ts ∧
      activeTokens script symbols (Single.line ss) = ts ++ [eof] ∧
      (activeText script symbols (Single.line ss)).flatMap (·.findings) = [] ∧
      (activeText script symbols (Single.line ss)).findSome? (·.breakdown) = none := by
  have hstart : (ActiveReader.ofText (Single.line ss) symbols).At (Single.line ss) .first false
      (.initial symbols) :=
    { line := rfl
      state := rfl
      inDirective := rfl
      finished := rfl
      before := .here }
  obtain ⟨ts, q, final, r, hadvances, hr, htokens, hapart, -⟩ := hstart.singles script hcloses
  obtain ⟨last, hend, hfinished, -⟩ := hr.endOfFile script rfl
  obtain ⟨hactive, hfindings, hbreakdown, -⟩ :=
    (hadvances.trans hend).chunksUpTo_eq hfinished rfl (Nat.le_refl _)
  exact ⟨ts, _, rfl, htokens, hapart, hactive, hfindings,
    List.findSome?_eq_none_iff.2 hbreakdown⟩

end CSharpCheck
