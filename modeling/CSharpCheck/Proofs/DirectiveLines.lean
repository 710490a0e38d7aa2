import Mathlib
import CSharpCheck.Proofs.LosslessScanning
import CSharpCheck.Proofs.Scanning.LineStops
import CSharpCheck.Proofs.Scanning.OneLine
import CSharpCheck.Proofs.Scanning.Phrases

/-!
# Where directive lines end

The end of a directive line is a token of its own. It stands at the end of a line, but not always
of the line that the hash is on: block comments and literals in quotes may reach over line ends.
Where none of them does, a directive stays on its line.
-/

namespace CSharpCheck

/-! ### Lines of a text -/

/-- The place where the line of a place ends: at its line end, or at the end of the text. -/
def endOfLine (text : List Char) (place : Nat) : Nat :=
  place + (restOfLine (text.drop place)).length

section Lines

variable {text : List Char} {m n : Nat}

theorem le_endOfLine (text : List Char) (n : Nat) : n ≤ endOfLine text n := Nat.le_add_right _ _

theorem endOfLine_mono (h : m ≤ n) : endOfLine text m ≤ endOfLine text n := by
  have hle := length_restOfLine_le_add (text.drop m) (n - m)
  rw [List.drop_drop, Nat.add_sub_cancel' h] at hle
  simp only [endOfLine]
  omega

theorem restOfLine_drop_eq (h : m ≤ n) (hn : n ≤ endOfLine text m) :
    restOfLine (text.drop n) = (restOfLine (text.drop m)).drop (n - m) := by
  rw [endOfLine] at hn
  rw [← restOfLine_drop (by omega), List.drop_drop, Nat.add_sub_cancel' h]

/-- The line of a place ends where it ends for a place before on the line. -/
theorem endOfLine_eq (h : m ≤ n) (hn : n ≤ endOfLine text m) :
    endOfLine text n = endOfLine text m := by
  rw [endOfLine, restOfLine_drop_eq h hn, List.length_drop]
  rw [endOfLine] at hn ⊢
  omega

end Lines

/-! ### Closed directives -/

/-- The tokens, none of which ends a directive line, are those of a directive line from a place on,
up to the token that ends it. Where no block comment opens on the line of the place, the directive
ends with this line if and only if no literal in quotes goes on behind it. -/
structure ClosesDirective (text : List Char) (place : Nat) (body : List Token) (stop : Token) :
    Prop where
  kind : stop.kind = .directiveEnd
  inside : ∀ t ∈ body, t.kind.delimits = false
  between : ∀ t ∈ body,
    place ≤ t.span.start.offset ∧ t.span.stop.offset ≤ stop.span.start.offset
  lineEnd : (text.drop stop.span.start.offset).head?.all isLineEnd = true
  le : endOfLine text place ≤ stop.span.start.offset
  onLine : ¬['/', '*'] <:+: restOfLine (text.drop place) →
    (stop.span.start.offset = endOfLine text place ↔
      ∀ t ∈ body, t.kind.endsQuoted = true → t.span.stop.offset ≤ endOfLine text place)

/-- Tokens on the way from a place to another one further on. -/
structure LeadsTo (text : List Char) (place : Nat) (ts : List Token) (next : Nat) : Prop where
  le : place ≤ next
  inside : ∀ t ∈ ts, t.kind.delimits = false
  between : ∀ t ∈ ts, place ≤ t.span.start.offset ∧ t.span.stop.offset ≤ next
  onLine : ¬['/', '*'] <:+: restOfLine (text.drop place) →
    (∀ t ∈ ts, t.kind.endsQuoted = true → t.span.stop.offset ≤ endOfLine text place) →
      next ≤ endOfLine text place

theorem LeadsTo.closesDirective {text : List Char} {place next : Nat} {ts body : List Token}
    {stop : Token} (h : LeadsTo text place ts next) (hbody : ClosesDirective text next body stop) :
    ClosesDirective text place (ts ++ body) stop := by
  have hnext : next ≤ stop.span.start.offset := Nat.le_trans (le_endOfLine text next) hbody.le
  have hbetween : ∀ t ∈ ts ++ body,
      place ≤ t.span.start.offset ∧ t.span.stop.offset ≤ stop.span.start.offset :=
    List.forall_mem_append.mpr
      ⟨fun t ht ↦ ⟨(h.between t ht).1, Nat.le_trans (h.between t ht).2 hnext⟩,
        fun t ht ↦ ⟨Nat.le_trans h.le (hbody.between t ht).1, (hbody.between t ht).2⟩⟩
  refine ⟨hbody.kind, List.forall_mem_append.mpr ⟨h.inside, hbody.inside⟩, hbetween, hbody.lineEnd,
    Nat.le_trans (endOfLine_mono h.le) hbody.le, fun hcomment ↦ ⟨fun hstop t ht _ ↦ ?_,
      fun hquoted ↦ ?_⟩⟩
  · exact hstop ▸ (hbetween t ht).2
  · obtain ⟨hts, hrest⟩ := List.forall_mem_append.mp hquoted
    have hline := h.onLine hcomment hts
    have hsame := endOfLine_eq h.le hline
    have hcomment' : ¬['/', '*'] <:+: restOfLine (text.drop next) := by
      rw [restOfLine_drop_eq h.le hline]
      exact fun hopens ↦ hcomment (List.IsInfix.trans hopens (List.drop_suffix _ _).isInfix)
    rw [← hsame] at hrest ⊢
    exact (hbody.onLine hcomment').mpr hrest

/-- Tokens of a group lead over the group, which stays on its line unless a literal in quotes ends
it. -/
theorem Cursor.In.leadsTo {text : List Char} {c : Cursor} (hc : c.In text) {g : Group}
    (hg : g.Covers c.rest) {ts : List Token} (hts : ts ⊆ c.tokens g.pieces)
    (hinside : ∀ t ∈ ts, t.kind.delimits = false)
    (hline : (∃ t ∈ ts, t.kind.endsQuoted = true ∧ t.span.stop = c.positionAt g.length) ∨
      g.length ≤ (restOfLine c.rest).length) :
    LeadsTo text c.position.offset ts (c.positionAt g.length).offset where
  le := c.offset_le_positionAt g.length
  inside := hinside
  between t ht := by
    obtain ⟨p, hp, hstart, hstop⟩ := exists_piece_of_mem_tokens (hts ht)
    rw [hstart, hstop]
    exact ⟨c.offset_le_positionAt _, c.offset_positionAt_mono (hg.tiled.le_of_mem p hp)⟩
  onLine _ hquoted := by
    rcases hline with ⟨t, ht, hkind, hstop⟩ | hlength
    · rw [← hstop]
      exact hquoted t ht hkind
    · rw [Cursor.offset_positionAt, endOfLine, ← hc.rest]
      omega

namespace TokenSource

variable {s : TokenSource} {r : Reading} {text : List Char}

theorem in_behindGap (hs : s.cursor.In text) : s.behindGap.In text := hs.passGap _

/-- On a directive line only a block comment makes a gap go on behind the line. -/
theorem leadsTo_behindGap (hs : s.cursor.In text) (hin : s.inDirective = true) :
    LeadsTo text s.cursor.position.offset [] s.behindGap.position.offset where
  le := s.offset_le_behindGap
  inside := List.forall_mem_nil _
  between := List.forall_mem_nil _
  onLine hcomment _ := by
    rw [← hs.rest] at hcomment
    have hgap := gapLength_le hcomment
    rw [behindGap, (s.cursor.passGap_eq _).2, Cursor.offset_positionAt, hin, endOfLine, ← hs.rest]
    omega

theorem endOfLine_of_lineEnd {c : Cursor} (hc : c.In text)
    (h : c.rest.head?.all isLineEnd = true) :
    endOfLine text c.position.offset = c.position.offset := by
  have hline := Cursor.lineStop_of_lineEnd h
  rwa [Cursor.lineStop, hc.rest] at hline

theorem closesDirective_of_lineEnd {c : Cursor} (hc : c.In text)
    (h : c.rest.head?.all isLineEnd = true) :
    ClosesDirective text c.position.offset [] (c.emptyToken .directiveEnd false) where
  kind := rfl
  inside := List.forall_mem_nil _
  between := List.forall_mem_nil _
  lineEnd := by
    change (text.drop c.position.offset).head?.all isLineEnd = true
    rw [← hc.rest, h]
  le := Nat.le_of_eq (endOfLine_of_lineEnd hc h)
  onLine _ := iff_of_true (endOfLine_of_lineEnd hc h).symm (List.forall_mem_nil _)

/-- A reading step on a directive line ends the line, or it goes on. -/
theorem closesDirective_or_leadsTo (hs : s.cursor.In text) (hin : s.inDirective = true)
    (h : s.read = some r) :
    (∃ t, r.tokens = [t] ∧ ClosesDirective text s.behindGap.position.offset [] t) ∨
      (r.source.inDirective = true ∧ r.source.finished = false ∧
        LeadsTo text s.behindGap.position.offset r.tokens r.source.cursor.position.offset) := by
  rw [read_eq (finished_of_read h), hin, Bool.true_and] at h
  split at h
  · next hend =>
    cases h
    exact .inl ⟨_, rfl, closesDirective_of_lineEnd (in_behindGap hs) hend⟩
  · next hend =>
    split at h
    · next hrest =>
      rw [hrest] at hend
      exact absurd rfl hend
    · next hrest =>
      cases h
      have hgroup : s.groupAt s.behindGap = scanGroup true maxOpenHoles s.behindGap.rest := by
        simp [groupAt, opensDirective, hin]
      refine .inr ⟨by rw [readGroup_eq, hin]; rfl, rfl, ?_⟩
      rw [readGroup_eq]
      refine (in_behindGap hs).leadsTo (s.covers_groupAt hrest) (List.Subset.refl _) ?_ ?_
      · rw [Cursor.forall_kind_tokens _ _ (·.delimits = false), hgroup]
        exact (derives_scanGroup _ _ _).not_delimits
      · obtain ⟨c, cs, hcs⟩ := List.exists_cons_of_ne_nil hrest
        have hc : isLineEnd c = false := by simpa [hcs] using hend
        rw [hgroup, hcs]
        rcases endsQuoted_or_length_le true _ hc with ⟨p, hp, hkind, hstop⟩ | hlength
        · obtain ⟨t, ht, htkind, htstop⟩ := s.behindGap.exists_token_of_mem_pieces hp
          exact .inl ⟨t, ht, htkind ▸ hkind, htstop.trans (congrArg s.behindGap.positionAt hstop)⟩
        · exact .inr hlength

/-- The group that opens a directive line stays on it. -/
theorem exists_opening (hs : s.cursor.In text) (hopens : s.opensDirective s.behindGap = true)
    (fs : List Finding) : ∃ hash ts, (s.readGroup fs s.behindGap).tokens = hash :: ts ∧
      LeadsTo text hash.span.start.offset ts
        (s.readGroup fs s.behindGap).source.cursor.position.offset := by
  obtain ⟨cs, hcs⟩ : ∃ cs, s.behindGap.rest = '#' :: cs := by
    simp only [opensDirective, Bool.and_eq_true, beq_iff_eq] at hopens
    exact List.head?_eq_some_iff.mp hopens.1.1
  have hgroup : s.groupAt s.behindGap = directiveOpening s.behindGap.rest := if_pos hopens
  obtain ⟨ps, hps⟩ := directiveStart_of_opensDirective hopens
  have hkinds : ∀ p ∈ ps, p.kind.delimits = false := by
    obtain ⟨ks, hks, hnot⟩ := not_delimits_directiveOpening s.behindGap.rest
    rw [← hgroup, hps, Piece.kinds_cons, List.cons.injEq] at hks
    rw [← hks.2] at hnot
    exact List.forall_mem_map.mp hnot
  have hcovers : (s.groupAt s.behindGap).Covers s.behindGap.rest :=
    s.covers_groupAt (by rw [hcs]; exact List.cons_ne_nil _ _)
  have hlength : (s.groupAt s.behindGap).length ≤ (restOfLine s.behindGap.rest).length := by
    rw [hgroup, hcs]
    exact length_directiveOpening_le cs
  refine ⟨s.behindGap.token (!s.behindGap.lineUsed) (.bare .directiveStart 0 1),
    ps.map (s.behindGap.token false), by rw [readGroup_eq, hps]; rfl, ?_⟩
  have hstart : (s.behindGap.token (!s.behindGap.lineUsed) (.bare .directiveStart 0 1)).span.start =
      s.behindGap.position := s.behindGap.positionAt_zero
  rw [hstart, readGroup_eq]
  refine (in_behindGap hs).leadsTo hcovers ?_ (List.forall_mem_map.mpr hkinds) (.inr hlength)
  rw [hps]
  exact List.subset_cons_self _ _

/-- A token that opens a directive line is the first one of its reading step. -/
theorem leadsTo_of_directiveStart (hs : s.cursor.In text) (h : s.read = some r)
    {before ts : List Token} {hash : Token} (htokens : r.tokens = before ++ hash :: ts)
    (hhash : hash.kind = .directiveStart) :
    r.source.inDirective = true ∧ r.source.finished = false ∧
      LeadsTo text hash.span.start.offset ts r.source.cursor.position.offset := by
  have hmem : hash ∈ r.tokens := by
    rw [htokens]
    exact List.mem_append_right before List.mem_cons_self
  rw [read_eq (finished_of_read h)] at h
  split at h
  · cases h
    obtain rfl := List.mem_singleton.mp hmem
    contradiction
  · split at h
    · cases h
      obtain rfl := List.mem_singleton.mp hmem
      contradiction
    · next hrest =>
      cases h
      cases hopens : s.opensDirective s.behindGap with
      | true =>
        obtain ⟨first, rest, heq, hleads⟩ := exists_opening hs hopens s.gapFindings
        rw [heq] at htokens
        cases before with
        | nil =>
          obtain ⟨rfl, rfl⟩ := List.cons.inj htokens
          exact ⟨by rw [readGroup_eq, hopens, Bool.or_true], rfl, hleads⟩
        | cons b bs =>
          obtain ⟨-, rfl⟩ := List.cons.inj htokens
          have hnot := hleads.inside hash (List.mem_append_right bs List.mem_cons_self)
          rw [hhash] at hnot
          contradiction
      | false =>
        have hgroup : s.groupAt s.behindGap =
            scanGroup s.inDirective maxOpenHoles s.behindGap.rest := by
          simp [groupAt, hopens]
        have hkinds := (derives_scanGroup s.inDirective maxOpenHoles s.behindGap.rest).not_delimits
        rw [← hgroup] at hkinds
        have hnot := (Cursor.forall_kind_tokens s.behindGap _ (·.delimits = false)).mpr hkinds
          hash hmem
        rw [hhash] at hnot
        contradiction

/-- A step after which the text has not ended leaves the source in the text. -/
theorem in_of_going (hs : s.cursor.In text) (h : s.read = some r)
    (hgoes : r.source.finished = false) : r.source.cursor.In text := by
  rcases spellTo_of_read hs h with ⟨-, hcursor, -⟩ | ⟨hends, -⟩
  · exact hcursor
  · rw [hgoes] at hends
    contradiction

/-- What is read from a place on a directive line on closes the directive. -/
theorem exists_closesDirective (limit : Nat) (hs : s.cursor.In text) (hin : s.inDirective = true)
    (hfinished : s.finished = false) (hlimit : s.stepsLeft ≤ limit) :
    ∃ body stop rest, (readUpTo limit s).flatMap (·.tokens) = body ++ stop :: rest ∧
      ClosesDirective text s.cursor.position.offset body stop := by
  induction limit generalizing s with
  | zero =>
    simp only [stepsLeft, hfinished, Bool.false_eq_true, if_false] at hlimit
    omega
  | succ limit ih =>
    obtain ⟨r, hread⟩ := exists_read hfinished
    have hsteps := stepsLeft_lt_of_read hread
    have hgap := leadsTo_behindGap hs hin
    simp only [readUpTo, hread, List.flatMap_cons]
    rcases closesDirective_or_leadsTo hs hin hread with
      ⟨t, htokens, hcloses⟩ | ⟨hstays, hgoes, hleads⟩
    · rw [htokens]
      exact ⟨[], t, _, rfl, hgap.closesDirective hcloses⟩
    · obtain ⟨body, stop, rest, hrest, hcloses⟩ :=
        ih (in_of_going hs hread hgoes) hstays hgoes (by omega)
      rw [hrest, ← List.append_assoc]
      exact ⟨_, stop, rest, rfl, hgap.closesDirective (hleads.closesDirective hcloses)⟩

/-- Every directive that is opened from a place in the text on is closed. -/
theorem exists_closesDirective_of_directiveStart {limit : Nat} (hs : s.cursor.In text)
    (hfinished : s.finished = false) (hlimit : s.stepsLeft ≤ limit) {before after : List Token}
    {hash : Token} (h : (readUpTo limit s).flatMap (·.tokens) = before ++ hash :: after)
    (hhash : hash.kind = .directiveStart) : ∃ body stop rest, after = body ++ stop :: rest ∧
      ClosesDirective text hash.span.start.offset body stop := by
  induction limit generalizing s before with
  | zero =>
    simp only [stepsLeft, hfinished, Bool.false_eq_true, if_false] at hlimit
    omega
  | succ limit ih =>
    obtain ⟨r, hread⟩ := exists_read hfinished
    have hsteps := stepsLeft_lt_of_read hread
    have hlater (before : List Token)
        (h : (readUpTo limit r.source).flatMap (·.tokens) = before ++ hash :: after) :
        ∃ body stop rest, after = body ++ stop :: rest ∧
          ClosesDirective text hash.span.start.offset body stop := by
      cases hends : r.source.finished with
      | true =>
        rw [readUpTo_of_finished hends] at h
        simp at h
      | false => exact ih (in_of_going hs hread hends) hends (by omega) h
    simp only [readUpTo, hread, List.flatMap_cons] at h
    rcases List.append_eq_append_iff.mp h with ⟨us, -, hus⟩ | ⟨us, htokens, hus⟩
    · exact hlater us hus
    · cases us with
      | nil => exact hlater [] hus.symm
      | cons u us =>
        rw [List.cons_append, List.cons.injEq] at hus
        obtain ⟨rfl, rfl⟩ := hus
        obtain ⟨hin, hgoes, hleads⟩ := leadsTo_of_directiveStart hs hread htokens hhash
        obtain ⟨body, stop, rest, hrest, hcloses⟩ :=
          exists_closesDirective limit (in_of_going hs hread hgoes) hin hgoes (by omega)
        rw [hrest, ← List.append_assoc]
        exact ⟨_, stop, rest, rfl, hleads.closesDirective hcloses⟩

end TokenSource

/-- Every directive of a text is closed at the end of a line or of the text. Unless a block comment
opens on the line of its hash, that is this line if and only if no literal in quotes goes on behind
it. -/
theorem directive_closes {text : List Char} {before after : List Token} {hash : Token}
    (h : tokensOf text = before ++ hash :: after) (hhash : hash.kind = .directiveStart) :
    ∃ body stop rest, after = body ++ stop :: rest ∧
      ClosesDirective text hash.span.start.offset body stop :=
  TokenSource.exists_closesDirective_of_directiveStart (s := .ofText text)
    (Cursor.in_ofText text) rfl (Nat.le_refl _) h hhash

/-- A comment that begins with two slashes is on the line of its directive. -/
theorem directive_closes_lineComment : ∃ hash after,
    tokensOf "#if a // b\nc".toList = [] ++ hash :: after ∧ hash.kind = .directiveStart ∧
      ∃ body stop rest, after = body ++ stop :: rest ∧
        ClosesDirective "#if a // b\nc".toList hash.span.start.offset body stop := by
  have htokens : tokensOf "#if a // b\nc".toList = []
      ++ ⟨.directiveStart, "#", none, ⟨⟨1, 1, 0⟩, ⟨1, 2, 1⟩⟩, true, []⟩ ::
        [⟨.keyword .ifWord, "if", some "if", ⟨⟨1, 2, 1⟩, ⟨1, 4, 3⟩⟩, false, []⟩,
          ⟨.identifier, "a", some "a", ⟨⟨1, 5, 4⟩, ⟨1, 6, 5⟩⟩, false, []⟩,
          ⟨.directiveEnd, "", none, .point ⟨1, 11, 10⟩, false, []⟩,
          ⟨.identifier, "c", some "c", ⟨⟨2, 1, 11⟩, ⟨2, 2, 12⟩⟩, true, []⟩,
          ⟨.endOfFile, "", none, .point ⟨2, 2, 12⟩, false, []⟩] := by cbv
  exact ⟨_, _, htokens, rfl, directive_closes htokens rfl⟩

/-- A directive may end on another line: here the block comment that opens behind its name takes
the rest of the text along. -/
theorem not_directive_closes_onLine :
    ¬∀ (text : List Char) (before after : List Token) (hash : Token),
      tokensOf text = before ++ hash :: after → hash.kind = .directiveStart →
        ∃ body stop rest, after = body ++ stop :: rest ∧ stop.kind = .directiveEnd ∧
          stop.span.start.offset = endOfLine text hash.span.start.offset := by
  intro h
  have htokens : tokensOf "#if false\n#foo /*\n#endif\nclass C \x7b \x7d".toList =
      [⟨.directiveStart, "#", none, ⟨⟨1, 1, 0⟩, ⟨1, 2, 1⟩⟩, true, []⟩,
        ⟨.keyword .ifWord, "if", some "if", ⟨⟨1, 2, 1⟩, ⟨1, 4, 3⟩⟩, false, []⟩,
        ⟨.keyword .falseWord, "false", some "false", ⟨⟨1, 5, 4⟩, ⟨1, 10, 9⟩⟩, false, []⟩,
        ⟨.directiveEnd, "", none, .point ⟨1, 10, 9⟩, false, []⟩]
      ++ ⟨.directiveStart, "#", none, ⟨⟨2, 1, 10⟩, ⟨2, 2, 11⟩⟩, true, []⟩ ::
        [⟨.identifier, "foo", some "foo", ⟨⟨2, 2, 11⟩, ⟨2, 5, 14⟩⟩, false, []⟩,
          ⟨.directiveEnd, "", none, .point ⟨4, 12, 36⟩, false, []⟩,
          ⟨.endOfFile, "", none, .point ⟨4, 12, 36⟩, true, []⟩] := by cbv
  have hline : endOfLine "#if false\n#foo /*\n#endif\nclass C \x7b \x7d".toList 10 = 17 := by cbv
  obtain ⟨body, stop, rest, hafter, hkind, hstop⟩ := h _ _ _ _ htokens rfl
  have hmem : stop ∈ body ++ stop :: rest := List.mem_append_right body List.mem_cons_self
  rw [← hafter] at hmem
  rw [hline] at hstop
  simp only [List.mem_cons, List.not_mem_nil, or_false] at hmem
  rcases hmem with rfl | rfl | rfl <;> contradiction

end CSharpCheck
