import CSharpCheck.Proofs.Relocation.Past
import CSharpCheck.Proofs.Scanning.Layouts
import CSharpCheck.Proofs.Scanning.Lockstep
import CSharpCheck.Proofs.Scanning.TokenPairs
import CSharpCheck.Proofs.TruePositions

/-!
# Layout does not matter

White space and closed comments between two tokens of a line may be replaced by others. The two
texts are read side by side. In front of the gap the readers take the same steps, they pass it in
one step each, and behind it they stand in front of the same text. What they find is the same, and
stands where it stood, or as much further on as the gap has become longer.
-/

namespace CSharpCheck

/-! ### In front of the gap -/

section

variable {n : Nat} {text other : List Char} {c : Cursor}

/-- In front of the place where the texts part, the cursor finds the same in both of them. -/
theorem SameUpTo.on (h : SameUpTo .gap n text other) (hc : c.In text)
    (hle : c.position.offset ≤ n) :
    SameUpTo .gap (n - c.position.offset) c.rest (c.on other).rest := by
  rw [hc.rest]
  exact h.drop hle

/-- A line that ends no further on than the texts part at a gap ends in front of that place. -/
theorem SameUpTo.lineStop_lt (h : SameUpTo .gap n text other) (hc : c.In text)
    (hle : c.lineStop ≤ n) : c.lineStop < n := by
  obtain ⟨d, hd, hend⟩ := h.exists_getElem?
  exact Nat.lt_of_le_of_ne hle (Cursor.lineStop_ne hc hd hend)

end

namespace ActiveReader

variable {script : Bool} {text other : List Char} {t u : Token} {limit : Nat}
  {r r' : ActiveReader} {reading : Reading}

/-- The tokens `t` and `u`, which follow one another outside of holes, are still to come, and the
second reader stands at the same place of the other text as the first. -/
structure Ahead (script : Bool) (text other : List Char) (t u : Token) (limit : Nat)
    (r r' : ActiveReader) : Prop where
  tokens : ∃ l rest, (r.chunksUpTo script limit).flatMap (·.tokens) = l ++ t :: u :: rest ∧
    openHoles maxOpenHoles 0 ((l ++ [t]).map (·.kind)) = some 0
  gathers : r.Gathers
  place : r.source.cursor.In text
  source : r'.source = r.source.on other

/-- The token `t` has been read last and `u` comes next, and the second reader stands at the same
place of the other text as the first. -/
structure Between (script : Bool) (text other : List Char) (t u : Token) (limit : Nat)
    (r r' : ActiveReader) : Prop where
  next : ∃ rest, (r.chunksUpTo script limit).flatMap (·.tokens) = u :: rest
  source : r.source = ⟨⟨text.drop t.span.stop.offset, t.span.stop, true⟩, false, false⟩
  source' : r'.source = ⟨⟨other.drop t.span.stop.offset, t.span.stop, true⟩, false, false⟩

theorem mem_of_pair {l rest : List Token}
    (h : (r.chunksUpTo script limit).flatMap (·.tokens) = l ++ t :: u :: rest) :
    t ∈ (r.chunksUpTo script limit).flatMap (·.tokens) := by
  rw [h]
  simp

/-- Excluded text is skipped alike in both texts in front of an active token that stands in front of
the place where the texts part. -/
theorem skipExcluded_on (hsame : SameUpTo .gap t.span.stop.offset text other)
    (hread : r.source.read = some reading) (hreading : reading.source.cursor.In text)
    (hends : reading.EndsDirective)
    (hskip : (r.take script reading).2.source = reading.source.skipExcluded)
    (ht : t ∈ ((r.take script reading).2.chunksUpTo script limit).flatMap (·.tokens)) :
    (reading.source.on other).skipExcluded = reading.source.skipExcluded.on other := by
  obtain ⟨hin, hend⟩ := TokenSource.isLineEnd_head_of_endsDirective hread hends
  obtain ⟨hstart, hstop⟩ := offset_le_of_mem_chunksUpTo ht
  have hbehind := TokenSource.offset_le_behindGap (r.take script reading).2.source
  have hle := offset_le_source_take script r reading
  have hplace := TokenSource.in_skipExcluded hreading
  refine TokenSource.skipExcluded_on_of_sameUpTo (hsame.on hreading (by omega)) hend ?_
  -- the line at which the skipping stops opens with a hash, since the token stands behind it
  have hrest : reading.source.skipExcluded.cursor.rest =
      reading.source.cursor.rest.drop (linesToHash reading.source.cursor.rest) := by
    rw [← excludedLength_of_lineEnd hend]
    rfl
  have hline : reading.source.skipExcluded.cursor.lineStop < t.span.stop.offset := by
    refine hsame.lineStop_lt hplace ?_
    rcases hashFirst_drop_linesToHash reading.source.cursor.rest with hnil | hhash
    · have hlength := hsame.lt_length
      rw [← hrest, hplace.rest, List.drop_eq_nil_iff, ← hskip] at hnil
      omega
    · rw [← hrest] at hhash
      have hopens := TokenSource.opensDirective_of_hashFirst (s := reading.source.skipExcluded)
        hin rfl hhash
      rw [← hskip] at hopens
      have hstops := lineStop_le_of_opensDirective hopens ht
      have hgap : (r.take script reading).2.source.cursor.lineStop ≤
          (r.take script reading).2.source.behindGap.lineStop := Cursor.lineStop_le_passGap _ _
      rw [← hskip]
      omega
  have hoffset : reading.source.skipExcluded.cursor.position.offset =
      reading.source.cursor.position.offset + linesToHash reading.source.cursor.rest := by
    change (reading.source.cursor.positionAt (excludedLength _)).offset = _
    rw [excludedLength_of_lineEnd hend, Cursor.offset_positionAt,
      Nat.min_eq_left (linesToHash_le _)]
  rw [Cursor.lineStop, hrest, hoffset] at hline
  omega

namespace Ahead

variable (hsame : SameUpTo .gap t.span.stop.offset text other)
  (hapart : u.span.start ≠ t.span.stop)

include hsame hapart

/-- In front of the gap the readers take the same step. -/
theorem step (h : Ahead script text other t u (limit + 1) r r') :
    ∃ reading, r.source.read = some reading ∧ r'.source.read = some (reading.on other) ∧
      reading.source.cursor.position.offset ≤ t.span.stop.offset ∧
      ∀ next, (r.take script reading).2.source.Follow next.source reading (reading.on other) →
        Ahead script text other t u limit (r.take script reading).2 next ∨
          Between script text other t u limit (r.take script reading).2 next := by
  obtain ⟨l, rest, htokens, houter⟩ := h.tokens
  have ht := mem_of_pair htokens
  obtain ⟨hstart, hstop⟩ := offset_le_of_mem_chunksUpTo ht
  obtain ⟨reading, hread, hpair⟩ := pair_cases h.gathers htokens houter hapart
  have hreading := (TokenSource.in_of_read h.place hread).source
  have hgap := r.source.offset_le_behindGap
  have hle : reading.source.cursor.position.offset ≤ t.span.stop.offset := by
    rcases hpair with ⟨l', hlater, -⟩ | ⟨-, -, hposition, -⟩
    · have hnext := (offset_le_of_mem_chunksUpTo (mem_of_pair hlater)).1
      have hskip := offset_le_source_take script r reading
      have hbehind := TokenSource.offset_le_behindGap (r.take script reading).2.source
      omega
    · exact Nat.le_of_eq (congrArg Position.offset hposition)
  have hplace : r.source.cursor.position.offset ≤ t.span.stop.offset := by omega
  refine ⟨reading, hread, ?_, hle, fun next hfollow ↦ ?_⟩
  · rw [h.source]
    refine TokenSource.read_on (hsame.on h.place hplace) hread (by omega) fun _ hopens ↦ ?_
    have hline := hsame.lineStop_lt (h.place.passGap _)
      (Nat.le_trans (lineStop_le_of_opensDirective hopens ht) hstop)
    rw [Nat.add_sub_cancel' hplace]
    exact hline
  · rcases hpair with ⟨l', hlater, houter'⟩ | ⟨hlater, hsource, hposition, hused, hin, hgoes⟩
    · refine .inl ⟨⟨l', rest, hlater, houter'⟩, gathers_take h.gathers hread, ?_, ?_⟩
      · rcases hfollow with ⟨hsource, -⟩ | ⟨-, hsource, -⟩ <;> rw [hsource]
        · exact hreading
        · exact TokenSource.in_skipExcluded hreading
      · rcases hfollow with ⟨hsource, hnext⟩ | ⟨hends, hsource, hnext⟩ <;> rw [hnext, hsource]
        · rfl
        · exact skipExcluded_on hsame hread hreading hends hsource (mem_of_pair hlater)
    · have hshape : reading.source =
          ⟨⟨text.drop t.span.stop.offset, t.span.stop, true⟩, false, false⟩ := by
        have hrest := hreading.rest
        rw [hposition] at hrest
        generalize reading.source = s at hposition hused hin hgoes hrest
        obtain ⟨⟨_, _, _⟩, _, _⟩ := s
        cases hposition
        cases hused
        cases hin
        cases hgoes
        cases hrest
        rfl
      rcases hfollow with ⟨-, hnext⟩ | ⟨-, hskip, -⟩
      · refine .inr ⟨⟨rest, hlater⟩, hsource.trans hshape, hnext.trans ?_⟩
        rw [Reading.on, hshape]
        rfl
      · -- a skip would stop on a line that is not used
        rw [hsource] at hskip
        rw [hskip] at hused
        exact absurd hused Bool.false_ne_true

end Ahead

/-! ### At the gap -/

/-- A gap that is a layout ends where the next token starts. -/
theorem behindGap_of_layout {layout after : List Char} (hlayout : IsLayout layout) {p : Position}
    (hgap : gap false after = []) :
    (⟨⟨layout ++ after, p, true⟩, false, false⟩ : TokenSource).behindGap =
        ⟨after, p.right layout.length, true⟩ ∧
      (⟨⟨layout ++ after, p, true⟩, false, false⟩ : TokenSource).gapFindings = [] := by
  constructor
  · have hpass := hlayout.passGap_append after p
    rw [hgap] at hpass
    exact hpass
  · have hfaults := hlayout.gapFaults_append after 0
    rw [hgap] at hfaults
    rw [TokenSource.gapFindings, hfaults]
    rfl

/-- The readers pass the gap in steps that agree, and then stand in front of the same text. -/
theorem Between.step (h : Between script text other t u limit r r')
    {layout layout' after : List Char} (hlayout : IsLayout layout) (hlayout' : IsLayout layout')
    (htext : text.drop t.span.stop.offset = layout ++ after)
    (hother : other.drop t.span.stop.offset = layout' ++ after)
    (hu : u.span.start.offset ≤ t.span.stop.offset + layout.length) :
    ∃ reading reading', r.source.read = some reading ∧ r'.source.read = some reading' ∧
      reading.Agrees (.past t.span.stop layout.length layout'.length)
        (.past t.span.stop layout'.length layout.length) reading' ∧
      reading.source.Alike (.past t.span.stop layout.length layout'.length)
        (.past t.span.stop layout'.length layout.length) reading'.source := by
  obtain ⟨rest, hnext⟩ := h.next
  have hmem : u ∈ (r.chunksUpTo script limit).flatMap (·.tokens) := by
    rw [hnext]
    exact List.mem_cons_self
  have hbehind := (offset_le_of_mem_chunksUpTo hmem).1
  have hgap : gap false after = [] := by
    refine gap_eq_nil ?_
    rw [h.source, htext, TokenSource.behindGap, hlayout.passGap_append, (Cursor.passGap_eq _ _).2,
      Cursor.offset_positionAt] at hbehind
    change t.span.stop.offset + layout.length + min _ after.length ≤ _ at hbehind
    omega
  obtain ⟨hcursor, hfindings⟩ := behindGap_of_layout hlayout (p := t.span.stop) hgap
  obtain ⟨hcursor', hfindings'⟩ := behindGap_of_layout hlayout' (p := t.span.stop) hgap
  rw [h.source, h.source', htext, hother]
  refine TokenSource.read_of_behindGap rfl rfl rfl rfl ?_ ?_
  · rw [hfindings, hfindings']
    rfl
  · rw [hcursor, hcursor']
    exact Cursor.alike_past _ _ _ after true

end ActiveReader

/-! ### Whole texts -/

section

variable {base : Position} {old new : Nat} (hold : 0 < old) (hnew : 0 < new)

include hold hnew

/-- A step that stops in front of the gap agrees with itself. -/
theorem Reading.agrees_on {s : TokenSource} {r : Reading} (h : s.read = some r)
    (hle : r.source.cursor.position.offset ≤ base.offset) (other : List Char) :
    r.Agrees (.past base old new) (.past base new old) (r.on other) where
  tokens := List.map_congr_left fun x hx ↦ by
    obtain ⟨-, hstart, hstop⟩ := TokenSource.offset_le_of_mem_tokens h hx
    exact Relocation.relocate_token_past hold hnew (by omega) (by omega)
  findings := List.map_congr_left fun f hf ↦ by
    obtain ⟨hstart, hstop⟩ := TokenSource.offset_le_of_mem_findings h hf
    exact Relocation.relocate_finding_past hold hnew (by omega) (by omega)

end

section

variable {script : Bool} {symbols : List String} {text other layout layout' after : List Char}
  {t u : Token}

/-- The readers stand in front of the gap, at it, or in front of the same text behind it. -/
inductive ActiveReader.SideBySide (script : Bool) (text other : List Char) (t u : Token)
    (m m' : Relocation) (limit : Nat) (r r' : ActiveReader) : Prop where
  | ahead : Ahead script text other t u limit r r' →
      SideBySide script text other t u m m' limit r r'
  | between : Between script text other t u limit r r' →
      SideBySide script text other t u m m' limit r r'
  | past : r.source.Alike m m' r'.source → SideBySide script text other t u m m' limit r r'

theorem activeText_agree {l rest : List Token}
    (htokens : activeTokens script symbols text = l ++ t :: u :: rest)
    (houter : openHoles maxOpenHoles 0 ((l ++ [t]).map (·.kind)) = some 0)
    (hstart : u.span.start.offset = t.span.stop.offset + layout.length)
    (hlayout : IsLayout layout) (hne : layout ≠ []) (hlayout' : IsLayout layout')
    (hne' : layout' ≠ [])
    (htext : text.drop t.span.stop.offset = layout ++ after)
    (hother : other.drop t.span.stop.offset = layout' ++ after)
    (hsame : SameUpTo .gap t.span.stop.offset text other) :
    (activeText script symbols text).map
        (·.relocate (.past t.span.stop layout.length layout'.length)) =
      (activeText script symbols other).map
        (·.relocate (.past t.span.stop layout'.length layout.length)) := by
  have hold : 0 < layout.length := List.length_pos_iff.2 hne
  have hnew : 0 < layout'.length := List.length_pos_iff.2 hne'
  have hapart : u.span.start ≠ t.span.stop := by
    intro htouch
    rw [htouch] at hstart
    omega
  have hkeeps {old new : Nat} (h : 0 < old) (r : ActiveReader) :
      r.KeepsStart (.past t.span.stop old new) script :=
    r.keepsStart_of_zero _ script (if_pos (by omega))
  have hlimit (text' : List Char) {limit : Nat}
      (hle : (ActiveReader.ofText text' symbols).source.stepsLeft ≤ limit) :
      activeText script symbols text' =
        (ActiveReader.ofText text' symbols).chunksUpTo script limit :=
    ActiveReader.chunksUpTo_eq_of_stepsLeft_le (Nat.le_refl _) hle
  rw [activeTokens, hlimit text (Nat.le_max_left _ _)] at htokens
  rw [hlimit text (Nat.le_max_left _ _), hlimit other (Nat.le_max_right _ _)]
  refine ActiveReader.chunksUpTo_agree (S := fun limit r r' ↦
      r.Agrees (.past t.span.stop layout.length layout'.length)
        (.past t.span.stop layout'.length layout.length) r' ∧
      ActiveReader.SideBySide script text other t u (.past t.span.stop layout.length layout'.length)
        (.past t.span.stop layout'.length layout.length) limit r r')
    (fun _ ↦ ⟨hkeeps hold _, hkeeps hnew _⟩) And.left ?_
    ⟨⟨rfl, rfl⟩, .ahead ⟨⟨l, rest, htokens, houter⟩, fun _ ↦ rfl, Cursor.in_ofText text, rfl⟩⟩
  rintro limit r r' ⟨hagrees, hside⟩
  cases hside with
  | ahead h =>
    obtain ⟨reading, hread, hread', hle, hnext⟩ := h.step hsame hapart
    have hreading := Reading.agrees_on hold hnew hread hle other
    obtain ⟨-, hagrees', hfollow⟩ := hagrees.take (hkeeps hold r) (hkeeps hnew r') hreading
    exact .inr ⟨reading, _, hread, hread', hreading,
      fun _ ↦ ⟨hagrees', (hnext _ hfollow).elim .ahead .between⟩⟩
  | between h =>
    obtain ⟨reading, reading', hread, hread', hreading, halike⟩ :=
      h.step hlayout hlayout' htext hother (Nat.le_of_eq hstart)
    obtain ⟨-, hagrees', hfollow⟩ := hagrees.take (hkeeps hold r) (hkeeps hnew r') hreading
    exact .inr ⟨reading, reading', hread, hread', hreading,
      fun _ ↦ ⟨hagrees', .past (hfollow.alike halike)⟩⟩
  | past h =>
    rcases h.read (by rfl) with hnone | ⟨reading, reading', hread, hread', hreading, halike⟩
    · exact .inl hnone
    · obtain ⟨-, hagrees', hfollow⟩ := hagrees.take (hkeeps hold r) (hkeeps hnew r') hreading
      exact .inr ⟨reading, reading', hread, hread', hreading,
        fun _ ↦ ⟨hagrees', .past (hfollow.alike halike)⟩⟩

end

/-! ### Outcomes -/

/-- The diagnostic with the ends of its span moved. -/
def Diagnostic.move (f : Position → Position) (d : Diagnostic) : Diagnostic :=
  { d with span := ⟨f d.span.start, f d.span.stop⟩ }

/-- The outcome with its diagnostics moved. -/
def Validation.move (f : Position → Position) (v : Validation) : Validation :=
  { v with diagnostics := v.diagnostics.map (Diagnostic.move f) }

section

variable {base : Position} {old new : Nat}

theorem Relocation.restates_past (cause : Cause) : (past base old new).Restates cause :=
  restates_of_text_eq_id rfl cause

theorem Diagnostic.eq_move_of_relocate {d e : Diagnostic}
    (h : d.relocate (.past base old new) = e.relocate (.past base new old)) :
    e = d.move (·.reflow base old new) := by
  obtain ⟨severity, code, message, ⟨start, stop⟩, category⟩ := d
  obtain ⟨severity', code', message', ⟨start', stop'⟩, category'⟩ := e
  simp only [relocate, Span.relocate, mk.injEq, Span.mk.injEq] at h
  obtain ⟨rfl, rfl, hmessage, ⟨hstart, hstop⟩, rfl⟩ := h
  cases hmessage
  rw [Relocation.eq_reflow_of_place_past hstart, Relocation.eq_reflow_of_place_past hstop]
  rfl

theorem Validation.eq_move_of_relocate {v w : Validation}
    (h : v.relocate (.past base old new) = w.relocate (.past base new old)) :
    w = v.move (·.reflow base old new) := by
  obtain ⟨version, ds⟩ := v
  obtain ⟨version', es⟩ := w
  simp only [relocate, mk.injEq] at h
  obtain ⟨rfl, hds⟩ := h
  refine congrArg (Validation.mk version) ?_
  induction ds generalizing es with
  | nil =>
    rw [List.map_nil, eq_comm, List.map_eq_nil_iff] at hds
    rw [hds]
    rfl
  | cons d ds ih =>
    obtain ⟨e, es, rfl, he, hes⟩ := List.map_eq_cons_iff.1 hds.symm
    rw [List.map_cons, ih es hes.symm, Diagnostic.eq_move_of_relocate he.symm]

theorem Validation.map_move_of_relocate {v w : Except Breakdown Validation}
    (h : v.map (·.relocate (.past base old new)) = w.map (·.relocate (.past base new old))) :
    w = v.map (·.move (·.reflow base old new)) := by
  cases v with
  | error breakdown =>
    cases w with
    | error breakdown' =>
      cases h
      rfl
    | ok w => contradiction
  | ok v =>
    cases w with
    | error breakdown' => contradiction
    | ok w => exact congrArg Except.ok (eq_move_of_relocate (Except.ok.inj h))

end

/-- White space and closed comments between two consecutive active tokens of a line, which stand
outside of holes, may be replaced by others that begin with a blank. The diagnostics stay the same,
and those behind the gap move by the difference. -/
theorem validate_relaid (o : Options) {before layout layout' after : List Char}
    {l rest : List Token} {t u : Token}
    (htokens : activeTokens o.script o.symbols (before ++ (layout ++ after)) = l ++ t :: u :: rest)
    (houter : openHoles maxOpenHoles 0 ((l ++ [t]).map (·.kind)) = some 0)
    (hstop : t.span.stop.offset = before.length)
    (hstart : u.span.start.offset = before.length + layout.length)
    (hlayout : IsLayout layout) (hne : layout ≠ []) (hlayout' : IsLayout layout')
    (hblank : layout'.head?.any isBlank = true) :
    validate o (before ++ (layout' ++ after)) =
      (validate o (before ++ (layout ++ after))).map
        (·.move (·.reflow t.span.stop layout.length layout'.length)) := by
  obtain ⟨d, ds, rfl⟩ : ∃ d ds, layout' = d :: ds :=
    List.exists_cons_of_ne_nil fun hnil ↦ by simp [hnil] at hblank
  have hsame : SameUpTo .gap before.length (before ++ (layout ++ after))
      (before ++ (d :: ds ++ after)) := by
    have hopens := hlayout.opensGap hne after
    obtain ⟨c, cs, hcs⟩ := List.exists_cons_of_ne_nil hne
    rw [hcs] at hopens
    have hpart : SameUpTo .gap 0 (c :: cs ++ after) (d :: ds ++ after) := .atGap hopens hblank
    have happend := hpart.append before
    rw [Nat.zero_add] at happend
    rwa [hcs]
  have hactive := activeText_agree htokens houter (by rw [hstart, hstop]) hlayout hne hlayout'
    (List.cons_ne_nil d ds) (by rw [hstop, List.drop_left]) (by rw [hstop, List.drop_left])
    (hstop ▸ hsame)
  exact Validation.map_move_of_relocate (validate_agree o hactive
    (fun f _ ↦ Relocation.restates_past f.cause) fun f _ ↦ Relocation.restates_past f.cause)

/-- With two spaces in place of a comment, the missing semicolon is missed two characters further to
the left. -/
theorem validate_relaid_using :
    validate ⟨.default, false, [], []⟩ ("using".toList ++ ([' ', ' '] ++ "System".toList)) =
      .ok ⟨.v14, [⟨.error, "CS1002", "; expected", .point ⟨1, 14, 13⟩, .grammar⟩]⟩ := by
  have hrelaid := @validate_relaid ⟨.default, false, [], []⟩ "using".toList ['/', '*', '*', '/']
    [' ', ' '] "System".toList []
    [⟨.endOfFile, "", none, .point ⟨1, 16, 15⟩, false, []⟩]
    ⟨.keyword .usingWord, "using", some "using", ⟨⟨1, 1, 0⟩, ⟨1, 6, 5⟩⟩, true, []⟩
    ⟨.identifier, "System", some "System", ⟨⟨1, 10, 9⟩, ⟨1, 16, 15⟩⟩, false, []⟩
    (by decide +kernel) (by decide) rfl rfl
    (@IsLayout.comment [] [] (List.forall_mem_nil _) (by decide) .nil)
    (by decide) (.blank rfl (.blank rfl .nil)) rfl
  have hbefore : validate ⟨.default, false, [], []⟩
      ("using".toList ++ (['/', '*', '*', '/'] ++ "System".toList)) =
        .ok ⟨.v14, [⟨.error, "CS1002", "; expected", .point ⟨1, 16, 15⟩, .grammar⟩]⟩ := by
    decide +kernel
  rw [hbefore] at hrelaid
  exact hrelaid

end CSharpCheck
