import CSharpCheck.Proofs.Scanning.ActiveTexts
import CSharpCheck.Proofs.Scanning.Tilings

/-!
# Phrases of tokens

The classes of the tokens of a text make phrases of a small grammar: single tokens and interpolated
strings follow one another, an interpolated string consists of texts and holes, and a directive
line goes on to its end. Scans find phrases, however malformed the text is, and no text token of
theirs is empty.
-/

namespace CSharpCheck

/-- The phrases that the classes of tokens make. -/
inductive Phrase where
  /-- Single tokens and whole interpolated strings. -/
  | items
  /-- What follows the start of an interpolated string, up to its end. A text may come directly
  before. -/
  | content (afterText : Bool)
  /-- What follows the hash of a directive line, up to its end. -/
  | line
  /-- A whole text. -/
  | stream

namespace Phrase

/-- The classes make the phrase. -/
inductive Derives : Phrase → List Kind → Prop where
  | nil : Derives items []
  | single {k : Kind} {ks : List Kind} : k.isSingle = true → Derives items ks →
      Derives items (k :: ks)
  | group {ks ls : List Kind} : Derives (content false) ks → Derives items ls →
      Derives items (.interpolatedStart :: (ks ++ ls))
  | text {ks : List Kind} : Derives (content true) ks →
      Derives (content false) (.interpolatedText :: ks)
  | hole {afterText : Bool} {ks format ls : List Kind} : Derives items ks →
      format = [] ∨ format = [.holeFormat] → Derives (content false) ls →
      Derives (content afterText) (.holeStart :: (ks ++ (format ++ .holeEnd :: ls)))
  | groupEnd {afterText : Bool} : Derives (content afterText) [.interpolatedEnd]
  | lineItems {ks ls : List Kind} : Derives items ks → Derives line ls → Derives line (ks ++ ls)
  | message {ks : List Kind} : Derives line ks → Derives line (.directiveMessage :: ks)
  | lineEnd : Derives line [.directiveEnd]
  | streamItems {ks ls : List Kind} : Derives items ks → Derives stream ls →
      Derives stream (ks ++ ls)
  | directive {ks ls : List Kind} : Derives line ks → Derives stream ls →
      Derives stream (.directiveStart :: (ks ++ ls))
  | streamEnd : Derives stream [.endOfFile]

namespace Derives

variable {ks ls : List Kind}

theorem append (hks : Derives items ks) (hls : Derives items ls) : Derives items (ks ++ ls) := by
  generalize hp : items = p at hks
  induction hks with
  | nil => exact hls
  | single hk _ ih => exact .single hk (ih hp)
  | group hcontent _ _ ih =>
    rw [List.cons_append, List.append_assoc]
    exact .group hcontent (ih hp)
  | _ => cases hp

theorem singleton {k : Kind} (hk : k.isSingle = true) : Derives items [k] := .single hk .nil

/-- The text of an interpolated string is followed by more of the string. -/
theorem textPieces (start stop : Nat) (h : ∀ afterText, Derives (content afterText) ks) :
    Derives (content false) (Piece.kinds (textPieces start stop) ++ ks) := by
  unfold CSharpCheck.textPieces
  split
  · exact .text (h true)
  · exact h false

end Derives

end Phrase

open Phrase

section Content

variable {scan : List Char → Group}

theorem derives_holeTokens (hscan : ∀ text, Derives items (Piece.kinds (scan text).pieces))
    (inDirective : Bool) (depth start : Nat) (text : List Char) :
    Derives items (Piece.kinds (holeTokens scan inDirective depth start text).pieces) := by
  induction hn : text.length using Nat.strongRecOn generalizing depth start text with
  | ind n ih =>
    rw [holeTokens]
    split
    · exact .nil
    · next c cs hdrop =>
      split
      · exact .nil
      · simp only [Part.after, Piece.kinds_append, Piece.kinds_shift]
        refine (hscan _).append (ih _ ?_ _ _ _ rfl)
        have hlength := congrArg List.length hdrop
        simp only [List.length_drop, List.length_cons] at hlength ⊢
        omega

/-- A hole may come wherever its string goes on. -/
theorem derives_hole (hscan : ∀ text, Derives items (Piece.kinds (scan text).pieces)) (o : Opening)
    (multiLine inDirective : Bool) (start : Nat) (text : List Char) {ks : List Kind}
    (hks : Derives (content false) ks) (afterText : Bool) :
    Derives (content afterText)
      (Piece.kinds (hole o multiLine scan inDirective start text).pieces ++ ks) := by
  have htokens := derives_holeTokens hscan inDirective 0 (start + o.braces) (text.drop o.braces)
  simp only [hole, Piece.kinds_cons, Piece.kinds_append, List.cons_append, List.append_assoc,
    Piece.kinds_nil, Piece.bare, List.nil_append]
  refine .hole htokens ?_ hks
  split
  · exact .inl rfl
  · exact .inr rfl

theorem derives_interpolatedBody (hscan : ∀ text, Derives items (Piece.kinds (scan text).pieces))
    (o : Opening) (multiLine inDirective : Bool) (textStart start : Nat) (text : List Char) :
    Derives (content false) (Piece.kinds
      (interpolatedBody o multiLine scan inDirective textStart start text).pieces) := by
  fun_induction interpolatedBody o multiLine scan inDirective textStart start text with
  | case1 | case2 | case4 =>
    simp only [unclosedEnd, closedEnd, Piece.kinds_append]
    exact .textPieces _ _ fun _ ↦ .groupEnd
  | case9 textStart start c cs _ _ _ _ length _ holeStart part ih =>
    simp only [Part.after, Piece.kinds_append, List.append_assoc]
    exact .textPieces _ _ (derives_hole hscan o multiLine inDirective holeStart _ ih)
  | _ => assumption

theorem derives_interpolatedGroup (hscan : ∀ text, Derives items (Piece.kinds (scan text).pieces))
    (o : Opening) (inDirective : Bool) (text : List Char) :
    Derives items (Piece.kinds (interpolatedGroup o scan inDirective text).pieces) := by
  have hbody := derives_interpolatedBody hscan o
    (if o.raw then restOfLineIsBlank (text.drop o.length) else o.verbatim) inDirective o.length
    o.length (text.drop o.length)
  simp only [interpolatedGroup, Piece.kinds_cons]
  exact List.append_nil (Piece.kinds _) ▸ .group hbody .nil

end Content

theorem derives_plainLexeme (text : List Char) :
    Derives items (Piece.kinds (plainLexeme text).toGroup.pieces) := by
  cases text with
  | nil => exact .singleton rfl
  | cons c cs => exact .singleton (single_plainLexeme (by simp)).isSingle

/-- A scan finds single tokens and whole interpolated strings. -/
theorem derives_scanGroup (inDirective : Bool) (room : Nat) (text : List Char) :
    Derives items (Piece.kinds (scanGroup inDirective room text).pieces) := by
  induction room generalizing text with
  | zero =>
    unfold scanGroup
    split
    · exact derives_plainLexeme text
    · exact .singleton rfl
  | succ room ih =>
    unfold scanGroup
    split
    · exact derives_plainLexeme text
    · exact derives_interpolatedGroup ih _ inDirective text

/-- The opening of a directive line is a hash, after which the line goes on. -/
theorem derives_directiveOpening (text : List Char) : ∃ ks,
    Piece.kinds (directiveOpening text).pieces = .directiveStart :: ks ∧
      ∀ ls, Derives line ls → Derives line (ks ++ ls) := by
  have hname (rest : List Char) {ls : List Kind} (hls : Derives line ls) :
      Derives line ((nameLexeme false rest).kind :: ls) :=
    .lineItems (.singleton (isSingle_nameLexeme false rest)) hls
  unfold directiveOpening
  simp only
  split
  · exact ⟨[.directiveMessage], rfl, fun _ ↦ .message⟩
  · split
    · split
      · split
        · exact ⟨[_], rfl, fun _ hls ↦ hname _ hls⟩
        · exact ⟨[_, .directiveMessage], rfl, fun _ hls ↦ hname _ (.message hls)⟩
      · exact ⟨[_], rfl, fun _ hls ↦ hname _ hls⟩
    · exact ⟨[], rfl, fun _ ↦ id⟩

/-! ### Directive lines in a stream -/

/-- Whether tokens of the class open or close directive lines or end the text. -/
def Kind.delimits : Kind → Bool
  | .directiveStart | .directiveEnd | .endOfFile => true
  | _ => false

theorem Kind.delimits_of_isSingle {k : Kind} (h : k.isSingle = true) : k.delimits = false := by
  cases k <;> first | rfl | contradiction

namespace Phrase

/-- Directive lines that are opened and closed one after the other, up to the end of the text. -/
inductive Alternate : List Kind → Prop where
  | endOfFile : Alternate [.endOfFile]
  | line {ks : List Kind} : Alternate ks → Alternate (.directiveStart :: .directiveEnd :: ks)

/-- What of a phrase delimits directive lines and the text. -/
theorem Derives.delimiters {p : Phrase} {ks : List Kind} (h : Derives p ks) :
    match p with
    | items | content _ => ks.filter Kind.delimits = []
    | line => ks.filter Kind.delimits = [.directiveEnd]
    | stream => Alternate (ks.filter Kind.delimits) := by
  induction h with
  | nil => rfl
  | single hk _ ih => simpa [Kind.delimits_of_isSingle hk] using ih
  | group _ _ ihcontent ihitems => simp_all [Kind.delimits]
  | text _ ih => simpa [Kind.delimits] using ih
  | hole _ hformat _ ihitems ihcontent => rcases hformat with rfl | rfl <;> simp_all [Kind.delimits]
  | groupEnd => rfl
  | lineItems _ _ ihitems ihline => simp_all
  | message _ ih => simpa [Kind.delimits] using ih
  | lineEnd => rfl
  | streamItems _ _ ihitems ihstream =>
    simp only [List.filter_append] at ihitems ihstream ⊢
    rwa [ihitems]
  | directive _ _ ihline ihstream =>
    simp only [List.filter_cons, List.filter_append] at ihline ihstream ⊢
    rw [ihline]
    exact .line ihstream
  | streamEnd => exact .endOfFile

theorem Derives.not_delimits {ks : List Kind} (h : Derives items ks) :
    ∀ k ∈ ks, k.delimits = false := by
  simpa [List.filter_eq_nil_iff] using h.delimiters

end Phrase

/-- Behind its hash the opening of a directive line neither ends the line nor opens another. -/
theorem not_delimits_directiveOpening (text : List Char) : ∃ ks,
    Piece.kinds (directiveOpening text).pieces = .directiveStart :: ks ∧
      ∀ k ∈ ks, k.delimits = false := by
  obtain ⟨ks, hks, hline⟩ := derives_directiveOpening text
  have honly : (ks ++ [Kind.directiveEnd]).filter Kind.delimits = [.directiveEnd] :=
    (hline _ .lineEnd).delimiters
  have hnone : ks.filter Kind.delimits = [] := by
    rw [List.filter_append] at honly
    exact List.append_left_eq_self.mp honly
  exact ⟨ks, hks, by simpa [List.filter_eq_nil_iff] using hnone⟩

/-! ### Interpolated strings in phrases -/

/-- Before any place at least as many interpolated strings start as end, and all that start end. -/
structure BalancesStrings (ks : List Kind) : Prop where
  ahead : ∀ ls, ls <+: ks → ls.count .interpolatedEnd ≤ ls.count .interpolatedStart
  settled : ks.count .interpolatedStart = ks.count .interpolatedEnd

namespace BalancesStrings

variable {ks ls : List Kind}

theorem nil : BalancesStrings [] where
  ahead := by
    intro ls hls
    rw [List.prefix_nil.1 hls]
    exact Nat.le_refl _
  settled := rfl

theorem append (hks : BalancesStrings ks) (hls : BalancesStrings ls) :
    BalancesStrings (ks ++ ls) where
  ahead := by
    intro ms hms
    rcases List.prefix_or_prefix_of_prefix hms (List.prefix_append ks ls) with hin | ⟨rest, rfl⟩
    · exact hks.ahead ms hin
    · have hrest := hls.ahead rest ((List.prefix_append_right_inj ks).1 hms)
      rw [List.count_append, List.count_append, hks.settled]
      exact Nat.add_le_add_left hrest _
  settled := by rw [List.count_append, List.count_append, hks.settled, hls.settled]

theorem cons {k : Kind} (hstart : k ≠ .interpolatedStart) (hend : k ≠ .interpolatedEnd)
    (h : BalancesStrings ks) : BalancesStrings (k :: ks) where
  ahead := by
    intro ls hls
    rcases List.prefix_cons_iff.1 hls with rfl | ⟨rest, rfl, hrest⟩
    · exact Nat.le_refl _
    · rw [List.count_cons_of_ne hstart, List.count_cons_of_ne hend]
      exact h.ahead rest hrest
  settled := by
    rw [List.count_cons_of_ne hstart, List.count_cons_of_ne hend]
    exact h.settled

/-- Inside of an interpolated string one more string starts than ends. -/
theorem lt_of_prefix (h : BalancesStrings ks) (hls : ls <+: ks) :
    (Kind.interpolatedStart :: ls).count .interpolatedEnd <
      (Kind.interpolatedStart :: ls).count .interpolatedStart := by
  rw [List.count_cons_self, List.count_cons_of_ne (by decide)]
  exact Nat.lt_succ_of_le (h.ahead ls hls)

theorem enclose (h : BalancesStrings ks) :
    BalancesStrings (.interpolatedStart :: (ks ++ [.interpolatedEnd])) where
  ahead := by
    intro ls hls
    rcases List.prefix_cons_iff.1 hls with rfl | ⟨rest, rfl, hrest⟩
    · exact Nat.le_refl _
    · rcases List.prefix_concat_iff.1 hrest with rfl | hin
      · simp [h.settled]
      · exact Nat.le_of_lt (h.lt_of_prefix hin)
  settled := by simp [h.settled]

end BalancesStrings

namespace Phrase

theorem Derives.balancesStrings {p : Phrase} {ks : List Kind} (h : Derives p ks) :
    match p with
    | content _ => ∃ init, ks = init ++ [.interpolatedEnd] ∧ BalancesStrings init
    | _ => BalancesStrings ks := by
  induction h with
  | nil => exact .nil
  | single hk _ ih => exact ih.cons (by rintro rfl; contradiction) (by rintro rfl; contradiction)
  | group _ _ ihcontent ihitems =>
    obtain ⟨init, rfl, hinit⟩ := ihcontent
    exact hinit.enclose.append ihitems
  | text _ ih =>
    obtain ⟨init, rfl, hinit⟩ := ih
    exact ⟨.interpolatedText :: init, rfl, hinit.cons (by decide) (by decide)⟩
  | @hole _ ks format ls _ hformat _ ihitems ihcontent =>
    obtain ⟨init, rfl, hinit⟩ := ihcontent
    have hmarks : BalancesStrings format := by
      rcases hformat with rfl | rfl
      · exact .nil
      · exact BalancesStrings.nil.cons (by decide) (by decide)
    refine ⟨.holeStart :: (ks ++ (format ++ .holeEnd :: init)), by simp, ?_⟩
    have hclose := hinit.cons (k := .holeEnd) (by decide) (by decide)
    exact (ihitems.append (hmarks.append hclose)).cons (by decide) (by decide)
  | groupEnd => exact ⟨[], rfl, .nil⟩
  | lineItems _ _ ihitems ihline => exact ihitems.append ihline
  | message _ ih => exact ih.cons (by decide) (by decide)
  | lineEnd => exact BalancesStrings.nil.cons (by decide) (by decide)
  | streamItems _ _ ihitems ihstream => exact ihitems.append ihstream
  | directive _ _ ihline ihstream =>
    exact (ihline.append ihstream).cons (by decide) (by decide)
  | streamEnd => exact BalancesStrings.nil.cons (by decide) (by decide)

/-- Before the end of an interpolated string the string is open. -/
theorem Derives.lt_count_of_content {afterText : Bool} {ks first last : List Kind} {k : Kind}
    (h : Derives (content afterText) ks) (hks : ks = first ++ k :: last) :
    (Kind.interpolatedStart :: first).count .interpolatedEnd <
      (Kind.interpolatedStart :: first).count .interpolatedStart := by
  obtain ⟨init, hinit, hbalances⟩ := h.balancesStrings
  have hproper : first ≠ init ++ [.interpolatedEnd] := by
    rintro rfl
    simpa using hinit.symm.trans hks
  have hprefix : first <+: init ++ [.interpolatedEnd] := ⟨k :: last, (hinit.symm.trans hks).symm⟩
  exact hbalances.lt_of_prefix ((List.prefix_concat_iff.1 hprefix).resolve_left hproper)

end Phrase

/-- A scan finds one token or one interpolated string. -/
theorem single_or_content_scanGroup (inDirective : Bool) (room : Nat) (text : List Char) :
    (∃ k, Piece.kinds (scanGroup inDirective room text).pieces = [k]) ∨
      ∃ ks, Piece.kinds (scanGroup inDirective room text).pieces = .interpolatedStart :: ks ∧
        Derives (content false) ks := by
  unfold scanGroup
  split
  · exact .inl ⟨_, rfl⟩
  · next o _ =>
    cases room with
    | zero => exact .inl ⟨_, rfl⟩
    | succ room =>
      exact .inr ⟨_, rfl,
        derives_interpolatedBody (derives_scanGroup inDirective room) o _ inDirective _ _ _⟩

/-- The opening of a directive line holds no part of an interpolated string. -/
theorem count_directiveOpening (text : List Char) :
    (Piece.kinds (directiveOpening text).pieces).count .interpolatedStart =
      (Piece.kinds (directiveOpening text).pieces).count .interpolatedEnd := by
  obtain ⟨ks, hks, hline⟩ := derives_directiveOpening text
  have hsettled := (hline _ .lineEnd).balancesStrings.settled
  rw [hks]
  simpa using hsettled

/-! ### Texts in interpolated strings -/

/-- A text of an interpolated string is not empty and starts before `stop`. -/
def Piece.Shows (stop : Nat) (p : Piece) : Prop :=
  p.kind = .interpolatedText → p.start < stop ∧ 0 < p.length

namespace Piece

theorem shows_of_ne {p : Piece} (h : p.kind ≠ .interpolatedText) (stop : Nat) : p.Shows stop :=
  fun hkind ↦ absurd hkind h

theorem forall_shows_shift {ps : List Piece} {stop : Nat} (h : ∀ p ∈ ps, p.Shows stop) (n : Nat) :
    ∀ p ∈ ps.map (·.shift n), p.Shows (n + stop) := by
  refine List.forall_mem_map.2 fun p hp hkind ↦ ?_
  obtain ⟨hstart, hlength⟩ := h p hp hkind
  exact ⟨Nat.add_lt_add_left hstart n, hlength⟩

theorem forall_shows_textPieces {start mid stop : Nat} (h : start < mid → start < stop) :
    ∀ p ∈ textPieces start mid, p.Shows stop := by
  unfold textPieces
  split
  · next hlt =>
    exact List.forall_mem_singleton.2 fun _ ↦ ⟨h hlt, Nat.sub_pos_of_lt hlt⟩
  · exact List.forall_mem_nil _

end Piece

/-- What is left of a text that ends at `stop`, if anything is, ends there, too. -/
theorem stop_eq_of_drop {start stop : Nat} {text : List Char}
    (h : text ≠ [] → start + text.length = stop) (n : Nat) :
    text.drop n ≠ [] → start + n + (text.drop n).length = stop := by
  intro hne
  have hpos := List.length_pos_iff.2 hne
  rw [List.length_drop] at hpos ⊢
  have htext := h (List.length_pos_iff.1 (by omega))
  omega

/-- What is left behind the first characters of a text that ends at `stop` ends there, too. -/
theorem stop_eq_of_drop_tail {start stop n : Nat} {c : Char} {cs : List Char}
    (h : c :: cs ≠ [] → start + (c :: cs).length = stop) (hn : 0 < n) :
    cs.drop (n - 1) ≠ [] → start + n + (cs.drop (n - 1)).length = stop := by
  rw [drop_sub_one hn c]
  exact stop_eq_of_drop h n

section Content

variable {scan : List Char → Group}

theorem shows_holeTokens (hscan : ∀ text, text ≠ [] → ∀ p ∈ (scan text).pieces, p.Shows text.length)
    (hpos : ∀ text, text ≠ [] → 0 < (scan text).length) (inDirective : Bool)
    (depth start stop : Nat) (text : List Char) (hstop : text ≠ [] → start + text.length = stop) :
    ∀ p ∈ (holeTokens scan inDirective depth start text).pieces, p.Shows stop := by
  induction hn : text.length using Nat.strongRecOn generalizing depth start text with
  | ind n ih =>
    rw [holeTokens]
    split
    · exact List.forall_mem_nil _
    · next c cs hdrop =>
      split
      · exact List.forall_mem_nil _
      · have hlength := congrArg List.length hdrop
        have hcs := hscan (c :: cs) (by simp)
        have hgroup := hpos (c :: cs) (by simp)
        have hhere := hdrop ▸ stop_eq_of_drop hstop (gapLength (gap inDirective text))
        refine List.forall_mem_append.2
          ⟨hhere (by simp) ▸ Piece.forall_shows_shift hcs _, ?_⟩
        simp only [List.length_drop, List.length_cons] at hlength
        refine ih _ ?_ _ _ _ (stop_eq_of_drop_tail hhere hgroup) rfl
        rw [List.length_drop]
        omega

theorem shows_hole (hscan : ∀ text, text ≠ [] → ∀ p ∈ (scan text).pieces, p.Shows text.length)
    (hpos : ∀ text, text ≠ [] → 0 < (scan text).length) (o : Opening) (multiLine inDirective : Bool)
    (start stop : Nat) (text : List Char) (hstop : text ≠ [] → start + text.length = stop) :
    ∀ p ∈ (hole o multiLine scan inDirective start text).pieces, p.Shows stop := by
  refine List.forall_mem_append.2 ⟨List.forall_mem_append.2 ⟨List.forall_mem_cons.2
    ⟨Piece.shows_of_ne (by simp [Piece.bare]) _,
      shows_holeTokens hscan hpos inDirective 0 _ _ _ (stop_eq_of_drop hstop _)⟩, ?_⟩,
    List.forall_mem_singleton.2 (Piece.shows_of_ne (by simp [Piece.bare]) _)⟩
  split
  · exact List.forall_mem_nil _
  · exact List.forall_mem_singleton.2 (Piece.shows_of_ne (by simp [Piece.bare]) _)

theorem shows_interpolatedBody
    (hscan : ∀ text, text ≠ [] → ∀ p ∈ (scan text).pieces, p.Shows text.length)
    (hpos : ∀ text, text ≠ [] → 0 < (scan text).length) {o : Opening} (ho : 0 < o.braces)
    (multiLine inDirective : Bool) (textStart start stop : Nat) (text : List Char)
    (hstart : textStart ≤ start) (hshows : textStart < start → textStart < stop)
    (hstop : text ≠ [] → start + text.length = stop) :
    ∀ p ∈ (interpolatedBody o multiLine scan inDirective textStart start text).pieces,
      p.Shows stop := by
  have hend (textStart mid start length : Nat) (h : textStart < mid → textStart < stop) :
      ∀ p ∈ textPieces textStart mid ++ [Piece.bare .interpolatedEnd start length],
        p.Shows stop :=
    List.forall_mem_append.2 ⟨Piece.forall_shows_textPieces h,
      List.forall_mem_singleton.2 (Piece.shows_of_ne (by simp [Piece.bare]) _)⟩
  -- a step over `n` characters leaves the current text inside of what is scanned
  have within {textStart start n : Nat} {c : Char} {cs : List Char} (hstart : textStart ≤ start)
      (hstop : c :: cs ≠ [] → start + (c :: cs).length = stop) :
      textStart < start + n → textStart < stop := by
    have hlength := hstop (by simp)
    rw [List.length_cons] at hlength
    omega
  fun_induction interpolatedBody o multiLine scan inDirective textStart start text with
  | case1 | case2 | case4 => exact hend _ _ _ _ hshows
  | case3 _ _ _ _ _ _ _ ih | case11 _ _ _ _ _ _ _ _ _ _ _ _ ih =>
    exact ih (by omega) (within hstart hstop) (stop_eq_of_drop_tail hstop Nat.zero_lt_two)
  | case5 _ _ _ cs _ _ _ run _ ih =>
    have hrun : 0 < run := by
      simp only [run]
      split <;> omega
    exact ih (by omega) (within hstart hstop) (stop_eq_of_drop_tail hstop hrun)
  | case6 _ _ _ cs _ _ _ e ih =>
    exact ih (by omega) (within hstart hstop) (stop_eq_of_drop_tail hstop (length_escape_pos cs))
  | case7 _ _ _ _ _ _ _ _ length hrole ih =>
    exact ih (by omega) (within hstart hstop)
      (stop_eq_of_drop_tail hstop (length_braceRole_pos (Nat.succ_pos _) (.inl hrole)))
  | case8 _ _ _ _ _ _ _ _ length hrole ih =>
    exact ih (by omega) (within hstart hstop)
      (stop_eq_of_drop_tail hstop (length_braceRole_pos (Nat.succ_pos _) (.inr hrole)))
  | case9 textStart start c cs _ _ _ _ length _ holeStart part ih =>
    have hlt : holeStart < part.stop := lt_stop_hole ho multiLine inDirective holeStart _
    have hlength : start + length = holeStart := rfl
    refine List.forall_mem_append.2 ⟨List.forall_mem_append.2
      ⟨Piece.forall_shows_textPieces (within hstart hstop), ?_⟩,
      ih (Nat.le_refl _) (fun h ↦ absurd h (Nat.lt_irrefl _)) ?_⟩
    · exact shows_hole hscan hpos o multiLine inDirective _ _ _ (stop_eq_of_drop hstop length)
    · have hrest := stop_eq_of_drop_tail (n := part.stop - start) hstop (by omega)
      rwa [show start + (part.stop - start) = part.stop by omega] at hrest
  | case10 _ _ _ _ _ _ _ _ _ _ _ ih =>
    exact ih (by omega) (within hstart hstop) (stop_eq_of_drop_tail hstop (Nat.succ_pos _))
  | case12 _ _ _ _ _ _ _ _ _ _ _ _ ih | case13 _ _ _ _ _ _ _ _ _ ih =>
    exact ih (by omega) (within hstart hstop) (stop_eq_of_drop_tail hstop Nat.zero_lt_one)

end Content

theorem shows_plainLexeme {text : List Char} (h : text ≠ []) :
    ∀ p ∈ (plainLexeme text).toGroup.pieces, p.Shows text.length := by
  refine List.forall_mem_singleton.2 (Piece.shows_of_ne (fun hkind ↦ ?_) _)
  have hsingle := (single_plainLexeme h).isSingle
  rw [show (plainLexeme text).kind = .interpolatedText from hkind] at hsingle
  contradiction

/-- The texts in what a scan finds are not empty and stand in the text. -/
theorem shows_scanGroup (inDirective : Bool) (room : Nat) {text : List Char} (h : text ≠ []) :
    ∀ p ∈ (scanGroup inDirective room text).pieces, p.Shows text.length := by
  induction room generalizing text with
  | zero =>
    unfold scanGroup
    split
    · exact shows_plainLexeme h
    · exact List.forall_mem_singleton.2 (Piece.shows_of_ne (by simp [Piece.bare]) _)
  | succ room ih =>
    unfold scanGroup
    split
    · exact shows_plainLexeme h
    · next o ho =>
      refine List.forall_mem_cons.2 ⟨Piece.shows_of_ne (by simp) _, ?_⟩
      refine shows_interpolatedBody (fun _ ↦ ih) (fun _ ↦ length_scanGroup_pos _ _)
        (braces_pos ho) _ _ _ _ _ _ (Nat.le_refl _) (fun hlt ↦ absurd hlt (Nat.lt_irrefl _)) ?_
      have hstart : text ≠ [] → 0 + text.length = text.length := fun _ ↦ Nat.zero_add _
      have hlength := stop_eq_of_drop hstart o.length
      rwa [Nat.zero_add] at hlength

theorem shows_directiveOpening (text : List Char) (stop : Nat) :
    ∀ p ∈ (directiveOpening text).pieces, p.Shows stop := by
  have hbare (kind : Kind) (start length : Nat) (hkind : kind ≠ .interpolatedText) :
      (Piece.bare kind start length).Shows stop := Piece.shows_of_ne hkind stop
  have hname (start : Nat) (rest : List Char) :
      ((nameLexeme false rest).piece.shift start).Shows stop := by
    refine Piece.shows_of_ne (fun hkind ↦ ?_) stop
    have hsingle := isSingle_nameLexeme false rest
    rw [show (nameLexeme false rest).kind = .interpolatedText from hkind] at hsingle
    contradiction
  have hmessage (start : Nat) (rest : List Char) : (messagePiece start rest).Shows stop :=
    Piece.shows_of_ne (by simp [messagePiece]) stop
  unfold directiveOpening
  simp only
  split
  · exact List.forall_mem_cons.2 ⟨hbare _ _ _ (by simp), List.forall_mem_singleton.2 (hmessage _ _)⟩
  · split
    · split
      · refine List.forall_mem_append.2 ⟨List.forall_mem_cons.2 ⟨hbare _ _ _ (by simp),
          List.forall_mem_singleton.2 (hname _ _)⟩, ?_⟩
        split
        · exact List.forall_mem_nil _
        · exact List.forall_mem_singleton.2 (hmessage _ _)
      · exact List.forall_mem_cons.2
          ⟨hbare _ _ _ (by simp), List.forall_mem_singleton.2 (hname _ _)⟩
    · exact List.forall_mem_singleton.2 (hbare _ _ _ (by simp))

/-! ### Texts among tokens -/

/-- A token that is a text of an interpolated string is not empty. -/
def Token.Shows (t : Token) : Prop := t.kind = .interpolatedText → t.text ≠ ""

/-- Pieces that stand in the text become tokens that do. -/
theorem Cursor.shows_tokens (c : Cursor) {pieces : List Piece}
    (h : ∀ p ∈ pieces, p.Shows c.rest.length) : ∀ t ∈ c.tokens pieces, t.Shows := by
  have htoken (atLineStart : Bool) (p : Piece) (hp : p.Shows c.rest.length) :
      (c.token atLineStart p).Shows := by
    intro hkind hempty
    obtain ⟨hstart, hlength⟩ := hp hkind
    have hmessage : p.kind ≠ .directiveMessage := by
      rw [show p.kind = .interpolatedText from hkind]
      simp
    have hlist := congrArg String.toList hempty
    simp only [token, if_neg hmessage, String.toList_ofList, String.toList_empty,
      List.take_eq_nil_iff, List.drop_eq_nil_iff] at hlist
    omega
  cases pieces with
  | nil => exact List.forall_mem_nil _
  | cons p ps =>
    rw [List.forall_mem_cons] at h
    exact List.forall_mem_cons.2
      ⟨htoken _ p h.1, List.forall_mem_map.2 fun q hq ↦ htoken _ q (h.2 q hq)⟩

/-- The texts of interpolated strings that a reading step gives are not empty. -/
theorem TokenSource.shows_of_read {s : TokenSource} {r : Reading} (h : s.read = some r) :
    ∀ t ∈ r.tokens, t.Shows := by
  have hempty (c : Cursor) (kind : Kind) (atLineStart : Bool) (hkind : kind ≠ .interpolatedText) :
      ∀ t ∈ [c.emptyToken kind atLineStart], t.Shows :=
    List.forall_mem_singleton.2 fun h ↦ absurd h hkind
  obtain ⟨-, c, fs, -, ⟨-, rfl⟩ | ⟨-, rfl⟩ | ⟨hc, rfl⟩⟩ := read_cases h
  · exact hempty _ _ _ (by simp)
  · exact hempty _ _ _ (by simp)
  · unfold readGroup
    refine c.shows_tokens ?_
    split
    · exact shows_directiveOpening _ _
    · exact shows_scanGroup _ _ hc

end CSharpCheck
