import CSharpCheck.Proofs.Scanning.Extents
import CSharpCheck.Proofs.Scanning.GivingUp

/-!
# The marks of holes

The tokens of an interpolated string show how many braces its holes need. Where no fault is heard
about a string, it opens in one of the documented ways, and every hole of it opens with the braces
that its dollars ask for and closes with as many braces as are there, up to that number.
-/

namespace CSharpCheck

/-- What a token shows: its class, its place, its text, and the text from its start on. -/
structure Mark where
  kind : Kind
  start : Nat
  stop : Nat
  text : List Char
  rest : List Char

namespace Mark

/-- The mark `n` characters further on. -/
def shift (n : Nat) (m : Mark) : Mark := { m with start := n + m.start, stop := n + m.stop }

theorem kinds_shift (n : Nat) (ms : List Mark) :
    (ms.map (·.shift n)).map (·.kind) = ms.map (·.kind) := by
  rw [List.map_map]
  rfl

end Mark

/-- What a piece of a text shows. -/
def Piece.mark (text : List Char) (p : Piece) : Mark :=
  ⟨p.kind, p.start, p.start + p.length, (text.drop p.start).take p.length, text.drop p.start⟩

/-- A hole starts with just `braces` braces, and it ends with one at least and with no more than
that. It takes fewer only if no more are there. -/
structure HoleMarks (braces : Nat) (opening closing : Mark) : Prop where
  opens : opening.text = List.replicate braces '\x7b'
  closes : 0 < runLength '\x7d' closing.rest
  takes : closing.text = List.replicate (min braces (runLength '\x7d' closing.rest)) '\x7d'

/-- The forms of tokens in which interpolated strings stand. -/
inductive Form where
  /-- Single tokens and whole interpolated strings. -/
  | items
  /-- What follows the start of the string from `start` to `stop`, where holes open with `braces`
  braces. -/
  | content (braces start stop : Nat)
  /-- A whole text. -/
  | stream

/-- The marks have the form, and every string that nothing is heard about is marked as it should
be; `heard` says whether something is heard about the text between two places. Of directive lines
nothing is said. -/
inductive Matching (heard : Nat → Nat → Prop) : Form → List Mark → Prop where
  | nil : Matching heard .items []
  | single {m : Mark} {ms : List Mark} : m.kind.isSingle = true → Matching heard .items ms →
      Matching heard .items (m :: ms)
  | string {m : Mark} {ms ls : List Mark} {braces stop : Nat} : m.kind = .interpolatedStart →
      (¬heard m.start stop → Opens m.text braces) →
      Matching heard (.content braces m.start stop) ms → Matching heard .items ls →
      Matching heard .items (m :: (ms ++ ls))
  | text {m : Mark} {ms : List Mark} {braces start stop : Nat} : m.kind = .interpolatedText →
      Matching heard (.content braces start stop) ms →
      Matching heard (.content braces start stop) (m :: ms)
  | hole {opening closing : Mark} {ms format ls : List Mark} {braces start stop : Nat} :
      opening.kind = .holeStart → closing.kind = .holeEnd →
      (¬heard start stop → HoleMarks braces opening closing) → Matching heard .items ms →
      format.map (·.kind) = [] ∨ format.map (·.kind) = [.holeFormat] →
      Matching heard (.content braces start stop) ls →
      Matching heard (.content braces start stop) (opening :: (ms ++ (format ++ closing :: ls)))
  | stringEnd {m : Mark} {braces start stop : Nat} : m.kind = .interpolatedEnd → m.stop = stop →
      Matching heard (.content braces start stop) [m]
  | streamItems {ms ls : List Mark} : Matching heard .items ms → Matching heard .stream ls →
      Matching heard .stream (ms ++ ls)
  | directive {m : Mark} {ms ls : List Mark} : m.kind = .directiveStart →
      Phrase.Derives .line (ms.map (·.kind)) → Matching heard .stream ls →
      Matching heard .stream (m :: (ms ++ ls))
  | streamEnd {m : Mark} : m.kind = .endOfFile → Matching heard .stream [m]

namespace Matching

variable {heard other : Nat → Nat → Prop} {f : Form} {ms ls : List Mark}

/-- More may be heard. -/
theorem mono (h : Matching heard f ms) (hheard : ∀ x y, heard x y → other x y) :
    Matching other f ms := by
  induction h with
  | nil => exact .nil
  | single hkind _ ih => exact .single hkind ih
  | string hkind hopens _ _ ihcontent ihitems =>
    exact .string hkind (fun hsilent ↦ hopens fun h ↦ hsilent (hheard _ _ h)) ihcontent ihitems
  | text hkind _ ih => exact .text hkind ih
  | hole hopening hclosing hmarks _ hformat _ ihitems ihcontent =>
    exact .hole hopening hclosing (fun hsilent ↦ hmarks fun h ↦ hsilent (hheard _ _ h)) ihitems
      hformat ihcontent
  | stringEnd hkind hstop => exact .stringEnd hkind hstop
  | streamItems _ _ ihitems ihstream => exact .streamItems ihitems ihstream
  | directive hkind hline _ ih => exact .directive hkind hline ih
  | streamEnd hkind => exact .streamEnd hkind

theorem append (hms : Matching heard .items ms) (hls : Matching heard .items ls) :
    Matching heard .items (ms ++ ls) := by
  generalize hf : Form.items = f at hms
  induction hms with
  | nil => exact hls
  | single hkind _ ih => exact .single hkind (ih hf)
  | string hkind hopens hcontent _ _ ih =>
    rw [List.cons_append, List.append_assoc]
    exact .string hkind hopens hcontent (ih hf)
  | _ => cases hf

end Matching

/-- The form `n` characters further on. -/
def Form.shift (n : Nat) : Form → Form
  | .content braces start stop => .content braces (n + start) (n + stop)
  | f => f

/-- What matches does so further on. -/
theorem Matching.shift {heard other : Nat → Nat → Prop} {f : Form} {ms : List Mark} {n : Nat}
    (h : Matching heard f ms) (hheard : ∀ x y, heard x y → other (n + x) (n + y)) :
    Matching other (f.shift n) (ms.map (·.shift n)) := by
  induction h with
  | nil => exact .nil
  | single hkind _ ih => exact .single hkind ih
  | string hkind hopens _ _ ihcontent ihitems =>
    rw [List.map_cons, List.map_append]
    exact .string hkind (fun hsilent ↦ hopens fun h ↦ hsilent (hheard _ _ h)) ihcontent ihitems
  | text hkind _ ih => exact .text hkind ih
  | hole hopening hclosing hmarks _ hformat _ ihitems ihcontent =>
    simp only [List.map_cons, List.map_append]
    rw [← Mark.kinds_shift n] at hformat
    refine .hole hopening hclosing (fun hsilent ↦ ?_) ihitems hformat ihcontent
    obtain ⟨hopens, hcloses, htakes⟩ := hmarks fun h ↦ hsilent (hheard _ _ h)
    exact ⟨hopens, hcloses, htakes⟩
  | stringEnd hkind hstop => exact .stringEnd hkind (congrArg (n + ·) hstop)
  | streamItems _ _ ihitems ihstream =>
    rw [List.map_append]
    exact .streamItems ihitems ihstream
  | directive hkind hline _ ih =>
    rw [List.map_cons, List.map_append]
    rw [← Mark.kinds_shift n] at hline
    exact .directive hkind hline ih
  | streamEnd hkind => exact .streamEnd hkind

theorem Piece.map_mark_shift {text cs : List Char} {n : Nat} (h : text.drop n = cs)
    (ps : List Piece) :
    (ps.map (·.shift n)).map (Piece.mark text) = (ps.map (Piece.mark cs)).map (·.shift n) := by
  subst h
  rw [List.map_map, List.map_map]
  apply List.map_congr_left
  intro p _
  simp [Piece.mark, Piece.shift, Mark.shift, List.drop_drop, Nat.add_assoc]

/-! ### What is heard -/

open Fault

/-- A fault between two places is reported, unless the reading of the text has ended before. -/
def Heard (faults : List Fault) (start stop : Nat) : Prop :=
  ∃ f ∈ upToGivingUp faults, start ≤ f.start ∧ f.start < stop

theorem upToGivingUp_append {fs : List Fault} (h : ¬GivesUp fs) (gs : List Fault) :
    upToGivingUp (fs ++ gs) = fs ++ upToGivingUp gs := by
  induction fs with
  | nil => rfl
  | cons f fs ih =>
    have hf : f.error ≠ .tooComplex := fun herror ↦ h ⟨f, List.mem_cons_self, herror⟩
    have hfs : ¬GivesUp fs := fun ⟨g, hg, herror⟩ ↦ h ⟨g, List.mem_cons_of_mem f hg, herror⟩
    rw [List.cons_append, upToGivingUp, if_neg hf, ih hfs, List.cons_append]

theorem prefix_upToGivingUp (fs gs : List Fault) : upToGivingUp fs <+: upToGivingUp (fs ++ gs) := by
  induction fs with
  | nil => exact List.nil_prefix
  | cons f fs ih =>
    rw [List.cons_append, upToGivingUp, upToGivingUp]
    by_cases hf : f.error = .tooComplex
    · simp only [if_pos hf, List.prefix_rfl]
    · simp only [if_neg hf, List.prefix_cons_inj, ih]

theorem upToGivingUp_map {g : Fault → Fault}
    (hg : ∀ f, (g f).error = .tooComplex ↔ f.error = .tooComplex) (fs : List Fault) :
    upToGivingUp (fs.map g) = (upToGivingUp fs).map g := by
  induction fs with
  | nil => rfl
  | cons f fs ih =>
    rw [List.map_cons, upToGivingUp, upToGivingUp, ih]
    simp only [hg]
    split
    · rfl
    · rfl

theorem upToGivingUp_shift (n : Nat) (fs : List Fault) :
    upToGivingUp (fs.map (·.shift n)) = (upToGivingUp fs).map (·.shift n) :=
  upToGivingUp_map (fun f ↦ show (f.shift n).error = _ ↔ _ from Iff.rfl) fs

/-- A fault is reported, or one that ends the reading is. -/
theorem mem_upToGivingUp {f : Fault} {fs : List Fault} (h : f ∈ fs) :
    f ∈ upToGivingUp fs ∨ GivesUp (upToGivingUp fs) := by
  induction fs with
  | nil => contradiction
  | cons g fs ih =>
    rw [upToGivingUp]
    by_cases hg : g.error = .tooComplex
    · rw [if_pos hg]
      exact .inr ⟨g, List.mem_cons_self, hg⟩
    · rw [if_neg hg]
      rcases List.mem_cons.1 h with rfl | h
      · exact .inl List.mem_cons_self
      · rcases ih h with hmem | ⟨e, he, herror⟩
        · exact .inl (List.mem_cons_of_mem g hmem)
        · exact .inr ⟨e, List.mem_cons_of_mem g he, herror⟩

namespace Heard

variable {fs gs : List Fault} {x y n : Nat}

theorem append_left (h : Heard fs x y) : Heard (fs ++ gs) x y := by
  obtain ⟨f, hf, hplace⟩ := h
  exact ⟨f, (prefix_upToGivingUp fs gs).subset hf, hplace⟩

theorem append_right (hfs : ¬GivesUp fs) (h : Heard gs x y) : Heard (fs ++ gs) x y := by
  obtain ⟨f, hf, hplace⟩ := h
  refine ⟨f, ?_, hplace⟩
  rw [upToGivingUp_append hfs]
  exact List.mem_append_right fs hf

theorem shift (h : Heard fs x y) : Heard (fs.map (·.shift n)) (n + x) (n + y) := by
  obtain ⟨f, hf, hx, hy⟩ := h
  refine ⟨f.shift n, ?_, Nat.add_le_add_left hx n, Nat.add_lt_add_left hy n⟩
  rw [upToGivingUp_shift]
  exact List.mem_map_of_mem hf

end Heard

/-- Of a string from `start` to `stop`, `text` is left with the faults. They are heard, unless
nothing is left, and if nothing is heard about the string there are none. -/
structure HeardIn (heard : Nat → Nat → Prop) (start stop : Nat) (text : List Char)
    (faults : List Fault) : Prop where
  reported : text = [] ∨ ∀ x y, Heard faults x y → heard x y
  silent : ¬heard start stop → faults = []

namespace HeardIn

variable {heard : Nat → Nat → Prop} {a b : Nat} {c : Char} {cs text : List Char}
  {fs gs : List Fault}

theorem all (h : HeardIn heard a b (c :: cs) fs) : ∀ x y, Heard fs x y → heard x y :=
  h.reported.resolve_left (List.cons_ne_nil c cs)

theorem skip (h : HeardIn heard a b (c :: cs) fs) : HeardIn heard a b text fs :=
  ⟨.inr h.all, h.silent⟩

/-- What comes behind faults that do not end the reading is heard as well. -/
theorem behind (h : HeardIn heard a b (c :: cs) (fs ++ gs)) (hfs : ¬GivesUp fs) :
    HeardIn heard a b text gs :=
  ⟨.inr fun x y hgs ↦ h.all x y (hgs.append_right hfs),
    fun hsilent ↦ (List.append_eq_nil_iff.1 (h.silent hsilent)).2⟩

theorem behind_single {error : LexicalError} {n m : Nat}
    (h : HeardIn heard a b (c :: cs) (⟨error, n, m⟩ :: gs)) (hle : n ≤ m)
    (herror : error ≠ .tooComplex) : HeardIn heard a b text gs := by
  have hfirst : HeardIn heard a b (c :: cs) ([⟨error, n, m⟩] ++ gs) := h
  exact hfirst.behind (Local.single hle (Nat.le_refl m) herror).not_givesUp

end HeardIn

/-! ### The scan of a string -/

/-- What holes rely on: the tokens of a group match, a group is not empty, and nothing is left
behind one that gives up. -/
structure ScansMarks (scan : List Char → Group) : Prop where
  matching (text : List Char) : text ≠ [] →
    Matching (Heard (scan text).faults) .items ((scan text).pieces.map (Piece.mark text))
  length_pos (text : List Char) : text ≠ [] → 0 < (scan text).length
  le_length (text : List Char) : GivesUp (scan text).faults → text.length ≤ (scan text).length

section Content

variable {scan : List Char → Group} {inDirective : Bool}

theorem drop_add_of_drop {whole cs : List Char} {c : Char} {start n : Nat}
    (h : whole.drop start = c :: cs) (hn : 0 < n) : whole.drop (start + n) = cs.drop (n - 1) := by
  rw [drop_sub_one hn c, ← h, List.drop_drop]

theorem pieces_holeTokens_nil (depth start : Nat) :
    (holeTokens scan inDirective depth start []).pieces = [] := by
  rw [holeTokens]
  split
  · rfl
  · next hdrop =>
    rw [List.drop_nil] at hdrop
    contradiction

/-- The tokens in a hole match. Nothing is scanned where the text has been given up. -/
theorem matching_holeTokens (hscan : ScansMarks scan) (depth start : Nat)
    {text whole : List Char} (hwhole : whole.drop start = text) :
    Matching (Heard (holeTokens scan inDirective depth start text).faults) .items
      ((holeTokens scan inDirective depth start text).pieces.map (Piece.mark whole)) := by
  induction hn : text.length using Nat.strongRecOn generalizing depth start text with
  | ind n ih =>
    have hgap := (local_gapFaults start (gap inDirective text)).not_givesUp
    rw [holeTokens]
    split
    · exact .nil
    · next c cs hdrop =>
      split
      · exact .nil
      · have hlength := congrArg List.length hdrop
        simp only [List.length_drop, List.length_cons] at hlength
        generalize hgroup : scan (c :: cs) = group
        have hplace : whole.drop (start + gapLength (gap inDirective text)) = c :: cs := by
          rw [← List.drop_drop, hwhole, hdrop]
        have hitems := hscan.matching (c :: cs) (List.cons_ne_nil c cs)
        have hlong := hscan.length_pos (c :: cs) (List.cons_ne_nil c cs)
        have hall := hscan.le_length (c :: cs)
        rw [hgroup] at hitems hlong hall
        simp only [Part.after, List.map_append, Piece.map_mark_shift hplace]
        refine (hitems.shift fun x y h ↦ ?_).append ?_
        · exact (h.shift.append_right hgap).append_left
        · by_cases hgiven : GivesUp group.faults
          · have hnil : cs.drop (group.length - 1) = [] := by
              rw [List.drop_eq_nil_iff]
              have hle := hall hgiven
              rw [List.length_cons] at hle
              omega
            rw [hnil, pieces_holeTokens_nil]
            exact .nil
          · have hrest := ih (cs.drop (group.length - 1)).length (by rw [List.length_drop]; omega)
              (bracketDepth depth group.pieces)
              (start + gapLength (gap inDirective text) + group.length)
              (drop_add_of_drop hplace hlong) rfl
            refine hrest.mono fun x y h ↦ h.append_right ?_
            rw [givesUp_append, givesUp_shift, not_or]
            exact ⟨hgap, hgiven⟩

/-- A hole of a string about which nothing is heard shows its marks. -/
theorem matching_hole (hscan : ScansMarks scan) (o : Opening) (multiLine : Bool)
    {start a b : Nat} {text whole : List Char} {heard : Nat → Nat → Prop} {ls : List Mark}
    (hwhole : whole.drop start = text)
    (hopens : text.take o.braces = List.replicate o.braces '\x7b')
    (hheard : ∀ x y, Heard (hole o multiLine scan inDirective start text).faults x y → heard x y)
    (hsilent : ¬heard a b → (hole o multiLine scan inDirective start text).faults = [] ∧
      whole.drop (hole o multiLine scan inDirective start text).stop ≠ [])
    (hls : Matching heard (.content o.braces a b) ls) :
    Matching heard (.content o.braces a b)
      ((hole o multiLine scan inDirective start text).pieces.map (Piece.mark whole) ++ ls) := by
  have hplace : whole.drop (start + o.braces) = text.drop o.braces := by
    rw [← hwhole, List.drop_drop]
  have htokens := @matching_holeTokens scan inDirective hscan 0 (start + o.braces) _ _ hplace
  have hle := le_stop_holeTokens scan inDirective 0 (start + o.braces) (text.drop o.braces)
  simp only [hole] at hheard hsilent ⊢
  generalize holeTokens scan inDirective 0 (start + o.braces) (text.drop o.braces) = tokens
    at htokens hheard hsilent hle ⊢
  have hafter : text.drop (tokens.stop - start) = whole.drop tokens.stop := by
    rw [← hwhole, List.drop_drop, Nat.add_sub_cancel' (by omega)]
  rw [hafter, List.drop_drop] at hheard hsilent ⊢
  generalize formatLength multiLine (whole.drop tokens.stop) = length at hheard hsilent ⊢
  generalize hclose : tokens.stop + length = close at hheard hsilent ⊢
  simp only [List.cons_append, List.map_cons, List.map_append, List.append_assoc, List.map_nil,
    List.nil_append]
  refine .hole rfl rfl ?_ (htokens.mono fun x y h ↦ hheard x y h.append_left) ?_ hls
  · intro h
    obtain ⟨hfaults, hmore⟩ := hsilent h
    have hrun : 0 < runLength '\x7d' (whole.drop close) := by
      refine Nat.pos_of_ne_zero fun hzero ↦ ?_
      have hnone : (runLength '\x7d' (whole.drop close)).min o.braces = 0 := by
        rw [hzero]
        exact Nat.zero_min _
      rw [hnone, Nat.add_zero] at hmore
      have hfault := (List.append_eq_nil_iff.1 hfaults).2
      rw [hnone, if_pos ⟨rfl, hmore⟩] at hfault
      contradiction
    constructor
    · show (whole.drop start).take o.braces = _
      rw [hwhole, hopens]
    · exact hrun
    · show (whole.drop close).take ((runLength '\x7d' (whole.drop close)).min o.braces) =
        List.replicate (min o.braces (runLength '\x7d' (whole.drop close))) '\x7d'
      rw [take_of_runLength (Nat.min_le_left _ _), Nat.min_comm]
  · split
    · exact .inl rfl
    · exact .inr rfl

/-- A run of opening braces that opens a hole ends with the braces for it. -/
theorem take_of_braceRole {o : Opening} (hplain : o.raw = false → o.braces = 1) {length : Nat}
    {c : Char} {cs : List Char} (hc : c = '\x7b')
    (h : o.braceRole (runLength '\x7b' cs + 1) = .hole length) :
    ((c :: cs).drop length).take o.braces = List.replicate o.braces '\x7b' := by
  have hrun : runLength '\x7b' (c :: cs) = runLength '\x7b' cs + 1 := by simp [runLength, hc]
  have hadd := add_braces_of_braceRole hplain h (Nat.succ_pos _)
  rw [← hrun] at hadd
  rw [List.take_drop, hadd, take_of_runLength (Nat.le_refl _), List.drop_replicate]
  congr 1
  omega

/-- What comes behind a hole is heard as well: nothing does if the hole ends the reading. -/
theorem HeardIn.behind_hole (hscan : ScansMarks scan) (o : Opening) (multiLine : Bool)
    {start a b : Nat} {heard : Nat → Nat → Prop} {text whole cs : List Char} {c : Char}
    {fs : List Fault} (hwhole : whole.drop start = text)
    (h : HeardIn heard a b (c :: cs)
      ((hole o multiLine scan inDirective start text).faults ++ fs)) :
    HeardIn heard a b (whole.drop (hole o multiLine scan inDirective start text).stop) fs := by
  subst hwhole
  by_cases hgiven : GivesUp (hole o multiLine scan inDirective start (whole.drop start)).faults
  · have hall := le_stop_hole_of_givesUp hscan.le_length hscan.length_pos o multiLine inDirective
      start _ hgiven
    rw [List.length_drop] at hall
    have hnil : whole.drop (hole o multiLine scan inDirective start (whole.drop start)).stop =
        [] := by
      rw [List.drop_eq_nil_iff]
      omega
    exact ⟨.inl hnil, fun hsilent ↦ (List.append_eq_nil_iff.1 (h.silent hsilent)).2⟩
  · exact h.behind hgiven

/-- The content of a string matches. -/
theorem matching_interpolatedBody (hscan : ScansMarks scan) {o : Opening} (ho : 0 < o.braces)
    (hplain : o.raw = false → o.braces = 1) (multiLine : Bool) (textStart start : Nat)
    {text whole : List Char} {a b : Nat} {heard : Nat → Nat → Prop}
    (hwhole : whole.drop start = text)
    (hstop : (interpolatedBody o multiLine scan inDirective textStart start text).stop = b)
    (hheard : HeardIn heard a b text
      (interpolatedBody o multiLine scan inDirective textStart start text).faults) :
    Matching heard (.content o.braces a b)
      ((interpolatedBody o multiLine scan inDirective textStart start text).pieces.map
        (Piece.mark whole)) := by
  have htext {first last : Nat} {ls : List Mark} (hls : Matching heard (.content o.braces a b) ls) :
      Matching heard (.content o.braces a b)
        ((textPieces first last).map (Piece.mark whole) ++ ls) := by
    unfold textPieces
    split
    · exact .text rfl hls
    · exact hls
  fun_induction interpolatedBody o multiLine scan inDirective textStart start text with
  | case1 textStart start =>
    simp only [unclosedEnd, List.map_append]
    exact htext (.stringEnd rfl hstop)
  | case2 textStart start c cs _ =>
    simp only [unclosedEnd, List.map_append]
    exact htext (.stringEnd rfl hstop)
  | case3 textStart start c cs _ _ _ ih =>
    exact ih (drop_add_of_drop hwhole Nat.zero_lt_two) hstop hheard.skip
  | case4 textStart start c cs _ _ _ run =>
    simp only [closedEnd, List.map_append]
    refine htext (.stringEnd rfl ?_)
    simpa [closedEnd, Piece.mark, Piece.bare, Nat.add_assoc] using hstop
  | case5 textStart start c cs _ _ _ run _ ih =>
    have hrun : 0 < run := by
      simp only [run]
      split <;> omega
    exact ih (drop_add_of_drop hwhole hrun) hstop hheard.skip
  | case6 textStart start c cs _ _ _ e ih =>
    exact ih (drop_add_of_drop hwhole (length_escape_pos cs)) hstop
      (hheard.behind (local_escape e start).not_givesUp)
  | case7 textStart start c cs _ _ _ _ length hrole ih =>
    have hlength := length_braceRole_pos (Nat.succ_pos _) (.inl hrole)
    exact ih (drop_add_of_drop hwhole hlength) hstop hheard.skip
  | case8 textStart start c cs _ _ _ _ length hrole ih =>
    have hlength := length_braceRole_pos (Nat.succ_pos _) (.inr hrole)
    exact ih (drop_add_of_drop hwhole hlength) hstop
      (hheard.behind_single (Nat.le_refl _) (by simp))
  | case9 textStart start c cs _ _ _ hbrace length hrole holeStart part ih =>
    have hlt : holeStart < part.stop := lt_stop_hole ho multiLine inDirective holeStart _
    have hstart : start ≤ holeStart := Nat.le_add_right start length
    have hplace : whole.drop holeStart = (c :: cs).drop length := by
      rw [← hwhole, List.drop_drop]
    have hnext : whole.drop part.stop = cs.drop (part.stop - start - 1) := by
      have h := drop_add_of_drop hwhole (n := part.stop - start) (by omega)
      rwa [Nat.add_sub_cancel' (by omega)] at h
    have hbehind := HeardIn.behind_hole hscan o multiLine hplace hheard
    rw [hnext] at hbehind
    simp only [Part.after, List.map_append, List.append_assoc]
    apply htext
    refine matching_hole hscan o multiLine hplace
      (take_of_braceRole hplain (beq_iff_eq.1 hbrace) hrole)
      (fun x y h ↦ hheard.all x y h.append_left) (fun hsilent ↦ ?_) (ih hnext hstop hbehind)
    obtain ⟨hhole, hrest⟩ := List.append_eq_nil_iff.1 (hheard.silent hsilent)
    refine ⟨hhole, fun hnil ↦ ?_⟩
    rw [← hnext, hnil, interpolatedBody] at hrest
    contradiction
  | case10 textStart start c cs _ _ _ _ _ run _ ih =>
    exact ih (drop_add_of_drop hwhole (Nat.succ_pos _)) hstop hheard.skip
  | case11 textStart start c cs _ _ _ _ _ _ _ _ ih =>
    exact ih (drop_add_of_drop hwhole Nat.zero_lt_two) hstop hheard.skip
  | case12 textStart start c cs _ _ _ _ _ _ _ _ ih =>
    exact ih (drop_add_of_drop hwhole Nat.zero_lt_one) hstop
      (hheard.behind_single (Nat.le_refl _) (by simp))
  | case13 textStart start c cs _ _ _ _ _ ih =>
    exact ih (drop_add_of_drop hwhole Nat.zero_lt_one) hstop hheard.skip

/-! ### Every faulty string is heard -/

/-- Where a scan gives up there is something left to scan. -/
def Fault.Early (stop : Nat) (faults : List Fault) : Prop :=
  ∀ f ∈ faults, f.error = .tooComplex → f.start < stop

namespace Fault.Early

variable {fs gs : List Fault} {m n : Nat}

theorem of_not_givesUp (h : ¬GivesUp fs) : Early n fs := fun f hf herror ↦ absurd ⟨f, hf, herror⟩ h

theorem mono (h : Early m fs) (hmn : m ≤ n) : Early n fs :=
  fun f hf herror ↦ Nat.lt_of_lt_of_le (h f hf herror) hmn

theorem append (hfs : Early n fs) (hgs : Early n gs) : Early n (fs ++ gs) :=
  List.forall_mem_append.2 ⟨hfs, hgs⟩

theorem shift (h : Early n fs) (m : Nat) : Early (m + n) (fs.map (·.shift m)) := by
  intro f hf herror
  obtain ⟨g, hg, rfl⟩ := List.mem_map.1 hf
  exact Nat.add_lt_add_left (h g hg herror) m

end Fault.Early

theorem early_holeTokens
    (hscan : ∀ text, text ≠ [] → Early (scan text).length (scan text).faults)
    (depth start : Nat) (text : List Char) :
    Early (holeTokens scan inDirective depth start text).stop
      (holeTokens scan inDirective depth start text).faults := by
  induction hn : text.length using Nat.strongRecOn generalizing depth start text with
  | ind n ih =>
    have hgap {stop : Nat} : Early stop (gapFaults start (gap inDirective text)) :=
      .of_not_givesUp (local_gapFaults start (gap inDirective text)).not_givesUp
    rw [holeTokens]
    split
    · exact hgap
    · next c cs hdrop =>
      split
      · exact hgap
      · have hlength := congrArg List.length hdrop
        simp only [List.length_drop, List.length_cons] at hlength
        have hgroup := hscan (c :: cs) (List.cons_ne_nil c cs)
        refine (hgap.append ((hgroup.shift _).mono ?_)).append (ih _ ?_ _ _ _ rfl)
        · exact le_stop_holeTokens _ _ _ _ _
        · rw [List.length_drop]
          omega

theorem early_hole (hscan : ∀ text, text ≠ [] → Early (scan text).length (scan text).faults)
    (o : Opening) (multiLine : Bool) (start : Nat) (text : List Char) :
    Early (hole o multiLine scan inDirective start text).stop
      (hole o multiLine scan inDirective start text).faults := by
  have hclose {stop : Nat} (p : Prop) [Decidable p] (n : Nat) :
      Early stop (if p then [⟨.closeBraceExpected, n, n⟩] else []) :=
    .of_not_givesUp
      (Local.ite (.single (Nat.le_refl n) (Nat.le_refl n) (by simp)) .nil).not_givesUp
  have htokens := @early_holeTokens scan inDirective hscan 0 (start + o.braces)
    (text.drop o.braces)
  simp only [hole]
  apply Early.append (htokens.mono ?_) (hclose _ _)
  omega

theorem Opening.unclosedError_ne (o : Opening) (atLineEnd : Bool) :
    o.unclosedError atLineEnd ≠ .tooComplex := by
  unfold unclosedError
  repeat' split
  all_goals simp

theorem early_interpolatedBody
    (hscan : ∀ text, text ≠ [] → Early (scan text).length (scan text).faults)
    (o : Opening) (multiLine : Bool) (textStart start : Nat) (text : List Char) :
    Early (interpolatedBody o multiLine scan inDirective textStart start text).stop
      (interpolatedBody o multiLine scan inDirective textStart start text).faults := by
  have hlocal {stop n m : Nat} {error : LexicalError} (hle : n ≤ m) (he : error ≠ .tooComplex) :
      Early stop [⟨error, n, m⟩] :=
    .of_not_givesUp (Local.single hle (Nat.le_refl m) he).not_givesUp
  fun_induction interpolatedBody o multiLine scan inDirective textStart start text with
  | case1 | case2 => exact hlocal (Nat.le_refl 0) (o.unclosedError_ne _)
  | case4 textStart start c cs _ _ _ run =>
    exact .of_not_givesUp (Local.ite (.single (Nat.le_add_right start run) (Nat.le_refl _)
      (by simp)) .nil).not_givesUp
  | case6 textStart start c cs _ _ _ e ih =>
    exact (Early.of_not_givesUp (local_escape e start).not_givesUp).append ih
  | case8 textStart start c cs _ _ _ _ length _ ih =>
    exact (hlocal (Nat.le_refl _) (by simp)).append ih
  | case9 textStart start c cs _ _ _ _ length _ holeStart part ih =>
    exact ((early_hole hscan o multiLine holeStart _).mono
      (le_stop_interpolatedBody _ _ _ _ _ _ _)).append ih
  | case12 textStart start c cs _ _ _ _ _ _ _ _ ih =>
    exact (hlocal (Nat.le_refl _) (by simp)).append ih
  | _ => assumption

/-- A string that does not end is at fault from its start on. Every fault of another string stands
before its end, which is behind `start`. -/
def Fault.Ending (start stop : Nat) (faults : List Fault) : Prop :=
  (∃ f ∈ faults, f.start = 0) ∨ start < stop ∧ ∀ f ∈ faults, f.start < stop

namespace Fault.Ending

variable {fs gs : List Fault} {start next stop : Nat}

/-- Faults may come in front of the rest of a string. -/
theorem behind (hfs : Within next fs) (h : Ending next stop gs) : Ending next stop (fs ++ gs) := by
  rcases h with ⟨f, hf, hzero⟩ | ⟨hlt, hgs⟩
  · exact .inl ⟨f, List.mem_append_right fs hf, hzero⟩
  · right
    constructor
    · exact hlt
    · apply List.forall_mem_append.2 ⟨fun f hf ↦ ?_, hgs⟩
      obtain ⟨hle, hnext⟩ := hfs f hf
      omega

theorem earlier (h : Ending next stop fs) (hle : start ≤ next) : Ending start stop fs :=
  h.imp_right fun h ↦ ⟨Nat.lt_of_le_of_lt hle h.1, h.2⟩

end Fault.Ending

theorem ending_interpolatedBody (hscan : ∀ text, Within (scan text).length (scan text).faults)
    (o : Opening) (multiLine : Bool) (textStart start : Nat) (text : List Char) :
    Ending start (interpolatedBody o multiLine scan inDirective textStart start text).stop
      (interpolatedBody o multiLine scan inDirective textStart start text).faults := by
  fun_induction interpolatedBody o multiLine scan inDirective textStart start text with
  | case1 | case2 => exact .inl ⟨_, List.mem_singleton_self _, rfl⟩
  | case4 textStart start c cs _ _ _ run =>
    have hlt : start < (closedEnd o textStart start run (cs.drop (run - 1))).stop := by
      have hrun : 0 < run := by
        simp only [run]
        split <;> omega
      simp only [closedEnd]
      omega
    refine .inr ⟨hlt, fun f hf ↦ ?_⟩
    obtain ⟨-, hf⟩ := List.mem_ite_nil_right.1 hf
    rwa [List.mem_singleton.1 hf]
  | case6 textStart start c cs _ _ _ e ih =>
    exact (ih.behind (local_escape e start).within).earlier (Nat.le_add_right _ _)
  | case8 textStart start c cs _ _ _ _ length _ ih =>
    have hfault : Within (start + length) [⟨.rawTooManyOpenBraces, start, start⟩] :=
      .single (Nat.le_refl _) (Nat.le_add_right _ _)
    exact (ih.behind hfault).earlier (Nat.le_add_right _ _)
  | case9 textStart start c cs _ _ _ _ length _ holeStart part ih =>
    have hle : holeStart ≤ part.stop := by
      have htokens := le_stop_holeTokens scan inDirective 0 (holeStart + o.braces)
        (((c :: cs).drop length).drop o.braces)
      simp only [part, hole]
      omega
    have hhole := within_hole hscan o multiLine inDirective holeStart ((c :: cs).drop length)
    exact (ih.behind hhole).earlier (Nat.le_trans (Nat.le_add_right _ _) hle)
  | case12 textStart start c cs _ _ _ _ _ _ _ _ ih =>
    have hfault : Within (start + 1) [⟨.unescapedCloseBrace, start, start⟩] :=
      .single (Nat.le_refl _) (Nat.le_add_right _ _)
    exact (ih.behind hfault).earlier (Nat.le_add_right _ _)
  | case3 textStart start c cs _ _ _ ih | case5 textStart start c cs _ _ _ _ _ ih
  | case7 textStart start c cs _ _ _ _ _ _ ih | case10 textStart start c cs _ _ _ _ _ _ _ ih
  | case11 textStart start c cs _ _ _ _ _ _ _ _ ih | case13 textStart start c cs _ _ _ _ _ ih =>
    exact ih.earlier (Nat.le_add_right _ _)

/-- Something is heard about every faulty string. -/
theorem heard_interpolatedBody (hscan : ∀ text, Within (scan text).length (scan text).faults)
    (hearly : ∀ text, text ≠ [] → Early (scan text).length (scan text).faults) (o : Opening)
    (multiLine : Bool) {textStart start : Nat} (hstart : 0 < start) {text : List Char}
    (h : (interpolatedBody o multiLine scan inDirective textStart start text).faults ≠ []) :
    Heard (interpolatedBody o multiLine scan inDirective textStart start text).faults 0
      (interpolatedBody o multiLine scan inDirective textStart start text).stop := by
  have hends := @ending_interpolatedBody scan inDirective hscan o multiLine textStart start text
  have hgives := @early_interpolatedBody scan inDirective hearly o multiLine textStart start text
  have hlong := le_stop_interpolatedBody scan o multiLine inDirective textStart start text
  generalize interpolatedBody o multiLine scan inDirective textStart start text = body
    at h hends hgives hlong ⊢
  obtain ⟨f, hf, hbefore⟩ : ∃ f ∈ body.faults, f.start < body.stop := by
    rcases hends with ⟨f, hf, hzero⟩ | ⟨-, hall⟩
    · exact ⟨f, hf, by omega⟩
    · obtain ⟨f, hf⟩ := List.exists_mem_of_ne_nil _ h
      exact ⟨f, hf, hall f hf⟩
  rcases mem_upToGivingUp hf with hmem | ⟨g, hg, herror⟩
  · exact ⟨f, hmem, Nat.zero_le _, hbefore⟩
  · exact ⟨g, hg, Nat.zero_le _, hgives g (upToGivingUp_subset _ hg) herror⟩

end Content

/-! ### Groups -/

theorem early_scanGroup (inDirective : Bool) (room : Nat) {text : List Char} (h : text ≠ []) :
    Early (scanGroup inDirective room text).length (scanGroup inDirective room text).faults := by
  have hplain (text : List Char) :
      Early (plainLexeme text).toGroup.length (plainLexeme text).toGroup.faults :=
    .of_not_givesUp (local_plainLexeme text).not_givesUp
  induction room generalizing text with
  | zero =>
    unfold scanGroup
    split
    · exact hplain text
    · intro f hf _
      obtain rfl := List.mem_singleton.1 hf
      exact List.length_pos_iff.2 h
  | succ room ih =>
    unfold scanGroup
    split
    · exact hplain text
    · exact early_interpolatedBody (fun _ ↦ ih) _ _ _ _ _

/-- The tokens of a scan match. -/
theorem matching_scanGroup (inDirective : Bool) (room : Nat) {text : List Char} (h : text ≠ []) :
    Matching (Heard (scanGroup inDirective room text).faults) .items
      ((scanGroup inDirective room text).pieces.map (Piece.mark text)) := by
  induction room generalizing text with
  | zero =>
    unfold scanGroup
    split
    · exact .single (single_plainLexeme h).1 .nil
    · exact .single rfl .nil
  | succ room ih =>
    unfold scanGroup
    split
    · exact .single (single_plainLexeme h).1 .nil
    · next o ho =>
      obtain ⟨characters, rest, htext, hlength, hopens, hplain⟩ := opens_of_opening? ho
      have hstart : text.take o.length = characters := by rw [htext, ← hlength, List.take_left]
      rw [← hstart] at hopens
      rw [← List.append_nil (List.map _ _)]
      have hscan : ScansMarks (scanGroup inDirective room) :=
        ⟨fun _ ↦ ih, fun _ ↦ length_scanGroup_pos inDirective room,
          le_length_scanGroup_of_givesUp inDirective room⟩
      refine .string rfl (fun _ ↦ hopens) (matching_interpolatedBody hscan (braces_pos ho) hplain
        _ o.length o.length rfl rfl ⟨.inr fun _ _ ↦ id, fun h ↦ ?_⟩) .nil
      refine Classical.byContradiction fun hfaults ↦ h ?_
      exact heard_interpolatedBody (within_scanGroup inDirective room)
        (fun _ ↦ early_scanGroup inDirective room) o _ (length_opening?_pos ho) hfaults

end CSharpCheck
