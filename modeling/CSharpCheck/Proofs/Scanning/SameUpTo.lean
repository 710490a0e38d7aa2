import CSharpCheck.Lexeme.Gap
import CSharpCheck.TokenSource

/-!
# Texts that are the same at first

Two texts may be the same up to some place and part there: at the end of a line, or in front of a
gap. Both texts have a character at that place that ends what stands in front of it: a line end, a
blank or the slash of a comment.
-/

namespace CSharpCheck

/-- What texts part at. -/
inductive Boundary where
  | lineEnd
  | gap
  deriving DecidableEq, Repr

/-- Whether the text begins with a blank or a block comment. -/
def opensGap : List Char → Bool
  | '/' :: '*' :: _ => true
  | c :: _ => isBlank c
  | [] => false

/-- The texts are the same for `n` characters. Then either a line ends in both of them, or a gap
opens, in the second text by a blank. -/
inductive SameUpTo : Boundary → (n : Nat) → (text other : List Char) → Prop where
  | atLineEnd {c : Char} {cs ds : List Char} : isLineEnd c = true →
      SameUpTo .lineEnd 0 (c :: cs) (c :: ds)
  | atGap {c d : Char} {cs ds : List Char} : opensGap (c :: cs) = true → isBlank d = true →
      SameUpTo .gap 0 (c :: cs) (d :: ds)
  | cons {b : Boundary} {n : Nat} {cs ds : List Char} (c : Char) : SameUpTo b n cs ds →
      SameUpTo b (n + 1) (c :: cs) (c :: ds)

/-! ### Characters at which texts part -/

/-- The characters that can stand where texts part: white space, the other blanks, and the slash
that opens a comment. -/
def partings : List Char :=
  ['\t', '\n', '\x0b', '\x0c', '\r', '\x1a', '\x1c', '\x1d', '\x1e', '\x1f', ' ', '/', '\u0085',
    '\u00a0', '\u1680', '\u2000', '\u2001', '\u2002', '\u2003', '\u2004', '\u2005', '\u2006',
    '\u2007', '\u2008', '\u2009', '\u200a', '\u2028', '\u2029', '\u202f', '\u205f', '\u3000',
    '\ufeff']

theorem mem_partings_of_toNat {c : Char} (h : c.toNat ∈ partings.map Char.toNat) :
    c ∈ partings := by
  obtain ⟨d, hd, heq⟩ := List.mem_map.1 h
  rwa [← Char.toNat_inj.1 heq]

theorem mem_partings_of_isSpace {c : Char} (h : isSpace c = true) : c ∈ partings := by
  refine mem_partings_of_toNat ?_
  simp only [isSpace, inRanges, List.any_cons, List.any_nil, Bool.or_false, Bool.or_eq_true,
    Bool.and_eq_true, decide_eq_true_eq] at h
  change c.toNat ∈ [0x9, 0xa, 0xb, 0xc, 0xd, 0x1a, 0x1c, 0x1d, 0x1e, 0x1f, 0x20, 0x2f, 0x85, 0xa0,
    0x1680, 0x2000, 0x2001, 0x2002, 0x2003, 0x2004, 0x2005, 0x2006, 0x2007, 0x2008, 0x2009, 0x200a,
    0x2028, 0x2029, 0x202f, 0x205f, 0x3000, 0xfeff]
  simp only [List.mem_cons, List.not_mem_nil, or_false]
  omega

theorem mem_partings_of_isLineEnd {c : Char} (h : isLineEnd c = true) : c ∈ partings := by
  simp only [isLineEnd, Bool.or_eq_true, beq_iff_eq] at h
  rcases h with (((rfl | rfl) | rfl) | rfl) | rfl <;> decide

theorem mem_partings_of_isBlank {c : Char} (h : isBlank c = true) : c ∈ partings := by
  simp only [isBlank, Bool.and_eq_true, Bool.or_eq_true, beq_iff_eq] at h
  rcases h.2 with (h | rfl) | rfl
  · exact mem_partings_of_isSpace h
  · decide
  · decide

theorem opensGap_cases {c : Char} {cs : List Char} (h : opensGap (c :: cs) = true) :
    isBlank c = true ∨ (c = '/' ∧ ∃ ds, cs = '*' :: ds) := by
  unfold opensGap at h
  split at h
  · next heq =>
    cases heq
    exact .inr ⟨rfl, _, rfl⟩
  · next heq =>
    cases heq
    exact .inl h
  · contradiction

theorem mem_partings_of_opensGap {c : Char} {cs : List Char} (h : opensGap (c :: cs) = true) :
    c ∈ partings := by
  rcases opensGap_cases h with h | ⟨rfl, -⟩
  · exact mem_partings_of_isBlank h
  · decide

theorem not_isLineEnd_of_opensGap {c : Char} {cs : List Char} (h : opensGap (c :: cs) = true) :
    isLineEnd c = false := by
  rcases opensGap_cases h with h | ⟨rfl, -⟩
  · simp only [isBlank, Bool.and_eq_true, Bool.not_eq_true'] at h
    exact h.1
  · rfl

/-- What holds of none of the characters that texts can part at does not hold of such a one. -/
theorem false_of_mem_partings {p : Char → Bool} {c : Char} (hp : partings.any p = false)
    (hc : c ∈ partings) : p c = false :=
  Bool.eq_false_iff.2 (List.any_eq_false.1 hp c hc)

namespace SameUpTo

variable {b : Boundary} {m n : Nat} {c d : Char} {text other cs ds : List Char}

/-! ### First characters -/

/-- Where the texts do not start with the same character, they part at their beginning. -/
theorem cases_head (h : SameUpTo b n text other) :
    (∃ c cs ds, text = c :: cs ∧ other = c :: ds ∧ (n = 0 → c ∈ partings)) ∨
      ∃ c d cs ds, text = c :: cs ∧ other = d :: ds ∧ n = 0 ∧ b = .gap ∧
        opensGap (c :: cs) = true ∧ isBlank d = true := by
  cases h with
  | atLineEnd hc => exact .inl ⟨_, _, _, rfl, rfl, fun _ ↦ mem_partings_of_isLineEnd hc⟩
  | atGap hc hd => exact .inr ⟨_, _, _, _, rfl, rfl, rfl, rfl, hc, hd⟩
  | cons c _ => exact .inl ⟨_, _, _, rfl, rfl, nofun⟩

theorem ne_nil (h : SameUpTo b n text other) : text ≠ [] := by
  cases h <;> simp

theorem ne_nil_other (h : SameUpTo b n text other) : other ≠ [] := by
  cases h <;> simp

theorem lt_length (h : SameUpTo b n text other) : n < text.length := by
  induction h with
  | atLineEnd | atGap => simp
  | cons c _ ih => simpa using ih

theorem append (shared : List Char) (h : SameUpTo b n cs ds) :
    SameUpTo b (n + shared.length) (shared ++ cs) (shared ++ ds) := by
  induction shared with
  | nil => exact h
  | cons c shared ih => exact ih.cons c

/-- Where texts part at a gap no line ends. -/
theorem exists_getElem? (h : SameUpTo .gap n text other) :
    ∃ d, text[n]? = some d ∧ isLineEnd d = false := by
  generalize hb : Boundary.gap = b at h
  induction h with
  | atLineEnd => contradiction
  | atGap hc => exact ⟨_, rfl, not_isLineEnd_of_opensGap hc⟩
  | cons c _ ih => exact ih hb

theorem mem_partings (h : SameUpTo b 0 (c :: cs) (d :: ds)) : c ∈ partings ∧ d ∈ partings := by
  cases h with
  | atLineEnd hc => exact ⟨mem_partings_of_isLineEnd hc, mem_partings_of_isLineEnd hc⟩
  | atGap hc hd => exact ⟨mem_partings_of_opensGap hc, mem_partings_of_isBlank hd⟩

theorem of_pos (h : SameUpTo b n (c :: cs) other) (hn : 0 < n) :
    ∃ ds m, other = c :: ds ∧ n = m + 1 ∧ SameUpTo b m cs ds := by
  cases h with
  | atLineEnd | atGap => contradiction
  | cons _ h => exact ⟨_, _, rfl, rfl, h⟩

theorem of_cons (h : SameUpTo b n (c :: cs) other) (hc : c ∉ partings) :
    ∃ ds m, other = c :: ds ∧ n = m + 1 ∧ SameUpTo b m cs ds := by
  cases h with
  | atLineEnd hend => exact absurd (mem_partings_of_isLineEnd hend) hc
  | atGap hgap => exact absurd (mem_partings_of_opensGap hgap) hc
  | cons _ h => exact ⟨_, _, rfl, rfl, h⟩

theorem of_cons_cons (h : SameUpTo b n (c :: d :: cs) other) (hc : c ∉ partings)
    (hd : d ∉ partings) : ∃ ds m, other = c :: d :: ds ∧ n = m + 2 ∧ SameUpTo b m cs ds := by
  obtain ⟨_, m, rfl, rfl, htail⟩ := h.of_cons hc
  obtain ⟨ds, m, rfl, rfl, hrest⟩ := htail.of_cons hd
  exact ⟨ds, m, rfl, rfl, hrest⟩

theorem of_cons_other (h : SameUpTo b n text (d :: ds))
    (hd : isLineEnd d = false ∧ isBlank d = false) :
    ∃ cs m, text = d :: cs ∧ n = m + 1 ∧ SameUpTo b m cs ds := by
  cases h with
  | atLineEnd hend => exact absurd hend (by simp [hd.1])
  | atGap _ hblank => exact absurd hblank (by simp [hd.2])
  | cons _ h => exact ⟨_, _, rfl, rfl, h⟩

/-- A sign of two characters that the first text does not start with is none in the second. -/
theorem not_sign (h : SameUpTo b n (c :: cs) (c :: ds)) {e : Char}
    (hchars : (isLineEnd d = false ∧ isBlank d = false) ∧ isLineEnd e = false ∧ isBlank e = false)
    (hsign : ∀ rest, c = d → cs = e :: rest → False) : ∀ rest, c = d → ds = e :: rest → False := by
  rintro rest rfl rfl
  obtain ⟨_, _, hcs, -, htail⟩ := h.of_cons_other hchars.1
  cases hcs
  obtain ⟨_, _, rfl, -⟩ := htail.of_cons_other hchars.2
  exact hsign _ rfl rfl

/-- A line that ends in the first text ends in the second. -/
theorem exists_cons_of_isLineEnd (h : SameUpTo b n (c :: cs) other) (hc : isLineEnd c = true) :
    ∃ ds, other = c :: ds := by
  cases h with
  | atLineEnd | cons => exact ⟨_, rfl⟩
  | atGap hgap =>
    rw [not_isLineEnd_of_opensGap hgap] at hc
    contradiction

theorem head?_eq_of_lineEnd (h : SameUpTo .lineEnd n text other) : other.head? = text.head? := by
  cases h <;> rfl

/-- A question that is answered alike for all characters at which texts part is answered alike for
the first characters. -/
theorem map_head? {α : Type} {f : Char → α} {refusal : α} (h : SameUpTo b n text other)
    (hf : ∀ c ∈ partings, f c = refusal) : other.head?.map f = text.head?.map f := by
  rcases h.cases_head with ⟨c, cs, ds, rfl, rfl, -⟩ | ⟨c, d, cs, ds, rfl, rfl, -, -, hc, hd⟩
  · rfl
  · rw [List.head?_cons, List.head?_cons, Option.map_some, Option.map_some,
      hf c (mem_partings_of_opensGap hc), hf d (mem_partings_of_isBlank hd)]

theorem any_head? {p : Char → Bool} (h : SameUpTo b n text other) (hp : partings.any p = false) :
    other.head?.any p = text.head?.any p := by
  have hmap := h.map_head? (f := p) fun c ↦ false_of_mem_partings hp
  cases hother : other.head? <;> cases htext : text.head? <;> simp_all

theorem all_head? {p : Char → Bool} (h : SameUpTo b n text other) (hp : partings.any p = false) :
    other.head?.all p = text.head?.all p := by
  have hmap := h.map_head? (f := p) fun c ↦ false_of_mem_partings hp
  cases hother : other.head? <;> cases htext : text.head? <;> simp_all

theorem head?_iff (h : SameUpTo b n text other) (hc : c ∉ partings) :
    other.head? = some c ↔ text.head? = some c := by
  rcases h.cases_head with ⟨d, cs, ds, rfl, rfl, -⟩ | ⟨d, e, cs, ds, rfl, rfl, -, -, hd, he⟩
  · rfl
  · have hdc : d ≠ c := fun heq ↦ hc (heq ▸ mem_partings_of_opensGap hd)
    have hec : e ≠ c := fun heq ↦ hc (heq ▸ mem_partings_of_isBlank he)
    simp [hdc, hec]

theorem beq_head? (h : SameUpTo b n text other) (hc : c ∉ partings) :
    (other.head? == some c) = (text.head? == some c) := by
  rw [Bool.eq_iff_iff, beq_iff_eq, beq_iff_eq, h.head?_iff hc]

theorem head?_iff_of_isLineEnd (h : SameUpTo b n text other) (hc : isLineEnd c = true) :
    other.head? = some c ↔ text.head? = some c := by
  rcases h.cases_head with ⟨d, cs, ds, rfl, rfl, -⟩ | ⟨d, e, cs, ds, rfl, rfl, -, -, hd, he⟩
  · rfl
  · have hdc : d ≠ c := by
      rintro rfl
      rw [not_isLineEnd_of_opensGap hd] at hc
      contradiction
    have hec : e ≠ c := by
      rintro rfl
      rw [not_isLineEnd_of_isBlank he] at hc
      contradiction
    simp [hdc, hec]

theorem beq_head?_of_isLineEnd (h : SameUpTo b n text other) (hc : isLineEnd c = true) :
    (other.head? == some c) = (text.head? == some c) := by
  rw [Bool.eq_iff_iff, beq_iff_eq, beq_iff_eq, h.head?_iff_of_isLineEnd hc]

theorem isLineEnd_head? (h : SameUpTo b n text other) :
    other.head?.all isLineEnd = text.head?.all isLineEnd := by
  rcases h.cases_head with ⟨d, cs, ds, rfl, rfl, -⟩ | ⟨d, e, cs, ds, rfl, rfl, -, -, hd, he⟩
  · rfl
  · simp [not_isLineEnd_of_opensGap hd, not_isLineEnd_of_isBlank he]

theorem pos_of_head? (h : SameUpTo b n text other) (hhead : text.head? = some c)
    (hc : c ∉ partings) : 0 < n := by
  obtain ⟨cs, rfl⟩ := List.head?_eq_some_iff.1 hhead
  obtain ⟨-, m, -, rfl, -⟩ := h.of_cons hc
  exact Nat.succ_pos m

/-! ### Further on -/

theorem drop (h : SameUpTo b n text other) (hm : m ≤ n) :
    SameUpTo b (n - m) (text.drop m) (other.drop m) := by
  induction m generalizing n text other with
  | zero => exact h
  | succ m ih =>
    cases h with
    | atLineEnd | atGap => contradiction
    | @cons _ n _ _ c h =>
      rw [Nat.add_sub_add_right]
      exact ih h (Nat.le_of_succ_le_succ hm)

/-- The texts behind the first characters of texts that start with `c`. -/
theorem drop_tail (h : SameUpTo b n (c :: cs) (c :: ds)) (hpos : 0 < m) (hm : m ≤ n) :
    SameUpTo b (n - m) (cs.drop (m - 1)) (ds.drop (m - 1)) := by
  obtain ⟨m, rfl⟩ := Nat.exists_eq_add_one.2 hpos
  exact h.drop hm

theorem take (h : SameUpTo b n text other) (hm : m ≤ n) : other.take m = text.take m := by
  induction m generalizing n text other with
  | zero => rfl
  | succ m ih =>
    cases h with
    | atLineEnd | atGap => contradiction
    | cons c h => rw [List.take_succ_cons, List.take_succ_cons, ih h (Nat.le_of_succ_le_succ hm)]

/-- Positions are the same up to the place where the texts part. -/
theorem after_eq (h : SameUpTo b n text other) (p : Position) (hm : m ≤ n) :
    p.after other m = p.after text m := by
  induction m generalizing n text other p with
  | zero => rw [Position.after_zero, Position.after_zero]
  | succ m ih =>
    cases h with
    | atLineEnd | atGap => contradiction
    | @cons _ n cs ds c h =>
      have hstep : p.step c ds.head? = p.step c cs.head? := by
        rw [Position.step, Position.step, Position.endsLine, Position.endsLine,
          h.beq_head?_of_isLineEnd rfl]
      rw [Position.after, Position.after, hstep, ih h _ (Nat.le_of_succ_le_succ hm)]

/-! ### Runs of characters -/

/-- A run that ends before the texts part is the same. -/
theorem takeWhile_of_lt {p : Char → Bool} (h : SameUpTo b n text other)
    (hlength : (text.takeWhile p).length < n) : other.takeWhile p = text.takeWhile p := by
  induction h with
  | atLineEnd | atGap => contradiction
  | cons c _ ih =>
    cases hc : p c with
    | true => simpa [hc] using ih (by simpa [hc] using hlength)
    | false => simp [hc]

/-- A run that ends where the texts part is the same, if blanks and slashes may stand in it. -/
theorem takeWhile_of_le {p : Char → Bool} (h : SameUpTo b n text other)
    (hp : b = .gap → p '/' = true ∧ ∀ c, isBlank c = true → p c = true)
    (hlength : (text.takeWhile p).length ≤ n) : other.takeWhile p = text.takeWhile p := by
  induction h with
  | @atLineEnd c cs ds _ =>
    cases hc : p c with
    | true => simp [hc] at hlength
    | false => simp [hc]
  | @atGap c d cs ds hgap hd =>
    have hc : p c = true := by
      rcases opensGap_cases hgap with hc | ⟨rfl, -⟩
      · exact (hp rfl).2 c hc
      · exact (hp rfl).1
    simp [hc] at hlength
  | cons c _ ih =>
    cases hc : p c with
    | true => simpa [hc] using ih hp (by simpa [hc] using hlength)
    | false => simp [hc]

/-- A run in which no character stands that texts part at ends there at the latest. -/
theorem length_takeWhile_le {p : Char → Bool} (h : SameUpTo b n text other)
    (hp : partings.any p = false) : (text.takeWhile p).length ≤ n := by
  induction h with
  | atLineEnd hc => simp [false_of_mem_partings hp (mem_partings_of_isLineEnd hc)]
  | atGap hc => simp [false_of_mem_partings hp (mem_partings_of_opensGap hc)]
  | cons c _ ih =>
    rw [List.takeWhile_cons]
    split
    · simpa using ih
    · exact Nat.zero_le _

/-- A run in which no character stands that texts part at is the same. -/
theorem takeWhile_eq {p : Char → Bool} (h : SameUpTo b n text other)
    (hp : partings.any p = false) : other.takeWhile p = text.takeWhile p := by
  induction h with
  | atLineEnd hc => simp [false_of_mem_partings hp (mem_partings_of_isLineEnd hc)]
  | atGap hc hd =>
    simp [false_of_mem_partings hp (mem_partings_of_opensGap hc),
      false_of_mem_partings hp (mem_partings_of_isBlank hd)]
  | cons c _ ih => simp only [List.takeWhile_cons, ih]

/-- No run of characters that texts do not part at goes on further than the texts are the same. -/
theorem all_take_eq_false {p : Char → Bool} (h : SameUpTo b n text other)
    (hp : partings.any p = false) (hm : n < m) :
    (text.take m).all p = false ∧ (other.take m).all p = false := by
  induction h generalizing m with
  | atLineEnd hc =>
    obtain ⟨m, rfl⟩ := Nat.exists_eq_add_one.2 hm
    simp [false_of_mem_partings hp (mem_partings_of_isLineEnd hc)]
  | atGap hc hd =>
    obtain ⟨m, rfl⟩ := Nat.exists_eq_add_one.2 hm
    simp [false_of_mem_partings hp (mem_partings_of_opensGap hc),
      false_of_mem_partings hp (mem_partings_of_isBlank hd)]
  | cons c _ ih =>
    obtain ⟨m, rfl⟩ := Nat.exists_eq_add_one.2 (Nat.zero_lt_of_lt hm)
    obtain ⟨htext, hother⟩ := ih (Nat.lt_of_succ_lt_succ hm)
    simp only [List.take_succ_cons, List.all_cons, htext, hother, Bool.and_false, and_self]

theorem isPrefixOf (sign : List Char) (hsign : sign.all (· ∉ partings) = true)
    (h : SameUpTo b n text other) : sign.isPrefixOf other = sign.isPrefixOf text := by
  induction sign generalizing n text other with
  | nil => simp
  | cons e sign ih =>
    have hne {c : Char} (hc : c ∈ partings) : (e == c) = false := by
      rw [beq_eq_false_iff_ne]
      rintro rfl
      simp [hc] at hsign
    rw [List.all_cons, Bool.and_eq_true] at hsign
    cases h with
    | atLineEnd hc =>
      have hc := mem_partings_of_isLineEnd hc
      rw [List.isPrefixOf, List.isPrefixOf, hne hc, Bool.false_and, Bool.false_and]
    | atGap hc hd =>
      rw [List.isPrefixOf, List.isPrefixOf, hne (mem_partings_of_opensGap hc),
        hne (mem_partings_of_isBlank hd), Bool.false_and, Bool.false_and]
    | cons c h =>
      simp only [List.isPrefixOf, ih hsign.2 h]

theorem runLength_eq (h : SameUpTo b n text other) (hc : c ∉ partings) :
    runLength c other = runLength c text := by
  rw [runLength, runLength, h.takeWhile_eq]
  refine List.any_eq_false.2 fun d hd ↦ ?_
  rw [beq_iff_eq]
  rintro rfl
  exact hc hd

theorem runLength_le (h : SameUpTo b n text other) (hc : c ∉ partings) : runLength c text ≤ n := by
  refine h.length_takeWhile_le (List.any_eq_false.2 fun d hd ↦ ?_)
  rw [beq_iff_eq]
  rintro rfl
  exact hc hd

/-! ### Lines -/

theorem restOfLine_eq (h : SameUpTo b n text other) (hlength : (restOfLine text).length ≤ n) :
    restOfLine other = restOfLine text :=
  h.takeWhile_of_le (fun _ ↦ ⟨rfl, fun c hc ↦ by simp [not_isLineEnd_of_isBlank hc]⟩) hlength

/-- Where the texts part within the first line of the first, they do in that of the second. -/
theorem le_length_restOfLine (h : SameUpTo b n text other)
    (hlength : n ≤ (restOfLine text).length) : n ≤ (restOfLine other).length := by
  induction h with
  | atLineEnd | atGap => exact Nat.zero_le _
  | cons c h ih =>
    rw [restOfLine, List.takeWhile_cons] at hlength ⊢
    split at hlength
    · next hc =>
      rw [if_pos hc]
      exact Nat.succ_le_succ (ih (Nat.le_of_succ_le_succ hlength))
    · contradiction

/-- Texts that part at a line end are the same up to the end of their first line at least. -/
theorem length_restOfLine_le (h : SameUpTo .lineEnd n text other) :
    (restOfLine text).length ≤ n := by
  generalize hb : Boundary.lineEnd = b at h
  induction h with
  | atLineEnd hc => simp [restOfLine, hc]
  | atGap => contradiction
  | cons c _ ih =>
    rw [restOfLine, List.takeWhile_cons]
    split
    · exact Nat.succ_le_succ (ih hb)
    · exact Nat.zero_le _

/-- Texts that part behind their first line are the same up to the end of that line. -/
theorem toLineEnd (h : SameUpTo b n text other) (hlength : (restOfLine text).length < n) :
    SameUpTo .lineEnd (restOfLine text).length text other := by
  induction h with
  | atLineEnd | atGap => contradiction
  | cons c h ih =>
    rw [restOfLine, List.takeWhile_cons] at hlength ⊢
    split at hlength
    · next hc =>
      rw [if_pos hc]
      exact .cons c (ih (Nat.lt_of_succ_lt_succ hlength))
    · next hc =>
      rw [if_neg hc]
      exact .atLineEnd (by simpa using hc)

end SameUpTo

end CSharpCheck
