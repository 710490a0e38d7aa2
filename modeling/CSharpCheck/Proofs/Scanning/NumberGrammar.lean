import CSharpCheck.Proofs.Scanning.LiteralFaults

/-!
# The grammar of numbers

A number is an integer in decimal, hexadecimal or binary digits, or a real number. The scanner takes
whatever looks like one and decides afterwards, from the groups of digits that it has met. It finds
no fault with exactly the numbers of the grammar.
-/

namespace CSharpCheck

/-! ### The grammar -/

/-- The characters are digits and separators, the last of them a digit. -/
structure DigitRun (isDigit : Char → Bool) (ds : List Char) : Prop where
  all : ∀ c ∈ ds, (isDigit c || c == '_') = true
  last : ds.getLast?.any isDigit = true

/-- The characters are decimal digits and separators, the first and the last of them a digit. -/
structure Digits (ds : List Char) : Prop extends DigitRun Char.isDigit ds where
  first : ds.head?.any Char.isDigit = true

/-- The characters may follow the digits of an integer. -/
def IsIntegerSuffix (suffix : List Char) : Prop :=
  suffix.map Char.toLower ∈ [[], ['u'], ['l'], ['u', 'l'], ['l', 'u']]

/-- The characters may follow the digits of a real number. -/
def IsRealSuffix (suffix : List Char) : Prop :=
  suffix.map Char.toLower ∈ [[], ['f'], ['d'], ['m']]

/-- The characters are the fraction of a real number, with its dot. -/
inductive IsFraction (P : List Char → Prop) : List Char → Prop where
  | mk {ds : List Char} : P ds → IsFraction P ('.' :: ds)

/-- The characters are the exponent of a real number. -/
inductive IsExponent (P : List Char → Prop) : List Char → Prop where
  | mk {c : Char} {sign ds : List Char} : c = 'e' ∨ c = 'E' → sign ∈ [[], ['+'], ['-']] → P ds →
      IsExponent P (c :: (sign ++ ds))

/-- The characters are a number. -/
inductive IsNumber : List Char → Prop where
  | integer {digits suffix : List Char} : Digits digits → IsIntegerSuffix suffix →
      IsNumber (digits ++ suffix)
  | real {digits suffix : List Char} : Digits digits → IsRealSuffix suffix →
      IsNumber (digits ++ suffix)
  | power {digits exponent suffix : List Char} : Digits digits → IsExponent Digits exponent →
      IsRealSuffix suffix → IsNumber (digits ++ (exponent ++ suffix))
  | fraction {digits fraction exponent suffix : List Char} : digits = [] ∨ Digits digits →
      IsFraction Digits fraction → exponent = [] ∨ IsExponent Digits exponent →
      IsRealSuffix suffix → IsNumber (digits ++ (fraction ++ (exponent ++ suffix)))
  | hexadecimal {c : Char} {digits suffix : List Char} : c = 'x' ∨ c = 'X' →
      DigitRun isHexDigit digits → IsIntegerSuffix suffix →
      IsNumber ('0' :: c :: (digits ++ suffix))
  | binary {c : Char} {digits suffix : List Char} : c = 'b' ∨ c = 'B' →
      DigitRun (fun c ↦ c == '0' || c == '1') digits → IsIntegerSuffix suffix →
      IsNumber ('0' :: c :: (digits ++ suffix))

/-! ### Groups of digits -/

variable {p : Char → Bool} {ds rest text : List Char}

theorem all_digitGroup (p : Char → Bool) (text : List Char) :
    ∀ c ∈ digitGroup p text, (p c || c == '_') = true :=
  List.all_eq_true.1 List.all_takeWhile

theorem take_digitGroup (p : Char → Bool) (text : List Char) :
    text.take (digitGroup p text).length = digitGroup p text :=
  (List.prefix_iff_eq_take.1 (List.takeWhile_prefix _)).symm

/-- Characters of a class in front of something else are told from what follows them. -/
theorem eq_of_append_of_all {q : Char → Bool} {ds' rest' : List Char}
    (h : ds ++ rest = ds' ++ rest') (hall : ∀ c ∈ ds, q c = true) (hall' : ∀ c ∈ ds', q c = true)
    (hrest : ∀ c ∈ rest.head?, q c = false) (hrest' : ∀ c ∈ rest'.head?, q c = false) :
    ds = ds' ∧ rest = rest' := by
  have htake {ds rest : List Char} (hall : ∀ c ∈ ds, q c = true)
      (hrest : ∀ c ∈ rest.head?, q c = false) : (ds ++ rest).takeWhile q = ds := by
    have hnone : rest.takeWhile q = [] := by
      cases rest with
      | nil => rfl
      | cons c cs => exact List.takeWhile_cons_of_neg (by simp [hrest c rfl])
    rw [List.takeWhile_append_of_pos hall, hnone, List.append_nil]
  have heq : ds = ds' := by
    rw [← htake hall hrest, h, htake hall' hrest']
  subst heq
  exact ⟨rfl, List.append_cancel_left h⟩

/-- A group that ends with a digit is a run of digits. -/
theorem digitRun_iff (hp : p '_' = false) (hall : ∀ c ∈ ds, (p c || c == '_') = true) :
    DigitRun p ds ↔ endsWithDigit ds = true := by
  have hlast : ds.getLast?.any p = endsWithDigit ds := by
    unfold endsWithDigit
    cases hds : ds.getLast? with
    | none => rfl
    | some c =>
      have hc := hall c (List.mem_of_getLast? hds)
      by_cases hseparator : c = '_'
      · simp [hseparator, hp]
      · simp_all
  exact ⟨fun h ↦ hlast ▸ h.last, fun h ↦ ⟨hall, hlast ▸ h⟩⟩

/-- A group that starts and ends with a digit is a run of them. -/
theorem digits_iff (hall : ∀ c ∈ ds, (c.isDigit || c == '_') = true) :
    Digits ds ↔ endsWithDigit ds = true ∧ startsWithSeparator ds = false := by
  have hrun := digitRun_iff (p := Char.isDigit) rfl hall
  have hfirst (hne : ds ≠ []) :
      ds.head?.any Char.isDigit = true ↔ startsWithSeparator ds = false := by
    obtain ⟨c, cs, rfl⟩ := List.exists_cons_of_ne_nil hne
    have hc := hall c List.mem_cons_self
    by_cases hseparator : c = '_'
    · simp [startsWithSeparator, hseparator]
    · simp_all [startsWithSeparator]
  constructor
  · rintro ⟨hlast, hhead⟩
    refine ⟨hrun.1 hlast, (hfirst ?_).1 hhead⟩
    rintro rfl
    exact Bool.false_ne_true hlast.last
  · rintro ⟨hlast, hhead⟩
    refine ⟨hrun.2 hlast, (hfirst ?_).2 hhead⟩
    rintro rfl
    exact Bool.false_ne_true hlast

/-! ### Suffixes -/

/-- Whether a suffix of a number may start with the character. -/
def startsSuffix (c : Char) : Bool := ['u', 'l', 'f', 'd', 'm'].contains c.toLower

theorem eq_or_of_toLower {c d : Char} (h : c.toLower = d) : c = d ∨ c.val + 32 = d.val := by
  unfold Char.toLower at h
  split at h
  · exact .inr (congrArg Char.val h)
  · exact .inl h

/-- A suffix starts with one of ten letters. -/
theorem mem_of_startsSuffix {c : Char} (h : startsSuffix c = true) :
    c ∈ ['u', 'U', 'l', 'L', 'f', 'F', 'd', 'D', 'm', 'M'] := by
  have hletter {lower : Char} (upper : Char) (heq : c.toLower = lower)
      (hupper : upper.val + 32 = lower.val) : c = lower ∨ c = upper :=
    (eq_or_of_toLower heq).imp_right fun hval ↦
      Char.ext ((UInt32.add_left_inj 32).1 (hval.trans hupper.symm))
  simp only [startsSuffix, List.contains_eq_mem, decide_eq_true_eq, List.mem_cons, List.not_mem_nil,
    or_false] at h
  rcases h with h | h | h | h | h
  · rcases hletter 'U' h rfl with rfl | rfl <;> simp
  · rcases hletter 'L' h rfl with rfl | rfl <;> simp
  · rcases hletter 'F' h rfl with rfl | rfl <;> simp
  · rcases hletter 'D' h rfl with rfl | rfl <;> simp
  · rcases hletter 'M' h rfl with rfl | rfl <;> simp

/-- A class of characters without the letters of suffixes has none that a suffix starts with. -/
theorem false_of_startsSuffix {q : Char → Bool}
    (hq : ['u', 'U', 'l', 'L', 'f', 'F', 'd', 'D', 'm', 'M'].any q = false) {c : Char}
    (h : startsSuffix c = true) : q c = false := by
  rw [Bool.eq_false_iff]
  exact List.any_eq_false.1 hq c (mem_of_startsSuffix h)

/-! ### The parts of a number -/

/-- The characters are decimal digits and separators, in any order. -/
def DigitGroup (ds : List Char) : Prop := ∀ c ∈ ds, (c.isDigit || c == '_') = true

/-- The parts of a number without prefix, whose groups of digits may be malformed. -/
structure NumberParts (characters whole fraction exponent suffix : List Char) : Prop where
  eq : characters = whole ++ (fraction ++ (exponent ++ suffix))
  whole : DigitGroup whole
  fraction : fraction = [] ∨ IsFraction DigitGroup fraction
  exponent : exponent = [] ∨ IsExponent DigitGroup exponent
  suffix : ∀ c ∈ suffix.head?, startsSuffix c = true

theorem IsFraction.imp {P Q : List Char → Prop} (hPQ : ∀ ds, P ds → Q ds) {cs : List Char}
    (h : IsFraction P cs) : IsFraction Q cs := by
  obtain ⟨hds⟩ := h
  exact ⟨hPQ _ hds⟩

theorem IsExponent.imp {P Q : List Char → Prop} (hPQ : ∀ ds, P ds → Q ds) {cs : List Char}
    (h : IsExponent P cs) : IsExponent Q cs := by
  obtain ⟨hc, hsign, hds⟩ := h
  exact ⟨hc, hsign, hPQ _ hds⟩

/-- The digits of an exponent are told from its letter and its sign. -/
theorem IsExponent.unique {c c' : Char} {sign sign' ds ds' suffix suffix' : List Char}
    (h : c :: (sign ++ ds) ++ suffix = c' :: (sign' ++ ds') ++ suffix')
    (hsign : sign ∈ [[], ['+'], ['-']]) (hsign' : sign' ∈ [[], ['+'], ['-']])
    (hds : DigitGroup ds) (hds' : DigitGroup ds')
    (hsuffix : ∀ c ∈ suffix.head?, startsSuffix c = true)
    (hsuffix' : ∀ c ∈ suffix'.head?, startsSuffix c = true) :
    c = c' ∧ sign = sign' ∧ ds = ds' ∧ suffix = suffix' := by
  have hsigns {sign : List Char} (h : sign ∈ [[], ['+'], ['-']]) :
      ∀ c ∈ sign, (c == '+' || c == '-') = true := by
    simp only [List.mem_cons, List.not_mem_nil, or_false] at h
    rcases h with rfl | rfl | rfl <;> simp
  have hdigits {ds suffix : List Char} (hds : DigitGroup ds)
      (hsuffix : ∀ c ∈ suffix.head?, startsSuffix c = true) :
      ∀ c ∈ (ds ++ suffix).head?, (c == '+' || c == '-') = false := by
    cases ds with
    | nil =>
      exact fun c hc ↦ false_of_startsSuffix (q := fun c ↦ c == '+' || c == '-') (by decide)
        (hsuffix c hc)
    | cons d ds =>
      rintro c ⟨⟩
      have hd := hds d List.mem_cons_self
      rw [Bool.eq_false_iff]
      intro hsign
      rcases Bool.or_eq_true_iff.1 hsign with hsign | hsign
      · rw [beq_iff_eq.1 hsign] at hd
        exact Bool.false_ne_true hd
      · rw [beq_iff_eq.1 hsign] at hd
        exact Bool.false_ne_true hd
  have hdigit {suffix : List Char} (hsuffix : ∀ c ∈ suffix.head?, startsSuffix c = true) :
      ∀ c ∈ suffix.head?, (c.isDigit || c == '_') = false :=
    fun c hc ↦ false_of_startsSuffix (q := fun c ↦ c.isDigit || c == '_') (by decide) (hsuffix c hc)
  obtain ⟨hc, hrest⟩ := List.cons.inj h
  change sign ++ ds ++ suffix = sign' ++ ds' ++ suffix' at hrest
  rw [List.append_assoc, List.append_assoc] at hrest
  obtain ⟨heq, hrest⟩ := eq_of_append_of_all hrest (hsigns hsign) (hsigns hsign')
    (hdigits hds hsuffix) (hdigits hds' hsuffix')
  exact ⟨hc, heq, eq_of_append_of_all hrest hds hds' (hdigit hsuffix) (hdigit hsuffix')⟩

namespace NumberParts

variable {cs a f x s a' f' x' s' : List Char}

/-- Exponents and suffixes start with letters. -/
theorem false_of_mem_exponent (h : NumberParts cs a f x s) {q : Char → Bool}
    (hq : ['u', 'U', 'l', 'L', 'f', 'F', 'd', 'D', 'm', 'M'].any q = false)
    (he : q 'e' = false) (hE : q 'E' = false) : ∀ c ∈ (x ++ s).head?, q c = false := by
  rcases h.exponent with rfl | ⟨hc, -, -⟩
  · exact fun c hc ↦ false_of_startsSuffix hq (h.suffix c hc)
  · rintro c ⟨⟩
    rcases hc with rfl | rfl
    · exact he
    · exact hE

theorem false_of_mem_fraction (h : NumberParts cs a f x s) {q : Char → Bool}
    (hq : ['u', 'U', 'l', 'L', 'f', 'F', 'd', 'D', 'm', 'M'].any q = false)
    (he : q 'e' = false) (hE : q 'E' = false) (hdot : q '.' = false) :
    ∀ c ∈ (f ++ (x ++ s)).head?, q c = false := by
  rcases h.fraction with rfl | @⟨ds, -⟩
  · exact h.false_of_mem_exponent hq he hE
  · rintro c ⟨⟩
    exact hdot

/-- The digits of a number end where its fraction, its exponent or its suffix begins. -/
theorem false_of_mem_digits (h : NumberParts cs a f x s) :
    ∀ c ∈ (f ++ (x ++ s)).head?, (c.isDigit || c == '_') = false :=
  h.false_of_mem_fraction (by decide) (by decide) (by decide) (by decide)

/-- No part of a number without prefix starts with the letter of a prefix. -/
theorem not_prefixed (h : NumberParts cs a f x s) {c : Char} {rest : List Char}
    (hcs : cs = '0' :: c :: rest) : c ∉ ['x', 'X', 'b', 'B'] := by
  intro hc
  have hdigit : (c.isDigit || c == '_') = false := by
    simp only [List.mem_cons, List.not_mem_nil, or_false] at hc
    rcases hc with rfl | rfl | rfl | rfl <;> decide
  have heq : ['0'] ++ c :: rest = a ++ (f ++ (x ++ s)) := hcs.symm.trans h.eq
  obtain ⟨-, hrest⟩ := eq_of_append_of_all heq (List.forall_mem_singleton.2 (by decide)) h.whole
    (by rintro d ⟨⟩; exact hdigit) h.false_of_mem_digits
  have hnone := h.false_of_mem_fraction (q := (['x', 'X', 'b', 'B'].contains ·)) (by decide)
    (by decide) (by decide) (by decide) c (by rw [← hrest]; rfl)
  simp_all

theorem unique (h : NumberParts cs a f x s) (h' : NumberParts cs a' f' x' s') :
    a = a' ∧ f = f' ∧ x = x' ∧ s = s' := by
  obtain ⟨rfl, hbehind⟩ := eq_of_append_of_all (h.eq.symm.trans h'.eq) h.whole h'.whole
    h.false_of_mem_digits h'.false_of_mem_digits
  have hdigit := h.false_of_mem_exponent (q := fun c ↦ c.isDigit || c == '_') (by decide)
    (by decide) (by decide)
  have hdigit' := h'.false_of_mem_exponent (q := fun c ↦ c.isDigit || c == '_') (by decide)
    (by decide) (by decide)
  have hdot := h.false_of_mem_exponent (q := (· == '.')) (by decide) (by decide) (by decide)
  have hdot' := h'.false_of_mem_exponent (q := (· == '.')) (by decide) (by decide) (by decide)
  obtain ⟨rfl, hrest⟩ : f = f' ∧ x ++ s = x' ++ s' := by
    rcases h.fraction with rfl | @⟨ds, hds⟩
    · rcases h'.fraction with rfl | @⟨ds, -⟩
      · exact ⟨rfl, hbehind⟩
      · rw [List.nil_append] at hbehind
        have hfalse := hdot '.' (by rw [hbehind]; rfl)
        contradiction
    · rcases h'.fraction with rfl | @⟨ds', hds'⟩
      · rw [List.nil_append] at hbehind
        have hfalse := hdot' '.' (by rw [← hbehind]; rfl)
        contradiction
      · obtain ⟨rfl, hrest⟩ := eq_of_append_of_all (List.cons.inj hbehind).2 hds hds' hdigit hdigit'
        exact ⟨rfl, hrest⟩
  -- what a suffix starts with is not the letter of an exponent
  have hletter {c : Char} {cs suffix : List Char} (hc : c = 'e' ∨ c = 'E')
      (hsuffix : ∀ c ∈ suffix.head?, startsSuffix c = true) (heq : suffix = c :: cs) : False := by
    have hstarts := hsuffix c (by rw [heq]; rfl)
    rcases hc with rfl | rfl <;> contradiction
  rcases h.exponent with rfl | @⟨c, sign, ds, hc, hsign, hds⟩
  · rcases h'.exponent with rfl | ⟨hc, -, -⟩
    · exact ⟨rfl, rfl, rfl, hrest⟩
    · exact (hletter hc h.suffix hrest).elim
  · rcases h'.exponent with rfl | ⟨-, hsign', hds'⟩
    · exact (hletter hc h'.suffix hrest.symm).elim
    · obtain ⟨rfl, rfl, rfl, rfl⟩ := IsExponent.unique hrest hsign hsign' hds hds' h.suffix h'.suffix
      exact ⟨rfl, rfl, rfl, rfl⟩

/-- The characters are a number if all of their parts are well-formed. -/
structure WellFormed (whole fraction exponent : List Char) : Prop where
  whole : whole = [] ∨ Digits whole
  fraction : fraction = [] ∨ IsFraction Digits fraction
  exponent : exponent = [] ∨ IsExponent Digits exponent

end NumberParts

theorem Digits.group (h : Digits ds) : DigitGroup ds := h.all

/-- An integer suffix starts with a letter of suffixes. -/
theorem startsSuffix_of_suffix {suffix : List Char}
    (h : IsIntegerSuffix suffix ∨ IsRealSuffix suffix) : ∀ c ∈ suffix.head?, startsSuffix c = true := by
  cases suffix with
  | nil => exact fun c hc ↦ nomatch hc
  | cons c cs =>
    rintro d ⟨⟩
    simp only [IsIntegerSuffix, IsRealSuffix, List.map_cons, List.mem_cons, List.cons.injEq,
      List.not_mem_nil, reduceCtorEq, false_or, or_false] at h
    simp only [startsSuffix, List.contains_eq_mem, decide_eq_true_eq, List.mem_cons,
      List.not_mem_nil, or_false]
    grind

/-- Every character of a suffix is one that a suffix may start with. -/
theorem startsSuffix_of_mem_suffix {suffix : List Char}
    (h : IsIntegerSuffix suffix ∨ IsRealSuffix suffix) {c : Char} (hc : c ∈ suffix) :
    startsSuffix c = true := by
  have hlower : c.toLower ∈ suffix.map Char.toLower := List.mem_map_of_mem hc
  unfold IsIntegerSuffix IsRealSuffix at h
  rw [startsSuffix, List.contains_iff_mem]
  generalize suffix.map Char.toLower = letters at h hlower
  simp only [List.mem_cons, List.not_mem_nil, or_false] at h
  rcases h with (rfl | rfl | rfl | rfl | rfl) | (rfl | rfl | rfl | rfl) <;> grind

/-- No suffix has a separator. -/
theorem separator_not_mem_suffix {suffix : List Char}
    (h : IsIntegerSuffix suffix ∨ IsRealSuffix suffix) : '_' ∉ suffix := fun hmem ↦
  absurd (startsSuffix_of_mem_suffix h hmem) (by decide)

/-- A number consists of well-formed parts, or it has a prefix. -/
theorem IsNumber.exists_parts {cs : List Char} (h : IsNumber cs) :
    (∃ whole fraction exponent suffix, NumberParts cs whole fraction exponent suffix ∧
      NumberParts.WellFormed whole fraction exponent) ∨
    ∃ c digits suffix, cs = '0' :: c :: (digits ++ suffix) ∧ IsIntegerSuffix suffix ∧
      ((c = 'x' ∨ c = 'X') ∧ DigitRun isHexDigit digits ∨
        (c = 'b' ∨ c = 'B') ∧ DigitRun (fun c ↦ c == '0' || c == '1') digits) := by
  cases h with
  | @integer digits suffix hdigits hsuffix =>
    exact .inl ⟨digits, [], [], suffix, ⟨rfl, hdigits.group, .inl rfl, .inl rfl,
      startsSuffix_of_suffix (.inl hsuffix)⟩, .inr hdigits, .inl rfl, .inl rfl⟩
  | @real digits suffix hdigits hsuffix =>
    exact .inl ⟨digits, [], [], suffix, ⟨rfl, hdigits.group, .inl rfl, .inl rfl,
      startsSuffix_of_suffix (.inr hsuffix)⟩, .inr hdigits, .inl rfl, .inl rfl⟩
  | @power digits exponent suffix hdigits hexponent hsuffix =>
    exact .inl ⟨digits, [], exponent, suffix, ⟨rfl, hdigits.group, .inl rfl,
      .inr (hexponent.imp fun _ ↦ Digits.group), startsSuffix_of_suffix (.inr hsuffix)⟩,
      .inr hdigits, .inl rfl, .inr hexponent⟩
  | @fraction digits fraction exponent suffix hdigits hfraction hexponent hsuffix =>
    refine .inl ⟨digits, fraction, exponent, suffix, ⟨rfl, ?_,
      .inr (hfraction.imp fun _ ↦ Digits.group), hexponent.imp_right (·.imp fun _ ↦ Digits.group),
      startsSuffix_of_suffix (.inr hsuffix)⟩, hdigits, .inr hfraction, hexponent⟩
    rcases hdigits with rfl | hdigits
    · exact List.forall_mem_nil _
    · exact hdigits.group
  | hexadecimal hc hdigits hsuffix => exact .inr ⟨_, _, _, rfl, hsuffix, .inl ⟨hc, hdigits⟩⟩
  | binary hc hdigits hsuffix => exact .inr ⟨_, _, _, rfl, hsuffix, .inr ⟨hc, hdigits⟩⟩

/-! ### What the scanner takes -/

/-- The fraction at the beginning of the text, with its dot. -/
def fractionPart (text : List Char) : List Char := (fraction? text).elim [] ('.' :: ·)

/-- The exponent at the beginning of the text, with its letter and its sign. -/
def exponentPart (text : List Char) : List Char :=
  (exponent? text).elim [] fun (lead, ds) ↦ text.take (lead + ds.length)

/-- The type suffix at the beginning of the text. An integer may have the suffix of a real number,
but not the other way around. -/
def suffixPart (isReal : Bool) (text : List Char) : List Char :=
  text.take (if realSuffixLength text = 1 then 1 else if isReal then 0 else integerSuffixLength text)

theorem length_fractionPart (text : List Char) :
    (fractionPart text).length = ((fraction? text).map (·.length + 1)).getD 0 := by
  unfold fractionPart
  cases fraction? text <;> rfl

theorem isEmpty_fractionPart (text : List Char) :
    (fractionPart text).isEmpty = !(fraction? text).isSome := by
  unfold fractionPart
  cases fraction? text <;> rfl

theorem separator_fractionPart (text : List Char) :
    (fractionPart text).contains '_' = ((fraction? text).getD []).contains '_' := by
  unfold fractionPart
  cases fraction? text with
  | none => rfl
  | some ds => exact Bool.false_or _

theorem take_fractionPart (text : List Char) :
    text.take (fractionPart text).length = fractionPart text := by
  unfold fractionPart
  cases h : fraction? text with
  | none => rfl
  | some ds =>
    unfold fraction? at h
    split at h
    · split at h
      · cases h
        simp [take_digitGroup]
      · contradiction
    · contradiction

theorem startsWithSeparator_digitGroup (h : text.head? ≠ some '_') :
    startsWithSeparator (digitGroup p text) = false := by
  cases text with
  | nil => rfl
  | cons c cs =>
    have hc : c ≠ '_' := fun heq ↦ h (congrArg some heq)
    unfold startsWithSeparator digitGroup
    rw [List.takeWhile_cons]
    split
    · simpa using hc
    · rfl

theorem isFraction_cons_iff {P : List Char → Prop} : IsFraction P ('.' :: ds) ↔ P ds := by
  constructor
  · rintro ⟨h⟩
    exact h
  · exact .mk

/-- A fraction is well-formed if its digits end with one. They start with one in any case. -/
theorem fractionPart_wellFormed (text : List Char) :
    (fractionPart text = [] ∨ IsFraction DigitGroup (fractionPart text)) ∧
      (((fraction? text).map endsWithDigit).getD true = true ↔
        fractionPart text = [] ∨ IsFraction Digits (fractionPart text)) := by
  unfold fractionPart
  cases h : fraction? text with
  | none => simp
  | some ds =>
    unfold fraction? at h
    split at h
    · next cs =>
      split at h
      · next hfollows =>
        cases h
        have hall := all_digitGroup Char.isDigit cs
        have hhead : cs.head? ≠ some '_' := by
          intro hhead
          rw [digitFollows, hhead] at hfollows
          contradiction
        have hfirst := startsWithSeparator_digitGroup (p := Char.isDigit) hhead
        refine ⟨.inr ⟨hall⟩, ?_⟩
        simp only [Option.map_some, Option.getD_some, Option.elim_some, reduceCtorEq, false_or,
          isFraction_cons_iff, digits_iff hall, hfirst, and_true]
      · contradiction
    · contradiction

/-- An exponent is its letter, its sign and its digits. -/
theorem exponentPart_eq {lead : Nat} (h : exponent? text = some (lead, ds)) :
    ∃ c sign, exponentPart text = c :: (sign ++ ds) ∧ lead = 1 + sign.length ∧
      (c = 'e' ∨ c = 'E') ∧ sign ∈ [[], ['+'], ['-']] ∧ DigitGroup ds := by
  unfold exponentPart
  rw [h]
  unfold exponent? at h
  split at h
  · next c cs =>
    split at h
    · next hc =>
      simp only [Option.some.injEq, Prod.mk.injEq] at h
      obtain ⟨rfl, rfl⟩ := h
      have hletter : c = 'e' ∨ c = 'E' := by simpa using hc
      split
      · next hsign =>
        cases cs with
        | nil => contradiction
        | cons d ds =>
          have hd : d = '+' ∨ d = '-' := by simpa using hsign
          refine ⟨c, [d], ?_, rfl, hletter, ?_, all_digitGroup _ _⟩
          · simp only [Option.elim_some, List.drop_succ_cons, List.drop_zero]
            rw [show 1 + 1 + (digitGroup Char.isDigit ds).length =
              (digitGroup Char.isDigit ds).length + 1 + 1 by omega, List.take_succ_cons,
              List.take_succ_cons, take_digitGroup]
            rfl
          · rcases hd with rfl | rfl <;> simp
      · refine ⟨c, [], ?_, rfl, hletter, List.mem_cons_self, all_digitGroup _ _⟩
        simp only [Option.elim_some, List.drop_zero, Nat.add_zero]
        rw [Nat.add_comm, List.take_succ_cons, take_digitGroup]
        rfl
    · contradiction
  · contradiction

theorem length_exponentPart (text : List Char) : (exponentPart text).length =
    ((exponent? text).map fun (lead, ds) ↦ lead + ds.length).getD 0 := by
  cases h : exponent? text with
  | none =>
    unfold exponentPart
    rw [h]
    rfl
  | some found =>
    obtain ⟨lead, ds⟩ := found
    obtain ⟨c, sign, hpart, rfl, -⟩ := exponentPart_eq h
    simp only [hpart, List.length_cons, List.length_append, Option.map_some, Option.getD_some]
    omega

theorem separator_exponentPart (text : List Char) : (exponentPart text).contains '_' =
    (((exponent? text).map (·.2)).getD []).contains '_' := by
  cases h : exponent? text with
  | none =>
    unfold exponentPart
    rw [h]
    rfl
  | some found =>
    obtain ⟨lead, ds⟩ := found
    obtain ⟨c, sign, hpart, -, hc, hsign, -⟩ := exponentPart_eq h
    have hnone : (c :: sign).contains '_' = false := by
      simp only [List.mem_cons, List.not_mem_nil, or_false] at hsign
      rcases hc with rfl | rfl <;> rcases hsign with rfl | rfl | rfl <;> decide
    rw [hpart, ← List.cons_append, List.contains_append, hnone, Bool.false_or]
    rfl

theorem isEmpty_exponentPart (text : List Char) :
    (exponentPart text).isEmpty = !(exponent? text).isSome := by
  cases h : exponent? text with
  | none =>
    unfold exponentPart
    rw [h]
    rfl
  | some found =>
    obtain ⟨c, sign, hpart, -⟩ := exponentPart_eq h
    rw [hpart]
    rfl

theorem take_exponentPart (text : List Char) :
    text.take (exponentPart text).length = exponentPart text := by
  rw [length_exponentPart]
  unfold exponentPart
  cases exponent? text <;> rfl

/-- An exponent is well-formed if its digits start and end with one. -/
theorem exponentPart_wellFormed (text : List Char) :
    let powers := ((exponent? text).map (·.2)).getD []
    (exponentPart text = [] ∨ IsExponent DigitGroup (exponentPart text)) ∧
      ((((exponent? text).isSome && powers.isEmpty) = false ∧
          (powers.isEmpty || (endsWithDigit powers && !startsWithSeparator powers)) = true) ↔
        exponentPart text = [] ∨ IsExponent Digits (exponentPart text)) := by
  cases h : exponent? text with
  | none =>
    unfold exponentPart
    rw [h]
    simp
  | some found =>
    obtain ⟨lead, ds⟩ := found
    obtain ⟨c, sign, hpart, -, hc, hsign, hds⟩ := exponentPart_eq h
    rw [hpart]
    refine ⟨.inr ⟨hc, hsign, hds⟩, ?_⟩
    have hdigits : IsExponent Digits (c :: (sign ++ ds)) ↔ Digits ds := by
      refine ⟨fun hexponent ↦ ?_, .mk hc hsign⟩
      generalize hcs : c :: (sign ++ ds) = cs at hexponent
      obtain ⟨-, hsign', hds'⟩ := hexponent
      have hnone : ∀ c ∈ ([] : List Char).head?, startsSuffix c = true := nofun
      obtain ⟨-, -, rfl, -⟩ := IsExponent.unique
        (by rw [List.append_nil, List.append_nil, hcs]) hsign hsign' hds hds'.group hnone hnone
      exact hds'
    simp only [Option.map_some, Option.getD_some, Option.isSome_some, Bool.true_and, reduceCtorEq,
      false_or, hdigits, digits_iff hds]
    cases ds with
    | nil => simp [endsWithDigit]
    | cons d ds => simp

theorem isIntegerSuffix_take (text : List Char) :
    IsIntegerSuffix (text.take (integerSuffixLength text)) := by
  cases text with
  | nil => simp [IsIntegerSuffix]
  | cons c cs =>
    have hletters {first : Char} (second : Char) (hfirst : c.toLower = first) :
        let length := if cs.head?.map Char.toLower == some second then 2 else 1
        ((c :: cs).take length).map Char.toLower = [first] ∨
          ((c :: cs).take length).map Char.toLower = [first, second] := by
      simp only
      split
      · next hsecond =>
        cases cs with
        | nil => contradiction
        | cons d ds => exact .inr (by simpa [hfirst] using hsecond)
      · exact .inl (by simp [hfirst])
    simp only [integerSuffixLength, IsIntegerSuffix]
    split
    · next hfirst =>
      rcases hletters 'l' hfirst with h | h <;> rw [h] <;> simp
    · next hfirst =>
      rcases hletters 'u' hfirst with h | h <;> rw [h] <;> simp
    · simp

/-- What is taken as a suffix is one. -/
theorem suffixPart_wellFormed (isReal : Bool) (text : List Char) :
    IsRealSuffix (suffixPart isReal text) ∨
      isReal = false ∧ IsIntegerSuffix (suffixPart isReal text) := by
  unfold suffixPart
  split
  · next hreal =>
    left
    cases text with
    | nil => contradiction
    | cons c cs =>
      have hletter : ['f', 'd', 'm'].contains c.toLower = true := by
        refine Bool.not_eq_false _ ▸ fun hnone ↦ ?_
        rw [realSuffixLength, hnone] at hreal
        contradiction
      simpa [IsRealSuffix] using hletter
  · split
    · exact .inl (by simp [IsRealSuffix])
    · next hreal => exact .inr ⟨Bool.eq_false_iff.2 hreal, isIntegerSuffix_take text⟩

/-- A number starts with a digit, or with a dot in front of a fraction. -/
theorem exists_digits_of_numberStarts (h : numberStarts text = true) :
    text.head? ≠ some '_' ∧ (digitGroup Char.isDigit text ≠ [] ∨
      fractionPart (text.drop (digitGroup Char.isDigit text).length) ≠ []) := by
  unfold numberStarts at h
  split at h
  · next cs =>
    have hnone : digitGroup Char.isDigit ('.' :: cs) = [] :=
      List.takeWhile_cons_of_neg (by decide)
    have hfraction : fraction? ('.' :: cs) = some (digitGroup Char.isDigit cs) := if_pos h
    rw [hnone]
    refine ⟨by simp, .inr ?_⟩
    rw [List.length_nil, List.drop_zero, fractionPart, hfraction]
    exact List.cons_ne_nil _ _
  · next c cs _ =>
    refine ⟨?_, .inl ?_⟩
    · rintro ⟨⟩
      contradiction
    · exact List.length_pos_iff.1 (length_digitGroup_pos cs h)
  · contradiction

theorem faults_numberLexeme (length : Nat) (error : Option LexicalError) (features : List Feature) :
    (numberLexeme length error features).faults = [] ↔ error = none := by
  cases error <;> simp [numberLexeme]

/-- A number without prefix consists of parts, and it has no fault if they are well-formed. -/
theorem decimalNumber_parts {text : List Char} (hstarts : numberStarts text = true) :
    ∃ whole fraction exponent suffix,
      NumberParts (text.take (decimalNumber text).length) whole fraction exponent suffix ∧
        fraction = fractionPart (text.drop whole.length) ∧
        (whole ≠ [] ∨ fraction ≠ []) ∧
        (IsRealSuffix suffix ∨ (fraction = [] ∧ exponent = []) ∧ IsIntegerSuffix suffix) ∧
        ((decimalNumber text).faults = [] ↔ NumberParts.WellFormed whole fraction exponent) ∧
        (decimalNumber text).features = Feature.listed
          (if (whole ++ fraction ++ exponent).contains '_' then [.digitSeparators] else []) := by
  unfold decimalNumber
  extract_lets whole fraction wholeEnd exponent digitsEnd powers isReal valid rest suffix error
    separated
  obtain ⟨hfractionShape, hfraction⟩ := fractionPart_wellFormed (text.drop whole.length)
  obtain ⟨hexponentShape, hexponent⟩ := exponentPart_wellFormed (text.drop wholeEnd)
  have hwholeEnd : wholeEnd = whole.length + (fractionPart (text.drop whole.length)).length := by
    rw [length_fractionPart]
  have hdigitsEnd : digitsEnd = wholeEnd + (exponentPart (text.drop wholeEnd)).length := by
    rw [length_exponentPart]
  have hsuffix := suffixPart_wellFormed isReal rest
  refine ⟨whole, fractionPart (text.drop whole.length), exponentPart (text.drop wholeEnd),
    suffixPart isReal rest, ⟨?_, all_digitGroup _ _, hfractionShape, hexponentShape, ?_⟩, rfl, ?_,
    ?_, ?_, ?_⟩
  · show text.take (digitsEnd + suffix) = _
    rw [List.take_add, hdigitsEnd, List.take_add, take_exponentPart, hwholeEnd, List.take_add,
      take_fractionPart, take_digitGroup, List.append_assoc, List.append_assoc]
    rw [← hwholeEnd, ← hdigitsEnd]
    rfl
  · refine fun c hc ↦ startsSuffix_of_suffix ?_ c hc
    exact hsuffix.symm.imp_left (·.2)
  · exact (exists_digits_of_numberStarts hstarts).2
  · refine hsuffix.imp_right fun ⟨hreal, hinteger⟩ ↦ ⟨?_, hinteger⟩
    obtain ⟨hnone, hnone'⟩ := Bool.or_eq_false_iff.1 hreal
    refine ⟨List.isEmpty_iff.1 ?_, List.isEmpty_iff.1 ?_⟩
    · rw [isEmpty_fractionPart, Bool.not_eq_true']
      exact hnone
    · rw [isEmpty_exponentPart, Bool.not_eq_true']
      exact hnone'
  · have hwhole : (whole.isEmpty || endsWithDigit whole) = true ↔ whole = [] ∨ Digits whole := by
      have hfirst := startsWithSeparator_digitGroup (p := Char.isDigit)
        (exists_digits_of_numberStarts hstarts).1
      rw [Bool.or_eq_true, List.isEmpty_iff, digits_iff (all_digitGroup _ _)]
      exact or_congr_right (and_iff_left hfirst).symm
    have herror : error = none ↔ (exponent.isSome && powers.isEmpty) = false ∧ valid = true := by
      unfold error
      split
      · next hbad => simp [hbad]
      · next hgood =>
        rw [Bool.eq_false_iff.2 hgood]
        split <;> simp_all
    rw [faults_numberLexeme, herror]
    constructor
    · rintro ⟨hpowers, hvalid⟩
      obtain ⟨hrest, hdigits⟩ := Bool.and_eq_true_iff.1 hvalid
      obtain ⟨hfirst, hdecimals⟩ := Bool.and_eq_true_iff.1 hrest
      exact ⟨hwhole.1 hfirst, hfraction.1 hdecimals, hexponent.1 ⟨hpowers, hdigits⟩⟩
    · rintro ⟨hfirst, hdecimals, hdigits⟩
      obtain ⟨hpowers, hdigits⟩ := hexponent.2 hdigits
      exact ⟨hpowers, Bool.and_eq_true_iff.2 ⟨Bool.and_eq_true_iff.2
        ⟨hwhole.2 hfirst, hfraction.2 hdecimals⟩, hdigits⟩⟩
  · have hseparated : separated = (whole ++ fractionPart (text.drop whole.length) ++
        exponentPart (text.drop wholeEnd)).contains '_' := by
      show (whole ++ fraction.getD [] ++ powers).contains '_' = _
      simp only [List.contains_append, separator_fractionPart, separator_exponentPart]
      rfl
    rw [← hseparated]
    rfl

/-- A number without prefix has no fault if and only if the grammar has it. -/
theorem decimalNumber_faults_iff (hstarts : numberStarts text = true) :
    (decimalNumber text).faults = [] ↔ IsNumber (text.take (decimalNumber text).length) := by
  obtain ⟨whole, fraction, exponent, suffix, hparts, -, hne, hsuffix, hfaults, -⟩ :=
    decimalNumber_parts hstarts
  rw [hfaults]
  constructor
  · rintro ⟨hwhole, hfraction, hexponent⟩
    rw [hparts.eq]
    rcases hfraction with rfl | hfraction
    · have hdigits : Digits whole := hwhole.resolve_left (hne.resolve_right fun h ↦ h rfl)
      rcases hexponent with rfl | hexponent
      · rcases hsuffix with hreal | ⟨-, hinteger⟩
        · exact .real hdigits hreal
        · exact .integer hdigits hinteger
      · rw [List.nil_append]
        refine .power hdigits hexponent (hsuffix.resolve_right fun hinteger ↦ ?_)
        obtain ⟨hc, hsign, hds⟩ := hexponent
        exact absurd hinteger.1.2 (List.cons_ne_nil _ _)
    · refine .fraction hwhole hfraction hexponent (hsuffix.resolve_right fun hinteger ↦ ?_)
      obtain @⟨ds, hds⟩ := hfraction
      exact absurd hinteger.1.1 (List.cons_ne_nil _ _)
  · intro hnumber
    rcases hnumber.exists_parts with ⟨whole', fraction', exponent', suffix', hparts', hwellFormed⟩ |
      ⟨c, digits, suffix', heq, -, hc⟩
    · obtain ⟨rfl, rfl, rfl, -⟩ := hparts.unique hparts'
      exact hwellFormed
    · refine absurd ?_ (hparts.not_prefixed heq)
      rcases hc with ⟨rfl | rfl, -⟩ | ⟨rfl | rfl, -⟩ <;> simp

/-! ### Numbers with a prefix -/

/-- An integer suffix starts with one of four letters, none of which is a hexadecimal digit. -/
theorem mem_of_isIntegerSuffix {suffix : List Char} (h : IsIntegerSuffix suffix) :
    ∀ c ∈ suffix.head?, c ∈ ['u', 'U', 'l', 'L'] := by
  intro c hc
  have hletter := mem_of_startsSuffix (startsSuffix_of_suffix (.inl h) c hc)
  obtain ⟨cs, rfl⟩ := List.head?_eq_some_iff.1 hc
  simp only [IsIntegerSuffix, List.map_cons, List.mem_cons, List.cons.injEq, List.not_mem_nil,
    reduceCtorEq, false_or, or_false] at h
  have hlower : c.toLower = 'u' ∨ c.toLower = 'l' := by
    rcases h with h | h | h | h
    · exact .inl h.1
    · exact .inr h.1
    · exact .inl h.1
    · exact .inr h.1
  simp only [List.mem_cons, List.not_mem_nil, or_false] at hletter
  rcases hletter with rfl | rfl | rfl | rfl | rfl | rfl | rfl | rfl | rfl | rfl
  all_goals first | decide | exact absurd hlower (by decide)

/-- The digits behind a prefix are told from the suffix behind them. -/
theorem eq_of_prefixed {q : Char → Bool} {digits suffix digits' suffix' : List Char}
    (hq : ['u', 'U', 'l', 'L'].any q = false)
    (h : digits ++ suffix = digits' ++ suffix') (hdigits : ∀ c ∈ digits, q c = true)
    (hdigits' : ∀ c ∈ digits', q c = true) (hsuffix : IsIntegerSuffix suffix)
    (hsuffix' : IsIntegerSuffix suffix') : digits = digits' := by
  have hnone {suffix : List Char} (hsuffix : IsIntegerSuffix suffix) :
      ∀ c ∈ suffix.head?, q c = false :=
    fun c hc ↦ Bool.eq_false_iff.2 (List.any_eq_false.1 hq c (mem_of_isIntegerSuffix hsuffix c hc))
  exact (eq_of_append_of_all h hdigits hdigits' (hnone hsuffix) (hnone hsuffix')).1

/-- Whether the character is a digit behind the prefix. -/
def prefixedDigit (binary : Bool) : Char → Bool :=
  if binary then fun c ↦ c == '0' || c == '1' else isHexDigit

/-- The letter of a prefix. -/
def IsPrefixLetter (binary : Bool) (c : Char) : Prop :=
  if binary then c = 'b' ∨ c = 'B' else c = 'x' ∨ c = 'X'

/-- A number with a prefix consists of its prefix, its digits and its suffix. It has no fault if the
digits are a run of them. -/
theorem prefixedNumber_parts (binary : Bool) (c : Char) (cs : List Char) :
    ∃ digits suffix,
      ('0' :: c :: cs).take (prefixedNumber binary ('0' :: c :: cs)).length =
          '0' :: c :: (digits ++ suffix) ∧
        IsIntegerSuffix suffix ∧
        (∀ d ∈ digits, ((if binary then Char.isDigit else isHexDigit) d || d == '_') = true) ∧
        ((prefixedNumber binary ('0' :: c :: cs)).faults = [] ↔
          DigitRun (prefixedDigit binary) digits) ∧
        (prefixedNumber binary ('0' :: c :: cs)).features =
          Feature.listed ((if binary then [.binaryLiterals] else []) ++
            (if digits.contains '_' then [.digitSeparators] else []) ++
            if startsWithSeparator digits then [.leadingDigitSeparator] else []) := by
  unfold prefixedNumber
  extract_lets digits valid length
  have hall : ∀ d ∈ digits, _ := all_digitGroup _ _
  refine ⟨digits, (cs.drop digits.length).take (integerSuffixLength (cs.drop digits.length)), ?_,
    isIntegerSuffix_take _, hall, ?_, rfl⟩
  · have hdrop : ('0' :: c :: cs).drop length = cs.drop digits.length := by
      rw [show length = digits.length + 2 from Nat.add_comm 2 _]
      rfl
    have htake : cs.take digits.length = digits := take_digitGroup _ cs
    show ('0' :: c :: cs).take (length + _) = _
    rw [hdrop, show length + integerSuffixLength (cs.drop digits.length) =
      digits.length + integerSuffixLength (cs.drop digits.length) + 1 + 1 by omega,
      List.take_succ_cons, List.take_succ_cons, List.take_add, htake]
  · rw [faults_numberLexeme, ite_eq_left_iff]
    have hvalid : valid = true ↔ DigitRun (prefixedDigit binary) digits := by
      cases binary with
      | false =>
        show _ ↔ DigitRun isHexDigit digits
        rw [digitRun_iff (p := isHexDigit) (by decide) hall]
        simp [valid]
      | true =>
        show (endsWithDigit digits && digits.all fun c ↦ c == '0' || c == '1' || c == '_') = true ↔ _
        rw [Bool.and_eq_true, List.all_eq_true]
        constructor
        · rintro ⟨hlast, hbinary⟩
          exact (digitRun_iff (by decide) hbinary).2 hlast
        · intro hrun
          exact ⟨(digitRun_iff (by decide) hrun.all).1 hrun, hrun.all⟩
    rw [← hvalid]
    simp

/-- A number with a prefix has no fault if and only if the grammar has it. -/
theorem prefixedNumber_faults_iff {binary : Bool} {c : Char} (hc : IsPrefixLetter binary c)
    (cs : List Char) : (prefixedNumber binary ('0' :: c :: cs)).faults = [] ↔
      IsNumber (('0' :: c :: cs).take (prefixedNumber binary ('0' :: c :: cs)).length) := by
  obtain ⟨digits, suffix, htake, hsuffix, hall, hfaults, -⟩ := prefixedNumber_parts binary c cs
  rw [hfaults, htake]
  constructor
  · intro hrun
    cases binary with
    | false => exact .hexadecimal hc hrun hsuffix
    | true => exact .binary hc hrun hsuffix
  · intro hnumber
    rcases hnumber.exists_parts with ⟨whole, fraction, exponent, suffix', hparts, -⟩ |
      ⟨c', digits', suffix', heq, hsuffix', hrun⟩
    · refine absurd ?_ (hparts.not_prefixed rfl)
      cases binary <;> rcases hc with rfl | rfl <;> simp
    · obtain ⟨-, hletters⟩ := List.cons.inj heq
      obtain ⟨rfl, hrest⟩ := List.cons.inj hletters
      cases binary with
      | false =>
        rcases hrun with ⟨-, hrun⟩ | ⟨hletter, -⟩
        · exact eq_of_prefixed (by decide) hrest hall hrun.all hsuffix hsuffix' ▸ hrun
        · rcases hc with rfl | rfl <;> simp at hletter
      | true =>
        rcases hrun with ⟨hletter, -⟩ | ⟨-, hrun⟩
        · rcases hc with rfl | rfl <;> simp at hletter
        · have hdigits : ∀ d ∈ digits', (d.isDigit || d == '_') = true := by
            intro d hd
            have hbinary := hrun.all d hd
            simp only [Bool.or_eq_true, beq_iff_eq] at hbinary
            rcases hbinary with (rfl | rfl) | rfl <;> decide
          exact eq_of_prefixed (by decide) hrest hall hdigits hsuffix hsuffix' ▸ hrun

/-! ### Numbers -/

/-- A number has a prefix or not. -/
theorem number_eq (text : List Char) :
    (∃ binary c cs, text = '0' :: c :: cs ∧ IsPrefixLetter binary c ∧
        number text = prefixedNumber binary text) ∨
      number text = decimalNumber text := by
  unfold number
  split
  · next c cs =>
    split
    · next hc => exact .inl ⟨false, c, cs, rfl, by simpa [IsPrefixLetter] using hc, rfl⟩
    · split
      · next hc => exact .inl ⟨true, c, cs, rfl, by simpa [IsPrefixLetter] using hc, rfl⟩
      · exact .inr rfl
  · exact .inr rfl

/-- A number has no fault if and only if the grammar has it. -/
theorem number_faults_iff (hstarts : numberStarts text = true) :
    (number text).faults = [] ↔ IsNumber (text.take (number text).length) := by
  rcases number_eq text with ⟨binary, c, cs, rfl, hc, heq⟩ | heq
  · rw [heq]
    exact prefixedNumber_faults_iff hc cs
  · rw [heq]
    exact decimalNumber_faults_iff hstarts

/-! ### Features of numbers -/

/-- The characters start with a binary prefix. -/
def HasBinaryPrefix (cs : List Char) : Prop :=
  ∃ c rest, cs = '0' :: c :: rest ∧ (c = 'b' ∨ c = 'B')

/-- The characters start with a prefix and a separator behind it. -/
def HasLeadingSeparator (cs : List Char) : Prop :=
  ∃ c rest, cs = '0' :: c :: '_' :: rest ∧ c ∈ ['x', 'X', 'b', 'B']

/-- The features of a number are those of the characters `cs`. -/
structure NumberFeatures (cs : List Char) (features : List Feature) : Prop where
  binary : .binaryLiterals ∈ features ↔ HasBinaryPrefix cs
  separators : .digitSeparators ∈ features ↔ '_' ∈ cs
  leading : .leadingDigitSeparator ∈ features ↔ HasLeadingSeparator cs

theorem prefixedNumber_features {binary : Bool} {c : Char} (hc : IsPrefixLetter binary c)
    (cs : List Char) : NumberFeatures
      (('0' :: c :: cs).take (prefixedNumber binary ('0' :: c :: cs)).length)
      (prefixedNumber binary ('0' :: c :: cs)).features := by
  obtain ⟨digits, suffix, htake, hsuffix, -, -, hfeatures⟩ := prefixedNumber_parts binary c cs
  rw [htake, hfeatures]
  have hletter : c ∈ ['x', 'X', 'b', 'B'] ∧ c ≠ '_' ∧ (binary = true ↔ c = 'b' ∨ c = 'B') := by
    cases binary <;> rcases hc with rfl | rfl <;> decide
  obtain ⟨hmem, hseparator, hbinary⟩ := hletter
  refine ⟨?_, ?_, ?_⟩
  · rw [Feature.mem_listed]
    simp [Feature.lexical, HasBinaryPrefix, hbinary]
  · rw [Feature.mem_listed]
    simp [Feature.lexical, Ne.symm hseparator, separator_not_mem_suffix (.inl hsuffix)]
  · have hhead : startsWithSeparator digits = true ↔ ∃ rest, digits ++ suffix = '_' :: rest := by
      cases digits with
      | nil =>
        refine ⟨nofun, ?_⟩
        rintro ⟨rest, rfl⟩
        exact absurd List.mem_cons_self (separator_not_mem_suffix (.inl hsuffix))
      | cons d ds => simp [startsWithSeparator]
    have hprefix : HasLeadingSeparator ('0' :: c :: (digits ++ suffix)) ↔
        ∃ rest, digits ++ suffix = '_' :: rest := by
      constructor
      · rintro ⟨d, rest, heq, -⟩
        exact ⟨rest, (List.cons.inj (List.cons.inj heq).2).2⟩
      · rintro ⟨rest, heq⟩
        exact ⟨c, rest, by rw [heq], hmem⟩
    rw [Feature.mem_listed, hprefix, ← hhead]
    simp [Feature.lexical]

theorem decimalNumber_features (hstarts : numberStarts text = true) :
    NumberFeatures (text.take (decimalNumber text).length) (decimalNumber text).features := by
  obtain ⟨whole, fraction, exponent, suffix, hparts, -, -, hsuffix, -, hfeatures⟩ :=
    decimalNumber_parts hstarts
  have hnone := separator_not_mem_suffix (hsuffix.symm.imp_left And.right)
  refine ⟨?_, ?_, ?_⟩
  · rw [hfeatures, Feature.mem_listed]
    refine iff_of_false (by simp) ?_
    rintro ⟨c, rest, heq, rfl | rfl⟩ <;> exact hparts.not_prefixed heq (by simp)
  · rw [hfeatures, hparts.eq, Feature.mem_listed]
    simp [Feature.lexical, hnone]
  · rw [hfeatures, Feature.mem_listed]
    refine iff_of_false (by simp) ?_
    rintro ⟨c, rest, heq, hc⟩
    exact hparts.not_prefixed heq hc

/-- A number has the features of its prefix and of its separators. -/
theorem number_features (hstarts : numberStarts text = true) :
    NumberFeatures (text.take (number text).length) (number text).features := by
  rcases number_eq text with ⟨binary, c, cs, rfl, hc, heq⟩ | heq
  · rw [heq]
    exact prefixedNumber_features hc cs
  · rw [heq]
    exact decimalNumber_features hstarts

end CSharpCheck
