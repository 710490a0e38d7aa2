import CSharpCheck.Proofs.Scanning.OneLine
import CSharpCheck.Proofs.Scanning.Skipping
import CSharpCheck.Text.LineFeeds
import Mathlib.Order.Monotone.Basic

/-!
# Where the characters of a text with line feeds come from

In a text whose lines all end with LF, every character is spelled by one character of the text
before, or by a CR LF. Counting the characters that spell the first ones turns the offsets of the
one text into those of the other.
-/

namespace CSharpCheck

/-- LF for CR. -/
def lineFeed (c : Char) : Char := if c = '\r' then '\n' else c

/-- The number of characters that spell the first `n` characters of the text with line feeds. Past
its end every character counts as itself. -/
def spelledLength : List Char → Nat → Nat
  | _, 0 => 0
  | '\r' :: '\n' :: cs, n + 1 => spelledLength cs n + 2
  | _ :: cs, n + 1 => spelledLength cs n + 1
  | [], n + 1 => n + 1

/-- The characters that spell a text with line feeds are taken one by one, except for CR LF. -/
theorem lineFeeds_induction {motive : List Char → Prop} (nil : motive [])
    (cons : ∀ c cs, motive ((c :: cs).drop (lineEndLength (c :: cs))) → motive (c :: cs))
    (text : List Char) : motive text := by
  induction hlength : text.length using Nat.strongRecOn generalizing text with
  | ind length ih =>
    cases text with
    | nil => exact nil
    | cons c cs =>
      refine cons c cs (ih _ ?_ _ rfl)
      have hpos := length_lineEnd_pos c cs
      rw [List.length_drop, ← hlength, List.length_cons]
      omega

/-- Every character but the CR of a CR LF becomes one of the text with line feeds. -/
theorem lineFeeds_cons_of_not_pair {c : Char} {cs : List Char}
    (hpair : ¬(c = '\r' ∧ cs.head? = some '\n')) :
    lineFeeds (c :: cs) = lineFeed c :: lineFeeds cs := by
  by_cases hc : c = '\r'
  · subst hc
    rw [lineFeeds.eq_3]
    · rfl
    · rintro ds rfl
      exact hpair ⟨rfl, rfl⟩
  · rw [lineFeeds.eq_4 c cs (fun ds h ↦ absurd h hc) hc, lineFeed, if_neg hc]

theorem lineFeeds_cons (c : Char) (cs : List Char) :
    lineFeeds (c :: cs) = lineFeed c :: lineFeeds ((c :: cs).drop (lineEndLength (c :: cs))) := by
  rw [lineEndLength_cons]
  split
  · next hpair =>
    obtain ⟨rfl, hhead⟩ := hpair
    obtain ⟨ds, rfl⟩ := List.head?_eq_some_iff.1 hhead
    rfl
  · next hpair => exact lineFeeds_cons_of_not_pair hpair

theorem spelledLength_zero (text : List Char) : spelledLength text 0 = 0 := by
  cases text <;> rfl

theorem spelledLength_nil (n : Nat) : spelledLength [] n = n := by
  cases n <;> rfl

theorem spelledLength_cons (c : Char) (cs : List Char) (n : Nat) :
    spelledLength (c :: cs) (n + 1) =
      lineEndLength (c :: cs) + spelledLength ((c :: cs).drop (lineEndLength (c :: cs))) n := by
  by_cases hpair : c = '\r' ∧ cs.head? = some '\n'
  · obtain ⟨rfl, hhead⟩ := hpair
    obtain ⟨ds, rfl⟩ := List.head?_eq_some_iff.1 hhead
    exact Nat.add_comm _ _
  · rw [lineEndLength_cons, if_neg hpair, spelledLength]
    · exact Nat.add_comm _ _
    · rintro ds rfl rfl
      exact hpair ⟨rfl, rfl⟩

/-- Characters are counted in two legs. -/
theorem spelledLength_add (text : List Char) (m n : Nat) : spelledLength text (m + n) =
    spelledLength text m + spelledLength (text.drop (spelledLength text m)) n := by
  induction text using lineFeeds_induction generalizing m with
  | nil => simp [spelledLength_nil]
  | cons c cs ih =>
    cases m with
    | zero => rw [spelledLength_zero, Nat.zero_add, Nat.zero_add, List.drop_zero]
    | succ m =>
      rw [Nat.add_right_comm, spelledLength_cons, spelledLength_cons, ih, ← List.drop_drop,
        Nat.add_assoc]

theorem lt_spelledLength_one (text : List Char) : 0 < spelledLength text 1 := by
  cases text with
  | nil => exact Nat.one_pos
  | cons c cs =>
    rw [spelledLength_cons, spelledLength_zero]
    exact length_lineEnd_pos c cs

theorem strictMono_spelledLength (text : List Char) : StrictMono (spelledLength text) :=
  strictMono_nat_of_lt_succ fun n ↦ by
    have hpos := lt_spelledLength_one (text.drop (spelledLength text n))
    rw [spelledLength_add]
    omega

theorem drop_lineFeeds (text : List Char) (n : Nat) :
    (lineFeeds text).drop n = lineFeeds (text.drop (spelledLength text n)) := by
  induction text using lineFeeds_induction generalizing n with
  | nil => simp [lineFeeds]
  | cons c cs ih =>
    cases n with
    | zero => rfl
    | succ n => rw [lineFeeds_cons, List.drop_succ_cons, ih, spelledLength_cons, List.drop_drop]

theorem take_lineFeeds (text : List Char) (n : Nat) :
    (lineFeeds text).take n = lineFeeds (text.take (spelledLength text n)) := by
  induction text using lineFeeds_induction generalizing n with
  | nil => simp [lineFeeds]
  | cons c cs ih =>
    cases n with
    | zero => rw [spelledLength_zero]; rfl
    | succ n =>
      rw [lineFeeds_cons, List.take_succ_cons, ih, spelledLength_cons, lineEndLength_cons]
      split
      · next hpair =>
        obtain ⟨rfl, hhead⟩ := hpair
        obtain ⟨ds, rfl⟩ := List.head?_eq_some_iff.1 hhead
        rw [Nat.add_comm 2]
        rfl
      · next hpair =>
        rw [Nat.add_comm 1, List.take_succ_cons, lineFeeds_cons_of_not_pair]
        · rfl
        · rintro ⟨hc, hhead⟩
          refine hpair ⟨hc, ?_⟩
          rw [List.head?_take] at hhead
          split at hhead
          · contradiction
          · exact hhead

theorem spelledLength_length (text : List Char) :
    spelledLength text (lineFeeds text).length = text.length := by
  induction text using lineFeeds_induction with
  | nil => rfl
  | cons c cs ih =>
    have hle := length_lineEnd_le c cs
    rw [lineFeeds_cons, List.length_cons, spelledLength_cons, ih, List.length_drop]
    omega

/-- Up to the end of the first line every character is spelled by one. -/
theorem spelledLength_of_le {text : List Char} {n : Nat} (h : n ≤ (restOfLine text).length) :
    spelledLength text n = n := by
  induction text generalizing n with
  | nil => exact spelledLength_nil n
  | cons c cs ih =>
    cases n with
    | zero => rfl
    | succ n =>
      cases hc : isLineEnd c with
      | true =>
        rw [restOfLine_lineEnd hc] at h
        contradiction
      | false =>
        rw [restOfLine_cons hc] at h
        rw [spelledLength_cons, lineEndLength_of_not_isLineEnd hc, List.drop_succ_cons,
          List.drop_zero, ih (Nat.le_of_succ_le_succ h), Nat.add_comm]

theorem drop_lineFeeds_of_le {text : List Char} {n : Nat} (h : n ≤ (restOfLine text).length) :
    (lineFeeds text).drop n = lineFeeds (text.drop n) := by
  rw [drop_lineFeeds, spelledLength_of_le h]

/-- The place at the offset stands between the CR and the LF of a CR LF. -/
def PartsPair (text : List Char) (offset : Nat) : Prop :=
  text[offset - 1]? = some '\r' ∧ text[offset]? = some '\n'

instance (text : List Char) (offset : Nat) : Decidable (PartsPair text offset) :=
  inferInstanceAs (Decidable (_ ∧ _))

theorem PartsPair.of_drop {text : List Char} {lead offset : Nat}
    (h : PartsPair (text.drop lead) offset) : PartsPair text (lead + offset) := by
  obtain ⟨hcr, hlf⟩ := h
  rw [List.getElem?_drop] at hcr hlf
  refine ⟨?_, hlf⟩
  cases offset with
  | zero =>
    rw [hcr] at hlf
    exact absurd hlf (by decide)
  | succ offset => exact hcr

/-- All places but those inside of CR LF are places of the text with line feeds. -/
theorem mem_range_spelledLength {text : List Char} {offset : Nat} (h : ¬PartsPair text offset) :
    offset ∈ Set.range (spelledLength text) := by
  induction text using lineFeeds_induction generalizing offset with
  | nil => exact ⟨offset, spelledLength_nil offset⟩
  | cons c cs ih =>
    rcases Nat.lt_or_ge offset (lineEndLength (c :: cs)) with hlt | hle
    · have hzero : offset = 0 := by
        by_contra hne
        rw [lineEndLength_cons] at hlt
        split at hlt
        · next hpair =>
          obtain ⟨rfl, hhead⟩ := hpair
          obtain ⟨ds, rfl⟩ := List.head?_eq_some_iff.1 hhead
          obtain rfl : offset = 1 := by omega
          exact h ⟨rfl, rfl⟩
        · omega
      exact ⟨0, hzero.symm⟩
    · obtain ⟨k, rfl⟩ := Nat.exists_eq_add_of_le hle
      obtain ⟨n, hn⟩ := ih fun hpair ↦ h hpair.of_drop
      exact ⟨n + 1, by rw [spelledLength_cons, hn]⟩

theorem PartsPair.drop {text : List Char} {lead offset : Nat} (hoffset : 0 < offset)
    (h : PartsPair text (lead + offset)) : PartsPair (text.drop lead) offset := by
  obtain ⟨hcr, hlf⟩ := h
  rw [Nat.add_sub_assoc hoffset] at hcr
  exact ⟨by rw [List.getElem?_drop, hcr], by rw [List.getElem?_drop, hlf]⟩

theorem not_partsPair_spelledLength (text : List Char) (n : Nat) :
    ¬PartsPair text (spelledLength text n) := by
  induction text using lineFeeds_induction generalizing n with
  | nil =>
    rintro ⟨-, hlf⟩
    cases hlf
  | cons c cs ih =>
    cases n with
    | zero =>
      rw [spelledLength_zero]
      rintro ⟨hcr, hlf⟩
      rw [hcr] at hlf
      exact absurd hlf (by decide)
    | succ n =>
      rw [spelledLength_cons]
      intro h
      rcases Nat.eq_zero_or_pos (spelledLength ((c :: cs).drop (lineEndLength (c :: cs))) n) with
        hzero | hpos
      · -- a line end is over behind its own characters
        obtain ⟨hcr, hlf⟩ := h
        rw [hzero, Nat.add_zero, lineEndLength_cons] at hcr hlf
        split at hcr
        · next hpair =>
          obtain ⟨ds, rfl⟩ := List.head?_eq_some_iff.1 hpair.2
          exact absurd hcr (by simp)
        · next hpair =>
          rw [if_neg hpair] at hlf
          refine hpair ⟨Option.some.inj hcr, ?_⟩
          rwa [List.head?_eq_getElem?]
      · exact ih n (h.drop hpos)

theorem mem_range_spelledLength_iff {text : List Char} {offset : Nat} :
    offset ∈ Set.range (spelledLength text) ↔ ¬PartsPair text offset := by
  constructor
  · rintro ⟨n, rfl⟩
    exact not_partsPair_spelledLength text n
  · exact mem_range_spelledLength

/-! ### Scans of both texts -/

/-- The offsets from `fed` on in a text with line feeds are turned into those from `start` on in the
text before, whose rest is `text` there. -/
def SpelledFrom (φ : Nat → Nat) (start fed : Nat) (text : List Char) : Prop :=
  ∀ n, φ (fed + n) = start + spelledLength text n

namespace SpelledFrom

variable {φ : Nat → Nat} {start fed : Nat} {text : List Char}

theorem refl (text : List Char) : SpelledFrom (spelledLength text) 0 0 text := fun n ↦ by
  rw [Nat.zero_add, Nat.zero_add]

theorem here (h : SpelledFrom φ start fed text) : φ fed = start := by
  have hzero := h 0
  rwa [Nat.add_zero, spelledLength_zero] at hzero

theorem drop (h : SpelledFrom φ start fed text) (n : Nat) :
    SpelledFrom φ (start + spelledLength text n) (fed + n) (text.drop (spelledLength text n)) := by
  intro k
  rw [Nat.add_assoc, h, spelledLength_add, Nat.add_assoc]

theorem drop_of_le (h : SpelledFrom φ start fed text) {n : Nat}
    (hn : n ≤ (restOfLine text).length) :
    SpelledFrom φ (start + n) (fed + n) (text.drop n) := by
  have hdrop := h.drop n
  rwa [spelledLength_of_le hn] at hdrop

theorem add_mem_range (h : SpelledFrom φ start fed text) {n : Nat}
    (hn : n ∈ Set.range (spelledLength text)) : start + n ∈ Set.range φ := by
  obtain ⟨k, rfl⟩ := hn
  exact ⟨fed + k, h k⟩

/-- An offset behind `start` that is one of the text with line feeds is so in the rest of it. -/
theorem mem_range (h : SpelledFrom φ start fed text) (hφ : StrictMono φ) {n : Nat}
    (hn : start + n ∈ Set.range φ) : n ∈ Set.range (spelledLength text) := by
  obtain ⟨k, hk⟩ := hn
  have hle : fed ≤ k := by
    rw [← hφ.le_iff_le, hk, h.here]
    exact Nat.le_add_right start n
  obtain ⟨j, rfl⟩ := Nat.exists_eq_add_of_le hle
  rw [h j] at hk
  exact ⟨j, Nat.add_left_cancel hk⟩

end SpelledFrom

end CSharpCheck
