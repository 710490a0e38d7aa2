import CSharpCheck.Text.Printable

/-!
# Quoted texts

The form in which a message shows a name: between quotes on one line, with escapes for what cannot
be printed. The quote is the apostrophe, unless the text has apostrophes and no double quotes.
-/

namespace CSharpCheck

/-- The number in lower-case hexadecimal digits, filled up with zeros to the width. -/
def hexText (width n : Nat) : List Char :=
  let digits := Nat.toDigits 16 n
  List.replicate (width - digits.length) '0' ++ digits

/-- The quote around a text. -/
def quoteFor (text : List Char) : Char :=
  if text.contains '\x27' && !text.contains '\x22' then '\x22' else '\x27'

/-- A character between quotes. -/
def quotedChar (quote c : Char) : List Char :=
  if c == quote || c == '\\' then ['\\', c]
  else if c == '\n' then ['\\', 'n']
  else if c == '\r' then ['\\', 'r']
  else if c == '\t' then ['\\', 't']
  else if isPrintable c then [c]
  else if c.toNat < 0x100 then '\\' :: 'x' :: hexText 2 c.toNat
  else if c.toNat < 0x10000 then '\\' :: 'u' :: hexText 4 c.toNat
  else '\\' :: 'U' :: hexText 8 c.toNat

/-- The text between quotes. -/
def quoted (text : List Char) : List Char :=
  let quote := quoteFor text
  quote :: text.flatMap (quotedChar quote) ++ [quote]

/-- A printable text without backslashes and quotes is quoted as it is. -/
theorem quoted_of_plain {text : List Char}
    (h : ∀ c ∈ text, isPrintable c = true ∧ c ≠ '\\' ∧ c ≠ '\x27') :
    quoted text = '\x27' :: text ++ ['\x27'] := by
  have hq : quoteFor text = '\x27' := by
    have hm : text.contains '\x27' = false := by
      simpa using fun hm ↦ (h _ hm).2.2 rfl
    simp only [quoteFor, hm, Bool.false_and, Bool.false_eq_true, ite_false]
  have hc : ∀ c ∈ text, quotedChar '\x27' c = [c] := by
    intro c hm
    obtain ⟨hp, hb, ha⟩ := h c hm
    have hn : c ≠ '\n' := by rintro rfl; exact absurd hp (by decide)
    have hr : c ≠ '\r' := by rintro rfl; exact absurd hp (by decide)
    have ht : c ≠ '\t' := by rintro rfl; exact absurd hp (by decide)
    simp [quotedChar, hp, hb, ha, hn, hr, ht]
  have hf : text.flatMap (quotedChar '\x27') = text := by
    clear hq h
    induction text with
    | nil => rfl
    | cons c cs ih =>
      rw [List.flatMap_cons, hc c List.mem_cons_self,
        ih fun d hd ↦ hc d (List.mem_cons_of_mem c hd)]
      rfl
  simp only [quoted, hq, hf]

end CSharpCheck
