/-!
# Control sequences

Character sequences that a terminal obeys instead of showing them: an escape character and an
opening bracket, digits and marks as parameters, and a letter. Text for other readers is written
without them.
-/

namespace CSharpCheck

/-- Whether the character may be part of the parameters of a control sequence. -/
def isControlParameter (c : Char) : Bool := c.isDigit || c == ';' || c == '?'

/-- The length of the control sequence with which the text opens, or zero. -/
def controlSequenceLength (text : List Char) : Nat :=
  match text with
  | '\x1b' :: '[' :: cs =>
    let parameters := cs.takeWhile isControlParameter
    match cs.drop parameters.length with
    | c :: _ => if c.isAlpha then parameters.length + 3 else 0
    | [] => 0
  | _ => 0

/-- The text without its control sequences, which are found in one pass from the left. -/
def withoutControlSequences (text : List Char) : List Char :=
  match text with
  | [] => []
  | c :: cs =>
    match controlSequenceLength (c :: cs) with
    | 0 => c :: withoutControlSequences cs
    | n + 1 => withoutControlSequences (cs.drop n)
termination_by text.length
decreasing_by all_goals simp only [List.length_drop, List.length_cons]; omega

/-- Only an escape character opens a control sequence. -/
theorem controlSequenceLength_of_ne {c : Char} (cs : List Char) (h : c ≠ '\x1b') :
    controlSequenceLength (c :: cs) = 0 := by
  unfold controlSequenceLength
  split
  · next heq => exact absurd (List.cons.inj heq).1 h
  · rfl

/-- Text without escape characters stays as it is. -/
theorem withoutControlSequences_eq_self {text : List Char} (h : '\x1b' ∉ text) :
    withoutControlSequences text = text := by
  induction text with
  | nil => simp [withoutControlSequences]
  | cons c cs ih =>
    have hc : c ≠ '\x1b' := fun hc ↦ h (by simp [hc])
    rw [withoutControlSequences, controlSequenceLength_of_ne cs hc]
    simp only [ih fun hm ↦ h (List.mem_cons_of_mem c hm)]

end CSharpCheck
