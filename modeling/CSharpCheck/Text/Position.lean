/-!
# Positions in a text

A position names a place between two characters by line, column and offset. Lines and columns
count from one and offsets from zero; columns and offsets count characters. Moving over a
character is `Position.step`; moving over a stretch of text is `Position.after`.
-/

namespace CSharpCheck

/-- The characters that can end a line: LF, CR, NEL, LINE SEPARATOR, PARAGRAPH SEPARATOR. -/
def isLineEnd (c : Char) : Bool :=
  c == '\n' || c == '\r' || c == '\u0085' || c == '\u2028' || c == '\u2029'

/-- A place in a text, just before the character at `offset`. -/
structure Position where
  line : Nat
  column : Nat
  offset : Nat
  deriving DecidableEq, Repr, Inhabited

/-- A half-open stretch of text. -/
structure Span where
  start : Position
  stop : Position
  deriving DecidableEq, Repr, Inhabited

namespace Position

/-- The beginning of every text. -/
def first : Position := ⟨1, 1, 0⟩

/-- Whether a line ends with the character `c` when `following` comes after it. The CR of a CR LF
pair does not end its line, the LF does. -/
def endsLine (c : Char) (following : Option Char) : Bool :=
  isLineEnd c && !(c == '\r' && following == some '\n')

/-- The position just past the character `c`, which `following` comes after. -/
def step (p : Position) (c : Char) (following : Option Char) : Position :=
  if endsLine c following then ⟨p.line + 1, 1, p.offset + 1⟩
  else ⟨p.line, p.column + 1, p.offset + 1⟩

/-- The position `n` characters further on, when `text` starts at `p`. Past the end of the text
nothing moves. -/
def after (p : Position) : (text : List Char) → (n : Nat) → Position
  | _, 0 => p
  | [], _ + 1 => p
  | c :: cs, n + 1 => (p.step c cs.head?).after cs n

/-- Line and column in the parenthesised form of compiler messages. -/
def format (p : Position) : String :=
  "(" ++ toString p.line ++ "," ++ toString p.column ++ ")"

theorem after_zero (p : Position) (text : List Char) : p.after text 0 = p := by
  cases text <;> rfl

theorem after_nil (p : Position) (n : Nat) : p.after [] n = p := by
  cases n <;> rfl

/-- Every step moves the offset on by one. -/
theorem offset_step (p : Position) (c : Char) (following : Option Char) :
    (p.step c following).offset = p.offset + 1 := by
  unfold step
  split <;> rfl

/-- The offset counts the characters moved over. -/
theorem offset_after (p : Position) (text : List Char) (n : Nat) :
    (p.after text n).offset = p.offset + min n text.length := by
  induction text generalizing p n with
  | nil => simp [after_nil]
  | cons c cs ih =>
    cases n with
    | zero => simp [after_zero]
    | succ n =>
      rw [after, ih, offset_step, List.length_cons]
      omega

/-- Moving in two legs is moving once. -/
theorem after_after (p : Position) (text : List Char) (m n : Nat) :
    (p.after text m).after (text.drop m) n = p.after text (m + n) := by
  induction text generalizing p m with
  | nil => simp [after_nil]
  | cons c cs ih =>
    cases m with
    | zero => simp [after_zero]
    | succ m => simpa [after, Nat.succ_add] using ih (p.step c cs.head?) m

end Position

namespace Span

/-- The empty span at a position. -/
def point (p : Position) : Span := ⟨p, p⟩

/-- The number of characters from start to stop; negative when the ends are exchanged. -/
def length (s : Span) : Int := (s.stop.offset : Int) - s.start.offset

end Span

end CSharpCheck
