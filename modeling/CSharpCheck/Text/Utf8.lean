/-!
# UTF-8

The strict decoding of bytes into characters. A first byte fixes how many bytes follow and which
values the second byte may have, so that every character has one encoding. Decoding stops at the
first place where the bytes encode no character, and says which bytes are at fault and why.
-/

namespace CSharpCheck.Utf8

/-- Why bytes encode no character. -/
inductive Reason where
  /-- The first byte starts no character. -/
  | badStart
  /-- A byte cannot continue the character. -/
  | badContinuation
  /-- The text ends inside the character. -/
  | cutShort
  deriving DecidableEq, Repr

/-- A place where bytes encode no character. -/
structure Fault where
  reason : Reason
  /-- The number of bytes before the place. -/
  start : Nat
  /-- The first byte at the place. -/
  byte : UInt8
  /-- The number of bytes at fault. -/
  length : Nat
  deriving DecidableEq, Repr

/-- What a first byte says about its character. -/
structure Lead where
  /-- The upper bits of the code point. -/
  bits : Nat
  /-- The number of bytes that follow. -/
  following : Nat
  /-- The least value of the second byte. -/
  low : UInt8
  /-- The greatest value of the second byte. -/
  high : UInt8
  deriving DecidableEq, Repr

/-- What a byte says when it is the first of a character. The ranges of the second byte leave out
what a shorter character encodes, the surrogates and what lies beyond Unicode. -/
def lead? (b : UInt8) : Option Lead :=
  let n := b.toNat
  if n < 0x80 then some ⟨n, 0, 0x80, 0xBF⟩
  else if n < 0xC2 then none
  else if n < 0xE0 then some ⟨n - 0xC0, 1, 0x80, 0xBF⟩
  else if n = 0xE0 then some ⟨n - 0xE0, 2, 0xA0, 0xBF⟩
  else if n = 0xED then some ⟨n - 0xE0, 2, 0x80, 0x9F⟩
  else if n < 0xF0 then some ⟨n - 0xE0, 2, 0x80, 0xBF⟩
  else if n = 0xF0 then some ⟨n - 0xF0, 3, 0x90, 0xBF⟩
  else if n < 0xF4 then some ⟨n - 0xF0, 3, 0x80, 0xBF⟩
  else if n = 0xF4 then some ⟨n - 0xF0, 3, 0x80, 0x8F⟩
  else none

/-- The code point whose upper bits are `bits` and whose lower bits stand in the next `count`
bytes, or the reason why there is none and the number of bytes that are right. -/
def codePoint (bits : Nat) (count : Nat) (low high : UInt8) (bytes : List UInt8) :
    Except (Reason × Nat) Nat :=
  match count, bytes with
  | 0, _ => .ok bits
  | _ + 1, [] => .error (.cutShort, 0)
  | count + 1, b :: rest =>
    if low ≤ b ∧ b ≤ high then
      match codePoint (64 * bits + (b.toNat - 0x80)) count 0x80 0xBF rest with
      | .ok n => .ok n
      | .error (reason, right) => .error (reason, right + 1)
    else .error (.badContinuation, 0)

/-- The characters that bytes encode, when `start` bytes come before them. -/
def decodeFrom (start : Nat) (bytes : List UInt8) : Except Fault (List Char) :=
  match bytes with
  | [] => .ok []
  | b :: rest =>
    match lead? b with
    | none => .error ⟨.badStart, start, b, 1⟩
    | some lead =>
      match codePoint lead.bits lead.following lead.low lead.high rest with
      | .error (reason, right) => .error ⟨reason, start, b, right + 1⟩
      | .ok n =>
        match decodeFrom (start + lead.following + 1) (rest.drop lead.following) with
        | .ok cs => .ok (Char.ofNat n :: cs)
        | .error fault => .error fault
termination_by bytes.length
decreasing_by simp only [List.length_drop, List.length_cons]; omega

/-- The bytes of the byte order mark. -/
def byteOrderMark : List UInt8 := [0xEF, 0xBB, 0xBF]

/-- The characters that bytes encode. One byte order mark at the beginning is left out and not
counted, and so is a beginning of it when nothing follows. -/
def decode (bytes : List UInt8) : Except Fault (List Char) :=
  if bytes.isPrefixOf byteOrderMark then .ok []
  else if byteOrderMark.isPrefixOf bytes then decodeFrom 0 (bytes.drop 3)
  else decodeFrom 0 bytes

namespace Reason

/-- The text that describes the reason. -/
def text : Reason → String
  | .badStart => "invalid start byte"
  | .badContinuation => "invalid continuation byte"
  | .cutShort => "unexpected end of data"

end Reason

namespace Fault

/-- The text that describes the fault. A single byte is shown, of several only the place. -/
def message (f : Fault) : String :=
  let place :=
    if f.length = 1 then
      "byte 0x" ++ String.ofList (Nat.toDigits 16 f.byte.toNat) ++ " in position " ++
        toString f.start
    else
      "bytes in position " ++ toString f.start ++ "-" ++ toString (f.start + f.length - 1)
  "'utf-8' codec can't decode " ++ place ++ ": " ++ f.reason.text

end Fault

/-- ASCII text decodes to itself. -/
theorem decodeFrom_ascii (start : Nat) {bytes : List UInt8} (h : ∀ b ∈ bytes, b.toNat < 0x80) :
    decodeFrom start bytes = .ok (bytes.map fun b ↦ Char.ofNat b.toNat) := by
  induction bytes generalizing start with
  | nil => rw [decodeFrom]; rfl
  | cons b rest ih =>
    have hb : lead? b = some ⟨b.toNat, 0, 0x80, 0xBF⟩ := by
      simp [lead?, h b List.mem_cons_self]
    rw [decodeFrom, hb]
    simp [codePoint, ih _ fun c hc ↦ h c (List.mem_cons_of_mem b hc)]

end CSharpCheck.Utf8
