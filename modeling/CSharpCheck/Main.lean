import CSharpCheck.CommandLine.Session

/-!
# The program

Reads the source that the command line names, runs the session and prints its outcome.
-/

namespace CSharpCheck

/-- The failure of reading a file that an error of the operating system stands for. -/
def readFailure : IO.Error → ReadFailure
  | .noFileOrDirectory .. => .notFound
  | .permissionDenied _ number text => numbered number text
  | .inappropriateType _ number text => numbered number text
  | .invalidArgument _ number text => numbered number text
  | .otherError number text => numbered number text
  | e => .other 5 (toString e)
where
  /-- The failure that a number of the operating system stands for, which may come negated. -/
  numbered (number : UInt32) (text : String) : ReadFailure :=
    match min number.toNat (-number).toNat with
    | 2 => .notFound
    | 13 => .accessDenied
    | 20 => .notADirectory
    | 21 => .isADirectory
    | 36 => .nameTooLong
    | number => .other number text

/-- Everything that is left in the stream. -/
partial def readToEnd (stream : IO.FS.Stream) (read : ByteArray) : IO ByteArray := do
  let bytes ← stream.read 65536
  if bytes.isEmpty then return read else readToEnd stream (read ++ bytes)

/-- What reading a source brings. -/
def readSource (source : Source) : IO (Except ReadFailure (List UInt8)) := do
  match source with
  | .standardInput => return .ok (← readToEnd (← IO.getStdin) .empty).toList
  | .file name =>
    if name.contains '\x00' then return .error .nulInName
    else
      try
        return .ok (← IO.FS.readBinFile (FilePath.ofText name).text).toList
      catch e => return .error (readFailure e)

/-- A duration of nanoseconds in milliseconds with one decimal. -/
def millisecondsText (nanoseconds : Nat) : String :=
  let tenths := (nanoseconds + 50000) / 100000
  toString (tenths / 10) ++ "." ++ toString (tenths % 10)

/-- Prints an outcome and gives its exit code. -/
def printOutcome (started : Nat) (outcome : Outcome) : IO UInt32 := do
  IO.print outcome.stdout
  let stopped ← IO.monoNanosNow
  IO.eprint (outcome.stderr (millisecondsText (stopped - started)))
  return outcome.exitCode.toUInt32

end CSharpCheck

/-- Runs the session of a command line. -/
def main (words : List String) : IO UInt32 := do
  match CSharpCheck.Plan.ofWords words with
  | .answer outcome => CSharpCheck.printOutcome 0 outcome
  | .check job =>
    let input ← CSharpCheck.readSource job.source
    let started ← IO.monoNanosNow
    CSharpCheck.printOutcome started (job.run input)
