import CSharpCheck.CommandLine.Arguments
import CSharpCheck.CommandLine.FileTree
import CSharpCheck.Text.ControlSequence
import CSharpCheck.Text.LineFeeds
import CSharpCheck.Text.Utf8
import CSharpCheck.Validation

/-!
# Command-line sessions

What a command line asks for and what the session answers: the lines on standard output, the lines
on standard error and the exit code. A session is planned from its arguments alone; only a check
then needs the bytes of its source. Lines for the user, unlike those of the log, are written
without control sequences, and lines end with a line feed alone.
-/

namespace CSharpCheck

/-- A line for the user. -/
def userLine (text : String) : String :=
  String.ofList (withoutControlSequences text.toList) ++ "\n"

/-- The text of an output stream to which the lines are written. -/
def streamText (lines : List String) : String :=
  String.ofList (joinedLineFeeds (String.join lines).toList)

/-- A line on standard error. -/
inductive Message where
  /-- A line for the user. -/
  | plain (text : String)
  /-- A line of the log of a verbose session, with the part of the program that writes it. -/
  | log (part text : String)
  /-- The last line of the log of a check, which shows its duration in milliseconds. -/
  | finished (errors warnings : Nat)
  deriving DecidableEq, Repr

namespace Message

/-- The line, when the check has taken `elapsed` milliseconds. -/
def render (elapsed : String) : Message → String
  | .plain text => userLine text
  | .log part text => part ++ ": " ++ text ++ "\n"
  | .finished errors warnings =>
    "csval.syntax.validator: Validation finished in " ++ elapsed ++ " ms: " ++ toString errors ++
      " errors, " ++ toString warnings ++ " warnings\n"

end Message

/-- What a session leaves behind. -/
structure Outcome where
  exitCode : Nat
  /-- The lines on standard output. -/
  output : List String
  messages : List Message
  deriving DecidableEq, Repr

namespace Outcome

/-- The text on standard output. -/
def stdout (o : Outcome) : String := streamText (o.output.map userLine)

/-- The text on standard error, when the check has taken `elapsed` milliseconds. -/
def stderr (o : Outcome) (elapsed : String) : String :=
  streamText (o.messages.map (·.render elapsed))

end Outcome

/-- Where the text of a check comes from. -/
inductive Source where
  | standardInput
  | file (name : String)
  deriving DecidableEq, Repr

namespace Source

/-- The name of the source in diagnostics. -/
def display : Source → String
  | .standardInput => "STDIN"
  | .file name => name

/-- The source that the files of a command line name, if they are not too many. -/
def ofFiles? : (files : List String) → Option Source
  | [] | ["-"] => some .standardInput
  | [name] => some (.file name)
  | _ => none

end Source

/-- A check that a command line asks for. -/
structure Job where
  options : Options
  source : Source
  verbose : Bool
  quiet : Bool
  deriving DecidableEq, Repr

/-- What a command line asks for. -/
inductive Plan where
  /-- An answer that needs no source. -/
  | answer (outcome : Outcome)
  | check (job : Job)
  deriving DecidableEq, Repr

/-- The symbols in values that hold them separated by semicolons, sorted, each once. -/
def splitSymbols (values : List String) : List String :=
  let names := values.flatMap fun value ↦
    (value.splitOn ";").map fun name ↦ String.ofList (trim name.toList)
  ((names.filter (· ≠ "")).mergeSort fun a b ↦ decide (a ≤ b)).eraseDups

/-- The list in one line. -/
def inline (names : List String) : String :=
  let text := ", ".intercalate names
  if text = "" then "(none)" else text

namespace Options

/-- The word for the kind of source. -/
def kindText (o : Options) : String := if o.script then "script" else "regular"

/-- The log of the options of a session. -/
def messages (o : Options) : List Message :=
  ["Language version: " ++ o.version.display ++ " (" ++ o.version.resolve.display ++ ")",
   "Kind: " ++ o.kindText,
   "Symbols: " ++ inline o.symbols,
   "Features: " ++ inline o.features].map (.log "csval.cli.csval")

end Options

namespace Remark

/-- The remark in the log. -/
def message (r : Remark) : Message :=
  .log "csval.syntax.preprocessor" <|
    match r with
    | .directive name place => "Directive #" ++ name ++ " at " ++ place.format
    | .condition true => "Condition evaluated to True"
    | .condition false => "Condition evaluated to False"

end Remark

namespace Survey

/-- The log of the grammar. -/
def grammarMessages (s : Survey) (script : Bool) : List Message :=
  match s.stream with
  | none => []
  | some stream =>
    let begun := "Parsing " ++ toString stream.size ++ " tokens (script=" ++
      (if script then "True" else "False") ++ ")"
    let limit := (s.progress.bind (·.abandonedAt)).map fun index ↦
      "Nesting limit reached at token " ++ toString index
    let complete := s.progress.map fun progress ↦
      "Parse complete, " ++ toString (progress.found.countP (·.isGrammarError)) ++
        " syntax errors"
    (begun :: limit.toList ++ complete.toList).map (.log "csval.syntax.parser")

end Survey

namespace Job

/-- The log of reading a text. -/
def messages (j : Job) (text : List Char) (s : Survey) : List Message :=
  .log "csval.syntax.validator" ("Validating " ++ toString text.length ++ " characters as C# " ++
      j.options.gate.version.display ++ " (" ++ j.options.kindText ++ ")") ::
    s.remarks.map (·.message) ++ s.grammarMessages j.options.script

/-- Whether the session prints the diagnostic. -/
def shows (j : Job) (d : Diagnostic) : Bool := if d.isError then !j.quiet else j.verbose

/-- The outcome of checking a text. -/
def checkText (j : Job) (text : List Char) : Outcome :=
  let survey := Survey.ofText j.options.script j.options.symbols text
  let log := if j.verbose then j.options.messages ++ j.messages text survey else []
  match survey.verdict j.options.gate with
  | .error breakdown => ⟨1, [], log ++ [.plain ("Internal error: " ++ breakdown.message)]⟩
  | .ok v =>
    let finished := Message.finished v.diagnostics.errorCount v.diagnostics.warningCount
    { exitCode := if v.success then 0 else 1
      output := (v.diagnostics.filter j.shows).map (·.format j.source.display)
      messages := log ++ if j.verbose then [finished] else [] }

/-- The outcome of a check that has no text to check. -/
def refuse (j : Job) (text : String) : Outcome :=
  ⟨1, [], (if j.verbose then j.options.messages else []) ++ [.plain text]⟩

/-- The outcome of the check, given what reading the source has brought. -/
def run (j : Job) (input : Except ReadFailure (List UInt8)) : Outcome :=
  match input with
  | .error failure => j.refuse (failure.message (FilePath.ofText j.source.display).text)
  | .ok bytes =>
    match Utf8.decode bytes with
    | .error fault => j.refuse ("Error: input is not valid UTF-8: " ++ fault.message)
    | .ok text => j.checkText (lineFeeds text)

end Job

/-- The line for a version in the list of versions. -/
def versionLine (v : Version) : String :=
  if v = VersionChoice.default.resolve then v.display ++ " (default)"
  else if v = VersionChoice.latest.resolve then v.display ++ " (latest)"
  else v.display

/-- The first line of the help and of complaints about options. -/
def usageLine : String := "Usage: csval [OPTIONS] [FILE]"

/-- The help. -/
def helpLines : List String :=
  [usageLine,
   "",
   "  Validate the syntax of C# source.",
   "",
   "  If FILE is not supplied, or is \"-\", the source is read from standard input",
   "  (STDIN). The exit code is 0 when the source has no syntax errors and 1",
   "  otherwise.",
   "",
   "Options:",
   "  -v, --verbose          Enable verbose output (options, timing and warnings)",
   "  -q, --quiet            Suppress printing of syntax errors",
   "  --langversion VERSION  Use the syntax rules of a C# language version",
   "  --langversions         List supported C# language versions",
   "  --script               Validate using scripting rules",
   "  -d, --define NAME      Define NAME as a conditional compilation symbol",
   "  -f, --feature NAME     Enable experimental feature NAME",
   "  --version              Show the version and exit.",
   "  -h, --help             Show this message and exit."]

namespace ArgumentError

/-- The complaint about the error. An unknown option is answered with the usage. -/
def outcome (e : ArgumentError) : Outcome :=
  let usage :=
    match e with
    | .unknownOption _ => [usageLine, "Try 'csval -h' for help.", ""]
    | _ => []
  ⟨2, [], (usage ++ ["Error: " ++ e.message]).map .plain⟩

end ArgumentError

namespace Plan

/-- The plan for a check. Several files are refused only after the options have been logged. -/
def ofCheck (a : Arguments) (version : VersionChoice) : Plan :=
  let job : Job :=
    { options :=
        { version
          script := a.has .script
          symbols := splitSymbols (a.values .symbols)
          features := a.values .feature }
      source := (Source.ofFiles? a.files).getD .standardInput
      verbose := a.has .verbose
      quiet := a.has .quiet }
  if a.files.length ≤ 1 then .check job
  else
    .answer <| job.refuse <| "Expected at most one FILE, got " ++ toString a.files.length ++
      "\nhint: validate files one at a time"

/-- The plan for arguments that do not ask about the program itself. -/
def ofArguments (a : Arguments) : Plan :=
  if a.has .listVersions then .answer ⟨0, Version.all.map versionLine, []⟩
  else
    match (a.values .version).getLast? with
    | none => ofCheck a .default
    | some text =>
      match VersionChoice.ofText? text with
      | some version => ofCheck a version
      | none => .answer ⟨1, [], [.plain (VersionChoice.invalidMessage text)]⟩

/-- The plan for the words of a command line. Questions about the program itself come before all
others, the first of them counts. -/
def ofWords (words : List String) : Plan :=
  match Arguments.ofWords words with
  | .error e => .answer e.outcome
  | .ok a =>
    match a.switches.find? fun switch ↦ switch = .showVersion || switch = .help with
    | some .showVersion => .answer ⟨0, ["csval, version 0.1.0"], []⟩
    | some _ => .answer ⟨0, helpLines, []⟩
    | none => ofArguments a

/-- The outcome of a plan, where `read` gives what reading a source brings. -/
def run (p : Plan) (read : Source → Except ReadFailure (List UInt8)) : Outcome :=
  match p with
  | .answer outcome => outcome
  | .check job => job.run (read job.source)

end Plan

end CSharpCheck
