/-!
# Command-line arguments

The words of a command line are switches, settings with a value, and files. Options and files may
be mixed; two dashes alone end the options. A word of one dash bundles switches by their letters,
and the last letter may be a setting, whose value is the rest of the word or the next word. A word
of two dashes is one option, whose value follows an equals sign or is the next word.
-/

namespace CSharpCheck

/-- An option without a value. -/
inductive Switch where
  | verbose | quiet | listVersions | script | showVersion | help
  deriving DecidableEq, Repr

/-- An option with a value. -/
inductive Setting where
  | version | symbols | feature
  deriving DecidableEq, Repr

/-- An option. -/
inductive CommandOption where
  | switch (switch : Switch)
  | setting (setting : Setting)
  deriving DecidableEq, Repr

namespace CommandOption

/-- The option of a word of two dashes. -/
def ofWord? : String → Option CommandOption
  | "--verbose" => some (.switch .verbose)
  | "--quiet" => some (.switch .quiet)
  | "--langversions" => some (.switch .listVersions)
  | "--script" => some (.switch .script)
  | "--version" => some (.switch .showVersion)
  | "--help" => some (.switch .help)
  | "--langversion" => some (.setting .version)
  | "--define" => some (.setting .symbols)
  | "--feature" => some (.setting .feature)
  | _ => none

/-- The option of a letter after one dash. -/
def ofLetter? : Char → Option CommandOption
  | 'v' => some (.switch .verbose)
  | 'q' => some (.switch .quiet)
  | 'h' => some (.switch .help)
  | 'd' => some (.setting .symbols)
  | 'f' => some (.setting .feature)
  | _ => none

end CommandOption

/-- Why words are no command line. -/
inductive ArgumentError where
  | unknownOption (option : String)
  | valueMissing (option : String)
  | valueUnexpected (option : String)
  deriving DecidableEq, Repr

namespace ArgumentError

/-- The text that describes the error. -/
def message : ArgumentError → String
  | .unknownOption option => "No such option: " ++ option
  | .valueMissing option => "Option '" ++ option ++ "' requires an argument."
  | .valueUnexpected option => "Option '" ++ option ++ "' does not take a value."

end ArgumentError

/-- What a command line says, each part in the order of the words. -/
structure Arguments where
  switches : List Switch
  settings : List (Setting × String)
  files : List String
  deriving DecidableEq, Repr

namespace Arguments

/-- The arguments of the empty command line. -/
def none : Arguments := ⟨[], [], []⟩

/-- The arguments with a switch more. -/
def addSwitch (a : Arguments) (switch : Switch) : Arguments :=
  { a with switches := a.switches ++ [switch] }

/-- The arguments with a setting more. -/
def addSetting (a : Arguments) (setting : Setting) (value : String) : Arguments :=
  { a with settings := a.settings ++ [(setting, value)] }

/-- The arguments with more files. -/
def addFiles (a : Arguments) (files : List String) : Arguments :=
  { a with files := a.files ++ files }

/-- Whether the switch is given. -/
def has (a : Arguments) (switch : Switch) : Bool := a.switches.contains switch

/-- The values of a setting. -/
def values (a : Arguments) (setting : Setting) : List String :=
  a.settings.filterMap fun (s, value) ↦ if s = setting then some value else .none

/-- The arguments with a setting whose value is attached to its word or is the next word, and
whether the next word is taken. -/
def readSetting (a : Arguments) (option : String) (setting : Setting)
    (attached next : Option String) : Except ArgumentError (Arguments × Bool) :=
  match attached, next with
  | some value, _ => .ok (a.addSetting setting value, false)
  | .none, some value => .ok (a.addSetting setting value, true)
  | .none, .none => .error (.valueMissing option)

/-- The arguments with the option of a word of two dashes. -/
def readWord (a : Arguments) (word : List Char) (next : Option String) :
    Except ArgumentError (Arguments × Bool) :=
  let option := String.ofList (word.takeWhile (· ≠ '='))
  let attached :=
    if word.contains '=' then some (String.ofList ((word.dropWhile (· ≠ '=')).drop 1)) else .none
  match CommandOption.ofWord? option with
  | .none => .error (.unknownOption option)
  | some (.setting setting) => a.readSetting option setting attached next
  | some (.switch switch) =>
    if attached.isSome then .error (.valueUnexpected option) else .ok (a.addSwitch switch, false)

/-- The arguments with the options of the letters after one dash. -/
def readLetters (a : Arguments) (letters : List Char) (next : Option String) :
    Except ArgumentError (Arguments × Bool) :=
  match letters with
  | [] => .ok (a, false)
  | c :: cs =>
    let option := String.ofList ['-', c]
    match CommandOption.ofLetter? c with
    | .none => .error (.unknownOption option)
    | some (.setting setting) =>
      a.readSetting option setting (if cs = [] then .none else some (String.ofList cs)) next
    | some (.switch switch) => (a.addSwitch switch).readLetters cs next

/-- The arguments with all the words. -/
def readAll (a : Arguments) (words : List String) : Except ArgumentError Arguments :=
  match words with
  | [] => .ok a
  | word :: rest =>
    let read :=
      match word.toList with
      | '-' :: '-' :: cs => a.readWord ('-' :: '-' :: cs) rest.head?
      | '-' :: c :: cs => a.readLetters (c :: cs) rest.head?
      | _ => .ok (a.addFiles [word], false)
    if word = "--" then .ok (a.addFiles rest)
    else
      match read with
      | .error e => .error e
      | .ok (a, taken) => a.readAll (rest.drop (if taken then 1 else 0))
termination_by words.length
decreasing_by simp only [List.length_drop, List.length_cons]; omega

/-- The arguments that words stand for. -/
def ofWords (words : List String) : Except ArgumentError Arguments := none.readAll words

end Arguments

end CSharpCheck
