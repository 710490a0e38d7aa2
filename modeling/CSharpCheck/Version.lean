import CSharpCheck.Text.Blank

/-!
# Language versions

The concrete versions of the language, the names a user may choose a version by, and the order in
which the versions were released.
-/

namespace CSharpCheck

/-- A version that a source text can be checked against, oldest first. -/
inductive Version where
  | v1 | v2 | v3 | v4 | v5 | v6 | v7 | v7_1 | v7_2 | v7_3
  | v8 | v9 | v10 | v11 | v12 | v13 | v14 | preview
  deriving DecidableEq, Repr, Inhabited

namespace Version

/-- Every version, oldest first. -/
def all : List Version :=
  [.v1, .v2, .v3, .v4, .v5, .v6, .v7, .v7_1, .v7_2, .v7_3, .v8, .v9, .v10, .v11, .v12, .v13, .v14,
   .preview]

/-- A number that grows from version to version. The minor releases of version 7 lie between 700
and 800, and the preview comes after everything that is released. -/
def ordinal : Version → Nat
  | .v1 => 1 | .v2 => 2 | .v3 => 3 | .v4 => 4 | .v5 => 5 | .v6 => 6 | .v7 => 7
  | .v7_1 => 701 | .v7_2 => 702 | .v7_3 => 703
  | .v8 => 800 | .v9 => 900 | .v10 => 1000 | .v11 => 1100 | .v12 => 1200 | .v13 => 1300
  | .v14 => 1400
  | .preview => 0x7ffffffe

/-- The version as users read and write it. -/
def display : Version → String
  | .v1 => "1" | .v2 => "2" | .v3 => "3" | .v4 => "4" | .v5 => "5" | .v6 => "6" | .v7 => "7.0"
  | .v7_1 => "7.1" | .v7_2 => "7.2" | .v7_3 => "7.3"
  | .v8 => "8.0" | .v9 => "9.0" | .v10 => "10.0" | .v11 => "11.0" | .v12 => "12.0"
  | .v13 => "13.0" | .v14 => "14.0"
  | .preview => "preview"

/-- A version is at most another one when it came out no later. -/
instance : LE Version := ⟨fun v w ↦ v.ordinal ≤ w.ordinal⟩

instance (v w : Version) : Decidable (v ≤ w) :=
  inferInstanceAs (Decidable (v.ordinal ≤ w.ordinal))

/-- Every version is in the list of all versions. -/
theorem mem_all (v : Version) : v ∈ all := by
  cases v <;> decide

/-- Versions with the same ordinal are the same. -/
theorem ordinal_injective {v w : Version} (h : v.ordinal = w.ordinal) : v = w := by
  cases v <;> cases w <;> first | rfl | exact absurd h (by decide)

/-- The display names tell the versions apart. -/
theorem display_injective {v w : Version} (h : v.display = w.display) : v = w := by
  cases v <;> cases w <;> first | rfl | exact absurd h (by decide)

end Version

/-- What a user asks for: a concrete version, or a symbolic one that stands for some version. -/
inductive VersionChoice where
  | concrete (version : Version)
  | default
  | latestMajor
  | latest
  deriving DecidableEq, Repr, Inhabited

namespace VersionChoice

/-- Every choice: the default first, then the concrete versions, with the other symbolic ones
around the preview. -/
def all : List VersionChoice :=
  .default :: (Version.all.filter (· ≠ .preview)).map .concrete ++
    [.latestMajor, .concrete .preview, .latest]

/-- Whether the choice is a symbolic one. -/
def isSymbolic : VersionChoice → Bool
  | .concrete _ => false
  | _ => true

/-- The version a choice stands for. `latest` includes the preview, the other symbolic choices
mean the newest released version. -/
def resolve : VersionChoice → Version
  | .concrete v => v
  | .default | .latestMajor => .v14
  | .latest => .preview

/-- The choice as users write it. -/
def display : VersionChoice → String
  | .concrete v => v.display
  | .default => "default"
  | .latestMajor => "latestmajor"
  | .latest => "latest"

/-- The ordinal of a choice, in the numbering of `Version.ordinal`. -/
def ordinal : VersionChoice → Nat
  | .concrete v => v.ordinal
  | .default => 0
  | .latestMajor => 0x7ffffffd
  | .latest => 0x7fffffff

/-- Second spellings of concrete versions. -/
def aliases : List (String × Version) :=
  [("iso-1", .v1), ("iso-2", .v2), ("3.0", .v3), ("4.0", .v4), ("5.0", .v5), ("6.0", .v6),
   ("7", .v7), ("8", .v8), ("9", .v9), ("10", .v10), ("11", .v11), ("12", .v12), ("13", .v13),
   ("14", .v14)]

/-- Every spelling of every choice. -/
def spellings : List (String × VersionChoice) :=
  all.map (fun c ↦ (c.display, c)) ++ aliases.map (fun (s, v) ↦ (s, .concrete v))

/-- The choice that a text spells. Case does not count, nor does white space at the ends. -/
def ofText? (text : String) : Option VersionChoice :=
  spellings.lookup (String.ofList ((trim text.toList).map Char.toLower))

/-- The message for a text that spells no version. -/
def invalidMessage (text : String) : String :=
  "Invalid C# language version specification: " ++ text

end VersionChoice

end CSharpCheck
