import CSharpCheck.Text.Position

/-!
# Conditional blocks and regions

The blocks of directive lines that are open at some place of a text, innermost first. A block
knows whether its surroundings are active and whether it is active itself; the text of an inactive
block is excluded.
-/

namespace CSharpCheck

/-- The two kinds of blocks. -/
inductive BlockKind where
  | condition | region
  deriving DecidableEq, Repr, Inhabited

/-- An open block. -/
structure Block where
  kind : BlockKind
  /-- The name in the directive that opened the block. -/
  span : Span
  /-- Whether the text around the block is active. -/
  parentActive : Bool
  /-- Whether the text in the current branch is active. -/
  active : Bool
  /-- Whether no later branch can become active. -/
  branchTaken : Bool
  elseSeen : Bool
  deriving DecidableEq, Repr, Inhabited

/-- Open blocks, innermost first. -/
abbrev Blocks := List Block

namespace Blocks

/-- Whether text inside the blocks is active. -/
def active (blocks : Blocks) : Bool :=
  match blocks with
  | [] => true
  | b :: _ => b.active

/-- Whether some block of the kind is open. -/
def anyOpen (blocks : Blocks) (kind : BlockKind) : Bool := blocks.any (·.kind == kind)

end Blocks

namespace Block

/-- The block that a condition opens. In inactive surroundings no branch is ever active. -/
def opened (span : Span) (parentActive holds : Bool) : Block where
  kind := .condition
  span
  parentActive
  active := parentActive && holds
  branchTaken := holds || !parentActive
  elseSeen := false

/-- The region block in surroundings that are active or not. -/
def region (span : Span) (active : Bool) : Block where
  kind := .region
  span
  parentActive := active
  active
  branchTaken := false
  elseSeen := false

/-- The block at a further branch with a condition. -/
def elseIf (b : Block) (holds : Bool) : Block :=
  let active := b.parentActive && !b.branchTaken && holds
  { b with active, branchTaken := b.branchTaken || active }

/-- The block at its last branch. -/
def otherwise (b : Block) : Block :=
  { b with active := b.parentActive && !b.branchTaken, branchTaken := true, elseSeen := true }

/-- The block at a branch that comes after its last branch. -/
def misplacedBranch (b : Block) : Block := { b with active := false }

end Block

end CSharpCheck
