import CSharpCheck.Proofs.Directives.Blocks
import CSharpCheck.Proofs.Directives.Readers

/-!
# Conditional blocks

Whatever directive lines a text has, well nested or not, the flags of its open blocks agree with one
another and with those of the blocks around them. From when a condition opens a block to when the
block is closed, at most one of its branches is ever active.
-/

namespace CSharpCheck

/-! ### Flags that agree -/

/-- The flags of a block agree with one another. -/
structure Block.Sound (b : Block) : Prop where
  parentActive : b.active = true → b.parentActive = true
  taken : b.kind = .condition → b.active = true → b.branchTaken = true
  excluded : b.kind = .condition → b.parentActive = false → b.branchTaken = true
  last : b.kind = .condition → b.elseSeen = true → b.branchTaken = true
  region : b.kind = .region → b.active = b.parentActive

/-- The flags of every block agree with one another, and with whether the text around the block is
active. -/
inductive Blocks.Sound : Blocks → Prop where
  | nil : Sound []
  | cons {b : Block} {outer : Blocks} : b.Sound → b.parentActive = outer.active → Sound outer →
      Sound (b :: outer)

namespace Block

variable {b : Block}

theorem sound_opened (span : Span) (parentActive holds : Bool) :
    (opened span parentActive holds).Sound := by
  constructor <;> simp_all [opened]

theorem sound_region (span : Span) (active : Bool) : (region span active).Sound := by
  constructor <;> simp [region]

theorem Sound.elseIf (h : b.Sound) (hkind : b.kind = .condition) (hseen : b.elseSeen = false)
    (holds : Bool) : (b.elseIf holds).Sound := by
  have hexcluded := h.excluded hkind
  constructor <;> simp_all [Block.elseIf]

theorem Sound.otherwise (hkind : b.kind = .condition) : b.otherwise.Sound := by
  constructor <;> simp_all [Block.otherwise]

theorem Sound.misplacedBranch (h : b.Sound) (hkind : b.kind = .condition) :
    b.misplacedBranch.Sound := by
  have hexcluded := h.excluded hkind
  have hlast := h.last hkind
  constructor <;> simp_all [Block.misplacedBranch]

end Block

/-! ### What a directive line does to blocks -/

/-- What a reading step does to the open blocks. With `branch`, a directive would begin a further
branch of the innermost block. -/
inductive Blocks.Turn : (branch : Bool) → Blocks → Blocks → Prop where
  | stay (blocks : Blocks) : Turn false blocks blocks
  /-- The innermost block has no branches. -/
  | astray {blocks : Blocks} : (∀ b ∈ blocks.head?, b.kind = .region) → Turn true blocks blocks
  | openIf (span : Span) (holds : Bool) (blocks : Blocks) :
      Turn false blocks (.opened span blocks.active holds :: blocks)
  | openRegion (span : Span) (blocks : Blocks) :
      Turn false blocks (.region span blocks.active :: blocks)
  | close (b : Block) (outer : Blocks) : Turn false (b :: outer) outer
  | elseIf {b : Block} (outer : Blocks) (holds : Bool) : b.kind = .condition →
      b.elseSeen = false → Turn true (b :: outer) (b.elseIf holds :: outer)
  | otherwise {b : Block} (outer : Blocks) : b.kind = .condition →
      Turn true (b :: outer) (b.otherwise :: outer)
  | misplaced {b : Block} (outer : Blocks) : b.kind = .condition →
      b.elseSeen = true → Turn true (b :: outer) (b.misplacedBranch :: outer)

/-- The flags go on agreeing. -/
theorem Blocks.Turn.sound {branch : Bool} {blocks next : Blocks} (h : Turn branch blocks next)
    (hblocks : blocks.Sound) : next.Sound := by
  cases h with
  | stay | astray => exact hblocks
  | openIf span holds => exact .cons (Block.sound_opened span _ holds) rfl hblocks
  | openRegion span => exact .cons (Block.sound_region span _) rfl hblocks
  | close =>
    cases hblocks with
    | cons _ _ houter => exact houter
  | elseIf outer holds hkind hseen =>
    cases hblocks with
    | cons hb hparent houter => exact .cons (hb.elseIf hkind hseen holds) hparent houter
  | otherwise outer hkind =>
    cases hblocks with
    | cons _ hparent houter => exact .cons (.otherwise hkind) hparent houter
  | misplaced outer hkind =>
    cases hblocks with
    | cons hb hparent houter => exact .cons (hb.misplacedBranch hkind) hparent houter

/-- Whether the directive begins a further branch of a block. -/
def DirectiveName.beginsBranch : Option DirectiveName → Bool
  | some .elifName | some .elseName => true
  | _ => false

/-- Whether the remark says that a directive was processed that begins a further branch. -/
def Remark.beginsBranch : Remark → Bool
  | .directive name _ => DirectiveName.beginsBranch (DirectiveName.ofText? name)
  | .condition _ => false

/-- What a directive does to the open blocks is a turn of them. -/
theorem Blocks.Meets.turn {d : BlockDirective} {blocks next : Blocks} {misplaced : Bool}
    (h : Meets d blocks next misplaced) : Turn d.beginsBranch blocks next := by
  cases h with
  | openIf holds span => exact .openIf span holds blocks
  | region span => exact .openRegion span blocks
  | elseIf holds outer hkind hseen => exact .elseIf outer holds hkind hseen
  | otherwise outer hkind => exact .otherwise outer hkind
  | behindLast outer hd hkind hseen =>
    rw [hd]
    exact .misplaced outer hkind hseen
  | endIf | endRegion => exact .close _ _
  | astray hd hhead =>
    have hregion (h : d.expects = some .condition) : ∀ b ∈ blocks.head?, b.kind = .region := by
      intro b hb
      rw [h] at hd
      cases hd
      rw [show blocks.head? = some b from hb, Option.map_some, ne_eq, Option.some.injEq] at hhead
      cases hkind : b.kind with
      | condition => exact absurd hkind hhead
      | region => rfl
    cases d with
    | openIf | region => contradiction
    | elseIf | otherwise => exact .astray (hregion rfl)
    | endIf | endRegion => exact .stay _

namespace DirectiveState

variable (s : DirectiveState)

/-- The remarks on a directive line tell whether it begins a further branch. -/
theorem any_beginsBranch_process (script : Bool) (line : DirectiveLine) :
    (s.process script line).remarks.any Remark.beginsBranch =
      (BlockDirective.ofRemarks? (s.process script line).remarks).any (·.beginsBranch) := by
  have hnone {e : Effect} (h : e.remarks = []) : e.remarks.any Remark.beginsBranch =
      (BlockDirective.ofRemarks? e.remarks).any (·.beginsBranch) := by
    rw [h]
    rfl
  have hnameless := hnone (s.remarks_ifActive (s.unchanged [problemAt .directiveExpected line.hash])
    rfl)
  unfold process
  split
  · exact hnameless
  · next name args _ =>
    split
    · split
      · exact hnone rfl
      · exact hnameless
    · split
      · have hrest : (s.apply script (DirectiveName.ofText? name.text) name args
            line.stop).remarks.any Remark.beginsBranch = false := by
          rcases s.remarks_apply script (DirectiveName.ofText? name.text) name args line.stop with
            h | ⟨holds, h⟩ <;> rw [h] <;> rfl
        simp only [List.any_cons, hrest, Bool.or_false, Remark.beginsBranch,
          BlockDirective.ofRemarks?]
        cases DirectiveName.ofText? name.text with
        | none => rfl
        | some directive => cases directive <;> rfl
      · exact hnameless

/-- Every directive line makes a turn of the blocks. Its remarks say whether it begins a branch. -/
theorem turn_process (script : Bool) (line : DirectiveLine) :
    Blocks.Turn ((s.process script line).remarks.any Remark.beginsBranch) s.blocks
      (s.process script line).state.blocks := by
  obtain ⟨name, hfollows, -⟩ := s.follows_process script line
  rw [s.any_beginsBranch_process]
  cases hd : BlockDirective.ofRemarks? (s.process script line).remarks with
  | none =>
    rw [hfollows.stays hd]
    exact .stay s.blocks
  | some d => exact (hfollows.meets d hd).turn

end DirectiveState

/-- Whether a directive is processed in the step that begins a further branch of a block. -/
def Chunk.beginsBranch (c : Chunk) : Bool := c.remarks.any Remark.beginsBranch

/-- Every reading step makes a turn of the blocks. -/
theorem ActiveReader.turn_take (script : Bool) (r : ActiveReader) (reading : Reading) :
    Blocks.Turn (r.take script reading).1.beginsBranch r.state.blocks
      (r.take script reading).1.state.blocks := by
  unfold take
  split
  · exact .stay _
  · split
    · unfold endLine
      simp only [Chunk.beginsBranch]
      split
      · exact r.state.turn_process script _
      · exact .stay _
    · split
      · exact .stay _
      · split <;> exact .stay _

/-! ### The branches of a block -/

namespace Blocks

/-- The block at a depth, where the outermost block has depth zero. -/
def at? (blocks : Blocks) (depth : Nat) : Option Block := blocks.reverse[depth]?

theorem at?_cons (b : Block) (outer : Blocks) (depth : Nat) :
    at? (b :: outer) depth = if depth = outer.length then some b else outer.at? depth := by
  unfold at?
  rw [List.reverse_cons, List.getElem?_append, List.length_reverse]
  split
  · rw [if_neg (by omega)]
  · split
    · next heq => simp [heq]
    · next hne =>
      rw [List.getElem?_eq_none (by simp; omega), List.getElem?_eq_none (by simp; omega)]

theorem lt_length_of_at? {blocks : Blocks} {depth : Nat} {b : Block}
    (h : blocks.at? depth = some b) : depth < blocks.length := by
  obtain ⟨hlt, -⟩ := List.getElem?_eq_some_iff.1 h
  rwa [List.length_reverse] at hlt

/-- For each branch so far of the block at the depth, the latest first, whether the text in it is
active, when that was `branches` before a step from `blocks` to `next`. -/
def branchesAfter (depth : Nat) (blocks : Blocks) (branches : List Bool) (branch : Bool)
    (next : Blocks) : List Bool :=
  match next.at? depth with
  | none => []
  | some b =>
    if blocks.length ≤ depth then [b.active]
    else if branch && blocks.length == depth + 1 then b.active :: branches
    else branches

/-- What is known of the branches of the block at the depth: the latest one says whether the block
is active, at most one is active, and none is as long as a later one can be. -/
structure Branched (depth : Nat) (blocks : Blocks) (branches : List Bool) : Prop where
  latest : ∀ b ∈ blocks.at? depth, b.kind = .condition → branches.head? = some b.active
  count_le : ∀ b ∈ blocks.at? depth, b.kind = .condition → branches.count true ≤ 1
  count_eq : ∀ b ∈ blocks.at? depth, b.kind = .condition → b.branchTaken = false →
    branches.count true = 0

variable {depth : Nat} {blocks next outer : Blocks} {branches : List Bool} {branch : Bool}

/-- A region has no branches. -/
theorem branched_of_region (h : ∀ b ∈ blocks.at? depth, b.kind = .region) (branches : List Bool) :
    Branched depth blocks branches := by
  have hnot {b : Block} (hb : b ∈ blocks.at? depth) (hkind : b.kind = .condition) : False := by
    rw [h b hb] at hkind
    contradiction
  exact ⟨fun b hb hkind ↦ (hnot hb hkind).elim, fun b hb hkind ↦ (hnot hb hkind).elim,
    fun b hb hkind _ ↦ (hnot hb hkind).elim⟩

theorem branched_of_none (h : blocks.at? depth = none) (branches : List Bool) :
    Branched depth blocks branches :=
  branched_of_region (by simp [h]) branches

theorem Branched.congr (h : Branched depth blocks branches)
    (hat : next.at? depth = blocks.at? depth) : Branched depth next branches := by
  constructor <;> rw [hat]
  · exact h.latest
  · exact h.count_le
  · exact h.count_eq

/-- A step that begins no branch of the block changes nothing about its branches. -/
theorem Branched.keep (h : Branched depth blocks branches)
    (hat : next.at? depth = blocks.at? depth)
    (hbranch : branch = false ∨ blocks.length ≠ depth + 1) :
    Branched depth next (branchesAfter depth blocks branches branch next) := by
  unfold branchesAfter
  cases hnext : next.at? depth with
  | none => exact branched_of_none hnext []
  | some b =>
    have hlt := lt_length_of_at? (hat ▸ hnext)
    have hnone : (branch && blocks.length == depth + 1) = false := by
      rcases hbranch with rfl | hne
      · rfl
      · simp [hne]
    simp only [if_neg (Nat.not_le.2 hlt), hnone, Bool.false_eq_true, if_false]
    exact h.congr hat

/-- A block that is opened has one branch. -/
theorem Branched.push (h : Branched depth blocks branches) {c : Block} (hc : c.Sound) :
    Branched depth (c :: blocks) (branchesAfter depth blocks branches false (c :: blocks)) := by
  by_cases hdepth : depth = blocks.length
  · have hat : at? (c :: blocks) depth = some c := by simp [at?_cons, hdepth]
    have hone : branchesAfter depth blocks branches false (c :: blocks) = [c.active] := by
      rw [branchesAfter, hat]
      simp [hdepth]
    rw [hone]
    constructor
    · simp [hat]
    · exact fun _ _ _ ↦ List.count_le_length
    · intro d hd hkind htaken
      rw [hat] at hd
      cases hd
      have hactive : c.active = false := by
        rw [Bool.eq_false_iff]
        intro hactive
        rw [hc.taken hkind hactive] at htaken
        contradiction
      simp [hactive]
  · exact h.keep (by rw [at?_cons, if_neg hdepth]) (.inl rfl)

/-- A further branch can be active only if none was so far, and then none can be later. -/
theorem Branched.switch {b c : Block} (h : Branched depth (b :: outer) branches)
    (hkind : b.kind = .condition) (htaken : b.branchTaken = true → c.active = false)
    (hactive : c.active = true → c.branchTaken = true)
    (hmono : b.branchTaken = true → c.branchTaken = true) :
    Branched depth (c :: outer)
      (branchesAfter depth (b :: outer) branches true (c :: outer)) := by
  by_cases hdepth : depth = outer.length
  · have hb : b ∈ at? (b :: outer) depth := by simp [at?_cons, hdepth]
    have hat : at? (c :: outer) depth = some c := by simp [at?_cons, hdepth]
    have hmore : branchesAfter depth (b :: outer) branches true (c :: outer) =
        c.active :: branches := by
      rw [branchesAfter, hat]
      simp [hdepth, Nat.not_succ_le_self]
    have hzero (hbt : b.branchTaken = false) := h.count_eq b hb hkind hbt
    rw [hmore]
    constructor
    · simp [hat]
    · intro _ _ _
      cases hbt : b.branchTaken with
      | true => simpa [htaken hbt] using h.count_le b hb hkind
      | false => cases hc : c.active <;> simp [hzero hbt]
    · intro d hd _ hdt
      rw [hat] at hd
      cases hd
      have hc : c.active = false := by
        rw [Bool.eq_false_iff]
        intro hc
        rw [hactive hc] at hdt
        contradiction
      have hbt : b.branchTaken = false := by
        rw [Bool.eq_false_iff]
        intro hbt
        rw [hmono hbt] at hdt
        contradiction
      simpa [hc] using hzero hbt
  · refine h.keep ?_ (.inr (by simpa using Ne.symm hdepth))
    rw [at?_cons, at?_cons, if_neg hdepth, if_neg hdepth]

/-- What is known of the branches of a block stays true. -/
theorem Turn.branched (h : Turn branch blocks next) (hblocks : blocks.Sound)
    (hbranches : Branched depth blocks branches) :
    Branched depth next (branchesAfter depth blocks branches branch next) := by
  cases h with
  | stay => exact hbranches.keep rfl (.inl rfl)
  | astray hregion =>
    by_cases hdepth : blocks.length = depth + 1
    · refine branched_of_region (fun b hb ↦ hregion b ?_) _
      cases blocks with
      | nil => contradiction
      | cons c outer =>
        rw [List.length_cons, Nat.add_right_cancel_iff] at hdepth
        rwa [at?_cons, if_pos hdepth.symm] at hb
    · exact hbranches.keep rfl (.inr hdepth)
  | openIf span holds => exact hbranches.push (Block.sound_opened span _ holds)
  | openRegion span => exact hbranches.push (Block.sound_region span _)
  | close b =>
    by_cases hdepth : depth = next.length
    · have hnone : next.at? depth = none := by
        cases hat : next.at? depth with
        | none => rfl
        | some c => exact absurd (lt_length_of_at? hat) (by omega)
      exact branched_of_none hnone _
    · exact hbranches.keep (by rw [at?_cons, if_neg hdepth]) (.inl rfl)
  | @elseIf b outer holds hkind hseen =>
    refine hbranches.switch hkind ?_ ?_ ?_ <;> simp_all [Block.elseIf]
  | @otherwise b outer hkind =>
    refine hbranches.switch hkind ?_ ?_ ?_ <;> simp_all [Block.otherwise]
  | @misplaced b outer hkind hseen =>
    cases hblocks with
    | cons hb =>
      have hlast := hb.last hkind hseen
      refine hbranches.switch hkind ?_ ?_ ?_ <;> simp_all [Block.misplacedBranch]

end Blocks

/-! ### Whole texts -/

/-- The open blocks behind reading steps, when there are `blocks` before them. -/
def blocksBehind : (blocks : Blocks) → List Chunk → Blocks
  | blocks, [] => blocks
  | _, c :: cs => blocksBehind c.state.blocks cs

/-- For each branch so far of the block at the depth, the latest first, whether the text in it is
active, when that was `branches` at the open blocks before the reading steps. -/
def branchesBehind (depth : Nat) :
    (blocks : Blocks) → (branches : List Bool) → List Chunk → List Bool
  | _, branches, [] => branches
  | blocks, branches, c :: cs =>
    branchesBehind depth c.state.blocks
      (blocks.branchesAfter depth branches c.beginsBranch c.state.blocks) cs

/-- Every reading step makes a turn of the blocks. -/
inductive Turning : Blocks → List Chunk → Prop where
  | nil (blocks : Blocks) : Turning blocks []
  | cons {blocks : Blocks} {c : Chunk} {cs : List Chunk} :
      Blocks.Turn c.beginsBranch blocks c.state.blocks → Turning c.state.blocks cs →
      Turning blocks (c :: cs)

theorem ActiveReader.turning_chunksUpTo (script : Bool) (limit : Nat) (r : ActiveReader) :
    Turning r.state.blocks (r.chunksUpTo script limit) := by
  induction limit generalizing r with
  | zero => exact .nil _
  | succ limit ih =>
    rw [chunksUpTo]
    split
    · exact .nil _
    · next reading _ =>
      have hturn := r.turn_take script reading
      have hstate := r.state_take script reading
      generalize r.take script reading = end_ at hturn hstate
      obtain ⟨chunk, next⟩ := end_
      replace hstate : chunk.state = next.state := hstate
      simp only
      split
      · exact .cons hturn (.nil _)
      · refine .cons hturn ?_
        rw [hstate]
        exact ih next

theorem Turning.take {blocks : Blocks} {steps : List Chunk} (h : Turning blocks steps) (n : Nat) :
    Turning blocks (steps.take n) := by
  induction h generalizing n with
  | nil => rw [List.take_nil]; exact .nil _
  | cons hturn _ ih =>
    cases n with
    | zero => exact .nil _
    | succ n => exact .cons hturn (ih n)

/-- What one step preserves is preserved by all of them. -/
theorem Turning.sound {blocks : Blocks} {steps : List Chunk} (h : Turning blocks steps)
    (hblocks : blocks.Sound) {depth : Nat} {branches : List Bool}
    (hbranches : blocks.Branched depth branches) :
    (blocksBehind blocks steps).Sound ∧
      (blocksBehind blocks steps).Branched depth (branchesBehind depth blocks branches steps) := by
  induction h generalizing branches with
  | nil => exact ⟨hblocks, hbranches⟩
  | cons hturn _ ih => exact ih (hturn.sound hblocks) (hturn.branched hblocks hbranches)

/-- Behind any number of reading steps of any text, the flags of the open blocks agree, and at most
one branch of each of them has been active. -/
theorem blocksBehind_sound (script : Bool) (symbols : List String) (text : List Char)
    (n depth : Nat) :
    (blocksBehind [] ((activeText script symbols text).take n)).Sound ∧
      ∀ b ∈ (blocksBehind [] ((activeText script symbols text).take n)).at? depth,
        b.kind = .condition →
          (branchesBehind depth [] [] ((activeText script symbols text).take n)).head? =
              some b.active ∧
            (branchesBehind depth [] [] ((activeText script symbols text).take n)).count true ≤ 1 := by
  have hturning := ((ActiveReader.ofText text symbols).turning_chunksUpTo script
    (ActiveReader.ofText text symbols).source.stepsLeft).take n
  obtain ⟨hsound, hbranches⟩ := hturning.sound .nil (Blocks.branched_of_none rfl [])
  exact ⟨hsound, fun b hb hkind ↦ ⟨hbranches.latest b hb hkind, hbranches.count_le b hb hkind⟩⟩

/-- A condition behind the last branch makes no text active. -/
example : branchesBehind 0 [] []
    (activeText false ["B"] "#if A\n#elif B\n#else\n#elif B\n".toList) =
      [false, false, true, false] := by
  decide +kernel

end CSharpCheck
