import CSharpCheck.Proofs.Successes

/-!
# Active text in scripts

Scripts have a few directives of their own, which are errors in regular code unless they stand in
inactive text. A text in which a session makes an error of no finding as regular code is therefore
active in the same parts as a script, with the same findings.
-/

namespace CSharpCheck

variable {g : Gate}

theorem Gate.objects_problemAt {problem : DirectiveProblem} (h : problem.severity = .error)
    (t : Token) : g.Objects (problemAt problem t) := ⟨_, rfl, by rw [Diagnostic.isError, h]; rfl⟩

namespace DirectiveState

variable {s : DirectiveState}

/-- A directive with an error is fine only where it is ignored. -/
theorem ifActive_of_objects {x : Finding} (hx : g.Objects x) {xs : List Finding} {effect : Effect}
    (h : ∀ y ∈ (s.ifActive (s.unchanged (x :: xs))).findings, ¬g.Objects y) :
    s.ifActive effect = s.unchanged [] := by
  rw [ifActive] at h ⊢
  split
  · next hactive =>
    rw [if_pos hactive] at h
    exact absurd hx (h x List.mem_cons_self)
  · rfl

theorem apply_script (directive : Option DirectiveName) (name : Token) (args : List Token)
    (stop : Token)
    (h : ∀ x ∈ (s.apply false directive name args stop).findings, ¬g.Objects x) :
    s.apply true directive name args stop = s.apply false directive name args stop := by
  rcases directive with _ | directive
  · rfl
  · cases directive with
    | reference | load =>
      have hobjects : g.Objects (problemAt (.scriptOnly name.text) name) :=
        Gate.objects_problemAt rfl name
      exact (ifActive_of_objects hobjects h).trans (ifActive_of_objects hobjects h).symm
    | _ => rfl

theorem process_script (line : DirectiveLine)
    (h : ∀ x ∈ (s.process false line).findings, ¬g.Objects x) :
    s.process true line = s.process false line := by
  unfold process at h ⊢
  split
  · rfl
  · next name args hbody =>
    simp only [hbody, Bool.false_and, Bool.false_eq_true, if_false] at h ⊢
    split
    · next hmessage =>
      rw [if_pos hmessage] at h
      split
      · exact (ifActive_of_objects (Gate.objects_problemAt rfl line.hash) h).symm
      · rfl
    · next hmessage =>
      rw [if_neg hmessage] at h
      split
      · next hname =>
        rw [if_pos hname] at h
        rw [apply_script _ _ _ _ h]
      · rfl

end DirectiveState

namespace ActiveReader

variable {r : ActiveReader} {reading : Reading}

theorem endLine_script (stop : Token)
    (h : ∀ x ∈ (r.endLine false reading stop).1.findings, ¬g.Objects x) :
    r.endLine true reading stop = r.endLine false reading stop := by
  unfold endLine at h ⊢
  cases hline : r.lineUpTo stop with
  | none => rfl
  | some line =>
    simp only [hline] at h
    have hprocess := DirectiveState.process_script line
      fun x hx ↦ h x (List.mem_append_right _ hx)
    simp only [hprocess]

theorem take_script (h : ∀ x ∈ (r.take false reading).1.findings, ¬g.Objects x) :
    r.take true reading = r.take false reading := by
  unfold take at h ⊢
  split
  · rfl
  · next t ts htokens =>
    simp only [htokens] at h
    split
    · next hstop =>
      rw [if_pos hstop] at h
      exact endLine_script t h
    · rfl

theorem chunksUpTo_script (limit : Nat) {r : ActiveReader}
    (h : ∀ x ∈ (r.chunksUpTo false limit).flatMap (·.findings), ¬g.Objects x) :
    r.chunksUpTo true limit = r.chunksUpTo false limit := by
  induction limit generalizing r with
  | zero => rfl
  | succ limit ih =>
    unfold chunksUpTo at h ⊢
    split
    · rfl
    · next reading hread =>
      simp only [hread] at h ⊢
      have htake : r.take true reading = r.take false reading := by
        refine take_script fun x hx ↦ h x ?_
        split <;> exact List.mem_flatMap_of_mem List.mem_cons_self hx
      rw [htake]
      split
      · rfl
      · next hgoes =>
        rw [if_neg hgoes, List.flatMap_cons] at h
        rw [ih fun x hx ↦ h x (List.mem_append_right _ hx)]

end ActiveReader

theorem activeText_script {symbols : List String} {text : List Char}
    (h : ∀ x ∈ (activeText false symbols text).flatMap (·.findings), ¬g.Objects x) :
    activeText true symbols text = activeText false symbols text :=
  ActiveReader.chunksUpTo_script _ h

end CSharpCheck
