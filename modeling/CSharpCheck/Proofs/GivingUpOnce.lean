import CSharpCheck.Proofs.ErrorOrder
import CSharpCheck.Proofs.Scanning.GivingUp
import CSharpCheck.Proofs.Scanning.OpenHoles
import CSharpCheck.Proofs.TruePositions

/-!
# A text is given up once

A text that is nested too deeply is given up when it is scanned or when it is read by the grammar,
and not twice. After that the stage that has given it up reports nothing more, and what is given up
when it is scanned is not read by the grammar at all.
-/

namespace CSharpCheck

/-! ### Findings of both stages -/

namespace Finding

variable {x : Finding}

theorem GivesUp.isTooComplex (h : x.GivesUp) : x.isTooComplex = true := by
  rw [Finding.isTooComplex, h]
  rfl

theorem GivesUp.isLexical (h : x.GivesUp) : x.isLexical = true := by
  rw [Finding.isLexical, h]

/-- A text is given up by its scanning or by its reading. -/
theorem isTooComplex_iff : x.isTooComplex = true ↔ x.GivesUp ∨ x.cause = .grammar .tooComplex := by
  rw [isTooComplex, Bool.or_eq_true, beq_iff_eq, beq_iff_eq]
  rfl

theorem givesUp_of_isTooComplex (h : x.isTooComplex = true) (hsyn : x.isSyntax = false) :
    x.GivesUp := by
  refine (isTooComplex_iff.1 h).resolve_right fun hcause ↦ ?_
  rw [isSyntax, hcause] at hsyn
  contradiction

theorem isSyntax_of_isTooComplex (h : x.isTooComplex = true) (hlexical : x.isLexical = false) :
    x.isSyntax = true := by
  rcases isTooComplex_iff.1 h with hgives | hcause
  · rw [hgives.isLexical] at hlexical
    contradiction
  · rw [isSyntax, hcause]

theorem not_isTooComplex_of_isGrammarError (h : x.isGrammarError = true) :
    x.isTooComplex = false := by
  obtain ⟨cause, span⟩ := x
  cases cause with
  | grammar e =>
    cases e with
    | tooComplex => contradiction
    | _ => rfl
  | _ => contradiction

end Finding

/-! ### Scanning -/

namespace ActiveReader

variable {script : Bool} {r : ActiveReader} {reading : Reading}

/-- To the findings of a reading step directives add findings of their own. -/
theorem findings_take (script : Bool) (r : ActiveReader) (reading : Reading) :
    ∃ added, (r.take script reading).1.findings = reading.findings ++ added ∧
      ∀ x ∈ added, x.cause.isOfDirective = true := by
  have hnone : reading.findings = reading.findings ++ [] := (List.append_nil _).symm
  have hend (t : Token) : ∃ added, (r.endLine script reading t).1.findings =
      reading.findings ++ added ∧ ∀ x ∈ added, x.cause.isOfDirective = true := by
    refine ⟨_, rfl, fun x hx ↦ ?_⟩
    split at hx
    · exact (r.state.process_placed script _ x hx).1
    · exact nomatch hx
  unfold take
  split
  · exact ⟨[], hnone, List.forall_mem_nil _⟩
  · next t ts _ =>
    split
    · exact hend t
    · split
      · exact ⟨[], hnone, List.forall_mem_nil _⟩
      · split
        · exact ⟨_, rfl, fun x hx ↦ (openBlockFindings_placed _ _ x hx).1⟩
        · exact ⟨[], hnone, List.forall_mem_nil _⟩

/-- A step after which nothing is left of a text leaves nothing to the next step. -/
theorem rest_source_take (script : Bool) (r : ActiveReader) (h : reading.source.cursor.rest = []) :
    (r.take script reading).2.source.cursor.rest = [] := by
  rcases r.source_take script reading with hsource | hsource
  · rw [hsource, h]
  · rw [hsource, TokenSource.skipExcluded, Cursor.rest_advance, h, List.drop_nil]

theorem not_isLexical_of_isOfDirective {x : Finding} (h : x.cause.isOfDirective = true) :
    ¬x.GivesUp ∧ x.isLexical = false := by
  obtain ⟨cause, span⟩ := x
  cases cause with
  | directive | use => exact ⟨nofun, rfl⟩
  | lexical | grammar => contradiction

/-- Where nothing is left of a text, nothing more is found by scanning. -/
theorem not_isLexical_chunksUpTo (limit : Nat) {r : ActiveReader} (h : r.source.cursor.rest = []) :
    ∀ x ∈ (r.chunksUpTo script limit).flatMap (·.findings), x.isLexical = false := by
  induction limit generalizing r with
  | zero => exact List.forall_mem_nil _
  | succ limit ih =>
    unfold chunksUpTo
    split
    · exact List.forall_mem_nil _
    · next reading hread =>
      obtain ⟨hnone, hrest⟩ := TokenSource.findings_of_rest h hread
      obtain ⟨added, hfindings, hadded⟩ := r.findings_take script reading
      rw [hnone, List.nil_append] at hfindings
      have hfirst : ∀ x ∈ (r.take script reading).1.findings, x.isLexical = false :=
        fun x hx ↦ (not_isLexical_of_isOfDirective (hadded x (hfindings ▸ hx))).2
      dsimp only
      split
      · simpa using hfirst
      · rw [List.flatMap_cons]
        exact List.forall_mem_append.2 ⟨hfirst, ih (r.rest_source_take script hrest)⟩

/-- After a text has been given up nothing more is found by scanning. -/
theorem pairwise_chunksUpTo (limit : Nat) (r : ActiveReader) :
    ((r.chunksUpTo script limit).flatMap (·.findings)).Pairwise
      fun x y ↦ x.GivesUp → y.isLexical = false := by
  induction limit generalizing r with
  | zero => exact .nil
  | succ limit ih =>
    unfold chunksUpTo
    split
    · exact .nil
    · next reading hread =>
      obtain ⟨added, hfindings, hadded⟩ := r.findings_take script reading
      have hfirst : (r.take script reading).1.findings.Pairwise
          fun x y ↦ x.GivesUp → y.isLexical = false := by
        rw [hfindings]
        refine List.pairwise_append.2 ⟨?_, ?_, fun x _ y hy _ ↦ ?_⟩
        · exact (TokenSource.pairwise_of_read hread).imp fun h hx ↦ absurd hx h
        · exact List.pairwise_of_forall_mem_list fun x hx _ _ hgives ↦
            absurd hgives (not_isLexical_of_isOfDirective (hadded x hx)).1
        · exact (not_isLexical_of_isOfDirective (hadded y hy)).2
      dsimp only
      split
      · simpa using hfirst
      · rw [List.flatMap_cons]
        refine List.pairwise_append.2 ⟨hfirst, ih _, fun x hx y hy hgives ↦ ?_⟩
        rw [hfindings] at hx
        rcases List.mem_append.1 hx with hx | hx
        · have hrest := TokenSource.rest_of_givesUp hread hx hgives
          exact not_isLexical_chunksUpTo limit (r.rest_source_take script hrest) y hy
        · exact absurd hgives (not_isLexical_of_isOfDirective (hadded x hx)).1

/-- No finding up to the active tokens is one of the grammar. -/
theorem not_isSyntax_chunksUpTo (limit : Nat) (r : ActiveReader) :
    ∀ x ∈ (r.chunksUpTo script limit).flatMap (·.findings), x.isSyntax = false := by
  induction limit generalizing r with
  | zero => exact List.forall_mem_nil _
  | succ limit ih =>
    unfold chunksUpTo
    split
    · exact List.forall_mem_nil _
    · next reading hread =>
      obtain ⟨added, hfindings, hadded⟩ := r.findings_take script reading
      have hfirst : ∀ x ∈ (r.take script reading).1.findings, x.isSyntax = false := by
        rw [hfindings]
        refine List.forall_mem_append.2 ⟨fun x hx ↦ ?_, fun x hx ↦ ?_⟩
        · have hlexical := TokenSource.isLexical_of_read hread x hx
          obtain ⟨cause, span⟩ := x
          cases cause with
          | lexical => rfl
          | _ => contradiction
        · have hdirective := hadded x hx
          obtain ⟨cause, span⟩ := x
          cases cause with
          | grammar => contradiction
          | _ => rfl
      dsimp only
      split
      · simpa using hfirst
      · rw [List.flatMap_cons]
        exact List.forall_mem_append.2 ⟨hfirst, ih _⟩

end ActiveReader

/-! ### Reading by the grammar -/

/-- The grammar finds nothing about single tokens. -/
theorem Progress.invariant_isLexical (stream : TokenStream) :
    Invariant stream fun p ↦ ∀ x ∈ p.found, x.isLexical = false where
  advance p hp count := by
    rw [Progress.found_advance]
    exact hp
  use p hp feature index := List.forall_mem_cons.2 ⟨rfl, hp⟩
  report p hp place e := by
    unfold report
    split
    · exact hp
    · exact List.forall_mem_cons.2 ⟨rfl, hp⟩
  abandon p hp := List.forall_mem_cons.2 ⟨rfl, hp⟩

/-- After the reading of a text has been abandoned the grammar finds no broken rule. -/
theorem pairwise_readUnit (stream : TokenStream) (script : Bool) :
    (readUnit stream script).found.reverse.Pairwise fun x y ↦
      x.isTooComplex = true → y.isLexical = false ∧ y.isSyntax = false := by
  have hlexical : ∀ x ∈ (readUnit stream script).found.reverse, x.isLexical = false := by
    have hfound := readUnit_invariant (Progress.invariant_isLexical stream) script
      (List.forall_mem_nil _)
    exact fun x hx ↦ hfound x (List.mem_reverse.1 hx)
  obtain ⟨charges, -, -, -, -, haccounts⟩ := exists_charges stream script
  have hsimple : ∀ x ∈ charges.map (·.2), x.isTooComplex = false :=
    List.forall_mem_map.2 fun c hc ↦
    Finding.not_isTooComplex_of_isGrammarError (haccounts.simple c hc)
  have hfiltered : ((readUnit stream script).found.reverse.filter (·.isSyntax)).Pairwise
      fun x _ ↦ x.isTooComplex = false := by
    rw [haccounts.found]
    refine List.pairwise_append.2 ⟨?_, ?_, fun x hx _ _ ↦ hsimple x hx⟩
    · exact List.pairwise_of_forall_mem_list fun x hx _ _ ↦ hsimple x hx
    · unfold Progress.abandonment
      cases (readUnit stream script).abandonedAt <;> simp
  refine (List.pairwise_filter.1 hfiltered).imp_of_mem fun {x y} hx hy h hcomplex ↦ ?_
  refine ⟨hlexical y hy, Bool.eq_false_iff.2 fun hsyn ↦ ?_⟩
  rw [h (Finding.isSyntax_of_isTooComplex hcomplex (hlexical x hx)) hsyn] at hcomplex
  contradiction

namespace Survey

variable (script : Bool) (symbols : List String) (text : List Char)

/-- The grammar reads the active tokens if the text has not been given up before. -/
theorem grammarFindings_ofText : (ofText script symbols text).grammarFindings = [] ∨
    (∀ x ∈ (ofText script symbols text).textFindings, x.isTooComplex = false) ∧
      ∃ stream, (ofText script symbols text).grammarFindings =
        (readUnit stream script).found.reverse := by
  cases hprogress : (ofText script symbols text).progress with
  | none => exact .inl (by rw [grammarFindings, hprogress]; rfl)
  | some p =>
    refine .inr ?_
    rw [grammarFindings, hprogress]
    replace hprogress : (if (ofText script symbols text).textFindings.any (·.isTooComplex) then none
      else (TokenStream.ofTokens? (activeTokens script symbols text)).map (readUnit · script)) =
        some p := hprogress
    split at hprogress
    · contradiction
    · next hany =>
      obtain ⟨stream, -, rfl⟩ := Option.map_eq_some_iff.1 hprogress
      exact ⟨by simpa using hany, stream, rfl⟩

/-- After a text has been given up neither its scanning nor its reading finds a broken rule. -/
theorem pairwise_findings : (ofText script symbols text).findings.Pairwise fun x y ↦
    x.isTooComplex = true → y.isLexical = false ∧ y.isSyntax = false := by
  have hsyn : ∀ x ∈ (ofText script symbols text).textFindings, x.isSyntax = false :=
    ActiveReader.not_isSyntax_chunksUpTo _ _
  have htext : (ofText script symbols text).textFindings.Pairwise
      fun x y ↦ x.GivesUp → y.isLexical = false := ActiveReader.pairwise_chunksUpTo _ _
  have hscanned : (ofText script symbols text).textFindings.Pairwise
      fun x y ↦ x.isTooComplex = true → y.isLexical = false ∧ y.isSyntax = false :=
    htext.imp_of_mem fun {x y} hx hy h hcomplex ↦
      ⟨h (Finding.givesUp_of_isTooComplex hcomplex (hsyn x hx)), hsyn y hy⟩
  rw [findings]
  rcases grammarFindings_ofText script symbols text with hnone | ⟨hread, stream, hgrammar⟩
  · rw [hnone, List.append_nil]
    exact hscanned
  · rw [hgrammar]
    refine List.pairwise_append.2 ⟨hscanned, pairwise_readUnit stream script,
      fun x hx _ _ hcomplex ↦ ?_⟩
    rw [hread x hx] at hcomplex
    contradiction

/-- A text that has been given up when it was scanned is not read. -/
theorem not_isSyntax_findings {x : Finding} (hx : x ∈ (ofText script symbols text).findings)
    (hgives : x.GivesUp) : ∀ y ∈ (ofText script symbols text).findings, y.isSyntax = false := by
  have hsyn : ∀ x ∈ (ofText script symbols text).textFindings, x.isSyntax = false :=
    ActiveReader.not_isSyntax_chunksUpTo _ _
  rw [findings] at hx ⊢
  rcases grammarFindings_ofText script symbols text with hnone | ⟨hread, stream, hgrammar⟩
  · rw [hnone, List.append_nil]
    exact hsyn
  · rcases List.mem_append.1 hx with hx | hx
    · have hcomplex := hread x hx
      rw [hgives.isTooComplex] at hcomplex
      contradiction
    · have hfound := readUnit_invariant (Progress.invariant_isLexical stream) script
        (List.forall_mem_nil _) x (List.mem_reverse.1 (hgrammar ▸ hx))
      rw [hgives.isLexical] at hfound
      contradiction

end Survey

/-! ### Diagnostics -/

theorem LexicalError.code_eq_iff (e : LexicalError) : e.code = "CS8078" ↔ e = .tooComplex := by
  cases e <;> simp [code]

theorem DirectiveProblem.code_ne (p : DirectiveProblem) : p.code ≠ "CS8078" := by
  cases p <;> simp [code]

theorem Gate.code_ne (g : Gate) (f : Feature) : g.code f ≠ "CS8078" := by
  unfold code
  split
  · simp
  · cases g.version <;> simp [codeAt]

/-- The code and the category of a diagnostic tell what its finding is. -/
theorem Gate.kind_of_diagnose {g : Gate} {x : Finding} {d : Diagnostic} (h : g.diagnose x = some d) :
    (d.code = "CS8078" ↔ x.isTooComplex = true) ∧ (d.category = .lexical ↔ x.isLexical = true) ∧
      (d.category = .grammar ↔ x.isSyntax = true) := by
  obtain ⟨cause, span⟩ := x
  cases cause with
  | lexical e =>
    cases h
    simp [Finding.isTooComplex, Finding.isLexical, Finding.isSyntax, e.code_eq_iff]
  | directive p =>
    cases h
    simp [Finding.isTooComplex, Finding.isLexical, Finding.isSyntax, p.code_ne]
  | grammar e =>
    cases h
    simp [Finding.isTooComplex, Finding.isLexical, Finding.isSyntax, e.code_eq_iff]
  | use f =>
    obtain ⟨-, rfl⟩ := Gate.check_eq_some_iff.1 h
    simp [Finding.isTooComplex, Finding.isLexical, Finding.isSyntax, g.code_ne]

/-- A text is given up once, and what gives it up is quiet then. Among the diagnostics of a session,
in the order in which they are reported, at most one says that the text is too complex. It comes
from the scanning of the text or from its reading, and that stage reports nothing after it; if it
comes from the scanning, there are no syntax errors. At most `maxOpenHoles` holes are open between
the tokens of a reading step, and none before and after them. -/
theorem gives_up_once (o : Options) (text : List Char) :
    let reported := o.gate.diagnostics (Survey.ofText o.script o.symbols text).findings
    (reported.filter (·.code = "CS8078")).length ≤ 1 ∧
      (∀ d ∈ reported, d.code = "CS8078" →
        d.category = .lexical ∧ (∀ e ∈ reported, e.category ≠ .grammar) ∨ d.category = .grammar) ∧
      reported.Pairwise (fun d e ↦ d.code = "CS8078" → e.category ≠ d.category) ∧
      (∀ v, validate o text = .ok v → v.diagnostics = reported.sorted ∧
        (v.diagnostics.filter (·.code = "CS8078")).length ≤ 1) ∧
      ∀ s r, TokenSource.read s = some r →
        openHoles maxOpenHoles 0 (r.tokens.map (·.kind)) = some 0 := by
  intro reported
  have hpairwise : reported.Pairwise fun d e ↦
      d.code = "CS8078" → e.category ≠ .lexical ∧ e.category ≠ .grammar := by
    refine (Survey.pairwise_findings _ _ text).filterMap _ fun x y h d hd e he hcode ↦ ?_
    obtain ⟨hcomplex, -, -⟩ := Gate.kind_of_diagnose hd
    obtain ⟨-, hlexical, hsyn⟩ := Gate.kind_of_diagnose he
    obtain ⟨hnotLexical, hnotSyntax⟩ := h (hcomplex.1 hcode)
    exact ⟨fun hcategory ↦ by simp [hlexical.1 hcategory] at hnotLexical,
      fun hcategory ↦ by simp [hsyn.1 hcategory] at hnotSyntax⟩
  have hcategory : ∀ d ∈ reported, d.code = "CS8078" →
      d.category = .lexical ∧ (∀ e ∈ reported, e.category ≠ .grammar) ∨ d.category = .grammar := by
    intro d hd hcode
    obtain ⟨x, hx, hdx⟩ := List.mem_filterMap.1 hd
    obtain ⟨hcomplex, hlexical, hsyn⟩ := Gate.kind_of_diagnose hdx
    rcases Finding.isTooComplex_iff.1 (hcomplex.1 hcode) with hgives | hcause
    · refine .inl ⟨hlexical.2 hgives.isLexical, fun e he hgrammar ↦ ?_⟩
      obtain ⟨y, hy, hey⟩ := List.mem_filterMap.1 he
      have hnot := Survey.not_isSyntax_findings _ _ text hx hgives y hy
      rw [(Gate.kind_of_diagnose hey).2.2.1 hgrammar] at hnot
      contradiction
    · exact .inr (hsyn.2 (by rw [Finding.isSyntax, hcause]))
  have hcount : (reported.filter (·.code = "CS8078")).length ≤ 1 := by
    have hmem : ∀ d ∈ reported.filter (·.code = "CS8078"), d ∈ reported ∧ d.code = "CS8078" :=
      fun d hd ↦ (List.mem_filter.1 hd).imp_right of_decide_eq_true
    have hfiltered := hpairwise.filter (·.code = "CS8078")
    generalize reported.filter (·.code = "CS8078") = complex at hmem hfiltered
    cases complex with
    | nil => exact Nat.zero_le 1
    | cons d rest =>
      cases rest with
      | nil => exact Nat.le_refl 1
      | cons e rest =>
        have hd := (hmem d List.mem_cons_self).2
        obtain ⟨hlexical, hgrammar⟩ := (List.pairwise_cons.1 hfiltered).1 e List.mem_cons_self hd
        obtain ⟨he, hcode⟩ := hmem e (List.mem_cons_of_mem d List.mem_cons_self)
        rcases hcategory e he hcode with ⟨h, -⟩ | h
        · exact absurd h hlexical
        · exact absurd h hgrammar
  refine ⟨hcount, hcategory, ?_, fun v hv ↦ ?_, fun s r h ↦ TokenSource.holesWithin_of_read h⟩
  · refine hpairwise.imp_of_mem fun {d e} hd _ h hcode ↦ ?_
    rcases hcategory d hd hcode with ⟨hlexical, -⟩ | hgrammar
    · rw [hlexical]
      exact (h hcode).1
    · rw [hgrammar]
      exact (h hcode).2
  · have hdiagnostics : v.diagnostics = reported.sorted := by
      unfold validate Survey.verdict at hv
      split at hv
      · contradiction
      · cases hv
        rfl
    refine ⟨hdiagnostics, ?_⟩
    rw [hdiagnostics, ((Diagnostics.sorted_perm reported).filter _).length_eq]
    exact hcount

end CSharpCheck
