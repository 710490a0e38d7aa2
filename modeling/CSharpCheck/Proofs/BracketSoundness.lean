import Mathlib
import CSharpCheck.Proofs.Successes

/-!
# Brackets in texts without errors

A text in which the validation finds no error is well bracketed, but for the calling conventions
of function pointer types: what stands between the square brackets of a convention is passed over
unread. A text without errors is well bracketed exactly when these parts are.
-/

namespace CSharpCheck

namespace WellBracketed

theorem filter_bad_iff {ts : List Token} :
    WellBracketed (ts.filter (·.kind != .bad)) ↔ WellBracketed ts := by
  suffices h : ∀ open_ : Brackets, open_.after (ts.filter (·.kind != .bad)) = open_.after ts by
    rw [WellBracketed, h, WellBracketed]
  induction ts with
  | nil => exact fun _ ↦ rfl
  | cons t ts ih =>
    intro open_
    rw [List.filter_cons]
    split
    · rw [Brackets.after_cons, Brackets.after_cons]
      exact congrArg _ (funext ih)
    · next hbad =>
      have hkind : t.kind = .bad := by simpa using hbad
      rw [Brackets.after_plain (Token.isPlain_of_kind hkind rfl rfl)]
      exact ih open_

theorem append_eof_iff {ts : List Token} {eof : Token} (heof : eof.kind = .endOfFile) :
    WellBracketed (ts ++ [eof]) ↔ WellBracketed ts := by
  have hplain : eof.IsPlain := Token.isPlain_of_kind heof rfl rfl
  rw [WellBracketed, Brackets.after_append]
  simp [hplain, WellBracketed]

end WellBracketed

/-- What whole groups are left of when bad tokens are dropped are whole groups. -/
theorem completesGroups_of_closed {body : List Token} {eof : Token} (heof : eof.kind = .endOfFile)
    (h : Context.Closed ((body ++ [eof]).map (·.kind))) :
    CompletesGroups [] (body.filter (·.kind != .bad)) := by
  have hbody : Context.after [] (body.map (·.kind)) = some [] := by
    have hall := h [] trivial
    rw [List.map_append, Context.after_append] at hall
    obtain ⟨contexts, hcontexts, hlast⟩ := Option.bind_eq_some_iff.1 hall
    rw [List.map_singleton, heof, Context.after_cons] at hlast
    obtain ⟨next, hnext, hlast⟩ := Option.bind_eq_some_iff.1 hlast
    rw [Context.after_nil, Option.some.injEq] at hlast
    rw [hcontexts, ← Context.step_ordinary rfl hnext, hlast]
  refine ⟨[], rfl, ?_⟩
  have hfilter := Context.after_filter_bad hbody
  rwa [List.filter_map] at hfilter

/-- The tokens of a stream whose reading finds no flaw are well bracketed, if the conventions are
and all groups are whole. -/
theorem wellBracketed_of_not_faulty {stream : TokenStream} {script : Bool}
    (hgroups : CompletesGroups [] stream.tokens.toList)
    (hconventions : ConventionsBracketed stream.tokens.toList)
    (hfaulty : ¬(readUnit stream script).Faulty) : WellBracketed stream.tokens.toList := by
  have hstart : Spot.Describes ⟨0, stream.tokens.toList, some [], none⟩ stream False
      (.start stream) := by
    refine ⟨rfl, rfl, Nat.zero_le _, rfl, fun b hb ↦ ?_, fun w hw ↦ ?_, fun hfailed ↦ ?_⟩
    · cases hb
      exact ⟨rfl, rfl, rfl, hgroups, hconventions⟩
    · contradiction
    · exact absurd hfailed.1 (Option.some_ne_none _)
  have hholds : Spot.Holds ⟨0, stream.tokens.toList, some [], none⟩ [] := by
    intro b hb
    cases hb
    rfl
  obtain ⟨t, ht, hprecedes, hbrackets, hahead⟩ : ∃ t : Spot,
      t.Describes stream False (readUnit stream script) ∧
        Spot.Precedes ⟨0, stream.tokens.toList, some [], none⟩ t ∧ t.Holds [] ∧
          (false = false → t.ahead = []) :=
    (Rule.Ensures.meets grammarRules_keep
      (show Surroundings.stream ⟨stream, script, []⟩ = stream from rfl) hstart
      (Rule.ensures_unitElements false hholds).later).1
  cases hb : t.brackets with
  | none =>
    exact absurd ((ht.faulty ⟨hb, hprecedes.watch_eq_none rfl⟩).resolve_left id) hfaulty
  | some b =>
    obtain ⟨-, -, hafter, -⟩ := ht.clean b hb
    have hall : stream.tokens.toList.take t.index = stream.tokens.toList := by
      have hrest := ht.ahead_eq
      rw [hahead rfl] at hrest
      exact List.take_of_length_le (List.drop_eq_nil_iff.1 hrest.symm)
    rw [hall, hbrackets b hb] at hafter
    exact hafter

/-- A text in which no error is found is well bracketed if and only if the calling conventions of
its function pointer types are. -/
theorem wellBracketed_iff_conventionsBracketed {o : Options} {text : List Char} {v : Validation}
    (hv : validate o text = .ok v) (hsuccess : v.success = true) :
    ∃ stream, TokenStream.ofTokens? (activeTokens o.script o.symbols text) = some stream ∧
      (WellBracketed (activeTokens o.script o.symbols text) ↔
        ConventionsBracketed stream.tokens.toList) := by
  obtain ⟨body, eof, htokens, heof, hfound⟩ := exists_of_validate_eq_ok hv hsuccess
  have hstream := TokenStream.ofTokens?_append body heof
  have hgroups : CompletesGroups [] (body.filter (·.kind != .bad)) :=
    completesGroups_of_closed heof (htokens ▸ closed_activeTokens _ _ _)
  rw [htokens, hstream, WellBracketed.append_eof_iff heof, ← WellBracketed.filter_bad_iff]
  exact ⟨_, rfl, WellBracketed.conventionsBracketed,
    fun hconventions ↦ wellBracketed_of_not_faulty hgroups hconventions
      (not_faulty_of_not_objects (hfound _ hstream))⟩

/-- A convention with a name in its brackets is well bracketed, and so is the text around it. -/
theorem wellBracketed_iff_conventionsBracketed_named :
    validate ⟨.default, false, [], []⟩
        "class C \x7b delegate* unmanaged[Cdecl]<int> f; \x7d".toList = .ok ⟨.v14, []⟩ ∧
      Validation.success ⟨.v14, []⟩ = true ∧
      ∃ stream, TokenStream.ofTokens? (activeTokens false []
          "class C \x7b delegate* unmanaged[Cdecl]<int> f; \x7d".toList) = some stream ∧
        (WellBracketed (activeTokens false []
            "class C \x7b delegate* unmanaged[Cdecl]<int> f; \x7d".toList) ↔
          ConventionsBracketed stream.tokens.toList) := by
  have hv : validate ⟨.default, false, [], []⟩
      "class C \x7b delegate* unmanaged[Cdecl]<int> f; \x7d".toList = .ok ⟨.v14, []⟩ := by cbv
  exact ⟨hv, rfl, wellBracketed_iff_conventionsBracketed hv rfl⟩

/-- No error is found in a text whose only convention has a stray parenthesis in its brackets. -/
theorem not_wellBracketed_of_success :
    ¬∀ (o : Options) (text : List Char) (v : Validation), validate o text = .ok v →
      v.success = true → WellBracketed (activeTokens o.script o.symbols text) := by
  intro h
  have hv : validate ⟨.default, false, [], []⟩
      "class C \x7b delegate* unmanaged[(]<int> f; \x7d".toList = .ok ⟨.v14, []⟩ := by cbv
  have hnone : Brackets.after [] (activeTokens false []
      "class C \x7b delegate* unmanaged[(]<int> f; \x7d".toList) = none := by cbv
  have hsome := h _ _ _ hv rfl
  rw [WellBracketed, hnone] at hsome
  contradiction

end CSharpCheck
