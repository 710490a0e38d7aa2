import CSharpCheck.Grammar.Block
import CSharpCheck.Proofs.Reading.Logic

/-!
# Rules and brackets

What the basic rules, from which all others are put together, do to the open brackets, and which of
them move on.
-/

namespace CSharpCheck

/-- The bracket that has to be open before the symbol. -/
def Symbol.closes (s : Symbol) : Brackets :=
  match s.side with
  | .closing b => [b]
  | _ => []

/-- The bracket that is open after the symbol. -/
def Symbol.opens (s : Symbol) : Brackets :=
  match s.side with
  | .opening b => [b]
  | _ => []

namespace Brackets

theorem step_symbol (open_ : Brackets) (s : Symbol) :
    step (s.closes ++ open_) s.side = some (s.opens ++ open_) := by
  unfold Symbol.closes Symbol.opens
  cases s.side with
  | opening b => rfl
  | closing b => exact step_closing.2 rfl
  | neither => rfl

end Brackets

namespace Ahead

/-- The next token, if there is one, is plain. -/
def IsPlain (ts : Ahead) : Prop := ∀ t, ts.head? = some t → t.IsPlain

theorem exists_of_any {ts : Ahead} {p : Token → Bool} (h : ts.head?.any p = true) :
    ∃ t rest, ts = t :: rest ∧ p t = true := by
  cases ts with
  | nil => simp at h
  | cons t rest => exact ⟨t, rest, rfl, by simpa using h⟩

theorem ne_nil_of_any {ts : Ahead} {p : Token → Bool} (h : ts.head?.any p = true) : ts ≠ [] := by
  rintro rfl
  simp at h

private theorem isPlain_of_any {ts : Ahead} {p : Token → Bool} (h : ts.head?.any p = true)
    (hp : ∀ t, p t = true → t.IsPlain) : ts.IsPlain := by
  obtain ⟨t, rest, rfl, ht⟩ := exists_of_any h
  intro u hu
  cases hu
  exact hp t ht

theorem isPlain_of_is {ts : Ahead} {s : Symbol} (h : ts.is s = true) (hs : s.side = .neither) :
    ts.IsPlain := isPlain_of_any h fun _ ht ↦ Token.isPlain_of_is ht hs

theorem isPlain_of_isOneOf {ts : Ahead} {symbols : List Symbol} (h : ts.isOneOf symbols = true)
    (hs : ∀ s ∈ symbols, s.side = .neither) : ts.IsPlain :=
  isPlain_of_any h fun _ ht ↦ Token.isPlain_of_isOneOf ht hs

theorem isPlain_of_isWord {ts : Ahead} {k : Keyword} (h : ts.isWord k = true) : ts.IsPlain :=
  isPlain_of_any h fun _ ↦ Token.isPlain_of_isWord

theorem isPlain_of_isWordOf {ts : Ahead} {words : List Keyword} (h : ts.isWordOf words = true) :
    ts.IsPlain := isPlain_of_any h fun _ ↦ Token.isPlain_of_isWordOf

theorem isPlain_of_isIdentifier {ts : Ahead} (h : ts.isIdentifier = true) : ts.IsPlain :=
  isPlain_of_any h fun _ ↦ Token.isPlain_of_isIdentifier

theorem isPlain_of_isContextual {ts : Ahead} {word : String} (h : ts.isContextual word = true) :
    ts.IsPlain := isPlain_of_any h fun _ ↦ Token.isPlain_of_isContextual

theorem isPlain_of_isKind {ts : Ahead} {kind : Kind} (h : ts.isKind kind = true)
    (hside : kind.side = .neither) (hfeatures : kind.bearsFeatures = false) : ts.IsPlain :=
  isPlain_of_any h fun _ ht ↦ Token.isPlain_of_kind (eq_of_beq ht) hside hfeatures

theorem isPlain_of_isKeyword {ts : Ahead} (h : ts.isKeyword = true) : ts.IsPlain :=
  isPlain_of_any h fun _ ↦ Token.isPlain_of_isKeyword

/-- There are as many tokens ahead, and they satisfy every regular condition. -/
structure Balanced (ts : Ahead) (count : Nat) : Prop where
  length_le : count ≤ ts.length
  regular : ∀ P, Regular P → P (ts.take count)

theorem Balanced.zero (ts : Ahead) : ts.Balanced 0 := ⟨Nat.zero_le _, fun _ hP ↦ hP.nil⟩

theorem Balanced.cons {t : Token} {rest : Ahead} {count : Nat} (ht : t.IsPlain)
    (h : Balanced rest count) : Balanced (t :: rest) (count + 1) :=
  ⟨Nat.succ_le_succ h.length_le, fun P hP ↦ hP.cons ht (h.regular P hP)⟩

theorem IsPlain.balanced {ts : Ahead} (h : ts.IsPlain) (hne : ts ≠ []) {count : Nat}
    (htail : ts.tail.Balanced count) : ts.Balanced (count + 1) := by
  cases ts with
  | nil => contradiction
  | cons t rest => exact .cons (h t rfl) htail

end Ahead

namespace Rule

variable {α β σ : Type} {open_ : Brackets} {s : Spot}

/-- At the place, the rule takes the text from the open brackets `before` to `after`. -/
def TakesAt (r : Rule α) (s : Spot) (before : Brackets) (after : α → Brackets) : Prop :=
  s.Holds before → r.Ensures (fun a t ↦ t.Holds (after a)) s

/-- Everywhere, the rule takes the text from the open brackets `before` to `after`. -/
def Takes (r : Rule α) (before : Brackets) (after : α → Brackets) : Prop :=
  ∀ s, r.TakesAt s before after

/-- At the place, the rule leaves the open brackets as they are. -/
def KeepsAt (r : Rule α) (s : Spot) : Prop := ∀ open_, r.TakesAt s open_ fun _ ↦ open_

/-- Everywhere, the rule leaves the open brackets as they are. -/
def Keeps (r : Rule α) : Prop := ∀ open_, r.Takes open_ fun _ ↦ open_

theorem Keeps.at {r : Rule α} (h : r.Keeps) (s : Spot) : r.KeepsAt s := fun open_ ↦ h open_ s

/-- A rule that leaves the brackets as they are leads from place to place. -/
theorem KeepsAt.ensures_leads {r : Rule α} (h : r.KeepsAt s) :
    r.Ensures (fun _ t ↦ s.Leads t) s := by
  cases hs : s.brackets with
  | none =>
    have hholds : s.Holds [] := fun b hb ↦ by simp [hs] at hb
    refine (h [] hholds).later.mono fun _ t ht ↦ ⟨ht.1, fun _ _ b hb ↦ ?_⟩
    simp [ht.1.brackets hs] at hb
  | some b =>
    have hholds : s.Holds b := fun b' hb' ↦ by simpa [hs, eq_comm] using hb'
    refine (h b hholds).later.mono fun _ t ht ↦ ⟨ht.1, fun open_ hopen ↦ ?_⟩
    rw [← hopen b hs]
    exact ht.2

/-! ### One rule after another -/

theorem TakesAt.bind {r : Rule α} {f : α → Rule β} {before : Brackets} {mid : α → Brackets}
    {after : β → Brackets} (hr : r.TakesAt s before mid)
    (hf : ∀ a t, s.Precedes t → (f a).TakesAt t (mid a) after) :
    (r >>= f).TakesAt s before after := by
  intro hs
  rw [ensures_bind]
  exact (hr hs).later.mono fun a t ht ↦ hf a t ht.1 ht.2

theorem Takes.bind {r : Rule α} {f : α → Rule β} {before : Brackets} {mid : α → Brackets}
    {after : β → Brackets} (hr : r.Takes before mid) (hf : ∀ a, (f a).Takes (mid a) after) :
    (r >>= f).Takes before after :=
  fun s ↦ (hr s).bind fun a t _ ↦ hf a t

theorem Keeps.bind {r : Rule α} {f : α → Rule β} (hr : r.Keeps) (hf : ∀ a, (f a).Keeps) :
    (r >>= f).Keeps :=
  fun open_ ↦ (hr open_).bind fun a ↦ hf a open_

theorem KeepsAt.bind {r : Rule α} {f : α → Rule β} (hr : r.KeepsAt s) (hf : ∀ a, (f a).Keeps) :
    (r >>= f).KeepsAt s :=
  fun open_ ↦ (hr open_).bind fun a t _ ↦ hf a open_ t

theorem takes_pure (result : α) (after : α → Brackets) :
    (Pure.pure result : Rule α).Takes (after result) after := fun _ hs ↦ hs

theorem keeps_pure (result : α) : (Pure.pure result : Rule α).Keeps :=
  fun open_ ↦ takes_pure result fun _ ↦ open_

theorem Takes.ite {c : Prop} [Decidable c] {r r' : Rule α} {before : Brackets}
    {after : α → Brackets} (h : c → r.Takes before after) (h' : ¬c → r'.Takes before after) :
    (if c then r else r').Takes before after := by
  split
  · next hc => exact h hc
  · next hc => exact h' hc

theorem TakesAt.ite {c : Prop} [Decidable c] {r r' : Rule α} {before : Brackets}
    {after : α → Brackets} (h : c → r.TakesAt s before after)
    (h' : ¬c → r'.TakesAt s before after) : (if c then r else r').TakesAt s before after := by
  split
  · next hc => exact h hc
  · next hc => exact h' hc

theorem Keeps.ite {c : Prop} [Decidable c] {r r' : Rule α} (h : r.Keeps) (h' : r'.Keeps) :
    (if c then r else r').Keeps :=
  fun open_ ↦ .ite (fun _ ↦ h open_) fun _ ↦ h' open_

theorem KeepsAt.ite {c : Prop} [Decidable c] {r r' : Rule α} (h : c → r.KeepsAt s)
    (h' : ¬c → r'.KeepsAt s) : (if c then r else r').KeepsAt s :=
  fun open_ ↦ .ite (fun hc ↦ h hc open_) fun hc ↦ h' hc open_

/-- Under a condition something is read before what follows in any case. -/
theorem TakesAt.guarded {c : Prop} [Decidable c] {r rest : Rule α} {before : Brackets}
    {after : α → Brackets} (hrest : rest.Takes before after)
    (h : c → rest.Takes before after → r.TakesAt s before after) :
    (if c then r else rest).TakesAt s before after :=
  .ite (fun hc ↦ h hc hrest) fun _ ↦ hrest s

theorem Takes.guarded {c : Prop} [Decidable c] {r rest : Rule α} {before : Brackets}
    {after : α → Brackets} (hrest : rest.Takes before after)
    (h : rest.Takes before after → r.Takes before after) :
    (if c then r else rest).Takes before after :=
  .ite (fun _ ↦ h hrest) fun _ ↦ hrest

theorem KeepsAt.guarded {c : Prop} [Decidable c] {r rest : Rule α} (hrest : rest.Keeps)
    (h : c → rest.Keeps → r.KeepsAt s) : (if c then r else rest).KeepsAt s :=
  .ite (fun hc ↦ h hc hrest) fun _ ↦ hrest.at s

theorem Keeps.guarded {c : Prop} [Decidable c] {r rest : Rule α} (hrest : rest.Keeps)
    (h : rest.Keeps → r.Keeps) : (if c then r else rest).Keeps := .ite (h hrest) hrest

/-! ### Looking -/

theorem TakesAt.look {next : View → Rule α} {before : Brackets} {after : α → Brackets}
    (h : s.Legible → ∀ previous, (next ⟨s.index, previous, s.ahead⟩).TakesAt s before after) :
    (look next).TakesAt s before after :=
  fun hs hlegible previous ↦ h hlegible previous hs

theorem KeepsAt.look {next : View → Rule α}
    (h : s.Legible → ∀ previous, (next ⟨s.index, previous, s.ahead⟩).KeepsAt s) :
    (look next).KeepsAt s :=
  fun open_ ↦ .look fun hs previous ↦ h hs previous open_

theorem Keeps.look {next : View → Rule α}
    (h : ∀ s : Spot, s.Legible → ∀ previous,
      (next ⟨s.index, previous, s.ahead⟩).KeepsAt s) : (look next).Keeps :=
  fun open_ s ↦ KeepsAt.look (h s) open_

theorem ensures_ask {question : Ahead → α} {f : α → Rule β} {Q : β → Spot → Prop}
    (h : (f (question s.ahead)).Ensures Q s) : (ask question >>= f).Ensures Q s := fun _ _ ↦ h

theorem TakesAt.ask {question : Ahead → α} {f : α → Rule β} {before : Brackets}
    {after : β → Brackets} (h : (f (question s.ahead)).TakesAt s before after) :
    (ask question >>= f).TakesAt s before after :=
  fun hs ↦ ensures_ask (h hs)

theorem KeepsAt.ask {question : Ahead → α} {f : α → Rule β}
    (h : (f (question s.ahead)).KeepsAt s) : (ask question >>= f).KeepsAt s :=
  fun open_ ↦ .ask (h open_)

theorem Keeps.ask {question : Ahead → α} {f : α → Rule β}
    (h : ∀ s, (f (question s.ahead)).KeepsAt s) : (ask question >>= f).Keeps :=
  fun open_ s ↦ KeepsAt.ask (h s) open_

/-- A rule that is read only where a question is answered with yes. -/
theorem Keeps.ifAsk {question : Ahead → Bool} {r r' : Rule α}
    (h : ∀ s, question s.ahead = true → r.KeepsAt s) (h' : r'.Keeps) :
    (Rule.ask question >>= fun b ↦ if b = true then r else r').Keeps :=
  .ask fun s ↦ .ite (h s) fun _ ↦ h'.at s

theorem keeps_ask (question : Ahead → α) : (ask question).Keeps := fun _ _ hs _ _ ↦ hs

/-- The rule neither moves nor reports an error. -/
def Quiet (r : Rule α) : Prop :=
  ∀ (s : Spot) (Q : α → Spot → Prop), (∀ a, Q a s) → r.Ensures Q s

theorem Quiet.keeps {r : Rule α} (h : r.Quiet) : r.Keeps := fun _ s hs ↦ h s _ fun _ ↦ hs

/-- After a quiet rule the place is the same. -/
theorem Quiet.takesAt_bind {r : Rule α} (hr : r.Quiet) {f : α → Rule β} {before : Brackets}
    {after : β → Brackets} (h : ∀ a, (f a).TakesAt s before after) :
    (r >>= f).TakesAt s before after := by
  intro hs
  rw [ensures_bind]
  exact hr s _ fun a ↦ h a hs

theorem Quiet.keepsAt_bind {r : Rule α} (hr : r.Quiet) {f : α → Rule β}
    (h : ∀ a, (f a).KeepsAt s) : (r >>= f).KeepsAt s :=
  fun open_ ↦ hr.takesAt_bind fun a ↦ h a open_

theorem Quiet.bind {r : Rule α} (hr : r.Quiet) {f : α → Rule β} (h : ∀ a, (f a).Quiet) :
    (r >>= f).Quiet := by
  intro s Q hQ
  rw [ensures_bind]
  exact hr s _ fun a ↦ h a s Q hQ

theorem quiet_pure (result : α) : (Pure.pure result : Rule α).Quiet := fun _ _ h ↦ h result

theorem quiet_ask (question : Ahead → α) : (ask question).Quiet := fun _ _ h _ _ ↦ h _

theorem quiet_here : here.Quiet := fun _ _ h _ _ ↦ h _

theorem quiet_inInterface : inInterface.Quiet := fun _ _ h _ ↦ h _

/-- Noting a feature may be left out of account. -/
theorem Quiet.require {r : Rule α} (h : r.Quiet) (f : Feature) (index : Nat) :
    (require f index r).Quiet := fun s Q hQ ↦ .inl (h s Q hQ)

theorem quiet_requireAt (f : Feature) (index : Nat) : (requireAt f index).Quiet :=
  (quiet_pure ()).require f index

theorem quiet_requireHere (f : Feature) : (requireHere f).Quiet := fun _ _ h _ _ ↦ .inl (h ())

theorem quiet_requireUses (start : Nat) (uses : List ScanUse) : (requireUses start uses).Quiet := by
  induction uses with
  | nil => exact quiet_pure ()
  | cons use uses ih => exact ih.require _ _

theorem Keeps.script {next : Bool → Rule α} (h : ∀ isScript, (next isScript).Keeps) :
    (script next).Keeps :=
  fun open_ s hs isScript ↦ h isScript open_ s hs

theorem Keeps.enclosing {next : List TypeKind → Rule α} (h : ∀ kinds, (next kinds).Keeps) :
    (enclosing next).Keeps :=
  fun open_ s hs kinds ↦ h kinds open_ s hs

/-! ### Moving -/

theorem takesAt_skip {count : Nat} {before after : Brackets}
    (hcount : count ≤ 1 ∨ count ≤ s.ahead.length) (hadmits : s.Admits count)
    (h : ∀ b, s.brackets = some b → before.after (s.ahead.take count) = some after) :
    (skip count).TakesAt s before fun _ ↦ after := by
  intro hs
  refine ⟨⟨hcount, fun b hb ↦ ?_, hadmits⟩, fun b hb ↦ ?_⟩
  · rw [hs b hb, h b hb]
    rfl
  · obtain ⟨b', hb', hafter⟩ := Option.bind_eq_some_iff.1 hb
    rw [hs b' hb', h b' hb'] at hafter
    exact (Option.some.inj hafter).symm

/-- Where the text is legible, its calling conventions may be taken to be as they should be. -/
theorem keepsAt_skip_of_legible {count : Nat} (hlegible : s.Legible)
    (h : count ≤ s.ahead.length ∧
      ∀ P, Regular P → Conventions P s.ahead → P (s.ahead.take count)) :
    (skip count).KeepsAt s := fun open_ ↦
  takesAt_skip (.inr h.1) (Spot.admits_of_allows fun w hw ↦
    h.2 _ w.regular_allows (hlegible.watch w hw)) fun b hb ↦
      WellBracketed.after_eq (h.2 _ WellBracketed.regular (hlegible.brackets b hb).2) open_

theorem keepsAt_skip {count : Nat} (h : s.ahead.Balanced count) : (skip count).KeepsAt s :=
  fun open_ ↦ takesAt_skip (.inr h.length_le)
    (Spot.admits_of_allows fun w _ ↦ h.regular _ w.regular_allows)
    fun _ _ ↦ WellBracketed.after_eq (h.regular _ WellBracketed.regular) open_

/-- The next token is passed over if it carries no features. -/
private theorem takesAt_skipToken_of_side {p : Token → Bool} {before after : Brackets}
    (h : s.ahead.head?.any p = true) (hp : ∀ t, p t = true →
      t.kind.bearsFeatures = false ∧ before.step t.side = some after) :
    skipToken.TakesAt s before fun _ ↦ after := by
  obtain ⟨t, rest, hahead, ht⟩ := Ahead.exists_of_any h
  obtain ⟨hfeatures, hstep⟩ := hp t ht
  refine takesAt_skip (.inl (Nat.le_refl 1)) (Spot.admits_of_allows fun w _ u hu ↦ ?_) fun _ _ ↦ ?_
  · rw [hahead, List.take_succ_cons, List.take_zero, List.mem_singleton] at hu
    exact Watch.allows_of_bearsFeatures (hu ▸ hfeatures)
  · rw [hahead, List.take_succ_cons, List.take_zero, Brackets.after_cons, hstep]
    rfl

theorem keepsAt_skipToken (h : s.ahead.IsPlain) : skipToken.KeepsAt s := by
  cases hahead : s.ahead with
  | nil =>
    refine fun open_ ↦ takesAt_skip (.inl (Nat.le_refl 1)) (Spot.admits_of_allows fun w _ t ht ↦ ?_)
      fun _ _ ↦ ?_
    · simp [hahead] at ht
    · rw [hahead]
      rfl
  | cons t rest =>
    have hplain := h t (by rw [hahead]; rfl)
    refine fun open_ ↦ takesAt_skipToken_of_side (p := (· == t)) (by simp [hahead]) fun u hu ↦ ?_
    rw [eq_of_beq hu, hplain.1]
    exact ⟨hplain.2, rfl⟩

theorem keepsAt_skip_two {p q : Token → Bool} (h : s.ahead.IsPlain) (h' : s.ahead.tail.IsPlain)
    (hp : s.ahead.head?.any p = true) (hq : s.ahead.tail.head?.any q = true) :
    (skip 2).KeepsAt s :=
  keepsAt_skip (h.balanced (Ahead.ne_nil_of_any hp) (h'.balanced (Ahead.ne_nil_of_any hq)
    (.zero _)))

theorem takesAt_skipToken {symbol : Symbol} (h : s.ahead.is symbol = true) :
    skipToken.TakesAt s (symbol.closes ++ open_) fun _ ↦ symbol.opens ++ open_ :=
  takesAt_skipToken_of_side h fun t ht ↦
    ⟨by rw [Token.kind_of_is ht]; rfl, by rw [Token.side_of_is ht, Brackets.step_symbol]⟩

theorem keepsAt_takeFeature {f : Feature} (h : s.ahead.IsPlain) : (takeFeature f).KeepsAt s := by
  intro open_ hs _ _
  exact .inl (keepsAt_skipToken h open_ hs)

/-- After the first token the second one comes next. -/
theorem KeepsAt.takeFeature {f : Feature} {r : Rule α} (h : s.ahead.IsPlain)
    (hr : ∀ t : Spot, t.ahead = s.ahead.tail → r.KeepsAt t) :
    (Rule.takeFeature f >>= fun _ ↦ r).KeepsAt s := by
  intro open_ hs
  rw [ensures_bind]
  intro _ _
  obtain ⟨hpassable, hholds⟩ := keepsAt_skipToken h open_ hs
  exact .inl ⟨hpassable, hr (s.pass 1) rfl open_ hholds⟩

theorem takesAt_takeFeature {symbol : Symbol} {f : Feature} (h : s.ahead.is symbol = true) :
    (takeFeature f).TakesAt s (symbol.closes ++ open_) fun _ ↦ symbol.opens ++ open_ :=
  (quiet_requireHere f).takesAt_bind fun _ ↦ takesAt_skipToken h

theorem takesAt_skipToken_of_opening {kind : Kind} {b : Bracket} (h : s.ahead.isKind kind = true)
    (hkind : kind.side = .opening b) (hfeatures : kind.bearsFeatures = false) :
    skipToken.TakesAt s open_ fun _ ↦ b :: open_ :=
  takesAt_skipToken_of_side h fun t ht ↦ by
    rw [Token.side, eq_of_beq ht, hkind]
    exact ⟨hfeatures, rfl⟩

theorem takesAt_skipToken_of_closing {kind : Kind} {b : Bracket} (h : s.ahead.isKind kind = true)
    (hkind : kind.side = .closing b) (hfeatures : kind.bearsFeatures = false) :
    skipToken.TakesAt s (b :: open_) fun _ ↦ open_ :=
  takesAt_skipToken_of_side h fun t ht ↦ by
    rw [Token.side, eq_of_beq ht, hkind]
    exact ⟨hfeatures, Brackets.step_closing.2 rfl⟩

/-- Where an error has been found, anything may be passed over. -/
theorem takesAt_skip_of_failed {count : Nat} (h : s.Failed)
    (hcount : count ≤ 1 ∨ count ≤ s.ahead.length) (before : Brackets)
    (after : Unit → Brackets) : (skip count).TakesAt s before after := by
  intro _
  refine ⟨⟨hcount, fun b hb ↦ ?_, fun w hw ↦ ?_⟩, fun b hb ↦ ?_⟩
  · simp [h.1] at hb
  · simp [h.2] at hw
  · simp [Spot.pass, h.1] at hb

/-- A token is passed over where it has been seen. -/
theorem ensures_acceptIf {question : Ahead → Bool} {f : Bool → Rule α} {Q : α → Spot → Prop}
    (h : question s.ahead = true → (skipToken >>= fun _ ↦ f true).Ensures Q s)
    (h' : s.Legible → question s.ahead = false → (f false).Ensures Q s) :
    (acceptIf question >>= f).Ensures Q s := by
  rw [ensures_bind, Rule.acceptIf, ensures_bind]
  intro hlegible _
  change (if question s.ahead = true then skipToken >>= fun _ ↦ Pure.pure true
    else Pure.pure false : Rule Bool).Ensures _ s
  by_cases hquestion : question s.ahead = true
  · rw [if_pos hquestion, ensures_bind]
    exact ensures_bind.1 (h hquestion)
  · rw [if_neg hquestion]
    exact h' hlegible (Bool.not_eq_true _ ▸ hquestion)

theorem KeepsAt.acceptIf {question : Ahead → Bool} {f : Bool → Rule α}
    (h : question s.ahead = true → (skipToken >>= fun _ ↦ f true).KeepsAt s)
    (h' : question s.ahead = false → (f false).KeepsAt s) :
    (Rule.acceptIf question >>= f).KeepsAt s :=
  fun open_ hs ↦ ensures_acceptIf (fun hq ↦ h hq open_ hs) fun _ hq ↦ h' hq open_ hs

theorem keeps_acceptIf {question : Ahead → Bool} (h : ∀ ts, question ts = true → ts.IsPlain) :
    (acceptIf question).Keeps :=
  .ifAsk (fun s hs ↦ (keepsAt_skipToken (h s.ahead hs)).bind fun _ ↦ keeps_pure true)
    (keeps_pure false)

theorem takes_accept (symbol : Symbol) (open_ : Brackets) :
    (accept symbol).Takes (symbol.closes ++ open_)
      fun b ↦ if b then symbol.opens ++ open_ else symbol.closes ++ open_ := by
  intro s
  refine .ask (.ite (fun h ↦ (takesAt_skipToken h).bind fun _ t _ ↦ ?_) fun _ ↦ ?_)
  · exact takes_pure true (fun b ↦ if b then symbol.opens ++ open_ else symbol.closes ++ open_) t
  · exact takes_pure false (fun b ↦ if b then symbol.opens ++ open_ else symbol.closes ++ open_) s

theorem Takes.ifAccept {symbol : Symbol} {r r' : Rule α} {after : α → Brackets}
    (h : r.Takes (symbol.opens ++ open_) after) (h' : r'.Takes (symbol.closes ++ open_) after) :
    (Rule.accept symbol >>= fun b ↦ if b = true then r else r').Takes
      (symbol.closes ++ open_) after :=
  (takes_accept symbol open_).bind fun b ↦ by
    cases b with
    | true => exact h
    | false => exact h'

theorem keeps_accept {symbol : Symbol} (h : symbol.side = .neither) : (accept symbol).Keeps :=
  keeps_acceptIf fun _ hts ↦ Ahead.isPlain_of_is hts h

theorem keeps_acceptWord (k : Keyword) : (acceptWord k).Keeps :=
  keeps_acceptIf fun _ ↦ Ahead.isPlain_of_isWord

/-! ### Reporting -/

theorem keeps_errorHere {e : GrammarError} (he : e ≠ .tooComplex) : (errorHere e).Keeps :=
  fun open_ s _ ↦ ⟨he, s.holds_fail open_⟩

theorem keeps_errorMissing {e : GrammarError} (he : e ≠ .tooComplex) : (errorMissing e).Keeps :=
  fun open_ s _ ↦ ⟨he, s.holds_fail open_⟩

/-- After an error nothing is asked of the rules that follow. -/
theorem TakesAt.errorHere {e : GrammarError} {f : Unit → Rule α} {before : Brackets}
    {after : α → Brackets} (he : e ≠ .tooComplex)
    (h : ∀ t : Spot, t.Failed → t.index = s.index → t.ahead = s.ahead →
      (f ()).TakesAt t before after) : (errorHere e >>= f).TakesAt s before after :=
  fun _ ↦ ⟨he, h s.fail s.failed_fail rfl rfl (s.holds_fail before)⟩

theorem TakesAt.errorMissing {e : GrammarError} {f : Unit → Rule α} {before : Brackets}
    {after : α → Brackets} (he : e ≠ .tooComplex)
    (h : ∀ t : Spot, t.Failed → t.index = s.index → t.ahead = s.ahead →
      (f ()).TakesAt t before after) : (errorMissing e >>= f).TakesAt s before after :=
  fun _ ↦ ⟨he, h s.fail s.failed_fail rfl rfl (s.holds_fail before)⟩

theorem keeps_expectIf {question : Ahead → Bool} {e : GrammarError} (he : e ≠ .tooComplex)
    (h : ∀ ts, question ts = true → ts.IsPlain) : (expectIf question e).Keeps := by
  refine (keeps_acceptIf h).bind fun b ↦ .ite (keeps_pure true) ?_
  exact (keeps_errorMissing he).bind fun _ ↦ keeps_pure false

/-- Where something expected is missing, an error has been found. -/
theorem TakesAt.expectIf {question : Ahead → Bool} {e : GrammarError} {f : Bool → Rule α}
    {before mid : Brackets} {after : α → Brackets} (he : e ≠ .tooComplex)
    (hq : question s.ahead = true → skipToken.TakesAt s before fun _ ↦ mid)
    (h : ∀ t, s.Precedes t → (f true).TakesAt t mid after)
    (h' : ∀ t : Spot, t.Failed → s.Precedes t → (f false).TakesAt t mid after) :
    (expectIf question e >>= f).TakesAt s before after := by
  intro hs
  rw [ensures_bind, Rule.expectIf]
  refine ensures_acceptIf (fun hquestion ↦ ?_) fun _ _ ↦ ?_
  · rw [ensures_bind]
    exact (hq hquestion hs).later.mono fun _ t ht ↦ h t ht.1 ht.2
  · exact ⟨he, h' s.fail s.failed_fail s.precedes_fail (s.holds_fail mid)⟩

theorem TakesAt.expect {symbol : Symbol} {f : Bool → Rule α} {after : α → Brackets}
    (h : ∀ t, s.Precedes t → (f true).TakesAt t (symbol.opens ++ open_) after)
    (h' : ∀ t : Spot, t.Failed → s.Precedes t →
      (f false).TakesAt t (symbol.opens ++ open_) after) :
    (expect symbol >>= f).TakesAt s (symbol.closes ++ open_) after :=
  .expectIf nofun takesAt_skipToken h h'

/-- What follows an expected symbol, if it is there. -/
theorem Takes.ifExpect {symbol : Symbol} {r : Rule Unit} {after : Brackets}
    (h : r.Takes (symbol.opens ++ open_) fun _ ↦ after) :
    (Rule.expect symbol >>= fun b ↦ if b = true then r else Pure.pure ()).Takes
      (symbol.closes ++ open_) fun _ ↦ after :=
  fun _ ↦ .expect (fun t _ ↦ h t) fun _ ht _ _ ↦ ht.holds after

theorem Keeps.ifExpect {symbol : Symbol} {r : Rule Unit} (hsymbol : symbol.closes = [])
    (h : ∀ open_, r.Takes (symbol.opens ++ open_) fun _ ↦ open_) :
    (Rule.expect symbol >>= fun b ↦ if b = true then r else Pure.pure ()).Keeps := by
  intro open_
  have hexpect := Takes.ifExpect (h open_)
  rw [hsymbol] at hexpect
  exact hexpect

theorem takes_need (symbol : Symbol) (open_ : Brackets) :
    (need symbol).Takes (symbol.closes ++ open_) fun _ ↦ symbol.opens ++ open_ :=
  fun _ ↦ .expect (fun t _ ↦ keeps_pure () _ t) fun t _ _ ↦ keeps_pure () _ t

theorem keeps_need {symbol : Symbol} (h : symbol.side = .neither) : (need symbol).Keeps := by
  intro open_
  have hneed := takes_need symbol open_
  simp only [Symbol.closes, Symbol.opens, h] at hneed
  exact hneed

/-- Where the symbol does not come next, an error is found. -/
theorem keepsAt_need_of_not {symbol : Symbol} (h : s.ahead.is symbol = false) :
    (need symbol).KeepsAt s :=
  fun open_ ↦ .expectIf nofun (fun hs ↦ by simp [h] at hs) (fun t _ ↦ keeps_pure () open_ t)
    fun t _ _ ↦ keeps_pure () open_ t

theorem keeps_needWord (k : Keyword) : (needWord k).Keeps := by
  refine (keeps_expectIf (by simp) fun ts hts ↦ ?_).bind fun _ ↦ keeps_pure ()
  rw [Bool.or_eq_true] at hts
  exact hts.elim Ahead.isPlain_of_isWord Ahead.isPlain_of_isContextual

theorem keeps_needContextual (word : String) : (needContextual word).Keeps :=
  (keeps_expectIf (by simp) fun _ ↦ Ahead.isPlain_of_isContextual).bind fun _ ↦ keeps_pure ()

theorem keeps_expectIdentifier : expectIdentifier.Keeps :=
  keeps_expectIf (by simp) fun _ ↦ Ahead.isPlain_of_isIdentifier

theorem keeps_needIdentifier : needIdentifier.Keeps :=
  keeps_expectIdentifier.bind fun _ ↦ keeps_pure ()

theorem keeps_allow {symbol : Symbol} (h : symbol.side = .neither) : (allow symbol).Keeps :=
  (keeps_accept h).bind fun _ ↦ keeps_pure ()

theorem keeps_allowWord (k : Keyword) : (allowWord k).Keeps :=
  (keeps_acceptWord k).bind fun _ ↦ keeps_pure ()

/-! ### Nonterminals -/

theorem takesAt_call {q : Nonterminal} {next : q.Result → Rule α} {before : Brackets}
    {after : α → Brackets} (hq : q.Admits s.ahead)
    (h : ∀ result, (next result).Takes before after) : (call q next).TakesAt s before after :=
  fun hs ↦ ⟨hq, fun result t ht ↦ h result t (ht.2 before hs)⟩

theorem keeps_expression : expression.Keeps :=
  fun open_ _ ↦ takesAt_call trivial fun _ ↦ keeps_pure () open_

theorem keeps_statement : statement.Keeps :=
  fun open_ _ ↦ takesAt_call trivial fun _ ↦ keeps_pure () open_

theorem keeps_pattern : pattern.Keeps :=
  fun open_ _ ↦ takesAt_call trivial fun kind ↦ keeps_pure kind open_

theorem keeps_unary : unary.Keeps :=
  fun open_ _ ↦ takesAt_call trivial fun b ↦ keeps_pure b open_

theorem keeps_initializer : initializer.Keeps :=
  fun open_ _ ↦ takesAt_call trivial fun _ ↦ keeps_pure () open_

theorem keeps_member : member.Keeps :=
  fun open_ _ ↦ takesAt_call trivial fun _ ↦ keeps_pure () open_

/-! ### Moving on -/

/-- Started at the place, the rule has moved on whenever it ends with such a result. -/
def MovesAt (r : Rule α) (s : Spot) (moved : α → Prop) : Prop :=
  ∀ Q, r.Ensures Q s → r.Ensures (fun a t ↦ Q a t ∧ (moved a → s.index < t.index)) s

/-- Wherever it is started, the rule has moved on whenever it ends with such a result. -/
def Moves (r : Rule α) (moved : α → Prop) : Prop := ∀ s, r.MovesAt s moved

theorem movesAt_of_false (r : Rule α) (s : Spot) : r.MovesAt s fun _ ↦ False :=
  fun _ h ↦ h.mono fun _ _ hQ ↦ ⟨hQ, False.elim⟩

/-- The second rule need only move if the first one has not. -/
theorem MovesAt.bind {r : Rule α} {f : α → Rule β} {moved : α → Prop} {moved' : β → Prop}
    (hr : r.MovesAt s moved)
    (hf : ∀ a t, s.Precedes t → ¬moved a → s.index = t.index → (f a).MovesAt t moved') :
    (r >>= f).MovesAt s moved' := by
  intro Q h
  rw [ensures_bind] at h ⊢
  refine (hr _ h).later.mono fun a t ht ↦ ?_
  obtain ⟨hst, hQ, hmoved⟩ := ht
  have hle := hst.index_le
  by_cases hlt : s.index < t.index
  · refine hQ.later.mono fun b u hu ↦ ⟨hu.2, fun _ ↦ ?_⟩
    have hle' := hu.1.index_le
    omega
  · have hindex : s.index = t.index := by omega
    have hstays : ¬moved a := fun ha ↦ hlt (hmoved ha)
    refine (hf a t hst hstays hindex Q hQ).mono fun b u hu ↦ ⟨hu.1, fun hb ↦ ?_⟩
    have hlt' := hu.2 hb
    omega

theorem MovesAt.bind_left {r : Rule α} {f : α → Rule β} (hr : r.MovesAt s fun _ ↦ True)
    (moved : β → Prop) : (r >>= f).MovesAt s moved :=
  hr.bind fun _ _ _ h ↦ absurd trivial h

/-- A rule moves if what comes after its first part does. -/
theorem MovesAt.bind_right {r : Rule α} {f : α → Rule β} {moved : β → Prop}
    (hf : ∀ a t, s.Precedes t → s.index = t.index → (f a).MovesAt t moved) :
    (r >>= f).MovesAt s moved :=
  (movesAt_of_false r s).bind fun a t hst _ ↦ hf a t hst

theorem movesAt_pure {result : α} {moved : α → Prop} (h : ¬moved result) :
    (Pure.pure result : Rule α).MovesAt s moved :=
  fun _ hQ ↦ ⟨hQ, fun hresult ↦ absurd hresult h⟩

theorem MovesAt.ite {c : Prop} [Decidable c] {r r' : Rule α} {moved : α → Prop}
    (h : c → r.MovesAt s moved) (h' : ¬c → r'.MovesAt s moved) :
    (if c then r else r').MovesAt s moved := by
  split
  · next hc => exact h hc
  · next hc => exact h' hc

theorem MovesAt.look {next : View → Rule α} {moved : α → Prop}
    (h : ∀ previous, (next ⟨s.index, previous, s.ahead⟩).MovesAt s moved) :
    (look next).MovesAt s moved :=
  fun Q hnext hlegible previous ↦ h previous Q (hnext hlegible previous)

theorem MovesAt.ask {question : Ahead → α} {f : α → Rule β} {moved : β → Prop}
    (h : (f (question s.ahead)).MovesAt s moved) : (ask question >>= f).MovesAt s moved :=
  .look fun _ ↦ h

theorem MovesAt.here {f : Nat → Rule β} {moved : β → Prop} (h : (f s.index).MovesAt s moved) :
    (Rule.here >>= f).MovesAt s moved := .look fun _ ↦ h

theorem movesAt_skip {count : Nat} (hcount : 0 < count) (hahead : s.ahead ≠ []) :
    (skip count).MovesAt s fun _ ↦ True := by
  intro Q h
  refine ⟨h.1, h.2, fun _ ↦ ?_⟩
  have hlength := List.length_pos_iff.2 hahead
  simp only [Spot.pass]
  omega

theorem movesAt_skipToken (hahead : s.ahead ≠ []) : skipToken.MovesAt s fun _ ↦ True :=
  movesAt_skip Nat.one_pos hahead

theorem movesAt_takeFeature {f : Feature} (hahead : s.ahead ≠ []) :
    (takeFeature f).MovesAt s fun _ ↦ True :=
  .bind_right fun _ _ hst hindex ↦ movesAt_skipToken (hst.ahead_eq hindex.symm ▸ hahead)

theorem moves_acceptIf {question : Ahead → Bool} (h : question [] = false) :
    (acceptIf question).Moves (· = true) := by
  refine fun s ↦ .ask (.ite (fun hs ↦ .bind_left (movesAt_skipToken ?_) _) fun _ ↦ ?_)
  · rintro hnil
    rw [hnil, h] at hs
    contradiction
  · exact movesAt_pure Bool.false_ne_true

/-- A rule that goes on only where it has not moved yet. -/
theorem MovesAt.ifAcceptIf {question : Ahead → Bool} {r r' : Rule α} {moved : α → Prop}
    (h : question [] = false) (h' : ∀ t, s.Precedes t → s.index = t.index → r'.MovesAt t moved) :
    (Rule.acceptIf question >>= fun b ↦ if b = true then r else r').MovesAt s moved := by
  refine (moves_acceptIf h s).bind fun b t hst hb hindex ↦ ?_
  rw [if_neg hb]
  exact h' t hst hindex

theorem moves_accept (symbol : Symbol) : (accept symbol).Moves (· = true) := moves_acceptIf rfl

theorem moves_acceptWord (k : Keyword) : (acceptWord k).Moves (· = true) := moves_acceptIf rfl

/-! ### Repeating -/

/-- A loop whose rounds keep an invariant, up to the last one. -/
theorem ensures_loop {init : σ} {round : σ → Rule (Round σ)} {next : σ → Rule α}
    {I : Spot → Prop} {J : σ → Spot → Prop} {Q : α → Spot → Prop} (hs : I s)
    (hround : ∀ state t, I t → (round state).Ensures (fun outcome u ↦
      match outcome with
      | .again _ => I u
      | .stop state => J state u) t)
    (hmoves : ∀ state, (round state).Moves fun outcome ↦ ∃ state', outcome = .again state')
    (hnext : ∀ state t, J state t → (next state).Ensures Q t) :
    (loop init round next).Ensures Q s := by
  refine ⟨fun _ t ↦ I t, hs, fun state t ht ↦ ?_⟩
  refine (hmoves state t _ (hround state t ht)).mono ?_
  rintro (state' | state') u ⟨hu, hmoved⟩
  · exact ⟨hmoved ⟨state', rfl⟩, hu⟩
  · exact hnext state' u hu

/-- A loop whose rounds leave the brackets as they are, up to the last one. -/
theorem takes_loop {init : σ} {round : σ → Rule (Round σ)} {next : σ → Rule α}
    {before mid : Brackets} {after : α → Brackets}
    (hround : ∀ state, (round state).Takes before fun outcome ↦
      match outcome with
      | .again _ => before
      | .stop _ => mid)
    (hmoves : ∀ state, (round state).Moves fun outcome ↦ ∃ state', outcome = .again state')
    (hnext : ∀ state, (next state).Takes mid after) :
    (loop init round next).Takes before after := by
  refine fun s hs ↦ ensures_loop (I := fun t ↦ t.Holds before) (J := fun _ t ↦ t.Holds mid) hs
    (fun state t ht ↦ ?_) hmoves hnext
  refine (hround state t ht).mono ?_
  rintro (state' | state') u hu <;> exact hu

theorem keeps_loop {init : σ} {round : σ → Rule (Round σ)} {next : σ → Rule α}
    (hround : ∀ state, (round state).Keeps)
    (hmoves : ∀ state, (round state).Moves fun outcome ↦ ∃ state', outcome = .again state')
    (hnext : ∀ state, (next state).Keeps) : (loop init round next).Keeps := by
  refine fun open_ ↦ takes_loop (fun state s hs ↦ ?_) hmoves fun state ↦ hnext state open_
  refine (hround state open_ s hs).mono ?_
  rintro (state' | state') t ht <;> exact ht

/-- A repetition whose last round may close a bracket. -/
theorem takes_repeating {round : Rule Bool} {before after : Brackets}
    (hround : round.Takes before fun again ↦ if again then before else after)
    (hmoves : round.Moves (· = true)) : (repeating round).Takes before fun _ ↦ after := by
  refine takes_loop (fun _ ↦ hround.bind fun b ↦ ?_) (fun _ s ↦ ?_) fun _ ↦ keeps_pure _ after
  · cases b with
    | true => exact fun _ hs ↦ hs
    | false => exact fun _ hs ↦ hs
  · refine (hmoves s).bind fun b t _ hb _ ↦ movesAt_pure ?_
    rw [if_neg hb]
    rintro ⟨state, h⟩
    contradiction

theorem keeps_repeating {round : Rule Bool} (hround : round.Keeps)
    (hmoves : round.Moves (· = true)) : (repeating round).Keeps := by
  refine fun open_ ↦ takes_repeating (fun s hs ↦ (hround open_ s hs).mono fun b t ht ↦ ?_) hmoves
  cases b <;> exact ht

theorem keeps_whileAhead {question : Ahead → Bool} {body : Rule Unit}
    (hbody : ∀ s, question s.ahead = true → body.KeepsAt s)
    (hmoves : ∀ s, question s.ahead = true → body.MovesAt s fun _ ↦ True) :
    (whileAhead question body).Keeps := by
  refine keeps_repeating (.ifAsk (fun s hs ↦ (hbody s hs).bind fun _ ↦ keeps_pure true)
    (keeps_pure false)) fun s ↦ .ask (.ite (fun hs ↦ .bind_left (hmoves s hs) _) fun _ ↦ ?_)
  exact movesAt_pure Bool.false_ne_true

theorem keeps_commaSeparated {item : Rule Unit} (h : item.Keeps) : (commaSeparated item).Keeps :=
  keeps_repeating (h.bind fun _ ↦ keeps_accept rfl) fun _ ↦
    .bind_right fun _ t _ _ ↦ moves_accept .comma t

theorem keeps_commaSeparatedWith {init : σ} {item : σ → Rule σ}
    (h : ∀ state, (item state).Keeps) : (commaSeparatedWith init item).Keeps := by
  refine keeps_loop (fun state ↦ (h state).bind fun _ ↦ (keeps_accept rfl).bind fun _ ↦
    keeps_pure _) (fun state s ↦ .bind_right fun _ t _ _ ↦ (moves_accept .comma t).bind
      fun b _ _ hb _ ↦ movesAt_pure ?_) fun _ ↦ keeps_pure _
  rw [if_neg hb]
  rintro ⟨state, h⟩
  contradiction

theorem keeps_commaSeparatedUpTo {symbol : Symbol} {item : Rule Unit} (h : item.Keeps) :
    (commaSeparatedUpTo symbol item).Keeps := by
  refine keeps_repeating (.ifAsk (fun s _ ↦ (h.at s).bind fun _ ↦ keeps_accept rfl)
    (keeps_pure false)) fun s ↦ .ask (.ite (fun _ ↦ ?_) fun _ ↦ movesAt_pure Bool.false_ne_true)
  exact .bind_right fun _ t _ _ ↦ moves_accept .comma t

end Rule

end CSharpCheck
