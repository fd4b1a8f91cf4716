import ScriptLang.Proofs.Rule.Agreement

namespace ScriptLang.Rule

variable {α β : Type} {n : Nat}

/-- A relation between a value, the index of its first token, its tokens, the tokens after them and
the errors recorded on the way. -/
abbrev Outcome (α : Type) : Type :=
  α → Nat → List Token → List Token → List SyntaxError → Prop

/-- Whatever the rule comes to where at most `n` tokens are left satisfies the relation. -/
def Yields (n : Nat) (r : Rule α) (R : Outcome α) : Prop :=
  ∀ c, c.rest.length ≤ n → ∀ value c' errors, r c = ⟨.done value, c', errors⟩ →
    ∃ used, c.Moves used c' ∧ R value c.position used c'.rest errors

def Misses (kinds : List TokenKind) (tokens : List Token) : Prop :=
  ∀ token ∈ tokens.head?, token.kind = .eof ∨ token.kind ∉ kinds

variable {p : Rule α} {f : α → Rule β} {P P' : Outcome α} {R : Outcome β}

theorem Yields.mono {m : Nat} (h : Yields n p P) (hm : m ≤ n) : Yields m p P :=
  fun c hc => h c (Nat.le_trans hc hm)

theorem Yields.imp (h : Yields n p P)
    (himp : ∀ value start ts rest errors, P value start ts rest errors →
      P' value start ts rest errors) : Yields n p P' := by
  intro c hc value c' errors hdone
  obtain ⟨used, hm, hp⟩ := h c hc value c' errors hdone
  exact ⟨used, hm, himp _ _ _ _ _ hp⟩

theorem yields_pure {value : α} (h : ∀ start rest, P value start [] rest []) :
    Yields n (pure value) P := by
  intro c _ value' c' errors hdone
  cases hdone
  exact ⟨[], .refl c, h c.position c.rest⟩

theorem yields_stop (fault : SyntaxFault) : Yields n (stop fault) P := by
  rintro ⟨position, rest, openBlocks⟩ - value c' errors hdone
  cases rest <;> cases hdone

theorem Yields.bind (hp : Yields n p P)
    (hf : ∀ value, Yields n (f value) fun result middle us rest errors' =>
      ∀ start ts errors, middle = start + ts.length → P value start ts (us ++ rest) errors →
        R result start (ts ++ us) rest (errors ++ errors')) : Yields n (p >>= f) R := by
  intro c hc value c' errors hdone
  obtain ⟨first, middle, before, later, hfirst, hsecond, rfl⟩ := bind_eq_done_iff.mp hdone
  obtain ⟨ts, hts, hP⟩ := hp c hc first middle before hfirst
  have hle := hts.length_le
  obtain ⟨us, hus, hR⟩ := hf first middle (by omega) value c' later hsecond
  refine ⟨ts ++ us, hts.trans hus, hR c.position ts before hts.position_eq ?_⟩
  rw [← hus.rest_eq]
  exact hP

theorem Yields.map (g : α → β) (hp : Yields n p P)
    (h : ∀ value start ts rest errors, P value start ts rest errors →
      R (g value) start ts rest errors) : Yields n (g <$> p) R := by
  rw [map_eq_bind]
  refine hp.bind fun value => yields_pure ?_
  intro middle rest start ts errors _ hP
  rw [List.append_nil, List.append_nil]
  exact h value start ts rest errors hP

theorem yields_position {f : Nat → Rule β}
    (hf : ∀ here, Yields n (f here) fun result start ts rest errors =>
      here = start → R result start ts rest errors) : Yields n (position >>= f) R := by
  intro c hc value c' errors hdone
  have hposition : position c = ⟨.done c.position, c, []⟩ := rfl
  rw [bind_of_done hposition, Reading.after_nil] at hdone
  obtain ⟨used, hm, hR⟩ := hf c.position c hc value c' errors hdone
  exact ⟨used, hm, hR rfl⟩

theorem yields_recordError (error : SyntaxError) {f : Unit → Rule β}
    (hf : Yields n (f ()) fun result start ts rest errors =>
      R result start ts rest (error :: errors)) : Yields n (recordError error >>= f) R := by
  intro c hc value c' errors hdone
  have hrecord : recordError error c = ⟨.done (), c, [error]⟩ := rfl
  rw [bind_of_done hrecord] at hdone
  rcases hr : f () c with ⟨ending, cursor, later⟩
  rw [hr] at hdone
  cases hdone
  exact hf c hc value cursor later hr

theorem yields_flag (fault : SyntaxFault) {f : Unit → Rule β}
    (hf : Yields n (f ()) fun result start ts rest errors =>
      ∀ token ∈ (ts ++ rest).head?, R result start ts rest (⟨fault, token, start⟩ :: errors)) :
    Yields n (flag fault >>= f) R := by
  rintro ⟨position, tokens, openBlocks⟩ hc value c' errors hdone
  cases tokens with
  | nil => cases hdone
  | cons token tokens =>
    have hflag : flag fault ⟨position, token :: tokens, openBlocks⟩ =
        ⟨.done (), ⟨position, token :: tokens, openBlocks⟩, [⟨fault, token, position⟩]⟩ := rfl
    rw [bind_of_done hflag] at hdone
    rcases hr : f () ⟨position, token :: tokens, openBlocks⟩ with ⟨ending, cursor, later⟩
    rw [hr] at hdone
    cases hdone
    obtain ⟨used, hm, hR⟩ := hf _ hc value cursor later hr
    refine ⟨used, hm, hR token ?_⟩
    rw [← hm.rest_eq]
    rfl

theorem yields_isNext (kind : TokenKind) {f : Bool → Rule β} (hf : ∀ found, Yields n (f found) R) :
    Yields n (isNext kind >>= f) R := by
  rintro ⟨position, tokens, openBlocks⟩ hc value c' errors hdone
  cases tokens with
  | nil => cases hdone
  | cons token tokens =>
    rw [bind_of_done (isNext_cons position openBlocks tokens kind), Reading.after_nil] at hdone
    exact hf _ _ hc value c' errors hdone

/-- A choice by the next token: past a token of one of these kinds fewer tokens are left. -/
theorem yields_accept? {kinds : List TokenKind} {f : Option Token → Rule β}
    (hsome : ∀ token m, token.kind ∈ kinds → m < n →
      Yields m (f (some token)) fun result middle us rest errors =>
        ∀ start, middle = start + 1 → R result start (token :: us) rest errors)
    (hnone : Yields n (f none) fun result start ts rest errors =>
      Misses kinds (ts ++ rest) → R result start ts rest errors) :
    Yields n (accept? kinds >>= f) R := by
  intro c hc value c' errors hdone
  obtain ⟨found, middle, before, later, ha, hf, rfl⟩ := bind_eq_done_iff.mp hdone
  obtain ⟨rfl, token, tokens, hrest, ⟨rfl, hk, -, rfl⟩ | ⟨rfl, hk, rfl⟩⟩ := accept?_eq_done ha
  · have hlen : c.rest.length = tokens.length + 1 := by simp [hrest]
    obtain ⟨us, hus, hR⟩ := hsome token tokens.length hk (by omega)
      ⟨c.position + 1, tokens, c.openBlocks⟩ (Nat.le_refl _) value c' later hf
    exact ⟨token :: us, (Cursor.moves_next hrest).trans hus, hR c.position rfl⟩
  · obtain ⟨used, hm, hR⟩ := hnone middle hc value c' later hf
    refine ⟨used, hm, hR ?_⟩
    rw [← hm.rest_eq, hrest]
    intro first hfirst
    cases hfirst
    exact hk

theorem yields_expectNamed {kind : TokenKind} (expected context : String) {f : Token → Rule β}
    (hf : ∀ token, token.kind = kind → Yields n (f token) fun result middle us rest errors =>
      ∀ start, middle = start + 1 → R result start (token :: us) rest errors) :
    Yields n (expectNamed kind expected context >>= f) R := by
  intro c hc value c' errors hdone
  obtain ⟨token, middle, before, later, he, hnext, rfl⟩ := bind_eq_done_iff.mp hdone
  obtain ⟨rfl, tokens, hrest, hk, -, rfl⟩ := expectNamed_eq_done he
  have hlen : c.rest.length = tokens.length + 1 := by simp [hrest]
  have hle : tokens.length ≤ n := by omega
  obtain ⟨us, hus, hR⟩ :=
    hf token hk ⟨c.position + 1, tokens, c.openBlocks⟩ hle value c' later hnext
  exact ⟨token :: us, (Cursor.moves_next hrest).trans hus, hR c.position rfl⟩

end ScriptLang.Rule
