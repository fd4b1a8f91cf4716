import ScriptLang.Proofs.Rule.Agreement

namespace ScriptLang.Rule

variable {α β : Type} {openBlocks start : Nat} {ts us rest : List Token}
  {errors errors' : List SyntaxError}

/-- With so many blocks open, the rule uses up `ts` before `rest` and comes to this value, and it
records these errors. -/
def Reads (openBlocks : Nat) (r : Rule α) (start : Nat) (ts rest : List Token) (value : α)
    (errors : List SyntaxError) : Prop :=
  r ⟨start, ts ++ rest, openBlocks⟩ = ⟨.done value, ⟨start + ts.length, rest, openBlocks⟩, errors⟩

def Follows (kinds : List TokenKind) (rest : List Token) : Prop :=
  ∃ token later, rest = token :: later ∧ token.kind ∉ kinds

theorem Follows.mono {kinds kinds' : List TokenKind} (h : Follows kinds rest)
    (hsub : kinds' ⊆ kinds) : Follows kinds' rest := by
  obtain ⟨token, later, rfl, hk⟩ := h
  exact ⟨token, later, rfl, fun hmem => hk (hsub hmem)⟩

theorem follows_nil_append {kinds : List TokenKind} (h : Follows kinds rest) (us : List Token) :
    Follows [] (us ++ rest) := by
  obtain ⟨token, later, rfl, -⟩ := h
  cases us with
  | nil => exact ⟨token, later, rfl, by simp⟩
  | cons first us => exact ⟨first, us ++ token :: later, rfl, by simp⟩

theorem reads_pure (value : α) (start : Nat) (rest : List Token) :
    Reads openBlocks (pure value) start [] rest value [] := rfl

theorem Reads.bind {p : Rule α} {f : α → Rule β} {value : α} {result : β}
    (hp : Reads openBlocks p start ts (us ++ rest) value errors)
    (hf : Reads openBlocks (f value) (start + ts.length) us rest result errors') :
    Reads openBlocks (p >>= f) start (ts ++ us) rest result (errors ++ errors') := by
  unfold Reads at *
  rw [List.append_assoc, bind_of_done hp, hf, Reading.after_mk,
    List.length_append, Nat.add_assoc]

theorem Reads.bind_nil {p : Rule α} {f : α → Rule β} {value : α} {result : β}
    (hp : Reads openBlocks p start ts rest value errors)
    (hf : Reads openBlocks (f value) (start + ts.length) [] rest result errors') :
    Reads openBlocks (p >>= f) start ts rest result (errors ++ errors') := by
  unfold Reads at *
  have hrest : f value ⟨start + ts.length, rest, openBlocks⟩ =
      ⟨.done result, ⟨start + ts.length, rest, openBlocks⟩, errors'⟩ := hf
  rw [bind_of_done hp, hrest, Reading.after_mk]

theorem reads_position {f : Nat → Rule β} {result : β}
    (hf : Reads openBlocks (f start) start ts rest result errors) :
    Reads openBlocks (position >>= f) start ts rest result errors := by
  unfold Reads at *
  have hposition : position ⟨start, ts ++ rest, openBlocks⟩ =
      ⟨.done start, ⟨start, ts ++ rest, openBlocks⟩, []⟩ := rfl
  rw [bind_of_done hposition, hf, Reading.after_nil]

theorem reads_recordError (error : SyntaxError) {f : Unit → Rule β} {result : β}
    (hf : Reads openBlocks (f ()) start ts rest result errors) :
    Reads openBlocks (recordError error >>= f) start ts rest result (error :: errors) := by
  unfold Reads at *
  have hrecord : recordError error ⟨start, ts ++ rest, openBlocks⟩ =
      ⟨.done (), ⟨start, ts ++ rest, openBlocks⟩, [error]⟩ := rfl
  rw [bind_of_done hrecord, hf]
  rfl

theorem reads_flag (fault : SyntaxFault) {token : Token} {f : Unit → Rule β} {result : β}
    (hf : Reads openBlocks (f ()) start (token :: ts) rest result errors) :
    Reads openBlocks (flag fault >>= f) start (token :: ts) rest result
      (⟨fault, token, start⟩ :: errors) := by
  unfold Reads at *
  have hflag : flag fault ⟨start, token :: ts ++ rest, openBlocks⟩ =
      ⟨.done (), ⟨start, token :: ts ++ rest, openBlocks⟩, [⟨fault, token, start⟩]⟩ := rfl
  rw [bind_of_done hflag, hf]
  rfl

theorem reads_isNext {kind : TokenKind} {f : Bool → Rule β} {result : β} (token : Token)
    (later : List Token) (happend : ts ++ rest = token :: later) (heof : kind ≠ .eof)
    (hf : Reads openBlocks (f (decide (token.kind = kind))) start ts rest result errors) :
    Reads openBlocks (isNext kind >>= f) start ts rest result errors := by
  unfold Reads at *
  have hnext : isNext kind ⟨start, ts ++ rest, openBlocks⟩ =
      ⟨.done (decide (token.kind = kind)), ⟨start, ts ++ rest, openBlocks⟩, []⟩ := by
    rw [happend, isNext_cons]
    by_cases hk : token.kind = kind
    · simp [Token.isEof, hk, heof]
    · simp [hk]
  rw [bind_of_done hnext, hf, Reading.after_nil]

theorem reads_accept? {kinds : List TokenKind} {f : Option Token → Rule β} {result : β}
    {token : Token} (hk : token.kind ∈ kinds) (heof : .eof ∉ kinds)
    (hf : Reads openBlocks (f (some token)) (start + 1) ts rest result errors) :
    Reads openBlocks (accept? kinds >>= f) start (token :: ts) rest result errors := by
  unfold Reads at *
  have hne : token.kind ≠ .eof := fun h => heof (h ▸ hk)
  rw [List.cons_append, bind_of_done (accept?_hit start openBlocks (ts ++ rest) hk hne),
    hf, Reading.after_nil, List.length_cons]
  congr 2
  omega

theorem reads_accept?_none {kinds : List TokenKind} {f : Option Token → Rule β} {result : β}
    (hk : Follows kinds (ts ++ rest)) (hf : Reads openBlocks (f none) start ts rest result errors) :
    Reads openBlocks (accept? kinds >>= f) start ts rest result errors := by
  unfold Reads at *
  obtain ⟨token, later, happend, hmem⟩ := hk
  have hmiss := accept?_miss start openBlocks later hmem
  rw [← happend] at hmiss
  rw [bind_of_done hmiss, hf, Reading.after_nil]

theorem reads_expectNamed {kind : TokenKind} (expected context : String) {f : Token → Rule β}
    {result : β} {token : Token} (hk : token.kind = kind) (heof : kind ≠ .eof)
    (hf : Reads openBlocks (f token) (start + 1) ts rest result errors) :
    Reads openBlocks (expectNamed kind expected context >>= f) start (token :: ts) rest
      result errors := by
  unfold Reads at *
  rw [List.cons_append,
    bind_of_done (expectNamed_hit start openBlocks (ts ++ rest) expected context hk heof),
    hf, Reading.after_nil, List.length_cons]
  congr 2
  omega

theorem Reads.map {p : Rule α} {value : α} (g : α → β)
    (hp : Reads openBlocks p start ts rest value errors) :
    Reads openBlocks (g <$> p) start ts rest (g value) errors := by
  unfold Reads at *
  rw [map_eq_bind, bind_of_done hp]
  simp

end ScriptLang.Rule
