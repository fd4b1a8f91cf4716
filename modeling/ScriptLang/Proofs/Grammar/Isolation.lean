import ScriptLang.Proofs.Grammar.Parsing

namespace ScriptLang.Grammar

open Rule

section Confinement

/-- Tokens before a semicolon or a closing brace, with neither of these nor an opening brace among
them. What follows a semicolon is no else. -/
structure Confined (body : List Token) (closer : Token) (rest : List Token) : Prop where
  inner : ∀ token ∈ body, token.kind ∉ [.semicolon, .leftBrace, .rightBrace, .eof]
  closes : closer.kind = .semicolon ∨ closer.kind = .rightBrace
  ends : Ends rest
  noElse : closer.kind = .semicolon → NoElse rest

variable {us vs body rest : List Token} {closer : Token}

theorem Confined.drop (h : Confined (us ++ vs) closer rest) : Confined vs closer rest where
  inner token hmem := h.inner token (List.mem_append_right us hmem)
  closes := h.closes
  ends := h.ends
  noElse := h.noElse

theorem Confined.tail {token : Token} (h : Confined (token :: body) closer rest) :
    Confined body closer rest where
  inner other hmem := h.inner other (List.mem_cons_of_mem token hmem)
  closes := h.closes
  ends := h.ends
  noElse := h.noElse

theorem Confined.not_inExpression (h : Confined body closer rest) :
    closer.kind.inExpression = false := by
  obtain hk | hk := h.closes
  · rw [hk]; rfl
  · rw [hk]; rfl

theorem Confined.closed (h : Confined body closer rest) (start openBlocks : Nat) :
    Cursor.Closed ⟨start, body ++ closer :: rest, openBlocks⟩ :=
  (h.ends.cons closer).append body

/-- Where at most `n` tokens are confined, a rule is finished just past the semicolon after them, or
it stops among them or at their closer. No error that stopped a declaration is recorded. -/
def Closes {α : Type} (n : Nat) (r : Rule α) : Prop :=
  ∀ body closer rest, body.length ≤ n → Confined body closer rest → ∀ start openBlocks,
    ∃ errors, raisedErrors errors = [] ∧
      ((closer.kind = .semicolon ∧ ∃ value, r ⟨start, body ++ closer :: rest, openBlocks⟩ =
          ⟨.done value, ⟨start + body.length + 1, rest, openBlocks⟩, errors⟩) ∨
        ∃ us vs error, body = us ++ vs ∧ r ⟨start, body ++ closer :: rest, openBlocks⟩ =
          ⟨.stopped error, ⟨start + us.length, vs ++ closer :: rest, openBlocks⟩, errors⟩)

end Confinement

section Rules

variable {α β : Type} {n : Nat} {p : Rule α} {f : α → Rule β}

/-- Tokens before a token that is not among them. -/
theorem eq_append_of_not_mem {used later body rest : List Token} {closer : Token}
    (h : used ++ later = body ++ closer :: rest) (hmem : closer ∉ used) :
    ∃ vs, body = used ++ vs ∧ later = vs ++ closer :: rest := by
  obtain ⟨vs, hbody, hlater⟩ | ⟨vs, hused, hlater⟩ := List.append_eq_append_iff.mp h
  · exact ⟨vs, hbody, hlater⟩
  · cases vs with
    | nil => exact ⟨[], by simpa using hused.symm, by simpa using hlater.symm⟩
    | cons first vs =>
      obtain rfl := (List.cons.inj hlater).1
      exact absurd (hused ▸ List.mem_append_right body (List.mem_cons_self ..)) hmem

/-- Rules that use up parts of expressions stay before the closer. -/
theorem stays_of_agree (hp : ∀ n, Agree .expression n p p) {body rest : List Token} {closer : Token}
    (hbody : Confined body closer rest) (start openBlocks : Nat) :
    ∃ us vs errors, body = us ++ vs ∧ raisedErrors errors = [] ∧
      ((∃ value, p ⟨start, body ++ closer :: rest, openBlocks⟩ =
          ⟨.done value, ⟨start + us.length, vs ++ closer :: rest, openBlocks⟩, errors⟩) ∨
        ∃ error, p ⟨start, body ++ closer :: rest, openBlocks⟩ =
          ⟨.stopped error, ⟨start + us.length, vs ++ closer :: rest, openBlocks⟩, errors⟩) := by
  obtain ⟨-, hkeeps⟩ := hp _ ⟨start, body ++ closer :: rest, openBlocks⟩ (Nat.le_refl _)
  rcases hr : p ⟨start, body ++ closer :: rest, openBlocks⟩ with ⟨ending, c', errors⟩
  rw [hr] at hkeeps
  obtain ⟨used, hm, hu⟩ := hkeeps.moves
  -- the closer is no part of an expression, so it is not used up
  have hcloser : closer ∉ used := by
    intro hmem
    have huses : closer.kind.inExpression := hu closer hmem
    rw [hbody.not_inExpression] at huses
    cases huses
  have hrest : used ++ c'.rest = body ++ closer :: rest := hm.rest_eq.symm
  obtain ⟨vs, hbody', hrest'⟩ := eq_append_of_not_mem hrest hcloser
  have hcursor : c' = ⟨start + used.length, vs ++ closer :: rest, openBlocks⟩ := by
    rw [← hrest']
    exact hm.eq_mk
  subst hcursor
  refine ⟨used, vs, errors, hbody', raisedErrors_of_expression hkeeps.records, ?_⟩
  cases ending with
  | done value => exact .inl ⟨value, rfl⟩
  | stopped error => exact .inr ⟨error, rfl⟩
  | ranOut => exact absurd rfl (hkeeps.ends (hbody.closed start openBlocks))

theorem closes_bind (hp : ∀ n, Agree .expression n p p) (hf : ∀ value, Closes n (f value)) :
    Closes n (p >>= f) := by
  intro body closer rest hn hbody start openBlocks
  obtain ⟨us, vs, before, rfl, hbefore, ⟨value, hp⟩ | ⟨error, hp⟩⟩ :=
    stays_of_agree hp hbody start openBlocks
  · have hlength : vs.length ≤ n := by
      rw [List.length_append] at hn
      omega
    rw [bind_of_done hp]
    obtain ⟨later, hlater, ⟨hk, result, hdone⟩ | ⟨us', vs', error, rfl, hstopped⟩⟩ :=
      hf value vs closer rest hlength hbody.drop (start + us.length) openBlocks
    · refine ⟨before ++ later, by simp [hbefore, hlater], .inl ⟨hk, result, ?_⟩⟩
      rw [hdone, Reading.after_mk, List.length_append, ← Nat.add_assoc start]
    · refine ⟨before ++ later, by simp [hbefore, hlater],
        .inr ⟨us ++ us', vs', error, (List.append_assoc ..).symm, ?_⟩⟩
      rw [hstopped, Reading.after_mk, List.length_append, ← Nat.add_assoc start]
  · exact ⟨before, hbefore, .inr ⟨us, vs, error, rfl, bind_of_stopped hp⟩⟩

/-- A token that must come next, but is not the first one. -/
theorem stops_at_head {kind : TokenKind} (expected context : String) {f : Token → Rule β}
    {body rest : List Token} {closer : Token}
    (hk : ∀ token ∈ (body ++ closer :: rest).head?, token.kind ≠ kind) (start openBlocks : Nat) :
    ∃ error, (expectNamed kind expected context >>= f) ⟨start, body ++ closer :: rest, openBlocks⟩ =
      ⟨.stopped error, ⟨start, body ++ closer :: rest, openBlocks⟩, []⟩ := by
  cases hcons : body ++ closer :: rest with
  | nil => simp at hcons
  | cons token later =>
    have hmiss := expectNamed_miss start openBlocks later expected context
      (hk token (by rw [hcons]; rfl))
    exact ⟨_, bind_of_stopped hmiss⟩

/-- An opening brace never comes next. -/
theorem closes_leftBrace (expected context : String) {f : Token → Rule β} :
    Closes n (expectNamed .leftBrace expected context >>= f) := by
  intro body closer rest _ hbody start openBlocks
  have hhead : ∀ token ∈ (body ++ closer :: rest).head?, token.kind ≠ .leftBrace := by
    intro token htoken hk
    cases body with
    | nil =>
      obtain rfl : closer = token := Option.some.inj htoken
      obtain hk' | hk' := hbody.closes
      · rw [hk'] at hk; cases hk
      · rw [hk'] at hk; cases hk
    | cons first body =>
      obtain rfl : first = token := Option.some.inj htoken
      exact hbody.inner first (List.mem_cons_self ..) (by rw [hk]; decide)
  obtain ⟨error, hstopped⟩ := stops_at_head expected context hhead start openBlocks
  exact ⟨[], rfl, .inr ⟨[], body, error, rfl, hstopped⟩⟩

/-- The semicolon that must come next is the closer, or reading stops. -/
theorem closes_semicolon (expected context : String) (value : β) :
    Closes n (expectNamed .semicolon expected context >>= fun _ => pure value) := by
  intro body closer rest _ hbody start openBlocks
  by_cases hk : body = [] ∧ closer.kind = .semicolon
  · obtain ⟨rfl, hk⟩ := hk
    have hhit := expectNamed_hit start openBlocks rest expected context hk (by decide)
    refine ⟨[], rfl, .inl ⟨hk, value, ?_⟩⟩
    rw [List.nil_append, bind_of_done hhit]
    rfl
  · have hhead : ∀ token ∈ (body ++ closer :: rest).head?, token.kind ≠ .semicolon := by
      intro token htoken hkind
      cases body with
      | nil =>
        obtain rfl : closer = token := Option.some.inj htoken
        exact hk ⟨rfl, hkind⟩
      | cons first body =>
        obtain rfl : first = token := Option.some.inj htoken
        exact hbody.inner first (List.mem_cons_self ..) (by rw [hkind]; decide)
    obtain ⟨error, hstopped⟩ := stops_at_head expected context hhead start openBlocks
    exact ⟨[], rfl, .inr ⟨[], body, error, rfl, hstopped⟩⟩

theorem closes_accept? {kinds : List TokenKind} {f : Option Token → Rule β}
    (hkinds : .semicolon ∉ kinds ∧ .rightBrace ∉ kinds)
    (hsome : ∀ token m, token.kind ∈ kinds → token.kind ≠ .leftBrace → m < n →
      Closes m (f (some token)))
    (hnone : Closes n (f none)) : Closes n (accept? kinds >>= f) := by
  intro body closer rest hn hbody start openBlocks
  have hmisses : ∀ token later, body ++ closer :: rest = token :: later → token.kind ∉ kinds →
      (accept? kinds >>= f) ⟨start, body ++ closer :: rest, openBlocks⟩ =
        f none ⟨start, body ++ closer :: rest, openBlocks⟩ := by
    intro token later hcons hk
    rw [hcons, bind_of_done (accept?_miss start openBlocks later hk), Reading.after_nil]
  -- at the end of the piece its closer is next, which is none of the kinds
  cases body with
  | nil =>
    have hcloser : closer.kind ∉ kinds := by
      obtain hk | hk := hbody.closes
      · rw [hk]; exact hkinds.1
      · rw [hk]; exact hkinds.2
    rw [hmisses closer rest rfl hcloser]
    exact hnone [] closer rest hn hbody start openBlocks
  | cons token body =>
    have hinner := hbody.inner token (List.mem_cons_self ..)
    by_cases hk : token.kind ∈ kinds
    · have hne : token.kind ≠ .eof := fun h => hinner (by rw [h]; decide)
      have hbrace : token.kind ≠ .leftBrace := fun h => hinner (by rw [h]; decide)
      have hhit := accept?_hit start openBlocks (body ++ closer :: rest) hk hne
      have hlength : start + (token :: body).length + 1 = start + 1 + body.length + 1 := by
        rw [List.length_cons]
        omega
      rw [List.cons_append, bind_of_done hhit, Reading.after_nil, hlength]
      obtain ⟨errors, herrors, hdone | ⟨us, vs, error, rfl, hstopped⟩⟩ :=
        hsome token body.length hk hbrace hn body closer rest (Nat.le_refl _) hbody.tail (start + 1)
          openBlocks
      · exact ⟨errors, herrors, .inl hdone⟩
      · refine ⟨errors, herrors, .inr ⟨token :: us, vs, error, rfl, ?_⟩⟩
        have hshift : start + (token :: us).length = start + 1 + us.length := by
          rw [List.length_cons]
          omega
        rw [hstopped, hshift]
    · rw [hmisses token (body ++ closer :: rest) rfl hk]
      exact hnone (token :: body) closer rest hn hbody start openBlocks

/-- After a finished statement there is no else to go on with. -/
theorem closes_else {s : Rule α} {f : α → Option Token → Rule β} (result : α → β)
    (hs : Closes n s) (hf : ∀ value, f value none = pure (result value)) :
    Closes n (do f (← s) (← accept? [.elseWord])) := by
  intro body closer rest hn hbody start openBlocks
  obtain ⟨errors, herrors, ⟨hk, value, hdone⟩ | ⟨us, vs, error, rfl, hstopped⟩⟩ :=
    hs body closer rest hn hbody start openBlocks
  · obtain ⟨token, later, hrest, hmiss⟩ := (hbody.noElse hk).follows hbody.ends
    refine ⟨errors, herrors, .inl ⟨hk, result value, ?_⟩⟩
    rw [bind_of_done hdone, hrest, bind_of_done (accept?_miss _ _ later hmiss), hf]
    simp
  · exact ⟨errors, herrors, .inr ⟨us, vs, error, rfl, bind_of_stopped hstopped⟩⟩

theorem closes_map {s : Rule α} (g : α → β) (hs : Closes n s) : Closes n (g <$> s) := by
  intro body closer rest hn hbody start openBlocks
  rw [map_eq_bind]
  obtain ⟨errors, herrors, ⟨hk, value, hdone⟩ | ⟨us, vs, error, rfl, hstopped⟩⟩ :=
    hs body closer rest hn hbody start openBlocks
  · refine ⟨errors, herrors, .inl ⟨hk, g value, ?_⟩⟩
    rw [bind_of_done hdone]
    simp
  · exact ⟨errors, herrors, .inr ⟨us, vs, error, rfl, bind_of_stopped hstopped⟩⟩

end Rules

section Statements

variable {n : Nat} {s : Rule Stmt}

theorem agree_expected {kind : TokenKind} (h : kind.inExpression) (expected context : String)
    (n : Nat) :
    Agree .expression n (expectNamed kind expected context) (expectNamed kind expected context) :=
  agree_expectNamed expected context fun _ => h

theorem closes_printStatement (keyword : Token) : Closes n (printStatement keyword) :=
  closes_bind agree_expression fun _ => closes_semicolon _ _ _

theorem closes_expressionStatement : Closes n expressionStatement :=
  closes_bind agree_expression fun _ => closes_semicolon _ _ _

theorem closes_letDeclaration (keyword : Token) : Closes n (letDeclaration keyword) := by
  refine closes_bind (agree_expected rfl _ _) fun name => ?_
  refine closes_bind (agree_expected rfl _ _) fun _ => ?_
  exact closes_bind agree_expression fun _ => closes_semicolon _ _ _

theorem closes_functionDeclaration (b : Rule (List Stmt)) (keyword : Token) :
    Closes n (functionDeclaration b keyword) := by
  refine closes_bind (agree_expected rfl _ _) fun name => ?_
  refine closes_bind (agree_expected rfl _ _) fun _ => ?_
  refine closes_bind (fun _ => agree_parameters) fun params => ?_
  exact closes_bind (agree_expected rfl _ _) fun _ => closes_leftBrace _ _

theorem closes_whileStatement (hs : Closes n s) (keyword : Token) :
    Closes n (whileStatement s keyword) := by
  refine closes_bind (agree_expected rfl _ _) fun _ => ?_
  refine closes_bind agree_expression fun condition => ?_
  exact closes_bind (agree_expected rfl _ _) fun _ => closes_map _ hs

theorem closes_ifStatement (hs : Closes n s) (keyword : Token) :
    Closes n (ifStatement s keyword) := by
  refine closes_bind (agree_expected rfl _ _) fun _ => ?_
  refine closes_bind agree_expression fun condition => ?_
  refine closes_bind (agree_expected rfl _ _) fun _ => ?_
  exact closes_else (fun thenBranch => .ifThen keyword.line condition thenBranch) hs fun _ => rfl

theorem closes_statement : Closes n (statement (block declaration)) := by
  induction n using Nat.strongRecOn with
  | ind n ih =>
    rw [statement_unfold]
    refine closes_accept? (by decide) (fun token m hk hbrace hm => ?_) closes_expressionStatement
    dsimp only
    split
    · exact closes_printStatement token
    · exact closes_ifStatement (ih m hm) token
    · exact closes_whileStatement (ih m hm) token
    · next hprint hif hwhile =>
      simp [Ne.intro hprint, Ne.intro hif, Ne.intro hwhile, hbrace] at hk

theorem closes_attempt : Closes n attempt := by
  refine closes_accept? (by decide) (fun token m _ _ _ => ?_) closes_statement
  dsimp only
  split
  · exact closes_functionDeclaration _ token
  · exact closes_letDeclaration token

end Statements

section Dropping

variable {inside : Bool} {dropped : Token} {us rest : List Token}

theorem dropsAfter_semicolon (rest : List Token) (h : dropped.kind = .semicolon) :
    dropsAfter inside dropped rest = [] := by
  cases rest with
  | nil => rfl
  | cons next rest => simp [dropsAfter, boundary, h]

/-- Tokens that are no boundary are dropped one after the other. -/
theorem dropsAfter_append (inside : Bool)
    (hus : ∀ token ∈ us, token.kind ∉ [.semicolon, .leftBrace, .rightBrace, .eof] ∧
      token.kind.startsStatement = false) (hd : dropped.kind ≠ .semicolon) (rest : List Token) :
    ∃ last, last.kind ≠ .semicolon ∧
      dropsAfter inside dropped (us ++ rest) = us ++ dropsAfter inside last rest := by
  induction us generalizing dropped with
  | nil => exact ⟨dropped, hd, rfl⟩
  | cons next us ih =>
    obtain ⟨hk, hstarts⟩ := hus next (List.mem_cons_self ..)
    simp only [List.mem_cons, List.not_mem_nil, or_false, not_or] at hk
    have hnone : ¬ boundary inside dropped next := by
      simp [boundary_iff, hd, hk, hstarts]
    obtain ⟨last, hlast, hdrops⟩ :=
      ih (fun token hmem => hus token (List.mem_cons_of_mem next hmem)) hk.1
    refine ⟨last, hlast, ?_⟩
    rw [List.cons_append, dropsAfter, if_neg hnone, hdrops]
    rfl

/-- What is dropped from the offending token on, up to the closer of the piece. -/
theorem drops_append (inside : Bool) {rest kept : List Token}
    (hus : ∀ token ∈ us, token.kind ∉ [.semicolon, .leftBrace, .rightBrace, .eof])
    (htail : ∀ token ∈ us.tail, token.kind.startsStatement = false)
    (hrest : drops inside rest = kept)
    (hafter : ∀ last : Token, last.kind ≠ .semicolon → dropsAfter inside last rest = kept) :
    drops inside (us ++ rest) = us ++ kept := by
  cases us with
  | nil => exact hrest
  | cons first us =>
    have hk := hus first (List.mem_cons_self ..)
    simp only [List.mem_cons, List.not_mem_nil, or_false, not_or] at hk
    have hkept : ¬ isKept inside first := by simp [isKept_iff, hk]
    obtain ⟨last, hlast, hdrops⟩ := dropsAfter_append inside
      (fun token hmem => ⟨hus token (List.mem_cons_of_mem first hmem), htail token hmem⟩) hk.1 rest
    rw [List.cons_append, drops, if_neg hkept, hdrops, hafter last hlast]
    rfl

theorem drops_semicolon {semicolon : Token}
    (hus : ∀ token ∈ us, token.kind ∉ [.semicolon, .leftBrace, .rightBrace, .eof])
    (htail : ∀ token ∈ us.tail, token.kind.startsStatement = false)
    (hs : semicolon.kind = .semicolon) (rest : List Token) :
    drops inside (us ++ semicolon :: rest) = us ++ [semicolon] := by
  refine drops_append inside hus htail ?_ ?_
  · rw [drops, if_neg (by simp [isKept_iff, hs]), dropsAfter_semicolon rest hs]
  · intro last hlast
    have hnone : ¬ boundary inside last semicolon := by
      simp [boundary_iff, TokenKind.startsStatement, hs, hlast]
    rw [dropsAfter, if_neg hnone, dropsAfter_semicolon rest hs]

theorem drops_closingBrace {closing : Token}
    (hus : ∀ token ∈ us, token.kind ∉ [.semicolon, .leftBrace, .rightBrace, .eof])
    (htail : ∀ token ∈ us.tail, token.kind.startsStatement = false)
    (hc : closing.kind = .rightBrace) (rest : List Token) :
    drops true (us ++ closing :: rest) = us := by
  have hdrops : drops true (us ++ closing :: rest) = us ++ [] := by
    refine drops_append true hus htail ?_ ?_
    · rw [drops, if_pos (isKept_iff.mpr (Or.inr ⟨rfl, hc⟩))]
    · intro last _
      rw [dropsAfter, if_pos (by simp [boundary_iff, hc])]
  rwa [List.append_nil] at hdrops

end Dropping

section Pieces

/-- A piece without braces, of which only the first token may begin a statement, and which no
conditional before it goes on with. -/
structure IsPiece (ts : List Token) : Prop where
  plain : ∀ token ∈ ts, token.kind ∉ [.leftBrace, .rightBrace, .eof]
  restricted : ∀ token ∈ ts.tail, token.kind.startsStatement = false
  first : ∃ token ∈ ts.head?, token.kind ≠ .elseWord

/-- A malformed piece that ends with its only semicolon. -/
structure IsFragment (ts : List Token) : Prop extends IsPiece ts where
  semicolon : ∃ body last, ts = body ++ [last] ∧ last.kind = .semicolon ∧
    ∀ token ∈ body, token.kind ≠ .semicolon
  fails : ∃ mark error, mark.kind = .eof ∧
    (attempt (Cursor.start (ts ++ [mark]))).ending = .stopped error

/-- A piece without a semicolon, which is malformed before a closing brace. -/
structure IsTrailing (ts : List Token) : Prop extends IsPiece ts where
  noSemicolon : ∀ token ∈ ts, token.kind ≠ .semicolon

theorem IsPiece.starts {ts : List Token} (h : IsPiece ts) : Starts ts := by
  obtain ⟨token, hmem, hk⟩ := h.first
  cases ts with
  | nil => cases hmem
  | cons first ts =>
    obtain rfl : first = token := Option.some.inj hmem
    have hplain := h.plain first (List.mem_cons_self ..)
    exact ⟨first, ts, rfl, by simp_all⟩

def fragments : Pieces where
  whole := IsFragment
  last := IsTrailing
  whole_starts _ h := h.toIsPiece.starts
  last_starts _ h := h.toIsPiece.starts

variable {openBlocks start : Nat} {ts us vs ds rest : List Token}

/-- A declaration that is given up, with the tokens dropped after it. -/
theorem reads_of_stopped {error : SyntaxError} {errors : List SyntaxError}
    (h : attempt ⟨start, us ++ (ds ++ rest), openBlocks⟩ =
      ⟨.stopped error, ⟨start + us.length, ds ++ rest, openBlocks⟩, errors⟩)
    (hends : Ends (ds ++ rest)) (hdrops : drops (decide (0 < openBlocks)) (ds ++ rest) = ds) :
    Reads openBlocks declaration start (us ++ ds) rest none (errors ++ [error]) := by
  have hclosed : Cursor.Closed ⟨start + us.length, ds ++ rest, openBlocks⟩ := hends
  have hdropped : droppedAt ⟨start + us.length, ds ++ rest, openBlocks⟩ = ds := hdrops
  unfold Reads
  rw [List.append_assoc, declaration_of_stopped h hclosed, resumption, hdropped]
  simp [Nat.add_assoc]

theorem accounts_of_stopped {error : SyntaxError} {errors : List SyntaxError} {c : Cursor}
    (h : attempt c = ⟨.stopped error, ⟨start + us.length, ds ++ rest, openBlocks⟩, errors⟩)
    (herrors : raisedErrors errors = []) (stop : Nat) (hstop : start + us.length < stop) :
    Accounts [] [⟨start, stop⟩] (errors ++ [error]) where
  shown := by
    obtain ⟨-, hkeeps⟩ := agree_attempt _ c (Nat.le_refl _)
    rw [h] at hkeeps
    obtain ⟨-, hposition, hraised⟩ := hkeeps.stops error rfl
    have hposition : error.position = start + us.length := hposition
    have hlist : raisedErrors (errors ++ [error]) = [error] := by
      rw [raisedErrors_append, herrors]
      simp [raisedErrors, hraised]
    rw [hlist]
    refine .cons ⟨?_, ?_⟩ .nil
    · show start ≤ error.position
      omega
    · show error.position < stop
      omega
  exact h := absurd h (List.cons_ne_nil _ _)

/-- What is read off a fragment in its context would be read off it alone. -/
theorem IsFragment.not_done (h : IsFragment ts) {tree : Stmt}
    {errors : List SyntaxError} : attempt ⟨start, ts ++ rest, openBlocks⟩ ≠
      ⟨.done tree, ⟨start + ts.length, rest, openBlocks⟩, errors⟩ := by
  intro hdone
  obtain ⟨used, hm, hdeclaration⟩ := yields_attempt_all _ _ (Nat.le_refl _) tree _ errors hdone
  have hused : ts ++ rest = used ++ rest := hm.rest_eq
  obtain rfl := List.append_cancel_right hused
  have hclean : Clean ts errors := by
    refine .inr fun token hmem hk => ?_
    exact h.plain token hmem (by rw [hk]; decide)
  obtain ⟨hforms, -⟩ := hdeclaration hclean
  -- the same tokens before an end mark would be read as well, but there the attempt fails
  obtain ⟨errors', hforms, -⟩ := hforms.shift .none 0
  obtain ⟨mark, error, hmark, hfails⟩ := h.fails
  have hends : Ends [mark] := ⟨mark, List.mem_singleton_self mark, hmark⟩
  have hnext : NoElse [mark] := noElse_cons [] hmark (by decide)
  obtain ⟨recorded, -, halone⟩ :=
    hforms.isRead Pieces.skipped_none 0 [mark] hends fun _ => hnext
  have hending : (attempt (Cursor.start (ts ++ [mark]))).ending = .done tree :=
    congrArg Reading.ending halone
  rw [hending] at hfails
  cases hfails

theorem mem_tail_append_right {token : Token} (us : List Token) (h : token ∈ vs.tail) :
    token ∈ (us ++ vs).tail := by
  cases us with
  | nil => exact h
  | cons first us => exact List.mem_append_right us (List.mem_of_mem_tail h)

theorem mem_tail_append_left {token : Token} (vs : List Token) (h : token ∈ us.tail) :
    token ∈ (us ++ vs).tail := by
  cases us with
  | nil => cases h
  | cons first us => exact List.mem_append_left vs h

theorem IsPiece.inner (h : IsPiece ts) {token : Token} (hmem : token ∈ ts)
    (hne : token.kind ≠ .semicolon) :
    token.kind ∉ [.semicolon, .leftBrace, .rightBrace, .eof] := by
  rw [List.mem_cons, not_or]
  exact ⟨hne, h.plain token hmem⟩

theorem IsFragment.reads (h : IsFragment ts) (hends : Ends rest) (hnext : NoElse rest)
    (start openBlocks : Nat) :
    ∃ recorded, Accounts [] [⟨start, start + ts.length⟩] recorded ∧
      Reads openBlocks declaration start ts rest none recorded := by
  obtain ⟨body, last, rfl, hlast, hbody⟩ := h.semicolon
  have hinner : ∀ token ∈ body, token.kind ∉ [.semicolon, .leftBrace, .rightBrace, .eof] := by
    intro token hmem
    exact h.inner (List.mem_append_left [last] hmem) (hbody token hmem)
  have hconfined : Confined body last rest := ⟨hinner, .inl hlast, hends, fun _ => hnext⟩
  obtain ⟨errors, herrors, ⟨-, tree, hdone⟩ | ⟨us, vs, error, rfl, hstopped⟩⟩ :=
    closes_attempt body last rest (Nat.le_refl _) hconfined start openBlocks
  · rw [List.append_cons] at hdone
    have hlength : start + body.length + 1 = start + (body ++ [last]).length := by
      rw [List.length_append, List.length_singleton, Nat.add_assoc]
    rw [hlength] at hdone
    exact absurd hdone h.not_done
  -- what is dropped goes up to the semicolon, since nothing before it is a boundary
  · have hdrops : ∀ inside, drops inside (vs ++ [last] ++ rest) = vs ++ [last] := by
      intro inside
      rw [List.append_assoc, List.singleton_append]
      refine drops_semicolon ?_ ?_ hlast rest
      · exact fun token hmem => hinner token (List.mem_append_right us hmem)
      · intro token hmem
        exact h.restricted token (mem_tail_append_left [last] (mem_tail_append_right us hmem))
    have hstopped' : attempt ⟨start, us ++ (vs ++ [last] ++ rest), openBlocks⟩ =
        ⟨.stopped error, ⟨start + us.length, vs ++ [last] ++ rest, openBlocks⟩, errors⟩ := by
      simpa using hstopped
    have hends' : Ends (vs ++ [last] ++ rest) := hends.append _
    have hreads := reads_of_stopped hstopped' hends' (hdrops _)
    have haccounts := accounts_of_stopped hstopped' herrors (start + (us ++ vs ++ [last]).length)
      (by simp)
    rw [← List.append_assoc] at hreads
    exact ⟨errors ++ [error], haccounts, hreads⟩

theorem IsTrailing.reads (h : IsTrailing ts) {closing : Token} (hc : closing.kind = .rightBrace)
    (hends : Ends rest) (start openBlocks : Nat) :
    ∃ recorded, Accounts [] [⟨start, start + ts.length + 1⟩] recorded ∧
      Reads (openBlocks + 1) declaration start ts (closing :: rest) none recorded := by
  have hinner : ∀ token ∈ ts, token.kind ∉ [.semicolon, .leftBrace, .rightBrace, .eof] :=
    fun token hmem => h.inner hmem (h.noSemicolon token hmem)
  have hconfined : Confined ts closing rest :=
    ⟨hinner, .inr hc, hends, fun hk => by rw [hc] at hk; cases hk⟩
  obtain ⟨errors, herrors, ⟨hk, -⟩ | ⟨us, vs, error, rfl, hstopped⟩⟩ :=
    closes_attempt ts closing rest (Nat.le_refl _) hconfined start (openBlocks + 1)
  · rw [hc] at hk
    cases hk
  -- what is dropped goes up to the closing brace, which closes the block
  · have hdrops : drops (decide (0 < openBlocks + 1)) (vs ++ closing :: rest) = vs := by
      refine drops_closingBrace ?_ ?_ hc rest
      · exact fun token hmem => hinner token (List.mem_append_right us hmem)
      · exact fun token hmem => h.restricted token (mem_tail_append_right us hmem)
    rw [List.append_assoc] at hstopped
    have hreads := reads_of_stopped hstopped ((hends.cons closing).append vs) hdrops
    have hbefore : start + us.length < start + (us ++ vs).length + 1 := by
      rw [List.length_append]
      omega
    have haccounts := accounts_of_stopped hstopped herrors _ hbefore
    exact ⟨errors ++ [error], haccounts, hreads⟩

theorem fragments_skipped : fragments.Skipped where
  whole _ h openBlocks start _ hends hnext := IsFragment.reads h hends hnext start openBlocks
  last _ h openBlocks start _ _ hc hends := IsTrailing.reads h hc hends start openBlocks

/-- Tokens that parse without an error may stand between fragments, wherever that is. -/
theorem forms_of_clean_parse {trees : List Stmt} {mark : Token}
    (h : parse (ts ++ [mark]) = ⟨.done trees, ⟨ts.length, [mark], 0⟩, []⟩) (start : Nat) :
    Forms fragments (.sequence trees) start ts [] [] := by
  obtain ⟨errors, hforms, hlength⟩ := (forms_of_parse h rfl rfl).shift fragments start
  obtain rfl := List.length_eq_zero_iff.mp hlength
  exact hforms

/-- Declarations that parse without an error are forms without a fragment. Where fragments stand
between such declarations, at the top or in blocks at any depth, exactly the declarations are
returned. Each fragment is answered by one error that
stopped a declaration, in order, and it shows a token of that fragment. No block is left open, and a
block ends at its own closing brace, whatever stands after it. -/
theorem fragments_isolated :
    (∀ trees ts mark start, parse (ts ++ [mark]) = ⟨.done trees, ⟨ts.length, [mark], 0⟩, []⟩ →
      Forms fragments (.sequence trees) start ts [] []) ∧
    (∀ trees ts skipped mark later, Forms fragments (.sequence trees) 0 ts [] skipped →
      mark.kind = .eof → ∃ recorded, Accounts [] skipped recorded ∧
        parse (ts ++ mark :: later) = ⟨.done trees, ⟨ts.length, mark :: later, 0⟩, recorded⟩) ∧
    ∀ trees start ts skipped openBlocks closing rest,
      Forms fragments (.body trees) start ts [] skipped → closing.kind = .rightBrace →
      (∃ token ∈ rest, token.kind = .eof) → ∃ recorded, Accounts [] skipped recorded ∧
        block declaration ⟨start, ts ++ closing :: rest, openBlocks⟩ =
          ⟨.done trees, ⟨start + ts.length + 1, rest, openBlocks⟩, recorded⟩ := by
  refine ⟨fun _ _ _ start h => forms_of_clean_parse h start, ?_, ?_⟩
  · intro trees ts skipped mark later h hmark
    exact parse_of_forms fragments_skipped h hmark later
  · intro trees start ts skipped openBlocks closing rest h hclosing hends
    obtain ⟨recorded, hrecorded, hreads⟩ :=
      h.isRead fragments_skipped openBlocks closing rest hclosing hends
    refine ⟨recorded, hrecorded, ?_⟩
    unfold Reads at hreads
    rwa [List.append_assoc, List.singleton_append, List.length_append, List.length_singleton,
      ← Nat.add_assoc] at hreads

def twoNames : List Token := [bareToken .identifier "a", bareToken .identifier "b"]

theorem isFragment_twoNames : IsFragment (twoNames ++ [bareToken .semicolon ";"]) where
  plain := by decide
  restricted := by decide
  first := ⟨bareToken .identifier "a", rfl, by decide⟩
  semicolon := ⟨twoNames, bareToken .semicolon ";", rfl, rfl, by decide⟩
  fails := ⟨Token.endMark 1, _, rfl, rfl⟩

theorem isTrailing_twoNames : IsTrailing twoNames where
  plain := by decide
  restricted := by decide
  first := ⟨bareToken .identifier "a", rfl, by decide⟩
  noSemicolon := by decide

/-- A block with a fragment, a statement and a piece without a semicolon. -/
theorem fragments_isolated_in_block :
    ∃ recorded, Accounts [] [⟨1, 4⟩, ⟨7, 10⟩] recorded ∧
      parse (bareToken .leftBrace "\x7b" :: (twoNames ++ [bareToken .semicolon ";"] ++
        [bareToken .printWord "print", bareToken .identifier "c", bareToken .semicolon ";"] ++
        twoNames ++ [bareToken .rightBrace "\x7d"]) ++ [Token.endMark 1]) =
      ⟨.done [.block 1 [.print 1 (.name 1 (bareToken .identifier "c"))]],
        ⟨10, [Token.endMark 1], 0⟩, recorded⟩ := by
  have hkind : ∀ kind lexeme, (bareToken kind lexeme).kind = kind := fun _ _ => rfl
  have hprint : Forms fragments (.sequence _) 4 _ [] [] := fragments_isolated.1 _
    [bareToken .printWord "print", bareToken .identifier "c", bareToken .semicolon ";"]
    (Token.endMark 1) 4 rfl
  have hlist : Forms fragments (.sequence _) 1 _ _ _ := .skip isFragment_twoNames hprint
  have hbody := Forms.bodyThen hlist isTrailing_twoNames
  have hblock : Forms fragments (.statement _) 0 _ _ _ :=
    .block (hkind .leftBrace "\x7b") hbody (hkind .rightBrace "\x7d")
  have hprogram := Forms.cons (Forms.statement hblock) (Forms.nil _)
  exact fragments_isolated.2.1 _ _ _ (Token.endMark 1) [] hprogram rfl

end Pieces

end ScriptLang.Grammar
