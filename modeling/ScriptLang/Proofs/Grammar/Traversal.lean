import ScriptLang.Proofs.Grammar.StatementReads

namespace ScriptLang.Grammar

open Rule

/-- A declaration is asked for: what comes next ends neither the open block nor the program. -/
def Asks (c : Cursor) : Prop :=
  ∃ token rest, c.rest = token :: rest ∧ ¬ isKept (decide (0 < c.openBlocks)) token

/-- A call of the rule for declarations: where it begins and ends, and the error that its attempt
was given up with. -/
structure Call where
  before : Cursor
  after : Cursor
  raised? : Option SyntaxError

/-- The call is asked for, it ends where the rule for declarations ends, and its error is the one
that stopped the attempt. -/
structure Call.IsMade (call : Call) : Prop where
  asked : Asks call.before
  done : ∃ statement? errors, declaration call.before = ⟨.done statement?, call.after, errors⟩
  raised_iff : ∀ error, call.raised? = some error ↔
    ∃ c errors, attempt call.before = ⟨.stopped error, c, errors⟩

/-- What is on the way: one attempt at a declaration, or declarations one after the other. -/
inductive Passage where
  | attempt | declarations

/-- The way from one cursor to another over these tokens, with all calls of the rule for
declarations on it, in the order in which they end. Only the end mark leaves a block open. -/
inductive Traverses : Passage → Cursor → List Token → Cursor → List Call → Prop
  | stay (c : Cursor) : Traverses .attempt c [] c []
  | token {c token rest used c' calls} (hc : c.rest = token :: rest)
    (hk : token.kind ∉ [.leftBrace, .rightBrace, .eof])
    (h : Traverses .attempt ⟨c.position + 1, rest, c.openBlocks⟩ used c' calls) :
    Traverses .attempt c (token :: used) c' calls
  | block {c opening rest inner stop closing later calls used c' calls'}
    (hc : c.rest = opening :: rest) (ho : opening.kind = .leftBrace)
    (hb : Traverses .declarations ⟨c.position + 1, rest, c.openBlocks + 1⟩ inner
      ⟨stop, closing :: later, c.openBlocks + 1⟩ calls)
    (hclosing : closing.kind = .rightBrace)
    (h : Traverses .attempt ⟨stop + 1, later, c.openBlocks⟩ used c' calls') :
    Traverses .attempt c (opening :: (inner ++ closing :: used)) c' (calls ++ calls')
  | openBlock {c opening rest inner stop mark later calls}
    (hc : c.rest = opening :: rest) (ho : opening.kind = .leftBrace)
    (hb : Traverses .declarations ⟨c.position + 1, rest, c.openBlocks + 1⟩ inner
      ⟨stop, mark :: later, c.openBlocks + 1⟩ calls)
    (hmark : mark.kind = .eof) :
    Traverses .attempt c (opening :: inner) ⟨stop, mark :: later, c.openBlocks⟩ calls
  | finish (c : Cursor) : Traverses .declarations c [] c []
  | read {c used c' calls tree errors used' c'' calls'} (hc : Asks c)
    (ha : attempt c = ⟨.done tree, c', errors⟩) (h : Traverses .attempt c used c' calls)
    (hs : Traverses .declarations c' used' c'' calls') :
    Traverses .declarations c (used ++ used') c'' (calls ++ ⟨c, c', none⟩ :: calls')
  | giveUp {c used middle calls error errors used' c'' calls'} (hc : Asks c)
    (ha : attempt c = ⟨.stopped error, middle, errors⟩) (h : Traverses .attempt c used middle calls)
    (hs : Traverses .declarations (resumption middle) used' c'' calls') :
    Traverses .declarations c (used ++ (droppedAt middle ++ used')) c''
      (calls ++ ⟨c, resumption middle, some error⟩ :: calls')

def AtEnd (c : Cursor) : Prop := ∃ mark ∈ c.rest.head?, mark.kind = .eof

theorem not_atEnd {position openBlocks : Nat} {token : Token} {rest : List Token}
    (hk : token.kind ≠ .eof) : ¬ AtEnd ⟨position, token :: rest, openBlocks⟩ := by
  rintro ⟨mark, hmark, heof⟩
  obtain rfl := Option.some.inj hmark
  exact hk heof

/-- Past any other token the end mark is still ahead. -/
theorem ends_of_next {c : Cursor} (h : c.Closed) {token : Token} {rest : List Token}
    (hc : c.rest = token :: rest) (hk : token.kind ≠ .eof) : Ends rest := by
  obtain ⟨mark, hmem, heof⟩ := h
  rw [hc] at hmem
  refine ⟨mark, (List.mem_cons.mp hmem).resolve_left ?_, heof⟩
  rintro rfl
  exact hk heof

section Ways

variable {passage : Passage} {c c' c'' : Cursor} {used used' : List Token}
  {calls calls' : List Call}

/-- A way goes only forward, and over no end mark. -/
theorem Traverses.moves (h : Traverses passage c used c' calls) :
    c.Moves used c' ∧ ∀ token ∈ used, token.kind ≠ .eof := by
  induction h with
  | stay c | finish c => exact ⟨.refl c, by simp⟩
  | token hc hk _ ih =>
    refine ⟨(Cursor.moves_next hc).trans ih.1, List.forall_mem_cons.mpr ⟨?_, ih.2⟩⟩
    exact fun heof => hk (by rw [heof]; decide)
  | @block c opening rest inner stop closing later calls used c' calls' hc ho hb hclosing h
      ihb ih =>
    obtain ⟨hinner, hnone⟩ := ihb
    -- inside the block one more block is open, and past its closing brace as many as before
    have hopened : c.Moves (opening :: inner) ⟨stop, closing :: later, c.openBlocks⟩ :=
      (Cursor.moves_next hc).trans ⟨hinner.rest_eq, hinner.position_eq, rfl⟩
    have hclosed : Cursor.Moves ⟨stop, closing :: later, c.openBlocks⟩ [closing]
        ⟨stop + 1, later, c.openBlocks⟩ := Cursor.moves_next rfl
    refine ⟨hopened.trans (hclosed.trans ih.1), ?_⟩
    rw [List.forall_mem_cons, List.forall_mem_append, List.forall_mem_cons, ho, hclosing]
    exact ⟨by decide, hnone, by decide, ih.2⟩
  | openBlock hc ho _ _ ih =>
    refine ⟨(Cursor.moves_next hc).trans ⟨ih.1.rest_eq, ih.1.position_eq, rfl⟩, ?_⟩
    rw [List.forall_mem_cons, ho]
    exact ⟨by decide, ih.2⟩
  | read _ _ _ _ ih ihs =>
    exact ⟨ih.1.trans ihs.1, List.forall_mem_append.mpr ⟨ih.2, ihs.2⟩⟩
  | giveUp _ _ _ _ ih ihs =>
    refine ⟨ih.1.trans ((moves_resumption _).trans ihs.1), ?_⟩
    rw [List.forall_mem_append, List.forall_mem_append]
    exact ⟨ih.2, fun token hmem => not_mem_eof_drops hmem, ihs.2⟩

theorem Traverses.closed (h : Traverses passage c used c' calls) (hc : c.Closed) : c'.Closed :=
  h.moves.1.closed h.moves.2 hc

/-- No way leads past the end mark. -/
theorem Traverses.of_atEnd (h : Traverses passage c used c' calls) (hc : AtEnd c) :
    used = [] ∧ c' = c ∧ calls = [] := by
  obtain ⟨mark, hmark, heof⟩ := hc
  have hhead {token rest} (hrest : c.rest = token :: rest) : token.kind = .eof := by
    rw [hrest] at hmark
    obtain rfl := Option.some.inj hmark
    exact heof
  have hasks (hasks : Asks c) : False := by
    obtain ⟨token, rest, hrest, hkept⟩ := hasks
    exact hkept (isKept_of_eof (hhead hrest))
  cases h with
  | stay | finish => exact ⟨rfl, rfl, rfl⟩
  | token hrest hk => exact absurd (by rw [hhead hrest]; decide) hk
  | block hrest ho | openBlock hrest ho =>
    rw [hhead hrest] at ho
    cases ho
  | read h | giveUp h => exact (hasks h).elim

theorem Traverses.append (h : Traverses .attempt c used c' calls)
    (h' : Traverses .attempt c' used' c'' calls') :
    Traverses .attempt c (used ++ used') c'' (calls ++ calls') := by
  generalize hpassage : Passage.attempt = passage at h
  induction h with
  | stay => exact h'
  | token hc hk _ ih => exact .token hc hk (ih h' hpassage)
  | block hc ho hb hclosing _ _ ih =>
    have happend := Traverses.block hc ho hb hclosing (ih h' hpassage)
    simpa using happend
  | openBlock hc ho hb hmark _ =>
    -- a block that is still open stands before the end mark, where no way goes on
    obtain ⟨rfl, rfl, rfl⟩ := h'.of_atEnd ⟨_, rfl, hmark⟩
    rw [List.append_nil, List.append_nil]
    exact .openBlock hc ho hb hmark
  | _ => cases hpassage

/-- Tokens that are no braces are gone over one by one. -/
theorem traverses_plain (h : c.Moves used c')
    (hk : ∀ token ∈ used, token.kind ∉ [.leftBrace, .rightBrace, .eof]) :
    Traverses .attempt c used c' [] := by
  induction used generalizing c with
  | nil =>
    obtain ⟨position, rest, openBlocks⟩ := c
    have hc' := h.eq_mk
    have hrest : rest = c'.rest := h.rest_eq
    rw [hc', ← hrest]
    exact .stay _
  | cons token used ih =>
    obtain ⟨hfirst, hothers⟩ := List.forall_mem_cons.mp hk
    refine .token h.rest_eq hfirst (ih ?_ hothers)
    have hposition : c'.position = c.position + 1 + used.length := by
      rw [h.position_eq, List.length_cons]
      omega
    exact ⟨rfl, hposition, h.openBlocks_eq⟩

/-- Every call on the way is made. -/
theorem Traverses.isMade (h : Traverses passage c used c' calls) (hc : c.Closed) :
    ∀ call ∈ calls, call.IsMade := by
  induction h with
  | stay | finish => simp
  | token hrest hk _ ih => exact ih (ends_of_next hc hrest fun heof => hk (by rw [heof]; decide))
  | block hrest ho hb hclosing _ ihb ih =>
    have hopened := ends_of_next hc hrest (by rw [ho]; decide)
    have hclosed := ends_of_next (hb.closed hopened) rfl (by rw [hclosing]; decide)
    exact List.forall_mem_append.mpr ⟨ihb hopened, ih hclosed⟩
  | openBlock hrest ho _ _ ih => exact ih (ends_of_next hc hrest (by rw [ho]; decide))
  | read hasks ha h _ ih ihs =>
    have hc' := h.closed hc
    rw [List.forall_mem_append, List.forall_mem_cons]
    refine ⟨ih hc, ⟨hasks, ⟨_, _, declaration_of_done ha⟩, ?_⟩, ihs hc'⟩
    simp [ha]
  | giveUp hasks ha h _ ih ihs =>
    have hc' := h.closed hc
    rw [List.forall_mem_append, List.forall_mem_cons]
    refine ⟨ih hc, ⟨hasks, ⟨_, _, declaration_of_stopped ha hc'⟩, ?_⟩, ihs ?_⟩
    · intro error
      rw [ha]
      simp
    · exact (moves_resumption _).closed (fun token hmem => not_mem_eof_drops hmem) hc'

end Ways

section Rules

variable {α β : Type} {n : Nat} {p : Rule α} {f : α → Rule β}

/-- A reading went the way of an attempt, and the errors that it recorded are, but for those
recorded in passing, the ones that were raised on the way. -/
def Went (c : Cursor) (reading : Reading α) : Prop :=
  ∃ used calls, Traverses .attempt c used reading.cursor calls ∧
    raisedErrors reading.recorded = calls.filterMap Call.raised?

/-- Before an end mark and where at most `n` tokens are left, the rule goes the way of an attempt,
whatever it comes to. -/
def Goes (n : Nat) (r : Rule α) : Prop :=
  ∀ c, c.rest.length ≤ n → c.Closed → Went c (r c)

/-- Past an opening brace, where at most `n` tokens are left, the rule goes on with the block. -/
def GoesInside (n : Nat) (r : Rule α) : Prop :=
  ∀ c opening rest, c.rest = opening :: rest → opening.kind = .leftBrace → rest.length ≤ n →
    Ends rest → Went c (r ⟨c.position + 1, rest, c.openBlocks⟩)

theorem Goes.mono {m : Nat} (h : Goes n p) (hm : m ≤ n) : Goes m p :=
  fun c hc => h c (Nat.le_trans hc hm)

theorem went_stay (c : Cursor) (ending : Ending α) : Went c ⟨ending, c, []⟩ :=
  ⟨[], [], .stay c, rfl⟩

theorem goes_of_agree (hp : Agree .expression n p p) : Goes n p := by
  intro c hc _
  obtain ⟨-, hkeeps⟩ := hp c hc
  obtain ⟨used, hm, hu⟩ := hkeeps.moves
  refine ⟨used, [], traverses_plain hm ?_, raisedErrors_of_expression hkeeps.records⟩
  intro token hmem hbrace
  have hexpression : token.kind.inExpression := hu token hmem
  simp only [List.mem_cons, List.not_mem_nil, or_false] at hbrace
  obtain hk | hk | hk := hbrace <;> rw [hk] at hexpression <;> cases hexpression

theorem goes_pure (value : α) : Goes n (pure value) := fun c _ _ => went_stay c _

/-- What goes on where a way came to, from wherever that way began. -/
theorem Went.bind {c m : Cursor} (hp : Went c (p m))
    (hf : ∀ value c', c'.rest.length ≤ c.rest.length → (c.Closed → c'.Closed) →
      Went c' (f value c')) : Went c ((p >>= f) m) := by
  obtain ⟨used, calls, hway, hraised⟩ := hp
  rcases hr : p m with ⟨ending, c', errors⟩
  rw [hr] at hway hraised
  cases ending with
  | done value =>
    obtain ⟨used', calls', hway', hraised'⟩ := hf value c' hway.moves.1.length_le hway.closed
    rw [bind_of_done hr]
    refine ⟨used ++ used', calls ++ calls', hway.append hway', ?_⟩
    rw [Reading.after, raisedErrors_append, hraised, hraised', List.filterMap_append]
  | stopped error =>
    rw [bind_of_stopped hr]
    exact ⟨used, calls, hway, hraised⟩
  | ranOut =>
    rw [bind_of_ranOut hr]
    exact ⟨used, calls, hway, hraised⟩

theorem goes_bind (hp : Goes n p) (hf : ∀ value, Goes n (f value)) : Goes n (p >>= f) :=
  fun c hc hclosed => (hp c hc hclosed).bind fun value c' hle hends =>
    hf value c' (Nat.le_trans hle hc) (hends hclosed)

/-- One token and what is gone over after it. -/
theorem Went.token {c : Cursor} {token : Token} {rest : List Token} {reading : Reading α}
    (hc : c.rest = token :: rest) (hk : token.kind ∉ [.leftBrace, .rightBrace, .eof])
    (h : Went ⟨c.position + 1, rest, c.openBlocks⟩ reading) : Went c reading := by
  obtain ⟨used, calls, hway, hraised⟩ := h
  exact ⟨token :: used, calls, .token hc hk hway, hraised⟩

theorem goes_expectNamed {kind : TokenKind} (expected context : String)
    (hk : kind ∉ [.leftBrace, .rightBrace, .eof]) : Goes n (expectNamed kind expected context) := by
  rintro ⟨position, rest, openBlocks⟩ - hclosed
  cases rest with
  | nil => obtain ⟨_, hmem, -⟩ := hclosed; cases hmem
  | cons token rest =>
    by_cases h : token.kind = kind
    · rw [expectNamed_hit position openBlocks rest expected context h
        fun heof => hk (by rw [heof]; decide)]
      exact (went_stay _ _).token rfl (by rw [h]; exact hk)
    · rw [expectNamed_miss position openBlocks rest expected context h]
      exact went_stay _ _

theorem goes_leftBrace (expected context : String) {f : Token → Rule β}
    (hf : ∀ brace, GoesInside n (f brace)) :
    Goes n (expectNamed .leftBrace expected context >>= f) := by
  rintro ⟨position, rest, openBlocks⟩ hc hclosed
  cases rest with
  | nil => obtain ⟨_, hmem, -⟩ := hclosed; cases hmem
  | cons brace rest =>
    by_cases h : brace.kind = .leftBrace
    · rw [bind_of_done (expectNamed_hit position openBlocks rest expected context h (by decide)),
        Reading.after_nil]
      exact hf brace ⟨position, brace :: rest, openBlocks⟩ brace rest rfl h (Nat.le_of_succ_le hc)
        (ends_of_next hclosed rfl (by rw [h]; decide))
    · rw [bind_of_stopped (expectNamed_miss position openBlocks rest expected context h)]
      exact went_stay _ _

theorem goes_accept? {kinds : List TokenKind} {f : Option Token → Rule β}
    (hkinds : .rightBrace ∉ kinds)
    (hsome : ∀ token m, token.kind ∈ kinds → token.kind ≠ .leftBrace → m < n →
      Goes m (f (some token)))
    (hinside : .leftBrace ∈ kinds → ∀ opening m, opening.kind = .leftBrace → m < n →
      GoesInside m (f (some opening)))
    (hnone : Goes n (f none)) : Goes n (accept? kinds >>= f) := by
  rintro ⟨position, rest, openBlocks⟩ hc hclosed
  cases rest with
  | nil => obtain ⟨_, hmem, -⟩ := hclosed; cases hmem
  | cons token rest =>
    by_cases h : token.kind ≠ .eof ∧ token.kind ∈ kinds
    · obtain ⟨heof, hk⟩ := h
      have hends := ends_of_next hclosed rfl heof
      rw [bind_of_done (accept?_hit position openBlocks rest hk heof), Reading.after_nil]
      -- an opening brace leads into a block, any other token over itself
      by_cases hbrace : token.kind = .leftBrace
      · exact hinside (hbrace ▸ hk) token rest.length hbrace hc _ token rest rfl hbrace
          (Nat.le_refl _) hends
      · have hplain : token.kind ∉ [.leftBrace, .rightBrace, .eof] := by
          simp only [List.mem_cons, List.not_mem_nil, or_false, not_or]
          exact ⟨hbrace, fun h => hkinds (h ▸ hk), heof⟩
        exact Went.token rfl hplain (hsome token rest.length hk hbrace hc
          ⟨position + 1, rest, openBlocks⟩ (Nat.le_refl _) hends)
    · have hmiss : accept? kinds ⟨position, token :: rest, openBlocks⟩ =
          ⟨.done none, ⟨position, token :: rest, openBlocks⟩, []⟩ := by
        rw [accept?_cons, if_neg]
        simpa [Token.isEof] using h
      rw [bind_of_done hmiss, Reading.after_nil]
      exact hnone _ hc hclosed

theorem GoesInside.map (g : α → β) (hp : GoesInside n p) : GoesInside n (g <$> p) := by
  intro c opening rest hc ho hn hends
  rw [map_eq_bind]
  exact (hp c opening rest hc ho hn hends).bind fun value c' _ _ => went_stay c' _

end Rules

section Statements

variable {n : Nat} {b : Rule (List Stmt)} {s : Rule Stmt}

theorem goes_expression : Goes n expression := goes_of_agree (agree_expression n)

theorem goes_printStatement (keyword : Token) : Goes n (printStatement keyword) :=
  goes_bind goes_expression fun _ =>
    goes_bind (goes_expectNamed _ _ (by decide)) fun _ => goes_pure _

theorem goes_expressionStatement : Goes n expressionStatement :=
  goes_bind goes_expression fun _ =>
    goes_bind (goes_expectNamed _ _ (by decide)) fun _ => goes_pure _

theorem goes_letDeclaration (keyword : Token) : Goes n (letDeclaration keyword) := by
  refine goes_bind (goes_expectNamed _ _ (by decide)) fun name => ?_
  refine goes_bind (goes_expectNamed _ _ (by decide)) fun _ => ?_
  refine goes_bind goes_expression fun initializer => ?_
  exact goes_bind (goes_expectNamed _ _ (by decide)) fun _ => goes_pure _

theorem goes_functionDeclaration (hb : GoesInside n b) (keyword : Token) :
    Goes n (functionDeclaration b keyword) := by
  refine goes_bind (goes_expectNamed _ _ (by decide)) fun name => ?_
  refine goes_bind (goes_expectNamed _ _ (by decide)) fun _ => ?_
  refine goes_bind (goes_of_agree agree_parameters) fun params => ?_
  refine goes_bind (goes_expectNamed _ _ (by decide)) fun _ => ?_
  exact goes_leftBrace _ _ fun brace =>
    hb.map (Stmt.function keyword.line name params brace.line)

theorem goes_whileStatement (hs : Goes n s) (keyword : Token) :
    Goes n (whileStatement s keyword) := by
  refine goes_bind (goes_expectNamed _ _ (by decide)) fun _ => ?_
  refine goes_bind goes_expression fun condition => ?_
  refine goes_bind (goes_expectNamed _ _ (by decide)) fun _ => ?_
  exact goes_bind hs fun _ => goes_pure _

theorem goes_ifStatement (hs : Goes n s) (keyword : Token) : Goes n (ifStatement s keyword) := by
  refine goes_bind (goes_expectNamed _ _ (by decide)) fun _ => ?_
  refine goes_bind goes_expression fun condition => ?_
  refine goes_bind (goes_expectNamed _ _ (by decide)) fun _ => ?_
  refine goes_bind hs fun thenBranch => ?_
  refine goes_accept? (by decide) (fun _ m _ _ hm => ?_) (fun h => absurd h (by decide))
    (goes_pure _)
  exact goes_bind (hs.mono (Nat.le_of_lt hm)) fun _ => goes_pure _

theorem goes_statement (hb : ∀ m < n, GoesInside m (block declaration)) :
    Goes n (statement (block declaration)) := by
  induction n using Nat.strongRecOn with
  | ind n ih =>
    rw [statement_unfold]
    refine goes_accept? (by decide) (fun token m hk hbrace hm => ?_) (fun _ opening m ho hm => ?_)
      goes_expressionStatement
    · have hs := ih m hm fun k hk => hb k (Nat.lt_trans hk hm)
      dsimp only
      split
      · exact goes_printStatement token
      · exact goes_ifStatement hs token
      · exact goes_whileStatement hs token
      · next hprint hif hwhile =>
        simp [Ne.intro hprint, Ne.intro hif, Ne.intro hwhile, hbrace] at hk
    · dsimp only
      rw [ho]
      exact (hb m hm).map (Stmt.block opening.line)

theorem goes_attempt (hb : ∀ m < n, GoesInside m (block declaration)) : Goes n attempt := by
  refine goes_accept? (by decide) (fun token m _ _ hm => ?_) (fun h => absurd h (by decide))
    (goes_statement hb)
  dsimp only
  split
  · exact goes_functionDeclaration (hb m hm) token
  · exact goes_letDeclaration token

end Statements

section Lists

/-- A loop with so many blocks open: it ends where no declaration is asked for, and otherwise goes
on past one. -/
structure ListLoop (openBlocks : Nat) (loop : List Stmt → Rule (List Stmt)) : Prop where
  ends : ∀ read position token rest, isKept (decide (0 < openBlocks)) token →
    loop read ⟨position, token :: rest, openBlocks⟩ =
      ⟨.done read, ⟨position, token :: rest, openBlocks⟩, []⟩
  goesOn : ∀ read position token rest, ¬ isKept (decide (0 < openBlocks)) token →
    ∀ statement? c' errors,
      declaration ⟨position, token :: rest, openBlocks⟩ = ⟨.done statement?, c', errors⟩ →
      loop read ⟨position, token :: rest, openBlocks⟩ =
        (loop (read ++ statement?.toList) c').after errors

theorem listLoop_program : ListLoop 0 (iterate programStep) where
  ends read position token rest h :=
    program_of_eof read position rest (by simpa [isKept_iff] using h)
  goesOn read position token rest h _ _ _ hdone :=
    program_of_declaration read position rest (by simpa [isKept_iff] using h) hdone

theorem listLoop_block (openBlocks : Nat) :
    ListLoop (openBlocks + 1) (iterate (blockStep declaration)) where
  ends read position token rest h := by
    refine block_of_end read position (openBlocks + 1) rest ?_
    have hkept : token.kind = .eof ∨ token.kind = .rightBrace := by
      simpa [isKept_iff] using h
    exact hkept.symm
  goesOn read position token rest h _ _ _ hdone := by
    have hkept : token.kind ≠ .eof ∧ token.kind ≠ .rightBrace := by
      simpa [isKept_iff] using h
    exact lists_block (openBlocks + 1) read position token rest hkept.2 hkept.1 _ _ _ hdone

/-- A call of the rule for declarations makes at least one token of progress. -/
theorem declaration_advances {c c' : Cursor} {statement? : Option Stmt}
    {errors : List SyntaxError} (hc : Asks c)
    (h : declaration c = ⟨.done statement?, c', errors⟩) :
    c.position < c'.position ∧ c'.rest.length < c.rest.length := by
  obtain ⟨token, rest, hrest, hkept⟩ := hc
  obtain ⟨-, hkeeps, hprogress⟩ := agreeOnDeclarations _ c (Nat.le_refl _)
  rw [h] at hkeeps hprogress
  obtain ⟨used, hm, -⟩ := hkeeps.moves
  have hlt := hprogress statement? rfl token rest hrest hkept
  have hlength : c.rest.length = used.length + c'.rest.length := by
    rw [hm.rest_eq, List.length_append]
  have hposition : c'.position = c.position + used.length := hm.position_eq
  dsimp only at hlt
  omega

/-- A call of the rule for declarations, before any way that goes on from where it ends. -/
theorem declaration_traverses {n : Nat} (ha : Goes n attempt) {c : Cursor} (hn : c.rest.length ≤ n)
    (hc : c.Closed) (hasks : Asks c) :
    ∃ statement? c' errors used calls, declaration c = ⟨.done statement?, c', errors⟩ ∧
      c.Moves used c' ∧ c'.Closed ∧ raisedErrors errors = calls.filterMap Call.raised? ∧
      ∀ used' c'' calls', Traverses .declarations c' used' c'' calls' →
        Traverses .declarations c (used ++ used') c'' (calls ++ calls') := by
  obtain ⟨used, calls, hway, hraised⟩ := ha c hn hc
  obtain ⟨-, hkeeps⟩ := agree_attempt n c hn
  rcases hr : attempt c with ⟨ending, middle, before⟩
  rw [hr] at hway hraised hkeeps
  have hclosed := hway.closed hc
  cases ending with
  | done tree =>
    refine ⟨some tree, middle, before, used, calls ++ [⟨c, middle, none⟩], declaration_of_done hr,
      hway.moves.1, hclosed, ?_, fun used' c'' calls' hs => ?_⟩
    · simp [hraised]
    · have hread := Traverses.read hasks hr hway hs
      rwa [List.append_cons] at hread
  | stopped error =>
    have hmoves := hway.moves.1.trans (moves_resumption middle)
    -- the way of the attempt, and then what is dropped where it stopped
    refine ⟨none, resumption middle, before ++ [error], used ++ droppedAt middle,
      calls ++ [⟨c, resumption middle, some error⟩], declaration_of_stopped hr hclosed, hmoves,
      (moves_resumption middle).closed (fun _ hmem => not_mem_eof_drops hmem) hclosed, ?_,
      fun used' c'' calls' hs => ?_⟩
    · have herror : error.fault.raised = true := (hkeeps.stops error rfl).raised
      have hlast : raisedErrors [error] = [error] := by simp [raisedErrors, herror]
      rw [raisedErrors_append, hlast, show raisedErrors before = _ from hraised]
      simp
    · have hgiveUp := Traverses.giveUp hasks hr hway hs
      rwa [List.append_cons, ← List.append_assoc used] at hgiveUp
  | ranOut => exact absurd rfl (hkeeps.ends hc)

/-- A list of declarations is read up to where its block or the program ends. -/
theorem ListLoop.traverses {openBlocks n : Nat} {loop : List Stmt → Rule (List Stmt)}
    (hloop : ListLoop openBlocks loop) (ha : Goes n attempt) (c : Cursor) (hn : c.rest.length ≤ n)
    (hopen : c.openBlocks = openBlocks) (hc : c.Closed) (read : List Stmt) :
    ∃ trees used stop token later errors calls,
      isKept (decide (0 < openBlocks)) token ∧
      loop read c = ⟨.done trees, ⟨stop, token :: later, openBlocks⟩, errors⟩ ∧
      Traverses .declarations c used ⟨stop, token :: later, openBlocks⟩ calls ∧
      raisedErrors errors = calls.filterMap Call.raised? := by
  -- on the tokens that are left: every call of the rule for declarations uses one up
  induction hlength : c.rest.length using Nat.strongRecOn generalizing c read with
  | ind length ih =>
    subst hlength
    obtain ⟨position, rest, blocks⟩ := c
    cases hopen
    cases rest with
    | nil => obtain ⟨_, hmem, -⟩ := hc; cases hmem
    | cons token rest =>
      by_cases hkept : isKept (decide (0 < blocks)) token
      · exact ⟨read, [], position, token, rest, [], [], hkept, hloop.ends read position token rest
          hkept, .finish _, rfl⟩
      · have hasks : Asks ⟨position, token :: rest, blocks⟩ := ⟨token, rest, rfl, hkept⟩
        obtain ⟨statement?, c', before, used, calls, hdone, hm, hclosed, hraised, hprepend⟩ :=
          declaration_traverses ha hn hc hasks
        have hlt := (declaration_advances hasks hdone).2
        obtain ⟨trees, used', stop, last, later, errors, calls', hlast, hmore, hway, hraised'⟩ :=
          ih _ hlt c' (Nat.le_trans (Nat.le_of_lt hlt) hn) hm.openBlocks_eq hclosed
            (read ++ statement?.toList) rfl
        refine ⟨trees, used ++ used', stop, last, later, before ++ errors, calls ++ calls', hlast,
          ?_, hprepend _ _ _ hway, ?_⟩
        · rw [hloop.goesOn read position token rest hkept _ _ _ hdone, hmore]
          rfl
        · rw [raisedErrors_append, hraised, hraised', List.filterMap_append]

/-- What a block is read as, past its opening brace: declarations up to its closing brace, or up to
the end mark, which stops it. -/
theorem block_traverses {n : Nat} (ha : Goes n attempt) (c : Cursor) (hn : c.rest.length ≤ n)
    (hc : c.Closed) :
    ∃ used stop token later errors calls,
      Traverses .declarations ⟨c.position, c.rest, c.openBlocks + 1⟩ used
        ⟨stop, token :: later, c.openBlocks + 1⟩ calls ∧
      raisedErrors errors = calls.filterMap Call.raised? ∧
      (token.kind = .rightBrace ∧ (∃ trees, block declaration c =
          ⟨.done trees, ⟨stop + 1, later, c.openBlocks⟩, errors⟩) ∨
        token.kind = .eof ∧ ∃ error, block declaration c =
          ⟨.stopped error, ⟨stop, token :: later, c.openBlocks⟩, errors⟩) := by
  obtain ⟨trees, used, stop, token, later, errors, calls, hkept, hdone, hway, hraised⟩ :=
    (listLoop_block c.openBlocks).traverses ha ⟨c.position, c.rest, c.openBlocks + 1⟩ hn rfl hc []
  refine ⟨used, stop, token, later, errors, calls, hway, hraised, ?_⟩
  have hinside : inBlock (iterate (blockStep declaration) []) c =
      ⟨.done trees, ⟨stop, token :: later, c.openBlocks⟩, errors⟩ := by
    unfold inBlock
    rw [hdone]
  have hcases : token.kind = .eof ∨ token.kind = .rightBrace := by
    simpa [isKept_iff] using hkept
  rw [block_eq, bind_of_done hinside]
  -- at an end mark the block stays open, and at a brace it closes
  obtain hk | hk := hcases
  · have hne : token.kind ≠ .rightBrace := by rw [hk]; decide
    have hmiss := expectNamed_miss stop c.openBlocks later
      TokenKind.rightBrace.description "after block" hne
    refine .inr ⟨hk,
      ⟨.expectedToken TokenKind.rightBrace.description "after block", token, stop⟩, ?_⟩
    rw [expect, bind_of_stopped hmiss, Reading.after_mk, List.append_nil]
  · have hhit := expectNamed_hit stop c.openBlocks later TokenKind.rightBrace.description
      "after block" hk (by decide)
    refine .inl ⟨hk, trees, ?_⟩
    rw [expect, bind_of_done hhit]
    simp

theorem goesInside_block {n : Nat} (ha : Goes n attempt) : GoesInside n (block declaration) := by
  intro c opening rest hc ho hn hends
  obtain ⟨used, stop, token, later, errors, calls, hway, hraised, hend⟩ :=
    block_traverses ha ⟨c.position + 1, rest, c.openBlocks⟩ hn hends
  obtain ⟨hk, trees, hdone⟩ | ⟨hk, error, hstopped⟩ := hend
  · rw [hdone]
    refine ⟨_, _, .block hc ho hway hk (.stay _), ?_⟩
    rw [List.append_nil]
    exact hraised
  · rw [hstopped]
    exact ⟨_, calls, .openBlock hc ho hway hk, hraised⟩

/-- Every attempt goes over single tokens and blocks. -/
theorem goes_attempt_all (n : Nat) : Goes n attempt := by
  -- an attempt asks for a block only past some token
  induction n using Nat.strongRecOn with
  | ind n ih => exact goes_attempt fun m hm => goesInside_block (ih m hm)

end Lists

end ScriptLang.Grammar
