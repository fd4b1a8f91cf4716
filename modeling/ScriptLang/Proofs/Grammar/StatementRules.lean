import ScriptLang.Proofs.Grammar.Synchronization

namespace ScriptLang.Grammar

open Rule

section Parameters

variable {n : Nat}

theorem agree_parameter (read : List Token) :
    Agree .expression n (parameter read) (parameter read) :=
  agree_item rfl (agree_bind (agree_expectNamed _ _ fun _ => rfl) fun _ => agree_pure _) _

theorem agree_parameters : Agree .expression n parameters parameters :=
  agree_itemList agree_parameter

def moreParameters : List Token → Rule (List Token) := moreItems parameter

theorem parameters_eq : parameters = (do
    if ← isNext .rightParen then return []
    else moreParameters (← parameter [])) := rfl

theorem moreParameters_unfold (read : List Token) : moreParameters read = (do
    match ← accept? [.comma] with
    | some _ => moreParameters (← parameter read)
    | none => return read) :=
  moreItems_unfold (fun read _ => agree_parameter read) read

end Parameters

section Statements

variable {n : Nat} {b b' : Rule (List Stmt)} {r s : Rule Stmt}

theorem agree_functionDeclaration (hb : Agree .statement n b b') (keyword : Token) :
    Agree .statement n (functionDeclaration b keyword) (functionDeclaration b' keyword) := by
  refine agree_bind (agree_expectNamed _ _ fun _ => rfl) fun name => ?_
  refine agree_bind (agree_expectNamed _ _ fun _ => rfl) fun _ => ?_
  refine agree_bind agree_parameters.toStatement fun params => ?_
  refine agree_bind (agree_expectNamed _ _ fun _ => rfl) fun _ => ?_
  refine agree_bind (agree_expectNamed _ _ fun _ => rfl) fun brace => ?_
  exact agree_bind hb fun _ => agree_pure _

theorem agree_letDeclaration (keyword : Token) :
    Agree .statement n (letDeclaration keyword) (letDeclaration keyword) := by
  refine agree_bind (agree_expectNamed _ _ fun _ => rfl) fun name => ?_
  refine agree_bind (agree_expectNamed _ _ fun _ => rfl) fun _ => ?_
  refine agree_bind (agree_expression n).toStatement fun initializer => ?_
  exact agree_bind (agree_expectNamed _ _ fun _ => rfl) fun _ => agree_pure _

theorem agree_printStatement (keyword : Token) :
    Agree .statement n (printStatement keyword) (printStatement keyword) := by
  refine agree_bind (agree_expression n).toStatement fun value => ?_
  exact agree_bind (agree_expectNamed _ _ fun _ => rfl) fun _ => agree_pure _

theorem agree_ifStatement (hr : Agree .statement n r s) (keyword : Token) :
    Agree .statement n (ifStatement r keyword) (ifStatement s keyword) := by
  refine agree_bind (agree_expectNamed _ _ fun _ => rfl) fun _ => ?_
  refine agree_bind (agree_expression n).toStatement fun condition => ?_
  refine agree_bind (agree_expectNamed _ _ fun _ => rfl) fun _ => ?_
  refine agree_bind hr fun thenBranch => ?_
  refine agree_accept? (by decide) (fun _ m _ hm => ?_) (agree_pure _)
  exact agree_bind (hr.mono (Nat.le_of_lt hm)) fun _ => agree_pure _

theorem agree_whileStatement (hr : Agree .statement n r s) (keyword : Token) :
    Agree .statement n (whileStatement r keyword) (whileStatement s keyword) := by
  refine agree_bind (agree_expectNamed _ _ fun _ => rfl) fun _ => ?_
  refine agree_bind (agree_expression n).toStatement fun condition => ?_
  refine agree_bind (agree_expectNamed _ _ fun _ => rfl) fun _ => ?_
  exact agree_bind hr fun _ => agree_pure _

theorem agree_expressionStatement :
    Agree .statement n expressionStatement expressionStatement := by
  refine agree_bind (agree_expression n).toStatement fun value => ?_
  exact agree_bind (agree_expectNamed _ _ fun _ => rfl) fun _ => agree_pure _

theorem consumes_expressionStatement : Consumes n expressionStatement := by
  refine consumes_bind_right (agree_expression n) fun value => ?_
  exact consumes_bind_left .statement (consumes_expectNamed _ _) fun _ => agree_pure _

def statementBody (b : Rule (List Stmt)) (statement : Rule Stmt) : Rule Stmt := do
  match ← accept? [.printWord, .ifWord, .whileWord, .leftBrace] with
  | none => expressionStatement
  | some token =>
    match token.kind with
    | .printWord => printStatement token
    | .ifWord => ifStatement statement token
    | .whileWord => whileStatement statement token
    | _ => return .block token.line (← b)

theorem statementBody_starves (b : Rule (List Stmt)) : Starves (statementBody b) :=
  fun _ _ hc => accept?_bind_of_nil _ _ hc

theorem agree_statementBody (hb : ∀ m < n, Agree .statement m b b')
    (hr : ∀ m < n, Agree .statement m r s) :
    Agree .statement n (statementBody b r) (statementBody b' s) := by
  refine agree_accept? (by decide) (fun token m _ hm => ?_) agree_expressionStatement
  dsimp only
  split
  · exact agree_printStatement token
  · exact agree_ifStatement (hr m hm) token
  · exact agree_whileStatement (hr m hm) token
  · exact agree_bind (hb m hm) fun _ => agree_pure _

theorem agree_statement (hb : ∀ m < n, Agree .statement m b b') :
    Agree .statement n (statement b) (statement b') :=
  agree_fix (statementBody_starves b) (statementBody_starves b') fun m hm _ _ hr =>
    agree_statementBody (fun k hk => hb k (by omega)) hr

theorem consumes_statement (hb : ∀ m < n, Agree .statement m b b) :
    Consumes n (statement b) := by
  intro c hc value c' errors h
  have hbody : ∀ m ≤ n, ∀ r s, (∀ k < m, Agree .statement k r s) →
      Agree .statement m (statementBody b r) (statementBody b s) :=
    fun m hm r s hr => agree_statementBody (fun k hk => hb k (by omega)) hr
  rw [show statement b = fix (statementBody b) from rfl,
    fix_apply (statementBody_starves b) hbody c hc] at h
  refine consumes_accept? .statement (fun token m hm => ?_)
    consumes_expressionStatement c hc value c' errors h
  have hstatement := agree_statement fun k hk => hb k (Nat.lt_trans hk hm)
  dsimp only
  split
  · exact agree_printStatement token
  · exact agree_ifStatement hstatement token
  · exact agree_whileStatement hstatement token
  · exact agree_bind (hb m hm) fun _ => agree_pure _

theorem statement_eq (hb : ∀ m, Agree .statement m b b) :
    statement b = statementBody b (statement b) :=
  fix_eq (statementBody_starves b) fun _ _ _ hr => agree_statementBody (fun m _ => hb m) hr

theorem agree_declarationOrStatement (hb : ∀ m < n, Agree .statement m b b') :
    Agree .statement n (declarationOrStatement b) (declarationOrStatement b') := by
  refine agree_accept? (by decide) (fun token m _ hm => ?_) (agree_statement hb)
  dsimp only
  split
  · exact agree_functionDeclaration (hb m hm) token
  · exact agree_letDeclaration token

end Statements

section Blocks

variable {n : Nat} {r s : Rule (Option Stmt)}

/-- A reading that comes to its end past some token, unless it starts before a kept token. -/
def Progresses (c : Cursor) (reading : Reading (Option Stmt)) : Prop :=
  ∀ value, reading.ending = .done value → ∀ token rest, c.rest = token :: rest →
    ¬ isKept (decide (0 < c.openBlocks)) token → reading.cursor.rest.length < c.rest.length

def AgreeOnDeclarations (n : Nat) (r s : Rule (Option Stmt)) : Prop :=
  ∀ c : Cursor, c.rest.length ≤ n →
    r c = s c ∧ (r c).Keeps .statement c ∧ Progresses c (r c)

theorem AgreeOnDeclarations.agree (h : AgreeOnDeclarations n r s) : Agree .statement n r s :=
  fun c hc => ⟨(h c hc).1, (h c hc).2.1⟩

/-- One more declaration unless the block or the program ends here. -/
def blockStep (declaration : Rule (Option Stmt)) (statements : List Stmt) :
    Rule (Option (List Stmt)) := do
  if ← isNext .rightBrace then return none
  else if ← atEnd then return none
  else return some (statements ++ (← declaration).toList)

theorem block_eq (declaration : Rule (Option Stmt)) : block declaration = (do
    let statements ← inBlock (iterate (blockStep declaration) [])
    let _ ← expect .rightBrace "after block"
    return statements) := rfl

theorem blockStep_of_nil (r : Rule (Option Stmt)) (statements : List Stmt) (c : Cursor)
    (hc : c.rest = []) : blockStep r statements c = ⟨.ranOut, c, []⟩ := by
  obtain ⟨position, rest, openBlocks⟩ := c
  cases hc
  rfl

theorem blockStep_of_end (r : Rule (Option Stmt)) (statements : List Stmt)
    (position openBlocks : Nat) {token : Token} (rest : List Token)
    (h : token.kind = .rightBrace ∨ token.kind = .eof) :
    blockStep r statements ⟨position, token :: rest, openBlocks⟩ =
      ⟨.done none, ⟨position, token :: rest, openBlocks⟩, []⟩ := by
  unfold blockStep
  rw [bind_of_done (isNext_cons position openBlocks rest .rightBrace)]
  obtain hk | hk := h
  · rw [if_pos (by simp [Token.isEof, hk])]
    rfl
  · rw [if_neg (by simp [Token.isEof, hk]), bind_of_done (atEnd_cons position openBlocks rest),
      if_pos (by simp [Token.isEof, hk])]
    rfl

theorem blockStep_of_not_end (r : Rule (Option Stmt)) (statements : List Stmt)
    (position openBlocks : Nat) {token : Token} (rest : List Token)
    (hbrace : token.kind ≠ .rightBrace) (heof : token.kind ≠ .eof) :
    blockStep r statements ⟨position, token :: rest, openBlocks⟩ =
      ((fun statement? => some (statements ++ statement?.toList)) <$> r)
        ⟨position, token :: rest, openBlocks⟩ := by
  unfold blockStep
  rw [bind_of_done (isNext_cons position openBlocks rest .rightBrace), if_neg (by simp [hbrace]),
    Reading.after_nil, bind_of_done (atEnd_cons position openBlocks rest),
    if_neg (by simp [Token.isEof, heof]), Reading.after_nil, map_eq_bind]

theorem shrinks_blockStep (hr : AgreeOnDeclarations n r r) : Shrinks n (blockStep r) := by
  rintro statements ⟨position, rest, openBlocks⟩ hc value' c' errors h
  cases rest with
  | nil => rw [blockStep_of_nil r statements _ rfl] at h; cases h
  | cons token rest =>
    by_cases hend : token.kind = .rightBrace ∨ token.kind = .eof
    · rw [blockStep_of_end r statements position openBlocks rest hend] at h
      cases h
    · rw [not_or] at hend
      rw [blockStep_of_not_end r statements position openBlocks rest hend.1 hend.2,
        map_eq_bind] at h
      obtain ⟨statement?, middle, before, later, hdone, hpure, -⟩ := bind_eq_done_iff.mp h
      cases hpure
      have hprogress := (hr _ hc).2.2
      rw [hdone] at hprogress
      exact hprogress statement? rfl token rest rfl (by simp [isKept_iff, hend])

theorem agree_blockStep (hr : AgreeOnDeclarations n r s) (statements : List Stmt) :
    Agree .statement n (blockStep r statements) (blockStep s statements) := by
  refine agree_bind (agree_isNext _) fun isClosing => ?_
  split
  · exact agree_pure _
  · refine agree_bind agree_atEnd fun isEnd => ?_
    split
    · exact agree_pure _
    · exact agree_bind hr.agree fun _ => agree_pure _

theorem AgreeOnDeclarations.left (h : AgreeOnDeclarations n r s) : AgreeOnDeclarations n r r :=
  fun c hc => ⟨rfl, (h c hc).2⟩

theorem agree_block (hr : AgreeOnDeclarations n r s) :
    Agree .statement n (block r) (block s) := by
  rw [block_eq, block_eq]
  refine agree_bind (agree_inBlock ?_) fun statements => ?_
  · exact agree_iterate (agree_blockStep hr) (shrinks_blockStep hr.left) []
  · exact agree_bind (agree_expectNamed _ _ fun _ => rfl) fun _ => agree_pure _

/-- Records an error and goes on at the next statement boundary. -/
def recover (error : SyntaxError) : Rule (Option Stmt) := do
  recordError error
  synchronize
  return none

/-- A declaration, given the rule for declarations inside it. -/
def declarationBody [ListLimit] (declaration : Rule (Option Stmt)) : Rule (Option Stmt) :=
  rescue (some <$> declarationOrStatement (block declaration)) recover

theorem recover_apply (error : SyntaxError) (c : Cursor) :
    recover error c = ((synchronize >>= fun _ => pure none) c).after [error] := rfl

theorem recover_keeps (error : SyntaxError) (c : Cursor) :
    (recover error c).Keeps .statement c := by
  have hrecord : (Reading.mk (.done ()) c [error]).Keeps .statement c :=
    ⟨⟨[], .refl c, by simp⟩, fun _ _ => trivial, by rintro _ ⟨⟩, by rintro ⟨⟩⟩
  have hsync : Agree .statement c.rest.length synchronize synchronize :=
    fun c' _ => ⟨rfl, synchronize_keeps c'⟩
  exact hrecord.after (agree_bind hsync (fun _ => agree_pure none) c (Nat.le_refl _)).2

theorem recover_progresses (error : SyntaxError) (c : Cursor) : Progresses c (recover error c) := by
  intro value hdone token rest hrest hkept
  have hlt := synchronize_shrinks c hrest hkept
  rw [recover_apply] at hdone ⊢
  rcases hsync : synchronize c with ⟨ending, c', errors⟩
  rw [hsync] at hlt
  cases ending with
  | done value => rw [bind_of_done hsync]; exact hlt
  | stopped error => rw [bind_of_stopped hsync]; exact hlt
  | ranOut => rw [bind_of_ranOut hsync]; exact hlt

theorem consumes_declarationOrStatement {b : Rule (List Stmt)}
    (hb : ∀ m < n, Agree .statement m b b) : Consumes n (declarationOrStatement b) := by
  refine consumes_accept? .statement (fun token m hm => ?_) ?_
  · dsimp only
    split
    · exact agree_functionDeclaration (hb m hm) token
    · exact agree_letDeclaration token
  · exact consumes_statement hb

theorem declarationBody_starves [ListLimit] : Starves declarationBody := by
  intro r c hc
  exact rescue_of_ranOut (bind_of_ranOut (accept?_bind_of_nil _ _ hc))

theorem agreeOnDeclarations_declarationBody (hr : ∀ m < n, AgreeOnDeclarations m r s) :
    AgreeOnDeclarations n (declarationBody r) (declarationBody s) := by
  have hblock : ∀ m < n, Agree .statement m (block r) (block s) :=
    fun m hm => agree_block (hr m hm)
  have hattempt := agree_map some (agree_declarationOrStatement hblock)
  intro c hc
  have hbody : Agree .statement n (declarationBody r) (declarationBody s) :=
    agree_rescue hattempt fun error c' _ _ => ⟨rfl, recover_keeps error c'⟩
  obtain ⟨heq, hk⟩ := hbody c hc
  refine ⟨heq, hk, ?_⟩
  intro value hdone token rest hrest hkept
  rcases ha : (some <$> declarationOrStatement (block r)) c with ⟨ending, c', errors⟩
  have hle := hattempt.length_le hc ha
  unfold declarationBody at hdone ⊢
  cases ending with
  | done statement? =>
    rw [rescue_of_done ha]
    obtain ⟨statement, middle, before, later, hd, hpure, -⟩ := bind_eq_done_iff.mp ha
    cases hpure
    exact consumes_declarationOrStatement (fun m hm => (hblock m hm).left) c hc _ _ _ hd
  | stopped error =>
    rw [rescue_of_stopped ha] at hdone ⊢
    have hrecover := (recover_keeps error c').length_le
    by_cases hlt : c'.rest.length < c.rest.length
    · exact Nat.lt_of_le_of_lt hrecover hlt
    -- an attempt that stops at its first token leaves it to be dropped
    · obtain ⟨-, hkeeps⟩ := hattempt c hc
      rw [ha] at hkeeps
      obtain ⟨used, hm, -⟩ := hkeeps.moves
      have hlen : c.rest.length = used.length + c'.rest.length := by
        rw [hm.rest_eq, List.length_append]
      have hused : used = [] := List.length_eq_zero_iff.mp (by omega)
      have hsame : c.rest = c'.rest := by rw [hm.rest_eq, hused]; rfl
      rw [← hm.openBlocks_eq] at hkept
      rw [hsame] at hrest ⊢
      exact recover_progresses error c' value hdone token rest hrest hkept
  | ranOut => rw [rescue_of_ranOut ha] at hdone; cases hdone

end Blocks

def attempt : Rule Stmt := declarationOrStatement (block declaration)

theorem guarded_declarationBody : Guarded (fun c first second =>
    first = second ∧ first.Keeps .statement c ∧ Progresses c first)
      declarationBody declarationBody := by
  intro n r s h c hc
  exact agreeOnDeclarations_declarationBody (fun m hm c' hc' => h c' (by omega)) c hc

theorem agreeOnDeclarations (n : Nat) : AgreeOnDeclarations n declaration declaration :=
  fun c _ => guarded_declarationBody.fix declarationBody_starves declarationBody_starves c

theorem declaration_eq : declaration = rescue (some <$> attempt) recover :=
  funext fun c => (guarded_declarationBody.unfold declarationBody_starves c).1

theorem declaration_of_done {c c' : Cursor} {tree : Stmt} {errors : List SyntaxError}
    (h : attempt c = ⟨.done tree, c', errors⟩) :
    declaration c = ⟨.done (some tree), c', errors⟩ := by
  have hmap : (some <$> attempt) c = ⟨.done (some tree), c', errors⟩ := by
    rw [map_eq_bind, bind_of_done h]
    simp
  rw [declaration_eq, rescue_of_done hmap]

/-- An attempt that is given up adds its error, and reading goes on past what is dropped. -/
theorem declaration_of_stopped {c c' : Cursor} {error : SyntaxError} {errors : List SyntaxError}
    (h : attempt c = ⟨.stopped error, c', errors⟩) (hc : c'.Closed) :
    declaration c = ⟨.done none, resumption c', errors ++ [error]⟩ := by
  have hmap : (some <$> attempt) c = ⟨.stopped error, c', errors⟩ := by
    rw [map_eq_bind, bind_of_stopped h]
  rw [declaration_eq, rescue_of_stopped hmap, recover_apply, bind_of_done (synchronize_apply c' hc)]
  rfl

/-- Nothing is returned for a declaration that is given up. -/
theorem recover_eq_done {error : SyntaxError} {c c' : Cursor} {statement? : Option Stmt}
    {errors : List SyntaxError} (h : recover error c = ⟨.done statement?, c', errors⟩) :
    statement? = none ∧ error ∈ errors := by
  rcases hsync : synchronize c with ⟨ending, middle, later⟩
  rw [recover_apply] at h
  cases ending with
  | done value =>
    rw [bind_of_done hsync] at h
    cases h
    exact ⟨rfl, List.mem_cons_self⟩
  | stopped error => rw [bind_of_stopped hsync] at h; cases h
  | ranOut => rw [bind_of_ranOut hsync] at h; cases h

/-- What the rule for declarations may have done: it read one, or it gave one up and recorded the
error. -/
theorem declaration_eq_done {c c' : Cursor} {statement? : Option Stmt} {errors : List SyntaxError}
    (h : declaration c = ⟨.done statement?, c', errors⟩) :
    (∃ tree, statement? = some tree ∧ attempt c = ⟨.done tree, c', errors⟩) ∨
      ∃ error middle before, statement? = none ∧ attempt c = ⟨.stopped error, middle, before⟩ ∧
        error ∈ errors := by
  rcases hr : attempt c with ⟨ending, middle, before⟩
  cases ending with
  | done tree =>
    rw [declaration_of_done hr] at h
    cases h
    exact .inl ⟨tree, rfl, rfl⟩
  | stopped error =>
    -- the error is recorded, and reading goes on
    have hmap : (some <$> attempt) c = ⟨.stopped error, middle, before⟩ := by
      rw [map_eq_bind, bind_of_stopped hr]
    rw [declaration_eq, rescue_of_stopped hmap] at h
    rcases hrecover : recover error middle with ⟨ending, last, later⟩
    rw [hrecover] at h
    cases h
    obtain ⟨hnone, hmem⟩ := recover_eq_done hrecover
    exact .inr ⟨error, middle, before, hnone, rfl, List.mem_append_right before hmem⟩
  | ranOut =>
    have hmap : (some <$> attempt) c = ⟨.ranOut, middle, before⟩ := by
      rw [map_eq_bind, bind_of_ranOut hr]
    rw [declaration_eq, rescue_of_ranOut hmap] at h
    cases h

theorem agree_blockOfDeclarations (n : Nat) :
    Agree .statement n (block declaration) (block declaration) :=
  agree_block (agreeOnDeclarations n)

theorem agree_attempt (n : Nat) : Agree .statement n attempt attempt :=
  agree_declarationOrStatement fun m _ => agree_blockOfDeclarations m

/-- A statement whose blocks hold declarations. -/
theorem statement_unfold : statement (block declaration) =
    statementBody (block declaration) (statement (block declaration)) :=
  statement_eq agree_blockOfDeclarations

section Listing

def programStep (statements : List Stmt) : Rule (Option (List Stmt)) := do
  if ← atEnd then return none
  else return some (statements ++ (← declaration).toList)

theorem programStep_of_eof (statements : List Stmt) (position openBlocks : Nat) {token : Token}
    (rest : List Token) (h : token.kind = .eof) :
    programStep statements ⟨position, token :: rest, openBlocks⟩ =
      ⟨.done none, ⟨position, token :: rest, openBlocks⟩, []⟩ := by
  unfold programStep
  rw [bind_of_done (atEnd_cons position openBlocks rest), if_pos (by simp [Token.isEof, h])]
  rfl

theorem programStep_of_not_eof (statements : List Stmt) (position openBlocks : Nat) {token : Token}
    (rest : List Token) (h : token.kind ≠ .eof) :
    programStep statements ⟨position, token :: rest, openBlocks⟩ =
      ((fun statement? => some (statements ++ statement?.toList)) <$> declaration)
        ⟨position, token :: rest, openBlocks⟩ := by
  unfold programStep
  rw [bind_of_done (atEnd_cons position openBlocks rest), if_neg (by simp [Token.isEof, h]),
    Reading.after_nil, map_eq_bind]

theorem programStep_advances : Advances (fun c => c.openBlocks = 0) programStep where
  starves := by
    rintro statements ⟨position, rest, openBlocks⟩ - hc
    cases hc
    rfl
  shrinks := by
    rintro statements ⟨position, rest, openBlocks⟩ hopen value' c' errors h
    cases rest with
    | nil => cases h
    | cons token rest =>
      by_cases heof : token.kind = .eof
      · rw [programStep_of_eof statements position openBlocks rest heof] at h
        cases h
      · rw [programStep_of_not_eof statements position openBlocks rest heof, map_eq_bind] at h
        obtain ⟨statement?, middle, before, later, hdone, hpure, -⟩ := bind_eq_done_iff.mp h
        cases hpure
        obtain ⟨-, hk, hprogress⟩ := agreeOnDeclarations _ _ (Nat.le_refl _)
        rw [hdone] at hk hprogress
        obtain ⟨used, hm, -⟩ := hk.moves
        dsimp only at hopen
        refine ⟨hprogress statement? rfl token rest rfl ?_, hm.openBlocks_eq.trans hopen⟩
        simp [isKept_iff, heof, hopen]

theorem blockStep_advances : Advances (fun _ => True) (blockStep declaration) where
  starves statements c _ hc := blockStep_of_nil declaration statements c hc
  shrinks statements c _ value' c' errors h :=
    ⟨shrinks_blockStep (agreeOnDeclarations _) statements c (Nat.le_refl _) value' c' errors h,
      trivial⟩

/-- A loop that reads on as long as there are declarations, with so many blocks open. -/
def Lists (openBlocks : Nat) (loop : List Stmt → Rule (List Stmt)) : Prop :=
  ∀ statements position token rest, token.kind ≠ .rightBrace → token.kind ≠ .eof →
    ∀ statement? c' errors,
      declaration ⟨position, token :: rest, openBlocks⟩ = ⟨.done statement?, c', errors⟩ →
      loop statements ⟨position, token :: rest, openBlocks⟩ =
        (loop (statements ++ statement?.toList) c').after errors

theorem program_of_declaration (read : List Stmt) (position : Nat) {token : Token}
    (rest : List Token) (heof : token.kind ≠ .eof) {statement? : Option Stmt} {c' : Cursor}
    {errors : List SyntaxError}
    (h : declaration ⟨position, token :: rest, 0⟩ = ⟨.done statement?, c', errors⟩) :
    iterate programStep read ⟨position, token :: rest, 0⟩ =
      (iterate programStep (read ++ statement?.toList) c').after errors := by
  have hstep : programStep read ⟨position, token :: rest, 0⟩ =
      ⟨.done (some (read ++ statement?.toList)), c', errors⟩ := by
    rw [programStep_of_not_eof read position 0 rest heof, map_eq_bind, bind_of_done h]
    simp
  rw [iterate_eq programStep_advances read _ rfl, bind_of_done hstep]
  rfl

theorem lists_program : Lists 0 (iterate programStep) :=
  fun read position _ rest _ heof _ _ _ h => program_of_declaration read position rest heof h

theorem lists_block (openBlocks : Nat) : Lists openBlocks (iterate (blockStep declaration)) := by
  intro statements position token rest hbrace heof statement? c' errors h
  have hstep : blockStep declaration statements ⟨position, token :: rest, openBlocks⟩ =
      ⟨.done (some (statements ++ statement?.toList)), c', errors⟩ := by
    rw [blockStep_of_not_end declaration statements position openBlocks rest hbrace heof,
      map_eq_bind, bind_of_done h]
    simp
  rw [iterate_eq blockStep_advances statements _ trivial, bind_of_done hstep]
  rfl

theorem program_of_eof (statements : List Stmt) (position : Nat) {token : Token}
    (rest : List Token) (h : token.kind = .eof) :
    iterate programStep statements ⟨position, token :: rest, 0⟩ =
      ⟨.done statements, ⟨position, token :: rest, 0⟩, []⟩ := by
  rw [iterate_eq programStep_advances statements _ rfl,
    bind_of_done (programStep_of_eof statements position 0 rest h)]
  rfl

theorem block_of_end (statements : List Stmt) (position openBlocks : Nat) {token : Token}
    (rest : List Token) (h : token.kind = .rightBrace ∨ token.kind = .eof) :
    iterate (blockStep declaration) statements ⟨position, token :: rest, openBlocks⟩ =
      ⟨.done statements, ⟨position, token :: rest, openBlocks⟩, []⟩ := by
  rw [iterate_eq blockStep_advances statements _ trivial,
    bind_of_done (blockStep_of_end declaration statements position openBlocks rest h)]
  rfl

end Listing

end ScriptLang.Grammar
