import Mathlib.Data.List.Forall2
import ScriptLang.Proofs.Grammar.ExpressionReads
import ScriptLang.Proofs.Grammar.Forming
import ScriptLang.Proofs.Grammar.StatementRules

namespace ScriptLang

/-- The error shows a token of this range. -/
def Span.Shows (span : Span) (error : SyntaxError) : Prop :=
  span.start ≤ error.position ∧ error.position < span.stop

namespace Grammar

open Rule

/-- The recorded errors are those that go with the well-formed parts, and one error that stopped a
declaration for each skipped piece, in order. -/
structure Accounts (errors : List SyntaxError) (skipped : List Span)
    (recorded : List SyntaxError) : Prop where
  shown : List.Forall₂ Span.Shows skipped (raisedErrors recorded)
  exact : skipped = [] → recorded = errors

namespace Accounts

variable {errors errors' recorded recorded' : List SyntaxError} {skipped skipped' : List Span}

theorem of_clean (h : raisedErrors errors = []) : Accounts errors [] errors where
  shown := by rw [h]; exact .nil
  exact _ := rfl

theorem append (h : Accounts errors skipped recorded) (h' : Accounts errors' skipped' recorded') :
    Accounts (errors ++ errors') (skipped ++ skipped') (recorded ++ recorded') where
  shown := by
    rw [raisedErrors_append]
    exact List.rel_append h.shown h'.shown
  exact := by
    intro hnil
    obtain ⟨hs, hs'⟩ := List.append_eq_nil_iff.mp hnil
    rw [h.exact hs, h'.exact hs']

theorem before (h : Accounts errors' skipped recorded) (hclean : raisedErrors errors = []) :
    Accounts (errors ++ errors') skipped (errors ++ recorded) :=
  (of_clean hclean).append h

end Accounts

def Ends (rest : List Token) : Prop := ∃ token ∈ rest, token.kind = .eof

theorem Ends.append {rest : List Token} (h : Ends rest) (ts : List Token) : Ends (ts ++ rest) := by
  obtain ⟨token, hmem, hk⟩ := h
  exact ⟨token, List.mem_append_right ts hmem, hk⟩

theorem Ends.cons {rest : List Token} (h : Ends rest) (token : Token) : Ends (token :: rest) :=
  h.append [token]

def NoElse (rest : List Token) : Prop := ∀ token ∈ rest.head?, token.kind ≠ .elseWord

theorem Starts.noElse {ts : List Token} (h : Starts ts) (rest : List Token) :
    NoElse (ts ++ rest) := by
  obtain ⟨token, tail, rfl, hk⟩ := h
  intro first hfirst heq
  have hfirst : token = first := Option.some.inj hfirst
  rw [hfirst, heq] at hk
  exact hk (by decide)

theorem noElse_append {ts rest : List Token} (h : ts = [] ∨ Starts ts) (hrest : NoElse rest) :
    NoElse (ts ++ rest) := by
  obtain rfl | hstarts := h
  · exact hrest
  · exact hstarts.noElse rest

theorem noElse_cons {token : Token} {kind : TokenKind} (rest : List Token) (hk : token.kind = kind)
    (h : kind ≠ .elseWord) : NoElse (token :: rest) := by
  intro first hfirst
  have hfirst : token = first := Option.some.inj hfirst
  rw [← hfirst, hk]
  exact h

/-- Before tokens that some declaration goes on with or that end the list, each piece is given up
with one error and nothing but the piece is dropped. -/
structure Pieces.Skipped (pieces : Pieces) : Prop where
  whole : ∀ ts, pieces.whole ts → ∀ openBlocks start rest, Ends rest → NoElse rest →
    ∃ recorded, Accounts [] [⟨start, start + ts.length⟩] recorded ∧
      Reads openBlocks declaration start ts rest Option.none recorded
  last : ∀ ts, pieces.last ts → ∀ openBlocks start closing rest, closing.kind = .rightBrace →
    Ends rest → ∃ recorded, Accounts [] [⟨start, start + ts.length + 1⟩] recorded ∧
      Reads (openBlocks + 1) declaration start ts (closing :: rest) Option.none recorded

theorem Pieces.skipped_none : Pieces.none.Skipped := ⟨fun _ h => h.elim, fun _ h => h.elim⟩

section Names

variable {openBlocks start : Nat} {ts : List Token} {errors : List SyntaxError}

theorem reads_parameter {name : Token} {rest : List Token} (read : List Token)
    (hk : name.kind = .identifier) :
    Reads openBlocks (parameter read) start [name] rest (read ++ [name])
      (overflow .tooManyParameters read.length name start) := by
  have hname : Reads openBlocks (do
      return read ++ [← expectNamed .identifier "parameter name" "in parameter list"]) start [name]
        rest (read ++ [name]) [] :=
    reads_expectNamed _ _ hk (by decide) (reads_pure _ _ _)
  rw [← List.append_nil (overflow _ _ _ _)]
  exact reads_item hname _

theorem SpellsMoreNames.isRead {read names : List Token}
    (h : SpellsMoreNames read names start ts errors) {closing : Token} (rest : List Token)
    (hk : closing.kind = .rightParen) :
    Reads openBlocks (moreParameters read) start ts (closing :: rest) names errors := by
  induction h with
  | last start names =>
    rw [moreParameters_unfold]
    exact reads_accept?_none ⟨closing, rest, rfl, by rw [hk]; decide⟩ (reads_pure _ _ _)
  | @next start comma name ts read names errors hc hn h ih =>
    rw [moreParameters_unfold]
    refine reads_accept? (by simp [hc]) (by decide) ?_
    exact Reads.bind (reads_parameter read hn) ih

theorem SpellsNames.isRead {names : List Token} (h : SpellsNames names start ts errors)
    {closing : Token} (rest : List Token) (hk : closing.kind = .rightParen) :
    Reads openBlocks parameters start ts (closing :: rest) names errors := by
  rw [parameters_eq]
  cases h with
  | none =>
    refine reads_isNext closing rest rfl (by decide) ?_
    rw [decide_eq_true hk, if_pos rfl]
    exact reads_pure _ _ _
  | @some _ name ts _ _ hn h =>
    refine reads_isNext name _ rfl (by decide) ?_
    rw [decide_eq_false (by rw [hn]; decide), if_neg Bool.false_ne_true]
    exact Reads.bind (reads_parameter [] hn) (h.isRead rest hk)

end Names

/-- What the rule for a clause reads off its tokens, whatever the number of open blocks. -/
def Clause.IsRead (start : Nat) (ts : List Token) (errors : List SyntaxError)
    (skipped : List Span) : Clause → Prop
  | statement tree => ∀ openBlocks rest, Ends rest → (tree.dangling → NoElse rest) →
    ∃ recorded, Accounts errors skipped recorded ∧
      Reads openBlocks (Grammar.statement (block Grammar.declaration)) start ts rest tree recorded
  | declaration tree => ∀ openBlocks rest, Ends rest → (tree.dangling → NoElse rest) →
    ∃ recorded, Accounts errors skipped recorded ∧
      Reads openBlocks attempt start ts rest tree recorded
  | sequence trees => ∀ openBlocks rest, Ends rest → NoElse rest →
    ∀ loop, Lists openBlocks loop → ∀ read, ∃ recorded, Accounts errors skipped recorded ∧
      loop read ⟨start, ts ++ rest, openBlocks⟩ =
        (loop (read ++ trees) ⟨start + ts.length, rest, openBlocks⟩).after recorded
  | body trees => ∀ openBlocks closing rest, closing.kind = .rightBrace → Ends rest →
    ∃ recorded, Accounts errors skipped recorded ∧
      Reads openBlocks (block Grammar.declaration) start (ts ++ [closing]) rest trees recorded

section Statements

variable {openBlocks start : Nat} {keyword opening closing : Token} {ts us rest : List Token}
  {condition : Expr} {errors recorded : List SyntaxError}

theorem Spells.reads {value : Expr} (h : Spells (.expr .assignment value) start ts errors)
    (hrest : Follows Tier.assignment.continues rest) :
    Reads openBlocks expression start ts rest value errors := by
  have hread := h.isRead openBlocks rest hrest
  rwa [rule_assignment] at hread

theorem follows_token {kinds : List TokenKind} {token : Token} {kind : TokenKind}
    (later : List Token) (hk : token.kind = kind) (h : kind ∉ kinds) :
    Follows kinds (token :: later) :=
  ⟨token, later, rfl, by rw [hk]; exact h⟩

/-- A value and the semicolon after it. -/
theorem reads_terminated {value : Expr} {tree : Stmt} {semicolon : Token} {f : Expr → Rule Stmt}
    (context : String) (hf : f value = do
      let _ ← expect .semicolon context
      return tree)
    (hv : Spells (.expr .assignment value) start ts errors) (hs : semicolon.kind = .semicolon)
    (rest : List Token) :
    Reads openBlocks (expression >>= f) start (ts ++ [semicolon]) rest tree errors := by
  have hend : Reads openBlocks (f value) (start + ts.length) [semicolon] rest tree [] := by
    rw [hf]
    exact reads_expectNamed _ _ hs (by decide) (reads_pure _ _ _)
  rw [← List.append_nil errors]
  exact Reads.bind (hv.reads (follows_token rest hs (by decide))) hend

theorem reads_expressionStatement {value : Expr} {semicolon : Token}
    (hv : Spells (.expr .assignment value) start ts errors) (hs : semicolon.kind = .semicolon)
    (rest : List Token) :
    Reads openBlocks (statement (block declaration)) start (ts ++ [semicolon]) rest
      (.expression value.line value) errors := by
  obtain ⟨head, tail, rfl, hk⟩ := hv.begins
  have hdisjoint : ∀ kind ∈ Tier.assignment.heads,
      kind ∉ [TokenKind.printWord, .ifWord, .whileWord, .leftBrace] := by decide
  rw [statement_unfold]
  refine reads_accept?_none ⟨head, tail ++ [semicolon] ++ rest, rfl, hdisjoint _ hk⟩ ?_
  exact reads_terminated _ rfl hv hs rest

theorem reads_print {value : Expr} {semicolon : Token} (hk : keyword.kind = .printWord)
    (hv : Spells (.expr .assignment value) (start + 1) ts errors)
    (hs : semicolon.kind = .semicolon) (rest : List Token) :
    Reads openBlocks (statement (block declaration)) start (keyword :: (ts ++ [semicolon])) rest
      (.print keyword.line value) errors := by
  rw [statement_unfold]
  refine reads_accept? (by simp [hk]) (by decide) ?_
  simp only [hk]
  exact reads_terminated _ rfl hv hs rest

theorem reads_ifThen {thenBranch : Stmt} (hk : keyword.kind = .ifWord)
    (ho : opening.kind = .leftParen)
    (hc : Spells (.expr .assignment condition) (start + 2) ts errors)
    (hp : closing.kind = .rightParen) (hrest : Follows [.elseWord] rest)
    (ht : Reads openBlocks (statement (block declaration)) (start + 2 + ts.length + 1) us rest
      thenBranch recorded) :
    Reads openBlocks (statement (block declaration)) start
      (keyword :: opening :: (ts ++ closing :: us)) rest (.ifThen keyword.line condition thenBranch)
      (errors ++ recorded) := by
  rw [statement_unfold]
  refine reads_accept? (by simp [hk]) (by decide) ?_
  simp only [hk]
  refine reads_expectNamed _ _ ho (by decide) ?_
  refine Reads.bind (hc.reads (follows_token _ hp (by decide))) ?_
  refine reads_expectNamed _ _ hp (by decide) ?_
  rw [← List.append_nil recorded]
  exact Reads.bind_nil ht (reads_accept?_none hrest (reads_pure _ _ _))

theorem reads_ifElse {word : Token} {vs : List Token} {thenBranch elseBranch : Stmt}
    {recorded' : List SyntaxError} (hk : keyword.kind = .ifWord)
    (ho : opening.kind = .leftParen)
    (hc : Spells (.expr .assignment condition) (start + 2) ts errors)
    (hp : closing.kind = .rightParen)
    (ht : Reads openBlocks (statement (block declaration)) (start + 2 + ts.length + 1) us
      (word :: (vs ++ rest)) thenBranch recorded) (hw : word.kind = .elseWord)
    (he : Reads openBlocks (statement (block declaration))
      (start + 2 + ts.length + 1 + us.length + 1) vs rest elseBranch recorded') :
    Reads openBlocks (statement (block declaration)) start
      (keyword :: opening :: (ts ++ closing :: (us ++ word :: vs))) rest
      (.ifElse keyword.line condition thenBranch elseBranch)
      (errors ++ (recorded ++ recorded')) := by
  rw [statement_unfold]
  refine reads_accept? (by simp [hk]) (by decide) ?_
  simp only [hk]
  refine reads_expectNamed _ _ ho (by decide) ?_
  refine Reads.bind (hc.reads (follows_token _ hp (by decide))) ?_
  refine reads_expectNamed _ _ hp (by decide) ?_
  refine Reads.bind ht (reads_accept? (by simp [hw]) (by decide) ?_)
  exact he.map _

theorem reads_whileLoop {tree : Stmt} (hk : keyword.kind = .whileWord)
    (ho : opening.kind = .leftParen)
    (hc : Spells (.expr .assignment condition) (start + 2) ts errors)
    (hp : closing.kind = .rightParen)
    (hb : Reads openBlocks (statement (block declaration)) (start + 2 + ts.length + 1) us rest
      tree recorded) :
    Reads openBlocks (statement (block declaration)) start
      (keyword :: opening :: (ts ++ closing :: us)) rest (.whileLoop keyword.line condition tree)
      (errors ++ recorded) := by
  rw [statement_unfold]
  refine reads_accept? (by simp [hk]) (by decide) ?_
  simp only [hk]
  refine reads_expectNamed _ _ ho (by decide) ?_
  refine Reads.bind (hc.reads (follows_token _ hp (by decide))) ?_
  refine reads_expectNamed _ _ hp (by decide) ?_
  exact hb.map _

theorem reads_block {trees : List Stmt} (ho : opening.kind = .leftBrace)
    (hb : Reads openBlocks (block declaration) (start + 1) ts rest trees recorded) :
    Reads openBlocks (statement (block declaration)) start (opening :: ts) rest
      (.block opening.line trees) recorded := by
  rw [statement_unfold]
  refine reads_accept? (by simp [ho]) (by decide) ?_
  simp only [ho]
  exact hb.map _

theorem reads_function {name brace : Token} {params : List Token} {trees : List Stmt}
    (hk : keyword.kind = .fnWord) (hn : name.kind = .identifier) (ho : opening.kind = .leftParen)
    (hp : SpellsNames params (start + 3) ts errors) (hc : closing.kind = .rightParen)
    (hb : brace.kind = .leftBrace)
    (h : Reads openBlocks (block declaration) (start + 3 + ts.length + 2) us rest trees recorded) :
    Reads openBlocks attempt start
      (keyword :: name :: opening :: (ts ++ closing :: brace :: us)) rest
      (.function keyword.line name params brace.line trees) (errors ++ recorded) := by
  refine reads_accept? (by simp [hk]) (by decide) ?_
  simp only [hk]
  refine reads_expectNamed _ _ hn (by decide) (reads_expectNamed _ _ ho (by decide) ?_)
  refine Reads.bind (hp.isRead _ hc) ?_
  refine reads_expectNamed _ _ hc (by decide) (reads_expectNamed _ _ hb (by decide) ?_)
  exact h.map _

theorem reads_letBinding {name equals semicolon : Token} {initializer : Expr}
    (hk : keyword.kind = .letWord) (hn : name.kind = .identifier) (he : equals.kind = .equal)
    (hv : Spells (.expr .assignment initializer) (start + 3) ts errors)
    (hs : semicolon.kind = .semicolon) (rest : List Token) :
    Reads openBlocks attempt start (keyword :: name :: equals :: (ts ++ [semicolon])) rest
      (.letBinding keyword.line name initializer) errors := by
  refine reads_accept? (by simp [hk]) (by decide) ?_
  simp only [hk]
  refine reads_expectNamed _ _ hn (by decide) (reads_expectNamed _ _ he (by decide) ?_)
  exact reads_terminated _ rfl hv hs rest

theorem reads_attempt_of_statement {token : Token} {tree : Stmt}
    (hk : token.kind ∉ [.fnWord, .letWord])
    (h : Reads openBlocks (statement (block declaration)) start (token :: ts) rest tree errors) :
    Reads openBlocks attempt start (token :: ts) rest tree errors :=
  reads_accept?_none ⟨token, ts ++ rest, rfl, hk⟩ h

theorem reads_declaration {tree : Stmt} (h : Reads openBlocks attempt start ts rest tree errors) :
    Reads openBlocks declaration start ts rest (some tree) errors := by
  rw [declaration_eq]
  exact rescue_of_done (h.map some)

/-- A list of declarations goes on after a declaration or a skipped piece. -/
theorem lists_reads {loop : List Stmt → Rule (List Stmt)} (hloop : Lists openBlocks loop)
    {statement? : Option Stmt} (hstarts : Starts ts)
    (h : Reads openBlocks declaration start ts rest statement? errors) (read : List Stmt) :
    loop read ⟨start, ts ++ rest, openBlocks⟩ =
      (loop (read ++ statement?.toList) ⟨start + ts.length, rest, openBlocks⟩).after errors := by
  obtain ⟨token, tail, rfl, hk⟩ := hstarts
  have hbrace : token.kind ≠ .rightBrace := fun hbrace => hk (by rw [hbrace]; decide)
  have heof : token.kind ≠ .eof := fun heof => hk (by rw [heof]; decide)
  exact hloop read start token (tail ++ rest) hbrace heof statement? _ errors h

/-- The declarations of a block up to its closing brace. -/
theorem reads_block_of_list {trees : List Stmt} (hc : closing.kind = .rightBrace)
    (h : iterate (blockStep declaration) [] ⟨start, ts ++ closing :: rest, openBlocks + 1⟩ =
      (iterate (blockStep declaration) trees
        ⟨start + ts.length, closing :: rest, openBlocks + 1⟩).after recorded) :
    Reads openBlocks (block declaration) start (ts ++ [closing]) rest trees recorded := by
  have hlist : Reads openBlocks (inBlock (iterate (blockStep declaration) [])) start ts
      ([closing] ++ rest) trees recorded := by
    rw [block_of_end trees _ _ rest (.inl hc), Reading.after_mk, List.append_nil] at h
    unfold Reads inBlock
    rw [List.singleton_append, h]
  have hend : Reads openBlocks (do
      let _ ← expect .rightBrace "after block"
      return trees) (start + ts.length) [closing] rest trees [] :=
    reads_expectNamed _ _ hc (by decide) (reads_pure _ _ _)
  rw [block_eq, ← List.append_nil recorded]
  exact Reads.bind hlist hend

end Statements

theorem NoElse.follows {rest : List Token} (h : NoElse rest) (hrest : Ends rest) :
    Follows [.elseWord] rest := by
  obtain ⟨eof, hmem, -⟩ := hrest
  cases rest with
  | nil => cases hmem
  | cons token rest => exact ⟨token, rest, rfl, by simpa using h token rfl⟩

/-- A statement that is no declaration begins with no word of declarations. -/
theorem Forms.follows_of_statement {pieces : Pieces} {start : Nat} {ts : List Token} {tree : Stmt}
    {errors : List SyntaxError} {skipped : List Span}
    (h : Forms pieces (.statement tree) start ts errors skipped) :
    Follows [.fnWord, .letWord] ts := by
  cases h with
  | expression hv =>
    obtain ⟨head, tail, rfl, hk⟩ := hv.begins
    have hdisjoint : ∀ kind ∈ Tier.assignment.heads, kind ∉ [TokenKind.fnWord, .letWord] := by
      decide
    exact ⟨head, _, rfl, hdisjoint _ hk⟩
  | print hk => exact follows_token _ hk (by decide)
  | ifThen hk => exact follows_token _ hk (by decide)
  | ifElse hk => exact follows_token _ hk (by decide)
  | whileLoop hk => exact follows_token _ hk (by decide)
  | block ho => exact follows_token _ ho (by decide)

/-- Tokens that form a clause are read as that clause, if malformed pieces are skipped. -/
theorem Forms.isRead {pieces : Pieces} (hpieces : pieces.Skipped) {clause : Clause} {start : Nat}
    {ts : List Token} {errors : List SyntaxError} {skipped : List Span}
    (h : Forms pieces clause start ts errors skipped) : clause.IsRead start ts errors skipped := by
  induction h with
  | expression hv hs =>
    intro openBlocks rest hrest _
    exact ⟨_, .of_clean hv.raisedErrors_eq_nil, reads_expressionStatement hv hs rest⟩
  | print hk hv hs =>
    intro openBlocks rest hrest _
    exact ⟨_, .of_clean hv.raisedErrors_eq_nil, reads_print hk hv hs rest⟩
  | ifThen hk ho hc hp _ ih =>
    intro openBlocks rest hrest helse
    have hnext := helse rfl
    obtain ⟨recorded, hrecorded, hthen⟩ := ih openBlocks rest hrest fun _ => hnext
    exact ⟨_, hrecorded.before hc.raisedErrors_eq_nil,
      reads_ifThen hk ho hc hp (hnext.follows hrest) hthen⟩
  | @ifElse start keyword opening ts closing us word vs condition thenBranch elseBranch errors
      errors' errors'' skipped skipped' hk ho hc hp _ hd hw _ iht ihe =>
    intro openBlocks rest hrest helse
    -- the first branch does not dangle, so an else may follow it
    have hword : Ends (word :: (vs ++ rest)) := (hrest.append vs).cons word
    obtain ⟨recorded, hrecorded, hthen⟩ := iht openBlocks _ hword (by simp [hd])
    obtain ⟨recorded', hrecorded', helse⟩ := ihe openBlocks rest hrest helse
    exact ⟨_, (hrecorded.append hrecorded').before hc.raisedErrors_eq_nil,
      reads_ifElse hk ho hc hp hthen hw helse⟩
  | whileLoop hk ho hc hp _ ih =>
    intro openBlocks rest hrest helse
    obtain ⟨recorded, hrecorded, hbody⟩ := ih openBlocks rest hrest helse
    exact ⟨_, hrecorded.before hc.raisedErrors_eq_nil, reads_whileLoop hk ho hc hp hbody⟩
  | @block start opening ts closing trees errors skipped ho _ hc ih =>
    intro openBlocks rest hrest _
    obtain ⟨recorded, hrecorded, hbody⟩ := ih openBlocks closing rest hc hrest
    exact ⟨recorded, hrecorded, reads_block ho hbody⟩
  | @function start keyword name opening ts closing brace us ending params trees errors errors'
      skipped hk hn ho hp hc hb _ he ih =>
    intro openBlocks rest hrest _
    obtain ⟨recorded, hrecorded, hbody⟩ := ih openBlocks ending rest he hrest
    exact ⟨_, hrecorded.before hp.raisedErrors_eq_nil, reads_function hk hn ho hp hc hb hbody⟩
  | letBinding hk hn he hv hs =>
    intro openBlocks rest hrest _
    exact ⟨_, .of_clean hv.raisedErrors_eq_nil, reads_letBinding hk hn he hv hs rest⟩
  | statement h ih =>
    intro openBlocks rest hrest helse
    obtain ⟨token, tail, rfl, hk⟩ := h.follows_of_statement
    obtain ⟨recorded, hrecorded, hstatement⟩ := ih openBlocks rest hrest helse
    exact ⟨recorded, hrecorded, reads_attempt_of_statement hk hstatement⟩
  | nil start =>
    intro openBlocks rest _ _ loop _ read
    exact ⟨[], .of_clean rfl, by simp⟩
  | @cons start ts us tree trees errors errors' skipped skipped' h hs ih ihs =>
    intro openBlocks rest hrest hnext loop hloop read
    have hnext' := noElse_append hs.begins hnext
    obtain ⟨recorded, hrecorded, htree⟩ :=
      ih openBlocks (us ++ rest) (hrest.append us) fun _ => hnext'
    obtain ⟨recorded', hrecorded', hmore⟩ :=
      ihs openBlocks rest hrest hnext loop hloop (read ++ [tree])
    refine ⟨recorded ++ recorded', hrecorded.append hrecorded', ?_⟩
    rw [List.append_assoc, lists_reads hloop h.begins (reads_declaration htree) read]
    simp [hmore, Nat.add_assoc]
  | @skip start ts us trees errors skipped hp hs ih =>
    intro openBlocks rest hrest hnext loop hloop read
    have hnext' := noElse_append hs.begins hnext
    obtain ⟨recorded, hrecorded, hpiece⟩ :=
      hpieces.whole ts hp openBlocks start (us ++ rest) (hrest.append us) hnext'
    obtain ⟨recorded', hrecorded', hmore⟩ := ih openBlocks rest hrest hnext loop hloop read
    refine ⟨recorded ++ recorded', hrecorded.append hrecorded', ?_⟩
    rw [List.append_assoc, lists_reads hloop (pieces.whole_starts ts hp) hpiece read]
    simp [hmore, Nat.add_assoc]
  | body _ ih =>
    intro openBlocks closing rest hc hrest
    obtain ⟨recorded, hrecorded, hlist⟩ :=
      ih (openBlocks + 1) (closing :: rest) (hrest.cons closing) (noElse_cons rest hc (by decide))
        _ (lists_block (openBlocks + 1)) []
    exact ⟨recorded, hrecorded, reads_block_of_list hc hlist⟩
  | @bodyThen start ts us trees errors skipped _ hp ih =>
    intro openBlocks closing rest hc hrest
    have hstarts := pieces.last_starts us hp
    obtain ⟨recorded, hrecorded, hlist⟩ :=
      ih (openBlocks + 1) (us ++ closing :: rest) ((hrest.cons closing).append us)
        (hstarts.noElse _) _ (lists_block (openBlocks + 1)) []
    obtain ⟨recorded', hrecorded', hpiece⟩ :=
      hpieces.last us hp openBlocks (start + ts.length) closing rest hc hrest
    have hlast := lists_reads (lists_block (openBlocks + 1)) hstarts hpiece trees
    refine ⟨recorded ++ recorded', by simpa using hrecorded.append hrecorded', ?_⟩
    refine reads_block_of_list hc ?_
    rw [List.append_assoc, hlist]
    simp [hlast, Nat.add_assoc]

end Grammar

end ScriptLang
