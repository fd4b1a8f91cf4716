import ScriptLang.Proofs.Grammar.ExpressionLockstep
import ScriptLang.Proofs.Grammar.StatementRules

namespace ScriptLang

section Trees

variable (R : Token → Token → Prop)

/-- Statements of one shape: the tokens that they hold, and those that their lines come from,
correspond. -/
inductive Stmt.Mirrors : Stmt → Stmt → Prop
  | block {brace brace' statements statements'} (hb : R brace brace')
    (hs : List.Forall₂ Mirrors statements statements') :
    Mirrors (.block brace.line statements) (.block brace'.line statements')
  | expression {value value'} (hv : value.Mirrors R value') :
    Mirrors (.expression value.line value) (.expression value'.line value')
  | print {keyword keyword' value value'} (hk : R keyword keyword') (hv : value.Mirrors R value') :
    Mirrors (.print keyword.line value) (.print keyword'.line value')
  | letBinding {keyword keyword' name name' initializer initializer'} (hk : R keyword keyword')
    (hn : R name name') (hi : initializer.Mirrors R initializer') :
    Mirrors (.letBinding keyword.line name initializer)
      (.letBinding keyword'.line name' initializer')
  | ifThen {keyword keyword' condition condition' thenBranch thenBranch'}
    (hk : R keyword keyword') (hc : condition.Mirrors R condition')
    (ht : Mirrors thenBranch thenBranch') :
    Mirrors (.ifThen keyword.line condition thenBranch)
      (.ifThen keyword'.line condition' thenBranch')
  | ifElse {keyword keyword' condition condition' thenBranch thenBranch' elseBranch elseBranch'}
    (hk : R keyword keyword') (hc : condition.Mirrors R condition')
    (ht : Mirrors thenBranch thenBranch') (he : Mirrors elseBranch elseBranch') :
    Mirrors (.ifElse keyword.line condition thenBranch elseBranch)
      (.ifElse keyword'.line condition' thenBranch' elseBranch')
  | whileLoop {keyword keyword' condition condition' body body'} (hk : R keyword keyword')
    (hc : condition.Mirrors R condition') (hb : Mirrors body body') :
    Mirrors (.whileLoop keyword.line condition body) (.whileLoop keyword'.line condition' body')
  | function {keyword keyword' name name' params params' brace brace' body body'}
    (hk : R keyword keyword') (hn : R name name') (hp : List.Forall₂ R params params')
    (hb : R brace brace') (hs : List.Forall₂ Mirrors body body') :
    Mirrors (.function keyword.line name params brace.line body)
      (.function keyword'.line name' params' brace'.line body')

variable {R}

mutual

theorem Stmt.Mirrors.eq (hR : ∀ token token', R token token' → token = token')
    {tree tree' : Stmt} : tree.Mirrors R tree' → tree = tree'
  | .block hb hs => by rw [hR _ _ hb, Stmt.Mirrors.list_eq hR hs]
  | .expression hv => by rw [hv.eq hR]
  | .print hk hv => by rw [hR _ _ hk, hv.eq hR]
  | .letBinding hk hn hi => by rw [hR _ _ hk, hR _ _ hn, hi.eq hR]
  | .ifThen hk hc ht => by rw [hR _ _ hk, hc.eq hR, ht.eq hR]
  | .ifElse hk hc ht he => by rw [hR _ _ hk, hc.eq hR, ht.eq hR, he.eq hR]
  | .whileLoop hk hc hb => by rw [hR _ _ hk, hc.eq hR, hb.eq hR]
  | .function hk hn hp hb hs => by
    have hparams := hp.imp hR
    rw [List.forall₂_eq_eq_eq] at hparams
    rw [hR _ _ hk, hR _ _ hn, hparams, hR _ _ hb, Stmt.Mirrors.list_eq hR hs]

theorem Stmt.Mirrors.list_eq (hR : ∀ token token', R token token' → token = token')
    {trees trees' : List Stmt} : List.Forall₂ (Stmt.Mirrors R) trees trees' → trees = trees'
  | .nil => rfl
  | .cons h hs => by rw [Stmt.Mirrors.eq hR h, Stmt.Mirrors.list_eq hR hs]

end

end Trees

namespace Pairing

open Rule Grammar

variable {P : Pairing} {n : Nat}

abbrev Stmts (P : Pairing) : Stmt → Stmt → Prop := Stmt.Mirrors P.Tokens

section Parameters

theorem inStep_parameter (read read' : List Token) (hread : List.Forall₂ P.Tokens read read') :
    P.InStep n (List.Forall₂ P.Tokens) (parameter read) (parameter read') := by
  unfold parameter
  rw [hread.length_eq]
  exact inStep_item (inStep_bind (inStep_expectNamed _ _ _) fun _ _ h =>
    inStep_pure (List.rel_append hread (.cons h .nil))) _

theorem inStep_parameters : P.InStep n (List.Forall₂ P.Tokens) parameters parameters :=
  inStep_itemList (fun read _ => agree_parameter read) inStep_parameter

end Parameters

section Statements

variable {keyword keyword' : Token}

theorem inStep_letDeclaration (hk : P.Tokens keyword keyword') :
    P.InStep n P.Stmts (letDeclaration keyword) (letDeclaration keyword') := by
  refine inStep_bind (inStep_expectNamed _ _ _) fun name name' hn => ?_
  refine inStep_bind (inStep_expect _ _) fun _ _ _ => ?_
  refine inStep_bind (inStep_expression n) fun initializer initializer' hi => ?_
  exact inStep_bind (inStep_expect _ _) fun _ _ _ => inStep_pure (.letBinding hk hn hi)

theorem inStep_printStatement (hk : P.Tokens keyword keyword') :
    P.InStep n P.Stmts (printStatement keyword) (printStatement keyword') := by
  refine inStep_bind (inStep_expression n) fun value value' hv => ?_
  exact inStep_bind (inStep_expect _ _) fun _ _ _ => inStep_pure (.print hk hv)

theorem inStep_expressionStatement :
    P.InStep n P.Stmts expressionStatement expressionStatement := by
  refine inStep_bind (inStep_expression n) fun value value' hv => ?_
  exact inStep_bind (inStep_expect _ _) fun _ _ _ => inStep_pure (.expression hv)

variable {s : Rule Stmt}

theorem inStep_ifStatement (hs : P.InStep n P.Stmts s s) (hk : P.Tokens keyword keyword') :
    P.InStep n P.Stmts (ifStatement s keyword) (ifStatement s keyword') := by
  refine inStep_bind (inStep_expect _ _) fun _ _ _ => ?_
  refine inStep_bind (inStep_expression n) fun condition condition' hc => ?_
  refine inStep_bind (inStep_expect _ _) fun _ _ _ => ?_
  refine inStep_bind hs fun thenBranch thenBranch' ht => ?_
  refine inStep_accept? (fun _ _ m _ _ hm => ?_) (inStep_pure (.ifThen hk hc ht))
  refine inStep_bind (hs.mono (Nat.le_of_lt hm)) fun elseBranch elseBranch' he => ?_
  exact inStep_pure (.ifElse hk hc ht he)

theorem inStep_whileStatement (hs : P.InStep n P.Stmts s s) (hk : P.Tokens keyword keyword') :
    P.InStep n P.Stmts (whileStatement s keyword) (whileStatement s keyword') := by
  refine inStep_bind (inStep_expect _ _) fun _ _ _ => ?_
  refine inStep_bind (inStep_expression n) fun condition condition' hc => ?_
  refine inStep_bind (inStep_expect _ _) fun _ _ _ => ?_
  exact inStep_bind hs fun body body' hb => inStep_pure (.whileLoop hk hc hb)

theorem inStep_statement
    (hb : ∀ m < n, P.InStep m (List.Forall₂ P.Stmts) (block declaration) (block declaration)) :
    P.InStep n P.Stmts (statement (block declaration)) (statement (block declaration)) := by
  induction n using Nat.strongRecOn with
  | ind n ih =>
    rw [statement_unfold]
    refine inStep_accept? (fun token token' m h hk hm => ?_) inStep_expressionStatement
    have hs := ih m hm fun k hk => hb k (Nat.lt_trans hk hm)
    obtain ⟨index, hfaces⟩ := id h
    dsimp only
    rw [P.kind_eq hfaces]
    simp only [List.mem_cons, List.not_mem_nil, or_false] at hk
    obtain hk | hk | hk | hk := hk <;> rw [hk] <;> dsimp only
    · exact inStep_printStatement h
    · exact inStep_ifStatement hs h
    · exact inStep_whileStatement hs h
    · exact inStep_bind (hb m hm) fun _ _ hbody => inStep_pure (.block h hbody)

theorem inStep_functionDeclaration
    (hb : P.InStep n (List.Forall₂ P.Stmts) (block declaration) (block declaration))
    (hk : P.Tokens keyword keyword') :
    P.InStep n P.Stmts (functionDeclaration (block declaration) keyword)
      (functionDeclaration (block declaration) keyword') := by
  refine inStep_bind (inStep_expectNamed _ _ _) fun name name' hn => ?_
  refine inStep_bind (inStep_expect _ _) fun _ _ _ => ?_
  refine inStep_bind inStep_parameters fun params params' hp => ?_
  refine inStep_bind (inStep_expect _ _) fun _ _ _ => ?_
  refine inStep_bind (inStep_expect _ _) fun brace brace' hbrace => ?_
  exact inStep_bind hb fun _ _ hbody => inStep_pure (.function hk hn hp hbrace hbody)

theorem inStep_attempt
    (hb : ∀ m < n, P.InStep m (List.Forall₂ P.Stmts) (block declaration) (block declaration)) :
    P.InStep n P.Stmts attempt attempt := by
  refine inStep_accept? (fun token token' m h hk hm => ?_) (inStep_statement hb)
  obtain ⟨index, hfaces⟩ := id h
  dsimp only
  rw [P.kind_eq hfaces]
  simp only [List.mem_cons, List.not_mem_nil, or_false] at hk
  obtain hk | hk := hk <;> rw [hk] <;> dsimp only
  · exact inStep_functionDeclaration (hb m hm) h
  · exact inStep_letDeclaration h

end Statements

section Recovery

theorem boundary_eq {inside : Bool} {dropped dropped' token token' : Token} {index : Nat}
    (hd : P.Tokens dropped dropped') (h : P.faces index token token') :
    boundary inside dropped' token' = boundary inside dropped token := by
  obtain ⟨_, hfaces⟩ := hd
  unfold boundary
  rw [isEof_eq h, P.kind_eq h, P.kind_eq hfaces]

theorem isKept_eq {inside : Bool} {token token' : Token} {index : Nat}
    (h : P.faces index token token') : isKept inside token' = isKept inside token := by
  unfold isKept
  rw [isEof_eq h, P.kind_eq h]

theorem inStep_dropStep {dropped dropped' : Token} (hd : P.Tokens dropped dropped') :
    P.InStep n (Option.Rel P.Tokens) (dropStep dropped) (dropStep dropped') := by
  refine inStep_of_next (fun position openBlocks => ?_) ?_
  · rw [dropStep_of_nil dropped _ rfl, dropStep_of_nil dropped' _ rfl]
    exact .stay (.nil ..) .ranOut
  intro position openBlocks token token' rest rest' _ h hc htail
  rw [dropStep_cons, dropStep_cons, boundary_eq hd h]
  split
  · exact .stay hc (.done .none)
  · next hb =>
    have heof : token.kind ≠ .eof := by
      intro heof
      exact hb (boundary_of_eof heof)
    exact .next (.some ⟨position, h⟩) (htail heof)

theorem inStep_synchronize : P.InStep n Eq synchronize synchronize := by
  refine inStep_of_next (fun position openBlocks => ?_) ?_
  · rw [synchronize_of_nil, synchronize_of_nil]
    exact .stay (.nil ..) .ranOut
  intro position openBlocks token token' rest rest' hn h hc htail
  by_cases hkept : isKept (decide (0 < openBlocks)) token
  · rw [synchronize_of_isKept position openBlocks token rest hkept,
      synchronize_of_isKept _ openBlocks token' rest' (by rwa [isKept_eq h])]
    exact .stay hc (.done rfl)
  · have heof : token.kind ≠ .eof := by
      intro heof
      exact hkept (isKept_of_eof heof)
    rw [synchronize_of_not_isKept position openBlocks token rest hkept,
      synchronize_of_not_isKept _ openBlocks token' rest' (by rwa [isKept_eq h])]
    -- what is dropped is no end mark, so the tokens behind it face each other
    have hdropped : P.InStep rest.length P.Tokens (iterate dropStep token)
        (iterate dropStep token') := fun c c' hc hn =>
      inStep_iterate dropStep_advances (fun _ _ hd => inStep_dropStep hd) ⟨position, h⟩ hc hn
        trivial trivial
    have hlater := inStep_bind hdropped fun _ _ _ => inStep_pure (rfl : () = ())
    exact (Readings.next h (htail heof)).after (hlater _ _ (htail heof) (Nat.le_refl _))

theorem inStep_declaration (ha : P.InStep n P.Stmts attempt attempt) :
    P.InStep n (Option.Rel P.Stmts) declaration declaration := by
  rw [declaration_eq]
  refine inStep_rescue (inStep_map ha fun _ _ h => .some h) fun error error' h => ?_
  refine inStep_bind (inStep_recordError h) fun _ _ _ => ?_
  exact inStep_bind inStep_synchronize fun _ _ _ => inStep_pure .none

end Recovery

section Lists

/-- The statements read later on are of one shape; those before them were read by the second run
alone. -/
def Later (P : Pairing) (before read read' : List Stmt) : Prop :=
  ∃ later, read' = before ++ later ∧ List.Forall₂ P.Stmts read later

variable {before read read' : List Stmt}

theorem Later.snoc (h : P.Later before read read') {statement? statement?' : Option Stmt}
    (hs : Option.Rel P.Stmts statement? statement?') :
    P.Later before (read ++ statement?.toList) (read' ++ statement?'.toList) := by
  obtain ⟨later, rfl, hlater⟩ := h
  refine ⟨later ++ statement?'.toList, List.append_assoc .., List.rel_append hlater ?_⟩
  cases hs with
  | some hs => exact .cons hs .nil
  | none => exact .nil

theorem later_nil {later : List Stmt} :
    P.Later [] read later ↔ List.Forall₂ P.Stmts read later := by
  simp [Later]

theorem inStep_programStep (hd : P.InStep n (Option.Rel P.Stmts) declaration declaration)
    (hread : P.Later before read read') :
    P.InStep n (Option.Rel (P.Later before)) (programStep read) (programStep read') := by
  refine inStep_bind inStep_atEnd fun isEnd _ h => ?_
  subst h
  split
  · exact inStep_pure .none
  · exact inStep_bind hd fun _ _ hs => inStep_pure (.some (hread.snoc hs))

theorem inStep_blockStep (hd : P.InStep n (Option.Rel P.Stmts) declaration declaration)
    (hread : P.Later before read read') :
    P.InStep n (Option.Rel (P.Later before)) (blockStep declaration read)
      (blockStep declaration read') := by
  refine inStep_bind (inStep_isNext _) fun isClosing _ h => ?_
  subst h
  split
  · exact inStep_pure .none
  · exact inStep_programStep hd hread

theorem inStep_block (hd : P.InStep n (Option.Rel P.Stmts) declaration declaration) :
    P.InStep n (List.Forall₂ P.Stmts) (block declaration) (block declaration) := by
  have hlist : P.InStep n (P.Later []) (iterate (blockStep declaration) [])
      (iterate (blockStep declaration) []) := fun c c' hc hn =>
    inStep_iterate blockStep_advances (fun _ _ h => inStep_blockStep hd h) (later_nil.mpr .nil) hc
      hn trivial trivial
  rw [block_eq]
  refine inStep_bind (inStep_inBlock hlist) fun trees trees' h => ?_
  exact inStep_bind (inStep_expect _ _) fun _ _ _ => inStep_pure (later_nil.mp h)

theorem inStep_attempt_all (n : Nat) : P.InStep n P.Stmts attempt attempt := by
  induction n using Nat.strongRecOn with
  | ind n ih => exact inStep_attempt fun m hm => inStep_block (inStep_declaration (ih m hm))

/-- The declarations of a program are read in step, whatever the second run read before them. -/
theorem readings_program {c c' : Cursor} (hc : P.Cursors c c') (hopen : c.openBlocks = 0)
    (before : List Stmt) :
    P.Readings (P.Later before) c (iterate programStep [] c) (iterate programStep before c') := by
  have hnone : P.Later before [] before := ⟨[], (List.append_nil before).symm, .nil⟩
  refine inStep_iterate programStep_advances ?_ hnone hc (Nat.le_refl _) hopen
    (hc.openBlocks_eq.trans hopen)
  exact fun _ _ hread => inStep_programStep (inStep_declaration (inStep_attempt_all _)) hread

end Lists

end Pairing

end ScriptLang
