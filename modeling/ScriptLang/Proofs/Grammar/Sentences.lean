import ScriptLang.Proofs.Grammar.Parsing
import ScriptLang.Proofs.Grammar.SentenceTrees

namespace ScriptLang

namespace Grammar

section Trees

/-- Without an error the tokens spell some tree of the tier. -/
def IsPhrase (tier : Tier) (start : Nat) (ts : List Token) : Prop :=
  ∃ tree, Spells (.expr tier tree) start ts []

def FormsDeclaration (start : Nat) (ts : List Token) : Prop :=
  ∃ tree, Forms .none (.declaration tree) start ts [] []

def FormsStatement (start : Nat) (ts : List Token) : Prop :=
  ∃ tree, Forms .none (.statement tree) start ts [] []

/-- What a symbol says of tokens: that they have a tree of its kind. -/
def Symbol.HasTree : Symbol → Nat → List Token → Prop
  | program, start, ts => ∃ trees inner mark, ts = inner ++ [mark] ∧
      Forms .none (.sequence trees) start inner [] []
  | declaration, start, ts | fnDecl, start, ts | letDecl, start, ts => FormsDeclaration start ts
  | parameters, start, ts => ∃ names, SpellsNames names start ts []
  | statement, start, ts | exprStmt, start, ts | printStmt, start, ts | ifStmt, start, ts
  | whileStmt, start, ts => FormsStatement start ts
  | block, start, ts => ∃ trees opening inner closing, ts = opening :: (inner ++ [closing]) ∧
      opening.kind = .leftBrace ∧ closing.kind = .rightBrace ∧
      Forms .none (.body trees) (start + 1) inner [] []
  | arguments, start, ts => ∃ trees, Spells (.arguments trees) start ts []
  | expression, start, ts | assignment, start, ts => IsPhrase .assignment start ts
  | logicOr, start, ts => IsPhrase (.binary .disjunction) start ts
  | logicAnd, start, ts => IsPhrase (.binary .conjunction) start ts
  | equality, start, ts => IsPhrase (.binary .equality) start ts
  | comparison, start, ts => IsPhrase (.binary .comparison) start ts
  | term, start, ts => IsPhrase (.binary .sum) start ts
  | factor, start, ts => IsPhrase (.binary .product) start ts
  | unary, start, ts => IsPhrase .unary start ts
  | call, start, ts => IsPhrase .call start ts
  | primary, start, ts => IsPhrase .primary start ts

variable {start : Nat} {ts : List Token}

/-- What is allowed no fault has no errors. -/
theorem AllWithin.eq_nil {errors : List SyntaxError} (h : AllWithin (fun _ => False) errors) :
    errors = [] :=
  List.eq_nil_iff_forall_not_mem.mpr h

theorem FormsWithin.clean {clause : Clause}
    (h : FormsWithin (fun _ => False) clause start ts) : Forms .none clause start ts [] [] := by
  obtain ⟨errors, h, hallowed⟩ := h
  rwa [hallowed.eq_nil] at h

theorem SpellsWithin.clean {phrase : Phrase}
    (h : SpellsWithin (fun _ => False) phrase start ts) : Spells phrase start ts [] := by
  obtain ⟨errors, h, hallowed⟩ := h
  rwa [hallowed.eq_nil] at h

/-- A tree without any fault is a tree without an error. -/
theorem Symbol.HasTreeWithin.clean {name : Symbol}
    (h : name.HasTreeWithin (fun _ => False) start ts) : name.HasTree start ts := by
  cases name with
  | program =>
    obtain ⟨trees, inner, mark, hts, h⟩ := h
    exact ⟨trees, inner, mark, hts, h.clean⟩
  | parameters =>
    obtain ⟨names, errors, h, hallowed⟩ := h
    rw [hallowed.eq_nil] at h
    exact ⟨names, h⟩
  | block =>
    obtain ⟨trees, opening, inner, closing, hts, ho, hc, h⟩ := h
    exact ⟨trees, opening, inner, closing, hts, ho, hc, h.clean⟩
  | arguments | expression | assignment | logicOr | logicAnd | equality | comparison | term
  | factor | unary | call | primary =>
    obtain ⟨tree, h⟩ := h
    exact ⟨tree, SpellsWithin.clean h⟩
  | _ =>
    obtain ⟨tree, h⟩ := h
    exact ⟨tree, FormsWithin.clean h⟩

/-- Tokens whose kinds are a sentence of a symbol have a tree of its kind. -/
theorem Matches.hasTree {name : Symbol} (h : Matches (.symbol name) (ts.map Token.kind))
    (start : Nat) : name.HasTree start ts :=
  (h.hasTreeWithin start).clean

end Trees

section Derivations

variable {start : Nat} {ts : List Token} {errors : List SyntaxError}

theorem matches_operator {level : Level} {kind : TokenKind} (h : kind ∈ level.operators) :
    Matches level.operator [kind] := by
  cases level with
  | disjunction | conjunction =>
    obtain rfl := List.mem_singleton.mp h
    exact .token _
  | equality | sum =>
    obtain rfl | rfl := List.mem_pair.mp h
    · exact .left (.token _)
    · exact .right (.token _)
  | comparison =>
    simp only [Level.operators, List.mem_cons, List.not_mem_nil, or_false] at h
    obtain rfl | rfl | rfl | rfl := h
    · exact .left (.token _)
    · exact .right (.left (.token _))
    · exact .right (.right (.left (.token _)))
    · exact .right (.right (.right (.token _)))
  | product =>
    simp only [Level.operators, List.mem_cons, List.not_mem_nil, or_false] at h
    obtain rfl | rfl | rfl := h
    · exact .left (.token _)
    · exact .right (.left (.token _))
    · exact .right (.right (.token _))

/-- What a phrase derives: the symbol of its tier, or the repetition that a loop stands for. -/
def Phrase.Derives : Phrase → List TokenKind → Prop
  | expr tier _, word => Matches (.symbol tier.symbol) word
  | operands level _ _, word =>
    Matches (.many (.seq level.operator (.symbol level.operandTier.symbol))) word
  | calls _ _, word => Matches (.many (.sequence (.token .leftParen)
      [.opt (.symbol .arguments), .token .rightParen])) word
  | arguments _, word => Matches (.opt (.symbol .arguments)) word
  | moreArguments read _, word => read ≠ [] →
    Matches (.upTo (255 - read.length) (.seq (.token .comma) (.symbol .expression))) word

def Phrase.IsName : Phrase → List Token → Prop
  | expr _ tree, ts => ∀ line name, tree = .name line name → ∃ token, ts = [token] ∧
      token.kind = .identifier
  | operands _ left result, ts => ∀ line name, result = .name line name → ts = [] ∧ left = result
  | calls callee result, ts => ∀ line name, result = .name line name → ts = [] ∧ callee = result
  | _, _ => True

theorem Level.join_ne_name (level : Level) (left : Expr) (operator : Token) (right : Expr)
    (line : Int) (name : Token) : level.join left operator right ≠ .name line name := by
  cases level <;> rintro ⟨⟩

theorem Spells.isName {phrase : Phrase} (h : Spells phrase start ts errors) : phrase.IsName ts := by
  induction h with
  | @name start token hk => exact fun _ _ _ => ⟨token, rfl, hk⟩
  | noCalls | lastOperand => exact fun _ _ _ => ⟨rfl, rfl⟩
  | oneCall _ _ _ _ _ ih =>
    intro line name hresult
    obtain ⟨-, hcall⟩ := ih line name hresult
    rw [← hcall] at hresult
    cases hresult
  | nextOperand _ _ _ _ ih =>
    intro line name hresult
    obtain ⟨-, hjoin⟩ := ih line name hresult
    rw [← hjoin] at hresult
    exact absurd hresult (Level.join_ne_name _ _ _ _ line name)
  | call _ _ ihc ih | binary _ _ ihc ih =>
    intro line name hresult
    obtain ⟨rfl, hfirst⟩ := ih line name hresult
    rw [List.append_nil]
    exact ihc line name (hfirst.trans hresult)
  | unaryOfCall _ ih | operation _ ih => exact ih
  | badAssignment _ hn _ _ _ _ => exact fun line name hresult => absurd hresult (hn line name)
  | literal | grouping | unary | assignment => rintro line name ⟨⟩
  | _ => trivial

theorem matches_cons {kind : TokenKind} {item : Ebnf} {word : List TokenKind}
    (h : Matches item word) : Matches (.seq (.token kind) item) (kind :: word) :=
  .seq (.token kind) h

theorem matches_many_cons {item : Ebnf} {word word' : List TokenKind} (h : Matches item word)
    (h' : Matches (.many item) word') : Matches (.many item) (word ++ word') := by
  cases h' with
  | many h' => exact .many (.next h h')

/-- One more item after those read so far, of which a list has at most 255. -/
theorem matches_upTo_cons {α : Type} {read : List α} {item : Ebnf} {word word' : List TokenKind}
    (value : α) (hread : read.length < maxArguments) (h : Matches item word)
    (h' : Matches (.upTo (255 - (read ++ [value]).length) item) word') :
    Matches (.upTo (255 - read.length) item) (word ++ word') := by
  have hbound : 255 - read.length = 255 - (read ++ [value]).length + 1 := by
    rw [List.length_append, List.length_singleton]
    unfold maxArguments at hread
    omega
  rw [hbound]
  exact .next h h'

theorem matches_literal {kind : TokenKind} (h : kind ∈ literalKinds) :
    Matches (.symbol .primary) [kind] := by
  simp only [literalKinds, List.mem_cons, List.not_mem_nil, or_false] at h
  refine .symbol ?_
  obtain rfl | rfl | rfl | rfl | rfl := h
  · exact .right (.right (.right (.left (.token _))))
  · exact .right (.right (.left (.token _)))
  · exact .right (.right (.right (.right (.left (.token _)))))
  · exact .left (.token _)
  · exact .right (.left (.token _))

/-- Without an error, what spells a phrase is a derivation of it. -/
theorem Spells.derives {phrase : Phrase} (h : Spells phrase start ts errors)
    (herrors : errors = []) :
    phrase.Derives (ts.map Token.kind) := by
  induction h with
  | literal start hk => exact matches_literal hk
  | @name start token hk =>
    have hname : Matches (.symbol .primary) [TokenKind.identifier] :=
      .symbol (.right (.right (.right (.right (.right (.right (.token _)))))))
    rw [← hk] at hname
    exact hname
  | @grouping start opening closing ts inner errors ho _ hc ih =>
    rw [List.map_cons, List.map_append, ho]
    refine .symbol (.right (.right (.right (.right (.right (.left (matches_cons ?_)))))))
    refine .seq (.symbol (ih herrors)) ?_
    rw [List.map_singleton, hc]
    exact .token _
  | noCalls => exact .many (.last 0 _)
  | @oneCall start opening paren ts us callee arguments result errors errors' ho _ hp _ iha ih =>
    obtain ⟨rfl, rfl⟩ := List.append_eq_nil_iff.mp herrors
    have hcall : Matches (.sequence (.token .leftParen) [.opt (.symbol .arguments),
        .token .rightParen]) (.leftParen :: (ts.map Token.kind ++ [.rightParen])) :=
      matches_cons (.seq (iha rfl) (.token _))
    have hcalls := matches_many_cons hcall (ih rfl)
    simpa [Phrase.Derives, ho, hp] using hcalls
  | call _ _ ihc ih =>
    obtain ⟨rfl, rfl⟩ := List.append_eq_nil_iff.mp herrors
    rw [List.map_append]
    exact .symbol (.seq (ihc rfl) (ih rfl))
  | noArguments => exact .absent _
  | someArguments _ _ ihf ih =>
    obtain ⟨rfl, rfl⟩ := List.append_eq_nil_iff.mp herrors
    rw [List.map_append]
    exact .present (.symbol (.seq (.symbol (ihf rfl)) (ih rfl (List.cons_ne_nil _ _))))
  | lastArgument => exact fun _ => .last _ _
  | @nextArgument start comma head ts us read tree trees errors errors' hc _ _ iht ih =>
    intro hread
    simp only [List.append_eq_nil_iff] at herrors
    obtain ⟨⟨hlimit, rfl⟩, rfl⟩ := herrors
    have hitem : Matches (.seq (.token .comma) (.symbol .expression))
        (comma.kind :: (head :: ts).map Token.kind) := by
      rw [hc]
      exact matches_cons (.symbol (iht rfl))
    -- without an error this argument is within the limit, so there is room for it in the bounded
    -- list
    have hnext := matches_upTo_cons tree (overflow_eq_nil_iff.mp hlimit) hitem (ih rfl (by simp))
    simpa using hnext
  | unaryOfCall _ ih => exact .symbol (.right (ih herrors))
  | @unary start operator ts right errors ho _ ih =>
    change Matches (.symbol .unary) ([operator.kind] ++ ts.map Token.kind)
    refine .symbol (.left (.seq ?_ (ih herrors)))
    obtain hk | hk := List.mem_pair.mp ho
    · rw [hk]
      exact .left (.token _)
    · rw [hk]
      exact .right (.token _)
  | lastOperand => exact .many (.last 0 _)
  | nextOperand ho _ _ ihr ih =>
    obtain ⟨rfl, rfl⟩ := List.append_eq_nil_iff.mp herrors
    have hitem := Derives.seq (matches_operator ho) (ihr rfl)
    have hitems := matches_many_cons hitem (ih rfl)
    simpa [Phrase.Derives] using hitems
  | @binary start level ts us first result errors errors' _ _ ihf ih =>
    obtain ⟨rfl, rfl⟩ := List.append_eq_nil_iff.mp herrors
    rw [List.map_append]
    refine .symbol ?_
    rw [production_binary]
    exact .seq (ihf rfl) (ih rfl)
  | operation _ ih => exact .symbol (.right (ih herrors))
  | assignment ht he _ iht ih =>
    obtain ⟨rfl, rfl⟩ := List.append_eq_nil_iff.mp herrors
    -- the target is a name, which only one token spells
    obtain ⟨token, rfl, hk⟩ := ht.isName _ _ rfl
    rw [List.singleton_append, List.map_cons, List.map_cons, hk, he]
    exact .symbol (.left (matches_cons (matches_cons (ih rfl))))
  | badAssignment => simp at herrors

theorem SpellsMoreNames.derives {read names : List Token}
    (h : SpellsMoreNames read names start ts errors) (herrors : errors = []) (hread : read ≠ []) :
    Matches (.upTo (255 - read.length) (.seq (.token .comma) (.token .identifier)))
      (ts.map Token.kind) := by
  induction h with
  | last => exact .last _ _
  | @next start comma name ts read names errors hc hn _ ih =>
    obtain ⟨hlimit, rfl⟩ := List.append_eq_nil_iff.mp herrors
    have hitem : Matches (.seq (.token .comma) (.token .identifier)) [comma.kind, name.kind] := by
      rw [hc, hn]
      exact matches_cons (.token _)
    have hnext := matches_upTo_cons name (overflow_eq_nil_iff.mp hlimit) hitem (ih rfl (by simp))
    simpa using hnext

theorem SpellsNames.derives {names : List Token} (h : SpellsNames names start ts errors)
    (herrors : errors = []) : Matches (.opt (.symbol .parameters)) (ts.map Token.kind) := by
  cases h with
  | none => exact .absent _
  | some hn h =>
    rw [List.map_cons, hn]
    exact .present (.symbol (matches_cons (h.derives herrors (List.cons_ne_nil _ _))))

/-- What a clause derives: the symbol for it, or a repetition of declarations. -/
def Clause.Derives : Clause → List TokenKind → Prop
  | statement _, word => Matches (.symbol .statement) word
  | declaration _, word => Matches (.symbol .declaration) word
  | sequence _, word | body _, word => Matches (.many (.symbol .declaration)) word

/-- A value and the token after it. -/
theorem Spells.derives_before {value : Expr} {last : Token} {kind : TokenKind}
    (h : Spells (.expr .assignment value) start ts []) (hk : last.kind = kind) :
    Matches (.seq (.symbol .expression) (.token kind)) ((ts ++ [last]).map Token.kind) := by
  rw [List.map_append, List.map_singleton, hk]
  exact .seq (.symbol (h.derives rfl)) (.token kind)

/-- A value in parentheses and what follows. -/
theorem Spells.derives_condition {condition : Expr} {opening closing : Token} {us : List Token}
    {item : Ebnf} (ho : opening.kind = .leftParen)
    (h : Spells (.expr .assignment condition) start ts []) (hc : closing.kind = .rightParen)
    (hitem : Matches item (us.map Token.kind)) :
    Matches (.sequence (.token .leftParen) [.symbol .expression, .token .rightParen, item])
      ((opening :: (ts ++ closing :: us)).map Token.kind) := by
  rw [List.map_cons, List.map_append, List.map_cons, ho, hc]
  exact matches_cons (.seq (.symbol (h.derives rfl)) (matches_cons hitem))

/-- Without an error, what forms a clause is a derivation of it. -/
theorem Forms.derives {clause : Clause} {skipped : List Span}
    (h : Forms .none clause start ts errors skipped) (herrors : errors = []) :
    clause.Derives (ts.map Token.kind) := by
  induction h with
  | expression hv hs =>
    subst herrors
    exact .symbol (.left (.symbol (hv.derives_before hs)))
  | print hk hv hs =>
    subst herrors
    rw [List.map_cons, hk]
    exact .symbol (.right (.left (.symbol (matches_cons (hv.derives_before hs)))))
  | ifThen hk ho hc hp _ ih =>
    obtain ⟨rfl, rfl⟩ := List.append_eq_nil_iff.mp herrors
    rw [List.map_cons, hk]
    have hbranch := Derives.seq (ih rfl) (.absent (.seq (.token .elseWord) (.symbol .statement)))
    rw [List.append_nil] at hbranch
    refine .symbol (.right (.right (.left (.symbol (matches_cons ?_)))))
    exact hc.derives_condition ho hp hbranch
  | ifElse hk ho hc hp _ _ hw _ iht ihe =>
    simp only [List.append_eq_nil_iff] at herrors
    obtain ⟨rfl, rfl, rfl⟩ := herrors
    rw [List.map_cons, hk]
    refine .symbol (.right (.right (.left (.symbol (matches_cons ?_)))))
    refine hc.derives_condition ho hp ?_
    rw [List.map_append, List.map_cons, hw]
    exact .seq (iht rfl) (.present (matches_cons (ihe rfl)))
  | whileLoop hk ho hc hp _ ih =>
    obtain ⟨rfl, rfl⟩ := List.append_eq_nil_iff.mp herrors
    rw [List.map_cons, hk]
    refine .symbol (.right (.right (.right (.left (.symbol (matches_cons ?_))))))
    exact hc.derives_condition ho hp (ih rfl)
  | @block start opening ts closing trees errors skipped ho _ hc ih =>
    have hblock : Matches (.symbol .block) (.leftBrace :: (ts.map Token.kind ++ [.rightBrace])) :=
      .symbol (matches_cons (.seq (ih herrors) (.token _)))
    have hstatement : Matches (.symbol .statement) _ :=
      .symbol (.right (.right (.right (.right hblock))))
    simpa [Clause.Derives, ho, hc] using hstatement
  | @function start keyword name opening ts closing brace us ending params trees errors errors'
      skipped hk hn ho hp hc hb _ he ih =>
    obtain ⟨rfl, rfl⟩ := List.append_eq_nil_iff.mp herrors
    have hblock : Matches (.symbol .block) (.leftBrace :: (us.map Token.kind ++ [.rightBrace])) :=
      .symbol (matches_cons (.seq (ih rfl) (.token _)))
    have hdeclaration : Matches (.symbol .declaration) (.fnWord :: .identifier :: .leftParen ::
        (ts.map Token.kind ++ .rightParen :: .leftBrace ::
          (us.map Token.kind ++ [.rightBrace]))) := by
      refine .symbol (.left (.symbol (matches_cons (matches_cons (matches_cons ?_)))))
      exact .seq (hp.derives rfl) (matches_cons hblock)
    simpa [Clause.Derives, hk, hn, ho, hc, hb, he] using hdeclaration
  | letBinding hk hn he hv hs =>
    subst herrors
    rw [List.map_cons, List.map_cons, List.map_cons, hk, hn, he]
    refine .symbol (.right (.left (.symbol (matches_cons (matches_cons (matches_cons ?_))))))
    exact hv.derives_before hs
  | statement _ ih => exact .symbol (.right (.right (ih herrors)))
  | nil => exact .many (.last 0 _)
  | cons _ _ ih ihs =>
    obtain ⟨rfl, rfl⟩ := List.append_eq_nil_iff.mp herrors
    rw [List.map_append]
    exact matches_many_cons (ih rfl) (ihs rfl)
  | skip hp => exact hp.elim
  | body _ ih => exact ih herrors
  | bodyThen _ hp => exact hp.elim

end Derivations

end Grammar

open Grammar

/-- Parsing always comes to a list of statements, and it records no error exactly if the kinds of
the tokens up to the first end mark are a sentence of the grammar, in which every call has at most
255 arguments and every function at most 255 parameters. -/
theorem parse_clean_iff_sentence (tokens : List Token) (h : ∃ token ∈ tokens, token.kind = .eof) :
    (∃ statements, (parse tokens).ending = .done statements) ∧
      ((parse tokens).recorded = [] ↔ Matches (.symbol .program)
        ((tokens.takeWhile fun token => token.kind ≠ .eof).map Token.kind ++ [.eof])) := by
  obtain ⟨used, mark, later, trees, errors, htokens, hmark, hnone, hparse⟩ := parse_done h
  have hbody : (tokens.takeWhile fun token => token.kind ≠ .eof) = used := by
    rw [htokens, takeWhile_before_mark hmark hnone]
  rw [hbody, hparse]
  refine ⟨⟨trees, rfl⟩, ?_⟩
  constructor
  · intro herrors
    have herrors : errors = [] := herrors
    have hforms := forms_of_parse hparse htokens (by rw [herrors]; rfl)
    have hlist : Matches (.many (.symbol .declaration)) (used.map Token.kind) :=
      hforms.derives herrors
    exact .symbol (.seq hlist (.token .eof))
  · intro hsentence
    have hword : used.map Token.kind ++ [.eof] = (used ++ [mark]).map Token.kind := by
      rw [List.map_append, List.map_singleton, hmark]
    rw [hword] at hsentence
    -- a sentence has a tree; what is read off the tokens of the tree is that tree, with its errors
    obtain ⟨trees', inner, mark', hinner, hforms⟩ := hsentence.hasTree 0
    obtain ⟨rfl, -⟩ := List.append_inj' hinner rfl
    obtain ⟨recorded, hrecorded, hparse'⟩ :=
      parse_of_forms Pieces.skipped_none hforms hmark later
    rw [htokens, hparse'] at hparse
    cases hparse
    exact hrecorded.exact rfl

/-- The tokens of an assignment parse without an error, so their kinds are a sentence. -/
theorem sentence_of_assignment :
    (∃ token ∈ [⟨.identifier, "a", .null, 1⟩, ⟨.equal, "=", .null, 1⟩,
      ⟨.trueWord, "true", .bool true, 1⟩, ⟨.semicolon, ";", .null, 1⟩, Token.endMark 1],
        token.kind = .eof) ∧
      Matches (.symbol .program) [.identifier, .equal, .trueWord, .semicolon, .eof] :=
  ⟨⟨Token.endMark 1, by simp, rfl⟩,
    (parse_clean_iff_sentence
      [⟨.identifier, "a", .null, 1⟩, ⟨.equal, "=", .null, 1⟩, ⟨.trueWord, "true", .bool true, 1⟩,
        ⟨.semicolon, ";", .null, 1⟩, Token.endMark 1]
      ⟨Token.endMark 1, by simp, rfl⟩).2.mp rfl⟩

end ScriptLang
