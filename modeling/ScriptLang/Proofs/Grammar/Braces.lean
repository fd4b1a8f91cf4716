import ScriptLang.Proofs.Grammar.Traversal

namespace ScriptLang.Grammar

open Rule

/-- The number of blocks that are open after a token; a closing brace needs one to close. -/
def nest (depth : Nat) (token : Token) : Option Nat :=
  match token.kind, depth with
  | .leftBrace, depth => some (depth + 1)
  | .rightBrace, 0 => none
  | .rightBrace, depth + 1 => some depth
  | _, depth => some depth

/-- The number of blocks that are open after these tokens. -/
def openAfter (depth : Nat) (tokens : List Token) : Option Nat := tokens.foldlM nest depth

/-- Every brace among the tokens has its partner among them. -/
def Balanced (tokens : List Token) : Prop := openAfter 0 tokens = some 0

instance (tokens : List Token) : Decidable (Balanced tokens) :=
  inferInstanceAs (Decidable (openAfter 0 tokens = some 0))

section Depth

variable {depth depth' : Nat} {token : Token} {tokens : List Token}

theorem nest_leftBrace (hk : token.kind = .leftBrace) : nest depth token = some (depth + 1) := by
  simp [nest, hk]

theorem nest_rightBrace (hk : token.kind = .rightBrace) : nest (depth + 1) token = some depth := by
  simp [nest, hk]

theorem nest_plain (hleft : token.kind ≠ .leftBrace) (hright : token.kind ≠ .rightBrace) :
    nest depth token = some depth := by
  unfold nest
  split <;> first | contradiction | rfl

theorem openAfter_cons (h : nest depth token = some depth') :
    openAfter depth (token :: tokens) = openAfter depth' tokens := by
  unfold openAfter
  rw [List.foldlM_cons, h]
  rfl

theorem openAfter_append (h : openAfter depth tokens = some depth') (more : List Token) :
    openAfter depth (tokens ++ more) = openAfter depth' more := by
  unfold openAfter at h ⊢
  rw [List.foldlM_append, h]
  rfl

theorem openAfter_plain
    (h : ∀ token ∈ tokens, token.kind ≠ .leftBrace ∧ token.kind ≠ .rightBrace) :
    openAfter depth tokens = some depth := by
  induction tokens with
  | nil => rfl
  | cons token tokens ih =>
    obtain ⟨⟨hleft, hright⟩, hothers⟩ := List.forall_mem_cons.mp h
    rw [openAfter_cons (nest_plain hleft hright), ih hothers]

/-- In a block the only brace that is dropped is an opening one that an error was raised at. -/
theorem openAfter_drops (h : tokens.head? = some token) :
    openAfter depth (drops true tokens) =
      some (depth + if token.kind = .leftBrace then 1 else 0) := by
  cases tokens with
  | nil => cases h
  | cons first rest =>
    obtain rfl := Option.some.inj h
    have hplain : ∀ token ∈ dropsAfter true first rest,
        token.kind ≠ .leftBrace ∧ token.kind ≠ .rightBrace := by
      intro token hmem
      obtain ⟨last, hb⟩ := exists_of_mem_dropsAfter hmem
      constructor <;> intro hk <;> exact hb (by simp [boundary_iff, hk, TokenKind.startsStatement])
    rw [drops]
    split
    · next hkept =>
      have hne : first.kind ≠ .leftBrace := by
        intro hk
        simp [isKept_iff, hk] at hkept
      rw [if_neg hne]
      rfl
    · next hkept =>
      have hright : first.kind ≠ .rightBrace := by
        intro hk
        exact hkept (isKept_iff.mpr (Or.inr ⟨rfl, hk⟩))
      by_cases hleft : first.kind = .leftBrace
      · rw [if_pos hleft, openAfter_cons (nest_leftBrace hleft), openAfter_plain hplain]
      · rw [if_neg hleft, openAfter_cons (nest_plain hleft hright), openAfter_plain hplain]
        rfl

end Depth

def atBrace (errors : List SyntaxError) : Nat := errors.countP (·.token.kind = .leftBrace)

@[simp] theorem atBrace_nil : atBrace [] = 0 := rfl

@[simp] theorem atBrace_cons (error : SyntaxError) (errors : List SyntaxError) :
    atBrace (error :: errors) =
      (if error.token.kind = .leftBrace then 1 else 0) + atBrace errors := by
  simp [atBrace, List.countP_cons, Nat.add_comm]

@[simp] theorem atBrace_append (errors errors' : List SyntaxError) :
    atBrace (errors ++ errors') = atBrace errors + atBrace errors' := List.countP_append

theorem resumption_of_atEnd {c : Cursor} (h : AtEnd c) : resumption c = c := by
  obtain ⟨position, rest, openBlocks⟩ := c
  obtain ⟨mark, hmark, heof⟩ := h
  cases rest with
  | nil => cases hmark
  | cons token rest =>
    obtain rfl := Option.some.inj hmark
    simp [resumption, droppedAt, drops, isKept_of_eof heof]

/-- Inside a block every error at an opening brace leaves one more block open, and nothing else
does, as long as the end mark is not reached. -/
theorem Traverses.openAfter_eq {passage : Passage} {c c' : Cursor} {used : List Token}
    {calls : List Call} (h : Traverses passage c used c' calls)
    (hinside : passage = .declarations → 0 < c.openBlocks) (hend : ¬ AtEnd c') (depth : Nat) :
    openAfter depth used = some (depth + atBrace (calls.filterMap Call.raised?)) := by
  induction h generalizing depth with
  | stay | finish => rfl
  | @token c token rest used c' calls hc hk h ih =>
    have hleft : token.kind ≠ .leftBrace := fun heq => hk (by rw [heq]; decide)
    have hright : token.kind ≠ .rightBrace := fun heq => hk (by rw [heq]; decide)
    rw [openAfter_cons (nest_plain hleft hright)]
    exact ih nofun hend depth
  | @block c opening rest inner stop closing later calls used c' calls' hc ho hb hclosing h
      ihb ih =>
    have hinner : ¬ AtEnd ⟨stop, closing :: later, c.openBlocks + 1⟩ :=
      not_atEnd (by rw [hclosing]; decide)
    have hbody := ihb (fun _ => Nat.succ_pos _) hinner (depth + 1)
    rw [Nat.add_right_comm] at hbody
    rw [openAfter_cons (nest_leftBrace ho), openAfter_append hbody,
      openAfter_cons (nest_rightBrace hclosing), ih nofun hend, List.filterMap_append,
      atBrace_append, Nat.add_assoc]
  | openBlock hc ho hb hmark _ => exact absurd ⟨_, rfl, hmark⟩ hend
  | read hc ha h hs ih ihs =>
    have hinside := hinside rfl
    rw [← h.moves.1.openBlocks_eq] at hinside
    -- no way leads on from the end mark, so the attempt did not come to it either
    have hmiddle : ¬ AtEnd _ := fun hat => hend ((hs.of_atEnd hat).2.1 ▸ hat)
    rw [openAfter_append (ih nofun hmiddle depth), ihs (fun _ => hinside) hend,
      List.filterMap_append, atBrace_append, Nat.add_assoc]
    rfl
  | @giveUp c used middle calls error errors used' c'' calls' hc ha h hs ih ihs =>
    have hinside := hinside rfl
    rw [← h.moves.1.openBlocks_eq] at hinside
    have hmiddle : ¬ AtEnd middle := by
      intro hat
      rw [resumption_of_atEnd hat] at hs
      exact hend ((hs.of_atEnd hat).2.1 ▸ hat)
    obtain ⟨-, hkeeps⟩ := agree_attempt _ c (Nat.le_refl _)
    rw [ha] at hkeeps
    -- the first token that is dropped is the one that the error stands at
    have hdropped (depth : Nat) : openAfter depth (droppedAt middle) =
        some (depth + if error.token.kind = .leftBrace then 1 else 0) := by
      rw [droppedAt, decide_eq_true hinside]
      exact openAfter_drops (hkeeps.stops error rfl).head_eq
    rw [openAfter_append (ih nofun hmiddle depth), openAfter_append (hdropped _),
      ihs (fun _ => hinside) hend, List.filterMap_append, atBrace_append]
    simp [Nat.add_assoc]

/-- A block that is read to its end closes at a closing brace. So many blocks are still open there
as errors were raised at an opening brace in it. -/
theorem block_stretch {c c' : Cursor} {trees : List Stmt} {errors : List SyntaxError}
    (hc : c.Closed) (h : block declaration c = ⟨.done trees, c', errors⟩) :
    ∃ inner closing, c.Moves (inner ++ [closing]) c' ∧ closing.kind = .rightBrace ∧
      openAfter 0 inner = some (atBrace (raisedErrors errors)) := by
  obtain ⟨used, stop, token, later, errors', calls, hway, hraised, hend⟩ :=
    block_traverses (goes_attempt_all _) c (Nat.le_refl _) hc
  obtain ⟨hk, trees', hdone⟩ | ⟨-, error, hstopped⟩ := hend
  · obtain ⟨-, rfl, rfl⟩ := Reading.mk.inj (h.symm.trans hdone)
    have hmoves := hway.moves.1
    have hinner : c.Moves used ⟨stop, token :: later, c.openBlocks⟩ :=
      ⟨hmoves.rest_eq, hmoves.position_eq, rfl⟩
    have hend : ¬ AtEnd ⟨stop, token :: later, c.openBlocks + 1⟩ :=
      not_atEnd (by rw [hk]; decide)
    refine ⟨used, token, hinner.trans (Cursor.moves_next rfl), hk, ?_⟩
    rw [hway.openAfter_eq (fun _ => Nat.succ_pos _) hend 0, hraised, Nat.zero_add]
  · rw [h] at hstopped
    cases hstopped

/-- A block that is read to its end closes at its own brace exactly if no error in it was raised at
an opening brace. -/
theorem block_closes_iff (tokens : List Token) (start openBlocks : Nat) (trees : List Stmt)
    (c' : Cursor) (errors : List SyntaxError) (hclosed : Ends (tokens.drop start))
    (h : block declaration ⟨start, tokens.drop start, openBlocks⟩ = ⟨.done trees, c', errors⟩) :
    ∃ j closing, start ≤ j ∧ tokens[j]? = some closing ∧ closing.kind = .rightBrace ∧
      c' = ⟨j + 1, tokens.drop (j + 1), openBlocks⟩ ∧
      (Balanced (tokens.extract start j) ↔
        ∀ error ∈ errors, error.fault.raised → error.token.kind ≠ .leftBrace) := by
  have hc : Cursor.Closed ⟨start, tokens.drop start, openBlocks⟩ := hclosed
  obtain ⟨inner, closing, hm, hk, hopen⟩ := block_stretch hc h
  have hrest : tokens.drop start = inner ++ closing :: c'.rest := by
    simpa using hm.rest_eq
  refine ⟨start + inner.length, closing, Nat.le_add_right _ _, ?_, hk, ?_, ?_⟩
  · rw [← List.getElem?_drop, hrest]
    simp
  · have hlater : tokens.drop (start + inner.length + 1) = c'.rest := by
      rw [Nat.add_assoc, ← List.drop_drop, hrest]
      simp
    rw [hm.eq_mk, hlater, List.length_append]
    rfl
  · have hinner : tokens.extract start (start + inner.length) = inner := by
      rw [List.extract_eq_take_drop, hrest]
      simp
    rw [hinner, Balanced, hopen]
    simp [atBrace, raisedErrors, List.countP_eq_zero]

def unseparatedBlock : List Token :=
  [⟨.leftBrace, "\x7b", .null, 1⟩, ⟨.number, "1", .number (Double.ofRatio false 1 1), 1⟩,
    ⟨.leftBrace, "\x7b", .null, 1⟩, ⟨.number, "2", .number (Double.ofRatio false 2 1), 1⟩,
    ⟨.semicolon, ";", .null, 1⟩, ⟨.rightBrace, "\x7d", .null, 1⟩,
    ⟨.printWord, "print", .null, 1⟩, ⟨.number, "3", .number (Double.ofRatio false 3 1), 1⟩,
    ⟨.semicolon, ";", .null, 1⟩, ⟨.rightBrace, "\x7d", .null, 1⟩, Token.endMark 1]

def missingSemicolonAtBrace : SyntaxError :=
  ⟨.expectedToken "';'" "after expression", ⟨.leftBrace, "\x7b", .null, 1⟩, 2⟩

/-- The outer block closes at the brace of the inner one. -/
theorem block_closes_at_inner_brace :
    Ends (unseparatedBlock.drop 1) ∧
      block declaration ⟨1, unseparatedBlock.drop 1, 0⟩ =
        ⟨.done [], ⟨6, unseparatedBlock.drop 6, 0⟩, [missingSemicolonAtBrace]⟩ ∧
      ¬ Balanced (unseparatedBlock.extract 1 5) := by
  have hclosed : Ends (unseparatedBlock.drop 1) :=
    ⟨Token.endMark 1, by simp [unseparatedBlock], rfl⟩
  have hdone : block declaration ⟨1, unseparatedBlock.drop 1, 0⟩ =
      ⟨.done [], ⟨6, unseparatedBlock.drop 6, 0⟩, [missingSemicolonAtBrace]⟩ := rfl
  obtain ⟨j, closing, -, -, -, hcursor, hiff⟩ :=
    block_closes_iff unseparatedBlock 1 0 [] _ _ hclosed hdone
  obtain rfl : 5 = j := Nat.succ.inj (congrArg Cursor.position hcursor)
  refine ⟨hclosed, hdone, fun hbalanced => ?_⟩
  exact hiff.mp hbalanced missingSemicolonAtBrace List.mem_cons_self rfl rfl

/-- Not every block closes at its own brace: the tokens of this one, up to the brace that closes it,
hold an opening brace without a partner. -/
theorem inner_brace_closes_outer_block :
    ¬ ∀ (tokens : List Token) (start openBlocks : Nat) (trees : List Stmt) (c' : Cursor)
        (errors : List SyntaxError), Ends (tokens.drop start) →
      block declaration ⟨start, tokens.drop start, openBlocks⟩ = ⟨.done trees, c', errors⟩ →
      ∃ j closing, start ≤ j ∧ tokens[j]? = some closing ∧ closing.kind = .rightBrace ∧
        c' = ⟨j + 1, tokens.drop (j + 1), openBlocks⟩ ∧ Balanced (tokens.extract start j) := by
  intro h
  have hclosed : Ends (unseparatedBlock.drop 1) :=
    ⟨Token.endMark 1, by simp [unseparatedBlock], rfl⟩
  obtain ⟨j, closing, -, -, -, hcursor, hbalanced⟩ :=
    h unseparatedBlock 1 0 [] ⟨6, unseparatedBlock.drop 6, 0⟩ [missingSemicolonAtBrace] hclosed rfl
  obtain rfl : 5 = j := Nat.succ.inj (congrArg Cursor.position hcursor)
  exact absurd hbalanced (by decide)

end ScriptLang.Grammar
