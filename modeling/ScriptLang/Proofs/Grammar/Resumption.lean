import Mathlib.Order.Bounds.Basic
import ScriptLang.Proofs.Grammar.StatementRules

namespace ScriptLang.Grammar

open Rule

/-- The statement boundaries among the tokens from index `e` on: past a semicolon, at a word that
begins a statement, of which only those from index `k` on count, at a closing brace inside a block,
and at an end mark. -/
inductive Boundary (tokens : List Token) (inside : Bool) (e k : Nat) : Nat → Prop
  | pastSemicolon {s token} (hs : e ≤ s) (ht : tokens[s]? = some token)
    (hk : token.kind = .semicolon) : Boundary tokens inside e k (s + 1)
  | atStatement {j token} (hj : k ≤ j) (ht : tokens[j]? = some token)
    (hk : token.kind.startsStatement) : Boundary tokens inside e k j
  | atClosingBrace {j token} (hinside : inside) (hj : e ≤ j) (ht : tokens[j]? = some token)
    (hk : token.kind = .rightBrace) : Boundary tokens inside e k j
  | atEnd {j token} (hj : e ≤ j) (ht : tokens[j]? = some token) (hk : token.kind = .eof) :
    Boundary tokens inside e k j

variable {tokens : List Token} {inside : Bool} {e k p : Nat} {token : Token}

theorem Boundary.le (h : Boundary tokens inside e k p) (hk : e ≤ k) : e ≤ p := by
  cases h with
  | pastSemicolon hs => omega
  | atStatement hj => omega
  | atClosingBrace _ hj => exact hj
  | atEnd hj => exact hj

theorem Boundary.mono {e' k' : Nat} (h : Boundary tokens inside e k p) (he : e' ≤ e)
    (hk : k' ≤ k) : Boundary tokens inside e' k' p := by
  cases h with
  | pastSemicolon hs ht hsemicolon => exact .pastSemicolon (he.trans hs) ht hsemicolon
  | atStatement hj ht hstarts => exact .atStatement (hk.trans hj) ht hstarts
  | atClosingBrace hinside hj ht hbrace => exact .atClosingBrace hinside (he.trans hj) ht hbrace
  | atEnd hj ht heof => exact .atEnd (he.trans hj) ht heof

/-- A boundary is one from every earlier index on. -/
theorem Boundary.of_lt {e' k' : Nat} (h : Boundary tokens inside e k p) (he : e' < p)
    (hk : k' ≤ p) : Boundary tokens inside e' k' p := by
  cases h with
  | pastSemicolon hs ht hsemicolon => exact .pastSemicolon (Nat.le_of_lt_succ he) ht hsemicolon
  | atStatement hj ht hstarts => exact .atStatement hk ht hstarts
  | atClosingBrace hinside hj ht hbrace => exact .atClosingBrace hinside he.le ht hbrace
  | atEnd hj ht heof => exact .atEnd he.le ht heof

/-- At the offending token there is a boundary only if that token is kept. -/
theorem Boundary.isKept (h : Boundary tokens inside e (e + 1) e) (ht : tokens[e]? = some token) :
    isKept inside token := by
  rw [isKept_iff]
  cases h with
  | pastSemicolon hs => omega
  | atStatement hj => omega
  | atClosingBrace hinside _ ht' hk =>
    obtain rfl := Option.some.inj (ht.symm.trans ht')
    exact Or.inr ⟨hinside, hk⟩
  | atEnd _ ht' hk =>
    obtain rfl := Option.some.inj (ht.symm.trans ht')
    exact Or.inl hk

/-- A boundary past the offending token is one where dropping ends, or one past the next token. -/
theorem boundary_next_iff {dropped next : Token} (hd : tokens[e]? = some dropped)
    (hn : tokens[e + 1]? = some next) (hnone : ¬ boundary inside dropped next) :
    Boundary tokens inside e (e + 1) p ∧ e < p ↔
      Boundary tokens inside (e + 1) (e + 2) p ∧ e + 1 < p := by
  rw [boundary_iff] at hnone
  constructor
  · rintro ⟨h, hlt⟩
    -- a boundary at the next token would have ended the dropping
    have hne : p ≠ e + 1 := by
      rintro rfl
      apply hnone
      cases h with
      | pastSemicolon hs ht hk =>
        obtain rfl := Option.some.inj (hd.symm.trans ht)
        exact .inr (.inl hk)
      | atStatement hj ht hk =>
        obtain rfl := Option.some.inj (hn.symm.trans ht)
        exact .inr (.inr (.inl hk))
      | atClosingBrace hinside hj ht hk =>
        obtain rfl := Option.some.inj (hn.symm.trans ht)
        exact .inr (.inr (.inr ⟨hinside, hk⟩))
      | atEnd hj ht hk =>
        obtain rfl := Option.some.inj (hn.symm.trans ht)
        exact .inl hk
    have hlt' : e + 1 < p := by omega
    exact ⟨h.of_lt hlt' hlt', hlt'⟩
  · rintro ⟨h, hlt⟩
    exact ⟨h.mono (Nat.le_succ e) (Nat.le_succ (e + 1)), by omega⟩

/-- Past a dropped token, dropping ends at the first boundary after it. -/
theorem isLeast_dropsAfter {dropped : Token} {rest : List Token} (hd : tokens[e]? = some dropped)
    (hrest : tokens.drop (e + 1) = rest) (heof : ∃ token ∈ rest, token.kind = .eof) :
    IsLeast {p | Boundary tokens inside e (e + 1) p ∧ e < p}
      (e + 1 + (dropsAfter inside dropped rest).length) := by
  induction rest generalizing e dropped with
  | nil => obtain ⟨_, hmem, -⟩ := heof; cases hmem
  | cons next rest ih =>
    have hn : tokens[e + 1]? = some next := by
      rw [← List.head?_drop, hrest]
      rfl
    unfold dropsAfter
    by_cases hb : boundary inside dropped next
    · rw [if_pos hb]
      refine ⟨⟨?_, Nat.lt_succ_self e⟩, fun p hp => hp.2⟩
      obtain hk | hk | hk | ⟨hinside, hk⟩ := boundary_iff.mp hb
      · exact .atEnd (Nat.le_succ e) hn hk
      · exact .pastSemicolon (Nat.le_refl e) hd hk
      · exact .atStatement (Nat.le_refl _) hn hk
      · exact .atClosingBrace hinside (Nat.le_succ e) hn hk
    · rw [if_neg hb]
      have hrest' : tokens.drop (e + 1 + 1) = rest := by
        rw [← List.drop_drop, hrest]
        rfl
      have heof' : ∃ token ∈ rest, token.kind = .eof := by
        obtain ⟨eof, hmem, hk⟩ := heof
        refine ⟨eof, (List.mem_cons.mp hmem).resolve_left ?_, hk⟩
        rintro rfl
        exact hb (boundary_of_eof hk)
      have hset : {p | Boundary tokens inside e (e + 1) p ∧ e < p} =
          {p | Boundary tokens inside (e + 1) (e + 1 + 1) p ∧ e + 1 < p} := by
        ext p
        exact boundary_next_iff hd hn hb
      have hlength : e + 1 + (next :: dropsAfter inside next rest).length =
          e + 1 + 1 + (dropsAfter inside next rest).length := by
        rw [List.length_cons]
        omega
      rw [hset, hlength]
      exact ih hn hrest' heof'

/-- Dropping ends at the first boundary from the offending token on. -/
theorem isLeast_drops (inside : Bool) (heof : ∃ token ∈ tokens.drop e, token.kind = .eof) :
    IsLeast {p | Boundary tokens inside e (e + 1) p}
      (e + (drops inside (tokens.drop e)).length) := by
  cases hrest : tokens.drop e with
  | nil => rw [hrest] at heof; obtain ⟨_, hmem, -⟩ := heof; cases hmem
  | cons token rest =>
    have ht : tokens[e]? = some token := by
      rw [← List.head?_drop, hrest]
      rfl
    rw [drops]
    by_cases hkept : isKept inside token
    · rw [if_pos hkept]
      refine ⟨?_, fun p hp => hp.le (Nat.le_succ e)⟩
      obtain hk | ⟨hinside, hk⟩ := isKept_iff.mp hkept
      · exact .atEnd (Nat.le_refl e) ht hk
      · exact .atClosingBrace hinside (Nat.le_refl e) ht hk
    · rw [if_neg hkept]
      -- the offending token is not kept, so it is no boundary itself
      have hset : {p | Boundary tokens inside e (e + 1) p} =
          {p | Boundary tokens inside e (e + 1) p ∧ e < p} := by
        ext p
        refine ⟨fun h => ⟨h, ?_⟩, fun h => h.1⟩
        have hle := h.le (Nat.le_succ e)
        have hne : p ≠ e := by
          rintro rfl
          exact hkept (h.isKept ht)
        omega
      have hrest' : tokens.drop (e + 1) = rest := by
        rw [← List.drop_drop, hrest]
        rfl
      have heof' : ∃ token ∈ rest, token.kind = .eof := by
        rw [hrest] at heof
        obtain ⟨eof, hmem, hk⟩ := heof
        refine ⟨eof, (List.mem_cons.mp hmem).resolve_left ?_, hk⟩
        rintro rfl
        exact hkept (isKept_of_eof hk)
      have hlength : e + (token :: dropsAfter inside token rest).length =
          e + 1 + (dropsAfter inside token rest).length := by
        rw [List.length_cons]
        omega
      rw [hset, hlength]
      exact isLeast_dropsAfter ht hrest' heof'

/-- Where all words that begin a statement count from the offending token on, the first boundary is
the same unless the offending token is such a word. -/
theorem isLeast_documented_iff (ht : tokens[e]? = some token)
    (hleast : IsLeast {p | Boundary tokens inside e (e + 1) p} p) :
    IsLeast {p | Boundary tokens inside e e p} p ↔ ¬ token.kind.startsStatement := by
  constructor
  · intro hdocumented hstarts
    have hle : p ≤ e := hdocumented.2 (.atStatement (Nat.le_refl e) ht hstarts)
    have hge : e ≤ p := hleast.1.le (Nat.le_succ e)
    -- a token that is kept never begins a statement
    obtain rfl : p = e := Nat.le_antisymm hle hge
    obtain hk | ⟨-, hk⟩ := isKept_iff.mp (hleast.1.isKept ht)
    · rw [hk] at hstarts
      cases hstarts
    · rw [hk] at hstarts
      cases hstarts
  · intro hstarts
    have hset : {p | Boundary tokens inside e e p} = {p | Boundary tokens inside e (e + 1) p} := by
      ext q
      constructor
      · intro h
        cases h with
        | pastSemicolon hs ht hk => exact .pastSemicolon hs ht hk
        | atStatement hj ht' hk =>
          refine .atStatement ?_ ht' hk
          by_contra hlt
          obtain rfl : q = e := by omega
          obtain rfl := Option.some.inj (ht.symm.trans ht')
          exact hstarts hk
        | atClosingBrace hinside hj ht hk => exact .atClosingBrace hinside hj ht hk
        | atEnd hj ht hk => exact .atEnd hj ht hk
      · intro h
        exact h.mono (Nat.le_refl e) (Nat.le_succ e)
    rw [hset]
    exact hleast

/-- A declaration that is given up at some token resumes reading at the first statement boundary
past that token, or at it if it ends the program or the open block. That is the first boundary from
the offending token on exactly if the offending token is no word that begins a statement. -/
theorem declaration_resumes (tokens : List Token) (position openBlocks : Nat) (error : SyntaxError)
    (failure : Cursor) (recorded : List SyntaxError)
    (hclosed : ∃ token ∈ tokens.drop position, token.kind = .eof)
    (hfails : attempt ⟨position, tokens.drop position, openBlocks⟩ =
      ⟨.stopped error, failure, recorded⟩) :
    failure = ⟨error.position, tokens.drop error.position, openBlocks⟩ ∧
      tokens[error.position]? = some error.token ∧
      ∃ p, declaration ⟨position, tokens.drop position, openBlocks⟩ =
          ⟨.done none, ⟨p, tokens.drop p, openBlocks⟩, recorded ++ [error]⟩ ∧
        IsLeast
          {p | Boundary tokens (decide (0 < openBlocks)) error.position (error.position + 1) p} p ∧
        (IsLeast {p | Boundary tokens (decide (0 < openBlocks)) error.position error.position p} p ↔
          ¬ error.token.kind.startsStatement) := by
  obtain ⟨-, hkeeps⟩ := agree_attempt _ ⟨position, tokens.drop position, openBlocks⟩ (Nat.le_refl _)
  rw [hfails] at hkeeps
  obtain ⟨used, hm, hu⟩ := hkeeps.moves
  obtain ⟨hhead, hposition, -⟩ := hkeeps.stops error rfl
  have hends : failure.Closed := hm.closed (Reading.Keeps.not_mem_eof hu) hclosed
  obtain ⟨here, rest, blocks⟩ := failure
  have hused : tokens.drop position = used ++ rest := hm.rest_eq
  have hhere : here = position + used.length := hm.position_eq
  have hrest : rest = tokens.drop error.position := by
    have hdrop : (tokens.drop position).drop used.length = rest := by
      rw [hused, List.drop_left]
    have herror : error.position = position + used.length := hposition.trans hhere
    rw [herror, ← List.drop_drop, hdrop]
  obtain rfl : error.position = here := hposition
  obtain rfl : blocks = openBlocks := hm.openBlocks_eq
  subst hrest
  have htoken : tokens[error.position]? = some error.token := by
    rw [← List.head?_drop]
    exact hhead
  have hleast : IsLeast _ _ := isLeast_drops (decide (0 < blocks)) hends
  refine ⟨rfl, htoken, _, ?_, hleast, isLeast_documented_iff htoken hleast⟩
  have hmap : (some <$> attempt) ⟨position, tokens.drop position, blocks⟩ =
      ⟨.stopped error, ⟨error.position, tokens.drop error.position, blocks⟩, recorded⟩ := by
    rw [map_eq_bind, bind_of_stopped hfails]
  rw [declaration_eq, rescue_of_stopped hmap, recover_apply,
    bind_of_done (synchronize_apply _ hends), ← List.drop_drop]
  rfl

def unseparatedPrints : List Token :=
  [⟨.printWord, "print", .null, 1⟩, ⟨.number, "1", .number (Double.ofRatio false 1 1), 1⟩,
    ⟨.printWord, "print", .null, 1⟩, ⟨.number, "2", .number (Double.ofRatio false 2 1), 1⟩,
    ⟨.semicolon, ";", .null, 1⟩, Token.endMark 1]

def missingSemicolon : SyntaxError :=
  ⟨.expectedToken "';'" "after value", ⟨.printWord, "print", .null, 1⟩, 2⟩

/-- The second statement is lost with the first one, and reading resumes after it. -/
theorem declaration_resumes_after_second_print :
    (∃ token ∈ unseparatedPrints.drop 0, token.kind = .eof) ∧
      attempt ⟨0, unseparatedPrints.drop 0, 0⟩ =
        ⟨.stopped missingSemicolon, ⟨2, unseparatedPrints.drop 2, 0⟩, []⟩ ∧
      ∃ p, IsLeast {p | Boundary unseparatedPrints false 2 3 p} p ∧
        ¬ IsLeast {p | Boundary unseparatedPrints false 2 2 p} p := by
  have hclosed : ∃ token ∈ unseparatedPrints.drop 0, token.kind = .eof :=
    ⟨Token.endMark 1, by simp [unseparatedPrints], rfl⟩
  have hfails : attempt ⟨0, unseparatedPrints.drop 0, 0⟩ =
      ⟨.stopped missingSemicolon, ⟨2, unseparatedPrints.drop 2, 0⟩, []⟩ := rfl
  obtain ⟨-, -, p, -, hleast, hiff⟩ :=
    declaration_resumes unseparatedPrints 0 0 missingSemicolon _ [] hclosed hfails
  exact ⟨hclosed, hfails, p, hleast, fun hdocumented => hiff.mp hdocumented rfl⟩

/-- Not every declaration that is given up resumes reading at the first statement boundary from the
offending token on: here that is the second word, but no statement is returned. -/
theorem first_boundary_is_passed_over :
    ¬ ∀ tokens position openBlocks error failure recorded,
      (∃ token ∈ tokens.drop position, token.kind = .eof) →
      attempt ⟨position, tokens.drop position, openBlocks⟩ = ⟨.stopped error, failure, recorded⟩ →
      IsLeast {p | Boundary tokens (decide (0 < openBlocks)) error.position error.position p}
        (declaration ⟨position, tokens.drop position, openBlocks⟩).cursor.position := by
  intro h
  have hclosed : ∃ token ∈ unseparatedPrints.drop 0, token.kind = .eof :=
    ⟨Token.endMark 1, by simp [unseparatedPrints], rfl⟩
  have hleast := h unseparatedPrints 0 0 missingSemicolon ⟨2, unseparatedPrints.drop 2, 0⟩ []
    hclosed rfl
  have hposition : (declaration ⟨0, unseparatedPrints.drop 0, 0⟩).cursor.position = 5 := rfl
  rw [hposition] at hleast
  have hle : 5 ≤ 2 := hleast.2 (.atStatement (Nat.le_refl 2) rfl rfl)
  omega

end ScriptLang.Grammar
