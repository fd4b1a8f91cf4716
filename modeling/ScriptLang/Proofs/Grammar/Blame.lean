import ScriptLang.Proofs.Grammar.Parsing
import ScriptLang.Proofs.Grammar.TokenKinds

namespace ScriptLang

/-- An error at an earlier token than another, or at the end mark with it. -/
def SyntaxError.Precedes (error later : SyntaxError) : Prop :=
  error.position < later.position ∨
    error.position = later.position ∧ later.token.kind = .eof

/-- Errors in order between two indices, at the last of which there is one only if something holds
there. -/
structure InOrder (first last : Nat) (ended : Prop) (errors : List SyntaxError) : Prop where
  le : first ≤ last
  within : ∀ error ∈ errors, first ≤ error.position ∧ error.position ≤ last
  ended : ∀ error ∈ errors, error.position = last → ended
  pairwise : errors.Pairwise SyntaxError.Precedes

namespace InOrder

variable {first middle last : Nat} {ended ended' : Prop} {errors errors' : List SyntaxError}

theorem nil (h : first ≤ last) : InOrder first last ended [] :=
  ⟨h, List.forall_mem_nil _, List.forall_mem_nil _, .nil⟩

theorem singleton {error : SyntaxError} (h : error.position ≤ last)
    (hended : error.position = last → ended) : InOrder error.position last ended [error] where
  le := h
  within := by simpa using h
  ended := by simpa using hended
  pairwise := List.pairwise_singleton ..

theorem mono {first' last' : Nat} (h : InOrder first last ended errors) (hfirst : first' ≤ first)
    (hlast : last ≤ last') (hended : ended → last = last' → ended') :
    InOrder first' last' ended' errors where
  le := Nat.le_trans hfirst (Nat.le_trans h.le hlast)
  within error hmem :=
    ⟨Nat.le_trans hfirst (h.within error hmem).1, Nat.le_trans (h.within error hmem).2 hlast⟩
  ended error hmem heq := by
    have hle := (h.within error hmem).2
    exact hended (h.ended error hmem (Nat.le_antisymm hle (heq ▸ hlast))) (by omega)
  pairwise := h.pairwise

/-- Behind errors of which the last ones may stand where the others begin, if those are then at the
end mark. -/
theorem append (h : InOrder first middle ended errors) (h' : InOrder middle last ended' errors')
    (hend : ended → ∀ error ∈ errors', error.token.kind = .eof)
    (hlast : ended → middle = last → ended') : InOrder first last ended' (errors ++ errors') where
  le := Nat.le_trans h.le h'.le
  within := by
    refine List.forall_mem_append.mpr ⟨fun error hmem => ?_, fun error hmem => ?_⟩
    · exact ⟨(h.within error hmem).1, Nat.le_trans (h.within error hmem).2 h'.le⟩
    · exact ⟨Nat.le_trans h.le (h'.within error hmem).1, (h'.within error hmem).2⟩
  ended :=
    List.forall_mem_append.mpr ⟨(h.mono (Nat.le_refl _) h'.le hlast).ended, h'.ended⟩
  pairwise := by
    refine List.pairwise_append.mpr ⟨h.pairwise, h'.pairwise, fun error hmem later hlater => ?_⟩
    have hle := (h.within error hmem).2
    have hge := (h'.within later hlater).1
    obtain hlt | heq := Nat.lt_or_eq_of_le (Nat.le_trans hle hge)
    · exact .inl hlt
    · exact .inr ⟨heq, hend (h.ended error hmem (by omega)) later hlater⟩

end InOrder

open Rule Grammar

namespace Grammar

/-- Where the next token ends the open block or the program. -/
def AtKept (c : Cursor) : Prop :=
  ∃ token ∈ c.rest.head?, isKept (decide (0 < c.openBlocks)) token

theorem AtEnd.atKept {c : Cursor} (h : AtEnd c) : AtKept c := by
  obtain ⟨mark, hmark, heof⟩ := h
  exact ⟨mark, hmark, isKept_of_eof heof⟩

/-- No declaration is read before a token that is kept. -/
theorem Traverses.of_atKept {c c' : Cursor} {used : List Token} {calls : List Call}
    (h : Traverses .declarations c used c' calls) (hc : AtKept c) : c' = c ∧ calls = [] := by
  obtain ⟨kept, hhead, hkept⟩ := hc
  have hasks (hasks : Asks c) : False := by
    obtain ⟨token, rest, hrest, hnot⟩ := hasks
    rw [hrest] at hhead
    obtain rfl := Option.some.inj hhead
    exact hnot hkept
  cases h with
  | finish => exact ⟨rfl, rfl⟩
  | read h | giveUp h => exact (hasks h).elim

/-- Nothing is dropped where reading stopped before a token that is kept. -/
theorem resumption_of_atKept {c : Cursor} (h : AtKept c) : resumption c = c := by
  obtain ⟨position, rest, openBlocks⟩ := c
  obtain ⟨kept, hhead, hkept⟩ := h
  cases rest with
  | nil => cases hhead
  | cons token rest =>
    obtain rfl := Option.some.inj hhead
    have hnone : droppedAt ⟨position, token :: rest, openBlocks⟩ = [] := if_pos hkept
    unfold resumption
    rw [hnone]
    rfl

/-- Any other token is dropped. -/
theorem atKept_of_resumption {c : Cursor} {token : Token} (hhead : c.rest.head? = some token)
    (h : (resumption c).position = c.position) : AtKept c := by
  refine ⟨token, hhead, ?_⟩
  obtain ⟨position, rest, openBlocks⟩ := c
  cases rest with
  | nil => cases hhead
  | cons next rest =>
    obtain rfl := Option.some.inj hhead
    by_contra hkept
    have hsome : droppedAt ⟨position, next :: rest, openBlocks⟩ = next :: _ := if_neg hkept
    have hlt : position < (resumption ⟨position, next :: rest, openBlocks⟩).position := by
      unfold resumption
      rw [hsome]
      exact Nat.lt_add_of_pos_right (Nat.succ_pos _)
    exact absurd h (Nat.ne_of_gt hlt)

/-- What ends a passage at a token that an error was raised at. -/
def Passage.Ended : Passage → Cursor → Prop
  | .attempt => AtEnd
  | .declarations => AtKept

/-- The errors raised on a way are in order. An attempt goes on past all of them, unless it comes to
the end mark, and declarations do, unless the last of these errors ends them. -/
theorem Traverses.inOrder {passage : Passage} {c c' : Cursor} {used : List Token}
    {calls : List Call} (h : Traverses passage c used c' calls) :
    InOrder c.position c'.position (passage.Ended c') (calls.filterMap Call.raised?) := by
  induction h with
  | stay | finish => exact .nil (Nat.le_refl _)
  | token _ _ _ ih => exact ih.mono (Nat.le_succ _) (Nat.le_refl _) fun hended _ => hended
  | @block c opening rest inner stop closing later calls used c' calls' hc ho hb hclosing h
      ihb ih =>
    rw [List.filterMap_append]
    -- the closing brace lies between the errors inside the block and those after it
    have hinside : InOrder c.position (stop + 1) False (calls.filterMap Call.raised?) :=
      ihb.mono (Nat.le_succ _) (Nat.le_succ _) fun _ heq => Nat.succ_ne_self stop heq.symm
    exact hinside.append ih False.elim False.elim
  | openBlock hc ho hb hmark ih =>
    exact ih.mono (Nat.le_succ _) (Nat.le_refl _) fun _ _ => ⟨_, rfl, hmark⟩
  | @read c used c' calls tree errors used' c'' calls' hasks ha h hs ih ihs =>
    have herrors : (calls ++ ⟨c, c', none⟩ :: calls').filterMap Call.raised? =
        calls.filterMap Call.raised? ++ calls'.filterMap Call.raised? := by
      simp
    rw [herrors]
    refine ih.append ihs (fun hend => ?_) fun hend _ => ?_
    · rw [(hs.of_atEnd hend).2.2]
      exact List.forall_mem_nil _
    · rw [(hs.of_atEnd hend).2.1]
      exact hend.atKept
  | @giveUp c used middle calls error errors used' c'' calls' hasks ha h hs ih ihs =>
    have herrors : (calls ++ ⟨c, resumption middle, some error⟩ :: calls').filterMap Call.raised? =
        (calls.filterMap Call.raised? ++ [error]) ++ calls'.filterMap Call.raised? := by
      simp
    obtain ⟨-, hkeeps⟩ := agree_attempt _ c (Nat.le_refl _)
    rw [ha] at hkeeps
    obtain ⟨hhead, hposition, -⟩ := hkeeps.stops error rfl
    have hlast : InOrder middle.position (resumption middle).position
        (AtKept (resumption middle)) [error] := by
      rw [← hposition]
      refine .singleton (hposition ▸ Nat.le_add_right _ _) fun heq => ?_
      have hkept := atKept_of_resumption hhead (heq.symm.trans hposition)
      rw [resumption_of_atKept hkept]
      exact hkept
    rw [herrors]
    refine (ih.append hlast (fun hend => ?_) fun hend _ => ?_).append ihs (fun hkept => ?_)
      fun hkept _ => ?_
    · obtain ⟨mark, hmark, heof⟩ := hend
      obtain rfl := Option.some.inj (hhead.symm.trans hmark)
      exact List.forall_mem_singleton.mpr heof
    · rw [resumption_of_atKept hend.atKept]
      exact hend.atKept
    · rw [(hs.of_atKept hkept).2]
      exact List.forall_mem_nil _
    · rw [(hs.of_atKept hkept).1]
      exact hkept

end Grammar

/-- Every recorded error is shown by the token at its index. -/
theorem shown_of_recorded {tokens : List Token} :
    ∀ error ∈ (parse tokens).recorded, tokens[error.position]? = some error.token := by
  have hkinds : tokens.map Token.kind = tokens.map Token.kind := rfl
  have hstart : (Pairing.byIndex hkinds).Cursors (Cursor.start tokens) (Cursor.start tokens) :=
    ⟨Pairing.facing_byIndex hkinds 0, rfl, rfl⟩
  have hrecorded := (Pairing.readings_program hstart rfl []).recorded
  intro error hmem
  exact (List.forall₂_same.mp hrecorded error hmem).faces.1

theorem findIdx_endMark {body : List Token} {mark : Token} (hmark : mark.kind = .eof)
    (hnone : ∀ token ∈ body, token.kind ≠ .eof) (later : List Token) :
    (body ++ mark :: later).findIdx Token.isEof = body.length := by
  have hbody : body.findIdx Token.isEof = body.length :=
    List.findIdx_eq_length.mpr fun token hmem => decide_eq_false (hnone token hmem)
  have hfirst : (mark :: later).findIdx Token.isEof = 0 := by
    rw [List.findIdx_cons, Token.isEof, decide_eq_true hmark]
    rfl
  rw [List.findIdx_append, hbody, if_neg (Nat.lt_irrefl _), hfirst, Nat.zero_add]

/-- At most one of the errors that precede each other stands at a token that is no end mark. -/
theorem countP_position_le_one {errors : List SyntaxError} {index : Nat}
    (hpairwise : errors.Pairwise SyntaxError.Precedes)
    (hplain : ∀ error ∈ errors, error.position = index → error.token.kind ≠ .eof) :
    errors.countP (fun error => error.position = index) ≤ 1 := by
  induction errors with
  | nil => exact Nat.zero_le 1
  | cons error rest ih =>
    obtain ⟨hfirst, hrest⟩ := List.pairwise_cons.mp hpairwise
    obtain ⟨-, hothers⟩ := List.forall_mem_cons.mp hplain
    rw [List.countP_cons]
    by_cases hindex : error.position = index
    · have hzero : rest.countP (fun error => error.position = index) = 0 := by
        apply List.countP_eq_zero.mpr
        intro later hmem hlater
        have hlater := of_decide_eq_true hlater
        obtain hlt | ⟨-, heof⟩ := hfirst later hmem
        · omega
        · exact hothers later hmem hlater heof
      simp [hindex, hzero]
    · simpa [hindex] using ih hrest hothers

/-- The errors that stop declarations come in the order of the tokens that they are raised at, none
of which lies behind the first end mark, and no token but that mark is blamed twice. -/
theorem parse_blames_once {tokens : List Token} (hends : ∃ token ∈ tokens, token.kind = .eof) :
    let raised := raisedErrors (parse tokens).recorded
    raised.Pairwise (fun error later => error.position ≤ later.position) ∧
      (∀ error ∈ raised, tokens[error.position]? = some error.token ∧
        error.position ≤ tokens.findIdx Token.isEof) ∧
      ∀ index < tokens.findIdx Token.isEof,
        raised.countP (fun error => error.position = index) ≤ 1 := by
  intro raised
  obtain ⟨body, mark, later, trees, errors, calls, htokens, hmark, hnone, hparse, hway, hraised⟩ :=
    parse_traverses hends
  have hindex : tokens.findIdx Token.isEof = body.length := by
    rw [htokens]
    exact findIdx_endMark hmark hnone later
  have herrors : (parse tokens).recorded = errors := by rw [hparse]
  have horder := hway.inOrder
  rw [← hraised, ← herrors] at horder
  have hshown : ∀ error ∈ raised, tokens[error.position]? = some error.token :=
    fun error hmem => shown_of_recorded error (List.mem_filter.mp hmem).1
  rw [hindex]
  refine ⟨horder.pairwise.imp ?_, fun error hmem => ?_, fun index hlt => ?_⟩
  · rintro error later (hlt | ⟨heq, -⟩)
    · exact Nat.le_of_lt hlt
    · exact Nat.le_of_eq heq
  · exact ⟨hshown error hmem, (horder.within error hmem).2⟩
  · apply countP_position_le_one horder.pairwise
    rintro error hmem rfl
    have htoken := hshown error hmem
    rw [htokens, List.getElem?_append_left hlt] at htoken
    exact hnone error.token (List.mem_of_getElem? htoken)

def unclosedBlocks : List Token :=
  [bareToken .leftBrace "\x7b", bareToken .printWord "print", bareToken .rightBrace "\x7d",
    bareToken .rightParen ")", bareToken .semicolon ";", bareToken .leftBrace "\x7b",
    bareToken .leftBrace "\x7b", Token.endMark 1]

/-- The brace and the parenthesis are blamed once, and the end mark once for each open block. -/
theorem parse_unclosedBlocks : (∃ token ∈ unclosedBlocks, token.kind = .eof) ∧
    (raisedErrors (parse unclosedBlocks).recorded).map SyntaxError.position = [2, 3, 7, 7] ∧
    ∀ index < 7, (raisedErrors (parse unclosedBlocks).recorded).countP
      (fun error => error.position = index) ≤ 1 := by
  have hends : ∃ token ∈ unclosedBlocks, token.kind = .eof :=
    ⟨Token.endMark 1, by simp [unclosedBlocks], rfl⟩
  obtain ⟨-, -, honce⟩ := parse_blames_once hends
  exact ⟨hends, rfl, honce⟩

end ScriptLang
