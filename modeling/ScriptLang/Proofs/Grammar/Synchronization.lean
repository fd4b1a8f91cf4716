import ScriptLang.Proofs.Grammar.ExpressionRules

namespace ScriptLang.Grammar

open Rule

/-- Whether a statement may begin between a dropped token and the one after it. -/
def boundary (inside : Bool) (dropped next : Token) : Bool :=
  next.isEof || dropped.kind = .semicolon || next.kind.startsStatement ||
    (inside && next.kind = .rightBrace)

theorem boundary_iff {inside : Bool} {dropped next : Token} : boundary inside dropped next ↔
    next.kind = .eof ∨ dropped.kind = .semicolon ∨ next.kind.startsStatement ∨
      inside ∧ next.kind = .rightBrace := by
  simp [boundary, Token.isEof, or_assoc]

theorem boundary_of_eof {inside : Bool} {dropped next : Token} (h : next.kind = .eof) :
    boundary inside dropped next :=
  boundary_iff.mpr (Or.inl h)

def dropsAfter (inside : Bool) (dropped : Token) : List Token → List Token
  | [] => []
  | next :: rest => if boundary inside dropped next then [] else next :: dropsAfter inside next rest

/-- Whether a token is left where it stands after an error. -/
def isKept (inside : Bool) (token : Token) : Bool :=
  token.isEof || (inside && token.kind = .rightBrace)

theorem isKept_iff {inside : Bool} {token : Token} :
    isKept inside token ↔ token.kind = .eof ∨ inside ∧ token.kind = .rightBrace := by
  simp [isKept, Token.isEof]

theorem isKept_of_eof {inside : Bool} {token : Token} (h : token.kind = .eof) :
    isKept inside token :=
  isKept_iff.mpr (Or.inl h)

/-- The tokens that are dropped where reading stopped. -/
def drops (inside : Bool) : List Token → List Token
  | [] => []
  | token :: rest => if isKept inside token then [] else token :: dropsAfter inside token rest

theorem isPrefix_dropsAfter (inside : Bool) (dropped : Token) (rest : List Token) :
    dropsAfter inside dropped rest <+: rest := by
  induction rest generalizing dropped with
  | nil => exact List.prefix_rfl
  | cons next rest ih =>
    rw [dropsAfter]
    split
    · exact List.nil_prefix
    · exact List.cons_prefix_cons.mpr ⟨rfl, ih next⟩

theorem isPrefix_drops (inside : Bool) (rest : List Token) : drops inside rest <+: rest := by
  cases rest with
  | nil => exact List.prefix_rfl
  | cons token rest =>
    rw [drops]
    split
    · exact List.nil_prefix
    · exact List.cons_prefix_cons.mpr ⟨rfl, isPrefix_dropsAfter inside token rest⟩

/-- No statement may begin before a token that is dropped after another one. -/
theorem exists_of_mem_dropsAfter {inside : Bool} {dropped token : Token} {rest : List Token}
    (h : token ∈ dropsAfter inside dropped rest) : ∃ last, ¬ boundary inside last token := by
  induction rest generalizing dropped with
  | nil => cases h
  | cons next rest ih =>
    rw [dropsAfter] at h
    split at h
    · cases h
    · next hb =>
      obtain rfl | h := List.mem_cons.mp h
      · exact ⟨dropped, hb⟩
      · exact ih h

theorem not_mem_eof_drops {inside : Bool} {token : Token} {rest : List Token}
    (h : token ∈ drops inside rest) : token.kind ≠ .eof := by
  intro heof
  cases rest with
  | nil => cases h
  | cons first rest =>
    rw [drops] at h
    split at h
    · cases h
    · next hkept =>
      obtain rfl | h := List.mem_cons.mp h
      · exact hkept (isKept_of_eof heof)
      · obtain ⟨last, hb⟩ := exists_of_mem_dropsAfter h
        exact hb (boundary_of_eof heof)

/-- The tokens that are dropped if reading stops here. -/
def droppedAt (c : Cursor) : List Token := drops (decide (0 < c.openBlocks)) c.rest

def resumption (c : Cursor) : Cursor :=
  ⟨c.position + (droppedAt c).length, c.rest.drop (droppedAt c).length, c.openBlocks⟩

theorem moves_resumption (c : Cursor) : c.Moves (droppedAt c) (resumption c) where
  rest_eq := (List.prefix_iff_eq_append.mp (isPrefix_drops _ c.rest)).symm
  position_eq := rfl
  openBlocks_eq := rfl

section Next

variable (position openBlocks : Nat) (token : Token) (rest : List Token)

theorem atClosingBrace_cons : atClosingBrace ⟨position, token :: rest, openBlocks⟩ =
    ⟨.done (decide (0 < openBlocks) && token.kind = .rightBrace),
      ⟨position, token :: rest, openBlocks⟩, []⟩ := by
  have hinside : insideBlock ⟨position, token :: rest, openBlocks⟩ =
      ⟨.done (decide (0 < openBlocks)), ⟨position, token :: rest, openBlocks⟩, []⟩ := rfl
  unfold atClosingBrace
  rw [bind_of_done hinside]
  by_cases hopen : 0 < openBlocks
  · rw [decide_eq_true hopen, if_pos rfl, isNext_cons]
    by_cases hk : token.kind = .rightBrace <;> simp [Token.isEof, hk]
  · rw [decide_eq_false hopen, if_neg Bool.false_ne_true]
    rfl

def dropStep (dropped : Token) : Rule (Option Token) := do
  let token ← peek
  if token.isEof || dropped.kind = .semicolon || token.kind.startsStatement then return none
  else if ← atClosingBrace then return none
  else return some (← next)

theorem dropStep_cons (dropped : Token) : dropStep dropped ⟨position, token :: rest, openBlocks⟩ =
    if boundary (decide (0 < openBlocks)) dropped token then
      ⟨.done none, ⟨position, token :: rest, openBlocks⟩, []⟩
    else ⟨.done (some token), ⟨position + 1, rest, openBlocks⟩, []⟩ := by
  unfold dropStep boundary
  rw [bind_of_done (peek_cons position openBlocks rest)]
  by_cases hb : token.isEof || dropped.kind = .semicolon || token.kind.startsStatement
  · rw [if_pos hb, if_pos (by rw [hb, Bool.true_or])]
    rfl
  · rw [if_neg hb, bind_of_done (atClosingBrace_cons position openBlocks token rest)]
    rw [Bool.not_eq_true] at hb
    rw [hb, Bool.false_or]
    split <;> rfl

end Next

theorem dropStep_of_nil (dropped : Token) (c : Cursor) (hc : c.rest = []) :
    dropStep dropped c = ⟨.ranOut, c, []⟩ := by
  obtain ⟨position, rest, openBlocks⟩ := c
  cases hc
  rfl

theorem dropStep_advances : Advances (fun _ => True) dropStep where
  starves dropped c _ hc := dropStep_of_nil dropped c hc
  shrinks := by
    rintro dropped ⟨position, rest, openBlocks⟩ - value' c' errors h
    cases rest with
    | nil => rw [dropStep_of_nil dropped _ rfl] at h; cases h
    | cons token rest =>
      rw [dropStep_cons] at h
      split at h
      · cases h
      · cases h
        exact ⟨Nat.lt_succ_self _, trivial⟩

/-- Past a dropped token reading goes on to the next statement boundary. -/
theorem iterate_dropStep (position openBlocks : Nat) (dropped : Token) (rest : List Token)
    (hrest : ∃ token ∈ rest, token.kind = .eof) :
    ∃ last, iterate dropStep dropped ⟨position, rest, openBlocks⟩ =
      ⟨.done last, ⟨position + (dropsAfter (decide (0 < openBlocks)) dropped rest).length,
        rest.drop (dropsAfter (decide (0 < openBlocks)) dropped rest).length, openBlocks⟩, []⟩ := by
  induction rest generalizing position dropped with
  | nil => obtain ⟨_, hmem, -⟩ := hrest; cases hmem
  | cons token rest ih =>
    rw [iterate_eq dropStep_advances dropped _ trivial]
    by_cases hb : boundary (decide (0 < openBlocks)) dropped token
    · have hstep := dropStep_cons position openBlocks token rest dropped
      rw [if_pos hb] at hstep
      rw [bind_of_done hstep]
      refine ⟨dropped, ?_⟩
      simp [dropsAfter, hb, andThen]
    · have hstep := dropStep_cons position openBlocks token rest dropped
      rw [if_neg hb] at hstep
      rw [bind_of_done hstep]
      obtain ⟨eof, hmem, heof⟩ := hrest
      -- an end mark is a boundary, so it is still ahead
      have hmem' : eof ∈ rest := by
        refine (List.mem_cons.mp hmem).resolve_left ?_
        rintro rfl
        exact hb (boundary_of_eof heof)
      obtain ⟨last, hlast⟩ := ih (position + 1) token ⟨eof, hmem', heof⟩
      refine ⟨last, ?_⟩
      simp only [andThen, hlast, Reading.after_nil, dropsAfter, hb, Bool.false_eq_true, if_false,
        List.length_cons, List.drop_succ_cons]
      congr 2
      omega

theorem synchronize_eq : synchronize = (do
    if ← atClosingBrace then return
    if ← atEnd then return
    let dropped ← next
    let _ ← iterate dropStep dropped) := rfl

theorem synchronize_of_nil (position openBlocks : Nat) :
    synchronize ⟨position, [], openBlocks⟩ = ⟨.ranOut, ⟨position, [], openBlocks⟩, []⟩ := by
  cases openBlocks <;> rfl

theorem synchronize_of_isKept (position openBlocks : Nat) (token : Token) (rest : List Token)
    (h : isKept (decide (0 < openBlocks)) token) :
    synchronize ⟨position, token :: rest, openBlocks⟩ =
      ⟨.done (), ⟨position, token :: rest, openBlocks⟩, []⟩ := by
  rw [synchronize_eq, bind_of_done (atClosingBrace_cons position openBlocks token rest)]
  by_cases hclosing : decide (0 < openBlocks) && token.kind = .rightBrace
  · rw [if_pos hclosing]
    rfl
  · have hend : token.isEof := by simpa [isKept, hclosing] using h
    rw [if_neg hclosing, bind_of_done (atEnd_cons position openBlocks rest), if_pos hend]
    rfl

theorem synchronize_of_not_isKept (position openBlocks : Nat) (token : Token) (rest : List Token)
    (h : ¬ isKept (decide (0 < openBlocks)) token) :
    synchronize ⟨position, token :: rest, openBlocks⟩ =
      (iterate dropStep token >>= fun _ => pure ()) ⟨position + 1, rest, openBlocks⟩ := by
  unfold isKept at h
  rw [Bool.or_eq_true, not_or] at h
  have hnext : next ⟨position, token :: rest, openBlocks⟩ =
      ⟨.done token, ⟨position + 1, rest, openBlocks⟩, []⟩ := rfl
  rw [synchronize_eq, bind_of_done (atClosingBrace_cons position openBlocks token rest), if_neg h.2,
    Reading.after_nil, bind_of_done (atEnd_cons position openBlocks rest), if_neg h.1,
    Reading.after_nil, bind_of_done hnext, Reading.after_nil]

/-- What is dropped where reading stopped before an end mark. -/
theorem synchronize_apply (c : Cursor) (hc : c.Closed) :
    synchronize c =
      ⟨.done (), ⟨c.position + (drops (decide (0 < c.openBlocks)) c.rest).length,
        c.rest.drop (drops (decide (0 < c.openBlocks)) c.rest).length, c.openBlocks⟩, []⟩ := by
  obtain ⟨position, rest, openBlocks⟩ := c
  obtain ⟨eof, hmem, heof⟩ := hc
  cases rest with
  | nil => cases hmem
  | cons token rest =>
    by_cases hkept : isKept (decide (0 < openBlocks)) token
    · rw [synchronize_of_isKept position openBlocks token rest hkept]
      simp [drops, hkept]
    · have hmem' : eof ∈ rest := by
        refine (List.mem_cons.mp hmem).resolve_left ?_
        rintro rfl
        exact hkept (isKept_of_eof heof)
      obtain ⟨last, hlast⟩ :=
        iterate_dropStep (position + 1) openBlocks token rest ⟨eof, hmem', heof⟩
      rw [synchronize_of_not_isKept position openBlocks token rest hkept, bind_of_done hlast]
      simp only [drops, hkept, Bool.false_eq_true, if_false, List.length_cons,
        List.drop_succ_cons, Reading.after_nil, pure_apply]
      congr 2
      omega

theorem agree_dropStep (n : Nat) (dropped : Token) :
    Agree .statement n (dropStep dropped) (dropStep dropped) := by
  rintro ⟨position, rest, openBlocks⟩ -
  refine ⟨rfl, ?_⟩
  cases rest with
  | nil => rw [dropStep_of_nil dropped _ rfl]; exact .ranOut rfl
  | cons token rest =>
    rw [dropStep_cons]
    split
    · exact .done none
    · next hb =>
      have huse : Regime.statement.uses token.kind := by
        refine decide_eq_true ?_
        intro heof
        exact hb (boundary_of_eof heof)
      exact .next (some token) position openBlocks rest huse

theorem agree_iterate_dropStep (n : Nat) (dropped : Token) :
    Agree .statement n (iterate dropStep dropped >>= fun _ => pure ())
      (iterate dropStep dropped >>= fun _ => pure ()) := by
  refine agree_bind (agree_iterate (agree_dropStep n) ?_ dropped) fun _ => agree_pure ()
  intro dropped c _ value' c' errors h
  exact (dropStep_advances.shrinks dropped c trivial value' c' errors h).1

theorem synchronize_keeps (c : Cursor) : (synchronize c).Keeps .statement c := by
  obtain ⟨position, rest, openBlocks⟩ := c
  cases rest with
  | nil =>
    rw [synchronize_of_nil]
    exact .ranOut rfl
  | cons token rest =>
    by_cases hkept : isKept (decide (0 < openBlocks)) token
    · rw [synchronize_of_isKept position openBlocks token rest hkept]
      exact .done ()
    · rw [synchronize_of_not_isKept position openBlocks token rest hkept]
      have huse : Regime.statement.uses token.kind := by
        refine decide_eq_true ?_
        intro heof
        exact hkept (isKept_of_eof heof)
      have hnext := Reading.Keeps.next token position openBlocks rest huse
      exact hnext.after (agree_iterate_dropStep _ token _ (Nat.le_refl _)).2

/-- A token that is not kept is dropped. -/
theorem synchronize_shrinks (c : Cursor) {token : Token} {rest : List Token}
    (hc : c.rest = token :: rest) (h : ¬ isKept (decide (0 < c.openBlocks)) token) :
    (synchronize c).cursor.rest.length < c.rest.length := by
  obtain ⟨position, tokens, openBlocks⟩ := c
  cases hc
  rw [synchronize_of_not_isKept position openBlocks token rest h]
  exact Nat.lt_succ_of_le (agree_iterate_dropStep _ token _ (Nat.le_refl _)).2.length_le

end ScriptLang.Grammar
