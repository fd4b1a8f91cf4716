import ScriptLang.Proofs.Grammar.StatementLockstep
import ScriptLang.Proofs.Grammar.Totality

namespace ScriptLang

open Rule Grammar

section SameKinds

variable (tokens tokens' : List Token)

def SameIndex (token token' : Token) : Prop :=
  ∃ index : Nat, tokens[index]? = some token ∧ tokens'[index]? = some token'

/-- The same fault, and so the same code and details, is shown by the tokens at one index. -/
structure SameFault (error error' : SyntaxError) : Prop where
  fault_eq : error'.fault = error.fault
  position_eq : error'.position = error.position
  shown : tokens[error.position]? = some error.token
  shown' : tokens'[error'.position]? = some error'.token

variable {tokens tokens'}

theorem kind_eq_of_getElem? (h : tokens.map Token.kind = tokens'.map Token.kind) {index : Nat}
    {token token' : Token} (ht : tokens[index]? = some token)
    (ht' : tokens'[index]? = some token') : token'.kind = token.kind := by
  have hkinds : tokens[index]?.map Token.kind = tokens'[index]?.map Token.kind := by
    rw [← List.getElem?_map, ← List.getElem?_map, h]
  rw [ht, ht'] at hkinds
  exact (Option.some.inj hkinds).symm

theorem of_drop_eq_cons {index : Nat} {token : Token} {rest : List Token}
    (h : tokens.drop index = token :: rest) :
    tokens[index]? = some token ∧ tokens.drop (index + 1) = rest := by
  rw [← List.head?_drop, ← List.tail_drop, h]
  exact ⟨rfl, rfl⟩

def Pairing.byIndex (h : tokens.map Token.kind = tokens'.map Token.kind) : Pairing where
  faces index token token' := tokens[index]? = some token ∧ tokens'[index]? = some token'
  shift := 0
  kind_eq hfaces := kind_eq_of_getElem? h hfaces.1 hfaces.2

theorem Pairing.facing_byIndex (h : tokens.map Token.kind = tokens'.map Token.kind) (index : Nat) :
    (byIndex h).Facing index (tokens.drop index) (tokens'.drop index) := by
  have hlength : (tokens.drop index).length = (tokens'.drop index).length := by
    simpa using congrArg (fun kinds => (kinds.drop index).length) h
  induction hrest : tokens.drop index generalizing index with
  | nil =>
    rw [hrest] at hlength
    rw [List.length_eq_zero_iff.mp hlength.symm]
    exact .nil index
  | cons token rest ih =>
    rcases hrest' : tokens'.drop index with _ | ⟨token', rest'⟩
    · rw [hrest, hrest'] at hlength
      cases hlength
    · obtain ⟨hhead, htail⟩ := of_drop_eq_cons hrest
      obtain ⟨hhead', htail'⟩ := of_drop_eq_cons hrest'
      have hlength' : (tokens.drop (index + 1)).length = (tokens'.drop (index + 1)).length := by
        rw [htail, htail']
        simpa [hrest, hrest'] using hlength
      have hmore := ih (index + 1) hlength' htail
      rw [htail'] at hmore
      exact .cons ⟨hhead, hhead'⟩ hmore

/-- Parsing looks at the kinds of tokens only. On two token lists of the same kinds it runs out of
tokens in both, or it makes the same statements and expressions in the same arrangement, where each
token is taken from the same index. The recorded faults are the same, at the same indices. -/
theorem parse_mirrors_of_kinds_eq (h : tokens.map Token.kind = tokens'.map Token.kind) :
    ((parse tokens).ending = .ranOut ∧ (parse tokens').ending = .ranOut ∨
      ∃ trees trees', (parse tokens).ending = .done trees ∧ (parse tokens').ending = .done trees' ∧
        List.Forall₂ (Stmt.Mirrors (SameIndex tokens tokens')) trees trees') ∧
      List.Forall₂ (SameFault tokens tokens') (parse tokens).recorded (parse tokens').recorded := by
  have hstart : (Pairing.byIndex h).Cursors (Cursor.start tokens) (Cursor.start tokens') :=
    ⟨Pairing.facing_byIndex h 0, rfl, rfl⟩
  obtain ⟨hending, -, hrecorded, -⟩ := Pairing.readings_program hstart rfl []
  change (Pairing.byIndex h).Endings _ (parse tokens).ending (parse tokens').ending at hending
  refine ⟨?_, hrecorded.imp fun error error' herror => ?_⟩
  · have hnever := neverStops_program (Cursor.start tokens)
    change ∀ error, (parse tokens).ending ≠ .stopped error at hnever
    generalize (parse tokens).ending = ending at hending hnever ⊢
    generalize (parse tokens').ending = ending' at hending ⊢
    cases hending with
    | done hlater => exact .inr ⟨_, _, rfl, rfl, Pairing.later_nil.mp hlater⟩
    | stopped => exact absurd rfl (hnever _)
    | ranOut => exact .inl ⟨rfl, rfl⟩
  · obtain ⟨hfault, ⟨hshown, hshown'⟩, hposition⟩ := herror
    have hposition : error'.position = error.position := hposition
    exact ⟨hfault, hposition, hshown, by rw [hposition]; exact hshown'⟩

end SameKinds

def namedTokens : List Token :=
  [⟨.identifier, "x", .null, 1⟩, ⟨.equal, "=", .null, 1⟩, ⟨.string, "\"a\"", .string "a", 1⟩,
    ⟨.semicolon, ";", .null, 1⟩, ⟨.string, "\"b\"", .string "b", 2⟩, ⟨.equal, "=", .null, 2⟩,
    ⟨.identifier, "x", .null, 2⟩, ⟨.semicolon, ";", .null, 2⟩, ⟨.printWord, "print", .null, 3⟩,
    Token.endMark 3]

def renamedTokens : List Token :=
  [⟨.identifier, "total", .null, 1⟩, ⟨.equal, "=", .null, 2⟩, ⟨.string, "\"\"", .string "", 2⟩,
    ⟨.semicolon, ";", .null, 4⟩, ⟨.string, "\"x\"", .string "x", 4⟩, ⟨.equal, "=", .null, 6⟩,
    ⟨.identifier, "y", .null, 7⟩, ⟨.semicolon, ";", .null, 7⟩, ⟨.printWord, "print", .null, 9⟩,
    Token.endMark 9]

/-- Both lists make an assignment and a string, and record a fault at the second equals sign and one
at the end mark. -/
theorem parse_renamedTokens :
    namedTokens.map Token.kind = renamedTokens.map Token.kind ∧
      ∃ trees trees', (parse namedTokens).ending = .done trees ∧
        (parse renamedTokens).ending = .done trees' ∧
        List.Forall₂ (Stmt.Mirrors (SameIndex namedTokens renamedTokens)) trees trees' ∧
        trees.map Stmt.kind = ["expression", "expression"] ∧
        List.Forall₂ (SameFault namedTokens renamedTokens) (parse namedTokens).recorded
          (parse renamedTokens).recorded ∧
        (parse namedTokens).recorded.map SyntaxError.position = [5, 9] := by
  have hkinds : namedTokens.map Token.kind = renamedTokens.map Token.kind := rfl
  obtain ⟨⟨hnamed, -⟩ | ⟨trees, trees', hnamed, hrenamed, htrees⟩, hfaults⟩ :=
    parse_mirrors_of_kinds_eq hkinds
  · cases hnamed
  · refine ⟨hkinds, trees, trees', hnamed, hrenamed, htrees, ?_, hfaults, rfl⟩
    cases hnamed
    rfl

end ScriptLang
