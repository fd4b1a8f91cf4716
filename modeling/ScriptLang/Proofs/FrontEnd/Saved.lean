import ScriptLang.Proofs.FrontEnd.Decoding
import ScriptLang.Proofs.FrontEnd.Errors
import ScriptLang.Proofs.Grammar.TokenKinds
import ScriptLang.Proofs.Json.Writing

namespace ScriptLang

section Tokens

def Literal.isFinite : Literal → Bool
  | .number value => value.isFinite
  | .null | .bool _ | .string _ => true

theorem Literal.isFinite_toJson {literal : Literal} (h : literal.isFinite) :
    literal.toJson.IsFinite := by
  cases literal with
  | number value => exact h
  | _ => trivial

theorem Token.isFinite_toJson {token : Token} (h : token.literal.isFinite) :
    token.toJson.IsFinite :=
  ⟨trivial, trivial, Literal.isFinite_toJson h, trivial, trivial⟩

theorem Token.isFinite_value {token : Token} (h : token.literal.isFinite) :
    token.value.toJson.IsFinite := by
  unfold value
  split
  case h_4 => exact Literal.isFinite_toJson h
  all_goals trivial

theorem areFinite_tokens {R : Token → Token → Prop}
    (hR : ∀ token token', R token token' → token.literal.isFinite) {tokens tokens' : List Token}
    (h : List.Forall₂ R tokens tokens') : JsonValue.AreFinite (tokens.map Token.toJson) := by
  induction h with
  | nil => trivial
  | cons h _ ih => exact ⟨Token.isFinite_toJson (hR _ _ h), ih⟩

end Tokens

section Trees

variable {R : Token → Token → Prop}

mutual

/-- An expression has the numbers of its tokens. -/
theorem Expr.Mirrors.isFinite (hR : ∀ token token', R token token' → token.literal.isFinite)
    {tree tree' : Expr} : tree.Mirrors R tree' → tree.toJson.IsFinite
  | .literal h => ⟨trivial, trivial, Token.isFinite_value (hR _ _ h), trivial⟩
  | .grouping _ h => ⟨trivial, trivial, h.isFinite hR, trivial⟩
  | .unary ho h => ⟨trivial, trivial, Token.isFinite_toJson (hR _ _ ho), h.isFinite hR, trivial⟩
  | .binary hl ho hr | .logical hl ho hr =>
    ⟨trivial, trivial, hl.isFinite hR, Token.isFinite_toJson (hR _ _ ho), hr.isFinite hR, trivial⟩
  | .name h => ⟨trivial, trivial, Token.isFinite_toJson (hR _ _ h), trivial⟩
  | .assign ht hv => ⟨trivial, trivial, Token.isFinite_toJson (hR _ _ ht), hv.isFinite hR, trivial⟩
  | .call hc hp ha =>
    ⟨trivial, trivial, hc.isFinite hR, Token.isFinite_toJson (hR _ _ hp),
      Expr.Mirrors.areFinite hR ha, trivial⟩

theorem Expr.Mirrors.areFinite (hR : ∀ token token', R token token' → token.literal.isFinite)
    {trees trees' : List Expr} :
    List.Forall₂ (Expr.Mirrors R) trees trees' → JsonValue.AreFinite (Expr.toJsons trees)
  | .nil => trivial
  | .cons h hs => ⟨Expr.Mirrors.isFinite hR h, Expr.Mirrors.areFinite hR hs⟩

end

mutual

/-- A statement has the numbers of its tokens. -/
theorem Stmt.Mirrors.isFinite (hR : ∀ token token', R token token' → token.literal.isFinite)
    {tree tree' : Stmt} : tree.Mirrors R tree' → tree.toJson.IsFinite
  | .block _ hs => ⟨trivial, trivial, Stmt.Mirrors.areFinite hR hs, trivial⟩
  | .expression hv => ⟨trivial, trivial, hv.isFinite hR, trivial⟩
  | .print _ hv => ⟨trivial, trivial, hv.isFinite hR, trivial⟩
  | .letBinding _ hn hi =>
    ⟨trivial, trivial, Token.isFinite_toJson (hR _ _ hn), hi.isFinite hR, trivial⟩
  | .ifThen _ hc ht => ⟨trivial, trivial, hc.isFinite hR, ht.isFinite hR, trivial, trivial⟩
  | .ifElse _ hc ht he =>
    ⟨trivial, trivial, hc.isFinite hR, ht.isFinite hR, he.isFinite hR, trivial⟩
  | .whileLoop _ hc hb => ⟨trivial, trivial, hc.isFinite hR, hb.isFinite hR, trivial⟩
  | .function _ hn hp _ hs =>
    ⟨trivial, trivial, Token.isFinite_toJson (hR _ _ hn), areFinite_tokens hR hp,
      ⟨trivial, trivial, Stmt.Mirrors.areFinite hR hs, trivial⟩, trivial⟩

theorem Stmt.Mirrors.areFinite (hR : ∀ token token', R token token' → token.literal.isFinite)
    {trees trees' : List Stmt} :
    List.Forall₂ (Stmt.Mirrors R) trees trees' → JsonValue.AreFinite (Stmt.toJsons trees)
  | .nil => trivial
  | .cons h hs => ⟨Stmt.Mirrors.isFinite hR h, Stmt.Mirrors.areFinite hR hs⟩

end

/-- Parsing takes all numbers from the tokens, whatever errors it finds. -/
theorem areFinite_of_parse {tokens : List Token} {trees : List Stmt}
    (h : ∀ token ∈ tokens, token.literal.isFinite) (hending : (parse tokens).ending = .done trees) :
    JsonValue.AreFinite (Stmt.toJsons trees) := by
  -- in step with itself, parsing gives each tree with the tokens that it was read from
  have hstart : (Pairing.byIndex rfl).Cursors (Cursor.start tokens) (Cursor.start tokens) :=
    ⟨Pairing.facing_byIndex rfl 0, rfl, rfl⟩
  obtain ⟨hdone, -⟩ := Pairing.readings_program hstart rfl []
  change (Pairing.byIndex _).Endings _ (parse tokens).ending (parse tokens).ending at hdone
  rw [hending] at hdone
  cases hdone with
  | done hlater =>
    refine Stmt.Mirrors.areFinite ?_ (Pairing.later_nil.mp hlater)
    rintro token token' ⟨index, htoken, -⟩
    exact h token (List.mem_of_getElem? htoken)

end Trees

section Files

variable {order : Order} {stage : Stage} {artifact : Artifact}

theorem isFinite_of_mem_artifacts (h : ∀ token ∈ (scan order.source).tokens, token.literal.isFinite)
    (hmem : (stage, artifact) ∈ order.run.artifacts) :
    stage = artifact.stage ∧ artifact.toJson.IsFinite := by
  obtain ⟨trees, hending, hartifacts, -⟩ := order.exists_artifacts_run
  rw [hartifacts] at hmem
  obtain hmem | hmem := List.mem_cons.mp hmem
  · cases hmem
    exact ⟨rfl, areFinite_tokens (fun _ _ h => h) (List.forall₂_same.mpr h)⟩
  · split at hmem
    case isTrue => cases hmem
    case isFalse =>
      cases List.mem_singleton.mp hmem
      exact ⟨rfl, areFinite_of_parse h hending⟩

theorem mem_saved_iff {file : String × String} : file ∈ order.run.saved ↔
    ∃ stage ∈ order.dump, ∃ artifact, (stage, artifact) ∈ order.run.artifacts ∧
      file = (order.savePath stage, artifact.toJson.render (some 2)) := by
  have hdumped {stage : Stage} {artifact : Artifact} : (stage, artifact) ∈ order.run.dumped ↔
      (stage, artifact) ∈ order.run.artifacts ∧ stage ∈ order.dump := by
    rw [FrontEndRun.dumped, List.mem_filter, List.contains_iff_mem]
    rfl
  rw [FrontEndRun.saved, List.mem_map]
  constructor
  · rintro ⟨⟨stage, artifact⟩, hmem, rfl⟩
    obtain ⟨hartifact, hdump⟩ := hdumped.mp hmem
    exact ⟨stage, hdump, artifact, hartifact, rfl⟩
  · rintro ⟨stage, hdump, artifact, hartifact, rfl⟩
    exact ⟨(stage, artifact), hdumped.mpr ⟨hartifact, hdump⟩, rfl⟩

/-- The text of an artifact tells all of it. -/
theorem decode_render (h : ∀ token ∈ (scan order.source).tokens, token.literal.isFinite)
    (hmem : (stage, artifact) ∈ order.run.artifacts) :
    (JsonValue.read? (artifact.toJson.render (some 2))).bind (Artifact.ofJson? stage) =
      some artifact := by
  obtain ⟨rfl, hfinite⟩ := isFinite_of_mem_artifacts h hmem
  obtain ⟨-, -, hread⟩ := JsonValue.render_spec (some 2) hfinite
  rw [hread, Option.bind_some, Artifact.ofJson?_toJson]

/-- Let every number literal of a source be finite. Whatever is saved of a stage is the text of its
artifact, which is JSON in ASCII: it is a text of that value and of no other, and reading it gives
back the artifact with all its tokens, or with all its trees. So two artifacts of one stage that are
saved as the same text are the same, whichever sources they come from. -/
theorem saved_lossless {order : Order}
    (h : ∀ token ∈ (scan order.source).tokens, token.literal.isFinite) :
    (∃ trees, (parse (scan order.source).tokens).ending = .done trees ∧
      order.run.artifacts = (.tokens, .tokens (scan order.source).tokens) ::
        (if order.stopAfterTokens then [] else [(.ast, .ast trees)])) ∧
    (∀ file, file ∈ order.run.saved ↔ ∃ stage ∈ order.dump, ∃ artifact,
      (stage, artifact) ∈ order.run.artifacts ∧
        file = (order.savePath stage, artifact.toJson.render (some 2))) ∧
    (∀ stage artifact, (stage, artifact) ∈ order.run.artifacts →
      let text := artifact.toJson.render (some 2)
      JsonValue.IsAscii text.toList ∧
        (∀ value, JsonValue.IsDocument value text.toList ↔ value = artifact.toJson) ∧
        (JsonValue.read? text).bind (Artifact.ofJson? stage) = some artifact) ∧
    ∀ other : Order, (∀ token ∈ (scan other.source).tokens, token.literal.isFinite) →
      ∀ stage artifact artifact', (stage, artifact) ∈ order.run.artifacts →
        (stage, artifact') ∈ other.run.artifacts →
        artifact.toJson.render (some 2) = artifact'.toJson.render (some 2) →
          artifact = artifact' := by
  refine ⟨?_, fun file => mem_saved_iff, ?_, ?_⟩
  · obtain ⟨trees, hending, hartifacts, -⟩ := order.exists_artifacts_run
    exact ⟨trees, hending, hartifacts⟩
  · intro stage artifact hmem text
    obtain ⟨-, hfinite⟩ := isFinite_of_mem_artifacts h hmem
    obtain ⟨hascii, hdocument, hread⟩ := JsonValue.render_spec (some 2) hfinite
    refine ⟨hascii, fun value => ⟨fun hvalue => ?_, ?_⟩, decode_render h hmem⟩
    · exact Option.some.inj (hvalue.read?.symm.trans hread)
    · rintro rfl
      exact hdocument
  · intro other hother stage artifact artifact' hmem hmem' htext
    -- both texts are read back by the decoder of the same stage
    have hdecode := decode_render h hmem
    rw [htext, decode_render hother hmem'] at hdecode
    exact (Option.some.inj hdecode).symm

def halfAndLetter : Order := ⟨"0.5+\"é\";", none, [.ast], false⟩

theorem scan_halfAndLetter : (scan halfAndLetter.source).tokens =
    [⟨.number, "0.5", .number (Double.ofDecimal false ['0'] ['5']), 1⟩, ⟨.plus, "+", .null, 1⟩,
      ⟨.string, "\"é\"", .string "é", 1⟩, ⟨.semicolon, ";", .null, 1⟩, Token.endMark 1] := by
  have hpieces : Segment.ofSource halfAndLetter.source.toList =
      [.token .number (.number (Double.ofDecimal false ['0'] ['5'])) ['0', '.', '5'],
        .token .plus .null ['+'], .token .string (.string (String.ofList ['é'])) ['"', 'é', '"'],
        .token .semicolon .null [';']] := by
    have hlist : halfAndLetter.source.toList = ['0', '.', '5', '+', '"', 'é', '"', ';'] := by
      decide
    rw [hlist]
    iterate 4 apply Segment.ofSource_of_cut rfl
    exact Segment.ofSource_nil
  rw [tokens_scan, hpieces]
  rfl

theorem isFinite_halfAndLetter :
    ∀ token ∈ (scan halfAndLetter.source).tokens, token.literal.isFinite := by
  rw [scan_halfAndLetter]
  decide +kernel

/-- The sum is saved in ASCII and read back with both of its operands. -/
theorem saved_halfAndLetter :
    (∀ token ∈ (scan halfAndLetter.source).tokens, token.literal.isFinite) ∧
      ∃ text, ("stdin_output.ast.json", text) ∈ halfAndLetter.run.saved ∧
        JsonValue.IsAscii text.toList ∧
        (JsonValue.read? text).bind (Artifact.ofJson? .ast) =
          some (.ast [.expression 1 (.binary 1
            (.literal 1 (.number (Double.ofDecimal false ['0'] ['5']))) ⟨.plus, "+", .null, 1⟩
            (.literal 1 (.string "é")))]) := by
  obtain ⟨⟨trees, hending, hartifacts⟩, hsaved, htext, -⟩ :=
    saved_lossless isFinite_halfAndLetter
  have hmem : (Stage.ast, Artifact.ast trees) ∈ halfAndLetter.run.artifacts := by
    rw [hartifacts]
    exact List.mem_cons_of_mem _ (List.mem_singleton_self _)
  obtain ⟨hascii, -, hdecode⟩ := htext _ _ hmem
  have hpath : halfAndLetter.savePath .ast = "stdin_output.ast.json" := by decide
  refine ⟨isFinite_halfAndLetter, _, (hsaved _).mpr ⟨.ast, List.mem_singleton_self _, _, hmem,
    Prod.ext hpath.symm rfl⟩, hascii, ?_⟩
  rw [hdecode]
  rw [scan_halfAndLetter] at hending
  cases hending
  rfl

end Files

end ScriptLang
