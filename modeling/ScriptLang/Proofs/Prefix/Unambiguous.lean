import ScriptLang.Proofs.Prefix.Legible
import ScriptLang.Proofs.Prefix.Printing

namespace ScriptLang

open JsonValue

section Words

variable {token token' : Token} {value value' : Literal}

theorem Token.IsSpelled.unique (h : token.IsSpelled) (h' : token'.IsSpelled)
    (heq : token.lexeme.toList = token'.lexeme.toList) :
    token.kind = token'.kind ∧ token.literal = token'.literal := by
  unfold IsSpelled at h h'
  rw [heq] at h
  exact Lexeme.unique h' h

/-- The text of a token determines it up to its line. -/
theorem Token.IsSpelled.withoutLine_eq (h : token.IsSpelled) (h' : token'.IsSpelled)
    (heq : token.lexeme.toList = token'.lexeme.toList) :
    token.withoutLine = token'.withoutLine := by
  obtain ⟨hkind, hliteral⟩ := h.unique h' heq
  unfold withoutLine
  rw [hkind, hliteral, String.toList_inj.mp heq]

theorem Token.IsName.withoutLine_eq (h : token.IsName) (h' : token'.IsName)
    (heq : token.lexeme.toList = token'.lexeme.toList) :
    token.withoutLine = token'.withoutLine :=
  h.2.withoutLine_eq h'.2 heq

/-- The word in front of a grouping is a name, and so no operator. -/
theorem Lexeme.ne_group {kind : TokenKind} {literal : Literal} {text : List Char}
    (h : Lexeme kind literal text) (hk : kind ∉ [.identifier, .number, .string]) :
    text ≠ "group".toList := by
  cases h with
  | mark h =>
    have hall : ∀ entry ∈ marks, entry.1 ≠ "group".toList := by decide
    exact hall _ h
  | reserved h =>
    have hall : ∀ entry ∈ words, entry.1 ≠ "group".toList := by decide
    exact hall _ h
  | whole | decimal | name | string => exact absurd (by decide) hk

theorem Token.IsSpelled.ne_group (h : token.IsSpelled)
    (ho : token.kind = .bang ∨ token.kind = .minus) : token.lexeme.toList ≠ "group".toList := by
  refine Lexeme.ne_group h ?_
  obtain ho | ho := ho <;> rw [ho] <;> decide

theorem TokenKind.not_logical {kind : TokenKind} (hb : 3 ≤ kind.rank) :
    ¬ (kind = .orWord ∨ kind = .andWord) := by
  rintro (rfl | rfl) <;> exact absurd hb (by decide)

theorem Literal.Legible.eq_of_text (h : value.Legible) (h' : value'.Legible)
    (heq : value.text.toList = value'.text.toList) : value = value' := by
  have hword {kind : TokenKind} (hk : kind ∈ [.nullWord, .trueWord, .falseWord]) :
      kind ≠ .number := by
    rintro rfl
    exact absurd hk (by decide)
  -- a reserved word tells its literal, and no word begins like a number
  obtain ⟨kind, hk, hs⟩ | ⟨number, rfl, hu⟩ := h.cases
  · obtain ⟨kind', hk', hs'⟩ | ⟨number', rfl, hu'⟩ := h'.cases
    · rw [heq] at hs
      exact (hs'.unique hs).2
    · rw [heq] at hs
      exact absurd (Literal.isNumeral_number hu') (hs.not_isNumeral (hword hk))
  · obtain ⟨kind', hk', hs'⟩ | ⟨number', rfl, hu'⟩ := h'.cases
    · rw [← heq] at hs'
      exact absurd (Literal.isNumeral_number hu) (hs'.not_isNumeral (hword hk'))
    · rw [Literal.number_text_inj hu hu' (String.toList_inj.mp heq)]

theorem Literal.Legible.ne_name (h : value.Legible) (hn : token.IsName) :
    value.text.toList ≠ token.lexeme.toList := by
  intro heq
  obtain ⟨hkind, hs⟩ := hn
  unfold Token.IsSpelled at hs
  rw [hkind, ← heq] at hs
  obtain ⟨kind, hk, hs'⟩ | ⟨number, rfl, hu⟩ := h.cases
  · rw [(hs.unique hs').1] at hk
    exact absurd hk (by decide)
  · exact hs.not_isNumeral (by decide) (Literal.isNumeral_number hu)

end Words

section Trees

theorem map_eq_of_map_eq {α β γ : Type} {f : α → β} {g : α → γ} {p : α → Prop} {xs ys : List α}
    (h : ∀ x ∈ xs, ∀ {y}, p y → f x = f y → g x = g y) (hy : ∀ y ∈ ys, p y)
    (heq : xs.map f = ys.map f) : xs.map g = ys.map g := by
  induction xs generalizing ys with
  | nil => rw [List.map_eq_nil_iff.mp heq.symm]
  | cons x xs ih =>
    obtain ⟨hx, hxs⟩ := List.forall_mem_cons.mp h
    cases ys with
    | nil => cases heq
    | cons y ys =>
      obtain ⟨hy, hys⟩ := List.forall_mem_cons.mp hy
      obtain ⟨hhead, htail⟩ := List.cons.inj heq
      rw [List.map_cons, List.map_cons, hx hy hhead, ih hxs hys htail]

section Parts

variable {head head' : List Char} {part part' next next' : Form} {items items' : List Form}

theorem Form.list_inj (h : list (word head :: items) = list (word head' :: items')) :
    head = head' ∧ items = items' := by
  obtain ⟨hhead, hitems⟩ := List.cons.inj (Form.list.inj h)
  exact ⟨Form.word.inj hhead, hitems⟩

theorem Form.pair_inj (h : list [word head, part] = list [word head', part']) :
    head = head' ∧ part = part' := by
  obtain ⟨hhead, hitems⟩ := list_inj h
  exact ⟨hhead, (List.cons.inj hitems).1⟩

theorem Form.triple_inj (h : list [word head, part, next] = list [word head', part', next']) :
    head = head' ∧ part = part' ∧ next = next' := by
  obtain ⟨hhead, hitems⟩ := list_inj h
  obtain ⟨hpart, hrest⟩ := List.cons.inj hitems
  exact ⟨hhead, hpart, (List.cons.inj hrest).1⟩

theorem Form.pair_ne_triple : list [word head, part] ≠ list [word head', part', next'] := by
  intro h
  nomatch (List.cons.inj (list_inj h).2).2

end Parts

/-- The form of an expression tells the expression, up to its lines. -/
theorem Expr.Legible.withoutLines_eq {tree tree' : Expr} (h : tree.Legible) (h' : tree'.Legible)
    (heq : tree.form = tree'.form) : tree.withoutLines = tree'.withoutLines := by
  -- words, assignments and parentheses differ as forms, and operators in the count of operands
  induction h generalizing tree' with
  | literal line hv =>
    cases h' with
    | literal line' hv' =>
      rw [withoutLines, withoutLines, hv.eq_of_text hv' (Form.word.inj heq)]
    | name line' hn' => exact absurd (Form.word.inj heq) (hv.ne_name hn')
    | _ => cases heq
  | name line hn =>
    cases h' with
    | literal line' hv' => exact absurd (Form.word.inj heq).symm (hv'.ne_name hn)
    | name line' hn' =>
      rw [withoutLines, withoutLines, hn.withoutLine_eq hn' (Form.word.inj heq)]
    | _ => cases heq
  | assign line hn h ih =>
    cases h' with
    | assign line' hn' h' =>
      obtain ⟨hname, hvalue⟩ := Form.equals.inj heq
      rw [withoutLines, withoutLines, hn.withoutLine_eq hn' hname, ih h' hvalue]
    | _ => cases heq
  | grouping line h ih =>
    cases h' with
    | grouping line' h' =>
      rw [withoutLines, withoutLines, ih h' (Form.pair_inj heq).2]
    | unary line' ho' hs' => exact absurd (Form.pair_inj heq).1.symm (hs'.ne_group ho')
    | binary | logical => exact absurd heq Form.pair_ne_triple
    | _ => cases heq
  | unary line ho hs h ih =>
    cases h' with
    | grouping => exact absurd (Form.pair_inj heq).1 (hs.ne_group ho)
    | unary line' ho' hs' h' =>
      obtain ⟨hoperator, hright⟩ := Form.pair_inj heq
      rw [withoutLines, withoutLines, hs.withoutLine_eq hs' hoperator, ih h' hright]
    | binary | logical => exact absurd heq Form.pair_ne_triple
    | _ => cases heq
  | binary line ho hs hl hr ihl ihr =>
    cases h' with
    | grouping | unary => exact absurd heq.symm Form.pair_ne_triple
    | binary line' ho' hs' hl' hr' =>
      obtain ⟨hoperator, hleft, hright⟩ := Form.triple_inj heq
      rw [withoutLines, withoutLines, hs.withoutLine_eq hs' hoperator, ihl hl' hleft,
        ihr hr' hright]
    | logical line' ho' hs' =>
      rw [(hs.unique hs' (Form.triple_inj heq).1).1] at ho
      exact absurd ho' (TokenKind.not_logical ho)
    | _ => cases heq
  | logical line ho hs hl hr ihl ihr =>
    cases h' with
    | grouping | unary => exact absurd heq.symm Form.pair_ne_triple
    | binary line' ho' hs' =>
      rw [(hs.unique hs' (Form.triple_inj heq).1).1] at ho
      exact absurd ho (TokenKind.not_logical ho')
    | logical line' ho' hs' hl' hr' =>
      obtain ⟨hoperator, hleft, hright⟩ := Form.triple_inj heq
      rw [withoutLines, withoutLines, hs.withoutLine_eq hs' hoperator, ihl hl' hleft,
        ihr hr' hright]
    | _ => cases heq

/-- The form of a statement tells the statement, up to its lines. -/
theorem Stmt.Legible.withoutLines_eq {tree tree' : Stmt} (h : tree.Legible) (h' : tree'.Legible)
    (heq : tree.form = tree'.form) : tree.withoutLines = tree'.withoutLines := by
  -- statements of other kinds have another word in front
  induction h generalizing tree' with
  | block line h ih =>
    cases h' with
    | block line' h' =>
      obtain ⟨-, hforms⟩ := Form.list_inj heq
      rw [forms_eq_map, forms_eq_map] at hforms
      rw [withoutLines, withoutLines, eachWithoutLines_eq_map, eachWithoutLines_eq_map,
        map_eq_of_map_eq ih h' hforms]
    | _ => exact absurd (Form.list_inj heq).1 (by decide)
  | expression line hv =>
    cases h' with
    | expression line' hv' =>
      rw [withoutLines, withoutLines, hv.withoutLines_eq hv' (Form.pair_inj heq).2]
    | _ => exact absurd (Form.list_inj heq).1 (by decide)
  | print line hv =>
    cases h' with
    | print line' hv' =>
      rw [withoutLines, withoutLines, hv.withoutLines_eq hv' (Form.pair_inj heq).2]
    | _ => exact absurd (Form.list_inj heq).1 (by decide)
  | letBinding line hn hi =>
    cases h' with
    | letBinding line' hn' hi' =>
      obtain ⟨-, hname, hinitializer⟩ := Form.triple_inj heq
      rw [withoutLines, withoutLines, hn.withoutLine_eq hn' (Form.word.inj hname),
        hi.withoutLines_eq hi' hinitializer]
    | _ => exact absurd (Form.list_inj heq).1 (by decide)
  | ifThen line hc ht iht =>
    cases h' with
    | ifThen line' hc' ht' =>
      obtain ⟨-, hcondition, hthen⟩ := Form.triple_inj heq
      rw [withoutLines, withoutLines, hc.withoutLines_eq hc' hcondition, iht ht' hthen]
    | ifElse => nomatch (List.cons.inj (List.cons.inj (Form.list_inj heq).2).2).2
    | _ => exact absurd (Form.list_inj heq).1 (by decide)
  | ifElse line hc ht he iht ihe =>
    cases h' with
    | ifThen => nomatch (List.cons.inj (List.cons.inj (Form.list_inj heq).2).2).2
    | ifElse line' hc' ht' he' =>
      obtain ⟨hcondition, hbranches⟩ := List.cons.inj (Form.list_inj heq).2
      obtain ⟨hthen, helse⟩ := List.cons.inj hbranches
      rw [withoutLines, withoutLines, hc.withoutLines_eq hc' hcondition, iht ht' hthen,
        ihe he' (List.cons.inj helse).1]
    | _ => exact absurd (Form.list_inj heq).1 (by decide)
  | whileLoop line hc h ih =>
    cases h' with
    | whileLoop line' hc' h' =>
      obtain ⟨-, hcondition, hbody⟩ := Form.triple_inj heq
      rw [withoutLines, withoutLines, hc.withoutLines_eq hc' hcondition, ih h' hbody]
    | _ => exact absurd (Form.list_inj heq).1 (by decide)
  | function line bodyLine hn hp h ih =>
    cases h' with
    | function line' bodyLine' hn' hp' h' =>
      obtain ⟨hname, hparts⟩ := List.cons.inj (Form.list_inj heq).2
      obtain ⟨hparams, hbody⟩ := List.cons.inj hparts
      have hnames := map_eq_of_map_eq
        (fun param hmem _ hn' hform => (hp param hmem).withoutLine_eq hn' (Form.word.inj hform))
        hp' (Form.list.inj hparams)
      rw [forms_eq_map, forms_eq_map] at hbody
      rw [withoutLines, withoutLines, eachWithoutLines_eq_map, eachWithoutLines_eq_map,
        hn.withoutLine_eq hn' (Form.word.inj hname), hnames, map_eq_of_map_eq ih h' hbody]
    | _ => exact absurd (Form.list_inj heq).1 (by decide)

end Trees

section Printing

variable [Host] {trees trees' : List Stmt} {text : String}

theorem toList_printAll (h : Node.printAll (trees.map .stmt) = .ok text) :
    text.toList = Form.joined '\n' (trees.map Stmt.form) := by
  have hmark : "\n".toList = ['\n'] := by decide
  rw [Node.printAll_eq_ok h]
  refine Form.toList_intercalate hmark ?_
  rw [List.map_map, List.map_map, List.map_map]
  exact List.map_congr_left fun tree _ => tree.toList_prefixForm

theorem withoutLines_eq_of_printAll (h : ∀ tree ∈ trees, tree.Legible)
    (h' : ∀ tree ∈ trees', tree.Legible) (hprint : Node.printAll (trees.map .stmt) = .ok text)
    (hprint' : Node.printAll (trees'.map .stmt) = .ok text) :
    trees.map Stmt.withoutLines = trees'.map Stmt.withoutLines := by
  have htext := (toList_printAll hprint).symm.trans (toList_printAll hprint')
  have hforms := Form.joined_injective (by decide) (by decide)
    (List.forall_mem_map.mpr fun tree hmem => (h tree hmem).plain)
    (List.forall_mem_map.mpr fun tree hmem => (h' tree hmem).plain) htext
  exact map_eq_of_map_eq (fun tree hmem => (h tree hmem).withoutLines_eq) h' hforms

theorem withoutLines_eq_of_print {tree tree' : Expr} (h : tree.Legible) (h' : tree'.Legible)
    (hprint : Node.print (.expr tree) = .ok text) (hprint' : Node.print (.expr tree') = .ok text) :
    tree.withoutLines = tree'.withoutLines := by
  have htext : tree.prefixForm = tree'.prefixForm :=
    (Node.print_eq_ok hprint).symm.trans (Node.print_eq_ok hprint')
  refine h.withoutLines_eq h' (Form.text_injective h.plain h'.plain ?_)
  rw [← tree.toList_prefixForm, htext, tree'.toList_prefixForm]

end Printing

/-- Legible trees that are printed as the same text differ in nothing but their lines. -/
theorem printed_unambiguous [Host] :
    (∀ (trees trees' : List Stmt) (text : String), (∀ tree ∈ trees, tree.Legible) →
      (∀ tree ∈ trees', tree.Legible) → Node.printAll (trees.map .stmt) = .ok text →
      Node.printAll (trees'.map .stmt) = .ok text →
      trees.map Stmt.withoutLines = trees'.map Stmt.withoutLines) ∧
    ∀ (tree tree' : Expr) (text : String), tree.Legible → tree'.Legible →
      Node.print (.expr tree) = .ok text → Node.print (.expr tree') = .ok text →
      tree.withoutLines = tree'.withoutLines :=
  ⟨fun _ _ _ => withoutLines_eq_of_printAll, fun _ _ _ => withoutLines_eq_of_print⟩

def nameA (line : Int) : Token := ⟨.identifier, "a", .null, line⟩

def minusSign (line : Int) : Token := ⟨.minus, "-", .null, line⟩

def difference (line : Int) : Expr :=
  .assign line (nameA line)
    (.binary line (.unary line (minusSign line) (.literal line (.number (.ofRatio false 1 2))))
      (minusSign line) (.literal line (.number (.ofRatio false 2 1))))

def differences (line : Int) : List Stmt :=
  [.function line (nameA line) [nameA line] line [.expression line (difference line)],
   .ifThen line (.name line (nameA line)) (.block line [])]

theorem isName_nameA (line : Int) : (nameA line).IsName := by
  have htext : "a".toList = ['a'] := by decide
  refine ⟨rfl, ?_⟩
  change Lexeme .identifier .null "a".toList
  rw [htext]
  exact Lexeme.name (Segment.isWordStart_iff.mp (by decide)) nofun (by decide)

theorem isSpelled_minusSign (line : Int) : (minusSign line).IsSpelled := by
  change Lexeme .minus .null "-".toList
  exact Lexeme.mark (by decide)

theorem legible_difference (line : Int) : (difference line).Legible := by
  have hhalf : (Double.ofRatio false 1 2).IsUnsigned := by decide +kernel
  have htwo : (Double.ofRatio false 2 1).IsUnsigned := by decide +kernel
  have hrank : 3 ≤ TokenKind.minus.rank := by decide
  have hminus := isSpelled_minusSign line
  exact .assign line (isName_nameA line) (.binary line hrank hminus
    (.unary line (.inr rfl) hminus (.literal line hhalf)) (.literal line htwo))

theorem legible_differences (line : Int) : ∀ tree ∈ differences line, tree.Legible := by
  have hname := isName_nameA line
  refine List.forall_mem_cons.mpr ⟨?_, List.forall_mem_singleton.mpr ?_⟩
  · exact .function line line hname (List.forall_mem_singleton.mpr hname)
      (List.forall_mem_singleton.mpr (.expression line (legible_difference line)))
  · exact .ifThen line (.name line hname) (.block line (List.forall_mem_nil _))

def differencesText : String := "(fn a (a) (; = a (- (- 0.5) 2)))\n(if a (block))"

theorem differences_unambiguous :
    (∀ tree ∈ differences 1, tree.Legible) ∧ (∀ tree ∈ differences 7, tree.Legible) ∧
      Node.printAll ((differences 1).map .stmt) = .ok differencesText ∧
      Node.printAll ((differences 7).map .stmt) = .ok differencesText ∧
      (differences 1).map Stmt.withoutLines = (differences 7).map Stmt.withoutLines ∧
      (difference 1).withoutLines = (difference 7).withoutLines := by
  have hprint : Node.printAll ((differences 1).map .stmt) = .ok differencesText := by
    decide +kernel
  have hprint' : Node.printAll ((differences 7).map .stmt) = .ok differencesText := by
    decide +kernel
  have hexpr : Node.print (.expr (difference 1)) = .ok "= a (- (- 0.5) 2)" := by decide +kernel
  have hexpr' : Node.print (.expr (difference 7)) = .ok "= a (- (- 0.5) 2)" := by decide +kernel
  exact ⟨legible_differences 1, legible_differences 7, hprint, hprint',
    printed_unambiguous.1 _ _ _ (legible_differences 1) (legible_differences 7) hprint hprint',
    printed_unambiguous.2 _ _ _ (legible_difference 1) (legible_difference 7) hexpr hexpr'⟩

end ScriptLang
