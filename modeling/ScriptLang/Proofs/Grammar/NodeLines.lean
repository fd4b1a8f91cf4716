import ScriptLang.Proofs.FrontEnd.Stages
import ScriptLang.Proofs.Source.Places

namespace ScriptLang

section Places

mutual

/-- The nodes of an expression, each with the number of the token it begins with; `start` is that of
the expression itself. -/
def Expr.nodes (start : Nat) (tree : Expr) : List (Nat × Node) :=
  (start, .expr tree) :: match tree with
    | literal .. | name .. => []
    | grouping _ inner => inner.nodes (start + 1)
    | unary _ _ right => right.nodes (start + 1)
    | binary _ left _ right | logical _ left _ right =>
      left.nodes start ++ right.nodes (start + left.leaves.length + 1)
    | assign _ _ value => value.nodes (start + 2)
    | call _ callee _ arguments =>
      callee.nodes start ++ nodesOfEach (start + callee.leaves.length + 1) arguments

def Expr.nodesOfEach (start : Nat) : List Expr → List (Nat × Node)
  | [] => []
  | tree :: rest => tree.nodes start ++ nodesOfEach (start + tree.leaves.length + 1) rest

end

mutual

def Stmt.nodes (start : Nat) (tree : Stmt) : List (Nat × Node) :=
  (start, .stmt tree) :: match tree with
    | block _ statements => nodesOfAll (start + 1) statements
    | expression _ value => value.nodes start
    | print _ value => value.nodes (start + 1)
    | letBinding _ _ initializer => initializer.nodes (start + 3)
    | ifThen _ condition thenBranch =>
      condition.nodes (start + 2) ++ thenBranch.nodes (start + 2 + condition.leaves.length + 1)
    | ifElse _ condition thenBranch elseBranch =>
      condition.nodes (start + 2) ++ (thenBranch.nodes (start + 2 + condition.leaves.length + 1) ++
        elseBranch.nodes
          (start + 2 + condition.leaves.length + 1 + thenBranch.leaves.length + 1))
    | whileLoop _ condition body =>
      condition.nodes (start + 2) ++ body.nodes (start + 2 + condition.leaves.length + 1)
    | function _ _ params bodyLine body =>
      let brace := start + 3 + (leavesOfNames params).length + 1
      (brace, .stmt (.block bodyLine body)) :: nodesOfAll (brace + 1) body

def Stmt.nodesOfAll (start : Nat) : List Stmt → List (Nat × Node)
  | [] => []
  | tree :: rest => tree.nodes start ++ nodesOfAll (start + tree.leaves.length) rest

end

end Places

/-- Of leaves that are numbered from `start` on, the node begins with that of its number. -/
def BeginsIn (leaves : List Leaf) (start : Nat) (entry : Nat × Node) : Prop :=
  ∃ place leaf, entry.1 = start + place ∧ leaves[place]? = some leaf ∧ entry.2.line ∈ leaf.lines

namespace BeginsIn

variable {leaves : List Leaf} {leaf : Leaf} {start : Nat} {entry : Nat × Node}

theorem first {node : Node} (h : node.line ∈ leaf.lines) (rest : List Leaf) :
    BeginsIn (leaf :: rest) start (start, node) :=
  ⟨0, leaf, rfl, rfl, h⟩

theorem append (h : BeginsIn leaves start entry) (more : List Leaf) :
    BeginsIn (leaves ++ more) start entry := by
  obtain ⟨place, leaf, hnumber, hleaf, hline⟩ := h
  refine ⟨place, leaf, hnumber, ?_, hline⟩
  rw [List.getElem?_append_left (List.getElem?_eq_some_iff.mp hleaf).1, hleaf]

theorem after (before : List Leaf) (h : BeginsIn leaves (start + before.length) entry) :
    BeginsIn (before ++ leaves) start entry := by
  obtain ⟨place, leaf, hnumber, hleaf, hline⟩ := h
  refine ⟨before.length + place, leaf, by omega, ?_, hline⟩
  rw [List.getElem?_append_right (Nat.le_add_right _ _), Nat.add_sub_cancel_left, hleaf]

theorem next (leaf : Leaf) (h : BeginsIn leaves (start + 1) entry) :
    BeginsIn (leaf :: leaves) start entry :=
  after [leaf] h

/-- A node that begins with others leaves them where they are. -/
theorem headed {line : Int} (h : BeginsIn leaves start entry) :
    BeginsIn (headed line leaves) start entry := by
  obtain ⟨place, leaf, hnumber, hleaf, hline⟩ := h
  cases leaves with
  | nil => cases hleaf
  | cons first rest =>
    cases place with
    | zero =>
      cases hleaf
      exact ⟨0, _, hnumber, rfl, List.mem_cons_of_mem _ hline⟩
    | succ place => exact ⟨place + 1, leaf, hnumber, hleaf, hline⟩

end BeginsIn

section Trees

/-- The first leaf of a statement has its line. -/
theorem Stmt.leaves_eq_cons (tree : Stmt) :
    ∃ leaf rest, tree.leaves = leaf :: rest ∧ tree.line ∈ leaf.lines := by
  cases tree with
  | expression =>
    exact headed_eq_cons (List.append_ne_nil_of_right_ne_nil _ (List.cons_ne_nil _ _))
  | _ => exact ⟨_, _, rfl, List.mem_singleton_self _⟩

theorem Expr.beginsIn_leaves (tree : Expr) (start : Nat) :
    BeginsIn tree.leaves start (start, .expr tree) := by
  obtain ⟨leaf, rest, hleaves, hline⟩ := tree.leaves_eq_cons
  rw [hleaves]
  exact .first hline rest

theorem Stmt.beginsIn_leaves (tree : Stmt) (start : Nat) :
    BeginsIn tree.leaves start (start, .stmt tree) := by
  obtain ⟨leaf, rest, hleaves, hline⟩ := tree.leaves_eq_cons
  rw [hleaves]
  exact .first hline rest

/-- Two parts with a leaf between them. -/
theorem beginsIn_around {left right : List Leaf} {nodes nodes' : List (Nat × Node)} {start : Nat}
    (h : ∀ entry ∈ nodes, BeginsIn left start entry)
    (h' : ∀ entry ∈ nodes', BeginsIn right (start + left.length + 1) entry) (leaf : Leaf) :
    ∀ entry ∈ nodes ++ nodes', BeginsIn (left ++ leaf :: right) start entry := by
  intro entry hmem
  obtain hmem | hmem := List.mem_append.mp hmem
  · exact (h entry hmem).append _
  · exact .after left (.next leaf (h' entry hmem))

mutual

/-- All nodes of an expression begin in its leaves, with their lines. -/
theorem Expr.beginsIn_nodes (tree : Expr) (start : Nat) :
    ∀ entry ∈ tree.nodes start, BeginsIn tree.leaves start entry := by
  unfold nodes
  rw [List.forall_mem_cons]
  refine ⟨tree.beginsIn_leaves start, ?_⟩
  cases tree with
  | literal | name => exact List.forall_mem_nil _
  | grouping line inner =>
    exact fun entry hmem => .next _ ((inner.beginsIn_nodes _ entry hmem).append _)
  | unary line operator right =>
    exact fun entry hmem => .next _ (right.beginsIn_nodes _ entry hmem)
  | binary line left operator right | logical line left operator right =>
    exact fun entry hmem => .headed
      (beginsIn_around (left.beginsIn_nodes _) (right.beginsIn_nodes _) _ entry hmem)
  | assign line target value =>
    exact fun entry hmem => .next _ (.next _ (value.beginsIn_nodes _ entry hmem))
  | call line callee paren arguments =>
    intro entry hmem
    refine .headed (beginsIn_around (callee.beginsIn_nodes _) ?_ _ entry hmem)
    exact fun entry hmem => (beginsIn_nodesOfEach arguments _ entry hmem).append _

theorem Expr.beginsIn_nodesOfEach (trees : List Expr) (start : Nat) :
    ∀ entry ∈ nodesOfEach start trees, BeginsIn (separated (leavesOfEach trees)) start entry := by
  cases trees with
  | nil => exact List.forall_mem_nil _
  | cons tree rest =>
    cases rest with
    | nil =>
      intro entry hmem
      rw [nodesOfEach, nodesOfEach, List.append_nil] at hmem
      exact (tree.beginsIn_nodes _ entry hmem).append _
    | cons next rest =>
      exact beginsIn_around (tree.beginsIn_nodes _) (beginsIn_nodesOfEach (next :: rest) _) _

end

mutual

/-- All nodes of a statement begin in its leaves, with their lines. -/
theorem Stmt.beginsIn_nodes (tree : Stmt) (start : Nat) :
    ∀ entry ∈ tree.nodes start, BeginsIn tree.leaves start entry := by
  unfold nodes
  rw [List.forall_mem_cons]
  refine ⟨tree.beginsIn_leaves start, ?_⟩
  cases tree with
  | block line statements =>
    exact fun entry hmem => .next _ ((beginsIn_nodesOfAll statements _ entry hmem).append _)
  | expression line value =>
    exact fun entry hmem => .headed ((value.beginsIn_nodes _ entry hmem).append _)
  | print line value =>
    exact fun entry hmem => .next _ ((value.beginsIn_nodes _ entry hmem).append _)
  | letBinding line name initializer =>
    exact fun entry hmem =>
      .next _ (.next _ (.next _ ((initializer.beginsIn_nodes _ entry hmem).append _)))
  | ifThen line condition thenBranch =>
    exact fun entry hmem => .next _ (.next _
      (beginsIn_around (condition.beginsIn_nodes _) (thenBranch.beginsIn_nodes _) _ entry hmem))
  | ifElse line condition thenBranch elseBranch =>
    have hbranches := fun number leaf => beginsIn_around (thenBranch.beginsIn_nodes number)
      (elseBranch.beginsIn_nodes _) leaf
    exact fun entry hmem => .next _ (.next _
      (beginsIn_around (condition.beginsIn_nodes _) (hbranches _ _) _ entry hmem))
  | whileLoop line condition body =>
    exact fun entry hmem => .next _ (.next _
      (beginsIn_around (condition.beginsIn_nodes _) (body.beginsIn_nodes _) _ entry hmem))
  | function line name params bodyLine body =>
    intro entry hmem
    refine .next _ (.next _ (.next _ (.after _ (.next _ ?_))))
    obtain rfl | hmem := List.mem_cons.mp hmem
    · exact .first (List.mem_singleton_self _) _
    · exact .next _ ((beginsIn_nodesOfAll body _ entry hmem).append _)

theorem Stmt.beginsIn_nodesOfAll (trees : List Stmt) (start : Nat) :
    ∀ entry ∈ nodesOfAll start trees, BeginsIn (leavesOfAll trees) start entry := by
  cases trees with
  | nil => exact List.forall_mem_nil _
  | cons tree rest =>
    intro entry hmem
    obtain hmem | hmem := List.mem_append.mp hmem
    · exact (tree.beginsIn_nodes _ entry hmem).append _
    · exact .after _ (beginsIn_nodesOfAll rest _ entry hmem)

end

end Trees

/-- A leaf tells of the token at its place. -/
theorem Shown.getElem? {leaves : List Leaf} {ts : List Token} (h : Shown leaves ts) {place : Nat}
    {leaf : Leaf} (hleaf : leaves[place]? = some leaf) :
    ∃ token, ts[place]? = some token ∧ leaf.Shows token := by
  obtain ⟨hplace, rfl⟩ := List.getElem?_eq_some_iff.mp hleaf
  have hplace' : place < ts.length := h.length_eq ▸ hplace
  exact ⟨ts[place], List.getElem?_eq_getElem hplace', h.get hplace hplace'⟩

/-- In the trees of a source that parses without an error, every node is on the line on which the
token it begins with ends. That is the line on which this token begins unless it is a string that
goes over the end of a line. -/
theorem nodes_on_lines {source : String} (hclean : (parse (scan source).tokens).recorded = []) :
    ∃ trees, (parse (scan source).tokens).ending = .done trees ∧
      ∀ entry ∈ Stmt.nodesOfAll 0 trees, ∃ token before after,
        (scan source).tokens[entry.1]? = some token ∧
        StandsBetween source entry.1 before token.lexeme.toList after ∧
        entry.2.line = 1 + (before.count '\n' + token.lexeme.toList.count '\n' : Nat) ∧
        (token.kind ≠ .string → entry.2.line = 1 + (before.count '\n' : Nat)) := by
  obtain ⟨used, mark, trees, htokens, hnone, hending, hshown⟩ := shown_of_scan hclean
  refine ⟨trees, hending, fun entry hmem => ?_⟩
  obtain ⟨place, leaf, hnumber, hleaf, hline⟩ := Stmt.beginsIn_nodesOfAll trees 0 entry hmem
  rw [Nat.zero_add] at hnumber
  obtain ⟨token, htoken, hshows⟩ := hshown.getElem? hleaf
  have hkind : token.kind ≠ .eof := hnone token (List.mem_of_getElem? htoken)
  have hscanned : (scan source).tokens[entry.1]? = some token := by
    rw [htokens, hnumber, List.getElem?_append_left (List.getElem?_eq_some_iff.mp htoken).1, htoken]
  obtain ⟨before, after, hstands, hends⟩ := scan_places hscanned hkind
  have hnode : entry.2.line = 1 + (before.count '\n' + token.lexeme.toList.count '\n' : Nat) := by
    rw [← hends, hshows.lines _ hline]
  refine ⟨token, before, after, hscanned, hstands, hnode, fun hstring => ?_⟩
  have hlexeme := lexeme_of_scan (List.mem_of_getElem? hscanned) hkind
  rw [hnode, List.count_eq_zero.mpr (hlexeme.newline_not_mem hstring), Nat.add_zero]

def stringOverLines : String := "\"a\nb\";"

theorem ofSource_stringOverLines : Segment.ofSource stringOverLines.toList =
    [.token .string (.string (String.ofList ['a', '\n', 'b'])) ['"', 'a', '\n', 'b', '"'],
      .token .semicolon .null [';']] := by
  have hlist : stringOverLines.toList = ['"', 'a', '\n', 'b', '"', ';'] := by decide
  rw [hlist]
  iterate 2 apply Segment.ofSource_of_cut rfl
  exact Segment.ofSource_nil

theorem scan_stringOverLines : (scan stringOverLines).errors = [] ∧
    (scan stringOverLines).tokens = [⟨.string, "\"a\nb\"", .string "a\nb", 2⟩,
      ⟨.semicolon, ";", .null, 2⟩, Token.endMark 2] := by
  rw [errors_scan, tokens_scan, ofSource_stringOverLines]
  exact ⟨rfl, rfl⟩

theorem parse_stringOverLines : (parse (scan stringOverLines).tokens).recorded = [] ∧
    (parse (scan stringOverLines).tokens).ending =
      .done [.expression 2 (.literal 2 (.string "a\nb"))] := by
  rw [scan_stringOverLines.2]
  exact ⟨rfl, rfl⟩

/-- Both nodes are on the second line, where the string ends. -/
theorem nodes_of_stringOverLines :
    (parse (scan stringOverLines).tokens).recorded = [] ∧
      ∃ trees, (parse (scan stringOverLines).tokens).ending = .done trees ∧
        (Stmt.nodesOfAll 0 trees).map (Prod.map id Node.line) = [(0, 2), (0, 2)] ∧
        ∀ entry ∈ Stmt.nodesOfAll 0 trees, ∃ token before after,
          (scan stringOverLines).tokens[entry.1]? = some token ∧
          StandsBetween stringOverLines entry.1 before token.lexeme.toList after ∧
          entry.2.line = 1 + (before.count '\n' + token.lexeme.toList.count '\n' : Nat) := by
  obtain ⟨hclean, hparsed⟩ := parse_stringOverLines
  obtain ⟨trees, hending, hnodes⟩ := nodes_on_lines hclean
  refine ⟨hclean, trees, hending, ?_, fun entry hmem => ?_⟩
  · rw [hparsed] at hending
    cases hending
    rfl
  · obtain ⟨token, before, after, hscanned, hstands, hline, -⟩ := hnodes entry hmem
    exact ⟨token, before, after, hscanned, hstands, hline⟩

/-- The string is the first token of the statement and nothing stands before it, so the statement
begins on the first line; but its line is the second. -/
theorem statement_not_on_first_line :
    (scan stringOverLines).errors = [] ∧ (parse (scan stringOverLines).tokens).recorded = [] ∧
      ∃ tree, (parse (scan stringOverLines).tokens).ending = .done [tree] ∧
        (scan stringOverLines).tokens.head? = some ⟨.string, "\"a\nb\"", .string "a\nb", 2⟩ ∧
        StandsBetween stringOverLines 0 [] "\"a\nb\"".toList [';'] ∧
        tree.line ≠ 1 + (([] : List Char).count '\n' : Nat) := by
  obtain ⟨herrors, htokens⟩ := scan_stringOverLines
  obtain ⟨hclean, hparsed⟩ := parse_stringOverLines
  refine ⟨herrors, hclean, _, hparsed, by rw [htokens]; rfl, ⟨by decide, ?_⟩, by decide⟩
  exact ⟨[], _, _, _, ofSource_stringOverLines, rfl, rfl⟩

end ScriptLang
