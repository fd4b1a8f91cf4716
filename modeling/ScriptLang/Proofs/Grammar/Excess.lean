import Mathlib.Algebra.Ring.Nat
import ScriptLang.Proofs.Grammar.NodeLines
import ScriptLang.Proofs.Grammar.SentenceTrees
import ScriptLang.Proofs.Rule.Leniency

namespace ScriptLang

def SyntaxError.site (error : SyntaxError) : SyntaxFault × Nat := (error.fault, error.position)

section Lists

def Expr.spanOfEach (trees : List Expr) : Nat :=
  (trees.map fun tree => tree.leaves.length + 1).sum

def Expr.startsOfEach (start : Nat) : List Expr → List Nat
  | [] => []
  | tree :: rest => start :: startsOfEach (start + tree.leaves.length + 1) rest

/-- One fault at each of these indices, except at those up to the limit. -/
def placesPastLimit (fault : SyntaxFault) (starts : List Nat) : List (SyntaxFault × Nat) :=
  (starts.drop maxArguments).map fun index => (fault, index)

def argumentExcess (start : Nat) (arguments : List Expr) : List (SyntaxFault × Nat) :=
  placesPastLimit .tooManyArguments (Expr.startsOfEach start arguments)

/-- The places of parameters past the limit. Every other token is a parameter. -/
def parameterExcess (start : Nat) (params : List Token) : List (SyntaxFault × Nat) :=
  placesPastLimit .tooManyParameters (List.range' start params.length 2)

/-- The places of the items past the limit that are a node's own; `start` is the index of its first
token. -/
def Node.excess (start : Nat) : Node → List (SyntaxFault × Nat)
  | expr (.call _ callee _ arguments) => argumentExcess (start + callee.leaves.length + 1) arguments
  | stmt (.function _ _ params _ _) => parameterExcess (start + 3) params
  | _ => []

def Node.arguments : Node → List Expr
  | expr (.call _ _ _ arguments) => arguments
  | _ => []

def Node.params : Node → List Token
  | stmt (.function _ _ params _ _) => params
  | _ => []

theorem length_headed (line : Int) (leaves : List Leaf) :
    (headed line leaves).length = leaves.length := by
  cases leaves <;> rfl

theorem length_separated (part : List Leaf) (rest : List (List Leaf)) :
    (separated (part :: rest)).length + 1 =
      ((part :: rest).map fun part => part.length + 1).sum := by
  simp only [separated, List.length_append, List.length_flatMap, List.length_cons, List.map_cons,
    List.sum_cons]
  omega

theorem Expr.length_separated {trees : List Expr} (h : trees ≠ []) :
    (separated (leavesOfEach trees)).length + 1 = spanOfEach trees := by
  cases trees with
  | nil => exact absurd rfl h
  | cons tree rest =>
    rw [leavesOfEach_eq_map, List.map_cons, ScriptLang.length_separated, ← List.map_cons,
      List.map_map]
    rfl

theorem Expr.spanOfEach_cons (start : Nat) (tree : Expr) (rest : List Expr) :
    start + spanOfEach (tree :: rest) = start + tree.leaves.length + 1 + spanOfEach rest := by
  simp only [spanOfEach, List.map_cons, List.sum_cons]
  omega

theorem Expr.spanOfEach_snoc (trees : List Expr) (tree : Expr) :
    spanOfEach (trees ++ [tree]) = spanOfEach trees + tree.leaves.length + 1 := by
  simp [spanOfEach, Nat.add_assoc]

theorem Expr.nodesOfEach_snoc (start : Nat) (trees : List Expr) (tree : Expr) :
    nodesOfEach start (trees ++ [tree]) =
      nodesOfEach start trees ++ tree.nodes (start + spanOfEach trees) := by
  induction trees generalizing start with
  | nil => simp [nodesOfEach, spanOfEach]
  | cons first rest ih =>
    rw [List.cons_append, nodesOfEach, nodesOfEach, ih, spanOfEach_cons, List.append_assoc]

theorem Expr.length_startsOfEach (start : Nat) (trees : List Expr) :
    (startsOfEach start trees).length = trees.length := by
  induction trees generalizing start with
  | nil => rfl
  | cons first rest ih => rw [startsOfEach, List.length_cons, ih, List.length_cons]

theorem Expr.startsOfEach_snoc (start : Nat) (trees : List Expr) (tree : Expr) :
    startsOfEach start (trees ++ [tree]) =
      startsOfEach start trees ++ [start + spanOfEach trees] := by
  induction trees generalizing start with
  | nil => simp [startsOfEach, spanOfEach]
  | cons first rest ih =>
    rw [List.cons_append, startsOfEach, startsOfEach, ih, spanOfEach_cons, List.cons_append]

/-- One more item is past the limit exactly if the items before it reach it. -/
theorem placesPastLimit_snoc (fault : SyntaxFault) (starts : List Nat) (index : Nat)
    (token : Token) : placesPastLimit fault (starts ++ [index]) = placesPastLimit fault starts ++
      (Grammar.overflow fault starts.length token index).map SyntaxError.site := by
  unfold placesPastLimit Grammar.overflow
  rw [List.drop_append, List.map_append]
  split
  · next hlimit =>
    rw [Nat.sub_eq_zero_of_le hlimit]
    rfl
  · next hlimit =>
    have hdrop : [index].drop (maxArguments - starts.length) = [] :=
      List.drop_eq_nil_of_le (by rw [List.length_singleton]; omega)
    rw [hdrop]
    rfl

theorem countP_placesPastLimit (fault fault' : SyntaxFault) (starts : List Nat) :
    ((placesPastLimit fault starts).countP fun site => site.1 = fault') =
      if fault = fault' then starts.length - maxArguments else 0 := by
  unfold placesPastLimit
  rw [List.countP_map]
  split
  · next heq =>
    rw [List.countP_eq_length.mpr (fun _ _ => by simp [heq]), List.length_drop]
  · next hne => exact List.countP_eq_zero.mpr fun _ _ => by simp [hne]

/-- The error of one more argument is at the first token of that argument. -/
theorem argumentExcess_snoc (start : Nat) (arguments : List Expr) (argument : Expr)
    (token : Token) : argumentExcess start (arguments ++ [argument]) =
      argumentExcess start arguments ++ (Grammar.overflow .tooManyArguments arguments.length token
        (start + Expr.spanOfEach arguments)).map SyntaxError.site := by
  unfold argumentExcess
  rw [Expr.startsOfEach_snoc, placesPastLimit_snoc _ _ _ token, Expr.length_startsOfEach]

theorem parameterExcess_snoc (start : Nat) (params : List Token) (param : Token) :
    parameterExcess start (params ++ [param]) =
      parameterExcess start params ++ (Grammar.overflow .tooManyParameters params.length param
        (start + 2 * params.length)).map SyntaxError.site := by
  unfold parameterExcess
  rw [List.length_append, List.length_singleton, List.range'_concat,
    placesPastLimit_snoc _ _ _ param, List.length_range']

/-- A call has an error for each of its arguments past the limit, and no other node has one. -/
theorem Node.countP_arguments (node : Node) (start : Nat) :
    ((node.excess start).countP fun site => site.1 = .tooManyArguments) =
      node.arguments.length - maxArguments := by
  cases node with
  | expr tree =>
    cases tree with
    | call line callee paren arguments =>
      rw [excess, argumentExcess, countP_placesPastLimit, if_pos rfl, Expr.length_startsOfEach]
      rfl
    | _ => exact (Nat.zero_sub maxArguments).symm
  | stmt tree =>
    cases tree with
    | function line name params bodyLine body =>
      rw [excess, parameterExcess, countP_placesPastLimit, if_neg (by decide)]
      exact (Nat.zero_sub maxArguments).symm
    | _ => exact (Nat.zero_sub maxArguments).symm

/-- A function has an error for each of its parameters past the limit, and no other node has one. -/
theorem Node.countP_params (node : Node) (start : Nat) :
    ((node.excess start).countP fun site => site.1 = .tooManyParameters) =
      node.params.length - maxArguments := by
  cases node with
  | expr tree =>
    cases tree with
    | call line callee paren arguments =>
      rw [excess, argumentExcess, countP_placesPastLimit, if_neg (by decide)]
      exact (Nat.zero_sub maxArguments).symm
    | _ => exact (Nat.zero_sub maxArguments).symm
  | stmt tree =>
    cases tree with
    | function line name params bodyLine body =>
      rw [excess, parameterExcess, countP_placesPastLimit, if_pos rfl, List.length_range']
      rfl
    | _ => exact (Nat.zero_sub maxArguments).symm

end Lists

section Tallies

variable (site : SyntaxFault × Nat)

def countErrors (errors : List SyntaxError) : Nat := (errors.map SyntaxError.site).count site

def countExcess (nodes : List (Nat × Node)) : Nat :=
  (nodes.flatMap fun entry => entry.2.excess entry.1).count site

@[simp] theorem countErrors_append (errors errors' : List SyntaxError) :
    countErrors site (errors ++ errors') = countErrors site errors + countErrors site errors' := by
  rw [countErrors, List.map_append, List.count_append]
  rfl

@[simp] theorem countExcess_append (nodes nodes' : List (Nat × Node)) :
    countExcess site (nodes ++ nodes') = countExcess site nodes + countExcess site nodes' := by
  rw [countExcess, List.flatMap_append, List.count_append]
  rfl

@[simp] theorem countExcess_cons (start : Nat) (node : Node) (nodes : List (Nat × Node)) :
    countExcess site ((start, node) :: nodes) =
      (node.excess start).count site + countExcess site nodes := by
  rw [countExcess, List.flatMap_cons, List.count_append]
  rfl

end Tallies

namespace Grammar

section Expressions

/-- Of a phrase that is complete every token has a leaf; of what a loop comes to, those that were
read before the loop have theirs as well. -/
def Phrase.Fills : Phrase → List Token → Prop
  | expr _ tree, ts => tree.leaves.length = ts.length
  | operands _ left result, ts | calls left result, ts =>
    result.leaves.length = left.leaves.length + ts.length
  | arguments trees, ts => (separated (Expr.leavesOfEach trees)).length = ts.length
  | moreArguments read trees, ts => Expr.spanOfEach trees = Expr.spanOfEach read + ts.length

variable {start : Nat} {ts : List Token} {errors : List SyntaxError}

theorem length_leaves_call (line : Int) (callee : Expr) (paren : Token) (arguments : List Expr) :
    (Expr.call line callee paren arguments).leaves.length =
      callee.leaves.length + 1 + (separated (Expr.leavesOfEach arguments)).length + 1 := by
  simp only [Expr.leaves, length_headed, List.length_append, List.length_cons, List.length_nil]
  omega

theorem length_leaves_join (level : Level) (left : Expr) (operator : Token) (right : Expr) :
    (level.join left operator right).leaves.length =
      left.leaves.length + 1 + right.leaves.length := by
  rw [leaves_join, length_headed, List.length_append, List.length_cons]
  omega

/-- Where the only errors are those of lists past the limit, no token is dropped. -/
theorem Spells.fills {phrase : Phrase} (h : Spells phrase start ts errors)
    (hlimit : AllWithin (fun fault => fault.pastLimit) errors) : phrase.Fills ts := by
  induction h with
  | literal | name => rfl
  | noCalls | noArguments | lastArgument | lastOperand => rfl
  | @grouping start opening closing ts inner errors _ _ _ ih =>
    have hinner : inner.leaves.length = ts.length := ih hlimit
    simp [Phrase.Fills, Expr.leaves, hinner]
  | @oneCall start opening paren ts us callee arguments result errors errors' _ _ _ _ iha ih =>
    obtain ⟨hbefore, hafter⟩ := allWithin_append.mp hlimit
    have harguments : (separated (Expr.leavesOfEach arguments)).length = ts.length := iha hbefore
    have hresult := ih hafter
    simp only [Phrase.Fills, length_leaves_call, List.length_cons, List.length_append] at hresult ⊢
    omega
  | call _ _ ihc ih | binary _ _ ihc ih =>
    obtain ⟨hbefore, hafter⟩ := allWithin_append.mp hlimit
    have hfirst := ihc hbefore
    have hresult := ih hafter
    simp only [Phrase.Fills, List.length_append] at hfirst hresult ⊢
    omega
  | @someArguments start ts us first trees errors errors' _ _ ihf ih =>
    obtain ⟨hbefore, hafter⟩ := allWithin_append.mp hlimit
    have hfirst : first.leaves.length = ts.length := ihf hbefore
    have hspan : Expr.spanOfEach trees = Expr.spanOfEach [first] + us.length := ih hafter
    have hone : Expr.spanOfEach [first] = first.leaves.length + 1 := rfl
    have hne : trees ≠ [] := by
      rintro rfl
      change 0 = _ at hspan
      omega
    have hseparated := Expr.length_separated hne
    simp only [Phrase.Fills, List.length_append]
    omega
  | @nextArgument start comma head ts us read tree trees errors errors' _ _ _ iht ih =>
    obtain ⟨hbefore, hafter⟩ := allWithin_append.mp hlimit
    have htree : tree.leaves.length = ts.length + 1 := iht (allWithin_append.mp hbefore).2
    have hspan := ih hafter
    simp only [Phrase.Fills, Expr.spanOfEach_snoc, List.length_cons, List.length_append] at hspan ⊢
    omega
  | unaryOfCall _ ih | operation _ ih => exact ih hlimit
  | @unary start operator ts right errors _ _ ih =>
    have hright : right.leaves.length = ts.length := ih hlimit
    simp [Phrase.Fills, Expr.leaves, hright]
  | @nextOperand start level operator ts us left right result errors errors' _ _ _ ihr ih =>
    obtain ⟨hbefore, hafter⟩ := allWithin_append.mp hlimit
    have hright : right.leaves.length = ts.length := ihr hbefore
    have hresult := ih hafter
    simp only [Phrase.Fills, length_leaves_join, List.length_cons, List.length_append] at hresult ⊢
    omega
  | @assignment start equals ts us line name value errors errors' _ _ _ iht ih =>
    obtain ⟨hbefore, hafter⟩ := allWithin_append.mp hlimit
    have htarget : 1 = ts.length := iht hbefore
    have hvalue : value.leaves.length = us.length := ih hafter
    simp only [Phrase.Fills, Expr.leaves, List.length_cons, List.length_append]
    omega
  -- only here tokens are dropped, and the error that goes with them is excluded
  | badAssignment =>
    have hlast := (allWithin_append.mp hlimit).2 _ List.mem_cons_self
    cases hlast

/-- How the errors of a phrase are those of its trees, at a place. What a loop comes to has those of
what was read before it as well. -/
def Phrase.Tallies (site : SyntaxFault × Nat) : Phrase → Nat → List SyntaxError → Prop
  | expr _ tree, start, errors => countErrors site errors = countExcess site (tree.nodes start)
  | operands _ left result, start, errors | calls left result, start, errors =>
    ∀ first, start = first + left.leaves.length →
      countExcess site (result.nodes first) =
        countExcess site (left.nodes first) + countErrors site errors
  | arguments trees, start, errors =>
    countErrors site errors = countExcess site (Expr.nodesOfEach start trees) +
      (argumentExcess start trees).count site
  | moreArguments read trees, start, errors => ∀ first, start + 1 = first + Expr.spanOfEach read →
    countExcess site (Expr.nodesOfEach first trees) + (argumentExcess first trees).count site =
      countExcess site (Expr.nodesOfEach first read) + (argumentExcess first read).count site +
        countErrors site errors

theorem countExcess_join (site : SyntaxFault × Nat) (level : Level) (left : Expr)
    (operator : Token) (right : Expr) (first : Nat) :
    countExcess site ((level.join left operator right).nodes first) =
      countExcess site (left.nodes first) +
        countExcess site (right.nodes (first + left.leaves.length + 1)) := by
  cases level <;> simp [Level.join, Expr.nodes, Node.excess]

/-- Where the only errors are those of lists past the limit, there is one for each item past it. -/
theorem Spells.tallies {phrase : Phrase} (h : Spells phrase start ts errors)
    (hlimit : AllWithin (fun fault => fault.pastLimit) errors) (site : SyntaxFault × Nat) :
    phrase.Tallies site start errors := by
  induction h with
  | literal | name => rfl
  | noCalls | lastOperand | lastArgument => exact fun _ _ => rfl
  | noArguments => rfl
  | @grouping start opening closing ts inner errors _ _ _ ih =>
    have hinner : _ = countExcess site (inner.nodes (start + 1)) := ih hlimit
    simp [Phrase.Tallies, Expr.nodes, Node.excess, hinner]
  | @oneCall start opening paren ts us callee arguments result errors errors' _ ha _ _ iha ih =>
    obtain ⟨hbefore, hafter⟩ := allWithin_append.mp hlimit
    have hfills : (separated (Expr.leavesOfEach arguments)).length = ts.length := ha.fills hbefore
    have harguments := iha hbefore
    rintro first rfl
    -- the nodes of the call are those of its callee, its own excess and those of its arguments
    have hresult := ih hafter first (by rw [length_leaves_call]; omega)
    simp only [Phrase.Tallies, Expr.nodes, Node.excess, countExcess_cons, countExcess_append,
      countErrors_append] at harguments hresult ⊢
    omega
  | @call start ts us callee result errors errors' hc _ ihc ih
  | @binary start level ts us callee result errors errors' hc _ ihc ih =>
    obtain ⟨hbefore, hafter⟩ := allWithin_append.mp hlimit
    have hfills : callee.leaves.length = ts.length := hc.fills hbefore
    have hfirst : _ = countExcess site (callee.nodes start) := ihc hbefore
    have hresult := ih hafter start (by rw [hfills])
    simp only [Phrase.Tallies, countErrors_append]
    omega
  | @someArguments start ts us first trees errors errors' hf _ ihf ih =>
    obtain ⟨hbefore, hafter⟩ := allWithin_append.mp hlimit
    have hfills : first.leaves.length = ts.length := hf.fills hbefore
    have hone : Expr.spanOfEach [first] = first.leaves.length + 1 := rfl
    have hfirst : _ = countExcess site (first.nodes start) := ihf hbefore
    have hmore := ih hafter start (by rw [hone]; omega)
    have hnodes : Expr.nodesOfEach start [first] = first.nodes start := List.append_nil _
    have hexcess : (argumentExcess start [first]).count site = 0 := rfl
    rw [hnodes, hexcess] at hmore
    simp only [Phrase.Tallies, countErrors_append]
    omega
  -- the comma stands where what was read so far ends, so the argument begins right after that
  | @nextArgument start comma head ts us read tree trees errors errors' _ ht _ iht ih =>
    obtain ⟨hbefore, hafter⟩ := allWithin_append.mp hlimit
    obtain ⟨-, htree⟩ := allWithin_append.mp hbefore
    have hfills : tree.leaves.length = ts.length + 1 := ht.fills htree
    have hone : _ = countExcess site (tree.nodes (start + 1)) := iht htree
    intro first hstart
    have hmore := ih hafter first (by rw [Expr.spanOfEach_snoc]; omega)
    rw [Expr.nodesOfEach_snoc, argumentExcess_snoc first read tree head, ← hstart,
      countExcess_append, List.count_append] at hmore
    rw [countErrors_append, countErrors_append]
    change _ = _ + _ + (List.count site _ + _ + _)
    omega
  | unaryOfCall _ ih | operation _ ih => exact ih hlimit
  | @unary start operator ts right errors _ _ ih =>
    have hright : _ = countExcess site (right.nodes (start + 1)) := ih hlimit
    simp [Phrase.Tallies, Expr.nodes, Node.excess, hright]
  | @nextOperand start level operator ts us left right result errors errors' _ hr _ ihr ih =>
    obtain ⟨hbefore, hafter⟩ := allWithin_append.mp hlimit
    have hfills : right.leaves.length = ts.length := hr.fills hbefore
    have hright : _ = countExcess site (right.nodes (start + 1)) := ihr hbefore
    rintro first rfl
    have hresult := ih hafter first (by rw [length_leaves_join, hfills]; omega)
    rw [countExcess_join] at hresult
    rw [countErrors_append]
    omega
  | @assignment start equals ts us line name value errors errors' ht _ _ iht ih =>
    obtain ⟨hbefore, hafter⟩ := allWithin_append.mp hlimit
    have hfills : 1 = ts.length := ht.fills hbefore
    have htarget : _ = countExcess site ((Expr.name line name).nodes start) := iht hbefore
    have hvalue : _ = countExcess site (value.nodes (start + ts.length + 1)) := ih hafter
    have hname : countExcess site ((Expr.name line name).nodes start) = 0 := rfl
    rw [← hfills] at hvalue
    simp only [Phrase.Tallies, Expr.nodes, Node.excess, countExcess_cons, List.count_nil,
      countErrors_append]
    rw [htarget, hname, hvalue]
  | badAssignment =>
    have hlast := (allWithin_append.mp hlimit).2 _ List.mem_cons_self
    cases hlast

end Expressions

section Statements

variable {start : Nat} {ts : List Token} {errors : List SyntaxError}

theorem SpellsMoreNames.length_eq {read names : List Token}
    (h : SpellsMoreNames read names start ts errors) :
    2 * names.length = 2 * read.length + ts.length := by
  induction h with
  | last => rfl
  | next _ _ _ ih =>
    simp only [List.length_append, List.length_cons, List.length_nil] at ih ⊢
    omega

theorem SpellsMoreNames.sites_eq {read names : List Token}
    (h : SpellsMoreNames read names start ts errors) {first : Nat}
    (hstart : start + 1 = first + 2 * read.length) :
    parameterExcess first names = parameterExcess first read ++ errors.map SyntaxError.site := by
  induction h with
  | last => exact (List.append_nil _).symm
  | @next start comma name ts read names errors _ _ _ ih =>
    have hmore := ih (by rw [List.length_append, List.length_singleton]; omega)
    rw [hmore, parameterExcess_snoc, List.map_append, ← hstart, List.append_assoc]

/-- The names of parameters, and of those past the limit the places. -/
theorem SpellsNames.sites_eq {names : List Token} (h : SpellsNames names start ts errors) :
    errors.map SyntaxError.site = parameterExcess start names := by
  cases h with
  | none => rfl
  | some _ h => exact (h.sites_eq rfl).symm

theorem length_leavesOfNames (name : Token) (rest : List Token) :
    (leavesOfNames (name :: rest)).length + 1 = 2 * (name :: rest).length := by
  have hsum := length_separated [⟨.kept name, []⟩] (rest.map fun name => [⟨.kept name, []⟩])
  have hrest : ((rest.map fun name => [(⟨.kept name, []⟩ : Leaf)]).map
      fun part => part.length + 1).sum = rest.length * 2 := by
    simp [Function.comp_def]
  rw [leavesOfNames, List.map_cons, hsum, List.map_cons, List.sum_cons, hrest]
  simp only [List.length_cons, List.length_nil]
  omega

theorem SpellsNames.fills {names : List Token} (h : SpellsNames names start ts errors) :
    (leavesOfNames names).length = ts.length := by
  cases h with
  | none => rfl
  | some _ h =>
    have hlength := h.length_eq
    rw [List.length_singleton] at hlength
    cases names with
    | nil =>
      rw [List.length_nil] at hlength
      omega
    | cons first rest =>
      have hleaves := length_leavesOfNames first rest
      rw [List.length_cons]
      omega

def Clause.Fills : Clause → List Token → Prop
  | statement tree, ts | declaration tree, ts => tree.leaves.length = ts.length
  | sequence trees, ts | body trees, ts => (Stmt.leavesOfAll trees).length = ts.length

theorem Forms.fills {clause : Clause} {skipped : List Span}
    (h : Forms .none clause start ts errors skipped)
    (hlimit : AllWithin (fun fault => fault.pastLimit) errors) : clause.Fills ts := by
  induction h with
  | @expression start ts semicolon value errors hv _ =>
    have hvalue : value.leaves.length = ts.length := hv.fills hlimit
    simp [Clause.Fills, Stmt.leaves, length_headed, hvalue]
  | @print start keyword ts semicolon value errors _ hv _ =>
    have hvalue : value.leaves.length = ts.length := hv.fills hlimit
    simp [Clause.Fills, Stmt.leaves, hvalue]
  | @ifThen start keyword opening ts closing us condition thenBranch errors errors' skipped
      _ _ hc _ _ ih
  | @whileLoop start keyword opening ts closing us condition thenBranch errors errors' skipped
      _ _ hc _ _ ih =>
    obtain ⟨hbefore, hafter⟩ := allWithin_append.mp hlimit
    -- the errors of the condition come before those of the branch
    have hcondition : condition.leaves.length = ts.length := hc.fills hbefore
    have hbranch : thenBranch.leaves.length = us.length := ih hafter
    simp [Clause.Fills, Stmt.leaves, hcondition, hbranch]
  | @ifElse start keyword opening ts closing us word vs condition thenBranch elseBranch errors
      errors' errors'' skipped skipped' _ _ hc _ _ _ _ _ iht ihe =>
    obtain ⟨hbefore, hafter⟩ := allWithin_append.mp hlimit
    obtain ⟨hthen, helse⟩ := allWithin_append.mp hafter
    have hcondition : condition.leaves.length = ts.length := hc.fills hbefore
    have hthenBranch : thenBranch.leaves.length = us.length := iht hthen
    have helseBranch : elseBranch.leaves.length = vs.length := ihe helse
    simp [Clause.Fills, Stmt.leaves, hcondition, hthenBranch, helseBranch]
  | @block start opening ts closing trees errors skipped _ _ _ ih =>
    have hbody : (Stmt.leavesOfAll trees).length = ts.length := ih hlimit
    simp [Clause.Fills, Stmt.leaves, hbody]
  | @function start keyword name opening ts closing brace us ending params trees errors errors'
      skipped _ _ _ hp _ _ _ _ ih =>
    have hbody : (Stmt.leavesOfAll trees).length = us.length :=
      ih (allWithin_append.mp hlimit).2
    simp [Clause.Fills, Stmt.leaves, hp.fills, hbody]
  | @letBinding start keyword name equals ts semicolon value errors _ _ _ hv _ =>
    have hvalue : value.leaves.length = ts.length := hv.fills hlimit
    simp [Clause.Fills, Stmt.leaves, hvalue]
  | statement _ ih | body _ ih => exact ih hlimit
  | nil => rfl
  | @cons start ts us tree trees errors errors' skipped skipped' _ _ ih ihs =>
    obtain ⟨hbefore, hafter⟩ := allWithin_append.mp hlimit
    have htree : tree.leaves.length = ts.length := ih hbefore
    have htrees : (Stmt.leavesOfAll trees).length = us.length := ihs hafter
    simp [Clause.Fills, Stmt.leavesOfAll, htree, htrees]
  | skip hp => exact hp.elim
  | bodyThen _ hp => exact hp.elim

def Clause.Tallies (site : SyntaxFault × Nat) : Clause → Nat → List SyntaxError → Prop
  | statement tree, start, errors | declaration tree, start, errors =>
    countErrors site errors = countExcess site (tree.nodes start)
  | sequence trees, start, errors | body trees, start, errors =>
    countErrors site errors = countExcess site (Stmt.nodesOfAll start trees)

/-- Where the only errors are those of lists past the limit, there is one for each item past it. -/
theorem Forms.tallies {clause : Clause} {skipped : List Span}
    (h : Forms .none clause start ts errors skipped)
    (hlimit : AllWithin (fun fault => fault.pastLimit) errors) (site : SyntaxFault × Nat) :
    clause.Tallies site start errors := by
  induction h with
  | expression hv _ | print _ hv _ | letBinding _ _ _ hv _ =>
    have hvalue : _ = countExcess site _ := hv.tallies hlimit site
    simpa [Clause.Tallies, Stmt.nodes, Node.excess] using hvalue
  | @ifThen start keyword opening ts closing us condition thenBranch errors errors' skipped
      _ _ hc _ _ ih
  | @whileLoop start keyword opening ts closing us condition thenBranch errors errors' skipped
      _ _ hc _ _ ih =>
    obtain ⟨hbefore, hafter⟩ := allWithin_append.mp hlimit
    have hfills : condition.leaves.length = ts.length := hc.fills hbefore
    have hcondition : _ = countExcess site _ := hc.tallies hbefore site
    have hbranch : _ = countExcess site _ := ih hafter
    simp [Clause.Tallies, Stmt.nodes, Node.excess, hfills, hcondition, hbranch]
  | @ifElse start keyword opening ts closing us word vs condition thenBranch elseBranch errors
      errors' errors'' skipped skipped' _ _ hc _ ht _ _ _ iht ihe =>
    obtain ⟨hbefore, hafter⟩ := allWithin_append.mp hlimit
    obtain ⟨hthen, helse⟩ := allWithin_append.mp hafter
    have hfills : condition.leaves.length = ts.length := hc.fills hbefore
    have hfills' : thenBranch.leaves.length = us.length := ht.fills hthen
    have hcondition : _ = countExcess site _ := hc.tallies hbefore site
    have hthenBranch : _ = countExcess site _ := iht hthen
    have helseBranch : _ = countExcess site _ := ihe helse
    simp [Clause.Tallies, Stmt.nodes, Node.excess, hfills, hfills', hcondition, hthenBranch,
      helseBranch]
  | block _ _ _ ih =>
    have hbody : _ = countExcess site _ := ih hlimit
    simpa [Clause.Tallies, Stmt.nodes, Node.excess] using hbody
  | @function start keyword name opening ts closing brace us ending params trees errors errors'
      skipped _ _ _ hp _ _ _ _ ih =>
    have hnames : countErrors site errors = (parameterExcess (start + 3) params).count site := by
      rw [countErrors, hp.sites_eq]
    have hbody : _ = countExcess site _ := ih (allWithin_append.mp hlimit).2
    simp [Clause.Tallies, Stmt.nodes, Node.excess, hp.fills, hnames, hbody, Nat.add_assoc]
  | statement _ ih | body _ ih => exact ih hlimit
  | nil => rfl
  | @cons start ts us tree trees errors errors' skipped skipped' h _ ih ihs =>
    obtain ⟨hbefore, hafter⟩ := allWithin_append.mp hlimit
    have hfills : tree.leaves.length = ts.length := h.fills hbefore
    have htree : _ = countExcess site _ := ih hbefore
    have htrees : _ = countExcess site _ := ihs hafter
    simp [Clause.Tallies, Stmt.nodesOfAll, hfills, htree, htrees]
  | skip hp => exact hp.elim
  | bodyThen _ hp => exact hp.elim

/-- The errors are at the places of the items past the limit, one for each of them. -/
theorem Forms.sites_perm {trees : List Stmt} {skipped : List Span}
    (h : Forms .none (.sequence trees) start ts errors skipped)
    (hlimit : AllWithin (fun fault => fault.pastLimit) errors) :
    (errors.map SyntaxError.site).Perm
      ((Stmt.nodesOfAll start trees).flatMap fun entry => entry.2.excess entry.1) :=
  List.perm_iff_count.mpr (h.tallies hlimit)

end Statements

end Grammar

end ScriptLang
