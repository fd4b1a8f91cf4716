import ScriptLang.Syntax.Prefix

namespace ScriptLang.Node

variable [Host] {nodes : List Node} {text : String} {error : Diagnostic}

theorem print_cases (node : Node) : node.print = .ok node.prefixForm ∨
    Host.hasRoom node = false ∧ node.print = .error node.tooDeep := by
  unfold print
  cases h : Host.hasRoom node with
  | true => exact Or.inl rfl
  | false => exact Or.inr ⟨rfl, rfl⟩

theorem mapM_print_cases (nodes : List Node) :
    nodes.mapM print = .ok (nodes.map prefixForm) ∨
      ∃ node ∈ nodes, Host.hasRoom node = false ∧ nodes.mapM print = .error node.tooDeep := by
  induction nodes with
  | nil => exact Or.inl rfl
  | cons node nodes ih =>
    rw [List.mapM_cons]
    obtain hprint | ⟨hdeep, hprint⟩ := node.print_cases
    · obtain hrest | ⟨other, hmem, hdeep, hrest⟩ := ih
      · rw [hprint, hrest]
        exact Or.inl rfl
      · rw [hprint, hrest]
        exact Or.inr ⟨other, List.mem_cons_of_mem _ hmem, hdeep, rfl⟩
    · rw [hprint]
      exact Or.inr ⟨node, List.mem_cons_self, hdeep, rfl⟩

theorem printAll_cases (nodes : List Node) :
    printAll nodes = .ok ("\n".intercalate (nodes.map prefixForm)) ∨
      ∃ node ∈ nodes, Host.hasRoom node = false ∧ printAll nodes = .error node.tooDeep := by
  unfold printAll
  obtain h | ⟨node, hmem, hdeep, h⟩ := mapM_print_cases nodes
  · rw [h]
    exact Or.inl rfl
  · rw [h]
    exact Or.inr ⟨node, hmem, hdeep, rfl⟩

theorem print_eq_ok {node : Node} (h : node.print = .ok text) : text = node.prefixForm := by
  obtain hprint | ⟨-, hprint⟩ := node.print_cases
  · exact Except.ok.inj (h.symm.trans hprint)
  · cases h.symm.trans hprint

theorem printAll_eq_ok (h : printAll nodes = .ok text) :
    text = "\n".intercalate (nodes.map prefixForm) := by
  obtain hprint | ⟨node, -, -, hprint⟩ := printAll_cases nodes
  · exact Except.ok.inj (h.symm.trans hprint)
  · cases h.symm.trans hprint

end ScriptLang.Node
