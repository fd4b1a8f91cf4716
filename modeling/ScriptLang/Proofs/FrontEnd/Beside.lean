import ScriptLang.Proofs.FrontEnd.Saved

namespace ScriptLang

namespace Path

/-- The directory that a path says its file is in: all up to the last slash, without the slashes at
the end unless there is nothing else. -/
def folderOf (text : List Char) : List Char :=
  let front := text.reverse.dropWhile (· ≠ '/')
  if front.all (· = '/') then front.reverse else (front.dropWhile (· = '/')).reverse

section Resolve

theorem not_mem_splitSlashes (text : List Char) : ∀ part ∈ splitSlashes text, '/' ∉ part := by
  induction text with
  | nil => simp [splitSlashes]
  | cons c rest ih =>
    rw [splitSlashes]
    split
    case isTrue =>
      intro part hmem
      obtain rfl | hmem := List.mem_cons.mp hmem
      · exact List.not_mem_nil
      · exact ih part hmem
    case isFalse hc =>
      have hne : '/' ≠ c := fun h => hc h.symm
      split
      case h_1 => simpa using hne
      case h_2 first parts hparts =>
        rw [hparts] at ih
        intro part hmem
        obtain rfl | hmem := List.mem_cons.mp hmem
        · simpa [hne] using ih first List.mem_cons_self
        · exact ih part (List.mem_cons_of_mem _ hmem)

theorem mem_of_mem_enter {parts : List (List Char)} {part other : List Char}
    (h : other ∈ enter parts part) : other ∈ parts ∨ other = part := by
  unfold enter at h
  split at h
  case isTrue => exact Or.inl h
  case isFalse =>
    split at h
    case isTrue => exact Or.inl (List.mem_of_mem_dropLast h)
    case isFalse => simpa using h

theorem mem_of_mem_foldl_enter {entered parts : List (List Char)} {part : List Char}
    (h : part ∈ parts.foldl enter entered) : part ∈ entered ∨ part ∈ parts := by
  induction parts generalizing entered with
  | nil => exact Or.inl h
  | cons first parts ih =>
    obtain h | h := ih h
    · obtain h | rfl := mem_of_mem_enter h
      · exact Or.inl h
      · exact Or.inr List.mem_cons_self
    · exact Or.inr (List.mem_cons_of_mem _ h)

/-- What is left of a path text when it is resolved are stretches between its slashes. -/
theorem not_mem_parts_resolve (directory text : String) :
    ∀ part ∈ (resolve directory text).parts, '/' ∉ part := by
  intro part hmem
  obtain hnil | hmem := mem_of_mem_foldl_enter hmem
  · cases hnil
  · exact not_mem_splitSlashes _ part hmem

end Resolve

section Folder

variable {name : List Char}

def front (path : Path) : List Char :=
  path.root ++ path.parts.dropLast.flatMap (· ++ ['/'])

def last (path : Path) : List Char := path.parts.getLast?.getD []

theorem intercalate_concat (parts : List (List Char)) (name : List Char) :
    ['/'].intercalate (parts ++ [name]) = parts.flatMap (· ++ ['/']) ++ name := by
  induction parts with
  | nil => exact List.append_nil name
  | cons part parts ih =>
    have hne : parts ++ [name] ≠ [] := by simp
    rw [List.cons_append, List.intercalate_cons_of_ne_nil hne, ih, List.flatMap_cons]
    simp

theorem chars_concat (root : List Char) (parts : List (List Char)) (name : List Char) :
    (Path.mk root (parts ++ [name])).chars = root ++ parts.flatMap (· ++ ['/']) ++ name := by
  rw [chars, intercalate_concat, List.append_assoc]

theorem chars_eq (path : Path) : path.chars = path.front ++ path.last := by
  obtain ⟨root, parts⟩ := path
  obtain rfl | ⟨parts, name, rfl⟩ := parts.eq_nil_or_concat'
  · simp [chars, front, last]
  · rw [chars_concat]
    simp [front, last]

theorem chars_dropExtension (path : Path) :
    path.dropExtension.chars = path.front ++ stem path.last := by
  obtain ⟨root, parts⟩ := path
  obtain rfl | ⟨parts, name, rfl⟩ := parts.eq_nil_or_concat'
  · simp [dropExtension, chars, front, last, stem]
  · unfold dropExtension
    rw [List.getLast?_concat]
    simp only [List.dropLast_concat]
    rw [chars_concat]
    simp [front, last]

theorem folderOf_append (before : List Char) (h : '/' ∉ name) :
    folderOf (before ++ name) = folderOf before := by
  have hskip : ∀ c ∈ name.reverse, decide (c ≠ '/') = true := by
    intro c hmem
    apply decide_eq_true
    rintro rfl
    exact h (List.mem_reverse.mp hmem)
  unfold folderOf
  rw [List.reverse_append, List.dropWhile_append_of_pos hskip]

/-- A name goes on behind its stem with a dot and no other, if it goes on at all. -/
theorem stem_cases (name : List Char) : stem name = name ∨
    ∃ extension, '.' ∉ extension ∧ name = stem name ++ '.' :: extension := by
  have hsplit := List.takeWhile_append_dropWhile (p := (· ≠ '.')) (l := name.reverse)
  have hdot := Segment.not_mem_takeWhile '.' name.reverse
  unfold stem
  generalize name.reverse.takeWhile (· ≠ '.') = extension at hsplit hdot ⊢
  dsimp only
  split
  case isFalse => exact Or.inl rfl
  case isTrue h =>
    refine Or.inr ⟨extension.reverse, fun hmem => hdot (List.mem_reverse.mp hmem), ?_⟩
    cases hrest : name.reverse.dropWhile (· ≠ '.') with
    | nil =>
      have hlength := congrArg List.length hsplit
      rw [hrest, List.append_nil, List.length_reverse] at hlength
      omega
    | cons c rest =>
      -- what is behind the last dot was taken from the end, so the dot is next
      obtain rfl : c = '.' := by
        have hhead := List.head?_dropWhile_not (· ≠ '.') name.reverse
        rw [hrest] at hhead
        simpa using hhead
      have hname : name = rest.reverse ++ '.' :: extension.reverse := by
        rw [hrest] at hsplit
        have hreverse := congrArg List.reverse hsplit
        rw [List.reverse_reverse] at hreverse
        rw [← hreverse]
        simp
      have hlength : name.length - (extension.length + 1) = rest.reverse.length := by
        rw [hname]
        simp
      have htake : name.take rest.reverse.length = rest.reverse := by rw [hname, List.take_left]
      rw [hlength, htake]
      exact hname

theorem not_mem_stem {c : Char} (h : c ∉ name) : c ∉ stem name := by
  obtain hstem | ⟨extension, -, hstem⟩ := stem_cases name
  · rwa [hstem]
  · rw [hstem] at h
    exact fun hmem => h (List.mem_append_left _ hmem)

/-- A name is no longer the same with its extension replaced by two. -/
theorem stem_append_ne (first second : List Char) :
    stem name ++ '.' :: (first ++ '.' :: second) ≠ name := by
  intro hsame
  -- the extension that was left out had one dot, and what replaces it has two
  obtain hstem | ⟨extension, hdot, hstem⟩ := stem_cases name
  · have hlength := congrArg List.length hsame
    rw [hstem, List.length_append, List.length_cons] at hlength
    omega
  · obtain rfl := (List.cons.inj (List.append_cancel_left (hsame.trans hstem))).2
    exact hdot (List.mem_append_right _ List.mem_cons_self)

end Folder

end Path

section Files

variable {order : Order}

theorem Path.not_mem_last (directory text : String) : '/' ∉ (resolve directory text).last := by
  unfold last
  cases hlast : (resolve directory text).parts.getLast? with
  | none => exact List.not_mem_nil
  | some part => exact not_mem_parts_resolve directory text part (List.mem_of_getLast? hlast)

theorem Order.savePath_eq {path : Path} (h : order.path = some path) (stage : Stage) :
    (order.savePath stage).toList =
      path.front ++ (Path.stem path.last ++ '.' :: (stage.name.toList ++ ".json".toList)) := by
  unfold Order.savePath
  rw [h]
  simp [Path.text, Path.chars_dropExtension]

theorem savePath_beside {path : Path} (h : order.path = some path) (hlast : '/' ∉ path.last)
    (stage : Stage) : order.savePath stage ≠ path.text ∧
      Path.folderOf (order.savePath stage).toList = Path.folderOf path.text.toList := by
  have htext : path.text.toList = path.front ++ path.last := by
    rw [Path.text, String.toList_ofList, Path.chars_eq]
  have hjson : ".json".toList = '.' :: "json".toList := by decide
  constructor
  · intro hsame
    have hchars := congrArg String.toList hsame
    rw [order.savePath_eq h, htext, hjson] at hchars
    exact Path.stem_append_ne _ _ (List.append_cancel_left hchars)
  · have hname : '/' ∉ Path.stem path.last ++ '.' :: (stage.name.toList ++ ".json".toList) := by
      have hstage : '/' ∉ '.' :: (stage.name.toList ++ ".json".toList) := by
        cases stage <;> decide
      exact fun hmem => (List.mem_append.mp hmem).elim (Path.not_mem_stem hlast) hstage
    rw [order.savePath_eq h, htext, Path.folderOf_append _ hname, Path.folderOf_append _ hlast]

theorem savePath_injective (order : Order) {stage other : Stage}
    (h : order.savePath stage = order.savePath other) : stage = other := by
  have hchars := congrArg String.toList h
  simp only [Order.savePath, String.toList_append, List.append_assoc,
    List.append_cancel_left_eq] at hchars
  cases stage <;> cases other
  all_goals first | rfl | exact absurd hchars (by decide)

theorem nodup_saved (order : Order) : (order.run.saved.map Prod.fst).Nodup := by
  obtain ⟨trees, -, hartifacts, -⟩ := order.exists_artifacts_run
  have hstages : (order.run.artifacts.map Prod.fst).Nodup := by
    rw [hartifacts]
    cases order.stopAfterTokens <;> simp
  have hpaths : order.run.saved.map Prod.fst =
      (order.run.dumped.map Prod.fst).map order.savePath := by
    rw [FrontEndRun.saved, List.map_map, List.map_map]
    rfl
  rw [hpaths]
  exact (hstages.sublist (List.filter_sublist.map _)).map fun _ _ => savePath_injective order

theorem path_ofNames {directory file : String} (h : file ≠ "") (source : String)
    (dump : List String) (last : Option String) :
    (Order.ofNames directory source (some file) dump last).path =
      some (Path.resolve directory file) := by
  have hgiven : Path.nonempty? (some file) = some file := by
    unfold Path.nonempty?
    simpa using h
  change (Path.nonempty? (some file)).map _ = _
  rw [hgiven, Option.map_some]

/-- Whatever the file of a script is called, the artifacts of the stages are saved in its directory,
each under a path of its own, and none of them under the path of the script. -/
theorem saved_beside_script (directory : String) {file : String} (hfile : file ≠ "")
    (source : String) (dump : List String) (last : Option String) :
    let order := Order.ofNames directory source (some file) dump last
    let script := Path.resolve directory file
    order.savePath .tokens ≠ order.savePath .ast ∧
    (∀ stage, order.savePath stage ≠ script.text ∧
      Path.folderOf (order.savePath stage).toList = Path.folderOf script.text.toList) ∧
    (order.run.saved.map Prod.fst).Nodup ∧
    ∀ saved ∈ order.run.saved, saved.1 ≠ script.text ∧
      Path.folderOf saved.1.toList = Path.folderOf script.text.toList := by
  intro order script
  have hpath : order.path = some script := path_ofNames hfile source dump last
  have hbeside := savePath_beside hpath (Path.not_mem_last directory file)
  have hstages (hsame : order.savePath .tokens = order.savePath .ast) : False := by
    cases savePath_injective order hsame
  refine ⟨hstages, hbeside, nodup_saved order, ?_⟩
  intro saved hmem
  obtain ⟨stage, -, artifact, -, rfl⟩ := mem_saved_iff.mp hmem
  exact hbeside stage

/-- A hidden file that is called like an artifact, in a directory with a dot. -/
theorem hiddenArtifact_beside :
    let order := Order.ofNames "/home" "" (some "../x.y/./.tokens.json") ["tokens"] none
    order.savePath .tokens = "/x.y/.tokens.tokens.json" ∧
    order.savePath .tokens ≠ "/x.y/.tokens.json" ∧
    Path.folderOf (order.savePath .tokens).toList = "/x.y".toList := by
  intro order
  have hfile : "../x.y/./.tokens.json" ≠ "" := by decide
  obtain ⟨-, hbeside, -⟩ := saved_beside_script "/home" hfile "" ["tokens"] none
  obtain ⟨hne, hfolder⟩ := hbeside .tokens
  have htext : (Path.resolve "/home" "../x.y/./.tokens.json").text = "/x.y/.tokens.json" := by
    decide
  have hscript : Path.folderOf "/x.y/.tokens.json".toList = "/x.y".toList := by decide
  rw [htext] at hne hfolder
  exact ⟨by decide, hne, hfolder.trans hscript⟩

end Files

end ScriptLang
