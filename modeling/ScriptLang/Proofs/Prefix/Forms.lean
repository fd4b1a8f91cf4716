import ScriptLang.Syntax.Prefix
import Mathlib.Data.List.Basic

namespace ScriptLang

inductive Form where
  | word (text : List Char)
  | list (items : List Form)
  | equals (name : List Char) (value : Form)

namespace Form

def delimiters : List Char := [' ', '\n', '(', ')']

/-- A word has characters and no delimiter among them, and it is not just an equals sign. -/
def IsWord (text : List Char) : Prop := text ≠ [] ∧ text ≠ ['='] ∧ ∀ c ∈ delimiters, c ∉ text

instance (text : List Char) : Decidable (IsWord text) :=
  haveI := List.decidableBAll (fun c => c ∉ text) delimiters
  inferInstanceAs (Decidable (_ ∧ _ ∧ _))

inductive Plain : Form → Prop
  | word {text : List Char} (h : IsWord text) : Plain (word text)
  | list {items : List Form} (h : ∀ item ∈ items, Plain item) : Plain (list items)
  | equals {name : List Char} {value : Form} (hn : IsWord name) (hv : Plain value) :
    Plain (equals name value)

theorem Plain.headed {head : List Char} {items : List Form} (hh : IsWord head)
    (hi : ∀ item ∈ items, item.Plain) : (Form.list (Form.word head :: items)).Plain :=
  .list (List.forall_mem_cons.mpr ⟨.word hh, hi⟩)

mutual

def text : Form → List Char
  | word text => text
  | list items => '(' :: (joined ' ' items ++ [')'])
  | equals name value => '=' :: ' ' :: (name ++ ' ' :: value.text)

def joined (separator : Char) : List Form → List Char
  | [] => []
  | first :: rest => first.text ++ behind separator rest

def behind (separator : Char) : List Form → List Char
  | [] => []
  | next :: rest => separator :: (next.text ++ behind separator rest)

end

section Spelling

variable {separator : Char}

theorem joined_cons_eq (first : Form) (rest : List Form) :
    joined separator (first :: rest) = [separator].intercalate ((first :: rest).map text) := by
  induction rest generalizing first with
  | nil => simp [joined, behind]
  | cons next rest ih =>
    have hrest := ih next
    simp only [joined, List.map_cons] at hrest
    simp only [joined, behind, List.map_cons, List.intercalate_cons_cons, hrest,
      List.append_assoc, List.singleton_append]

theorem joined_eq (forms : List Form) :
    joined separator forms = [separator].intercalate (forms.map text) := by
  cases forms with
  | nil => rfl
  | cons first rest => exact joined_cons_eq first rest

theorem toList_intercalate {mark : String} (hm : mark.toList = [separator]) {parts : List String}
    {forms : List Form} (h : parts.map String.toList = forms.map text) :
    (mark.intercalate parts).toList = joined separator forms := by
  rw [String.toList_intercalate, h, joined_eq, hm]

theorem toList_parenthesize {parts : List String} {forms : List Form}
    (h : parts.map String.toList = forms.map text) :
    (parenthesize parts).toList = (list forms).text := by
  have hblank : " ".toList = [' '] := by decide
  have hleft : "(".toList = ['('] := by decide
  have hright : ")".toList = [')'] := by decide
  unfold parenthesize
  rw [String.toList_append, String.toList_append, toList_intercalate hblank h, hleft, hright]
  rfl

end Spelling

section Reading

variable {word word' rest rest' : List Char}

/-- What may stand behind a form: nothing or a delimiter. -/
def Ends (rest : List Char) : Prop := ∀ c ∈ rest.head?, c ∈ delimiters

/-- What may stand behind the last of several forms. -/
def Closes (rest : List Char) : Prop := ∀ c ∈ rest.head?, c = ')'

theorem IsWord.takeWhile (hw : IsWord word) (hr : Ends rest) :
    (word ++ rest).takeWhile (· ∉ delimiters) = word := by
  have hkept : ∀ c ∈ word, decide (c ∉ delimiters) = true :=
    fun c hc => decide_eq_true fun hd => hw.2.2 c hd hc
  rw [List.takeWhile_append_of_pos hkept]
  cases rest with
  | nil => exact List.append_nil _
  | cons c rest =>
    rw [List.takeWhile_cons_of_neg (by simpa using hr c rfl), List.append_nil]

theorem IsWord.append_inj (hw : IsWord word) (hw' : IsWord word') (hr : Ends rest)
    (hr' : Ends rest') (heq : word ++ rest = word' ++ rest') : word = word' ∧ rest = rest' := by
  have hword : word = word' := by rw [← hw.takeWhile hr, heq, hw'.takeWhile hr']
  rw [hword] at heq
  exact ⟨hword, List.append_cancel_left heq⟩

theorem IsWord.append_ne_paren (hw : IsWord word) (more : List Char) :
    word ++ rest ≠ '(' :: more := by
  cases word with
  | nil => exact absurd rfl hw.1
  | cons c word =>
    intro heq
    rw [(List.cons.inj heq).1] at hw
    exact hw.2.2 '(' (by decide) List.mem_cons_self

theorem IsWord.append_ne_equals (hw : IsWord word) (more : List Char) :
    word ++ rest ≠ '=' :: ' ' :: more := by
  obtain ⟨hne, hequals, hnone⟩ := hw
  match word with
  | [] => exact absurd rfl hne
  | [c] =>
    intro heq
    rw [(List.cons.inj heq).1] at hequals
    exact hequals rfl
  | c :: d :: word =>
    intro heq
    rw [(List.cons.inj (List.cons.inj heq).2).1] at hnone
    exact hnone ' ' (by decide) (List.mem_cons_of_mem _ List.mem_cons_self)

theorem Plain.begins {form : Form} (h : form.Plain) :
    ∃ c more, form.text = c :: more ∧ c ≠ ')' := by
  cases h with
  | @word text h =>
    cases text with
    | nil => exact absurd rfl h.1
    | cons c more =>
      refine ⟨c, more, rfl, fun hc => ?_⟩
      rw [hc] at h
      exact h.2.2 ')' (by decide) List.mem_cons_self
  | list => exact ⟨'(', _, rfl, by decide⟩
  | equals => exact ⟨'=', _, rfl, by decide⟩

theorem Plain.not_closes {form : Form} (h : form.Plain) (more : List Char) :
    ¬ Closes (form.text ++ more) := by
  obtain ⟨c, text, htext, hc⟩ := h.begins
  rw [htext]
  exact fun hcloses => hc (hcloses c rfl)

/-- Wherever a form may end, its text tells what it is and what stands behind it. -/
def Determined (form : Form) : Prop :=
  ∀ {form' : Form} {rest rest' : List Char}, form'.Plain → Ends rest → Ends rest' →
    form.text ++ rest = form'.text ++ rest' → form = form' ∧ rest = rest'

section Lists

variable {separator : Char} {items items' : List Form}

theorem ends_behind (hs : separator ∈ delimiters) (items : List Form) (hr : Closes rest) :
    Ends (behind separator items ++ rest) := by
  cases items with
  | nil =>
    intro c hc
    rw [hr c hc]
    decide
  | cons next items =>
    rintro c ⟨⟩
    exact hs

theorem behind_inj (hs : separator ∈ delimiters) (hparen : separator ≠ ')')
    (h : ∀ item ∈ items, item.Determined) (h' : ∀ item ∈ items', item.Plain) (hr : Closes rest)
    (hr' : Closes rest') (heq : behind separator items ++ rest = behind separator items' ++ rest') :
    items = items' ∧ rest = rest' := by
  -- the two lists end at the same place, since what closes them is no separator
  induction items generalizing items' with
  | nil =>
    cases items' with
    | nil => exact ⟨rfl, heq⟩
    | cons next' items' =>
      change rest = separator :: _ at heq
      rw [heq] at hr
      exact absurd (hr separator rfl) hparen
  | cons next items ih =>
    obtain ⟨hnext, hitems⟩ := List.forall_mem_cons.mp h
    cases items' with
    | nil =>
      change separator :: _ = rest' at heq
      rw [← heq] at hr'
      exact absurd (hr' separator rfl) hparen
    | cons next' items' =>
      obtain ⟨hnext', hitems'⟩ := List.forall_mem_cons.mp h'
      simp only [behind, List.cons_append, List.append_assoc, List.cons.injEq, true_and] at heq
      obtain ⟨hform, hrest⟩ :=
        hnext hnext' (ends_behind hs items hr) (ends_behind hs items' hr') heq
      obtain ⟨hforms, hrest⟩ := ih hitems hitems' hrest
      exact ⟨by rw [hform, hforms], hrest⟩

theorem joined_inj (hs : separator ∈ delimiters) (hparen : separator ≠ ')')
    (h : ∀ item ∈ items, item.Plain ∧ item.Determined) (h' : ∀ item ∈ items', item.Plain)
    (hr : Closes rest) (hr' : Closes rest')
    (heq : joined separator items ++ rest = joined separator items' ++ rest') :
    items = items' ∧ rest = rest' := by
  cases items with
  | nil =>
    cases items' with
    | nil => exact ⟨rfl, heq⟩
    | cons first' items' =>
      simp only [joined, List.nil_append, List.append_assoc] at heq
      rw [heq] at hr
      exact absurd hr ((h' first' List.mem_cons_self).not_closes _)
  | cons first items =>
    obtain ⟨⟨hplain, hfirst⟩, hitems⟩ := List.forall_mem_cons.mp h
    cases items' with
    | nil =>
      simp only [joined, List.nil_append, List.append_assoc] at heq
      rw [← heq] at hr'
      exact absurd hr' (hplain.not_closes _)
    | cons first' items' =>
      obtain ⟨hfirst', hitems'⟩ := List.forall_mem_cons.mp h'
      simp only [joined, List.append_assoc] at heq
      obtain ⟨hform, hrest⟩ :=
        hfirst hfirst' (ends_behind hs items hr) (ends_behind hs items' hr') heq
      obtain ⟨hforms, hrest⟩ :=
        behind_inj hs hparen (fun item hi => (hitems item hi).2) hitems' hr hr' hrest
      exact ⟨by rw [hform, hforms], hrest⟩

end Lists

theorem Plain.determined {form : Form} (h : form.Plain) : form.Determined := by
  -- the first two characters tell the kind, and only a word needs what stands behind it to end
  induction h with
  | word h =>
    intro form' rest rest' h' hr hr' heq
    cases h' with
    | word h' =>
      obtain ⟨hword, hrest⟩ := h.append_inj h' hr hr' heq
      exact ⟨by rw [hword], hrest⟩
    | list => exact absurd heq (h.append_ne_paren _)
    | equals => exact absurd heq (h.append_ne_equals _)
  | @list items h ih =>
    intro form' rest rest' h' hr hr' heq
    cases h' with
    | word h' => exact absurd heq.symm (h'.append_ne_paren _)
    | @list items' h' =>
      simp only [text, List.cons_append, List.append_assoc, List.nil_append, List.cons.injEq,
        true_and] at heq
      have hcloses (rest : List Char) : Closes (')' :: rest) := by rintro c ⟨⟩; rfl
      obtain ⟨hitems, hrest⟩ := joined_inj (by decide) (by decide)
        (fun item hi => ⟨h item hi, ih item hi⟩) h' (hcloses rest) (hcloses rest') heq
      exact ⟨by rw [hitems], (List.cons.inj hrest).2⟩
    | equals => exact absurd (List.cons.inj heq).1 (by decide)
  | @equals name value hn hv ih =>
    intro form' rest rest' h' hr hr' heq
    cases h' with
    | word h' => exact absurd heq.symm (h'.append_ne_equals _)
    | list => exact absurd (List.cons.inj heq).1 (by decide)
    | @equals name' value' hn' hv' =>
      simp only [text, List.cons_append, List.append_assoc, List.cons.injEq, true_and] at heq
      have hends (rest : List Char) : Ends (' ' :: rest) := by rintro c ⟨⟩; decide
      obtain ⟨hname, hrest⟩ := hn.append_inj hn' (hends _) (hends _) heq
      obtain ⟨hvalue, hrest⟩ := ih hv' hr hr' (List.cons.inj hrest).2
      exact ⟨by rw [hname, hvalue], hrest⟩

theorem text_injective {form form' : Form} (h : form.Plain) (h' : form'.Plain)
    (heq : form.text = form'.text) : form = form' := by
  have hends : Ends [] := nofun
  have htext : form.text ++ [] = form'.text ++ [] := by rw [heq]
  exact (h.determined h' hends hends htext).1

/-- Forms with separators between them are told from the whole text. -/
theorem joined_injective {separator : Char} {forms forms' : List Form}
    (hs : separator ∈ delimiters) (hparen : separator ≠ ')') (h : ∀ form ∈ forms, form.Plain)
    (h' : ∀ form ∈ forms', form.Plain)
    (heq : joined separator forms = joined separator forms') : forms = forms' := by
  have hcloses : Closes [] := nofun
  have htext : joined separator forms ++ [] = joined separator forms' ++ [] := by rw [heq]
  have hdetermined (form : Form) (hmem : form ∈ forms) : form.Plain ∧ form.Determined :=
    ⟨h form hmem, (h form hmem).determined⟩
  exact (joined_inj hs hparen hdetermined h' hcloses hcloses htext).1

end Reading

end Form

end ScriptLang
