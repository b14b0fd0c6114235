import PageTemplate.Proofs.Form.Controls
import PageTemplate.Proofs.Form.Marks

/-!
# PageTemplate.Proofs.Form.Filled

Filled forms as markup. Setting fields one after another rewrites the markup of a form: what was
set last is in an input or a textarea, boxes and options are marked or not, and inputs for fields
that there are not come behind everything else. Setting the same fields once more changes nothing:
`withFields_idem`.
-/

namespace PageTemplate

namespace Markup

variable {attributes : Attributes} {name value other : Text}

/-! Menus. -/

mutual

/-- The texts in markup one after another. -/
def Node.content : Node → Text
  | .element _ _ children => contentAll children
  | .text value _ => value
  | .code _ | .comment _ | .doctype _ => []

def contentAll : List Node → Text
  | [] => []
  | n :: ns => n.content ++ contentAll ns

end

/-- Whether an option stands for a value: by its own value, or by its text when it has none. -/
def optionIs (attributes : Attributes) (content value : Text) : Bool :=
  (Assoc.find? (Text.ofString "value") attributes).getD content == value

mutual

/-- What choosing values one after another makes of what is in a menu. -/
def Node.chosen (values : List Text) : Node → Node
  | .element tag attributes children =>
    .element tag
      (if tag = "option" then
        markedBy "selected" (values.map (optionIs attributes (contentAll children))) attributes
      else attributes)
      (chosenAll values children)
  | n => n

def chosenAll (values : List Text) : List Node → List Node
  | [] => []
  | n :: ns => n.chosen values :: chosenAll values ns

end

mutual

theorem Node.content_chosen (values : List Text) (n : Node) :
    (n.chosen values).content = n.content := by
  match n with
  | .element tag attributes children =>
    rw [Node.chosen, Node.content, Node.content, contentAll_chosen]
  | .text .. | .code _ | .comment _ | .doctype _ => rfl

theorem contentAll_chosen (values : List Text) (ns : List Node) :
    contentAll (chosenAll values ns) = contentAll ns := by
  match ns with
  | [] => rfl
  | n :: ns => rw [chosenAll, contentAll, contentAll, n.content_chosen, contentAll_chosen]

end

mutual

theorem Node.chosen_nil (n : Node) : n.chosen [] = n := by
  match n with
  | .element tag attributes children =>
    rw [Node.chosen, chosenAll_nil]
    simp [markedBy]
  | .text .. | .code _ | .comment _ | .doctype _ => rfl

theorem chosenAll_nil (ns : List Node) : chosenAll [] ns = ns := by
  match ns with
  | [] => rfl
  | n :: ns => rw [chosenAll, n.chosen_nil, chosenAll_nil]

end

/-- Choosing leaves it to an option what it stands for. -/
theorem optionIs_markedBy (flags : List Bool) (content : Text) :
    optionIs (markedBy "selected" flags attributes) content = optionIs attributes content := by
  funext u
  rw [optionIs, find?_markedBy (by decide)]
  rfl

mutual

theorem Node.chosen_append (us vs : List Text) (n : Node) :
    n.chosen (us ++ vs) = (n.chosen us).chosen vs := by
  match n with
  | .element tag attributes children =>
    rw [Node.chosen, Node.chosen, Node.chosen, contentAll_chosen, chosenAll_append]
    by_cases htag : tag = "option"
    · simp only [htag, if_true, optionIs_markedBy, List.map_append]
      rw [markedBy, List.foldl_append]
      rfl
    · simp only [htag, if_false]
  | .text .. | .code _ | .comment _ | .doctype _ => rfl

theorem chosenAll_append (us vs : List Text) (ns : List Node) :
    chosenAll (us ++ vs) ns = chosenAll vs (chosenAll us ns) := by
  match ns with
  | [] => rfl
  | n :: ns => rw [chosenAll, chosenAll, chosenAll, n.chosen_append, chosenAll_append]

end

mutual

/-- Choosing the same values once more changes nothing. -/
theorem Node.chosen_idem (vs : List Text) (n : Node) : (n.chosen vs).chosen vs = n.chosen vs := by
  match n with
  | .element tag attributes children =>
    rw [Node.chosen, Node.chosen, contentAll_chosen, chosenAll_idem]
    by_cases htag : tag = "option"
    · simp only [htag, if_true, optionIs_markedBy, markedBy_markedBy]
    · simp only [htag, if_false]
  | .text .. | .code _ | .comment _ | .doctype _ => rfl

theorem chosenAll_idem (vs : List Text) (ns : List Node) :
    chosenAll vs (chosenAll vs ns) = chosenAll vs ns := by
  match ns with
  | [] => rfl
  | n :: ns => rw [chosenAll, chosenAll, n.chosen_idem, chosenAll_idem]

end

/-! Forms. -/

/-- The values that fields have for a control with certain attributes. -/
def valuesFor (fields : List (Text × Text)) (attributes : Attributes) : List Text :=
  fields.filterMap fun f =>
    if Assoc.find? (Text.ofString "name") attributes = some f.1 then some f.2 else none

mutual

/-- What setting fields one after another makes of markup that has all of them. -/
def Node.filled (fields : List (Text × Text)) : Node → Node
  | .element tag attributes children =>
    let values := valuesFor fields attributes
    if tag = "textarea" then
      .element tag attributes (values.foldl (fun _ v => [.text v false]) children)
    else if tag = "select" then .element tag attributes (chosenAll values children)
    else
      .element tag (if tag = "input" then values.foldl entered attributes else attributes)
        (filledAll fields children)
  | n => n

def filledAll (fields : List (Text × Text)) : List Node → List Node
  | [] => []
  | n :: ns => n.filled fields :: filledAll fields ns

end

mutual

/-- Whether there is a control with a name in markup. -/
def Node.hasField (name : Text) : Node → Bool
  | .element tag attributes children =>
    if tag = "textarea" ∨ tag = "select" then
      Assoc.find? (Text.ofString "name") attributes = some name
    else
      tag = "input" ∧ Assoc.find? (Text.ofString "name") attributes = some name ||
        hasFieldAll name children
  | _ => false

def hasFieldAll (name : Text) : List Node → Bool
  | [] => false
  | n :: ns => n.hasField name || hasFieldAll name ns

end

/-- The attributes of the input for a field that there is not. -/
def hiddenAttributes (field : Text × Text) : Attributes :=
  [("type", "hidden"), ("name", field.1), ("value", field.2)]

/-- The input for a field that there is not. -/
def hiddenInput (field : Text × Text) : Node := .element "input" (hiddenAttributes field) []

/-- What setting a field makes of the markup in a form. -/
def withField (ns : List Node) (field : Text × Text) : List Node :=
  if hasFieldAll field.1 ns then filledAll [field] ns else ns ++ [hiddenInput field]

/-- What setting fields one after another makes of the markup in a form. -/
def withFields (fields : List (Text × Text)) (ns : List Node) : List Node :=
  fields.foldl withField ns

/-! Controls by their kinds. -/

variable {fields more : List (Text × Text)} {ns ms children : List Node} {tag : Text}

/-- The kinds of elements that a form treats in different ways. -/
theorem tag_cases (tag : Text) :
    tag = "textarea" ∨ tag = "select" ∨ tag = "input" ∨
      tag ≠ "textarea" ∧ tag ≠ "select" ∧ tag ≠ "input" := by
  tauto

theorem filled_textarea : (Node.element "textarea" attributes children).filled fields =
    .element "textarea" attributes
      ((valuesFor fields attributes).foldl (fun _ v => [.text v false]) children) := rfl

theorem filled_select : (Node.element "select" attributes children).filled fields =
    .element "select" attributes (chosenAll (valuesFor fields attributes) children) := by
  rw [Node.filled, if_neg (by decide), if_pos rfl]

theorem filled_input : (Node.element "input" attributes children).filled fields =
    .element "input" ((valuesFor fields attributes).foldl entered attributes)
      (filledAll fields children) := by
  rw [Node.filled, if_neg (by decide), if_neg (by decide), if_pos rfl]

theorem filled_other (h : tag ≠ "textarea" ∧ tag ≠ "select" ∧ tag ≠ "input") :
    (Node.element tag attributes children).filled fields =
      .element tag attributes (filledAll fields children) := by
  rw [Node.filled, if_neg h.1, if_neg h.2.1, if_neg h.2.2]

theorem hasField_content (h : tag = "textarea" ∨ tag = "select") :
    (Node.element tag attributes children).hasField name =
      decide (Assoc.find? (Text.ofString "name") attributes = some name) := by
  rw [Node.hasField, if_pos h]

theorem hasField_input : (Node.element "input" attributes children).hasField name =
    (decide (Assoc.find? (Text.ofString "name") attributes = some name) ||
      hasFieldAll name children) := by
  rw [Node.hasField, if_neg (by decide)]
  simp

theorem hasField_other (h : tag ≠ "textarea" ∧ tag ≠ "select" ∧ tag ≠ "input") :
    (Node.element tag attributes children).hasField name = hasFieldAll name children := by
  rw [Node.hasField, if_neg (by simp [h])]
  simp [h]

theorem valuesFor_append (fields more : List (Text × Text)) (attributes : Attributes) :
    valuesFor (fields ++ more) attributes =
      valuesFor fields attributes ++ valuesFor more attributes :=
  List.filterMap_append

theorem valuesFor_entered (values : List Text) :
    valuesFor fields (values.foldl entered attributes) = valuesFor fields attributes := by
  rw [valuesFor, valuesFor, find?_enteredAll (by decide) (by decide)]

theorem valuesFor_named (h : Assoc.find? (Text.ofString "name") attributes = some name) :
    valuesFor [(name, value)] attributes = [value] := by
  simp [valuesFor, h]

theorem valuesFor_unnamed
    (h : ∀ f ∈ fields, Assoc.find? (Text.ofString "name") attributes ≠ some f.1) :
    valuesFor fields attributes = [] :=
  List.filterMap_eq_nil_iff.2 fun f hf => if_neg (h f hf)

/-! Setting fields that there are. -/

mutual

theorem Node.filled_append (n : Node) :
    n.filled (fields ++ more) = (n.filled fields).filled more := by
  match n with
  | .element tag attributes children =>
    rcases tag_cases tag with rfl | rfl | rfl | htag
    · simp only [filled_textarea, valuesFor_append, List.foldl_append]
    · simp only [filled_select, valuesFor_append, chosenAll_append]
    · simp only [filled_input, valuesFor_append, List.foldl_append, valuesFor_entered,
        filledAll_append]
    · simp only [filled_other htag, filledAll_append]
  | .text .. | .code _ | .comment _ | .doctype _ => rfl

theorem filledAll_append (ns : List Node) :
    filledAll (fields ++ more) ns = filledAll more (filledAll fields ns) := by
  match ns with
  | [] => rfl
  | n :: ns => rw [filledAll, filledAll, filledAll, n.filled_append, filledAll_append]

end

mutual

/-- Setting the same fields once more changes nothing. -/
theorem Node.filled_idem (n : Node) : (n.filled fields).filled fields = n.filled fields := by
  match n with
  | .element tag attributes children =>
    rcases tag_cases tag with rfl | rfl | rfl | htag
    · rw [filled_textarea, filled_textarea]
      exact congrArg _ (foldl_foldl_of_forgetful (f := fun (_ : List Node) v => [.text v false])
        (fun _ _ _ => rfl) _ _)
    · rw [filled_select, filled_select, chosenAll_idem]
    · rw [filled_input, filled_input, valuesFor_entered, entered_idem, filledAll_idem]
    · rw [filled_other htag, filled_other htag, filledAll_idem]
  | .text .. | .code _ | .comment _ | .doctype _ => rfl

theorem filledAll_idem (ns : List Node) :
    filledAll fields (filledAll fields ns) = filledAll fields ns := by
  match ns with
  | [] => rfl
  | n :: ns => rw [filledAll, filledAll, n.filled_idem, filledAll_idem]

end

theorem filledAll_nodes (fields : List (Text × Text)) (ns ms : List Node) :
    filledAll fields (ns ++ ms) = filledAll fields ns ++ filledAll fields ms := by
  induction ns with
  | nil => rfl
  | cons n ns ih => rw [List.cons_append, filledAll, filledAll, ih, List.cons_append]

/-! Which fields there are. -/

theorem hasFieldAll_nodes (name : Text) (ns ms : List Node) :
    hasFieldAll name (ns ++ ms) = (hasFieldAll name ns || hasFieldAll name ms) := by
  induction ns with
  | nil => rfl
  | cons n ns ih => rw [List.cons_append, hasFieldAll, hasFieldAll, ih, Bool.or_assoc]

mutual

/-- Setting fields leaves them their names. -/
theorem Node.hasField_filled (n : Node) : (n.filled fields).hasField name = n.hasField name := by
  match n with
  | .element tag attributes children =>
    rcases tag_cases tag with rfl | rfl | rfl | htag
    · rw [filled_textarea, hasField_content (.inl rfl), hasField_content (.inl rfl)]
    · rw [filled_select, hasField_content (.inr rfl), hasField_content (.inr rfl)]
    · rw [filled_input, hasField_input, hasField_input, hasFieldAll_filled,
        find?_enteredAll (by decide) (by decide)]
    · rw [filled_other htag, hasField_other htag, hasField_other htag, hasFieldAll_filled]
  | .text .. | .code _ | .comment _ | .doctype _ => rfl

theorem hasFieldAll_filled (ns : List Node) :
    hasFieldAll name (filledAll fields ns) = hasFieldAll name ns := by
  match ns with
  | [] => rfl
  | n :: ns => rw [filledAll, hasFieldAll, hasFieldAll, n.hasField_filled, hasFieldAll_filled]

end

mutual

/-- Setting fields that there are not leaves everything as it is. -/
theorem Node.filled_absent (n : Node) (h : ∀ f ∈ fields, n.hasField f.1 = false) :
    n.filled fields = n := by
  match n with
  | .element tag attributes children =>
    rcases tag_cases tag with rfl | rfl | rfl | htag
    · simp only [hasField_content, true_or, decide_eq_false_iff_not] at h
      rw [filled_textarea, valuesFor_unnamed h, List.foldl_nil]
    · simp only [hasField_content, or_true, decide_eq_false_iff_not] at h
      rw [filled_select, valuesFor_unnamed h, chosenAll_nil]
    · simp only [hasField_input, Bool.or_eq_false_iff, decide_eq_false_iff_not] at h
      rw [filled_input, valuesFor_unnamed fun f hf => (h f hf).1,
        filledAll_absent children fun f hf => (h f hf).2, List.foldl_nil]
    · simp only [hasField_other htag] at h
      rw [filled_other htag, filledAll_absent children h]
  | .text .. | .code _ | .comment _ | .doctype _ => rfl

theorem filledAll_absent (ns : List Node) (h : ∀ f ∈ fields, hasFieldAll f.1 ns = false) :
    filledAll fields ns = ns := by
  match ns with
  | [] => rfl
  | n :: ns =>
    simp only [hasFieldAll, Bool.or_eq_false_iff] at h
    rw [filledAll, n.filled_absent fun f hf => (h f hf).1,
      filledAll_absent ns fun f hf => (h f hf).2]

end

theorem hasField_hiddenInput (name : Text) (field : Text × Text) :
    (hiddenInput field).hasField name = decide (field.1 = name) := by
  have hname : Assoc.find? (Text.ofString "name") (hiddenAttributes field) = some field.1 := rfl
  rw [hiddenInput, hasField_input, hname, hasFieldAll, Bool.or_false]
  simp

/-- A new input has the value that it is made for. -/
theorem filled_hiddenInput (field : Text × Text) :
    (hiddenInput field).filled [field] = hiddenInput field := by
  have hvalues : valuesFor [field] (hiddenAttributes field) = [field.2] := valuesFor_named rfl
  have hbox : isBox (hiddenAttributes field) = false := by
    have htype : Assoc.find? (Text.ofString "type") (hiddenAttributes field) = some "hidden" := rfl
    rw [isBox, htype]
    decide +kernel
  have hset : entered (hiddenAttributes field) field.2 = hiddenAttributes field := by
    rw [entered, if_neg (by simp [hbox])]
    rfl
  rw [hiddenInput, filled_input, hvalues, List.foldl_cons, hset]
  rfl

/-! Controls stay flat. -/

mutual

theorem Node.lacksControls_chosen (values : List Text) (n : Node) :
    (n.chosen values).lacksControls = n.lacksControls := by
  match n with
  | .element tag attributes children =>
    rw [Node.chosen, Node.lacksControls, Node.lacksControls, lacksControlsAll_chosen]
  | .text .. | .code _ | .comment _ | .doctype _ => rfl

theorem lacksControlsAll_chosen (values : List Text) (ns : List Node) :
    lacksControlsAll (chosenAll values ns) = lacksControlsAll ns := by
  match ns with
  | [] => rfl
  | n :: ns =>
    rw [chosenAll, lacksControlsAll, lacksControlsAll, n.lacksControls_chosen,
      lacksControlsAll_chosen]

end

mutual

theorem Node.hasFlatControls_of_lacks (n : Node) (h : n.lacksControls = true) :
    n.hasFlatControls = true := by
  match n with
  | .element tag attributes children =>
    rw [Node.lacksControls, Bool.and_eq_true] at h
    simp only [Node.hasFlatControls, h.2, Bool.or_true, hasFlatControlsAll_of_lacks children h.2,
      Bool.and_true]
  | .text .. | .code _ | .comment _ | .doctype _ => rfl

theorem hasFlatControlsAll_of_lacks (ns : List Node) (h : lacksControlsAll ns = true) :
    hasFlatControlsAll ns = true := by
  match ns with
  | [] => rfl
  | n :: ns =>
    rw [lacksControlsAll, Bool.and_eq_true] at h
    rw [hasFlatControlsAll, n.hasFlatControls_of_lacks h.1, hasFlatControlsAll_of_lacks ns h.2]
    rfl

end

theorem hasFlatControls_content (h : tag = "textarea" ∨ tag = "select") :
    (Node.element tag attributes children).hasFlatControls = lacksControlsAll children := by
  have hflat := hasFlatControlsAll_of_lacks children
  rcases h with rfl | rfl
  all_goals
    rw [Node.hasFlatControls]
    cases hlacks : lacksControlsAll children with
    | true => simp [hflat hlacks]
    | false => simp

theorem hasFlatControls_other (h : tag ≠ "textarea") (h' : tag ≠ "select") :
    (Node.element tag attributes children).hasFlatControls = hasFlatControlsAll children := by
  rw [Node.hasFlatControls]
  simp [h, h']

mutual

theorem Node.hasFlatControls_filled (n : Node) (h : n.hasFlatControls = true) :
    (n.filled fields).hasFlatControls = true := by
  match n with
  | .element tag attributes children =>
    rcases tag_cases tag with rfl | rfl | rfl | htag
    · rw [hasFlatControls_content (.inl rfl)] at h
      rw [filled_textarea, hasFlatControls_content (.inl rfl)]
      generalize valuesFor fields attributes = values
      induction values generalizing children with
      | nil => exact h
      | cons v values ih => exact ih _ rfl
    · rw [hasFlatControls_content (.inr rfl)] at h
      rw [filled_select, hasFlatControls_content (.inr rfl), lacksControlsAll_chosen, h]
    · rw [hasFlatControls_other (by decide) (by decide)] at h
      rw [filled_input, hasFlatControls_other (by decide) (by decide),
        hasFlatControlsAll_filled children h]
    · rw [hasFlatControls_other htag.1 htag.2.1] at h
      rw [filled_other htag, hasFlatControls_other htag.1 htag.2.1,
        hasFlatControlsAll_filled children h]
  | .text .. | .code _ | .comment _ | .doctype _ => rfl

theorem hasFlatControlsAll_filled (ns : List Node) (h : hasFlatControlsAll ns = true) :
    hasFlatControlsAll (filledAll fields ns) = true := by
  match ns with
  | [] => rfl
  | n :: ns =>
    rw [hasFlatControlsAll, Bool.and_eq_true] at h
    rw [filledAll, hasFlatControlsAll, n.hasFlatControls_filled h.1,
      hasFlatControlsAll_filled ns h.2]
    rfl

end

theorem hasFlatControlsAll_nodes (ns ms : List Node) :
    hasFlatControlsAll (ns ++ ms) = (hasFlatControlsAll ns && hasFlatControlsAll ms) := by
  induction ns with
  | nil => rfl
  | cons n ns ih =>
    rw [List.cons_append, hasFlatControlsAll, hasFlatControlsAll, ih, Bool.and_assoc]

theorem hasFlatControlsAll_withField (h : hasFlatControlsAll ns = true) (field : Text × Text) :
    hasFlatControlsAll (withField ns field) = true := by
  rw [withField]
  split
  · exact hasFlatControlsAll_filled ns h
  · rw [hasFlatControlsAll_nodes, h]
    rfl

/-! Setting fields. -/

theorem withFields_append (fields more : List (Text × Text)) (ns : List Node) :
    withFields (fields ++ more) ns = withFields more (withFields fields ns) :=
  List.foldl_append

/-- Setting fields adds the inputs for those that there are not, and sets all of them. -/
theorem withFields_eq (fields : List (Text × Text)) (ns : List Node) :
    ∃ hs, withFields fields ns = filledAll fields (ns ++ hs) ∧
      (∀ name, hasFieldAll name ns = true → hasFieldAll name hs = false) ∧
      ∀ f ∈ fields, hasFieldAll f.1 (ns ++ hs) = true := by
  induction fields generalizing ns with
  | nil =>
    refine ⟨[], ?_, fun _ _ => rfl, by simp⟩
    rw [List.append_nil, filledAll_absent _ (by simp)]
    rfl
  | cons f fields ih =>
    have hsplit : ∀ ns, filledAll (f :: fields) ns = filledAll fields (filledAll [f] ns) :=
      fun ns => by rw [← filledAll_append, List.singleton_append]
    have habsent : ∀ {ns}, hasFieldAll f.1 ns = false → filledAll [f] ns = ns := fun h =>
      filledAll_absent _ fun g hg => by rwa [List.mem_singleton.1 hg]
    rw [withFields, List.foldl_cons, ← withFields, withField]
    cases hfield : hasFieldAll f.1 ns with
    | true =>
      -- None of the inputs that come later has the name, so the field could be set in all of them.
      obtain ⟨hs, he, hnew, hall⟩ := ih (filledAll [f] ns)
      simp only [hasFieldAll_nodes, hasFieldAll_filled] at hnew hall
      refine ⟨hs, ?_, hnew, List.forall_mem_cons.2 ⟨?_, fun g hg => ?_⟩⟩
      · rw [if_pos rfl, he, hsplit, filledAll_nodes [f], habsent (hnew _ hfield)]
      · rw [hasFieldAll_nodes, hfield, Bool.true_or]
      · rw [hasFieldAll_nodes, hall g hg]
    | false =>
      -- The new input has its value already, and what was there has no input with the name.
      obtain ⟨hs, he, hnew, hall⟩ := ih (ns ++ [hiddenInput f])
      have hown : hasFieldAll f.1 (ns ++ [hiddenInput f]) = true := by
        simp [hasFieldAll_nodes, hasFieldAll, hasField_hiddenInput]
      rw [List.append_assoc] at he hall
      refine ⟨[hiddenInput f] ++ hs, ?_, fun name hname => ?_, ?_⟩
      · have hinput : filledAll [f] [hiddenInput f] = [hiddenInput f] := by
          rw [filledAll, filled_hiddenInput, filledAll]
        rw [if_neg Bool.false_ne_true, he, hsplit, filledAll_nodes [f], filledAll_nodes [f],
          habsent hfield, hinput, habsent (hnew _ hown)]
      · have hne : f.1 ≠ name := by
          rintro rfl
          rw [hfield] at hname
          cases hname
        have hmore := hnew name (by rw [hasFieldAll_nodes, hname, Bool.true_or])
        rw [hasFieldAll_nodes, hmore, hasFieldAll, hasField_hiddenInput, hasFieldAll]
        simp [hne]
      · refine List.forall_mem_cons.2 ⟨?_, hall⟩
        rw [← List.append_assoc, hasFieldAll_nodes, hown, Bool.true_or]

/-- Where all fields are there, setting them adds none. -/
theorem withFields_of_present (h : ∀ f ∈ fields, hasFieldAll f.1 ns = true) :
    withFields fields ns = filledAll fields ns := by
  induction fields generalizing ns with
  | nil => exact (filledAll_absent ns (by simp)).symm
  | cons f fields ih =>
    obtain ⟨hf, hfields⟩ := List.forall_mem_cons.1 h
    rw [withFields, List.foldl_cons, ← withFields, withField, if_pos hf,
      ih fun g hg => by rw [hasFieldAll_filled, hfields g hg], ← filledAll_append]
    rfl

/-- **Setting fields once more** changes nothing. -/
theorem withFields_idem (fields : List (Text × Text)) (ns : List Node) :
    withFields fields (withFields fields ns) = withFields fields ns := by
  obtain ⟨hs, he, _, hpresent⟩ := withFields_eq fields ns
  rw [he, withFields_of_present fun f hf => by rw [hasFieldAll_filled, hpresent f hf],
    filledAll_idem]

end Markup

end PageTemplate
