import PageTemplate.Proofs.Tree.Attributes

/-!
# PageTemplate.Proofs.Form.Marks

The attributes of inputs and options that are set again and again. A value is set where it stands.
A mark keeps its place as long as it is set, and when it was taken off it comes back behind the
other attributes; so the order of the attributes depends on all that was set, but not on how often
all of it was: `markedBy_markedBy` and `entered_idem`.
-/

namespace PageTemplate

/-- Where each step forgets the one before it, only the last step counts, so all steps once more
make no difference. -/
theorem foldl_foldl_of_forgetful {α β : Type} {f : α → β → α}
    (h : ∀ a u v, f (f a u) v = f a v) (vs : List β) (a : α) :
    vs.foldl f (vs.foldl f a) = vs.foldl f a := by
  have hlast : ∀ (us : List β) (a : α) (v : β), f (us.foldl f a) v = f a v := by
    intro us
    induction us with
    | nil => exact fun _ _ => rfl
    | cons u us ih => exact fun a v => (ih (f a u) v).trans (h a u v)
  rcases List.eq_nil_or_concat vs with rfl | ⟨us, v, rfl⟩
  · rfl
  · rw [List.concat_eq_append, List.foldl_append, List.foldl_append]
    simp only [List.foldl_cons, List.foldl_nil]
    rw [hlast, hlast, h]

namespace Markup

variable {attributes : Attributes} {name value other : Text}

/-- Attributes are known by the values of their texts. -/
theorem values_injective {a b : Attributes} (h : values a = values b) : a = b := by
  refine List.map_injective_iff.2 (fun p q hpq => ?_) h
  obtain ⟨hname, hvalue⟩ := Prod.mk.inj hpq
  exact Prod.ext (Value.text.inj hname) (Value.text.inj hvalue)

/-! Attributes that are set again. -/

theorem has_bindAttribute : Assoc.has name (bindAttribute name value attributes) = true := by
  rw [Assoc.has, find?_bindAttribute, if_pos rfl]
  rfl

theorem map_rebind_of_not_has (h : Assoc.has name attributes = false) (value : Text) :
    (attributes.map fun a => if a.1 = name then (a.1, value) else a) = attributes := by
  have hnot : name ∉ attributes.map (·.1) := Assoc.not_mem_of_find? (by simpa [Assoc.has] using h)
  conv_rhs => rw [← List.map_id attributes]
  refine List.map_congr_left fun a ha => ?_
  have hne : a.1 ≠ name := fun he => hnot (he ▸ List.mem_map_of_mem ha)
  rw [if_neg hne, id]

theorem bindAttribute_of_not_has (h : Assoc.has name attributes = false) (value : Text) :
    bindAttribute name value attributes = attributes ++ [(name, value)] := by
  rw [bindAttribute, if_neg (by simp [h])]

/-- Binding an attribute twice is binding it the second time. -/
theorem bindAttribute_bindAttribute (u v : Text) :
    bindAttribute name v (bindAttribute name u attributes) = bindAttribute name v attributes := by
  have hset : bindAttribute name v (bindAttribute name u attributes) =
      (bindAttribute name u attributes).map fun a => if a.1 = name then (a.1, v) else a := by
    rw [bindAttribute, if_pos has_bindAttribute]
  rw [hset]
  by_cases h : Assoc.has name attributes = true
  · rw [bindAttribute, if_pos h, bindAttribute, if_pos h, List.map_map]
    refine List.map_congr_left fun a _ => ?_
    by_cases ha : a.1 = name
    · simp [ha]
    · simp [ha]
  · rw [Bool.not_eq_true] at h
    rw [bindAttribute_of_not_has h, bindAttribute_of_not_has h, List.map_append,
      map_rebind_of_not_has h]
    simp

/-! Marks. -/

/-- Sets an attribute to its own name, or takes it off. -/
def markAttribute (name : Text) (on : Bool) (attributes : Attributes) : Attributes :=
  if on then bindAttribute name name attributes else Assoc.erase name attributes

/-- Marks that are set and taken off one after another. -/
def markedBy (name : Text) (flags : List Bool) (attributes : Attributes) : Attributes :=
  flags.foldl (fun a on => markAttribute name on a) attributes

theorem erase_erase :
    Assoc.erase name (Assoc.erase name attributes) = Assoc.erase name attributes := by
  simp [Assoc.erase]

theorem erase_markAttribute (on : Bool) :
    Assoc.erase name (markAttribute name on attributes) = Assoc.erase name attributes := by
  cases on with
  | true => exact erase_bindAttribute name name attributes
  | false => exact erase_erase

theorem find?_markAttribute (h : other ≠ name) (on : Bool) :
    Assoc.find? other (markAttribute name on attributes) = Assoc.find? other attributes :=
  Assoc.find?_eq_of_erase_eq (erase_markAttribute on) h

theorem isSome_markAttribute (on : Bool) :
    (Assoc.find? name (markAttribute name on attributes)).isSome = on := by
  cases on with
  | true => rw [markAttribute, if_pos rfl, find?_bindAttribute, if_pos rfl, Option.isSome_some]
  | false => rw [markAttribute, if_neg Bool.false_ne_true, Assoc.find?_erase, Option.isSome_none]

theorem erase_markedBy (flags : List Bool) :
    Assoc.erase name (markedBy name flags attributes) = Assoc.erase name attributes := by
  induction flags generalizing attributes with
  | nil => rfl
  | cons on flags ih => exact ih.trans (erase_markAttribute on)

theorem find?_markedBy (h : other ≠ name) (flags : List Bool) :
    Assoc.find? other (markedBy name flags attributes) = Assoc.find? other attributes :=
  Assoc.find?_eq_of_erase_eq (erase_markedBy flags) h

/-- Where a mark is taken off at some time, it does not matter where it was before. -/
theorem markedBy_congr {flags : List Bool} (h : false ∈ flags) {a b : Attributes}
    (he : Assoc.erase name a = Assoc.erase name b) :
    markedBy name flags a = markedBy name flags b := by
  induction flags generalizing a b with
  | nil => cases h
  | cons on flags ih =>
    cases on with
    | false => exact congrArg (markedBy name flags) he
    | true =>
      have hrest : false ∈ flags := by simpa using h
      exact ih hrest ((erase_markAttribute true).trans (he.trans (erase_markAttribute true).symm))

/-- Marking once more in the same way changes nothing. -/
theorem markedBy_markedBy (flags : List Bool) :
    markedBy name flags (markedBy name flags attributes) = markedBy name flags attributes := by
  by_cases h : false ∈ flags
  · exact markedBy_congr h (erase_markedBy flags)
  · -- The mark is only set, so it keeps its place.
    have hset : ∀ a, markedBy name flags a = flags.foldl (fun a _ => bindAttribute name name a) a :=
      fun a => List.foldl_ext _ _ _ fun a on hon => by
        have htrue : on = true := by
          cases on with
          | true => rfl
          | false => exact absurd hon h
        rw [htrue, markAttribute, if_pos rfl]
    rw [hset, hset]
    exact foldl_foldl_of_forgetful (fun _ _ _ => bindAttribute_bindAttribute name name) flags
      attributes

/-! Inputs. -/

/-- Whether an input with certain attributes is a box. -/
def isBox (attributes : Attributes) : Bool :=
  let kind := Text.toLower ((Assoc.find? (Text.ofString "type") attributes).getD "text")
  kind == "checkbox" || kind == "radio"

/-- Whether a box with certain attributes stands for a value. -/
def boxIs (attributes : Attributes) (value : Text) : Bool :=
  (Assoc.find? (Text.ofString "value") attributes).getD "on" == value

/-- The attributes of an input after a value was entered. -/
def entered (attributes : Attributes) (value : Text) : Attributes :=
  if isBox attributes then markAttribute "checked" (boxIs attributes value) attributes
  else bindAttribute "value" value attributes

theorem find?_entered (hvalue : other ≠ "value") (hchecked : other ≠ "checked") (value : Text) :
    Assoc.find? other (entered attributes value) = Assoc.find? other attributes := by
  rw [entered]
  split
  · exact find?_markAttribute hchecked _
  · rw [find?_bindAttribute, if_neg hvalue]

theorem isBox_entered (value : Text) : isBox (entered attributes value) = isBox attributes := by
  rw [isBox, isBox, find?_entered (by decide) (by decide)]

/-- Entering values into a box marks it. -/
theorem entered_box (h : isBox attributes = true) (values : List Text) :
    values.foldl entered attributes =
      markedBy "checked" (values.map (boxIs attributes)) attributes := by
  have hall : ∀ (values : List Text) (a : Attributes), isBox a = true →
      boxIs a = boxIs attributes →
      values.foldl entered a = markedBy "checked" (values.map (boxIs attributes)) a := by
    intro values
    induction values with
    | nil => exact fun _ _ _ => rfl
    | cons v values ih =>
      intro a hbox hown
      have hone : entered a v = markAttribute "checked" (boxIs attributes v) a := by
        rw [entered, if_pos hbox, hown]
      rw [List.foldl_cons, ih (entered a v) (by rw [isBox_entered, hbox]) ?_, hone]
      · rfl
      · funext u
        rw [← hown, hone, boxIs, find?_markAttribute (by decide)]
        rfl
  exact hall values attributes h rfl

/-- Entering values into another input sets its value. -/
theorem entered_field (h : isBox attributes = false) (values : List Text) :
    values.foldl entered attributes =
      values.foldl (fun a v => bindAttribute "value" v a) attributes := by
  induction values generalizing attributes with
  | nil => rfl
  | cons v values ih =>
    have hone : entered attributes v = bindAttribute "value" v attributes := by
      rw [entered, if_neg (by simp [h])]
    rw [List.foldl_cons, List.foldl_cons, ih (by rw [isBox_entered, h]), hone]

/-- Entering the same values once more changes nothing. -/
theorem entered_idem (values : List Text) :
    values.foldl entered (values.foldl entered attributes) = values.foldl entered attributes := by
  cases h : isBox attributes with
  | true =>
    have hbox : isBox (markedBy "checked" (values.map (boxIs attributes)) attributes) = true := by
      rw [← h, isBox, find?_markedBy (by decide)]
      rfl
    have hown : boxIs (markedBy "checked" (values.map (boxIs attributes)) attributes) =
        boxIs attributes := by
      funext u
      rw [boxIs, find?_markedBy (by decide)]
      rfl
    rw [entered_box h, entered_box hbox, hown, markedBy_markedBy]
  | false =>
    have hbox : isBox (values.foldl entered attributes) = false := by
      rw [← h]
      clear h
      induction values generalizing attributes with
      | nil => rfl
      | cons v values ih => exact ih.trans (isBox_entered v)
    rw [entered_field hbox, entered_field h]
    exact foldl_foldl_of_forgetful (fun a u v => bindAttribute_bindAttribute u v) values attributes

theorem find?_enteredAll (hvalue : other ≠ "value") (hchecked : other ≠ "checked")
    (values : List Text) :
    Assoc.find? other (values.foldl entered attributes) = Assoc.find? other attributes := by
  induction values generalizing attributes with
  | nil => rfl
  | cons v values ih => exact ih.trans (find?_entered hvalue hchecked v)

end Markup

end PageTemplate
