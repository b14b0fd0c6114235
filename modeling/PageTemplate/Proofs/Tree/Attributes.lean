import Mathlib.Data.List.Induction
import PageTemplate.Proofs.Assoc
import PageTemplate.Proofs.Tree.Edits
import PageTemplate.Proofs.Tree.Plant

/-!
# PageTemplate.Proofs.Tree.Attributes

The attributes of an element whose names and values are texts: asking for one of them, and removing
one.
-/

namespace PageTemplate

namespace Markup

variable {attributes : Attributes}

/-- The value of an attribute is the value of its text. -/
theorem find_values (name : Text) (attributes : Attributes) :
    Assoc.find? (.text name) (values attributes) = (Assoc.find? name attributes).map .text := by
  induction attributes with
  | nil => rfl
  | cons a attributes ih =>
    simp only [values_cons, Assoc.find?, Value.text_beq, ih]
    split <;> rfl

theorem erase_values (name : Text) (attributes : Attributes) :
    Assoc.erase (.text name) (values attributes) = values (Assoc.erase name attributes) := by
  simp only [Assoc.erase, values, List.filter_map]
  rfl

theorem lacks_values {es : Entries} (hl : es.live = values attributes) {name : Text}
    (h : name ∉ attributes.map (·.1)) : Entries.Lacks (.text name) es := by
  rw [Entries.Lacks, hl]
  intro e he
  obtain ⟨a, ha, rfl⟩ := List.mem_map.1 he
  have hne : a.1 ≠ name := fun he' => h (he' ▸ List.mem_map_of_mem ha)
  simpa using hne

/-- Binds an attribute: in its old place when it is there, at the end when it is new. -/
def bindAttribute (name value : Text) (attributes : Attributes) : Attributes :=
  if Assoc.has name attributes then
    attributes.map fun a => if a.1 = name then (a.1, value) else a
  else attributes ++ [(name, value)]

/-- The attributes with the value of one replaced. -/
theorem find?_rebind (name value : Text) (attributes : Attributes) (other : Text) :
    Assoc.find? other (attributes.map fun a => if a.1 = name then (a.1, value) else a) =
      (Assoc.find? other attributes).map fun old => if other = name then value else old := by
  induction attributes with
  | nil => rfl
  | cons a attributes ih =>
    rw [List.map_cons, Assoc.find?, Assoc.find?, ih]
    by_cases hother : a.1 = other
    · by_cases hname : other = name
      · simp [hother, hname]
      · simp [hother, hname]
    · have hkept : (if a.1 = name then (a.1, value) else a).1 = a.1 := by split <;> rfl
      simp [hkept, hother]

/-- An attribute that is bound has its value, and the others keep theirs. -/
theorem find?_bindAttribute (name value : Text) (attributes : Attributes) (other : Text) :
    Assoc.find? other (bindAttribute name value attributes) =
      if other = name then some value else Assoc.find? other attributes := by
  rw [bindAttribute, Assoc.has]
  by_cases hother : other = name
  · subst hother
    rw [if_pos rfl]
    split
    · rename_i hhas
      obtain ⟨old, hold⟩ := Option.isSome_iff_exists.1 hhas
      rw [find?_rebind, hold, Option.map_some, if_pos rfl]
    · rename_i hhas
      rw [Assoc.find?_append, Option.not_isSome_iff_eq_none.1 hhas]
      simp [Assoc.find?]
  · rw [if_neg hother]
    split
    · simp [find?_rebind, hother]
    · have hname : ¬ name = other := fun he => hother he.symm
      simp [Assoc.find?_append, Assoc.find?, hname]

/-- Binding an attribute leaves the others where they are. -/
theorem erase_bindAttribute (name value : Text) (attributes : Attributes) :
    Assoc.erase name (bindAttribute name value attributes) = Assoc.erase name attributes := by
  rw [bindAttribute]
  split
  · rename_i hhas
    clear hhas
    induction attributes with
    | nil => rfl
    | cons a attributes ih =>
      rw [Assoc.erase, Assoc.erase] at ih ⊢
      by_cases ha : a.1 = name
      · simpa [ha] using ih
      · simpa [ha] using ih
  · simp [Assoc.erase]

/-- Binding attributes with distinct names one after another writes them side by side. -/
theorem ofList_values (h : (attributes.map (·.1)).Nodup) :
    Entries.ofList (values attributes) = Tree.entriesOfTexts attributes := by
  induction attributes using List.reverseRecOn with
  | nil => rfl
  | append_singleton attributes a ih =>
    rw [List.map_append, List.nodup_append] at h
    have hname : a.1 ∉ attributes.map (·.1) := fun hm => h.2.2 _ hm _ List.mem_cons_self rfl
    have hlacks := lacks_values (Tree.live_entriesOfTexts attributes) hname
    have hsplit : values (attributes ++ [a]) = values attributes ++ [(.text a.1, .text a.2)] := by
      simp [values]
    rw [hsplit, Entries.ofList_concat, ih h.1, Entries.put_new hlacks]
    simp [Tree.entriesOfTexts]

theorem live_ofList_values (h : (attributes.map (·.1)).Nodup) :
    (Entries.ofList (values attributes)).live = values attributes := by
  rw [ofList_values h, Tree.live_entriesOfTexts]

end Markup

namespace Entries

/-- Removing a key removes its entry. -/
theorem live_erase (key : Value) (es : Entries) :
    (es.erase key).live = Assoc.erase key es.live := by
  induction es with
  | nil => rfl
  | cons e es ih =>
    cases e with
    | none => exact ih
    | some e =>
      simp only [erase, List.map_cons, Option.filter] at ih ⊢
      by_cases hk : (e.1 == key) = true
      · simpa [Assoc.erase, hk] using ih
      · simpa [Assoc.erase, hk] using ih

/-- Binding a text in entries that are attributes binds an attribute. -/
theorem live_put_values {es : Entries} {attributes : Markup.Attributes}
    (h : es.live = Markup.values attributes) (name value : Text) :
    (es.put (.text name) (.text value)).live =
      Markup.values (Markup.bindAttribute name value attributes) := by
  have hhas : es.has (.text name) = Assoc.has name attributes := by
    rw [has, find?, h, Markup.find_values, Option.isSome_map, Assoc.has]
  rw [put, hhas, Markup.bindAttribute]
  split
  · rw [live_map, h]
    simp only [Markup.values, List.map_map]
    refine List.map_congr_left fun a _ => ?_
    by_cases ha : a.1 = name
    · simp [ha]
    · simp [ha]
  · rw [live_append, h]
    simp [Markup.values, Value.asKey]

end Entries

namespace Tree

variable {env : Env} {w : World} {V : View} {e : ObjectId} {tag : Value}

theorem run'_getAttribute (h : Shows w V) (he : V.core e = some (.element tag)) (name : Value) :
    M.run' env w (getAttribute (.object e) name) =
      (.ok (.ofOption ((V.attributes e).find? name)), w) := by
  have hmap : w.cells[attributesOf e]? = some (.map (V.attributes e)) := h.map e _ he rfl
  rw [getAttribute, M.run'_bind_ok (run'_attributeMap (h.record e _ he) rfl),
    M.run'_bind_ok (run'_mapEntries hmap)]
  rfl

/-- The value of an attribute of an element of markup. -/
theorem run'_getText (h : Shows w V) (he : V.core e = some (.element tag))
    {attributes : Markup.Attributes} (ha : (V.attributes e).live = Markup.values attributes)
    (name : Text) :
    M.run' env w (getAttribute (.object e) (.text name)) =
      (.ok (.ofOption ((Assoc.find? name attributes).map .text)), w) := by
  rw [run'_getAttribute h he, Entries.find?, ha, Markup.find_values]

/-- Setting an attribute of an element. -/
theorem does_setAttribute (h : Shows w V) (he : V.core e = some (.element tag))
    (name value : Value) :
    Does env w V (setAttribute (.object e) name value) ()
      (V.setAttributes e ((V.attributes e).put name value)) :=
  .bind_of_run (run'_attributeMap (h.record e _ he) rfl) (does_putEntry h he name value)

/-- Removing an attribute of an element. -/
theorem does_removeAttribute (h : Shows w V) (he : V.core e = some (.element tag)) (name : Value) :
    Does env w V (removeAttribute (.object e) name) ()
      (V.setAttributes e ((V.attributes e).erase name)) :=
  .bind_of_run (run'_attributeMap (h.record e _ he) rfl)
    (.bind_of_run (run'_mapEntries (h.map e _ he rfl))
      ⟨_, Store.run'_setCell _ _, .setAttributes h he rfl _⟩)

theorem leads_removeAttribute (h : Shows w V) (hg : V.IsRegular)
    (he : V.core e = some (.element tag)) (name : Value) :
    Leads env w V (removeAttribute (.object e) name) fun _ V' =>
      V' = V.setAttributes e ((V.attributes e).erase name) :=
  (leads_of_does hg (does_removeAttribute h he name) (hg.toIsForest.setAttributes e _) rfl).imp
    fun _ _ hq => hq.2

end Tree

end PageTemplate
