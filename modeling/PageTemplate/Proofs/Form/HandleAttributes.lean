import PageTemplate.Library.Call
import PageTemplate.Proofs.Case
import PageTemplate.Proofs.Tree.Attributes

/-!
# PageTemplate.Proofs.Form.HandleAttributes

The attributes of an element as its handle reads and changes them. Setting brings the name into
lower case; removing and asking take the name as it is. So the attributes with names in lower case
behave like a map, whatever was changed before, while a name with a capital is never found among
them.
-/

namespace PageTemplate

open Markup (Attributes bindAttribute)

namespace Handle

/-- A call that changes an attribute. -/
inductive Change where
  | set (name : Text) (value : Value)
  | remove (name : Text)

namespace Change

/-- Changes an attribute of an element. -/
def perform (e : Value) : Change → M Unit
  | .set name value => writeAttribute e (.text name) value
  | .remove name => Tree.removeAttribute e (.text name)

/-- The name of the attribute that a change is about. -/
def name : Change → Text
  | .set name _ => Text.toLower name
  | .remove name => name

/-- What changes make of attributes. The values are shown as texts in every store. -/
inductive Makes (env : Env) : List Change → Attributes → Attributes → Prop where
  | nil {a : Attributes} : Makes env [] a a
  | set {changes : List Change} {a a' : Attributes} {name shown : Text} {value : Value} :
    (∀ w, M.run' env w (Present.shown value) = (.ok (.text shown), w)) →
    Makes env changes (bindAttribute (Text.toLower name) shown a) a' →
    Makes env (.set name value :: changes) a a'
  | remove {changes : List Change} {a a' : Attributes} {name : Text} :
    Makes env changes (Assoc.erase name a) a' → Makes env (.remove name :: changes) a a'

namespace Makes

variable {env : Env} {changes earlier later : List Change} {a a' : Attributes}
  {name shown other : Text} {value : Value}

theorem split (h : Makes env (earlier ++ later) a a') :
    ∃ b, Makes env earlier a b ∧ Makes env later b a' := by
  induction earlier generalizing a with
  | nil => exact ⟨a, .nil, h⟩
  | cons c earlier ih =>
    cases h with
    | set hshown h =>
      obtain ⟨b, hb, hlater⟩ := ih h
      exact ⟨b, .set hshown hb, hlater⟩
    | remove h =>
      obtain ⟨b, hb, hlater⟩ := ih h
      exact ⟨b, .remove hb, hlater⟩

/-- Changes leave alone what they are not about. -/
theorem find?_other (h : Makes env changes a a') (hother : ∀ c ∈ changes, c.name ≠ other) :
    Assoc.find? other a' = Assoc.find? other a := by
  induction h with
  | nil => rfl
  | set _ _ ih =>
    obtain ⟨hne, hother⟩ := List.forall_mem_cons.1 hother
    exact (ih hother).trans ((Markup.find?_bindAttribute _ _ _ _).trans (if_neg (Ne.symm hne)))
  | remove _ ih =>
    obtain ⟨hne, hother⟩ := List.forall_mem_cons.1 hother
    exact (ih hother).trans (Assoc.find?_erase_of_ne (Ne.symm hne) _)

/-- The last change that is about an attribute decides: after it was set. -/
theorem find?_set (h : Makes env (earlier ++ .set name value :: later) a a')
    (hshown : ∀ w, M.run' env w (Present.shown value) = (.ok (.text shown), w))
    (hlater : ∀ c ∈ later, c.name ≠ Text.toLower name) :
    Assoc.find? (Text.toLower name) a' = some shown := by
  obtain ⟨b, _, hset⟩ := h.split
  cases hset with
  | set hshown' hmore =>
    have hsame := (hshown World.blank).symm.trans (hshown' World.blank)
    cases hsame
    rw [hmore.find?_other hlater, Markup.find?_bindAttribute, if_pos rfl]

/-- The last change that is about an attribute decides: after it was removed. -/
theorem find?_remove (h : Makes env (earlier ++ .remove name :: later) a a')
    (hlater : ∀ c ∈ later, c.name ≠ name) : Assoc.find? name a' = none := by
  obtain ⟨b, _, hremove⟩ := h.split
  cases hremove with
  | remove hmore => rw [hmore.find?_other hlater, Assoc.find?_erase]

/-- A name that is not in lower case is never the name of an attribute of an element whose names
were in lower case. -/
theorem find?_capital (h : Makes env changes a a') (hname : Text.toLower name ≠ name)
    (hold : Assoc.find? name a = none) : Assoc.find? name a' = none := by
  induction h with
  | nil => exact hold
  | @set _ _ _ set _ _ _ _ ih =>
    refine ih ?_
    have hne : name ≠ Text.toLower set := by
      rintro rfl
      exact hname (Text.toLower_idem set)
    rw [Markup.find?_bindAttribute, if_neg hne, hold]
  | @remove _ _ _ removed _ ih =>
    refine ih ?_
    by_cases hne : name = removed
    · rw [hne, Assoc.find?_erase]
    · rw [Assoc.find?_erase_of_ne hne, hold]

end Makes

end Change

variable {host : HostFunctions} {w : World} {V : View} {e : ObjectId} {tag : Value}
  {a a' : Attributes} {name shown : Text} {value : Value} {changes : List Change}

/-! Asking for attributes. -/

theorem run'_readAttribute (env : Env) (hs : Shows w V) (he : V.core e = some (.element tag))
    (ha : (V.attributes e).live = Markup.values a) (name : Text) :
    M.run' env w (readAttribute (.object e) (.text name)) =
      (.ok ((Assoc.find? name a).elim .null .text), w) := by
  rw [readAttribute, M.run'_bind_ok (Tree.run'_getText hs he ha name)]
  cases Assoc.find? name a with
  | none => rfl
  | some t => rfl

theorem run'_hasAttribute (env : Env) (hs : Shows w V) (he : V.core e = some (.element tag))
    (ha : (V.attributes e).live = Markup.values a) (name : Text) :
    M.run' env w (Tree.hasAttribute (.object e) (.text name)) =
      (.ok (.bool (Assoc.find? name a).isSome), w) := by
  rw [Tree.hasAttribute, M.run'_bind_ok (Tree.run'_attributeMap (hs.record e _ he) rfl),
    M.run'_bind_ok (Tree.run'_mapEntries (hs.map e _ he rfl))]
  simp only [Entries.has, Entries.find?, ha, Markup.find_values, Option.isSome_map]
  rfl

/-! Changing attributes. -/

/-- Binding a key by the method of maps. -/
theorem run'_invoke_set {m : ObjectId} {entries : Entries} (hm : w.cells[m]? = some (.map entries))
    (key value : Value) (n : Nat) :
    M.run' (Env.ofDepth host (n + 1)) w (Convert.invoke (.object m) "set" [key, value]) =
      (.ok (.object m), w.setCell m (.map (entries.put key value))) := by
  have hcell := World.cell_of_getElem? hm
  have hget : M.run' (Env.ofDepth host (n + 1)) w (Property.get (.object m) "set") =
      (.ok (.function (.map .set)), w) :=
    Property.run'_get_member (m := some (.function (.map .set)))
      (Property.run'_search_map hcell _) rfl
  have hcall : M.run' (Env.ofDepth host n) w (Library.callMap .set (.object m) [key, value]) =
      (.ok (.object m), w.setCell m (.map (entries.put key value))) := by
    simp [Library.callMap, Library.receiverMap, M.run'_bind, hcell, Library.argument]
  rw [Convert.invoke, M.run'_bind_ok hget]
  exact hcall

theorem does_writeAttribute (hs : Shows w V) (he : V.core e = some (.element tag))
    (hshown : ∀ w, M.run' (Env.of host) w (Present.shown value) = (.ok (.text shown), w))
    (name : Text) :
    Does (Env.of host) w V (writeAttribute (.object e) (.text name) value) ()
      (V.setAttributes e ((V.attributes e).put (.text (Text.toLower name)) (.text shown))) := by
  have hset : M.run' (Env.of host) w (Convert.invoke (.object (Tree.attributesOf e)) "set"
      [.text (Text.toLower name), .text shown]) = _ :=
    run'_invoke_set (hs.map e _ he rfl) (.text (Text.toLower name)) (.text shown) 4999
  refine .bind_of_run (Tree.run'_attributeMap (hs.record e _ he) rfl)
    (.bind_of_run (a := name) rfl (.bind_of_run (hshown w) ⟨_, ?_, .setAttributes hs he rfl _⟩))
  rw [Functor.discard, LawfulFunctor.map_const, Function.comp, M.run'_map, hset]

/-- Changes one after another. -/
theorem does_changes (h : Change.Makes (Env.of host) changes a a') :
    ∀ {w : World} {V : View}, Shows w V → V.core e = some (.element tag) →
      (V.attributes e).live = Markup.values a →
      ∃ entries : Entries, entries.live = Markup.values a' ∧
        Does (Env.of host) w V (changes.forM (Change.perform (.object e))) ()
          (V.setAttributes e entries) := by
  induction h with
  | nil =>
    intro w V hs he ha
    refine ⟨V.attributes e, ha, ?_⟩
    rw [View.setAttributes_self]
    exact .pure hs ()
  | @set changes a a' name shown value hshown _ ih =>
    intro w V hs he ha
    obtain ⟨w1, hrun, hs1⟩ := does_writeAttribute hs he hshown name
    have hl := Entries.live_put_values ha (Text.toLower name) shown
    obtain ⟨entries, hentries, w', hrun', hs'⟩ :=
      ih hs1.shows he (by rw [View.setAttributes_attributes, hl])
    rw [View.setAttributes_setAttributes] at hs'
    exact ⟨entries, hentries, w', (M.run'_bind_ok hrun).trans hrun', hs1.trans hs'⟩
  | @remove changes a a' name _ ih =>
    intro w V hs he ha
    obtain ⟨w1, hrun, hs1⟩ :
        Does (Env.of host) w V (Change.perform (.object e) (.remove name)) () _ :=
      Tree.does_removeAttribute hs he (.text name)
    have hl : ((V.attributes e).erase (.text name)).live = Markup.values (Assoc.erase name a) := by
      rw [Entries.live_erase, ha, Markup.erase_values]
    obtain ⟨entries, hentries, w', hrun', hs'⟩ :=
      ih hs1.shows he (by rw [View.setAttributes_attributes, hl])
    rw [View.setAttributes_setAttributes] at hs'
    exact ⟨entries, hentries, w', (M.run'_bind_ok hrun).trans hrun', hs1.trans hs'⟩

/-- **Attributes with names in lower case are a map.** Whatever was set and removed, asking for an
attribute and asking whether there is one tell what the changes come to. What was set last under a
name has that value and what was removed last is gone, what no change was about is as it was, and
names that are not in lower case are not found unless they were there before. -/
theorem changes_read (host : HostFunctions) (hs : Shows w V) (he : V.core e = some (.element tag))
    (ha : (V.attributes e).live = Markup.values a)
    (h : Change.Makes (Env.of host) changes a a') :
    ∃ w', M.run' (Env.of host) w (changes.forM (Change.perform (.object e))) = (.ok (), w') ∧
      (∀ name, M.run' (Env.of host) w' (readAttribute (.object e) (.text name)) =
          (.ok ((Assoc.find? name a').elim .null .text), w') ∧
        M.run' (Env.of host) w' (Tree.hasAttribute (.object e) (.text name)) =
          (.ok (.bool (Assoc.find? name a').isSome), w')) ∧
      (∀ name, (∀ c ∈ changes, c.name ≠ name) → Assoc.find? name a' = Assoc.find? name a) ∧
      (∀ earlier name value later shown, changes = earlier ++ .set name value :: later →
        (∀ w, M.run' (Env.of host) w (Present.shown value) = (.ok (.text shown), w)) →
        (∀ c ∈ later, c.name ≠ Text.toLower name) →
        Assoc.find? (Text.toLower name) a' = some shown) ∧
      (∀ earlier name later, changes = earlier ++ .remove name :: later →
        (∀ c ∈ later, c.name ≠ name) → Assoc.find? name a' = none) ∧
      ∀ name, Text.toLower name ≠ name → Assoc.find? name a = none →
        Assoc.find? name a' = none := by
  obtain ⟨entries, hentries, w', hrun, hs'⟩ := does_changes h hs he ha
  have hread : ((V.setAttributes e entries).attributes e).live = Markup.values a' := by
    rw [View.setAttributes_attributes, hentries]
  refine ⟨w', hrun, fun name => ⟨?_, ?_⟩, fun name => h.find?_other, ?_, ?_, ?_⟩
  · exact run'_readAttribute _ hs'.shows he hread name
  · exact run'_hasAttribute _ hs'.shows he hread name
  · rintro earlier name value later shown rfl hshown hlater
    exact h.find?_set hshown hlater
  · rintro earlier name later rfl hlater
    exact h.find?_remove hlater
  · exact fun name hname hold => h.find?_capital hname hold

end Handle

end PageTemplate
