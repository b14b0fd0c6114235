import PageTemplate.Proofs.Form.Held

/-!
# PageTemplate.Proofs.Form.Populate

Filling an empty form. Where all names are different, every part of the data gets a hidden field of
its own, in the order of the parts, and nothing else changes; `does_populate_paths` says so for data
whose keys have neither the mark nor a closing bracket, and names each field by its path.
-/

namespace PageTemplate

namespace Form

open Expander (Fields fieldTree)

/-- Fields with texts for names and values. -/
def textFields (fields : List (Text × Text)) : Fields :=
  fields.map fun f => (.text f.1, .text f.2)

/-- Whether an action leaves a form that was built beside a view, and now has certain fields. -/
def FillsForm (env : Env) (w : World) (V : View) (form : ObjectId) (V1 : View) (action : M Unit)
    (fields : List (Text × Text)) : Prop :=
  ∃ V', Does env w V1 action () V' ∧ V'.IsRegular ∧
    V.Built form formCore ((textFields fields).map fieldTree) V'

variable {env : Env} {w : World} {V V1 : View} {form : ObjectId}
  {fields more : List (Text × Text)}

namespace FillsForm

theorem refl (hs : Shows w V1) (hg : V1.IsRegular)
    (hb : V.Built form formCore ((textFields fields).map fieldTree) V1) :
    FillsForm env w V form V1 (pure ()) fields :=
  ⟨V1, .pure hs (), hg, hb⟩

theorem after {α : Type} {x : M α} {f : α → M Unit} {a : α} (hr : M.run' env w x = (.ok a, w))
    (h : FillsForm env w V form V1 (f a) fields) : FillsForm env w V form V1 (x >>= f) fields := by
  obtain ⟨V', hdoes, hg, hb⟩ := h
  exact ⟨V', .bind_of_run hr hdoes, hg, hb⟩

theorem bind {x : M Unit} {f : Unit → M Unit} (h : FillsForm env w V form V1 x fields)
    (hf : ∀ w' V', TreeStep w V1 w' V' → V'.IsRegular →
      V.Built form formCore ((textFields fields).map fieldTree) V' →
      FillsForm env w' V form V' (f ()) more) : FillsForm env w V form V1 (x >>= f) more := by
  obtain ⟨V', ⟨w', hrun, hs⟩, hg, hb⟩ := h
  obtain ⟨V'', ⟨w'', hrun', hs'⟩, hg', hb'⟩ := hf w' V' hs hg hb
  exact ⟨V'', ⟨w'', (M.run'_bind_ok hrun).trans hrun', hs.trans hs'⟩, hg', hb'⟩

end FillsForm

/-- Setting a field with a new name. -/
theorem fills_setField (env : Env) (hs : Shows w V1) (hg : V1.IsRegular)
    (hb : V.Built form formCore ((textFields fields).map fieldTree) V1) (name value : Text)
    (hname : name ∉ fields.map Prod.fst) :
    FillsForm env w V form V1 (setField (.object form) (.text name) (.text value))
      (fields ++ [(name, value)]) := by
  have hnone : ((textFields fields).any fun f => f.1.strictlyEqual (.text name)) = false := by
    refine List.any_eq_false.2 fun f hf he => hname ?_
    obtain ⟨field, hm, rfl⟩ := List.mem_map.1 hf
    have hsame : field.1 = name := by simpa [Value.strictlyEqual, Value.identicalBy] using he
    exact hsame ▸ List.mem_map_of_mem hm
  obtain ⟨V', hdoes, hg', hb'⟩ := does_setField_new env hs hg hb (.text name) (.text value) hnone
  refine ⟨V', hdoes, hg', ?_⟩
  rwa [textFields, List.map_append]

/-- The name of a field is new where all names are different. -/
theorem name_not_mem {field : Text × Text} (h : ((fields ++ field :: more).map Prod.fst).Nodup) :
    field.1 ∉ fields.map Prod.fst := by
  rw [List.map_append, List.map_cons] at h
  exact View.not_mem_before h

mutual

/-- Filling a form with data in which no name comes twice. -/
theorem fills_populateWithin (d : Data) {w : World} {V1 : View} {fields : List (Text × Text)}
    {n : Nat} {v : Value} {name : Text} (hs : Shows w V1) (hg : V1.IsRegular)
    (hb : V.Built form formCore ((textFields fields).map fieldTree) V1) (hd : d.IsHeld w V1 v)
    (hn : d.depth ≤ n) (hnames : ((fields ++ d.fields name).map Prod.fst).Nodup) :
    FillsForm env w V form V1 (populateWithin (.object form) n v (.text name))
      (fields ++ d.fields name) := by
  match d, n, hn with
  | .single shown, n + 1, hn =>
    obtain ⟨hv, hshown⟩ := hd
    rw [populateWithin]
    refine .after (Present.run'_isObjectShaped_single hv) ?_
    simp only [Bool.false_eq_true, if_false]
    refine .after (hshown env w) ?_
    exact fills_setField env hs hg hb name shown (name_not_mem hnames)
  | .parts ps, n + 1, hn =>
    have hwhole := hd
    obtain ⟨id, entries, rfl, hflat, _, hholds, hparts⟩ := hd
    rw [Data.fields, List.append_cons] at hnames ⊢
    rw [populateWithin]
    refine .after (Present.run'_isObjectShaped hholds hflat) ?_
    simp only [if_true]
    refine .bind (fills_setField env hs hg hb name [] ?_) fun w' V' hs' hg' hb' => ?_
    · rw [List.append_assoc] at hnames
      exact name_not_mem hnames
    · obtain ⟨id', entries', hid, _, _, hholds', hparts'⟩ := Data.IsHeld.step hs' _ hwhole
      cases hid
      refine .after (Present.run'_entriesOf hholds' []) ?_
      exact fills_entries ps hs'.shows hg' hb' hparts' (Nat.le_of_succ_le_succ hn) hnames

/-- One part after another, each with the fields that it takes. -/
theorem fills_entries (ps : List (Text × Data)) {w : World} {V1 : View}
    {fields : List (Text × Text)} {n : Nat} {entries : List (Option (Value × Value))} {name : Text}
    (hs : Shows w V1) (hg : V1.IsRegular)
    (hb : V.Built form formCore ((textFields fields).map fieldTree) V1)
    (hps : Data.AreHeld w V1 ps entries) (hn : Data.partDepth ps ≤ n)
    (hnames : ((fields ++ Data.partFields name ps).map Prod.fst).Nodup) :
    FillsForm env w V form V1
      (entries.forM fun entry => do
        let (key, child) ← Present.expectEntry entry
        populateWithin (.object form) n child
          (← childNameOf (.text name) (← Present.shown key)))
      (fields ++ Data.partFields name ps) := by
  match ps with
  | [] =>
    rw [hps, Data.partFields, List.append_nil]
    exact .refl hs hg hb
  | (key, d) :: ps =>
    obtain ⟨k, child, rest, rfl, hkey, hd, hps⟩ := hps
    rw [Data.partFields, ← List.append_assoc] at hnames ⊢
    have hfirst : ((fields ++ d.fields (childName name key)).map Prod.fst).Nodup := by
      rw [List.map_append] at hnames
      exact hnames.of_append_left
    have hturn : FillsForm env w V form V1
        (do
          let (key, child) ← Present.expectEntry (some (k, child))
          populateWithin (.object form) n child
            (← childNameOf (.text name) (← Present.shown key)))
        (fields ++ d.fields (childName name key)) := by
      refine .after (a := (k, child)) rfl (.after (hkey.2 env w) (.after (a := _) rfl ?_))
      exact fills_populateWithin d hs hg hb hd (Nat.le_trans (Nat.le_max_left _ _) hn) hfirst
    refine .bind hturn fun w' V' hs' hg' hb' => ?_
    exact fills_entries ps hs'.shows hg' hb' (Data.AreHeld.step hs' ps hps)
      (Nat.le_trans (Nat.le_max_right _ _) hn) hnames

end

/-- **Filling an empty form** with data in which no name comes twice: the form gets the fields of the
data, in order, and everything outside of it is as it was. -/
theorem does_populate (env : Env) {d : Data} {v : Value} {name : Text} (hs : Shows w V1)
    (hg : V1.IsRegular) (hb : V.Built form formCore [] V1) (hd : d.IsHeld w V1 v)
    (hnames : ((d.fields name).map Prod.fst).Nodup) :
    ∃ V', Does env w V1 (populate (.object form) v (.text name)) () V' ∧ V'.IsRegular ∧
      V.Built form formCore ((textFields (d.fields name)).map fieldTree) V' := by
  have hdepth : d.depth ≤ w.cells.size + 1 := hd.depth_le
  have hfill : FillsForm env w V form V1
      (populateWithin (.object form) (w.cells.size + 1) v (.text name)) ([] ++ d.fields name) :=
    fills_populateWithin d hs hg hb hd hdepth hnames
  exact FillsForm.after Store.run'_depth hfill

/-- **Fields are named by paths.** Data whose keys can be written in brackets fills an empty form with
one field for each part, in order: its name is the path to the part in brackets, its value what the
part is shown as. -/
theorem does_populate_paths (env : Env) {d : Data} {v : Value} {name : Text} (hs : Shows w V1)
    (hg : V1.IsRegular) (hb : V.Built form formCore [] V1) (hd : d.IsHeld w V1 v)
    (hname : unit '%' ∉ name) (hkeys : d.Keys IsPlainKey) (hdistinct : d.Distinct) :
    ∃ V', Does env w V1 (populate (.object form) v (.text name)) () V' ∧ V'.IsRegular ∧
      V.Built form formCore
        (d.paths.map fun p => fieldTree (.text (bracketed name p.1), .text p.2)) V' := by
  obtain ⟨V', hdoes, hg', hb'⟩ :=
    does_populate env hs hg hb hd (Data.nodup_names hname hkeys hdistinct)
  refine ⟨V', hdoes, hg', ?_⟩
  rwa [Data.fields_eq_paths d hname hkeys, textFields, List.map_map, List.map_map] at hb'

end Form

end PageTemplate
