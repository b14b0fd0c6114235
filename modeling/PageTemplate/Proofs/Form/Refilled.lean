import PageTemplate.Form.Handle
import PageTemplate.Proofs.Form.Held
import PageTemplate.Proofs.Form.Rewritten

/-!
# PageTemplate.Proofs.Form.Refilled

Filling any form. As long as data is read without regard to the places that filling writes to, a
form that is filled becomes what `withFields` makes of its markup; so filling it once more with the
same data changes nothing. Data that is read from these places may grow while the form is filled: a
form that is filled with the attributes of its own control gets more fields each time.
-/

namespace PageTemplate

open Markup (Node)

namespace Form

open View

/-- A form on the way from a store that showed a view to one that shows another view. It has the
markup that it has got so far, and all that has changed are places that filling writes to. -/
structure Filling (w : World) (V : View) (form : ObjectId) (tag : Text)
    (attributes : Markup.Attributes) (ns : List Node) (w' : World) (V' : View) : Prop where
  shows : Shows w' V'
  markup : V'.IsMarkup
  represents : V'.Represents form (Node.element tag attributes ns).tree
  flat : Markup.hasFlatControlsAll ns = true
  differs : w.DiffersAt (V.Written form) w'
  written : ∀ id, id < w.cells.size → V'.Written form id → V.Written form id
  children : V.children form <+: V'.children form

/-- Whether an action leads to a form with certain markup inside. -/
def FillsWith (env : Env) (w : World) (V : View) (form : ObjectId) (tag : Text)
    (attributes : Markup.Attributes) (w' : World) (action : M Unit) (ns : List Node) : Prop :=
  ∃ w'' V'', M.run' env w' action = (.ok (), w'') ∧ Filling w V form tag attributes ns w'' V''

variable {env : Env} {w w' : World} {V V' : View} {form : ObjectId} {tag : Text}
  {attributes : Markup.Attributes} {ns ms : List Node}

namespace Filling

theorem start (hs : Shows w V) (hm : V.IsMarkup)
    (hform : V.Represents form (Node.element tag attributes ns).tree)
    (hflat : Markup.hasFlatControlsAll ns = true) :
    Filling w V form tag attributes ns w V :=
  ⟨hs, hm, hform, hflat, .refl w _, fun _ _ hw => hw, List.prefix_refl _⟩

/-- Reading something without regard to what is written to. -/
theorem read (h : Filling w V form tag attributes ns w' V') {α : Type} {action : M α} {a : α}
    (hr : M.Reads env w (V.Written form) action a) :
    ∃ w'', M.run' env w' action = (.ok a, w'') ∧ Filling w V form tag attributes ns w'' V' := by
  obtain ⟨w'', hrun, hnew⟩ := hr w' h.differs
  exact ⟨w'', hrun, h.shows.of_old fun id hlt => hnew.cells id not_false hlt, h.markup,
    h.represents, h.flat, h.differs.trans hnew nofun, h.written, h.children⟩

theorem step (h : Filling w V form tag attributes ns w' V') {w'' : World} {V'' : View}
    (ht : TreeStep w' V' w'' V'') (hm : V''.IsMarkup)
    (hform : V''.Represents form (Node.element tag attributes ms).tree)
    (hflat : Markup.hasFlatControlsAll ms = true) (hdiffers : w'.DiffersAt (V'.Written form) w'')
    (hparents : V'.KeepsParents V'') (hchildren : V'.children form <+: V''.children form) :
    Filling w V form tag attributes ms w'' V'' where
  shows := ht.shows
  markup := hm
  represents := hform
  flat := hflat
  differs := h.differs.trans hdiffers h.written
  written id hlt hw := h.written id hlt (ht.written_back h.shows h.markup.toIsForest hm.toIsForest
    hparents (Nat.lt_of_lt_of_le hlt h.differs.size) hw)
  children := h.children.trans hchildren

/-- **Setting a field** does to a form what it does to the markup. -/
theorem setField (env : Env) (h : Filling w V form tag attributes ns w' V') (name v : Text) :
    FillsWith env w V form tag attributes w' (setField (.object form) (.text name) (.text v))
      (Markup.withField ns (name, v)) := by
  have hf := h.markup.toIsForest
  have hcontainer : V'.Container form := ⟨_, h.represents.1, rfl⟩
  have hflat : V'.HasFlatControls form := h.represents.flat_of_children hf h.flat
  have hflat' := Markup.hasFlatControlsAll_withField h.flat (name, v)
  have hiff : (∃ x, V'.IsField form name x) ↔ Markup.hasFieldAll name ns = true :=
    h.represents.exists_field_iff hf hflat
  rw [Markup.withField] at hflat' ⊢
  by_cases hfield : ∃ x, V'.IsField form name x
  · rw [if_pos (hiff.1 hfield)] at hflat' ⊢
    obtain ⟨x, hx⟩ := hfield
    obtain ⟨V'', ⟨w'', hrun, ht⟩, hm, hset, hrewrites⟩ := does_setField_some env h.shows h.markup
      hcontainer (h.represents.holdsTexts hf) hflat v hx
    have hsets : V'.SetsField form name v V'' := ⟨hf, hflat, hset, hrewrites⟩
    exact ⟨w'', V'', hrun, h.step ht hm (hsets.represents h.represents) hflat'
      (hsets.differsAt h.shows ht) hset.keepsParents
      (by rw [hsets.children ⟨_, h.represents.1⟩])⟩
  · rw [if_neg (mt hiff.2 hfield)] at hflat' ⊢
    obtain ⟨V'', ⟨w'', hrun, ht⟩, hm, hgain⟩ :=
      does_setField_none env h.shows h.markup hcontainer v hfield
    have hform := hgain.represents hf h.represents
    have hdiffers := hgain.differsAt h.shows ht
    obtain ⟨l, happ, _⟩ := hgain
    exact ⟨w'', V'', hrun, h.step ht hm hform hflat' hdiffers happ.keepsParents
      ⟨[l], happ.last.symm⟩⟩

theorem serialize (env : Env) (h : Filling w V form tag attributes ns w' V') :
    M.run' env w' (Tree.serialize (.object form)) =
      (.ok (.text (Node.element tag attributes ns).serialize), w') :=
  Tree.run'_serialize h.shows h.markup.toIsForest h.represents

end Filling

namespace FillsWith

theorem refl (h : Filling w V form tag attributes ns w' V') :
    FillsWith env w V form tag attributes w' (pure ()) ns :=
  ⟨w', V', rfl, h⟩

theorem after_read (h : Filling w V form tag attributes ns w' V') {α : Type} {x : M α}
    {f : α → M Unit} {a : α} (hr : M.Reads env w (V.Written form) x a)
    (hf : ∀ w'', Filling w V form tag attributes ns w'' V' →
      FillsWith env w V form tag attributes w'' (f a) ms) :
    FillsWith env w V form tag attributes w' (x >>= f) ms := by
  obtain ⟨w1, hrun, h1⟩ := h.read hr
  obtain ⟨w2, V2, hrun', h2⟩ := hf w1 h1
  exact ⟨w2, V2, (M.run'_bind_ok hrun).trans hrun', h2⟩

theorem bind {x : M Unit} {f : Unit → M Unit}
    (h : FillsWith env w V form tag attributes w' x ns)
    (hf : ∀ w'' V'', Filling w V form tag attributes ns w'' V'' →
      FillsWith env w V form tag attributes w'' (f ()) ms) :
    FillsWith env w V form tag attributes w' (x >>= f) ms := by
  obtain ⟨w1, V1, hrun, h1⟩ := h
  obtain ⟨w2, V2, hrun', h2⟩ := hf w1 V1 h1
  exact ⟨w2, V2, (M.run'_bind_ok hrun).trans hrun', h2⟩

end FillsWith

/-! Filling a form. -/

mutual

theorem fillsWith_populateWithin (d : Data) {w' : World} {V' : View} {ns : List Node} {n : Nat}
    {v : Value} {name : Text} (h : Filling w V form tag attributes ns w' V')
    (hd : d.IsRead env w (V.Written form) v) (hn : d.depth ≤ n) :
    FillsWith env w V form tag attributes w' (populateWithin (.object form) n v (.text name))
      (Markup.withFields (d.fields name) ns) := by
  match d, n, hn with
  | .single shown, n + 1, _ =>
    rw [populateWithin]
    refine .after_read h hd.1 fun w1 h1 => ?_
    simp only [Bool.false_eq_true, if_false]
    exact .after_read h1 hd.2 fun w2 h2 => h2.setField env name shown
  | .parts ps, n + 1, hn =>
    obtain ⟨id, entries, rfl, _, hshape, hentries, hparts⟩ := hd
    rw [populateWithin]
    refine .after_read h hshape fun w1 h1 => ?_
    simp only [if_true]
    refine .bind (h1.setField env name []) fun w2 V2 h2 => ?_
    refine .after_read h2 hentries fun w3 h3 => ?_
    exact fillsWith_entries ps h3 hparts (Nat.le_of_succ_le_succ hn)

theorem fillsWith_entries (ps : List (Text × Data)) {w' : World} {V' : View} {ns : List Node}
    {n : Nat} {entries : List (Option (Value × Value))} {name : Text}
    (h : Filling w V form tag attributes ns w' V')
    (hps : Data.AreRead env w (V.Written form) ps entries) (hn : Data.partDepth ps ≤ n) :
    FillsWith env w V form tag attributes w'
      (entries.forM fun entry => do
        let (key, child) ← Present.expectEntry entry
        populateWithin (.object form) n child
          (← childNameOf (.text name) (← Present.shown key)))
      (Markup.withFields (Data.partFields name ps) ns) := by
  match ps with
  | [] =>
    rw [hps, Data.partFields]
    exact .refl h
  | (key, d) :: ps =>
    obtain ⟨k, child, rest, rfl, hkey, hd, hps⟩ := hps
    rw [Data.partFields, Markup.withFields_append]
    refine .bind (?_ : FillsWith env w V form tag attributes w' _
      (Markup.withFields (d.fields (childName name key)) ns)) fun w2 V2 h2 =>
        fillsWith_entries ps h2 hps (Nat.le_trans (Nat.le_max_right _ _) hn)
    -- Neither taking the entry apart nor making the name of the part asks the store.
    refine .after_read (a := (k, child)) h (.of_run fun _ _ => rfl) fun w1 h1 => ?_
    refine .after_read h1 hkey fun w2 h2 => ?_
    refine .after_read (a := .text (childName name key)) h2 (.of_run fun _ _ => rfl) fun w3 h3 => ?_
    exact fillsWith_populateWithin d h3 hd (Nat.le_trans (Nat.le_max_left _ _) hn)

end

/-- Filling a form with data under a name. -/
theorem fillsWith_populate {d : Data} {v : Value} {name : Text}
    (h : Filling w V form tag attributes ns w' V') (hd : d.IsRead env w (V.Written form) v) :
    FillsWith env w V form tag attributes w' (populate (.object form) v (.text name))
      (Markup.withFields (d.fields name) ns) := by
  obtain ⟨w1, V1, hrun, h1⟩ : FillsWith env w V form tag attributes w'
      (populateWithin (.object form) (w'.cells.size + 1) v (.text name))
      (Markup.withFields (d.fields name) ns) :=
    fillsWith_populateWithin d h hd (Nat.le_trans hd.depth_le (Nat.succ_le_succ h.differs.size))
  exact ⟨w1, V1, (M.run'_bind_ok Store.run'_depth).trans hrun, h1⟩

/-- The fields of parts whose keys are names. -/
def topFields (ps : List (Text × Data)) : List (Text × Text) := ps.flatMap fun p => p.2.fields p.1

theorem fillsWith_parts {ps : List (Text × Data)} {entries : List (Option (Value × Value))}
    (h : Filling w V form tag attributes ns w' V')
    (hps : Data.AreRead env w (V.Written form) ps entries) :
    FillsWith env w V form tag attributes w'
      (entries.forM fun entry => do
        let (key, value) ← Present.expectEntry entry
        populate (.object form) value (← Present.shown key))
      (Markup.withFields (topFields ps) ns) := by
  induction ps generalizing entries w' V' ns with
  | nil =>
    rw [hps]
    exact .refl h
  | cons p ps ih =>
    obtain ⟨k, value, rest, rfl, hkey, hd, hps⟩ := hps
    rw [topFields, List.flatMap_cons, ← topFields, Markup.withFields_append]
    refine .bind (?_ : FillsWith env w V form tag attributes w' _
      (Markup.withFields (p.2.fields p.1) ns)) fun w2 V2 h2 => ih h2 hps
    refine .after_read (a := (k, value)) h (.of_run fun _ _ => rfl) fun w1 h1 => ?_
    exact .after_read h1 hkey fun w2 h2 => fillsWith_populate h2 hd

/-- Filling a form with data whose keys are names. -/
theorem fillsWith_populateFrom {ps : List (Text × Data)} {data : Value}
    {entries : List (Option (Value × Value))} (h : Filling w V form "form" attributes ns w' V')
    (hentries : M.Reads env w (V.Written form) (Present.entriesOf data []) entries)
    (hps : Data.AreRead env w (V.Written form) ps entries) :
    FillsWith env w V form "form" attributes w' (Handle.populateFrom (.object form) data)
      (Markup.withFields (topFields ps) ns) := by
  have htag : M.run' env w' (Property.get (.object form) "tagName") = (.ok (.text "form"), w') :=
    Tree.run'_get_node (h.shows.record form _ h.represents.1) Tree.find_tagName
  obtain ⟨w1, hrun1, h1⟩ := h.read hentries
  obtain ⟨w2, V2, hrun2, h2⟩ := fillsWith_parts h1 hps
  exact ⟨w2, V2, (M.run'_bind_ok htag).trans ((M.run'_bind_ok hrun1).trans hrun2), h2⟩

/-- Whether an action succeeds, and leaves an element with the same text when it is done twice as
when it is done once. -/
def IsIdempotentAt (env : Env) (w : World) (e : ObjectId) (action : M Unit) (html : Text) : Prop :=
  ∃ w1 w2, M.run' env w action = (.ok (), w1) ∧
    M.run' env w1 (Tree.serialize (.object e)) = (.ok (.text html), w1) ∧
    M.run' env w1 action = (.ok (), w2) ∧
    M.run' env w2 (Tree.serialize (.object e)) = (.ok (.text html), w2)

theorem isIdempotentAt_of_fillsWith {action : M Unit} {fields : List (Text × Text)}
    (h : Filling w V form tag attributes ns w V)
    (hfills : ∀ {w' V' ms}, Filling w V form tag attributes ms w' V' →
      FillsWith env w V form tag attributes w' action (Markup.withFields fields ms)) :
    IsIdempotentAt env w form action
      (Node.element tag attributes (Markup.withFields fields ns)).serialize := by
  -- Both runs are told from the first store, so what is read is the same in the second one.
  obtain ⟨w1, V1, hrun1, h1⟩ := hfills h
  obtain ⟨w2, V2, hrun2, h2⟩ := hfills h1
  rw [Markup.withFields_idem] at h2
  exact ⟨w1, w2, hrun1, h1.serialize env, hrun2, h2.serialize env⟩

/-- **Filling a form is idempotent.** Where no textarea and no menu of a form has a control inside,
filling the form with data that is read without regard to what filling writes to succeeds, and doing
it twice leaves the same text as doing it once; and so does filling it with data whose keys are the
names of fields. -/
theorem populate_idempotent (env : Env) (hs : Shows w V) (hm : V.IsMarkup)
    (hform : V.Represents form (Node.element tag attributes ns).tree)
    (hflat : Markup.hasFlatControlsAll ns = true) :
    (∀ (d : Data) (v : Value) (name : Text), d.IsRead env w (V.Written form) v →
      IsIdempotentAt env w form (populate (.object form) v (.text name))
        (Node.element tag attributes (Markup.withFields (d.fields name) ns)).serialize) ∧
    (∀ (ps : List (Text × Data)) (data : Value) (entries : List (Option (Value × Value))),
      tag = "form" → M.Reads env w (V.Written form) (Present.entriesOf data []) entries →
      Data.AreRead env w (V.Written form) ps entries →
      IsIdempotentAt env w form (Handle.populateFrom (.object form) data)
        (Node.element tag attributes (Markup.withFields (topFields ps) ns)).serialize) := by
  have hstart := Filling.start hs hm hform hflat
  constructor
  · intro d v name hd
    exact isIdempotentAt_of_fillsWith hstart fun h => fillsWith_populate h hd
  · rintro ps data entries rfl hentries hps
    exact isIdempotentAt_of_fillsWith hstart fun h => fillsWith_populateFrom h hentries hps

/-- Data in which two parts have the same name for their field: the mark in a key is where the next
key comes. -/
def sampleData : Data := .parts [("%", .parts [("size", .single "s")]), ("size", .single "m")]

/-- The data of the sample, in two maps beside a tree. -/
theorem exists_sampleData (hs : Shows w V) :
    ∃ w' v, Shows w' V ∧ sampleData.IsHeld w' V v := by
  let inner : Entries := .ofList [(.text "size", .text "s")]
  let outer : Entries := .ofList [(.text "%", .object w.cells.size), (.text "size", .text "m")]
  let cells : List Cell := [.map inner, .map outer]
  have hinner : (w.allocAll cells).cell w.cells.size = .map inner :=
    World.cell_of_getElem? (World.allocAll_new w cells 0)
  have houter : (w.allocAll cells).cell (w.cells.size + 1) = .map outer :=
    World.cell_of_getElem? (World.allocAll_new w cells 1)
  have hbeside : ∀ {id}, w.cells.size ≤ id → ¬ V.Place id := fun hle hp =>
    absurd (hs.place_lt hp) (Nat.not_lt.2 hle)
  refine ⟨w.allocAll cells, .object (w.cells.size + 1), hs.allocAll cells,
    Data.isHeld_map houter (hbeside (Nat.le_succ _)) ?_⟩
  refine ⟨_, _, _, rfl, isShown_text _, ?_, _, _, [], rfl, isShown_text _, isShown_text _, rfl⟩
  exact Data.isHeld_map hinner (hbeside (Nat.le_refl _))
    ⟨_, _, [], rfl, isShown_text _, isShown_text _, rfl⟩

/-- The sample form when it is filled with the sample data. -/
def sampleFilled : Node :=
  .element "form" [] [
    .element "input" [("name", "size"), ("value", "m")] [],
    .element "input" [("type", "Checkbox"), ("name", "size")] [],
    .element "p" [] [.element "textarea" [("name", "size")] [.text "m" false]],
    .element "select" [("name", "size")] [
      .element "option" [] [.text "s" false],
      .element "option" [("value", "m"), ("selected", "selected")] [.text "medium" false]],
    .element "input" [("name", "color"), ("value", "m")] [],
    .element "input" [("type", "hidden"), ("name", "%"), ("value", "")] []]

theorem withFields_sample :
    ∃ ns, sampleForm = .element "form" [] ns ∧ Markup.hasFlatControlsAll ns = true ∧
      (Node.element "form" [] (Markup.withFields (sampleData.fields "%") ns)).serialize =
        sampleFilled.serialize ∧
      ∀ ps, sampleData = .parts ps →
        (Node.element "form" [] (Markup.withFields (topFields ps) ns)).serialize =
          sampleFilled.serialize := by
  refine ⟨_, rfl, by decide, by decide +kernel, ?_⟩
  rintro ps ⟨rfl⟩
  decide +kernel

/-- The sample form is filled with the sample data under a name, and by the names of its fields. -/
theorem populate_idempotent_sample :
    ∃ w V form v, Shows w V ∧ V.Represents form sampleForm.tree ∧ sampleData.IsHeld w V v ∧
      IsIdempotentAt Env.silent w form (populate (.object form) v (.text "%"))
        sampleFilled.serialize ∧
      IsIdempotentAt Env.silent w form (Handle.populateFrom (.object form) v)
        sampleFilled.serialize := by
  obtain ⟨w0, V, form, hs0, hm, hform⟩ := exists_planted sampleForm
  obtain ⟨w, v, hs, hd⟩ := exists_sampleData hs0
  obtain ⟨ns, hsample, hflat, hunder, hnamed⟩ := withFields_sample
  have hread : sampleData.IsRead Env.silent w (V.Written form) v :=
    Data.IsHeld.isRead _ (fun _ hw => hw.place hm.toIsForest ⟨_, hform.1, rfl⟩) _ hd
  obtain ⟨_, entries, _, _, _, hentries, hparts⟩ := id hread
  have hboth := populate_idempotent Env.silent hs hm (hsample ▸ hform) hflat
  refine ⟨w, V, form, v, hs, hform, hd, ?_, ?_⟩
  · rw [← hunder]
    exact hboth.1 _ _ "%" hread
  · rw [← hnamed _ rfl]
    exact hboth.2 _ _ entries rfl hentries hparts

/-! Filling a form with the attributes of its own first child. -/

/-- The first child of a form that is filled is in front of what is in the form. -/
theorem Filling.first {x : ObjectId} {rest : List ObjectId} {n : Node}
    (h : Filling w V form tag attributes (n :: ns) w' V') (hx : V.children form = x :: rest) :
    V'.Represents x n.tree := by
  obtain ⟨more, hmore⟩ := h.children
  obtain ⟨y, _, hchildren, hy, _⟩ := h.represents.2.2
  rw [hx, List.cons_append] at hmore
  cases hmore.trans hchildren
  exact hy

/-- The attributes of the first child are what they are in the markup. -/
theorem Filling.holds {x : ObjectId} {rest : List ObjectId} {t : Text} {a : Markup.Attributes}
    {inner : List Node} (h : Filling w V form tag attributes (.element t a inner :: ns) w' V')
    (hx : V.children form = x :: rest) :
    (w'.cell (Tree.attributesOf x)).Flattens ∧
      Present.Holds w' (.object (Tree.attributesOf x)) ((Markup.values a).map some) := by
  have hrep := h.first hx
  have hcell := World.cell_of_getElem? (h.shows.map x _ hrep.1 rfl)
  rw [hcell, ← hrep.2.1]
  exact ⟨trivial, .map hcell⟩

/-- Texts are read from whatever store. -/
theorem areRead_texts (P : ObjectId → Prop) (a : Markup.Attributes) :
    Data.AreRead env w P (a.map fun p => (p.1, .single p.2)) ((Markup.values a).map some) := by
  induction a with
  | nil => rfl
  | cons p a ih =>
    refine ⟨_, _, _, rfl, Data.reads_of_isShown (isShown_text p.1), ⟨?_, ?_⟩, ih⟩
    · exact .of_run fun w' _ => rfl
    · exact Data.reads_of_isShown (isShown_text p.2)

theorem partDepth_texts (a : Markup.Attributes) :
    Data.partDepth (a.map fun p => (p.1, .single p.2)) ≤ 1 := by
  induction a with
  | nil => exact Nat.zero_le _
  | cons p a ih => exact Nat.max_le.2 ⟨Nat.le_refl _, ih⟩

/-- Filling a form with the attributes of its first child: they are read after the field for the
whole was set. -/
theorem fillsWith_ownAttributes (env : Env) (name : Text) {x : ObjectId} {rest : List ObjectId}
    {t : Text} {a b : Markup.Attributes} {inner inner' ms : List Node}
    (h : Filling w V form tag attributes (.element t a inner :: ns) w' V')
    (hx : V.children form = x :: rest)
    (hset : Markup.withField (.element t a inner :: ns) (name, []) = .element t b inner' :: ms) :
    FillsWith env w V form tag attributes w'
      (populate (.object form) (.object (Tree.attributesOf x)) (.text name))
      (Markup.withFields (Data.partFields name (b.map fun p => (p.1, .single p.2)))
        (.element t b inner' :: ms)) := by
  have hsize : 0 < w'.cells.size := Nat.zero_lt_of_lt (h.shows.lt h.represents.1)
  obtain ⟨hflat, hholds⟩ := h.holds hx
  obtain ⟨w1, V1, hrun1, h1⟩ := h.setField env name []
  rw [hset] at h1
  have hentries : M.run' env w1 (Present.entriesOf (.object (Tree.attributesOf x)) []) = _ :=
    Present.run'_entriesOf (h1.holds hx).2 []
  obtain ⟨w2, V2, hrun2, h2⟩ := fillsWith_entries _ h1 (areRead_texts _ b)
    (Nat.le_trans (partDepth_texts b) hsize)
  refine ⟨w2, V2, ?_, h2⟩
  rw [populate, M.run'_bind_ok Store.run'_depth, populateWithin,
    M.run'_bind_ok (Present.run'_isObjectShaped hholds hflat)]
  exact (M.run'_bind_ok hrun1).trans ((M.run'_bind_ok hentries).trans hrun2)

/-- A form with a control whose name is that of a field for its own attributes. -/
def sampleEcho : Node := .element "form" [] [.element "input" [("name", "x[name]")] []]

/-- A form that is filled with the attributes of its own control gets a value for the control, and
then a field for this value. -/
theorem populate_own_attributes :
    ∃ w V form x, Shows w V ∧ V.IsMarkup ∧ V.Represents form sampleEcho.tree ∧
      sampleEcho.hasFlatControls = true ∧ V.parent x = some form ∧
      Present.Holds w (.object (Tree.attributesOf x)) [some (.text "name", .text "x[name]")] ∧
      ∃ w1 w2 html1 html2,
        M.run' Env.silent w
          (populate (.object form) (.object (Tree.attributesOf x)) (.text "x")) = (.ok (), w1) ∧
        M.run' Env.silent w1 (Tree.serialize (.object form)) = (.ok (.text html1), w1) ∧
        M.run' Env.silent w1
          (populate (.object form) (.object (Tree.attributesOf x)) (.text "x")) = (.ok (), w2) ∧
        M.run' Env.silent w2 (Tree.serialize (.object form)) = (.ok (.text html2), w2) ∧
        html1 ≠ html2 := by
  obtain ⟨w, V, form, hs, hm, hform⟩ := exists_planted sampleEcho
  have h := Filling.start hs hm hform (by decide)
  obtain ⟨x, rest, hx, _⟩ := hform.2.2
  obtain ⟨w1, V1, hrun1, h1⟩ := fillsWith_ownAttributes Env.silent "x" h hx rfl
  obtain ⟨w2, V2, hrun2, h2⟩ := fillsWith_ownAttributes Env.silent "x" h1 hx rfl
  have hparent : V.parent x = some form :=
    (hm.mem_children form x).1 (by rw [hx]; exact List.mem_cons_self)
  exact ⟨w, V, form, x, hs, hm, hform, by decide, hparent, (h.holds hx).2, w1, w2, _, _, hrun1,
    h1.serialize _, hrun2, h2.serialize _, by decide +kernel⟩

end Form

end PageTemplate
