import PageTemplate.Proofs.Template.Source
import PageTemplate.Proofs.Template.Fields

/-!
# PageTemplate.Proofs.Template.Settled

Expanding again. What expansion leaves of a template has no inline code, no control element and no
expression that an element is finished with. Expanding it once more can only find markers, in its
attributes and in the bodies of its scripts; where it finds none, the store stays as it is.
-/

namespace PageTemplate

namespace Entries

/-- Binding a key to the value that it has. -/
theorem put_same {name : Text} {value : Value} {es : Entries} (h : es.has (.text name) = true)
    (hv : ∀ e ∈ es.live, (e.1 == .text name) = true → e = (.text name, value)) :
    es.put (.text name) value = es := by
  rw [put, if_pos h]
  clear h
  induction es with
  | nil => rfl
  | cons e es ih =>
    cases e with
    | none => exact congrArg _ (ih hv)
    | some e =>
      have hes := ih fun f hf => hv f (List.mem_cons_of_mem e hf)
      rw [List.map_cons, hes]
      by_cases he : (e.1 == .text name) = true
      · rw [hv e List.mem_cons_self he]
        simp
      · simp [he]

end Entries

namespace World

theorem setCell_same {w : World} {id : ObjectId} {c : Cell} (h : w.cells[id]? = some c) :
    w.setCell id c = w := by
  obtain ⟨hlt, rfl⟩ := Array.getElem?_eq_some_iff.1 h
  have hcells : w.cells.setIfInBounds id w.cells[id] = w.cells := by
    simp [Array.setIfInBounds, hlt]
  rw [setCell, hcells]

end World

/-- Whether an action leaves the store as it is. It yields a certain value, unless it goes too
deep. -/
def Idle (env : Env) (w : World) {α : Type} (action : M α) (a : α) : Prop :=
  M.run' env w action = (.ok a, w) ∨ M.run' env w action = (.error (.library .rangeError), w)

namespace Idle

variable {env : Env} {w : World} {α β : Type}

theorem of_run {action : M α} {a : α} (h : M.run' env w action = (.ok a, w)) :
    Idle env w action a := .inl h

theorem pure (a : α) : Idle env w (pure a : M α) a := .inl rfl

theorem tooDeep (a : α) : Idle env w (M.failLibrary .rangeError) a := .inr rfl

theorem bind {action : M α} {a : α} {f : α → M β} {b : β} (h : Idle env w action a)
    (hf : Idle env w (f a) b) : Idle env w (action >>= f) b := by
  rcases h with h | h
  · rcases hf with hf | hf
    · exact .inl (by rw [M.run'_bind_ok h, hf])
    · exact .inr (by rw [M.run'_bind_ok h, hf])
  · exact .inr (M.run'_bind_error h)

theorem foldlM {ι : Type} {step : α → ι → M α} {a : α} {is : List ι}
    (h : ∀ i ∈ is, Idle env w (step a i) a) : Idle env w (is.foldlM step a) a := by
  induction is with
  | nil => exact .pure a
  | cons i is ih =>
    rw [List.foldlM_cons]
    exact (h i List.mem_cons_self).bind (ih fun j hj => h j (List.mem_cons_of_mem i hj))

end Idle

namespace NodeTree

/-- Whether inline code, control elements and expressions that elements are finished with are
gone. A script has texts in it and nothing else. -/
inductive IsExpanded : NodeTree → Prop where
  | leaf {core : NodeCore} (plain : core.kind ≠ .code) : IsExpanded (.leaf core)
  | script (attributes : List (Value × Value)) {children : List NodeTree}
    (texts : ∀ t ∈ children, ∃ value raw, t = Markup.textLeaf value raw) :
    IsExpanded (.element (.text "script") attributes children)
  | element {tag : Text} {attributes : List (Value × Value)} {children : List NodeTree}
    (plain : Assoc.find? tag Expander.controlTags = none)
    (finished : Assoc.find? (.text Expander.onrenderName) attributes = none)
    (inside : ∀ t ∈ children, t.IsExpanded) : IsExpanded (.element (.text tag) attributes children)

/-- Whether no attribute and no body of a script holds a marker. -/
inductive IsUnmarked : NodeTree → Prop where
  | leaf (core : NodeCore) : IsUnmarked (.leaf core)
  | script {attributes : Markup.Attributes} {body : List Markup.Node}
    (plain : Text.includes (Markup.serializeAll body) Marker.opening = false) :
    IsUnmarked (Markup.Node.element "script" attributes body).tree
  | element {tag : Text} {attributes : Markup.Attributes} {children : List NodeTree}
    (other : tag ≠ "script") (distinct : (attributes.map (·.1)).Nodup)
    (plain : ∀ a ∈ attributes, Text.includes a.2 Marker.opening = false)
    (inside : ∀ t ∈ children, t.IsUnmarked) :
    IsUnmarked (.element (.text tag) (Markup.values attributes) children)

end NodeTree

namespace Expander

variable {x : Expander} {env : Env} {w : World} {V : View} {scope : ScopeId} {e : ObjectId}
  {tag : Text} {attributes : Markup.Attributes} {siblings : Siblings} {children : List NodeTree}

theorem cut_plain {t : Text} (h : Text.includes t Marker.opening = false) :
    Marker.cut t = ⟨[], t, true⟩ := by
  have hnone : Text.breakOn Marker.opening t = none := by
    rw [Text.includes, Option.isSome_eq_false_iff] at h
    exact Option.isNone_iff_eq_none.1 h
  have hnext : Marker.next t = .none := by
    rw [Marker.next, hnone]
  rw [Marker.cut]
  split
  · rfl
  · rename_i hn
    rw [hnext] at hn
    cases hn
  · rename_i hn
    rw [hnext] at hn
    cases hn

/-- An attribute without a marker is set to what it is. -/
theorem idle_expandAttribute (hs : Shows w V) (he : V.core e = some (.element (.text tag)))
    (ha : (V.attributes e).live = Markup.values attributes) (hn : (attributes.map (·.1)).Nodup)
    {a : Text × Text} (hm : a ∈ attributes) (hp : Text.includes a.2 Marker.opening = false) :
    Idle env w (x.expandAttribute (.object (Tree.attributesOf e)) scope (.text a.1) (.text a.2))
      () := by
  rw [expandAttribute, Value.text_strictlyEqual]
  cases a.1 == onrenderName with
  | true => exact .pure ()
  | false =>
    have hmap := hs.map e _ he rfl
    have hsame : (V.attributes e).put (.text a.1) (.text a.2) = V.attributes e := by
      have hfind : (V.attributes e).find? (.text a.1) = some (.text a.2) := by
        rw [Entries.find?, ha, Markup.find_values, Assoc.find?_of_mem hn hm]
        rfl
      refine Entries.put_same (by rw [Entries.has, hfind]; rfl) fun f hf hkey => ?_
      rw [ha] at hf
      obtain ⟨b, hb, rfl⟩ := List.mem_map.1 hf
      have hkeys : b.1 = a.1 := eq_of_beq hkey
      rw [List.inj_on_of_nodup_map hn hb hm hkeys]
    have hput : M.run' env w
        (Tree.putEntry (.object (Tree.attributesOf e)) (.text a.1) (.text a.2)) = (.ok (), w) := by
      rw [Tree.putEntry, M.run'_bind_ok (Tree.run'_mapEntries hmap)]
      simp only [hsame, Store.run'_setCell, World.setCell_same hmap]
    refine .of_run ?_
    simp only [Bool.not_false, if_true]
    rw [M.run'_bind_ok (Tree.run'_toText a.1)]
    simp only [substitute, Marker.substitute, cut_plain hp, bind_assoc, pure_bind]
    exact hput

/-- Going through attributes without markers. -/
theorem idle_expandEntries (hs : Shows w V) (he : V.core e = some (.element (.text tag)))
    (ha : (V.attributes e).live = Markup.values attributes) (hn : (attributes.map (·.1)).Nodup)
    (hp : ∀ a ∈ attributes, Text.includes a.2 Marker.opening = false) (n place : Nat) :
    Idle env w (x.expandEntries scope (Tree.attributesOf e) n place) () := by
  induction n generalizing place with
  | zero => exact .tooDeep ()
  | succ n ih =>
    have hcell : M.run' env w (Store.cell (Tree.attributesOf e)) =
        (.ok (.map (V.attributes e)), w) := by
      rw [Store.run'_cell, World.cell_of_getElem? (hs.map e _ he rfl)]
    refine Idle.bind (.of_run hcell) ?_
    simp only
    cases hentry : (V.attributes e)[place]? with
    | none => exact .pure ()
    | some entry =>
      cases entry with
      | none => exact ih (place + 1)
      | some entry =>
        have hlive : entry ∈ (V.attributes e).live := by
          rw [Entries.live, List.mem_filterMap]
          exact ⟨some entry, List.mem_of_getElem? hentry, rfl⟩
        rw [ha] at hlive
        obtain ⟨a, hm, rfl⟩ := List.mem_map.1 hlive
        exact (idle_expandAttribute hs he ha hn hm (hp a hm)).bind (ih (place + 1))

/-- An element is left as it is when its children are. -/
theorem idle_expandElement (hs : Shows w V)
    (h : V.Represents e (.element (.text tag) (Markup.values attributes) children))
    (hn : (attributes.map (·.1)).Nodup)
    (hp : ∀ a ∈ attributes, Text.includes a.2 Marker.opening = false)
    (hf : Assoc.find? (.text onrenderName) (Markup.values attributes) = none)
    (hi : Idle env w (siblings scope ((V.children e).map .object)) ()) :
    Idle env w (x.expandElement siblings (.object e) scope) () := by
  obtain ⟨he, ha, _⟩ := h
  refine Idle.bind (a := ()) ?_ (Idle.bind (.of_run (Tree.run'_children hs he rfl)) (hi.bind ?_))
  · refine Idle.bind (.of_run (Tree.run'_attributeMap (hs.record e _ he) rfl)) ?_
    refine Idle.bind (.of_run (Tree.run'_mapEntries (hs.map e _ he rfl))) ?_
    exact idle_expandEntries hs he ha hn hp Store.maxListed 0
  · refine Idle.bind (.of_run (Tree.run'_getAttribute hs he _)) ?_
    rw [Entries.find?, ha, hf]
    exact .pure ()

/-- A script without markers is left as it is. -/
theorem idle_expandScript (hs : Shows w V) (hf : V.IsForest) {body : List Markup.Node}
    (h : V.Represents e (Markup.Node.element tag attributes body).tree)
    (hp : Text.includes (Markup.serializeAll body) Marker.opening = false) :
    Idle env w (x.expandScript (.object e) scope) () := by
  refine Idle.bind (.of_run (Tree.run'_innerMarkup hs hf h)) ?_
  refine Idle.bind (a := Markup.serializeAll body) (.of_run rfl) ?_
  rw [hp]
  exact .pure ()

/-- One of several siblings on which expansion has nothing to do. -/
theorem idle_expandSibling (hx : x.customTags = []) (hs : Shows w V) (hf : V.IsForest)
    (hi : ∀ {ids : List ObjectId} {ts : List NodeTree}, V.RepresentsAll ids ts →
      (∀ t ∈ ts, t.IsExpanded ∧ t.IsUnmarked) →
        Idle env w (siblings scope (ids.map .object)) ())
    {t : NodeTree} (h : V.Represents e t) (ht : t.IsExpanded) (hu : t.IsUnmarked) (prior : Bool) :
    Idle env w (x.expandSibling siblings scope prior (.object e)) prior := by
  cases hu with
  | leaf core =>
    cases ht with
    | leaf plain =>
      refine Idle.bind (.of_run (Tree.run'_kind (hs.record e _ h.1))) ?_
      cases core with
      | text | comment | doctype => exact .pure prior
      | code => exact absurd rfl plain
      | element | fragment | document => exact absurd h.2 (by simp [NodeCore.hasChildren])
  | script plain =>
    refine Idle.bind (.of_run (Tree.run'_kind (hs.record e _ h.1))) ?_
    refine Idle.bind (.of_run (Tree.run'_tag (hs.record e _ h.1))) ?_
    exact (idle_expandScript hs hf h plain).bind (.pure prior)
  | @element tag attributes children other distinct plain inside =>
    cases ht with
    | script => exact absurd rfl other
    | element control finished expanded =>
      refine Idle.bind (.of_run (Tree.run'_kind (hs.record e _ h.1))) ?_
      refine Idle.bind (.of_run (Tree.run'_tag (hs.record e _ h.1))) ?_
      have hin := hi h.2.2 fun t ht => ⟨expanded t ht, inside t ht⟩
      have hel := idle_expandElement (x := x) hs h distinct plain finished hin
      simp only [expandTagged, control, hx, Assoc.find?]
      exact hel.bind (.pure prior)

/-- Siblings on which expansion has nothing to do. -/
theorem idle_expandSiblings (hx : x.customTags = []) (hs : Shows w V) (hf : V.IsForest) (n : Nat)
    {ids : List ObjectId} {ts : List NodeTree} (h : V.RepresentsAll ids ts)
    (ht : ∀ t ∈ ts, t.IsExpanded ∧ t.IsUnmarked) :
    Idle env w (x.expandSiblings n scope (ids.map .object)) () := by
  induction n generalizing ids ts with
  | zero => exact .tooDeep ()
  | succ n ih =>
    rw [expandSiblings]
    refine Idle.bind (.foldlM fun v hv => ?_) (.pure ())
    obtain ⟨id, hid, rfl⟩ := List.mem_map.1 hv
    obtain ⟨t, hm, hr⟩ := h.of_mem hid
    exact idle_expandSibling hx hs hf ih hr (ht t hm).1 (ht t hm).2 false

/-- **Expansion has nothing to do** on an element without markers whose inside has been expanded. -/
theorem idle_expand (hx : x.customTags = []) (hs : Shows w V) (hf : V.IsForest)
    (he : V.core e = some (.element (.text tag))) (htag : Assoc.find? tag controlTags = none)
    {t : NodeTree} (h : V.Represents e t) (ht : t.IsExpanded) (hu : t.IsUnmarked) :
    Idle env w (x.expand (.object e) scope) () := by
  cases hu with
  | leaf core =>
    cases he.symm.trans h.1
    exact absurd h.2 (by simp [NodeCore.hasChildren])
  | script =>
    cases he.symm.trans h.1
    exact absurd htag (by decide)
  | element other distinct plain inside =>
    cases ht with
    | script => exact absurd rfl other
    | element _ finished expanded =>
      refine idle_expandElement hs h distinct plain finished ?_
      exact idle_expandSiblings hx hs hf x.maxDepth h.2.2 fun t ht => ⟨expanded t ht, inside t ht⟩

end Expander

namespace Script

variable {β γ : Type} {P : β → Prop} {Q : γ → Prop}

/-- Whether what a script yields has a property, whatever is answered. -/
def Yields (P : β → Prop) : Script β → Prop
  | done b => P b
  | ask _ next => ∀ a, Yields P (next a)
  | fail => True

theorem Performs.yields {x : Expander} {env : Env} {w w' : World} {V V' : View} {s : Script β}
    {b : β} (h : s.Performs x env w V w' V' b) (hy : s.Yields P) : P b := by
  induction s generalizing w V with
  | done b' =>
    obtain ⟨rfl, _⟩ := h
    exact hy
  | ask q next ih =>
    obtain ⟨w1, V1, _, _, action, _, a, w2, _, _, hp⟩ := h
    exact ih a hp (hy a)
  | fail => exact h.elim

theorem yields_true (s : Script β) : s.Yields fun _ => True := by
  induction s with
  | ask q next ih => exact ih
  | _ => trivial

theorem Yields.bind {s : Script β} {f : β → Script γ} (h : s.Yields P)
    (hf : ∀ b, P b → (f b).Yields Q) : (s >>= f).Yields Q := by
  induction s with
  | done b => exact hf b h
  | ask q next ih => exact fun a => ih a (h a)
  | fail => trivial

theorem Yields.imp {Q : β → Prop} {s : Script β} (h : s.Yields P) (hq : ∀ b, P b → Q b) :
    s.Yields Q := by
  induction s with
  | done b => exact hq b h
  | ask q next ih => exact fun a => ih a (h a)
  | fail => trivial

/-- A property that does not depend on the first part. -/
theorem yields_bind {s : Script β} {f : β → Script γ} (hf : ∀ b, (f b).Yields Q) :
    (s >>= f).Yields Q :=
  (yields_true s).bind fun b _ => hf b

end Script

namespace Expander

open Markup (Node)

variable {x : Expander} {scope : ScopeId} {renderer : Renderer} {tag : Text}
  {attributes : Markup.Attributes} {children : List Node}

/-- Whether all of some trees are expanded. -/
def AllExpanded (ts : List NodeTree) : Prop := ∀ t ∈ ts, t.IsExpanded

theorem AllExpanded.append {ts us : List NodeTree} (h : AllExpanded ts) (h' : AllExpanded us) :
    AllExpanded (ts ++ us) :=
  fun t ht => (List.mem_append.1 ht).elim (h t) (h' t)

theorem allExpanded_nil : AllExpanded [] := nofun

theorem allExpanded_singleton {t : NodeTree} (h : t.IsExpanded) : AllExpanded [t] := by
  intro u hu
  rwa [List.mem_singleton.1 hu]

/-- Whether a renderer yields expanded trees for nodes whose scripts are raw. -/
def Settles (renderer : Renderer) : Prop :=
  ∀ scope nodes, (∀ n ∈ nodes, n.HasRawScripts) → (renderer scope nodes).Yields AllExpanded

section Elements

variable (hr : Settles renderer) (hc : ∀ n ∈ children, n.HasRawScripts)

theorem yields_renderFinish (ts : List NodeTree) :
    (renderFinish tag attributes ts scope).Yields fun t =>
      ∃ as, t = elementTree tag as ts ∧ Assoc.find? onrenderName as = none := by
  rw [renderFinish]
  cases hfind : Assoc.find? onrenderName attributes with
  | none => exact ⟨attributes, rfl, hfind⟩
  | some source =>
    refine Script.yields_bind fun inner => Script.yields_bind fun this => ?_
    refine Script.yields_bind fun _ => Script.yields_bind fun _ => ?_
    exact ⟨_, rfl, Assoc.find?_erase _ _⟩

include hr hc

/-- An element with expanded trees in it, and with no expression to finish it with. -/
theorem yields_renderElement :
    (renderElement renderer tag attributes children scope).Yields fun t =>
      ∃ as ts, t = elementTree tag as ts ∧ Assoc.find? onrenderName as = none ∧ AllExpanded ts := by
  refine Script.yields_bind fun _ => (hr scope children hc).bind fun ts hts => ?_
  refine (yields_renderFinish ts).imp ?_
  rintro _ ⟨as, rfl, hfind⟩
  exact ⟨as, ts, rfl, hfind, hts⟩

theorem yields_renderCondition :
    (renderCondition renderer attributes children scope).Yields fun r => AllExpanded r.2 := by
  refine Script.yields_bind fun condition => Script.yields_bind fun v => ?_
  refine Script.yields_bind fun holds => ?_
  cases holds with
  | true => exact (hr scope children hc).bind fun _ ht => ht
  | false => exact allExpanded_nil

theorem yields_renderAlternative (prior : Bool) :
    (renderAlternative renderer children scope prior).Yields AllExpanded := by
  cases prior with
  | true => exact allExpanded_nil
  | false => exact hr scope children hc

theorem yields_renderEntry (itemName : Text) (keyName : Option Text)
    (entry : Option (Value × Value)) :
    (renderEntry renderer children scope itemName keyName entry).Yields AllExpanded := by
  cases entry with
  | none => trivial
  | some entry =>
    refine Script.yields_bind fun inner => Script.yields_bind fun _ => ?_
    match keyName with
    | none | some [] => exact hr inner children hc
    | some (u :: name) => exact Script.yields_bind fun _ => hr inner children hc

theorem yields_renderEntries (itemName : Text) (keyName : Option Text)
    (entries : List (Option (Value × Value))) :
    (renderEntries renderer children scope itemName keyName entries).Yields AllExpanded := by
  induction entries with
  | nil => exact allExpanded_nil
  | cons entry entries ih =>
    refine (yields_renderEntry hr hc itemName keyName entry).bind fun _ ht => ?_
    exact ih.bind fun _ hu => ht.append hu

theorem yields_renderLoop :
    (renderLoop renderer attributes children scope).Yields fun r => AllExpanded r.2 := by
  refine Script.yields_bind fun source => Script.yields_bind fun itemName => ?_
  refine Script.yields_bind fun v => Script.yields_bind fun entries => ?_
  cases entries with
  | nil => exact allExpanded_nil
  | cons entry entries =>
    refine (yields_renderEntries hr hc itemName _ (entry :: entries)).bind fun ts ht => ?_
    exact Script.yields_bind fun _ => ht

end Elements

theorem isExpanded_remark (t : Text) : (remark t).IsExpanded := .leaf nofun

/-- The scripts of a partial are raw. -/
theorem yields_partialNodes (file : Text) :
    (x.partialNodes file).Yields fun nodes => ∀ n ∈ nodes, n.HasRawScripts := by
  rw [partialNodes]
  cases x.loader file with
  | error e => trivial
  | ok markup =>
    cases hparse : Markup.parse (x.readOptions true) markup with
    | error e => simp only [hparse]; trivial
    | ok nodes =>
      simp only [hparse]
      exact Markup.hasRawScripts_parse contains_scriptTag hparse

theorem yields_renderPartial (hr : Settles renderer) :
    (x.renderPartial renderer attributes scope).Yields AllExpanded := by
  refine Script.yields_bind fun file => (yields_partialNodes file).bind fun nodes hn => ?_
  refine Script.yields_bind fun inner => Script.yields_bind fun _ => ?_
  refine (hr inner nodes hn).bind fun ts ht => Script.yields_bind fun _ => ?_
  rw [marked]
  cases x.debug with
  | true =>
    exact (allExpanded_singleton (isExpanded_remark file)).append ht |>.append
      (allExpanded_singleton (isExpanded_remark _))
  | false => exact ht

theorem isExpanded_fieldTree (field : Value × Value) : (fieldTree field).IsExpanded :=
  .element (by decide) rfl nofun

theorem yields_renderFormData :
    (renderFormData attributes scope).Yields AllExpanded := by
  refine Script.yields_bind fun source => Script.yields_bind fun name => ?_
  refine Script.yields_bind fun v => Script.yields_bind fun depth => ?_
  refine Script.yields_bind fun fields => ?_
  intro t ht
  obtain ⟨field, _, rfl⟩ := List.mem_map.1 ht
  exact isExpanded_fieldTree field

theorem yields_renderCode (source : Text) : (renderCode source scope).Yields AllExpanded := by
  cases source with
  | nil => exact Script.yields_bind fun _ => allExpanded_nil
  | cons u code =>
    simp only [renderCode]
    split
    · split
      · trivial
      · refine Script.yields_bind fun v => Script.yields_bind fun shown => ?_
        refine allExpanded_singleton (.leaf fun h => ?_)
        cases h
    · exact Script.yields_bind fun _ => allExpanded_nil

/-- The body of a script that was read. -/
theorem textLeaf_of_isRawBody (h : Markup.IsRawBody tag children) :
    ∀ t ∈ treesOf children, ∃ value raw, t = Markup.textLeaf value raw := by
  match children, h with
  | [], _ => nofun
  | [.text value true], _ =>
    intro t ht
    exact ⟨.text value, true, List.mem_singleton.1 ht⟩

theorem yields_renderScript (htag : Assoc.find? tag controlTags = some .script)
    (hn : (Node.element tag attributes children).HasRawScripts) :
    (renderScript tag attributes children scope).Yields NodeTree.IsExpanded := by
  cases tag_of_script htag
  have hbody := textLeaf_of_isRawBody (hn attributes children (.self _))
  rw [renderScript]
  split
  · refine Script.yields_bind fun code => .script _ fun t ht => ?_
    exact ⟨.text code, true, List.mem_singleton.1 ht⟩
  · exact .script _ hbody

theorem yields_renderTagged (hr : Settles renderer)
    (hn : (Node.element tag attributes children).HasRawScripts) (prior : Bool) :
    (x.renderTagged renderer tag attributes children scope prior).Yields fun r =>
      AllExpanded r.2 := by
  have hc : ∀ n ∈ children, n.HasRawScripts := fun _ => hn.child
  rw [renderTagged]
  cases htag : Assoc.find? tag controlTags with
  | none =>
    refine (yields_renderElement hr hc).bind ?_
    rintro _ ⟨as, ts, rfl, hfind, hts⟩
    refine allExpanded_singleton (.element htag ?_ hts)
    rw [Markup.find_values, hfind]
    rfl
  | some control =>
    cases control with
    | condition => exact yields_renderCondition hr hc
    | alternative => exact (yields_renderAlternative hr hc prior).bind fun _ ht => ht
    | loop => exact yields_renderLoop hr hc
    | partialTemplate => exact (yields_renderPartial hr).bind fun _ ht => ht
    | formData => exact yields_renderFormData.bind fun _ ht => ht
    | script => exact (yields_renderScript htag hn).bind fun _ ht => allExpanded_singleton ht

theorem yields_renderSibling (hr : Settles renderer) (prior : Bool) {n : Node}
    (hn : n.HasRawScripts) :
    (x.renderSibling renderer scope prior n).Yields fun r => AllExpanded r.2 := by
  cases n with
  | element tag attributes children => exact yields_renderTagged hr hn prior
  | code source => exact (yields_renderCode source).bind fun _ ht => ht
  | text value raw => exact allExpanded_singleton (.leaf nofun)
  | comment value => exact allExpanded_singleton (.leaf nofun)
  | doctype value => exact allExpanded_singleton (.leaf nofun)

theorem yields_renderEach (hr : Settles renderer) {nodes : List Node}
    (hn : ∀ n ∈ nodes, n.HasRawScripts) (prior : Bool) :
    (x.renderEach renderer scope prior nodes).Yields AllExpanded := by
  induction nodes generalizing prior with
  | nil => exact allExpanded_nil
  | cons n nodes ih =>
    refine (yields_renderSibling hr prior (hn n List.mem_cons_self)).bind fun r ht => ?_
    exact (ih (fun m hm => hn m (List.mem_cons_of_mem n hm)) r.1).bind fun _ hu => ht.append hu

/-- What is rendered is expanded. -/
theorem settles_renderSiblings (n : Nat) : Settles (x.renderSiblings n) := by
  induction n with
  | zero => exact fun _ _ _ => trivial
  | succ n ih => exact fun _ _ hn => yields_renderEach ih hn false

/-- What a run that expands an element leaves of it, where no expression and no method of a value
changes a node: the element, with expanded trees in it. -/
theorem represents_expanded {env : Env} {w w' : World} {V : View} {rawTags : List Text}
    {inlineCode : Bool} {root : ObjectId} (hx : x.customTags = []) (hl : x.LoadsPlain)
    (hn : Markup.IsProduced (.of rawTags inlineCode) (.element tag attributes children))
    (hplain : (Node.element tag attributes children).insertsMarkup = false)
    (hs : Shows w V) (hg : V.IsRegular)
    (h : V.Represents root (Node.element tag attributes children).tree)
    (hk : (x.render tag attributes children scope).Keeps x env w V)
    (hr : M.run' env w (x.expand (.object root) scope) = (.ok (), w')) :
    ∃ as ts V', Shows w' V' ∧ V'.IsRegular ∧ V'.Represents root (elementTree tag as ts) ∧
      Assoc.find? onrenderName as = none ∧ AllExpanded ts := by
  have hd : Simulates x env w V (x.expand (.object root) scope)
      (x.render tag attributes children scope) fun _ t V' =>
        V.Rebuilt root V' ∧ V'.Represents root t :=
    simulates_expandElement (refines_siblings hx hl x.maxDepth) ⟨hn.isTidy, hplain⟩ h
  obtain ⟨t, V', hp, hg', _, hrep⟩ := hd hs hg hk () w' hr
  have hraw := hn.hasRawScripts (Markup.contains_scriptTag_of rawTags inlineCode)
  obtain ⟨as, ts, rfl, hfind, hts⟩ :=
    hp.yields (yields_renderElement (settles_renderSiblings x.maxDepth) fun _ => hraw.child)
  exact ⟨as, ts, V', hp.shows, hg', hrep, hfind, hts⟩

/-- **Expanding twice.** An element that has been expanded, in a run in which no expression and no
method of a value changes a node, is expanded; unless one of its attributes or the body of one of
its scripts holds a marker, expanding it again in any scope leaves the store as it is. -/
theorem expand_settles {env : Env} {w w' : World} {V : View} {rawTags : List Text}
    {inlineCode : Bool} {root : ObjectId} (hx : x.customTags = []) (hl : x.LoadsPlain)
    (hn : Markup.IsProduced (.of rawTags inlineCode) (.element tag attributes children))
    (hplain : (Node.element tag attributes children).insertsMarkup = false)
    (htag : Assoc.find? tag controlTags = none) (hs : Shows w V) (hg : V.IsRegular)
    (h : V.Represents root (Node.element tag attributes children).tree)
    (hk : (x.render tag attributes children scope).Keeps x env w V)
    (hr : M.run' env w (x.expand (.object root) scope) = (.ok (), w')) :
    ∃ t V', Shows w' V' ∧ V'.IsRegular ∧ V'.Represents root t ∧ t.IsExpanded ∧
      (t.IsUnmarked → ∀ again, Idle env w' (x.expand (.object root) again) ()) := by
  obtain ⟨as, ts, V', hs', hg', hrep, hfind, hts⟩ :=
    represents_expanded hx hl hn hplain hs hg h hk hr
  have ht : (elementTree tag as ts).IsExpanded :=
    .element htag (by rw [Markup.find_values, hfind]; rfl) hts
  refine ⟨_, V', hs', hg', hrep, ht, fun hu again => ?_⟩
  exact idle_expand hx hs' hg'.toIsForest hrep.1 htag hrep ht hu

end Expander

end PageTemplate
