import PageTemplate.Proofs.Markup.Scanning
import PageTemplate.Proofs.Tree.Clone
import PageTemplate.Tree.Read

/-!
# PageTemplate.Proofs.Tree.Plant

Putting markup into the store. That always succeeds: the new nodes are roots that represent the
markup, and the old nodes stay as they are. So reading a text into the store ends whatever the text,
it fails for one reason only, and what it yields are new trees that are as reading makes them.
-/

namespace PageTemplate

namespace View

/-- Whether all new elements have texts for attributes. -/
def NewAttributes (V V' : View) : Prop :=
  ∀ e tag, V.core e = none → V'.core e = some (.element tag) →
    ∃ attributes, (V'.attributes e).live = Markup.values attributes

/-- What a view is after markup was put into the store. -/
structure IsPlanted (V : View) (ids : List ObjectId) (ns : List Markup.Node) (V' : View) :
    Prop where
  extend : V.Extends V'
  fresh : ∀ id ∈ ids, V.core id = none
  roots : ∀ id ∈ ids, V'.parent id = none
  nodup : ids.Nodup
  represents : V'.RepresentsAll ids (treesOf ns)
  attributes : V.NewAttributes V'

theorem newAttributes_add {V : View} {r : ObjectId} {core : NodeCore}
    {attributes : Markup.Attributes} {entries : Entries}
    (he : entries.live = Markup.values attributes) : V.NewAttributes (V.add r core entries) := by
  intro e tag hold hcore
  by_cases hr : e = r
  · exact ⟨attributes, by simp [add, hr, he]⟩
  · have hnone : (V.add r core entries).core e = none := by simp [add, hr, hold]
    rw [hnone] at hcore
    cases hcore

theorem NewAttributes.trans {V V' V'' : View} (h : V.NewAttributes V') (he : V'.Extends V'')
    (h' : V'.NewAttributes V'') : V.NewAttributes V'' := by
  intro e tag hnew hcore
  cases hmid : V'.core e with
  | none => exact h' e tag hmid hcore
  | some core =>
    have hag := he.agree e core hmid
    rw [hag.attributes]
    exact h e tag hnew (hag.core.symm.trans hcore)

namespace IsPlanted

theorem nil (V : View) : V.IsPlanted [] [] V where
  extend := .refl V
  fresh := by simp
  roots := by simp
  nodup := List.nodup_nil
  represents := representsAll_nil.2 rfl
  attributes e tag hnew he := by
    rw [hnew] at he
    cases he

theorem cons {V V' V'' : View} {id : ObjectId} {n : Markup.Node} {ids : List ObjectId}
    {ns : List Markup.Node} (hf : V'.IsForest) (h : V.IsPlanted [id] [n] V')
    (h' : V'.IsPlanted ids ns V'') : V.IsPlanted (id :: ids) (n :: ns) V'' := by
  obtain ⟨ht, _⟩ := representsAll_cons.1 h.represents
  obtain ⟨core, hc, _⟩ := ht.core
  refine ⟨h.extend.trans h'.extend, ?_, ?_, ?_, ?_, ?_⟩
  · intro x hx
    rcases List.mem_cons.1 hx with rfl | hx
    · exact h.fresh x List.mem_cons_self
    · exact h.extend.fresh (h'.fresh x hx)
  · intro x hx
    rcases List.mem_cons.1 hx with rfl | hx
    · exact (h'.extend.parent x core hc).trans (h.roots x List.mem_cons_self)
    · exact h'.roots x hx
  · refine List.nodup_cons.2 ⟨fun hm => ?_, h'.nodup⟩
    rw [h'.fresh id hm] at hc
    cases hc
  · exact representsAll_cons.2 ⟨ht.extend hf h'.extend, h'.represents⟩
  · exact h.attributes.trans h'.extend h'.attributes

/-- A new node becomes the root of what was planted after it. -/
theorem fill {V V' : View} (hnew : V.core r = none) {core : NodeCore} (hh : core.hasChildren)
    {attributes : Entries} {ids : List ObjectId} {ns : List Markup.Node} (hf : V'.IsForest)
    (h : (V.add r core attributes).IsPlanted ids ns V') :
    (V'.insert r ids ids).IsForest ∧ V.Extends (V'.insert r ids ids) ∧
      (V'.insert r ids ids).core r = some core ∧
      (V'.insert r ids ids).parent r = none ∧
      (V'.insert r ids ids).attributes r = attributes ∧
      (V'.insert r ids ids).children r = ids ∧
      (V'.insert r ids ids).RepresentsAll ids (treesOf ns) := by
  have hadd : (V.add r core attributes).core r = some core := by simp [add]
  have hag := h.extend.agree r core hadd
  have hcore : V'.core r = some core := hag.core.trans hadd
  have hroot : V'.parent r = none := by
    rw [h.extend.parent r core hadd]
    simp [add]
  have hm : r ∉ ids := fun hm => by
    rw [h.fresh r hm] at hadd
    cases hadd
  have hch : V'.children r = [] := by
    rw [hag.children]
    simp [add]
  refine ⟨?_, ?_, hcore, ?_, ?_, ?_, ?_⟩
  · refine hf.insert ⟨core, hcore, hh⟩ h.roots h.represents.inner h.nodup ?_
      (not_under_root hroot hm)
    rw [hch, List.append_nil]
  · have he : V.Extends V' := (extends_add hnew core attributes).trans h.extend
    exact he.insert hnew (fun n hn => (extends_add hnew core attributes).fresh (h.fresh n hn)) ids
  · rw [insert_parent, if_neg hm, hroot]
  · exact hag.attributes.trans (by simp [add])
  · rw [insert_children, if_pos rfl]
  · exact h.represents.insert_root hf hroot hm

end IsPlanted

end View

namespace Tree

open View

variable {env : Env} {w : World} {V : View}

/-- Giving roots to a node. -/
theorem does_fill (h : Shows w V) {r : ObjectId} {core : NodeCore} (hr : V.core r = some core)
    (hh : core.hasChildren) {ids : List ObjectId} (hi : ∀ id ∈ ids, V.Inner id) :
    Does env w V (fill r ids) () (V.insert r ids ids) := by
  have hc : ∀ id ∈ ids, ∃ core, V.core id = some core := by
    intro id hm
    obtain ⟨core, hc, _⟩ := hi id hm
    exact ⟨core, hc⟩
  refine (does_setParents h hc (some r)).bind fun w1 hs1 => ?_
  exact ⟨_, Store.run'_setCell _ _, .setChildren hs1.shows hr hh ids⟩

theorem live_entriesOfTexts (attributes : Markup.Attributes) :
    (entriesOfTexts attributes).live = Markup.values attributes := by
  simp only [entriesOfTexts, Entries.live, Markup.values]
  induction attributes with
  | nil => rfl
  | cons a attributes ih => simp [ih]

/-- A new leaf. -/
theorem does_plantLeaf (h : Shows w V) (hg : V.IsRegular) {n : Markup.Node} {core : NodeCore}
    (hn : n.tree = .leaf core) (hl : core.hasChildren = false) :
    ∃ id V', Does env w V (allocNode core []) id V' ∧ V'.IsRegular ∧ V.IsPlanted [id] [n] V' := by
  have hnew := h.core_size
  refine ⟨_, _, does_allocNode h core [], hg.add hnew ?_ [], extends_add hnew core [], ?_, ?_, ?_, ?_,
    newAttributes_add (show Entries.live [] = Markup.values [] from rfl)⟩
  · rintro tag rfl
    cases hl
  · simpa using hnew
  · simp [add]
  · simp
  · simp only [treesOf, hn, representsAll_cons, representsAll_nil, and_true]
    exact ⟨by simp [add], hl⟩

mutual

/-- Putting a tree into the store. -/
theorem does_plant (n : Markup.Node) {w : World} {V : View} (h : Shows w V) (hg : V.IsRegular) :
    ∃ id V', Does env w V (plant n) id V' ∧ V'.IsRegular ∧ V.IsPlanted [id] [n] V' := by
  match n with
  | .element tag attributes children =>
    have hnew := h.core_size
    obtain ⟨w1, hr1, hs1⟩ : Does env w V _ _ _ :=
      does_allocNode h (.element (.text tag)) (entriesOfTexts attributes)
    have htag : ∀ t, NodeCore.element (.text tag) = .element t → ∃ u, t = .text u :=
      fun _ ht => ⟨tag, (NodeCore.element.inj ht).symm⟩
    have hg1 := hg.add hnew htag (entriesOfTexts attributes)
    obtain ⟨ids, V2, ⟨w2, hr2, hs2⟩, hg2, hp⟩ := does_plantAll children hs1.shows hg1
    obtain ⟨hf, he, hc, hroot, hattr, hch, hrep⟩ := hp.fill hnew rfl hg2.toIsForest
    obtain ⟨w3, hr3, hs3⟩ : Does env w2 V2 _ _ _ :=
      does_fill hs2.shows hc rfl hp.represents.inner
    refine ⟨w.cells.size, V2.insert w.cells.size ids ids, ?_, hg2.of_core hf rfl, he, ?_, ?_, ?_, ?_,
      ?_⟩
    · refine ⟨w3, ?_, hs1.trans (hs2.trans hs3)⟩
      rw [plant, M.run'_bind_ok hr1, M.run'_bind_ok hr2, M.run'_bind_ok hr3]
      rfl
    · simpa using hnew
    · simpa using hroot
    · simp
    · simp only [treesOf, representsAll_cons, representsAll_nil, and_true]
      refine ⟨hc, ?_, ?_⟩
      · rw [hattr, live_entriesOfTexts]
      · rw [hch]
        exact hrep
    · have hadd : V.NewAttributes (V.add w.cells.size (.element (.text tag)) _) :=
        newAttributes_add (live_entriesOfTexts attributes)
      have hbelow : V.NewAttributes V2 := hadd.trans hp.extend hp.attributes
      exact hbelow
  | .text value raw => exact does_plantLeaf h hg rfl rfl
  | .code source => exact does_plantLeaf h hg rfl rfl
  | .comment value => exact does_plantLeaf h hg rfl rfl
  | .doctype value => exact does_plantLeaf h hg rfl rfl

/-- Putting trees into the store. -/
theorem does_plantAll (ns : List Markup.Node) {w : World} {V : View} (h : Shows w V)
    (hg : V.IsRegular) :
    ∃ ids V', Does env w V (plantAll ns) ids V' ∧ V'.IsRegular ∧ V.IsPlanted ids ns V' := by
  match ns with
  | [] => exact ⟨[], V, .pure h [], hg, .nil V⟩
  | n :: ns =>
    obtain ⟨id, V1, ⟨w1, hr1, hs1⟩, hg1, hp1⟩ := does_plant n h hg
    obtain ⟨ids, V2, ⟨w2, hr2, hs2⟩, hg2, hp2⟩ := does_plantAll ns hs1.shows hg1
    refine ⟨id :: ids, V2, ⟨w2, ?_, hs1.trans hs2⟩, hg2, hp1.cons hg1.toIsForest hp2⟩
    rw [plantAll, M.run'_bind_ok hr1, M.run'_bind_ok hr2]
    rfl

end

/-- A new fragment or document around new nodes. -/
theorem does_plantWithin (h : Shows w V) (hg : V.IsRegular) {core : NodeCore}
    (ht : ∀ tag, core = .element tag → ∃ t, tag = .text t) (hh : core.hasChildren)
    (ns : List Markup.Node) :
    ∃ id V', Does env w V (plantWithin core ns) id V' ∧ V'.IsRegular ∧ V.Extends V' ∧
      V.NewAttributes V' ∧ V.core id = none ∧ V'.core id = some core ∧ V'.parent id = none ∧
      V'.RepresentsAll (V'.children id) (treesOf ns) := by
  have hnew := h.core_size
  obtain ⟨w1, hr1, hs1⟩ : Does env w V _ _ _ := does_allocNode h core []
  obtain ⟨ids, V2, ⟨w2, hr2, hs2⟩, hg2, hp⟩ := does_plantAll ns hs1.shows (hg.add hnew ht [])
  obtain ⟨hf, he, hc, hroot, _, hch, hrep⟩ := hp.fill hnew hh hg2.toIsForest
  obtain ⟨w3, hr3, hs3⟩ : Does env w2 V2 _ _ _ :=
    does_fill hs2.shows hc hh hp.represents.inner
  have hadd : V.NewAttributes (V.add w.cells.size core []) := newAttributes_add (show Entries.live [] = Markup.values [] from rfl)
  have hattributes : V.NewAttributes V2 := hadd.trans hp.extend hp.attributes
  refine ⟨w.cells.size, V2.insert w.cells.size ids ids, ?_, hg2.of_core hf rfl, he, hattributes,
    hnew, hc, hroot, ?_⟩
  · refine ⟨w3, ?_, hs1.trans (hs2.trans hs3)⟩
    rw [plantWithin, M.run'_bind_ok hr1, M.run'_bind_ok hr2, M.run'_bind_ok hr3]
    rfl
  · rw [hch]
    exact hrep

/-- The first element among the children of a document is asked for without changing it. -/
theorem run'_documentElement (h : Shows w V) {d r : ObjectId} {core : NodeCore} {tag : Value}
    (hd : V.core d = some core) (hh : core.hasChildren) (hch : V.children d = [r])
    (hr : V.core r = some (.element tag)) :
    M.run' env w (documentElement? (.object d)) = (.ok (some (.object r)), w) := by
  have hlist : M.run' env w (objectList? (.object (childrenOf d))) =
      (.ok (some (childrenOf d, [r])), w) :=
    run'_objectList (hch ▸ h.list d core hd hh)
  have hfirst : M.run' env w (ChildList.firstElement (.object (childrenOf d))) =
      (.ok (.object r), w) := by
    rw [ChildList.firstElement, M.run'_bind_ok hlist]
    simp [List.filterM, run'_isElement (h.record r _ hr), Value.ofOption,
      NodeCore.kind]
  rw [documentElement?, M.run'_bind_ok (run'_childList (h.record d core hd) hh),
    M.run'_bind_ok hfirst]
  rfl

end Tree

namespace Tree

open Markup (Node ReadOptions)

section Reading

variable {env : Env} {w : World} {V : View} {options : ReadOptions} {t : Text} {ns : List Node}

/-- Nodes are read without the store. -/
theorem run'_readNodes (h : Markup.parse options t = .ok ns) :
    M.run' env w (readNodes options t) = (.ok ns, w) := by
  rw [readNodes, h]
  rfl

theorem run'_readNodes_error {e : Markup.Malformed} (h : Markup.parse options t = .error e) :
    M.run' env w (readNodes options t) = (.error (.ofMalformed e), w) := by
  rw [readNodes, h]
  rfl

/-- What is read is put into the store. -/
theorem does_readAll_of_parse (hs : Shows w V) (hg : V.IsRegular)
    (h : Markup.parse options t = .ok ns) :
    ∃ ids V', Does env w V (readAll options t) ids V' ∧ V'.IsRegular ∧ V.IsPlanted ids ns V' := by
  obtain ⟨ids, V', ⟨w', hr, ht⟩, hg', hp⟩ :
      ∃ ids V', Does env w V (plantAll ns) ids V' ∧ V'.IsRegular ∧ V.IsPlanted ids ns V' :=
    does_plantAll ns hs hg
  refine ⟨ids, V', ⟨w', ?_, ht⟩, hg', hp⟩
  rw [readAll, M.run'_bind_ok (run'_readNodes h), hr]

end Reading

/-- **Reading any text**, whatever is raw and whether or not there is inline code. Every tag is read
part by part and the text piece by piece, always from a shorter rest, until nothing is left. What is
read becomes new nodes without parents, in a forest, and everything in them is as reading makes it.
Otherwise there is inline code in the text that has no end; then that is the failure, and the store
stays as it is. -/
theorem readAll_total (env : Env) (w : World) (rawTags : List Text) (inlineCode : Bool) (t : Text) :
    (∀ inside, Markup.ReadsTag [] inside
      (Markup.attributesFrom (inside.length + 1) [] inside)) ∧
    ((∃ pieces ids w' V', Markup.Lexes (.of rawTags inlineCode) t pieces ∧
        M.run' env w (readAll (.of rawTags inlineCode) t) = (.ok ids, w') ∧
        Shows w' V' ∧ V'.IsForest ∧ (∀ id ∈ ids, V'.parent id = none) ∧
        V'.RepresentsAll ids (treesOf (Node.ofTokens pieces)) ∧
        Markup.AllRead (.of rawTags inlineCode) (Node.ofTokens pieces)) ∨
      ∃ offset code, inlineCode = true ∧ t.drop offset = Text.ofString "<%" ++ code ∧
        ¬ Text.ofString "%>" <:+: code ∧
        M.run' env w (readAll (.of rawTags inlineCode) t) =
          (.error (.ofMalformed (.unterminatedCode offset)), w)) := by
  refine ⟨fun inside => Markup.readsTag_attributesFrom (Nat.lt_succ_self _) [], ?_⟩
  obtain ⟨pieces, hp, hread⟩ | ⟨offset, code, hcode, hdrop, hend, hread⟩ :=
    Markup.parse_cases (ReadOptions.of rawTags inlineCode) t
  · obtain ⟨ids, V', ⟨w', hr, hs⟩, hg, hplanted⟩ :
        ∃ ids V', Does env w View.empty (readAll (.of rawTags inlineCode) t) ids V' ∧
          V'.IsRegular ∧ View.empty.IsPlanted ids (Node.ofTokens pieces) V' :=
      does_readAll_of_parse (View.shows_empty w) View.isRegular_empty hread
    exact .inl ⟨pieces, ids, w', V', hp, hr, hs.shows, hg.toIsForest, hplanted.roots,
      hplanted.represents, Markup.allRead_parse hread⟩
  · exact .inr ⟨offset, code, hcode, hdrop, hend, M.run'_bind_error (run'_readNodes_error hread)⟩

end Tree

end PageTemplate
