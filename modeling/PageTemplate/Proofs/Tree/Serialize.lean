import Mathlib.Data.List.Perm.Subperm
import PageTemplate.Proofs.Markup.RoundTrip
import PageTemplate.Proofs.Tree.Plant
import PageTemplate.Tree.Serialize

/-!
# PageTemplate.Proofs.Tree.Serialize

The text of nodes in the store. A place that represents a piece of markup has the text of that
markup, so what is read from the text of well-formed nodes represents the same markup again.
-/

namespace PageTemplate

namespace Markup

mutual

/-- How deep a node goes. -/
def Node.depth : Node → Nat
  | .element _ _ children => depthAll children + 1
  | _ => 1

def depthAll : List Node → Nat
  | [] => 0
  | n :: ns => max n.depth (depthAll ns)

end

end Markup

namespace View

/-- Places that lie above one another are as many as the store has at most. -/
theorem length_le_of_nodup {path : List ObjectId} {size : Nat} (hn : path.Nodup)
    (hlt : ∀ x ∈ path, x < size) : path.length ≤ size := by
  have hsub : path ⊆ List.range size := fun x hx => List.mem_range.2 (hlt x hx)
  simpa using (hn.subperm hsub).length_le

mutual

/-- A tree in the store goes no deeper than the store has places. `path` is the way down to it. -/
theorem Represents.depth_le {w : World} {V : View} (hs : Shows w V) (hf : V.IsForest)
    (n : Markup.Node) {id : ObjectId} (h : V.Represents id n.tree) {path : List ObjectId}
    (hn : path.Nodup) (hp : ∀ x ∈ path, x < w.cells.size ∧ V.Above x id) :
    path.length + n.depth ≤ w.cells.size := by
  obtain ⟨core, hc, _⟩ := h.core
  have hn' : (id :: path).Nodup :=
    List.nodup_cons.2 ⟨fun hm => hf.acyclic id (hp id hm).2, hn⟩
  have hlt : ∀ x ∈ id :: path, x < w.cells.size := by
    intro x hx
    rcases List.mem_cons.1 hx with rfl | hx
    · exact hs.lt hc
    · exact (hp x hx).1
  match n with
  | .element tag attributes children =>
    obtain ⟨_, _, hch⟩ := h
    have hup : ∀ c ∈ V.children id, ∀ x ∈ id :: path, x < w.cells.size ∧ V.Above x c := by
      intro c hm x hx
      have hpar := (hf.mem_children id c).1 hm
      refine ⟨hlt x hx, ?_⟩
      rcases List.mem_cons.1 hx with rfl | hx
      · exact .single hpar
      · exact .head hpar (hp x hx).2
    have hle : (id :: path).length ≤ w.cells.size := length_le_of_nodup hn' hlt
    have := RepresentsAll.depth_le hs hf children hch hn' hup hle
    rw [List.length_cons] at this
    rw [Markup.Node.depth]
    omega
  | .text .. | .code _ | .comment _ | .doctype _ => exact length_le_of_nodup hn' hlt

theorem RepresentsAll.depth_le {w : World} {V : View} (hs : Shows w V) (hf : V.IsForest)
    (ns : List Markup.Node) {ids : List ObjectId} (h : V.RepresentsAll ids (treesOf ns))
    {path : List ObjectId} (hn : path.Nodup)
    (hp : ∀ c ∈ ids, ∀ x ∈ path, x < w.cells.size ∧ V.Above x c) (hlt : path.length ≤ w.cells.size) :
    path.length + Markup.depthAll ns ≤ w.cells.size := by
  match ns with
  | [] => exact hlt
  | n :: ns =>
    obtain ⟨id, rest, rfl, ht, hts⟩ := h
    have h1 := Represents.depth_le hs hf n ht hn (hp id List.mem_cons_self)
    have h2 := RepresentsAll.depth_le hs hf ns hts hn
      (fun c hm => hp c (List.mem_cons_of_mem id hm)) hlt
    simp only [Markup.depthAll]
    omega

end

end View

namespace Tree

open Markup (Node)
open View (representsAll_nil)

variable {env : Env} {w : World} {V : View}

theorem run'_toText (t : Text) : M.run' env w (Convert.toText (.text t)) = (.ok t, w) := rfl

theorem run'_toJoined (t : Text) : M.run' env w (Convert.toJoined (.text t)) = (.ok t, w) := rfl

theorem run'_joinTexts (texts : List Text) :
    M.run' env w ((texts.map Value.text).mapM Convert.toJoined) = (.ok texts, w) := by
  induction texts with
  | nil => rfl
  | cons t texts ih =>
    rw [List.map_cons, List.mapM_cons, M.run'_bind_ok (run'_toJoined t), M.run'_bind_ok ih]
    rfl

/-- The text that is made of the texts of children. -/
theorem run'_textBy {l : ObjectId} {ids : List ObjectId} (h : w.cells[l]? = some (listCell ids))
    (f : NodeFunction) {each : Value → M Value} {texts : List Text}
    (he : M.run' env w (ids.mapM fun id => each (.object id)) = (.ok (texts.map .text), w)) :
    M.run' env w (ChildList.textBy (.object l) f each) = (.ok (.text texts.flatten), w) := by
  rw [ChildList.textBy, M.run'_bind_ok (run'_objectList h)]
  simp only [M.run'_bind_ok he, M.run'_bind_ok (run'_joinTexts texts), M.run'_pure]

theorem serializeAll_eq (ns : List Node) :
    Markup.serializeAll ns = (ns.map Node.serialize).flatten := by
  induction ns with
  | nil => rfl
  | cons n ns ih => rw [Markup.serializeAll, ih, List.map_cons, List.flatten_cons]

/-- The attributes of an element as they are written. -/
theorem run'_writeAttributes {e : ObjectId} {tag : Value} (hs : Shows w V)
    (he : V.core e = some (.element tag)) {attributes : Markup.Attributes}
    (ha : (V.attributes e).live = Markup.values attributes) :
    M.run' env w (forAttributes (.object e) writeAttribute) =
      (.ok (attributes.map fun (n, v) => Markup.writeAttribute n v), w) := by
  rw [forAttributes, M.run'_bind_ok (run'_attributeMap (hs.record e _ he) rfl),
    M.run'_bind_ok (run'_mapEntries (hs.map e _ he rfl))]
  simp only [ha]
  clear ha
  induction attributes with
  | nil => rfl
  | cons a attributes ih =>
    rw [Markup.values_cons, List.mapM_cons, M.run'_bind_ok (a := Markup.writeAttribute a.1 a.2) rfl,
      M.run'_bind_ok ih]
    rfl

theorem any_strictlyEqual (t : Text) (ts : List Text) :
    (ts.any fun u => (Value.text t).strictlyEqual (.text u)) = ts.contains t := by
  rw [List.contains_eq_any_beq]
  rfl

mutual

/-- A node that represents markup has the text of the markup. -/
theorem run'_serializeWithin (hs : Shows w V) (n : Node) {id : ObjectId} {fuel : Nat}
    (h : V.Represents id n.tree) (hd : n.depth ≤ fuel) :
    M.run' env w (serializeWithin fuel (.object id)) = (.ok (.text n.serialize), w) := by
  match n, fuel, hd with
  | .element tag attributes children, fuel + 1, hd =>
    obtain ⟨hc, ha, hch⟩ := h
    have hrec := hs.record id _ hc
    have hd : Markup.depthAll children ≤ fuel := by
      rw [Markup.Node.depth] at hd
      omega
    have hin := run'_serializeAllWithin hs children hch hd
    have hin := run'_textBy (hs.list id _ hc rfl) .serialize hin
    rw [serializeWithin, M.run'_bind_ok (run'_kind hrec)]
    simp only [NodeCore.kind]
    rw [M.run'_bind_ok (run'_tag hrec), M.run'_bind_ok (run'_writeAttributes hs hc ha),
      M.run'_bind_ok (run'_toText tag)]
    simp only [any_strictlyEqual]
    rw [Node.serialize, Markup.writeElement, Markup.isVoid, serializeAll_eq]
    cases Markup.voidTags.contains tag with
    | true => rfl
    | false =>
      simp only [Bool.false_eq_true, if_false]
      rw [M.run'_bind_ok (run'_childList hrec rfl), M.run'_bind_ok hin,
        M.run'_bind_ok (run'_toText _)]
      rfl
  | .text value raw, fuel + 1, _ =>
    have hrec := hs.record id _ h.1
    rw [serializeWithin, M.run'_bind_ok (run'_kind hrec)]
    simp only [NodeCore.kind]
    rw [M.run'_bind_ok (run'_rawMark hrec)]
    cases raw with
    | true =>
      simp only [Value.isTruthy, if_true]
      exact run'_nodeValue hrec (.inl ⟨_, rfl⟩)
    | false =>
      simp only [Value.isTruthy, Bool.false_eq_true, if_false]
      rw [M.run'_bind_ok (run'_nodeValue hrec (.inl ⟨_, rfl⟩))]
      rfl
  | .code source, fuel + 1, _ =>
    have hrec := hs.record id _ h.1
    rw [serializeWithin, M.run'_bind_ok (run'_kind hrec)]
    simp only [NodeCore.kind]
    rw [M.run'_bind_ok (run'_source hrec)]
    rfl
  | .comment value, fuel + 1, _ =>
    have hrec := hs.record id _ h.1
    rw [serializeWithin, M.run'_bind_ok (run'_kind hrec)]
    simp only [NodeCore.kind]
    rw [M.run'_bind_ok (run'_nodeValue hrec (.inr (.inl rfl)))]
    rfl
  | .doctype value, fuel + 1, _ =>
    have hrec := hs.record id _ h.1
    rw [serializeWithin, M.run'_bind_ok (run'_kind hrec)]
    simp only [NodeCore.kind]
    rw [M.run'_bind_ok (run'_nodeValue hrec (.inr (.inr rfl)))]
    rfl

/-- Nodes that represent markup have the texts of the markup. -/
theorem run'_serializeAllWithin (hs : Shows w V) (ns : List Node) {ids : List ObjectId} {fuel : Nat}
    (h : V.RepresentsAll ids (treesOf ns)) (hd : Markup.depthAll ns ≤ fuel) :
    M.run' env w (ids.mapM fun id => serializeWithin fuel (.object id)) =
      (.ok ((ns.map Node.serialize).map .text), w) := by
  match ns with
  | [] =>
    rw [representsAll_nil.1 h]
    rfl
  | n :: ns =>
    obtain ⟨id, rest, rfl, ht, hts⟩ := h
    simp only [Markup.depthAll] at hd
    rw [List.mapM_cons, M.run'_bind_ok (run'_serializeWithin hs n ht (by omega)),
      M.run'_bind_ok (run'_serializeAllWithin hs ns hts (by omega))]
    rfl

end

/-- The text of a node of a forest. -/
theorem run'_serialize (hs : Shows w V) (hf : V.IsForest) {n : Node} {id : ObjectId}
    (h : V.Represents id n.tree) :
    M.run' env w (serialize (.object id)) = (.ok (.text n.serialize), w) := by
  have hd := h.depth_le hs hf n List.nodup_nil (by simp)
  rw [serialize, M.run'_bind_ok Store.run'_depth]
  refine run'_serializeWithin hs n h ?_
  rw [List.length_nil, Nat.zero_add] at hd
  exact Nat.le_succ_of_le hd

/-- The text of the children of an element of a forest. -/
theorem run'_innerMarkup (hs : Shows w V) (hf : V.IsForest) {tag : Text}
    {attributes : Markup.Attributes} {children : List Node} {e : ObjectId}
    (h : V.Represents e (Node.element tag attributes children).tree) :
    M.run' env w (innerMarkup (.object e)) =
      (.ok (.text (Markup.serializeAll children)), w) := by
  have hd := h.depth_le hs hf (.element tag attributes children) List.nodup_nil (by simp)
  obtain ⟨he, _, hch⟩ := h
  rw [List.length_nil, Nat.zero_add, Markup.Node.depth] at hd
  rw [innerMarkup, M.run'_bind_ok Store.run'_depth,
    M.run'_bind_ok (run'_childList (hs.record e _ he) rfl), serializeAll_eq]
  exact run'_textBy (hs.list e _ he rfl) .serialize
    (run'_serializeAllWithin hs children hch (by omega))

/-- The text of a document, or of a fragment, of a forest. -/
theorem run'_serializeRoot (hs : Shows w V) (hf : V.IsForest) {core : NodeCore} {d : ObjectId}
    (hd : V.core d = some core) (hk : core = .document ∨ core = .fragment) {ns : List Node}
    (h : V.RepresentsAll (V.children d) (treesOf ns)) :
    M.run' env w (serialize (.object d)) = (.ok (.text (Markup.serializeAll ns)), w) := by
  have hh : core.hasChildren = true := by rcases hk with rfl | rfl <;> rfl
  have hrec := hs.record d core hd
  have hdepth : [d].length + Markup.depthAll ns ≤ w.cells.size := by
    refine h.depth_le hs hf ns (by simp) (fun c hc y hy => ?_)
      (Nat.succ_le_of_lt (Nat.zero_lt_of_lt (hs.lt hd)))
    rw [List.mem_singleton.1 hy]
    exact ⟨hs.lt hd, .single ((hf.mem_children d c).1 hc)⟩
  have hfuel : Markup.depthAll ns ≤ w.cells.size := Nat.le_trans (Nat.le_add_left _ _) hdepth
  have hin : M.run' env w (do
      ChildList.textBy (← childList (.object d)) .serialize (serializeWithin w.cells.size)) =
      (.ok (.text (Markup.serializeAll ns)), w) := by
    rw [M.run'_bind_ok (run'_childList hrec hh), serializeAll_eq]
    exact run'_textBy (hs.list d core hd hh) .serialize (run'_serializeAllWithin hs ns h hfuel)
  rw [serialize, M.run'_bind_ok Store.run'_depth, serializeWithin, M.run'_bind_ok (run'_kind hrec)]
  rcases hk with rfl | rfl
  · exact hin
  · exact hin

/-- The texts of nodes of a forest. -/
theorem run'_serializeEach (hs : Shows w V) (hf : V.IsForest) {ns : List Node}
    {ids : List ObjectId} (h : V.RepresentsAll ids (treesOf ns)) :
    M.run' env w (ids.mapM fun id => serialize (.object id)) =
      (.ok ((ns.map Node.serialize).map .text), w) := by
  induction ns generalizing ids with
  | nil =>
    rw [representsAll_nil.1 h]
    rfl
  | cons n ns ih =>
    obtain ⟨id, rest, rfl, ht, hts⟩ := h
    rw [List.mapM_cons, M.run'_bind_ok (run'_serialize hs hf ht), M.run'_bind_ok (ih hts)]
    rfl

/-- Well-formed markup that is read is put into the store. -/
theorem does_readAll (hs : Shows w V) (hg : V.IsRegular) {tags : List Text} {ns : List Node}
    (h : Markup.Forest (Markup.ReadOptions.of tags true).rawTags ns) :
    ∃ ids V', Does env w V (readAll (.of tags true) (Markup.serializeAll ns)) ids V' ∧
      V'.IsRegular ∧ V.IsPlanted ids ns V' :=
  does_readAll_of_parse hs hg (Markup.parse_serializeAll h)

/-- **Reading undoes writing**, in the store: the texts of nodes that represent a well-formed
forest, read one behind another, become new nodes that represent the same forest. -/
theorem readAll_serialize {tags : List Text} {ns : List Node}
    (h : Markup.Forest (Markup.ReadOptions.of tags true).rawTags ns) (hs : Shows w V)
    (hg : V.IsRegular) {ids : List ObjectId} (hr : V.RepresentsAll ids (treesOf ns)) :
    ∃ texts : List Text, M.run' env w (ids.mapM fun id => serialize (.object id)) =
        (.ok (texts.map .text), w) ∧
      ∃ ids' w' V', M.run' env w (readAll (.of tags true) texts.flatten) = (.ok ids', w') ∧
        Shows w' V' ∧ V'.IsForest ∧ V.Extends V' ∧ (∀ id ∈ ids', V'.parent id = none) ∧
        V'.RepresentsAll ids' (treesOf ns) := by
  refine ⟨ns.map Node.serialize, run'_serializeEach hs hg.toIsForest hr, ?_⟩
  rw [← serializeAll_eq]
  obtain ⟨ids', V', ⟨w', hrun, ht⟩, hg', hp⟩ := does_readAll hs hg h
  exact ⟨ids', w', V', hrun, ht.shows, hg'.toIsForest, hp.extend, hp.roots, hp.represents⟩

/-- A paragraph with an attribute, a comment in it and a text that looks like markup. -/
def sampleForest : List Node :=
  [.element "p" [(Text.ofString "title", "\"&")] [.comment "-", .text "</p>" false]]

theorem sampleForest_wellFormed :
    Markup.Forest (Markup.ReadOptions.of [] true).rawTags sampleForest := by
  have hcomment : ¬ Text.ofString "-->" <:+: Text.ofString "-" := fun h =>
    absurd h.length_le (by decide)
  refine ⟨⟨⟨by decide, ⟨by decide, by decide⟩, ?_⟩, ?_, trivial⟩, ?_⟩
  · rw [if_neg (by decide), if_neg (by decide)]
    refine ⟨hcomment, ?_, ⟨rfl, by decide⟩, ?_, trivial⟩
    all_goals decide
  · decide
  · intro value raw hm
    simp [sampleForest] at hm

/-- The sample is read back from its text. -/
theorem readAll_serialize_sample :
    ∃ ids w V, Shows w V ∧ V.RepresentsAll ids (treesOf sampleForest) ∧
      ∃ texts : List Text, M.run' Env.silent w (ids.mapM fun id => serialize (.object id)) =
          (.ok (texts.map .text), w) ∧
        ∃ ids' w' V', M.run' Env.silent w (readAll (.of [] true) texts.flatten) = (.ok ids', w') ∧
          Shows w' V' ∧ V'.RepresentsAll ids' (treesOf sampleForest) := by
  obtain ⟨ids, V, ⟨w, hw, ht⟩, hg, hp⟩ :
      ∃ ids V, Does Env.silent World.blank View.empty (plantAll sampleForest) ids V ∧
        V.IsRegular ∧ View.empty.IsPlanted ids sampleForest V :=
    does_plantAll sampleForest (View.shows_empty World.blank) View.isRegular_empty
  refine ⟨ids, w, V, ht.shows, hp.represents, ?_⟩
  obtain ⟨texts, htexts, ids', w', V', hrun, hs', _, _, _, hr'⟩ :=
    readAll_serialize sampleForest_wellFormed ht.shows hg hp.represents
  exact ⟨texts, htexts, ids', w', V', hrun, hs', hr'⟩

end Tree

end PageTemplate
