import PageTemplate.Proofs.Selector.Selection
import PageTemplate.Proofs.Tree.Order
import PageTemplate.Proofs.Tree.Serialize

/-!
# PageTemplate.Proofs.Tree.TextContent

The text of a node: the values of the text nodes inside it, in document order. Asking a node for its
text goes through its children and joins what they yield, and that comes to the same.
-/

namespace PageTemplate

namespace View

variable {V V' : View} {x : ObjectId} {t u : Text}

/-- The value of a text node; of another node there is none. -/
def ownText (V : View) (x : ObjectId) : Text :=
  match V.core x with
  | some (.text (.text t) _) => t
  | _ => []

/-- Whether a text is that of all text nodes inside a node, one after another. -/
def HasText (V : View) (x : ObjectId) (t : Text) : Prop :=
  ∃ ds, V.Preorder [x] ds ∧ t = ds.flatMap V.ownText

/-- Whether the text nodes inside a node hold texts. -/
def HoldsTexts (V : View) (x : ObjectId) : Prop :=
  ∀ z, V.Within x z → ∀ value raw, V.core z = some (.text value raw) → ∃ t, value = .text t

theorem HasText.unique (h : V.HasText x t) (h' : V.HasText x u) : t = u := by
  obtain ⟨ds, hds, rfl⟩ := h
  obtain ⟨es, hes, rfl⟩ := h'
  rw [hds.unique hes]

theorem ownText_congr (h : V'.core x = V.core x) : V'.ownText x = V.ownText x := by
  rw [ownText, ownText, h]

/-- The text depends on the nodes inside and on their order only. -/
theorem HasText.congr (hf : V.IsForest) (h : V.HasText x t)
    (hag : ∀ z, V.Within x z → V'.core z = V.core z ∧ V'.children z = V.children z) :
    V'.HasText x t := by
  obtain ⟨ds, hds, rfl⟩ := h
  have hin : ∀ z ∈ ds, V.Within x z := fun z hz => by
    obtain ⟨y, hy, hw⟩ := (hds.mem_iff hf).1 hz
    rw [List.mem_singleton.1 hy] at hw
    exact hw
  refine ⟨ds, hds.congr fun z hz => (hag z (hin z hz)).2, ?_⟩
  exact List.flatMap_congr fun z hz => (ownText_congr (hag z (hin z hz)).1).symm

theorem HoldsTexts.of_above {y : ObjectId} (h : V.HoldsTexts x) (ha : V.Above x y) :
    V.HoldsTexts y := fun z hz => h z (.inr (by
  rcases hz with rfl | hz
  · exact ha
  · exact Relation.TransGen.trans hz ha))

mutual

/-- The text nodes in markup hold texts. -/
theorem Represents.holdsTexts (hf : V.IsForest) (n : Markup.Node) {id : ObjectId}
    (h : V.Represents id n.tree) : V.HoldsTexts id := by
  rintro z (rfl | hz) value raw hcore
  · match n with
    | .element .. => cases hcore.symm.trans h.1
    | .text t _ =>
      cases hcore.symm.trans h.1
      exact ⟨t, rfl⟩
    | .code _ | .comment _ | .doctype _ => cases hcore.symm.trans h.1
  · match n with
    | .element _ _ children =>
      obtain ⟨c, hc, hw⟩ := hf.above_iff_child.1 hz
      exact RepresentsAll.holdsTexts hf children h.2.2 c hc z hw value raw hcore
    | .text .. | .code _ | .comment _ | .doctype _ =>
      exact absurd hz (hf.not_above_leaf h.1 h.2)

theorem RepresentsAll.holdsTexts (hf : V.IsForest) (ns : List Markup.Node) {ids : List ObjectId}
    (h : V.RepresentsAll ids (treesOf ns)) : ∀ c ∈ ids, V.HoldsTexts c := by
  match ns with
  | [] =>
    rw [representsAll_nil.1 h]
    nofun
  | n :: ns =>
    obtain ⟨id, rest, rfl, hn, hns⟩ := h
    intro c hc
    rcases List.mem_cons.1 hc with rfl | hc
    · exact Represents.holdsTexts hf n hn
    · exact RepresentsAll.holdsTexts hf ns hns c hc

end

end View

namespace Tree

open View

variable {env : Env} {w : World} {V : View}

variable (env) in
/-- The texts of siblings. -/
theorem run'_textsOf (hs : Shows w V) (hf : V.IsForest) {depth : ObjectId → Nat}
    (hdepth : ∀ c p, V.parent c = some p → depth p < depth c) (hle : ∀ c, depth c ≤ w.cells.size)
    {ids ds : List ObjectId} (h : V.Preorder ids ds) :
    ∀ (n : Nat) {p : ObjectId}, (∀ c ∈ ids, V.parent c = some p ∧ V.HoldsTexts c) →
      w.cells.size < depth p + n + 1 →
      ∃ texts : List Text, M.run' env w (ids.mapM fun id => textWithin n (.object id)) =
          (.ok (texts.map .text), w) ∧ texts.flatten = ds.flatMap V.ownText := by
  induction h with
  | nil => exact fun _ _ _ _ => ⟨[], rfl, rfl⟩
  | @cons x xs below rest hb _ ihb ihr =>
    intro n p hids hn
    obtain ⟨hx, htexts⟩ := hids x List.mem_cons_self
    obtain ⟨core, hcore, hinner⟩ := hf.inner x p hx
    have hrec := hs.record x core hcore
    have hlt := hdepth x p hx
    have hlx := hle x
    obtain ⟨m, rfl⟩ : ∃ m, n = m + 1 := ⟨n - 1, by omega⟩
    obtain ⟨texts, hrest, hjoined⟩ := ihr (m + 1)
      (fun c hc => hids c (List.mem_cons_of_mem x hc)) hn
    have hone : ∃ t : Text, M.run' env w (textWithin (m + 1) (.object x)) = (.ok (.text t), w) ∧
        t = V.ownText x ++ below.flatMap V.ownText := by
      -- Elements join the texts of their children; other nodes have none.
      cases hh : core.hasChildren with
      | true =>
        have hown : V.ownText x = [] := by
          rw [View.ownText, hcore]
          cases core <;> simp_all [NodeCore.hasChildren]
        obtain ⟨inner, hinside, htext⟩ := ihb m (fun c hc => by
          have hcp := (hf.mem_children x c).1 hc
          exact ⟨hcp, htexts.of_above (.single hcp)⟩) (by omega)
        refine ⟨inner.flatten, ?_, by rw [hown, htext, List.nil_append]⟩
        have hjoin := run'_textBy (hs.list x core hcore hh) .textContent hinside
        rw [textWithin, M.run'_bind_ok (run'_kind hrec)]
        cases core with
        | element tag =>
          simp only [NodeCore.kind]
          rw [M.run'_bind_ok (run'_childList hrec rfl), hjoin]
        | fragment | document => cases hinner
        | text | code | comment | doctype => cases hh
      | false =>
        have hbelow : below = [] := by
          rw [hf.children_leaf hcore hh] at hb
          cases hb
          rfl
        rw [hbelow, List.flatMap_nil, List.append_nil, textWithin, M.run'_bind_ok (run'_kind hrec)]
        cases core with
        | text value raw =>
          obtain ⟨t, rfl⟩ := htexts x (.inl rfl) value raw hcore
          exact ⟨t, run'_nodeValue hrec (.inl ⟨_, rfl⟩), by rw [View.ownText, hcore]⟩
        | code | comment | doctype => exact ⟨[], rfl, by rw [View.ownText, hcore]⟩
        | element | fragment | document => cases hh
    obtain ⟨t, hrun, ht⟩ := hone
    refine ⟨t :: texts, ?_, ?_⟩
    · rw [List.mapM_cons, M.run'_bind_ok hrun, M.run'_bind_ok hrest]
      rfl
    · rw [List.flatten_cons, ht, hjoined, List.flatMap_cons, List.flatMap_append,
        List.append_assoc]

variable (env) in
/-- The text of an element. -/
theorem run'_textContent (hs : Shows w V) (hf : V.IsForest) {e : ObjectId} {tag : Value}
    (he : V.core e = some (.element tag)) (htexts : V.HoldsTexts e) :
    ∃ t : Text, M.run' env w (textContent (.object e)) = (.ok (.text t), w) ∧ V.HasText e t := by
  obtain ⟨depth, hdepth, hle⟩ := hf.exists_depth hs
  obtain ⟨ds, hds⟩ := hf.exists_preorder hs (V.children e)
  have hown : V.ownText e = [] := by rw [View.ownText, he]
  obtain ⟨texts, hinside, htext⟩ := run'_textsOf env hs hf hdepth hle hds w.cells.size
    (fun c hc => by
      have hcp := (hf.mem_children e c).1 hc
      exact ⟨hcp, htexts.of_above (.single hcp)⟩) (by omega)
  refine ⟨texts.flatten, ?_, e :: ds, preorder_singleton.2 hds, ?_⟩
  · have hrec := hs.record e _ he
    have hjoin := run'_textBy (hs.list e _ he rfl) .textContent hinside
    rw [textContent, M.run'_bind_ok Store.run'_depth, textWithin, M.run'_bind_ok (run'_kind hrec)]
    simp only [NodeCore.kind]
    rw [M.run'_bind_ok (run'_childList hrec rfl), hjoin]
  · rw [List.flatMap_cons, hown, htext, List.nil_append]

end Tree

end PageTemplate
