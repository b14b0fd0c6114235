import Mathlib.Data.List.Infix
import PageTemplate.Proofs.Selector.Cut
import PageTemplate.Proofs.Selector.Selection
import PageTemplate.Proofs.Tree.Plant

/-!
# PageTemplate.Proofs.Selector.Agreement

The ways to ask a tree agree. What a selector selects below a node are the elements there that match
it, in document order and each once; asking for one of them gives the first; and an id is found
where the selector that is made of it finds it.
-/

namespace PageTemplate

namespace View

/-- The elements below a node that have a property, in document order. -/
structure Lists (V : View) (root : ObjectId) (P : ObjectId → Prop) (es : List ObjectId) : Prop where
  ordered : ∃ ds, V.Preorder (V.children root) ds ∧ es.Sublist ds
  nodup : es.Nodup
  mem_iff : ∀ x, x ∈ es ↔ V.Above root x ∧ V.isElement x = true ∧ P x

variable {V : View}

theorem Preorder.lists (hf : V.IsForest) {root : ObjectId} {ds : List ObjectId}
    (h : V.Preorder (V.children root) ds) {p : ObjectId → Bool} {P : ObjectId → Prop}
    (hp : ∀ x, p x = true ↔ V.isElement x = true ∧ P x) : V.Lists root P (ds.filter p) where
  ordered := ⟨ds, h, List.filter_sublist⟩
  nodup := (h.nodup hf (hf.siblings_apart root)).filter p
  mem_iff x := by rw [List.mem_filter, h.mem_children_iff hf, hp]

/-- Markup that is read keeps a view a view of markup. -/
theorem IsMarkup.planted {V' : View} (h : V.IsMarkup) (hg : V'.IsRegular) (hext : V.Extends V')
    (hnew : V.NewAttributes V') : V'.IsMarkup where
  toIsRegular := hg
  attributes e tag he := by
    cases hold : V.core e with
    | none => exact hnew e tag hold he
    | some core =>
      have hag := hext.agree e core hold
      rw [hag.attributes]
      exact h.attributes e tag (hag.core.symm.trans he)

theorem isMarkup_empty : View.empty.IsMarkup where
  toIsRegular := isRegular_empty
  attributes _ _ h := by cases h

end View

namespace Selector

/-- A selector of one alternative. -/
theorem read_of_parts (part : Text) {t : Text} {chain : Chain}
    (hparts : ((Text.splitOn [unit ','] t).map Text.trim).filter (!·.isEmpty) = [part])
    (hchain : chainOf part = .ok chain) : read t = .ok [chain] := by
  rw [read, hparts, List.mapM_cons, hchain]
  rfl

/-- The selector that a hash and a name make asks for the id only. -/
theorem read_id {id : Text} (hne : id ≠ []) (hid : ∀ u ∈ id, isNameUnit u = true) :
    read (unit '#' :: id) = .ok [[⟨.descendant, ⟨none, some id, [], [], []⟩⟩]] := by
  have hwhole : IsWhole (unit '#' :: id) := by
    intro u hu
    rcases List.mem_cons.1 hu with rfl | hu
    · decide
    · exact separates_of_isNameUnit (hid u hu)
  have hname : name? id = some (id, []) := by
    have htake := Text.takeWhile_append hid (r := []) (by simp)
    have hdrop := Text.dropWhile_append hid (r := []) (by simp)
    rw [List.append_nil] at htake hdrop
    simp only [name?, htake, hdrop, List.isEmpty_iff, hne, if_false]
  have htag : tag? (unit '#' :: id) = none := by
    have hstar : (unit '#' == unit '*') = false := by decide
    have hletter : CodeUnit.isLetter (unit '#') = false := by decide
    simp [tag?, hstar, hletter]
  have hpiece : piece? (unit '#' :: id) = some (.id id, []) := by
    simp [piece?, hname]
  exact read_whole (List.cons_ne_nil _ _) hwhole
    (by simp [compound?, htag, piecesWithin?, hpiece, compoundOf])

variable {V : View}

theorem matches_id {id : Text} {e : ObjectId} :
    Matches V [[⟨.descendant, ⟨none, some id, [], [], []⟩⟩]] e ↔
      V.isElement e = true ∧ V.attribute? e "id" = some id := by
  rw [matches_single]
  constructor
  · rintro ⟨he, hfit⟩
    exact ⟨he, hfit.id id rfl⟩
  · rintro ⟨he, hid⟩
    refine ⟨he, nofun, ?_, nofun, nofun, nofun⟩
    rintro _ ⟨⟩
    exact hid

end Selector

namespace Tree

open Selector

variable {env : Env} {w : World} {V : View}

theorem run'_select_of_selectAll {root : ObjectId} {t : Text} {es : List ObjectId}
    (h : M.run' env w (selectAll (.object root) t) = (.ok (es.map .object), w)) :
    M.run' env w (select? (.object root) t) = (.ok (es.head?.map .object), w) := by
  rw [select?, M.run'_bind_ok h, List.head?_map]
  rfl

variable (env) in
/-- The elements that a selector selects below a node. -/
theorem selectAll_lists (hs : Shows w V) (hm : V.IsMarkup) {root : ObjectId}
    (hroot : V.Container root) {t : Text} {s : Alternatives} (hread : read t = .ok s)
    (happ : IsApplicable s) :
    ∃ es, V.Lists root (Matches V s) es ∧
      M.run' env w (selectAll (.object root) t) = (.ok (es.map .object), w) := by
  classical
  obtain ⟨ds, hds⟩ := hm.exists_preorder hs (V.children root)
  have hrun := run'_selectAll env hs hm hroot hds hread happ
    (p := fun e => decide (Matches V s e)) (by simp)
  rw [List.filter_filter] at hrun
  exact ⟨_, hds.lists hm.toIsForest (by simp [and_comm]), hrun⟩

variable (env) in
/-- **Queries agree.** In a tree of markup, an element is said to match a selector exactly when
elements around it can be chosen for the compounds before the last one. Below a node the elements
that match are selected, in document order and each once, and asking for one gives the first of
them. The first element with an id is found, which is the one that `#` with the id selects when the
id is a name. None of this changes the store. -/
theorem queries_agree (hs : Shows w V) (hm : V.IsMarkup) :
    (∀ t s, read t = .ok s → IsApplicable s →
      (∀ e, V.isElement e = true →
        ∃ b, M.run' env w (matchesSelector (.object e) t) = (.ok b, w) ∧
          (b = true ↔ Matches V s e)) ∧
      ∀ root, V.Container root →
        ∃ es, V.Lists root (Matches V s) es ∧
          M.run' env w (selectAll (.object root) t) = (.ok (es.map .object), w) ∧
          M.run' env w (select? (.object root) t) = (.ok (es.head?.map .object), w)) ∧
    ∀ root, V.Container root → ∀ id : Text,
      ∃ es, V.Lists root (fun x => V.attribute? x "id" = some id) es ∧
        M.run' env w (findById? (.object root) (.text id)) = (.ok (es.head?.map .object), w) ∧
        (id ≠ [] → (∀ u ∈ id, isNameUnit u = true) →
          M.run' env w (select? (.object root) (unit '#' :: id)) =
            (.ok (es.head?.map .object), w)) := by
  constructor
  · intro t s hread happ
    refine ⟨fun e he => run'_matchesSelector hs hm he hread happ, fun root hroot => ?_⟩
    obtain ⟨es, hes, hall⟩ := selectAll_lists env hs hm hroot hread happ
    exact ⟨es, hes, hall, run'_select_of_selectAll hall⟩
  · intro root hroot id
    obtain ⟨ds, hds⟩ := hm.exists_preorder hs (V.children root)
    refine ⟨ds.filter (hasId V id), hds.lists hm.toIsForest (by simp [hasId]),
      run'_findById hs hm.toIsForest hroot hds id, fun hne hid => ?_⟩
    have hall := run'_selectAll env hs hm hroot hds (read_id hne hid)
      (by simp [IsApplicable]) (p := hasId V id) (by simp [hasId, matches_id])
    have hfilter : (ds.filter V.isElement).filter (hasId V id) = ds.filter (hasId V id) := by
      rw [List.filter_filter]
      refine List.filter_congr fun x _ => ?_
      cases he : V.isElement x <;> simp [hasId, he]
    rw [hfilter] at hall
    exact run'_select_of_selectAll hall

/-- A list with a part that is set apart. -/
def sampleList : Markup.Node :=
  .element "div" [] [.element "p" [] [.element "b" [(Text.ofString "id", "x")] []],
    .element "b" [] []]

/-- The sample is asked for what is set apart inside a paragraph, at any depth. -/
theorem queries_agree_sample :
    ∃ w V root, Shows w V ∧ V.Represents root sampleList.tree ∧
      (∃ s, read (Text.ofString "div b,p>b") = .ok s ∧
        ∃ es, V.Lists root (Matches V s) es ∧
          M.run' Env.silent w (selectAll (.object root) "div b,p>b") =
            (.ok (es.map .object), w)) ∧
      M.run' Env.silent w (select? (.object root) "#x") =
        M.run' Env.silent w (findById? (.object root) (.text "x")) := by
  obtain ⟨ids, V, ⟨w, hw, ht⟩, hg, hp⟩ :
      ∃ ids V, Does Env.silent World.blank View.empty (plantAll [sampleList]) ids V ∧
        V.IsRegular ∧ View.empty.IsPlanted ids [sampleList] V :=
    does_plantAll [sampleList] (View.shows_empty World.blank) View.isRegular_empty
  obtain ⟨root, rest, rfl, hrep, _⟩ := hp.represents
  have hm : V.IsMarkup := View.isMarkup_empty.planted hg hp.extend hp.attributes
  have hroot : V.Container root := ⟨_, hrep.1, rfl⟩
  have hparts : ((Text.splitOn [unit ','] (Text.ofString "div b,p>b")).map
      Text.trim).filter (!·.isEmpty) = [Text.ofString "div b", Text.ofString "p>b"] := by
    decide +kernel
  have hread : read (Text.ofString "div b,p>b") = .ok
      [[⟨.descendant, ⟨some "b", none, [], [], []⟩⟩, ⟨.descendant, ⟨some "div", none, [], [], []⟩⟩],
        [⟨.child, ⟨some "b", none, [], [], []⟩⟩, ⟨.descendant, ⟨some "p", none, [], [], []⟩⟩]] := by
    rw [Selector.read, hparts]
    rfl
  obtain ⟨hselect, hfind⟩ := queries_agree Env.silent ht.shows hm
  obtain ⟨es, hes, hall, _⟩ := (hselect _ _ hread (by simp [IsApplicable])).2 root hroot
  obtain ⟨_, _, hid, hhash⟩ := hfind root hroot "x"
  refine ⟨w, V, root, ht.shows, hrep, ⟨_, hread, es, hes, hall⟩, ?_⟩
  rw [hid]
  have hname : (Text.ofString "x").all isNameUnit = true := by decide
  exact hhash (by decide) (List.all_eq_true.1 hname)

end Tree

end PageTemplate
