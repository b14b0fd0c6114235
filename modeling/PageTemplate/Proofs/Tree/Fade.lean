import PageTemplate.Proofs.Ensures
import PageTemplate.Proofs.Respect.Trees
import PageTemplate.Proofs.Tree.Plot

/-!
# PageTemplate.Proofs.Tree.Fade

Tree steps let the markup that waits in the store fade and do nothing else to it, whatever values
are moved about: nodes of the markup, other nodes, or what only passes for a node. Nodes are put
into holders, whose child lists belong to no plot.
-/

namespace PageTemplate

namespace World

variable {w : World} {id : ObjectId} {c : Cell}

/-- Where there is no object, there seems to be an empty record. -/
theorem getElem?_of_cell (h : w.cell id = c) (hc : c ≠ default) : w.cells[id]? = some c := by
  cases ho : w.cells[id]? with
  | none =>
    simp only [cell, Array.getD_eq_getD_getElem?, ho, Option.getD_none] at h
    exact absurd h.symm hc
  | some c' => rw [← h, cell_of_getElem? ho]

end World

namespace Tree

variable {id : ObjectId} {core core' : NodeCore} {p p' : Option ObjectId}

/-- The record of a node says what kind of node it is. -/
theorem kind_eq_of_nodeCell (h : nodeCell id core p = nodeCell id core' p') :
    core.kind = core'.kind := by
  have hfind : some (Value.ofNat core.kind.number) = some (.ofNat core'.kind.number) := by
    have hnode := find_nodeType.symm.trans (congrArg (Assoc.find? (Text.ofString "nodeType"))
      (Cell.record.inj h).2)
    exact hnode.trans find_nodeType
  have hnumber := Value.number.inj (Option.some.inj hfind)
  have hkind : some core.kind = some core'.kind := by
    rw [← NodeKind.ofNumber_number, ← NodeKind.ofNumber_number]
    exact congrArg NodeKind.ofNumber? hnumber
  exact Option.some.inj hkind

/-- The record of a node says what the node is. -/
theorem core_eq_of_nodeCell (h : nodeCell id core p = nodeCell id core' p') : core = core' := by
  have hkind := kind_eq_of_nodeCell h
  have hprops : nodeProperties id core p = nodeProperties id core' p' := (Cell.record.inj h).2
  have hfind := fun name => congrArg (Assoc.find? (Text.ofString name)) hprops
  cases core <;> cases core' 
  any_goals cases hkind
  case element => exact congrArg _ (Option.some.inj (hfind "tagName"))
  case text =>
    exact congrArg₂ _ (Option.some.inj (hfind "nodeValue")) (Option.some.inj (hfind "raw"))
  case code => exact congrArg _ (Option.some.inj (hfind "source"))
  case comment => exact congrArg _ (Option.some.inj (hfind "nodeValue"))
  case doctype => exact congrArg _ (Option.some.inj (hfind "nodeValue"))
  all_goals rfl

variable {env : Env} {w : World}

/-- A change of the parent of a node. -/
theorem fades_setParent {inside grown : ObjectId → Prop} {l : Links}
    (h : w.cells[id]? = some (nodeCell id core p)) (hl : l p') :
    Fades inside grown l w (w.setCell id (nodeCell id core p')) := by
  refine .of_setCell (fun core' q' h' => ?_) (fun _ _ _ h' => ?_) fun _ h' => ?_
  · rw [h] at h'
    exact ⟨p', by rw [core_eq_of_nodeCell (Option.some.inj h')], .inr hl⟩
  · rw [h] at h'
    cases h'
  · rw [h] at h'
    cases h'

theorem eq_objects_of_objectIds {items : List (Option Value)} {ids : List ObjectId}
    (h : objectIds? items = some ids) : items = ids.map fun id => some (.object id) := by
  induction items generalizing ids with
  | nil =>
    cases h
    rfl
  | cons item items ih =>
    match item, h with
    | some (.object id), h =>
      obtain ⟨rest, hrest, rfl⟩ := Option.map_eq_some_iff.1 h
      rw [ih hrest]
      rfl

/-- A value is a plain list of objects or is not. -/
theorem run'_objectList_cases (env : Env) (w : World) (v : Value) :
    (∃ l ids, v = .object l ∧ w.cells[l]? = some (listCell ids) ∧
      M.run' env w (objectList? v) = (.ok (some (l, ids)), w)) ∨
    M.run' env w (objectList? v) = (.ok none, w) := by
  cases v with
  | object l =>
    by_cases h : ∃ ids, w.cells[l]? = some (listCell ids)
    · obtain ⟨ids, h⟩ := h
      exact .inl ⟨l, ids, rfl, h, run'_objectList h⟩
    · refine .inr ?_
      simp only [objectList?, M.run'_bind, Store.run'_cell]
      split
      · rename_i items hc
        have hcell := World.getElem?_of_cell hc (by rintro ⟨⟩)
        cases hids : objectIds? items with
        | none => rfl
        | some ids =>
          rw [eq_objects_of_objectIds hids] at hcell
          exact absurd ⟨ids, hcell⟩ h
      · rfl
  | _ => exact .inr rfl

end Tree

namespace Property

variable {env : Env} {w : World}

theorem run'_own (env : Env) (w : World) (v : Value) (name : Text) : ∃ p, M.run' env w (own? v name) = (.ok p, w) := by
  cases v with
  | object id =>
    simp only [own?, ownOf?, M.run'_bind, Store.run'_cell]
    split
    case h_7 => split <;> exact ⟨_, rfl⟩
    all_goals exact ⟨_, rfl⟩
  | _ => exact ⟨_, rfl⟩

theorem run'_ancestry (env : Env) (w : World) (v : Value) : ∃ a, M.run' env w (ancestry v) = (.ok a, w) := by
  cases v with
  | object id =>
    simp only [ancestry, ancestryOf, M.run'_bind, Store.run'_cell]
    split <;> exact ⟨_, rfl⟩
  | _ => exact ⟨_, rfl⟩

theorem run'_isFixed (env : Env) (w : World) (v : Value) (name : Text) :
    ∃ b, M.run' env w (isFixed v name) = (.ok b, w) := by
  unfold isFixed
  split
  · simp only [M.run'_bind, Store.run'_cell]
    split <;> exact ⟨_, rfl⟩
  · exact ⟨_, rfl⟩
  · exact ⟨_, rfl⟩

/-- Looking for a property always comes to an end and changes nothing. -/
theorem run'_search (env : Env) (w : World) (v : Value) (name : Text) :
    ∃ found, M.run' env w (search? v name) = (.ok found, w) := by
  have hwithin : ∀ n v, ∃ found, M.run' env w (searchWithin? n v name) = (.ok found, w) := by
    intro n
    induction n with
    | zero => exact fun _ => ⟨none, rfl⟩
    | succ n ih =>
      intro v
      obtain ⟨p, hp⟩ := run'_own env w v name
      rw [searchWithin?, M.run'_bind_ok hp]
      cases p with
      | some p =>
        obtain ⟨b, hb⟩ := run'_isFixed env w v name
        simp only [M.run'_bind_ok hb]
        exact ⟨_, rfl⟩
      | none =>
        obtain ⟨a, ha⟩ := run'_ancestry env w v
        simp only [M.run'_bind_ok ha]
        cases a with
        | value v => exact ih v
        | family f => exact ⟨_, rfl⟩
        | nothing => exact ⟨_, rfl⟩
  rw [search?, M.run'_bind_ok Store.run'_depth]
  exact hwithin _ v

/-- Setting the parent that an object itself has changes this object, unless it is a map. An array
keeps its items. -/
theorem run'_setOwn_parent (env : Env) (w : World) (id : ObjectId) (v : Value) :
    M.run' env w (setOwn id "parentNode" v) = (.ok false, w) ∨
      ∃ c, M.run' env w (setOwn id "parentNode" v) = (.ok true, w.setCell id c) ∧
        (∀ items extra, w.cell id = .array items extra → ∃ extra', c = .array items extra') ∧
        ∀ entries, w.cell id ≠ .map entries := by
  have hlength : (Text.ofString "parentNode" == Text.ofString "length") = false := by decide
  have hindex : Key.index? (Text.ofString "parentNode") = none := by decide
  simp only [setOwn, M.run'_bind, Store.run'_cell]
  cases hc : w.cell id with
  | map entries => exact .inl rfl
  | array items extra =>
    refine .inr ⟨.array items (Assoc.put (Text.ofString "parentNode") v extra), ?_, ?_, ?_⟩
    · simp only [setInArray, hlength, hindex, Bool.false_eq_true, if_false]
      rfl
    · rintro _ _ ⟨⟩
      exact ⟨_, rfl⟩
    · rintro _ ⟨⟩
  | sparseArray length items extra =>
    refine .inr ⟨.sparseArray length items (Assoc.put (Text.ofString "parentNode") v extra),
      ?_, ?_, ?_⟩
    · simp only [setInArray, hlength, hindex, Bool.false_eq_true, if_false]
      rfl
    · rintro _ _ ⟨⟩
    · rintro _ ⟨⟩
  | _ =>
    refine .inr ⟨_, rfl, ?_, ?_⟩
    · rintro _ _ ⟨⟩
    · rintro _ ⟨⟩

/-- Setting the parent of an object either calls a function that sets it or changes this object
alone. -/
theorem run'_set_parent {id : ObjectId} {v : Value} {w' : World}
    (h : M.run' env w (set id "parentNode" v) = (.ok true, w')) :
    (∃ f this arguments, w' = (M.run' env w (M.call f this arguments)).2) ∨
      ∃ c, w' = w.setCell id c ∧
        (∀ items extra, w.cell id = .array items extra → ∃ extra', c = .array items extra') ∧
        ∀ entries, w.cell id ≠ .map entries := by
  obtain ⟨found, hfound⟩ := run'_search env w (.object id) "parentNode"
  rw [set, M.run'_bind_ok hfound] at h
  have hown : M.run' env w (setOwn id "parentNode" v) = (.ok true, w') →
      ∃ c, w' = w.setCell id c ∧
        (∀ items extra, w.cell id = .array items extra → ∃ extra', c = .array items extra') ∧
        ∀ entries, w.cell id ≠ .map entries := by
    intro hown
    rcases run'_setOwn_parent env w id v with hm | ⟨c, hc, hitems, hmap⟩
    · rw [hm] at hown
      cases hown
    · rw [hc] at hown
      cases hown
      exact ⟨c, rfl, hitems, hmap⟩
  cases found with
  | none => exact .inr (hown h)
  | some found =>
    cases found with
    | value p b =>
      cases b with
      | true => cases h
      | false => exact .inr (hown h)
    | accessor a =>
      obtain ⟨getter, setter⟩ := a
      cases setter with
      | none => cases h
      | some setter =>
        obtain ⟨_, v', hcall, hdone⟩ := M.run'_bind_eq_ok.1 h
        cases hdone
        exact .inl ⟨setter, .object id, [v], by rw [hcall]⟩

end Property

namespace Frontier

variable {F : Frontier} {kept : ObjectId → Prop} {env : Env} {w w' : World}

theorem Stands.keep (h : F.Stands w) (hF : F.Within kept) (hk : w.Keeps kept w') : F.Stands w' := by
  have hf : Fades kept (fun _ => False) F.links w w' := .of_kept hk.cells hk.size
  exact h.fades hf hF fun _ _ _ _ hg => hg

/-- What only looks at objects keeps a frontier, with functions that spare it. -/
theorem keptByReads (henv : env.Spares kept) (hF : F.Within kept) :
    KeptByReads env fun w v => w = v ∧ F.Stands w where
  cells := fun ⟨he, _⟩ => by rw [he]
  joining := fun ⟨he, _⟩ => by rw [he]
  alloc cells := fun ⟨he, h⟩ => ⟨by rw [he], h.keep hF (.allocAll cells)⟩
  log line := fun ⟨he, h⟩ => ⟨by rw [he], h.keep hF (.of_cells rfl)⟩
  warn line := fun ⟨he, h⟩ => ⟨by rw [he], h.keep hF (.of_cells rfl)⟩
  join ids := fun ⟨he, h⟩ => ⟨by rw [he], h.keep hF (.of_cells rfl)⟩
  call f this arguments := fun ⟨he, h⟩ => by
    subst he
    exact ⟨rfl, rfl, h.keep hF (henv f this arguments _)⟩

/-- Whether a node is in a holder, if it is anywhere. -/
def Places (F : Frontier) (id : ObjectId) (w : World) : Prop :=
  ∃ core q, w.cells[id]? = some (Tree.nodeCell id core q) ∧ F.links q

theorem Stands.places_waiting (h : F.Stands w) {p : Plot} (hp : p ∈ F.waiting) : F.Places p.id w := by
  obtain ⟨core, q, hr, hq⟩ := (h.plots p hp).record
  exact ⟨core, q, hr, hq⟩

theorem Stands.places_holder (h : F.Stands w) {z : ObjectId × NodeCore} (hz : z ∈ F.holders) :
    F.Places z.1 w := by
  obtain ⟨q, hr, hq⟩ := h.records z hz
  exact ⟨z.2, q, hr, hq⟩

section Steps

variable (henv : env.Spares kept) (hF : F.Within kept)

include henv hF

theorem ensures_of_respects {α : Type} {action : M α}
    (h : ∀ S [KeptByReads env S], Respects env S action) :
    Ensures env F.Stands action fun _ => F.Stands := by
  have := keptByReads henv hF
  exact .of_respects (h _)

/-- A change of parents. Of what is no node, arrays and maps keep what is in them. -/
theorem ensures_setParent (child : Value) {p : Option ObjectId} (hp : F.links p) :
    Ensures env F.Stands (Tree.setParent child p) fun _ => F.Stands := by
  intro w hw _ w' hr
  cases child with
  | object id =>
    by_cases hnode : ∃ core q, w.cells[id]? = some (Tree.nodeCell id core q)
    · obtain ⟨core, q, hnode⟩ := hnode
      rw [Tree.run'_setParent hnode] at hr
      cases hr
      exact hw.thins (Tree.fades_setParent hnode hp)
    · simp only [Tree.setParent, M.run'_bind, Store.run'_cell] at hr
      split at hr
      · cases hr
        exact hw
      · obtain ⟨isSet, v, hset, hdone⟩ := M.run'_bind_eq_ok.1 hr
        cases isSet with
        | false => cases hdone
        | true =>
          cases hdone
          rcases Property.run'_set_parent hset with ⟨f, this, arguments, rfl⟩ | ⟨c, rfl, hitems, hmap⟩
          · exact hw.keep hF (henv f this arguments w)
          · refine hw.thins (.of_setCell (fun core q h' => ?_) (fun items extra _ h' => ?_)
              fun entries h' => ?_)
            · exact absurd ⟨core, q, h'⟩ hnode
            · obtain ⟨extra', rfl⟩ := hitems items extra (World.cell_of_getElem? h')
              exact ⟨items, extra', rfl, .refl items⟩
            · exact absurd (World.cell_of_getElem? h') (hmap entries)
  | function f =>
    cases hr
    exact hw
  | _ => cases hr

theorem ensures_setParents (vs : List Value) {p : Option ObjectId} (hp : F.links p) :
    Ensures env F.Stands (Tree.setParents p vs) fun _ => F.Stands := by
  induction vs with
  | nil => exact .pure fun _ hw => hw
  | cons v vs ih => exact (ensures_setParent henv hF v hp).bind fun _ => ih

/-! Child lists. Whatever list it is, taking something out of it lets markup fade. -/

theorem ensures_takeAll (l : Value) :
    Ensures env F.Stands (Tree.ChildList.takeAll l) fun _ => F.Stands := by
  intro w hw a w' hr
  rcases Tree.run'_objectList_cases env w l with ⟨l, ids, rfl, hl, -⟩ | hnone
  · rw [Tree.ChildList.run'_takeAll hl] at hr
    cases hr
    refine hw.thins (.of_setCell (fun _ _ h' => ?_) (fun items extra _ h' => ?_) fun _ h' => ?_)
    · rw [hl] at h'
      cases h'
    · exact ⟨[], [], rfl, List.nil_sublist items⟩
    · rw [hl] at h'
      cases h'
  · rw [Tree.ChildList.takeAll, M.run'_bind_ok hnone] at hr
    exact ensures_of_respects henv hF (fun S _ => (Convert.respects_invoke _ _ _).bind
      fun v => Sequence.respects_iterate v) w hw a w' hr

theorem ensures_takeOut (l child : Value) :
    Ensures env F.Stands (Tree.ChildList.remove l child) fun _ => F.Stands := by
  intro w hw a w' hr
  rcases Tree.run'_objectList_cases env w l with ⟨l, ids, rfl, hl, hsome⟩ | hnone
  · rw [Tree.ChildList.remove, M.run'_bind_ok hsome] at hr
    simp only at hr
    split at hr
    · rename_i i _
      cases hr
      refine hw.thins (.of_setCell (fun _ _ h' => ?_) (fun items extra _ h' => ?_) fun _ h' => ?_)
      · rw [hl] at h'
        cases h'
      · rw [hl] at h'
        cases h'
        refine ⟨_, [], rfl, ?_⟩
        rw [List.map_map]
        exact (List.eraseIdx_sublist ids i).map _
      · rw [hl] at h'
        cases h'
    · cases hr
      exact hw
  · rw [Tree.ChildList.remove, M.run'_bind_ok hnone] at hr
    refine ensures_of_respects henv hF (fun S _ => (Convert.respects_invoke _ _ _).bind
      fun i => .ite (.discard (Convert.respects_invoke _ _ _)) (.pure _)) w hw a w' hr

omit henv hF in
/-- The child list of a holder may become any list. -/
theorem Stands.setList (hw : F.Stands w) {z : ObjectId × NodeCore} (hz : z ∈ F.holders)
    {ids : List ObjectId} (hl : w.cells[Tree.childrenOf z.1]? = some (Tree.listCell ids)) (c : Cell) :
    F.Stands (w.setCell (Tree.childrenOf z.1) c) := by
  have hf : Fades (fun _ => True) (· = Tree.childrenOf z.1) F.links w
      (w.setCell (Tree.childrenOf z.1) c) := by
    refine .of_setCell (fun _ _ h' => ?_) (fun _ _ hg _ => absurd rfl hg) fun _ h' => ?_
    · rw [hl] at h'
      cases h'
    · rw [hl] at h'
      cases h'
  exact hw.fades hf ⟨fun _ _ _ _ => trivial, fun _ _ => trivial, fun _ _ => trivial⟩
    fun p hp place hc he => hw.lists z hz p hp (he ▸ hc)

theorem ensures_push {z : ObjectId × NodeCore} (hz : z ∈ F.holders) (values : List Value) :
    Ensures env F.Stands (Tree.ChildList.push (.object (Tree.childrenOf z.1)) values)
      fun _ => F.Stands := by
  intro w hw a w' hr
  rcases Tree.run'_objectList_cases env w (.object (Tree.childrenOf z.1)) with
    ⟨l, ids, he, hl, hsome⟩ | hnone
  · cases he
    rw [Tree.ChildList.push, M.run'_bind_ok hsome] at hr
    cases hr
    exact hw.setList hz hl _
  · rw [Tree.ChildList.push, M.run'_bind_ok hnone] at hr
    exact ensures_of_respects henv hF (fun S _ => .discard (Convert.respects_invoke _ _ _)) w hw a w' hr

theorem ensures_substitute {z : ObjectId × NodeCore} (hz : z ∈ F.holders) (child : Value)
    (inserted : List Value) :
    Ensures env F.Stands
      (Tree.ChildList.substitute (.object (Tree.childrenOf z.1)) child inserted)
      fun _ => F.Stands := by
  intro w hw a w' hr
  rcases Tree.run'_objectList_cases env w (.object (Tree.childrenOf z.1)) with
    ⟨l, ids, he, hl, hsome⟩ | hnone
  · cases he
    rw [Tree.ChildList.substitute, M.run'_bind_ok hsome] at hr
    cases hr
    exact hw.setList hz hl _
  · rw [Tree.ChildList.substitute, M.run'_bind_ok hnone] at hr
    exact ensures_of_respects henv hF (fun S _ => (Convert.respects_invoke _ _ _).bind
      fun i => .discard (Convert.respects_invoke _ _ _)) w hw a w' hr

/-! Moving values. -/

theorem ensures_remove (v : Value) :
    Ensures env F.Stands (Tree.remove v) fun _ => F.Stands := by
  unfold Tree.remove
  refine (ensures_of_respects henv hF fun S _ => Tree.respects_parent v).bind fun p => ?_
  refine .ite (fun _ => ?_) fun _ => .pure fun _ hw => hw
  refine (ensures_of_respects henv hF fun S _ => Tree.respects_childList p).bind fun l => ?_
  exact (ensures_takeOut henv hF l v).bind fun _ => ensures_setParent henv hF v links_none

theorem ensures_adopt {p : ObjectId} (hp : F.links (some p)) (v : Value) :
    Ensures env F.Stands (Tree.adopt p v) fun _ => F.Stands := by
  unfold Tree.adopt
  refine (ensures_of_respects henv hF fun S _ => Tree.respects_kind? v).bind fun kind => ?_
  refine .ite (fun _ => ?_) fun _ => ?_
  · refine (ensures_of_respects henv hF fun S _ => Tree.respects_childList v).bind fun l => ?_
    refine (ensures_takeAll henv hF l).bind fun moved => ?_
    exact (ensures_setParents henv hF moved hp).bind fun _ => .pure fun _ hw => hw
  · refine (ensures_remove henv hF v).bind fun _ => ?_
    exact (ensures_setParent henv hF v hp).bind fun _ => .pure fun _ hw => hw

omit henv hF in
theorem links_holder {z : ObjectId × NodeCore} (hz : z ∈ F.holders) : F.links (some z.1) := by
  intro id he
  cases he
  exact ⟨z.2, hz⟩

omit henv hF in
/-- The child list of a holder. -/
theorem run'_childList {z : ObjectId × NodeCore} (hz : z ∈ F.holders) (w : World) (hw : F.Stands w) :
    M.run' env w (Tree.childList (.object z.1)) = (.ok (.object (Tree.childrenOf z.1)), w) := by
  obtain ⟨q, hr, -⟩ := hw.records z hz
  exact Tree.run'_childList hr (hw.parents z hz).1

theorem ensures_append {z : ObjectId × NodeCore} (hz : z ∈ F.holders) (v : Value) :
    Ensures env F.Stands (Tree.append (.object z.1) v) fun _ => F.Stands := by
  unfold Tree.append
  refine .ite (fun _ => ?_) fun _ => ?_
  · exact .bind (.throw (Q := fun _ _ => False) _) fun _ _ hf => hf.elim
  · refine .bind_run (run'_childList hz) ?_
    refine .bind_run (a := z.1) (fun _ _ => rfl) ?_
    exact (ensures_adopt henv hF (links_holder hz) v).bind fun nodes => ensures_push henv hF hz nodes

theorem ensures_stealChildren {z : ObjectId × NodeCore} (hz : z ∈ F.holders) (source : Value) :
    Ensures env F.Stands (Tree.stealChildren (.object z.1) source) fun _ => F.Stands := by
  unfold Tree.stealChildren
  refine (ensures_of_respects henv hF fun S _ => Tree.respects_childList source).bind fun l => ?_
  refine (ensures_takeAll henv hF l).bind fun moved => ?_
  refine .bind_run (a := z.1) (fun _ _ => rfl) ?_
  refine (ensures_setParents henv hF moved (links_holder hz)).bind fun _ => ?_
  exact .bind_run (run'_childList hz) (ensures_push henv hF hz moved)

theorem ensures_removeChildren (v : Value) :
    Ensures env F.Stands (Tree.removeChildren v) fun _ => F.Stands := by
  unfold Tree.removeChildren
  refine (ensures_of_respects henv hF fun S _ => Tree.respects_childList v).bind fun l => ?_
  exact (ensures_takeAll henv hF l).bind fun moved => ensures_setParents henv hF moved links_none

omit henv hF in
/-- The parent of a node that is in a holder, if it is anywhere. -/
theorem ensures_parent {id : ObjectId} (h : ∀ w, F.Stands w → F.Places id w) :
    Ensures env F.Stands (Tree.parent (.object id)) fun p w =>
      F.Stands w ∧ (p = .null ∨ ∃ z ∈ F.holders, p = .object z.1) := by
  intro w hw p w' hr
  obtain ⟨core, q, hrecord, hq⟩ := h w hw
  rw [Tree.run'_parent hrecord] at hr
  cases hr
  refine ⟨hw, ?_⟩
  cases q with
  | none => exact .inl rfl
  | some q =>
    obtain ⟨qcore, hz⟩ := hq q rfl
    exact .inr ⟨(q, qcore), hz, rfl⟩

theorem ensures_replaceWith {id : ObjectId} (h : ∀ w, F.Stands w → F.Places id w) (v : Value) :
    Ensures env F.Stands (Tree.replaceWith (.object id) v) fun _ => F.Stands := by
  unfold Tree.replaceWith
  refine (ensures_parent h).bind fun p => .pre fun hp => ?_
  rcases hp with rfl | ⟨z, hz, rfl⟩
  · refine .ite (fun _ => ?_) fun hnot => absurd rfl hnot
    exact .bind (.always _) fun _ => .bind (.throw (Q := fun _ _ => False) _) fun _ _ hf => hf.elim
  · refine .ite (fun htruthy => absurd htruthy Bool.false_ne_true) fun _ => ?_
    refine .ite (fun _ => .pure fun _ hw => hw) fun _ => ?_
    refine .bind_run (a := z.1) (fun _ _ => rfl) ?_
    refine (ensures_adopt henv hF (links_holder hz) v).bind fun nodes => ?_
    refine .bind_run (run'_childList hz) ?_
    exact (ensures_substitute henv hF hz _ nodes).bind fun _ =>
      ensures_setParent henv hF _ links_none

end Steps

end Frontier

end PageTemplate
