import PageTemplate.Proofs.Template.Recognition
import PageTemplate.Proofs.Tree.Regions
import PageTemplate.Proofs.Tree.Serialize

/-!
# PageTemplate.Proofs.Template.Containment

Inserting nodes of the tree. Inline code may yield a node of any tree, also of the one that it
stands in. As long as the code does not stand in that node the node moves, and the nodes are still a
forest; otherwise it is an error, and nothing moves. Whether the code stands in the node is found out
by going up from the code, so a body that is expanded outside of its tree does not count as standing
in anything there.
-/

namespace PageTemplate

namespace View

variable {V V' : View} {e c : ObjectId}

theorem Within.up {y q : ObjectId} (h : V.Within e q) (hp : V.parent y = some q) :
    V.Within e y :=
  within_iff.2 (.head hp (within_iff.1 h))

/-- When what lies outside of a node keeps its parents, what lies inside is not put above the parent
of a node outside. -/
theorem not_under_of_outside {nodes : List ObjectId} {p : ObjectId}
    (hpar : ∀ y q, ¬ V.Within e y → V'.parent y = some q → V.parent y = some q)
    (hn : ∀ n ∈ nodes, V.Within e n) (hw : ¬ V.Within e c) (hc : V.parent c = some p) :
    e ≠ p ∧ ¬ V'.Under nodes p := by
  have hp : ¬ V.Within e p := fun h => hw (h.up hc)
  have hup : ∀ y, V'.Above y p → ¬ V.Within e y := by
    intro y ha
    induction ha with
    | single hy => exact fun h => hp (h.up (hpar _ _ hp hy))
    | tail _ hy ih => exact fun h => ih (h.up (hpar _ _ ih hy))
  refine ⟨fun h => hp (.inl h.symm), ?_⟩
  rintro ⟨n, hm, rfl | ha⟩
  · exact hp (hn p hm)
  · exact hup n ha (hn n hm)

/-- What comes in a place when a node is put there: the children of a fragment or of a document,
otherwise the node itself. -/
def contents (V : View) (e : ObjectId) : List ObjectId :=
  match V.core e with
  | some .fragment | some .document => V.children e
  | _ => [e]

/-- What `V'` says of a node `r` that is ready to take the place that `c` has in `V`: the nodes come
there, and that does not put a node into itself. -/
structure Fits (V : View) (c : ObjectId) (nodes : List ObjectId) (V' : View) (r : ObjectId) :
    Prop where
  core : V'.core c = V.core c
  parent : V'.parent c = V.parent c
  ne : r ≠ c
  insertable : V'.Insertable r
  inserted : V'.inserted r = nodes
  outside : ∀ p, V.parent c = some p → r ≠ p ∧ ¬ V'.Under nodes p

end View

namespace Tree

variable {env : Env} {w : World} {V : View} {a c e : ObjectId} {core ecore : NodeCore}

/-- Going up from a node, `path` having been passed. -/
theorem run'_containsWithin (hs : Shows w V) (hf : V.IsForest) (n : Nat) :
    ∀ {c : ObjectId} {core : NodeCore} {path : List ObjectId}, V.core c = some core →
      path.Nodup → (∀ x ∈ path, x < w.cells.size ∧ V.Above c x) → w.cells.size + 1 < path.length + n →
      ∃ b, M.run' env w (containsWithin (.object a) n (.object c)) = (.ok b, w) ∧
        (b = true ↔ V.Within a c) := by
  induction n with
  | zero =>
    intro c core path _ hn hp hlt
    have := View.length_le_of_nodup hn fun x hx => (hp x hx).1
    omega
  | succ n ih =>
    intro c core path hc hn hp hlt
    have hlength := View.length_le_of_nodup hn fun x hx => (hp x hx).1
    have htrue : (Value.object c).isTruthy = true := rfl
    simp only [containsWithin, htrue, Bool.not_true, Bool.false_eq_true, if_false]
    by_cases hca : c = a
    · have heq : (Value.object c).strictlyEqual (.object a) = true := by
        rw [hca]
        exact beq_self_eq_true a
      rw [if_pos heq]
      exact ⟨true, rfl, by simp [View.Within, hca]⟩
    · have hne : ¬ (Value.object c).strictlyEqual (.object a) = true := fun h => hca (eq_of_beq h)
      rw [if_neg hne, M.run'_bind_ok (run'_parent (hs.record c core hc))]
      cases hpar : V.parent c with
      | none =>
        refine ⟨false, ?_, by rw [View.within_step_iff]; simp [hca, hpar]⟩
        obtain ⟨n, rfl⟩ := Nat.exists_eq_succ_of_ne_zero (show n ≠ 0 by rintro rfl; omega)
        rfl
      | some p =>
        obtain ⟨pcore, hpc, _⟩ := hf.container c p hpar
        have hn' : (c :: path).Nodup :=
          List.nodup_cons.2 ⟨fun hm => hf.acyclic c (hp c hm).2, hn⟩
        have hp' : ∀ x ∈ c :: path, x < w.cells.size ∧ V.Above p x := by
          intro x hx
          rcases List.mem_cons.1 hx with rfl | hx
          · exact ⟨hs.lt hc, .single hpar⟩
          · exact ⟨(hp x hx).1, (hp x hx).2.tail hpar⟩
        obtain ⟨b, hr, hb⟩ := ih hpc hn' hp' (by rw [List.length_cons]; omega)
        refine ⟨b, hr, hb.trans ?_⟩
        rw [View.within_step_iff (c := c)]
        simp [hca, hpar]

/-- Whether a node lies in another one is found out without changing anything. -/
theorem run'_contains (hs : Shows w V) (hf : V.IsForest) (hc : V.core c = some core) :
    ∃ b, M.run' env w (contains (.object a) (.object c)) = (.ok b, w) ∧
      (b = true ↔ V.Within a c) := by
  rw [contains, M.run'_bind_ok Store.run'_depth]
  exact run'_containsWithin hs hf _ hc List.nodup_nil nofun (by simp [endless])

end Tree

/-- A node of a forest passes for a node. -/
theorem Present.run'_node_shown {env : Env} {w : World} {V : View} {e : ObjectId}
    {ecore : NodeCore} (hs : Shows w V) (he : V.core e = some ecore) :
    M.run' env w (node? (.object e)) = (.ok (some (.object e)), w) := by
  have hcell : w.cell e = .record .object (Tree.nodeProperties e ecore (V.parent e)) :=
    World.cell_of_getElem? (hs.record e ecore he)
  have hshape : (Tree.nodeProperties e ecore (V.parent e)).isNodeShaped = true := by
    rw [Properties.isNodeShaped, Tree.find_nodeType, Assoc.has, Tree.find_parentNode]
    simp [Value.ofNat, Value.number?, NodeKind.ofNumber_number]
  rw [run'_node_record hcell, hshape]
  rfl

namespace Expander

variable {x : Expander} {env : Env} {w : World} {V : View} {c e : ObjectId} {ccore ecore : NodeCore}
  {v : Value} {expression : Text}

/-- A node in which the code stands is not inserted. -/
theorem run'_insertable_within (hs : Shows w V) (hf : V.IsForest) (hc : V.core c = some ccore)
    (hv : M.run' env w (Present.node? v) = (.ok (some (.object e)), w)) (hw : V.Within e c) :
    M.run' env w (x.insertable v (.object c) expression) =
      (.error (.evaluation expression "cannot insert a node into itself"), w) := by
  obtain ⟨b, hr, hb⟩ := Tree.run'_contains (a := e) hs hf hc
  rw [hb.2 hw] at hr
  rw [insertable, M.run'_bind_ok hv]
  simp only
  rw [M.run'_bind_ok hr]
  rfl

/-- An element, a text or any other node that can have a parent is taken out of its place. -/
theorem fits_detach (he : V.Inner e) (hw : ¬ V.Within e c) :
    V.Fits c [e] (V.detach e) e where
  core := by rw [View.detach_core]
  parent := by rw [View.detach_parent, if_neg fun h => hw (.inl h)]
  ne h := hw (.inl h.symm)
  insertable := .inr (he.of_core (View.detach_core V e))
  inserted := by
    rw [View.inserted, if_neg (he.of_core (View.detach_core V e)).not_isFragment]
  outside p := by
    refine View.not_under_of_outside (fun y q _ hq => ?_) ?_ hw
    · rw [View.detach_parent] at hq
      split at hq
      · cases hq
      · exact hq
    · exact fun n hn => .inl (List.mem_singleton.1 hn)

theorem fits_fragment (hf : V.IsForest) (he : V.IsFragment e) (hw : ¬ V.Within e c) :
    V.Fits c (V.children e) V e where
  core := rfl
  parent := rfl
  ne h := hw (.inl h.symm)
  insertable := .inl he
  inserted := by rw [View.inserted, if_pos he]
  outside p := by
    refine View.not_under_of_outside (fun _ _ _ hq => hq) (fun n hn => ?_) hw
    exact .inr (.single ((hf.mem_children e n).1 hn))

/-- The children of a document go to a new fragment. -/
theorem leads_fragmentOf_document (hs : Shows w V) (hg : V.IsRegular) (hc : V.core c = some ccore)
    (he : V.core e = some .document) (hw : ¬ V.Within e c) :
    Leads env w V (fragmentOf [] [] (.object e)) fun u V' =>
      ∃ r, u = .object r ∧ V.Fits c (V.children e) V' r := by
  have hf := hg.toIsForest
  refine Leads.bind (Tree.leads_plantWithin_nil hs hg (by simp) rfl) ?_
  rintro f w1 _ hs1 hg1 ⟨hnew, rfl⟩
  have hcf : c ≠ f := by
    rintro rfl
    rw [hnew] at hc
    cases hc
  have hef : e ≠ f := by
    rintro rfl
    rw [hnew] at he
    cases he
  let V1 := V.add f .fragment []
  have hroot : V1.parent f = none := by simp [V1, View.add]
  have hch : V1.children e = V.children e := by simp [V1, View.add, hef]
  have hparent : ∀ {y q}, V1.parent y = some q → V.parent y = some q := by
    intro y q hq
    by_cases hy : y = f
    · rw [hy, hroot] at hq
      cases hq
    · simpa [V1, View.add, hy] using hq
  have hu : ¬ V1.Under (V1.children e) f := by
    refine View.not_under_root hroot fun hm => ?_
    rw [(hg1.mem_children e f).1 hm] at hroot
    cases hroot
  refine Leads.bind_of_run (a := ()) rfl ?_
  refine Leads.bind (Tree.leads_stealChildren hs1.shows hg1 ⟨.fragment, by simp [View.add], rfl⟩
    ⟨.document, by simpa [View.add, hef] using he, rfl⟩ hu) ?_
  rintro _ w2 _ hs2 hg2 rfl
  refine Leads.bind_of_run (a := ()) rfl ?_
  refine .of_does (.pure hs2.shows _) hg2 ⟨f, rfl, ?_⟩
  have hmem : ∀ {y}, y ∈ V1.children e → V.Within e y := fun hm =>
    .inr (.single ((hf.mem_children e _).1 (hch ▸ hm)))
  have hfragment : (V1.stealChildren f e).IsFragment f := by
    simp [View.IsFragment, V1, View.add]
  refine ⟨?_, ?_, hcf.symm, .inl hfragment, ?_, fun p hp => ⟨?_, ?_⟩⟩
  · simp [View.add, hcf]
  · rw [View.IsForest.stealChildren_parent, if_neg fun hm => hw (hmem hm)]
    simp [View.add, hcf]
  · rw [View.inserted, if_pos hfragment]
    simp [View.stealChildren, View.insert_children, View.takeChildren_children, View.add, hef]
  · rintro rfl
    obtain ⟨_, hpc, _⟩ := hf.container c f hp
    rw [hnew] at hpc
    cases hpc
  · refine (View.not_under_of_outside (fun y q hy hq => ?_) (fun n hn => ?_) hw hp).2
    · rw [View.IsForest.stealChildren_parent, if_neg fun hm => hy (hmem hm)] at hq
      exact hparent hq
    · exact .inr (.single ((hf.mem_children e n).1 hn))

/-- A node in which the code does not stand is made ready to take the place of the code. -/
theorem leads_insertable (hs : Shows w V) (hg : V.IsRegular) (hc : V.core c = some ccore)
    (hv : M.run' env w (Present.node? v) = (.ok (some (.object e)), w))
    (he : V.core e = some ecore) (hw : ¬ V.Within e c) :
    Leads env w V (x.insertable v (.object c) expression) fun u V' =>
      ∃ r, u = .object r ∧ V.Fits c (V.contents e) V' r := by
  have hf := hg.toIsForest
  obtain ⟨b, hr, hb⟩ := Tree.run'_contains (a := e) hs hf hc
  rw [Bool.eq_false_iff.2 fun h => hw (hb.1 h)] at hr
  refine Leads.bind_of_run hv (Leads.bind_of_run hr ?_)
  refine Leads.bind_of_run (Tree.run'_kind (hs.record e ecore he)) ?_
  have hmoved : ecore.isInner = true → V.contents e = [e] →
      Leads env w V (do Tree.remove (.object e); return Value.object e) fun u V' =>
        ∃ r, u = .object r ∧ V.Fits c (V.contents e) V' r := by
    intro hi hcontents
    refine Leads.bind (Tree.leads_remove hs hg he) ?_
    rintro _ w1 _ hs1 hg1 rfl
    rw [hcontents]
    exact .of_does (.pure hs1.shows _) hg1 ⟨e, rfl, fits_detach ⟨ecore, he, hi⟩ hw⟩
  cases ecore with
  | document =>
    have hcontents : V.contents e = V.children e := by rw [View.contents, he]
    rw [hcontents]
    exact leads_fragmentOf_document hs hg hc he hw
  | fragment =>
    have hcontents : V.contents e = V.children e := by rw [View.contents, he]
    rw [hcontents]
    exact .of_does (.pure hs _) hg ⟨e, rfl, fits_fragment hf he hw⟩
  | element | text | code | comment | doctype =>
    exact hmoved rfl (by rw [View.contents, he])

/-- The node takes the place of the code. -/
theorem leads_insertion (hs : Shows w V) (hg : V.IsRegular) (hc : V.core c = some ccore)
    (hv : M.run' env w (Present.node? v) = (.ok (some (.object e)), w))
    (he : V.core e = some ecore) (hw : ¬ V.Within e c) :
    Leads env w V (do Tree.replaceWith (.object c) (← x.insertable v (.object c) expression))
      fun _ V' => ∃ p, V.parent c = some p ∧ ∀ n ∈ V.contents e, V'.parent n = some p := by
  refine Leads.bind (leads_insertable hs hg hc hv he hw) ?_
  rintro _ w1 V1 hs1 hg1 ⟨r, rfl, hfits⟩
  have houtside : ∀ p, V1.parent c = some p → r ≠ p ∧ ¬ V1.Under (V1.inserted r) p := by
    rw [hfits.parent, hfits.inserted]
    exact hfits.outside
  refine (Tree.leads_replaceWith hs1.shows hg1 (hfits.core.trans hc) hfits.insertable
    houtside).imp ?_
  rintro _ V' ⟨rfl, hparent⟩
  obtain ⟨p, hp⟩ := Option.ne_none_iff_exists'.1 hparent
  refine ⟨p, hfits.parent.symm.trans hp, fun n hn => ?_⟩
  rw [View.replaceWith, hp]
  simp only [hfits.ne, if_false]
  rw [View.substitute, View.insert_parent, hfits.inserted, if_pos hn]

/-- The source of inline code that yields markup. -/
theorem eq_of_markupSource {source : Text} (h : markupSource? source = some expression) :
    source = unit '=' :: (Text.ofString "HTML" ++ expression) := by
  rw [markupSource?] at h
  split at h
  · rename_i u rest hp
    split at h
    · cases h
      exact Text.afterPrefix_eq_some_iff.1 hp
    · cases h
  · cases h

/-- Inline code that yields markup evaluates its expression and puts the value in its place. -/
theorem run'_expandCode {w1 : World} {scope : ScopeId} {source : Text} (hs : Shows w V)
    (hc : V.core c = some (.code (.text source))) (hm : markupSource? source = some expression)
    (hx : M.run' env w (x.evaluate scope expression) = (.ok v, w1)) :
    M.run' env w (x.expandCode (.object c) scope) =
      M.run' env w1
        (do Tree.replaceWith (.object c) (← x.insertable v (.object c) expression)) := by
  have hsource : M.run' env w (do Tree.expectText (← Tree.source (.object c))) =
      (.ok source, w) :=
    M.run'_bind_ok (Tree.run'_source (hs.record c _ hc))
  obtain rfl := eq_of_markupSource hm
  rw [expandCode, ← bind_assoc, M.run'_bind_ok hsource]
  simp only [beq_self_eq_true, if_true, hm]
  rw [M.run'_bind_ok hx]

/-- **Inserting a node of the tree.** Take inline code that yields a node. Where the code stands in
the node this is an error, and no node has moved. Otherwise the nodes are a forest afterwards; when
the insertion succeeds, the node is where the code was, or its children are if it is a fragment or a
document. -/
theorem expandCode_node {w1 : World} {scope : ScopeId} {source : Text} (hs : Shows w V)
    (hc : V.core c = some (.code (.text source))) (hm : markupSource? source = some expression)
    (hx : M.run' env w (x.evaluate scope expression) = (.ok v, w1)) (hs1 : Shows w1 V)
    (hg : V.IsRegular) (hv : M.run' env w1 (Present.node? v) = (.ok (some (.object e)), w1))
    (he : V.core e = some ecore) :
    (V.Within e c → M.run' env w (x.expandCode (.object c) scope) =
      (.error (.evaluation expression "cannot insert a node into itself"), w1)) ∧
    (¬ V.Within e c → ∃ V', Shows (M.run' env w (x.expandCode (.object c) scope)).2 V' ∧
      V'.IsForest ∧ ((M.run' env w (x.expandCode (.object c) scope)).1 = .ok () →
        ∃ p, V.parent c = some p ∧ ∀ n ∈ V.contents e, V'.parent n = some p)) := by
  rw [run'_expandCode hs hc hm hx]
  refine ⟨fun hw => ?_, fun hw => ?_⟩
  · exact M.run'_bind_error (run'_insertable_within hs1 hg.toIsForest hc hv hw)
  · have hleads : Leads env w1 V
        (do Tree.replaceWith (.object c) (← x.insertable v (.object c) expression)) _ :=
      leads_insertion hs1 hg hc hv he hw
    obtain ⟨V', hs', hg', hq⟩ := hleads
    exact ⟨V', hs'.shows, hg'.toIsForest, hq ()⟩

end Expander

end PageTemplate
