import PageTemplate.Proofs.Template.Visits
import PageTemplate.Proofs.Tree.Serialize

/-!
# PageTemplate.Proofs.Template.Inline

Inline code, and scripts with markers in them. The text of a script is the one that was read, since
nothing can be put into an element that waits for its turn. Siblings are visited from left to right,
each as it waits for its turn; whatever else has come to lie next to them is never visited. With
this an element is expanded as a whole.
-/

namespace PageTemplate

open Markup (Node HasMarker IsRawBody codeExpression scriptTag)
open Expander (markupSource? controlTags tag_of_script)

variable {x : Expander} {env : Env} {kept : ObjectId → Prop} {allowed : Text → Prop}
  {F : Frontier} {scope : ScopeId}

/-- Methods of objects that are shunned yield nothing. -/
theorem Env.Shuns.ensures_invoke (h : env.Shuns kept) {id : ObjectId} (hk : kept id)
    {P : World → Prop} {Q : Value → World → Prop} (name : Text) (arguments : List Value) :
    Ensures env P (Convert.invoke (.object id) name arguments) Q := by
  unfold Convert.invoke
  refine .bind (Q := fun _ _ => True) (.always _) fun f => ?_
  cases f with
  | function f =>
    intro w _ a w' hr
    obtain ⟨e, he⟩ := h f id arguments w hk
    rw [he] at hr
    cases hr
  | _ => exact .typeError

namespace Tree

variable {w w' : World} {l : Links}

/-- The text of a raw text. -/
theorem run'_serializeRaw {n : Nat} {p : Plot} {value : Text} (h : p.Stands w l)
    (hn : p.node = .text value true) :
    M.run' env w (serializeWithin (n + 1) (.object p.id)) = (.ok (.text value), w) := by
  cases h with
  | element => cases hn
  | @leaf _ node core id stop parent tree link record bound =>
    dsimp only at hn
    subst hn
    cases tree
    rw [serializeWithin, M.run'_bind_ok (run'_kind record)]
    simp only [NodeCore.kind]
    rw [M.run'_bind_ok (run'_rawMark record)]
    exact run'_nodeValue record (.inl ⟨_, rfl⟩)

/-- The texts of what is left of the body of a script. -/
theorem run'_serializeBody (env : Env) (n : Nat) {tag : Text} {children : List Node} {ps : List Plot}
    (hs : ∀ p ∈ ps, p.Stands w l) (hn : (ps.map (·.node)).Sublist children)
    (hb : IsRawBody tag children) :
    ∃ texts : List Text,
      M.run' env w ((ps.map (·.id)).mapM fun id => serializeWithin (n + 1) (.object id)) =
        (.ok (texts.map .text), w) ∧
      (texts.flatten = [] ∨ .text texts.flatten true ∈ children) := by
  match children, hb with
  | [], _ =>
    rw [List.map_eq_nil_iff.1 (List.sublist_nil.1 hn)]
    exact ⟨[], rfl, .inl rfl⟩
  | [.text value true], _ =>
    rcases List.sublist_singleton.1 hn with hn | hn
    · rw [List.map_eq_nil_iff.1 hn]
      exact ⟨[], rfl, .inl rfl⟩
    · obtain ⟨p, rfl, hp⟩ := List.map_eq_singleton_iff.1 hn
      refine ⟨[value], ?_, .inr (by simp)⟩
      rw [List.map_cons, List.mapM_cons,
        M.run'_bind_ok (run'_serializeRaw (hs p List.mem_cons_self) hp)]
      rfl

/-- The text in a script is the one that was read, or there is none. -/
theorem script_innerMarkup {e : Element} (hs : e.plot.Stands w l) (hb : IsRawBody e.tag e.children)
    (hshun : env.Shuns kept) (hk : ∀ id, e.plot.Covers id → kept id) {source : Value}
    (hr : M.run' env w (innerMarkup (.object e.id)) = (.ok source, w')) :
    w' = w ∧ ∃ t, source = .text t ∧ (t = [] ∨ .text t true ∈ e.children) := by
  cases hs with
  | leaf tree => cases tree
  | @element _ _ _ _ _ _ _ ps extra link record list map bound nodes inside apart below =>
    rw [innerMarkup, M.run'_bind_ok Store.run'_depth,
      M.run'_bind_ok (run'_childList record rfl)] at hr
    cases extra with
    | nil =>
      obtain ⟨texts, hrun, ht⟩ := run'_serializeBody env w.cells.size below nodes hb
      have hlist : w.cells[childrenOf e.id]? = some (listCell (ps.map (·.id))) := by
        rw [listCell, List.map_map]
        exact list
      rw [run'_textBy hlist .serialize hrun] at hr
      cases hr
      exact ⟨rfl, _, rfl, ht⟩
    | cons =>
      -- A list with properties of its own is asked for its methods.
      have hnone : M.run' env w (objectList? (.object (childrenOf e.id))) = (.ok none, w) := by
        simp [objectList?, M.run'_bind, World.cell_of_getElem? list]
      have hkept : kept (childrenOf e.id) :=
        hk _ ⟨Nat.le_add_right _ 1, Nat.lt_trans (Nat.lt_succ_self _) bound⟩
      rw [ChildList.textBy, M.run'_bind_ok hnone] at hr
      have hnever : Ensures env (fun _ => True) (Convert.invoke (.object (childrenOf e.id)) "map"
          [.function (.node .serialize)]) fun _ _ => False := hshun.ensures_invoke hkept _ _
      obtain ⟨_, _, hmap, -⟩ := M.run'_bind_eq_ok.1 hr
      exact (hnever w trivial _ _ hmap).elim

end Tree

/-- There is no marker in no text. -/
theorem Markup.not_hasMarker_nil (code : Text) : ¬ HasMarker [] code := by
  rintro ⟨before, hm⟩
  have hcut : (Marker.cut []).markers = [] := by
    rw [Marker.cut]
    rfl
  rw [hcut] at hm
  cases hm

namespace Observer

variable {v : Value}

/-! Scripts. -/

/-- An element with a certain tag is the next one to be visited. -/
def MeetsTag (kept : ObjectId → Prop) (allowed : Text → Prop) (F : Frontier) (tag : Text)
    (v : Value) (w : World) : Prop :=
  ∃ e : Element, (v = .object e.id ∧ e.tag = tag ∧ e.node.Carries allowed) ∧
    (F.plus [e.plot]).Ready kept w

theorem MeetsTag.meets {tag : Text} {w : World} (h : MeetsTag kept allowed F tag v w) :
    Meets kept allowed F v w := by
  obtain ⟨e, ⟨hv, -, hc⟩, hr⟩ := h
  exact ⟨e, hv, hc, hr⟩

/-- The markers in a script are those of a template. -/
theorem sound_scriptSource (v : Value) :
    Sound x env kept allowed (MeetsTag kept allowed F scriptTag v)
      ((tracing x).step (Tree.innerMarkup v)) fun source w =>
        (∀ t, source = .text t → ∀ code, HasMarker t code → allowed code) ∧
          Meets kept allowed F v w := by
  refine .step fun env' spared n _ hshun hspared _ => ?_
  rintro w ⟨⟨⟨tag, attributes, children, id, stop⟩, ⟨rfl, rfl, hc⟩, hr⟩, -⟩ source w' hrun -
  obtain ⟨zs, hzs, hin, hs⟩ := hr
  have hb : IsRawBody scriptTag children := hc.scripts attributes children (.self _)
  obtain ⟨rfl, t, rfl, ht⟩ := Tree.script_innerMarkup (hs.plots _ List.mem_cons_self) hb hshun
    (fun id hid => hspared id (hin.plots _ List.mem_cons_self id hid)) hrun
  refine ⟨?_, _, rfl, hc, zs, hzs, hin, hs⟩
  rintro _ ⟨⟩ code hm
  rcases ht with rfl | ht
  · exact (Markup.not_hasMarker_nil code hm).elim
  · exact hc.code _ code (.self _) (.script ht hm)

/-- An element may get new children once it is visited. -/
theorem sound_append (v body : Value) :
    Sound x env kept allowed (Meets kept allowed F v)
      ((tracing x).step (Tree.append v body)) fun _ => F.Ready kept := by
  refine .moves ?_
  rintro w ⟨e, rfl, -, hr⟩
  obtain ⟨cs, -, -, hvisit⟩ := hr.enter
  have hready : (F.visit e).Ready kept w :=
    hvisit.drop (List.sublist_append_right _ _) (List.Subset.refl _) (.refl _)
  refine ⟨F.visit e, hready, .append List.mem_cons_self body, fun _ w' h' => ?_⟩
  exact h'.drop (.refl _) (List.subset_cons_self _ _) (List.sublist_cons_self _ _)

theorem sound_expandScript (v : Value) :
    Sound x env kept allowed (MeetsTag kept allowed F scriptTag v)
      ((tracing x).expandScript v scope) fun _ => F.Ready kept := by
  have hv : Sound.Held kept (Meets kept allowed F v) := held_meets v
  unfold expandScript
  refine (sound_scriptSource v).bind fun source => ?_
  refine (Sound.expectText source).bind fun source => ?_
  have hsource := hv.frame (∀ code, HasMarker source code → allowed code)
  refine .ite ?_ (.pure fun w hw => hw.2.ready)
  refine (sound_substituteText hsource.lasts (fun w hw => hw.1) _ _).bind fun text => ?_
  refine ((Sound.held hv fun _ => .removeChildren v).of_imp fun w hw => hw.2).bind fun _ => ?_
  refine (Sound.reads hv fun _ _ _ => Tree.respects_allocNode _ _).bind fun body => ?_
  exact sound_append v _

/-! Inline code. -/

/-- Inline code of a template is the next to be visited. -/
def ReachesCode (kept : ObjectId → Prop) (allowed : Text → Prop) (F : Frontier) (v : Value)
    (w : World) : Prop :=
  ∃ (p : Plot) (source : Text), v = .object p.id ∧ p.node = .code source ∧
    p.node.Carries allowed ∧ (F.plus [p]).Ready kept w

theorem sound_source (v : Value) :
    Sound x env kept allowed (ReachesCode kept allowed F v)
      ((tracing x).step (Tree.source v)) fun source w =>
        (∀ t, source = .text t → allowed (codeExpression t)) ∧ Reaches kept F v w := by
  refine .step_of fun env => ?_
  rintro w ⟨⟨node, id, stop⟩, source, rfl, rfl, hc, hr⟩ a w' hrun
  obtain ⟨l, hl⟩ := hr.head
  cases hl with
  | leaf tree link record =>
    cases tree
    rw [Tree.run'_source record] at hrun
    cases hrun
    refine ⟨?_, _, rfl, hr⟩
    rintro _ ⟨⟩
    exact hc.code _ _ (.self _) (.inline source)

section Insertion

variable {P : World → Prop} (hP : Sound.Held kept P)

include hP

theorem sound_detach (node : Value) :
    Sound x env kept allowed P ((tracing x).detach node) fun _ => P := by
  unfold detach
  refine (Sound.reads hP fun _ _ _ => Tree.respects_kind? _).bind fun kind => ?_
  have hremove : Sound x env kept allowed P (do
      (tracing x).step (Tree.remove node)
      return node) fun _ => P :=
    (Sound.held hP fun _ => .remove node).bind fun _ => .pure fun _ hw => hw
  cases kind with
  | none => exact hremove
  | some kind =>
    cases kind with
    | document => exact Sound.held hP fun _ => .fragmentOf _ _ node
    | fragment => exact .pure fun _ hw => hw
    | _ => exact hremove

/-- What a value becomes as markup leaves alone what waits. -/
theorem sound_insertable (v place : Value) (expression : Text) :
    Sound x env kept allowed P ((tracing x).insertable x v place expression) fun _ => P := by
  unfold insertable
  refine (Sound.look hP.lasts _).bind fun node => ?_
  cases node with
  | none => exact (Sound.look hP.lasts _).bind fun _ => .pure fun _ hw => hw
  | some node =>
    refine (Sound.reads hP fun _ _ _ => Tree.respects_contains _ _).bind fun inside => ?_
    refine .ite ?_ (sound_detach hP node)
    exact .bind (Q := fun _ => P) (.step_of fun _ => .throw _) fun _ => sound_detach hP node

end Insertion

theorem sound_expandCode (v : Value) :
    Sound x env kept allowed (ReachesCode kept allowed F v)
      ((tracing x).expandCode x v scope) fun _ => F.Ready kept := by
  have hv : Sound.Held kept (Reaches kept F v) := held_reaches v
  unfold expandCode
  refine (sound_source v).bind fun source => ?_
  refine (Sound.expectText (C := fun t => allowed (codeExpression t)) source).bind fun source => ?_
  have hrun : ∀ code, codeExpression source = code → Sound x env kept allowed
      (fun w => allowed (codeExpression source) ∧ Reaches kept F v w)
      ((tracing x).evaluate scope code) fun _ => Reaches kept F v := by
    rintro code rfl
    exact Sound.evaluateAllowed hv.lasts
  cases source with
  | nil => exact (hrun _ rfl).bind fun _ => sound_dropNode v
  | cons u code =>
    dsimp only
    by_cases hu : (u == unit '=') = true
    · rw [if_pos hu]
      cases hm : markupSource? (u :: code) with
      | some expression =>
        refine (hrun expression (by simp [codeExpression, hu, hm])).bind fun value => ?_
        exact (sound_insertable hv _ _ _).bind fun inserted => sound_replaceNode v inserted
      | none =>
        refine (hrun code (by simp [codeExpression, hu, hm])).bind fun value => ?_
        refine (Sound.look hv.lasts _).bind fun shown => ?_
        refine (Sound.reads hv fun _ _ _ => Tree.respects_allocNode _ _).bind fun text => ?_
        exact sound_replaceNode v _
    · rw [if_neg hu]
      exact (hrun _ (by simp [codeExpression, hu])).bind fun _ => sound_dropNode v

end Observer

/-! Siblings. -/

namespace Observer

section Siblings

variable {siblings : Siblings (Recorded Event)} (hs : Visits x env kept allowed siblings)

include hs

theorem sound_expandTagged (v : Value) (tag : Text) (prior : Bool) :
    Sound x env kept allowed (MeetsTag kept allowed F tag v)
      ((tracing x).expandTagged x siblings v tag scope prior) fun _ => F.Ready kept := by
  have hroot : ∀ (F : Frontier) (scope : ScopeId) (v : Value), Sound x env kept allowed
      (Meets kept allowed F v) ((tracing x).expandElement siblings v scope)
      fun _ => F.Ready kept := fun _ _ v => sound_expandElement hs v
  have hplain : ∀ {action : Recorded Event Unit},
      Sound x env kept allowed (Meets kept allowed F v) action (fun _ => F.Ready kept) →
      Sound x env kept allowed (MeetsTag kept allowed F tag v) (action >>= fun _ => pure prior)
        fun _ => F.Ready kept :=
    fun h => (h.of_imp fun _ => MeetsTag.meets).bind fun _ => .pure fun _ hw => hw
  unfold expandTagged
  dsimp only
  cases hc : Assoc.find? tag controlTags with
  | none => exact hplain (hroot F scope v)
  | some control =>
    cases control with
    | condition => exact (sound_expandCondition hs v).of_imp fun _ => MeetsTag.meets
    | alternative => exact hplain (sound_expandAlternative hs v prior)
    | loop => exact (sound_expandLoop hs v).of_imp fun _ => MeetsTag.meets
    | partialTemplate => exact hplain (sound_expandPartial hroot v)
    | formData => exact hplain (sound_expandFormData v)
    | script =>
      cases tag_of_script hc
      exact (sound_expandScript v).bind fun _ => .pure fun _ hw => hw

/-- A node of a template is the next one to be visited. -/
def Next (kept : ObjectId → Prop) (allowed : Text → Prop) (F : Frontier) (v : Value) (w : World) :
    Prop :=
  ∃ p : Plot, v = .object p.id ∧ p.node.Carries allowed ∧ (F.plus [p]).Ready kept w

omit hs in
theorem sound_kind (v : Value) :
    Sound x env kept allowed (Next kept allowed F v) ((tracing x).step (Tree.kind? v))
      fun kind w => ∃ p : Plot, v = .object p.id ∧ kind = some p.node.kind ∧
        p.node.Carries allowed ∧ (F.plus [p]).Ready kept w := by
  refine .step_of fun env => ?_
  rintro w ⟨p, rfl, hc, hr⟩ kind w' hrun
  obtain ⟨l, hl⟩ := hr.head
  obtain ⟨core, q, hrecord, -, -, hkind⟩ := hl.inner
  rw [Tree.run'_kind hrecord, hkind] at hrun
  cases hrun
  exact ⟨p, rfl, rfl, hc, hr⟩

omit hs in
theorem sound_tag (v : Value) :
    Sound x env kept allowed (Meets kept allowed F v) ((tracing x).step (Tree.tag v))
      fun tag w => ∃ t, tag = .text t ∧ MeetsTag kept allowed F t v w := by
  refine .step_of fun env => ?_
  rintro w ⟨e, rfl, hc, hr⟩ tag w' hrun
  obtain ⟨l, hl⟩ := hr.head
  obtain ⟨⟨q, hrecord⟩, -⟩ := Element.cells hl
  rw [Tree.run'_tag hrecord] at hrun
  cases hrun
  exact ⟨e.tag, rfl, e, ⟨rfl, rfl, hc⟩, hr⟩

theorem sound_expandSibling (prior : Bool) (v : Value) :
    Sound x env kept allowed (Next kept allowed F v)
      ((tracing x).expandSibling x siblings scope prior v) fun _ => F.Ready kept := by
  unfold expandSibling
  refine (sound_kind v).bind fun kind => ?_
  have hskip : Sound x env kept allowed (fun w => ∃ p : Plot, v = .object p.id ∧
      kind = some p.node.kind ∧ p.node.Carries allowed ∧ (F.plus [p]).Ready kept w)
      (pure prior) fun _ => F.Ready kept := .pure fun w ⟨_, _, _, _, hr⟩ => hr.last
  cases kind with
  | none => exact hskip
  | some kind =>
    cases kind with
    | code =>
      refine .bind ((sound_expandCode v).of_imp fun w hw => ?_) fun _ => .pure fun _ hw => hw
      obtain ⟨⟨node, id, stop⟩, hv, hkind, hc, hr⟩ := hw
      cases node with
      | code source => exact ⟨_, source, hv, rfl, hc, hr⟩
      | _ => cases hkind
    | element =>
      refine .bind ((sound_tag (F := F) v).of_imp fun w hw => ?_) fun tag => ?_
      · obtain ⟨⟨node, id, stop⟩, hv, hkind, hc, hr⟩ := hw
        cases node with
        | element tag attributes children =>
          exact ⟨⟨tag, attributes, children, id, stop⟩, hv, hc, hr⟩
        | _ => cases hkind
      · cases tag with
        | text tag =>
          refine (sound_expandTagged hs v tag prior).of_imp fun w hw => ?_
          obtain ⟨_, ⟨⟩, hw⟩ := hw
          exact hw
        | _ =>
          refine .bind ((sound_expandElement hs v).of_imp fun w hw => ?_) fun _ =>
            .pure fun _ hw => hw
          obtain ⟨_, ⟨⟩, -⟩ := hw
    | _ => exact hskip

/-- Siblings from left to right: while one is visited, those behind it wait. -/
theorem sound_foldSiblings (values : List Value) (prior : Bool) :
    Sound x env kept allowed (Awaits kept allowed F values)
      (values.foldlM ((tracing x).expandSibling x siblings scope) prior)
      fun _ => F.Ready kept := by
  induction values generalizing prior with
  | nil =>
    refine .pure fun w hw => ?_
    obtain ⟨ps, hps, -, hr⟩ := hw
    rw [List.map_eq_nil_iff.1 hps.symm] at hr
    exact hr
  | cons v values ih =>
    rw [List.foldlM_cons]
    have hfirst : Sound x env kept allowed (fun w => ∃ ps : List Plot,
        (values = ps.map (fun p => .object p.id) ∧ ∀ p ∈ ps, p.node.Carries allowed) ∧
          Next kept allowed (F.plus ps) v w)
        ((tracing x).expandSibling x siblings scope prior v)
        fun _ w => ∃ ps : List Plot,
          (values = ps.map (fun p => .object p.id) ∧ ∀ p ∈ ps, p.node.Carries allowed) ∧
            (F.plus ps).Ready kept w :=
      .exists_ fun ps => (sound_expandSibling hs prior v).frame _
    refine Sound.bind (Q := fun _ => Awaits kept allowed F values)
      ((hfirst.of_imp fun w hw => ?_).imp fun _ w hw => ?_) ih
    · obtain ⟨ps, hps, hc, hr⟩ := hw
      obtain ⟨p, ps, rfl, rfl, rfl⟩ := List.map_eq_cons_iff.1 hps.symm
      exact ⟨ps, ⟨rfl, fun q hq => hc q (List.mem_cons_of_mem p hq)⟩,
        p, rfl, hc p List.mem_cons_self, hr⟩
    · obtain ⟨ps, ⟨hps, hc⟩, hr⟩ := hw
      exact ⟨ps, hps, hc, hr⟩

end Siblings

/-- Siblings at any depth, by induction on how deep expansion still may go. -/
theorem visits_expandSiblings (n : Nat) :
    Visits x env kept allowed ((tracing x).expandSiblings x n) := by
  induction n with
  | zero => exact fun _ _ _ => .step_of fun _ => .throw _
  | succ n ih => exact fun F scope values => .discard (sound_foldSiblings ih values false)

theorem sound_expand (v : Value) :
    Sound x env kept allowed (Meets kept allowed F v) ((tracing x).expand x v scope)
      fun _ => F.Ready kept :=
  sound_expandElement (visits_expandSiblings x.maxDepth) v

end Observer

end PageTemplate
