import PageTemplate.Proofs.Tree.View
import PageTemplate.Template.Expand

/-!
# PageTemplate.Proofs.Template.Depth

How deep expansion may go. The bound decides whether expansion comes to an end and nothing else: what
it comes to under one bound, it comes to under every higher one. So what has come in the place of a
custom tag is expanded like markup that stands there in the template, as long as it is no single
element with a meaning of its own.
-/

namespace PageTemplate

namespace M

variable {α β : Type}

/-- Whether an action succeeds wherever another one does, with the same result. -/
def Covers (y x : M α) : Prop :=
  ∀ env w a w', run' env w x = (.ok a, w') → run' env w y = (.ok a, w')

namespace Covers

theorem refl (x : M α) : Covers x x := fun _ _ _ _ h => h

theorem trans {x y z : M α} (h : Covers z y) (h' : Covers y x) : Covers z x :=
  fun env w a w' hx => h env w a w' (h' env w a w' hx)

theorem bind {x y : M α} {f g : α → M β} (h : Covers y x) (hf : ∀ a, Covers (g a) (f a)) :
    Covers (y >>= g) (x >>= f) := by
  intro env w b w' hr
  obtain ⟨a, w1, hx, hb⟩ := run'_bind_eq_ok.1 hr
  rw [run'_bind_ok (h env w a w1 hx)]
  exact hf a env w1 b w' hb

/-- After the same action. -/
theorem after (x : M α) {f g : α → M β} (hf : ∀ a, Covers (g a) (f a)) :
    Covers (x >>= g) (x >>= f) :=
  .bind (.refl x) hf

/-- Before the same action. -/
theorem before {x y : M α} (h : Covers y x) (f : α → M β) : Covers (y >>= f) (x >>= f) :=
  .bind h fun a => .refl (f a)

theorem forM {f g : α → M Unit} (h : ∀ a, Covers (g a) (f a)) (as : List α) :
    Covers (as.forM g) (as.forM f) := by
  induction as with
  | nil => exact .refl _
  | cons a as ih => exact .bind (h a) fun _ => ih

theorem foldlM {f g : β → α → M β} (h : ∀ b a, Covers (g b a) (f b a)) (as : List α) (b : β) :
    Covers (as.foldlM g b) (as.foldlM f b) := by
  induction as generalizing b with
  | nil => exact .refl _
  | cons a as ih => exact .bind (h b a) ih

end Covers

end M

namespace Expander

open M

variable {x : Expander} {siblings deeper : Siblings} {scope : ScopeId}

section Steps

variable (h : ∀ scope nodes, Covers (deeper scope nodes) (siblings scope nodes))

include h

theorem covers_expandElement (e : Value) (scope : ScopeId) :
    Covers (x.expandElement deeper e scope) (x.expandElement siblings e scope) :=
  .after _ fun _ => .after _ fun nodes => .before (h scope nodes) _

theorem covers_keepChildren (e : Value) :
    Covers (keepChildren deeper e scope) (keepChildren siblings e scope) :=
  .after _ fun nodes => .before (h scope nodes) _

theorem covers_expandCondition (e : Value) :
    Covers (x.expandCondition deeper e scope) (x.expandCondition siblings e scope) := by
  refine .after _ fun condition => .after _ fun condition => .after _ fun v => .after _ fun holds => ?_
  cases holds with
  | true => exact .before (covers_keepChildren h e) _
  | false => exact .refl _

theorem covers_expandAlternative (e : Value) (prior : Bool) :
    Covers (expandAlternative deeper e scope prior) (expandAlternative siblings e scope prior) := by
  cases prior with
  | true => exact .refl _
  | false => exact covers_keepChildren h e

theorem covers_expandEntry (loop fragment itemName keyName : Value)
    (entry : Option (Value × Value)) :
    Covers (expandEntry deeper loop fragment scope itemName keyName entry)
      (expandEntry siblings loop fragment scope itemName keyName entry) := by
  refine .after _ fun (key, item) => .after _ fun inner => .after _ fun _ => ?_
  have hcopy : Covers
      (do let copy := Value.object (← Tree.clone loop)
          deeper inner (← Tree.children copy)
          Tree.stealChildren fragment copy)
      (do let copy := Value.object (← Tree.clone loop)
          siblings inner (← Tree.children copy)
          Tree.stealChildren fragment copy) :=
    .after _ fun copy => .after _ fun nodes => .before (h inner nodes) _
  dsimp only
  split
  · exact .after _ fun _ => hcopy
  · exact hcopy

theorem covers_expandLoop (e : Value) :
    Covers (x.expandLoop deeper e scope) (x.expandLoop siblings e scope) := by
  refine .after _ fun source => .after _ fun itemName => .after _ fun keyName =>
    .after _ fun source => .after _ fun v => .after _ fun entries => ?_
  split
  · exact .refl _
  · exact .after _ fun fragment => .before (.forM (fun entry => covers_expandEntry h e _ _ _ entry) _) _

theorem covers_expandPartial (e : Value) :
    Covers (x.expandPartial (x.expandElement deeper) e scope)
      (x.expandPartial (x.expandElement siblings) e scope) :=
  .after _ fun _ => .after _ fun _ => .after _ fun _ => .after _ fun _ => .after _ fun root =>
    .after _ fun inner => .after _ fun _ => .after _ fun _ =>
      .before (covers_expandElement h root inner) _

theorem covers_expandInserted (inserted : List Value) :
    Covers (expandInserted deeper (x.expandElement deeper) scope inserted)
      (expandInserted siblings (x.expandElement siblings) scope inserted) := by
  match inserted with
  | [] => exact h scope []
  | [v] =>
    refine .after _ fun isElement => ?_
    cases isElement with
    | true => exact covers_expandElement h v scope
    | false => exact h scope [v]
  | v :: v' :: rest => exact h scope (v :: v' :: rest)

theorem covers_expandCustomTag (customTag : CustomTag) (e : Value) :
    Covers (x.expandCustomTag deeper (x.expandElement deeper) customTag e scope)
      (x.expandCustomTag siblings (x.expandElement siblings) customTag e scope) := by
  refine .after _ fun tag => .after _ fun tag => .after _ fun markup => .after _ fun content =>
    .after _ fun attributes => .after _ fun replacement => ?_
  cases replacement with
  | none => exact .refl _
  | some replacement =>
    refine .after _ fun kind => ?_
    have hinserted (inserted : List Value) :
        Covers
          (do Tree.replaceWith e (.object replacement.node)
              x.logStep ["[TemplateExpander] translated:", tag, "->", Text.ofNat inserted.length,
                "nodes"]
              if replacement.scanned then
                inserted.forM (x.expandText scope ("<" ++ tag ++ ">"))
                expandInserted deeper (x.expandElement deeper) scope inserted)
          (do Tree.replaceWith e (.object replacement.node)
              x.logStep ["[TemplateExpander] translated:", tag, "->", Text.ofNat inserted.length,
                "nodes"]
              if replacement.scanned then
                inserted.forM (x.expandText scope ("<" ++ tag ++ ">"))
                expandInserted siblings (x.expandElement siblings) scope inserted) := by
      refine .after _ fun _ => .after _ fun _ => ?_
      split
      · exact .after _ fun _ => covers_expandInserted h inserted
      · exact .refl _
    dsimp only
    split
    · exact .after _ hinserted
    · exact hinserted _

theorem covers_expandTagged (e : Value) (tag : Text) (prior : Bool) :
    Covers (x.expandTagged deeper e tag scope prior) (x.expandTagged siblings e tag scope prior) := by
  unfold expandTagged
  dsimp only
  split
  · exact covers_expandCondition h e
  · exact .before (covers_expandAlternative h e prior) _
  · exact covers_expandLoop h e
  · exact .before (covers_expandPartial h e) _
  · exact .refl _
  · exact .refl _
  · split
    · exact .before (covers_expandCustomTag h _ e) _
    · exact .before (covers_expandElement h e scope) _

theorem covers_expandSibling (prior : Bool) (v : Value) :
    Covers (x.expandSibling deeper scope prior v) (x.expandSibling siblings scope prior v) := by
  refine .after _ fun kind => ?_
  split
  · exact .refl _
  · refine .after _ fun tag => ?_
    split
    · exact covers_expandTagged h v _ prior
    · exact .before (covers_expandElement h v scope) _
  · exact .refl _

end Steps

/-- Siblings may be expanded one level deeper. -/
theorem covers_succ (n : Nat) (scope : ScopeId) (nodes : List Value) :
    Covers (x.expandSiblings (n + 1) scope nodes) (x.expandSiblings n scope nodes) := by
  induction n generalizing scope nodes with
  | zero =>
    intro env w a w' h
    cases h
  | succ n ih => exact .before (.foldlM (fun prior v => covers_expandSibling ih prior v) nodes false) _

/-- **The bound only bounds.** What siblings come to under one bound they come to under every higher
one. -/
theorem covers_of_le {n m : Nat} (h : n ≤ m) (scope : ScopeId) (nodes : List Value) :
    Covers (x.expandSiblings m scope nodes) (x.expandSiblings n scope nodes) := by
  induction h with
  | refl => exact .refl _
  | step _ ih => exact (covers_succ _ scope nodes).trans ih

/-! What has come in the place of a custom tag. -/

/-- Whether a tag means nothing but an element of a page. -/
def IsOrdinary (x : Expander) (tag : Text) : Prop :=
  Assoc.find? tag controlTags = none ∧ Assoc.find? tag x.customTags = none

variable {env : Env} {w w' : World} {id : ObjectId} {parent : Option ObjectId} {tag : Value}

/-- A single element is not asked for its tag. -/
theorem run'_expandInserted_element
    (h : w.cells[id]? = some (Tree.nodeCell id (.element tag) parent)) :
    M.run' env w (expandInserted siblings (x.expandElement siblings) scope [.object id]) =
      M.run' env w (x.expandElement siblings (.object id) scope) := by
  rw [expandInserted, M.run'_bind_ok (Tree.run'_isElement h)]
  rfl

/-- An element that means nothing else is expanded in its place. -/
theorem run'_expandSibling_element
    (h : w.cells[id]? = some (Tree.nodeCell id (.element tag) parent))
    (hplain : ∀ t, tag = .text t → x.IsOrdinary t) (prior : Bool) :
    M.run' env w (x.expandSibling siblings scope prior (.object id)) =
      M.run' env w (do x.expandElement siblings (.object id) scope; return prior) := by
  rw [expandSibling, M.run'_bind_ok (Tree.run'_kind h)]
  simp only [NodeCore.kind]
  rw [M.run'_bind_ok (Tree.run'_tag h)]
  cases tag with
  | text t =>
    obtain ⟨hcontrol, hcustom⟩ := hplain t rfl
    dsimp only
    rw [expandTagged, hcontrol, hcustom]
  | _ => rfl

/-- **What a custom tag stands for is expanded like markup in its place.** A custom tag that is met
at some depth is expanded by what expands one level less. When this succeeds with the nodes that
have come in its place, siblings of the tag are expanded likewise; only a single element with a
meaning of its own is not recognized. -/
theorem expandSiblings_of_expandInserted {n : Nat} {ids : List ObjectId}
    (hnodes : ∀ id ∈ ids, ∃ core parent, w.cells[id]? = some (Tree.nodeCell id core parent))
    (hsingle : ∀ id t parent, ids = [id] →
      w.cells[id]? = some (Tree.nodeCell id (.element (.text t)) parent) → x.IsOrdinary t)
    (h : M.run' env w (expandInserted (x.expandSiblings n) (x.expandElement (x.expandSiblings n))
      scope (ids.map .object)) = (.ok (), w')) :
    M.run' env w (x.expandSiblings (n + 1) scope (ids.map .object)) = (.ok (), w') := by
  match ids with
  | [] => exact covers_succ n scope [] env w () w' h
  | id :: id' :: rest => exact covers_succ n scope _ env w () w' h
  | [id] =>
    obtain ⟨core, parent, hrecord⟩ := hnodes id List.mem_cons_self
    by_cases helement : core.kind = .element
    · obtain ⟨tag, rfl⟩ : ∃ tag, core = .element tag := by
        cases core with
        | element tag => exact ⟨tag, rfl⟩
        | _ => cases helement
      have hplain : ∀ t, tag = .text t → x.IsOrdinary t := by
        rintro t rfl
        exact hsingle id t parent rfl hrecord
      rw [List.map_singleton, run'_expandInserted_element hrecord] at h
      have hturn : M.run' env w (x.expandSibling (x.expandSiblings n) scope false (.object id)) =
          (.ok false, w') := by
        rw [run'_expandSibling_element hrecord hplain]
        exact M.run'_bind_ok h
      rw [expandSiblings, List.map_singleton, List.foldlM_cons, bind_assoc, M.run'_bind_ok hturn]
      rfl
    · have hkind : (core.kind == NodeKind.element) = false := by simpa using helement
      rw [List.map_singleton, expandInserted, M.run'_bind_ok (Tree.run'_isElement hrecord), hkind]
        at h
      exact covers_succ n scope _ env w () w' h

end Expander

end PageTemplate
