import PageTemplate.Proofs.Template.Settled

/-!
# PageTemplate.Proofs.Template.Remarks

Remarks around partials. Whether partials are marked makes no difference to what a rendering asks
for, to the order in which it asks, or to whether it gets anywhere; what it yields differs in
comments only. So what a run leaves that marks its partials is, without the comments, the rendering
that marks none, with the answers of this run.

An expression that an element is finished with is left out here, since it gets the element, with
the remarks in it.
-/

namespace PageTemplate

namespace NodeTree

def isComment : NodeTree → Bool
  | .leaf (.comment _) => true
  | _ => false

mutual

/-- A tree without the comments in it. -/
def withoutComments : NodeTree → NodeTree
  | .element tag attributes children => .element tag attributes (dropComments children)
  | .leaf core => .leaf core

/-- Trees without the comments among them and in them. -/
def dropComments : List NodeTree → List NodeTree
  | [] => []
  | t :: ts => if t.isComment then dropComments ts else t.withoutComments :: dropComments ts

end

theorem dropComments_append (ts us : List NodeTree) :
    dropComments (ts ++ us) = dropComments ts ++ dropComments us := by
  induction ts with
  | nil => rfl
  | cons t ts ih =>
    rw [List.cons_append, dropComments, dropComments, ih]
    split <;> rfl

/-- Whether two trees differ in the comments inside them only. -/
def SameText (t u : NodeTree) : Prop :=
  t.isComment = u.isComment ∧ t.withoutComments = u.withoutComments

end NodeTree

open NodeTree (SameText dropComments)

/-- Whether two lists of trees differ in comments only. -/
def SameTexts (ts us : List NodeTree) : Prop := dropComments ts = dropComments us

theorem SameTexts.append {ts ts' us us' : List NodeTree} (h : SameTexts ts ts')
    (h' : SameTexts us us') : SameTexts (ts ++ us) (ts' ++ us') := by
  rw [SameTexts, NodeTree.dropComments_append, NodeTree.dropComments_append]
  exact congrArg₂ _ h h'

theorem NodeTree.SameText.singleton {t u : NodeTree} (h : SameText t u) : SameTexts [t] [u] := by
  simp only [SameTexts, dropComments, h.1, h.2]

namespace Script

variable {β γ β' γ' : Type} {R : β → γ → Prop} {Q : β' → γ' → Prop}

/-- Scripts that ask the same in the same order, and fail or yield related results, whatever is
answered. -/
inductive Alike (R : β → γ → Prop) : Script β → Script γ → Prop where
  | done {b : β} {c : γ} (h : R b c) : Alike R (.done b) (.done c)
  | ask {q : Query} {next : q.Answer → Script β} {next' : q.Answer → Script γ}
    (h : ∀ a, Alike R (next a) (next' a)) : Alike R (.ask q next) (.ask q next')
  | fail : Alike R .fail .fail

theorem Yields.alike {s : Script β} {P : β → Prop} (h : s.Yields P) :
    Alike (fun b c => b = c ∧ P b) s s := by
  induction s with
  | done b => exact .done ⟨rfl, h⟩
  | ask q next ih => exact .ask fun a => ih a (h a)
  | fail => exact .fail

theorem Alike.bind {s : Script β} {s' : Script γ} {f : β → Script β'} {g : γ → Script γ'}
    (h : Alike R s s') (hf : ∀ b c, R b c → Alike Q (f b) (g c)) : Alike Q (s >>= f) (s' >>= g) := by
  induction h with
  | done h => exact hf _ _ h
  | ask _ ih => exact .ask ih
  | fail => exact .fail

/-- What follows the same script. -/
theorem alike_bind {s : Script β} {f : β → Script β'} {g : β → Script γ'}
    (hf : ∀ b, Alike Q (f b) (g b)) : Alike Q (s >>= f) (s >>= g) := by
  refine (yields_true s).alike.bind ?_
  rintro b _ ⟨rfl, _⟩
  exact hf b

theorem alike_refl {R : β → β → Prop} (hR : ∀ b, R b b) (s : Script β) : Alike R s s := by
  rw [← bind_pure s]
  exact alike_bind fun b => .done (hR b)

/-- A run that performs a script performs a script like it. -/
theorem Performs.alike {x : Expander} {env : Env} {w w' : World} {V V' : View} {s : Script β}
    {s' : Script γ} {b : β} (h : s.Performs x env w V w' V' b) (ha : Alike R s s') :
    ∃ c, s'.Performs x env w V w' V' c ∧ R b c := by
  induction ha generalizing w V with
  | done hr =>
    obtain ⟨rfl, ht⟩ := h
    exact ⟨_, ⟨rfl, ht⟩, hr⟩
  | ask _ ih =>
    obtain ⟨w1, V1, ht, hg, action, hq, a, w2, hrun, hs, hp⟩ := h
    obtain ⟨c, hc, hr⟩ := ih a hp
    exact ⟨c, ⟨w1, V1, ht, hg, action, hq, a, w2, hrun, hs, hc⟩, hr⟩
  | fail => exact h.elim

end Script

namespace Markup

mutual

/-- Whether an element in a node is finished with an expression. -/
def Node.isFinished : Node → Bool
  | .element _ attributes children =>
    Assoc.has Expander.onrenderName attributes || anyFinished children
  | .text .. | .code _ | .comment _ | .doctype _ => false

/-- Whether an element in one of some nodes is finished with an expression. -/
def anyFinished : List Node → Bool
  | [] => false
  | n :: ns => n.isFinished || anyFinished ns

end

theorem isFinished_element {tag : Text} {attributes : Attributes} {children : List Node} :
    (Node.element tag attributes children).isFinished = false ↔
      Assoc.find? Expander.onrenderName attributes = none ∧ anyFinished children = false := by
  simp [Node.isFinished, Assoc.has]

end Markup

namespace Expander

open Markup (Node anyFinished)

/-- An expander that marks partials, or does not. -/
def marking (x : Expander) (debug : Bool) : Expander := { x with debug := debug }

/-- Whether no template that can be loaded has an element that is finished with an expression. -/
def LoadsUnfinished (x : Expander) : Prop :=
  ∀ name markup nodes, x.loader name = .ok markup →
    Markup.parse (x.readOptions true) markup = .ok nodes → anyFinished nodes = false

/-- Whether two renderers differ in comments only. -/
def Renderer.Alike (renderer renderer' : Renderer) : Prop :=
  ∀ scope nodes, anyFinished nodes = false →
    Script.Alike SameTexts (renderer scope nodes) (renderer' scope nodes)

variable {x : Expander} {debug : Bool} {scope : ScopeId} {renderer renderer' : Renderer} {tag : Text}
  {attributes : Markup.Attributes} {children : List Node}

/-- Replacing the markers in attributes changes no name. -/
theorem yields_renderAttributes (h : Assoc.find? onrenderName attributes = none) :
    (renderAttributes scope attributes).Yields fun as => Assoc.find? onrenderName as = none := by
  induction attributes with
  | nil => exact rfl
  | cons a attributes ih =>
    obtain ⟨name, value⟩ := a
    rw [Assoc.find?] at h
    split at h
    · cases h
    · rename_i hname
      refine Script.yields_bind fun value => (ih h).bind fun as has => ?_
      change Assoc.find? onrenderName ((name, value) :: as) = none
      rwa [Assoc.find?, if_neg hname]

section Elements

variable (hr : renderer.Alike renderer') (hc : anyFinished children = false)

include hr hc

theorem alike_renderElement (ha : Assoc.find? onrenderName attributes = none) :
    Script.Alike SameText (renderElement renderer tag attributes children scope)
      (renderElement renderer' tag attributes children scope) := by
  refine (yields_renderAttributes ha).alike.bind ?_
  rintro as _ ⟨rfl, has⟩
  refine (hr scope children hc).bind fun ts us h => ?_
  rw [renderFinish, renderFinish, has]
  exact .done ⟨rfl, congrArg (NodeTree.element _ _) h⟩

theorem alike_renderCondition :
    Script.Alike (fun r r' => r.1 = r'.1 ∧ SameTexts r.2 r'.2)
      (renderCondition renderer attributes children scope)
      (renderCondition renderer' attributes children scope) := by
  refine Script.alike_bind fun condition => Script.alike_bind fun v => ?_
  refine Script.alike_bind fun holds => ?_
  cases holds with
  | true => exact (hr scope children hc).bind fun _ _ h => .done ⟨rfl, h⟩
  | false => exact .done ⟨rfl, rfl⟩

theorem alike_renderAlternative (prior : Bool) :
    Script.Alike SameTexts (renderAlternative renderer children scope prior)
      (renderAlternative renderer' children scope prior) := by
  cases prior with
  | true => exact .done rfl
  | false => exact hr scope children hc

theorem alike_renderEntry (itemName : Text) (keyName : Option Text)
    (entry : Option (Value × Value)) :
    Script.Alike SameTexts (renderEntry renderer children scope itemName keyName entry)
      (renderEntry renderer' children scope itemName keyName entry) := by
  cases entry with
  | none => exact .fail
  | some entry =>
    refine Script.alike_bind fun inner => Script.alike_bind fun _ => ?_
    match keyName with
    | none | some [] => exact hr inner children hc
    | some (u :: name) => exact Script.alike_bind fun _ => hr inner children hc

theorem alike_renderEntries (itemName : Text) (keyName : Option Text)
    (entries : List (Option (Value × Value))) :
    Script.Alike SameTexts (renderEntries renderer children scope itemName keyName entries)
      (renderEntries renderer' children scope itemName keyName entries) := by
  induction entries with
  | nil => exact .done rfl
  | cons entry entries ih =>
    refine (alike_renderEntry hr hc itemName keyName entry).bind fun _ _ h => ?_
    exact ih.bind fun _ _ h' => .done (h.append h')

theorem alike_renderLoop :
    Script.Alike (fun r r' => r.1 = r'.1 ∧ SameTexts r.2 r'.2)
      (renderLoop renderer attributes children scope)
      (renderLoop renderer' attributes children scope) := by
  refine Script.alike_bind fun source => Script.alike_bind fun itemName => ?_
  refine Script.alike_bind fun v => Script.alike_bind fun entries => ?_
  cases entries with
  | nil => exact .done ⟨rfl, rfl⟩
  | cons entry entries =>
    refine (alike_renderEntries hr hc itemName _ (entry :: entries)).bind fun _ _ h => ?_
    exact Script.alike_bind fun _ => .done ⟨rfl, h⟩

end Elements

/-- Remarks are comments. -/
theorem dropComments_marked (file : Text) (ts : List NodeTree) :
    dropComments (x.marked file ts) = dropComments ts := by
  rw [marked]
  split
  · change dropComments (ts ++ [remark ("end " ++ file)]) = dropComments ts
    rw [NodeTree.dropComments_append]
    exact List.append_nil _
  · rfl

/-- The markup of a partial does not depend on whether partials are marked. -/
theorem yields_unfinished (hl : x.LoadsUnfinished) (file : Text) :
    (x.partialNodes file).Yields fun nodes => anyFinished nodes = false := by
  rw [partialNodes]
  cases hload : x.loader file with
  | error e => trivial
  | ok markup =>
    cases hparse : Markup.parse (x.readOptions true) markup with
    | error e => simp only [hparse]; trivial
    | ok nodes =>
      simp only [hparse]
      exact hl file markup nodes hload hparse

theorem alike_renderPartial (hl : x.LoadsUnfinished) (hr : renderer.Alike renderer') :
    Script.Alike SameTexts (x.renderPartial renderer attributes scope)
      ((x.marking debug).renderPartial renderer' attributes scope) := by
  refine Script.alike_bind fun file => ?_
  refine (yields_unfinished hl file).alike.bind ?_
  rintro nodes _ ⟨rfl, hn⟩
  refine Script.alike_bind fun inner => Script.alike_bind fun _ => ?_
  refine (hr inner nodes hn).bind fun ts us h => Script.alike_bind fun _ => .done ?_
  rw [SameTexts, dropComments_marked, dropComments_marked]
  exact h

theorem alike_renderTagged (hl : x.LoadsUnfinished) (hr : renderer.Alike renderer')
    (hn : (Node.element tag attributes children).isFinished = false) (prior : Bool) :
    Script.Alike (fun r r' => r.1 = r'.1 ∧ SameTexts r.2 r'.2)
      (x.renderTagged renderer tag attributes children scope prior)
      ((x.marking debug).renderTagged renderer' tag attributes children scope prior) := by
  obtain ⟨ha, hc⟩ := Markup.isFinished_element.1 hn
  rw [renderTagged, renderTagged]
  cases Assoc.find? tag controlTags with
  | none =>
    refine (alike_renderElement hr hc ha).bind ?_
    exact fun _ _ h => .done ⟨rfl, NodeTree.SameText.singleton h⟩
  | some control =>
    cases control with
    | condition => exact alike_renderCondition hr hc
    | alternative =>
      exact (alike_renderAlternative hr hc prior).bind fun _ _ h => .done ⟨rfl, h⟩
    | loop => exact alike_renderLoop hr hc
    | partialTemplate => exact (alike_renderPartial hl hr).bind fun _ _ h => .done ⟨rfl, h⟩
    | formData | script => exact Script.alike_refl (fun _ => ⟨rfl, rfl⟩) _

theorem alike_renderSibling (hl : x.LoadsUnfinished) (hr : renderer.Alike renderer') (prior : Bool)
    {n : Node} (hn : n.isFinished = false) :
    Script.Alike (fun r r' => r.1 = r'.1 ∧ SameTexts r.2 r'.2)
      (x.renderSibling renderer scope prior n)
      ((x.marking debug).renderSibling renderer' scope prior n) := by
  cases n with
  | element tag attributes children => exact alike_renderTagged hl hr hn prior
  | _ => exact Script.alike_refl (fun _ => ⟨rfl, rfl⟩) _

theorem alike_renderEach (hl : x.LoadsUnfinished) (hr : renderer.Alike renderer')
    {nodes : List Node} (hn : anyFinished nodes = false) (prior : Bool) :
    Script.Alike SameTexts (x.renderEach renderer scope prior nodes)
      ((x.marking debug).renderEach renderer' scope prior nodes) := by
  induction nodes generalizing prior with
  | nil => exact .done rfl
  | cons n nodes ih =>
    obtain ⟨hn, hns⟩ := Bool.or_eq_false_iff.1 hn
    refine (alike_renderSibling hl hr prior hn).bind ?_
    rintro ⟨outcome, ts⟩ ⟨_, us⟩ ⟨rfl, h⟩
    exact (ih hns outcome).bind fun _ _ h' => .done (h.append h')

theorem alike_renderSiblings (hl : x.LoadsUnfinished) (n : Nat) :
    (x.renderSiblings n).Alike ((x.marking debug).renderSiblings n) := by
  induction n with
  | zero => exact fun _ _ _ => .fail
  | succ n ih => exact fun _ _ hn => alike_renderEach hl ih hn false

/-- **Remarks are all that marking adds.** Renderings of an element with and without remarks ask for
the same in the same order, and with the same answers both fail, or both yield an element, and the
two differ in comments only. -/
theorem render_marking (hl : x.LoadsUnfinished)
    (hn : (Node.element tag attributes children).isFinished = false) (debug : Bool) :
    Script.Alike SameText (x.render tag attributes children scope)
      ((x.marking debug).render tag attributes children scope) := by
  obtain ⟨ha, hc⟩ := Markup.isFinished_element.1 hn
  exact alike_renderElement (alike_renderSiblings hl x.maxDepth) hc ha

/-- **Expansion with remarks.** What a run leaves of an element, in which no expression and no
method of a value changes a node, is apart from comments the element as it is rendered without
remarks, with the answers of the run. -/
theorem expand_marking {env : Env} {w w' : World} {V : View} {options : Markup.ReadOptions}
    {root : ObjectId} (hx : x.customTags = []) (hp : x.LoadsPlain) (hl : x.LoadsUnfinished)
    (hn : Markup.IsProduced options (.element tag attributes children))
    (hplain : (Node.element tag attributes children).insertsMarkup = false)
    (hfin : (Node.element tag attributes children).isFinished = false)
    (hs : Shows w V) (hg : V.IsRegular)
    (h : V.Represents root (Node.element tag attributes children).tree)
    (hk : (x.render tag attributes children scope).Keeps x env w V)
    (hr : M.run' env w (x.expand (.object root) scope) = (.ok (), w')) :
    ∃ t u V', V'.Represents root t ∧ SameText t u ∧
      ((x.marking false).render tag attributes children scope).Performs x env w V w' V' u := by
  have hd : Simulates x env w V (x.expand (.object root) scope)
      (x.render tag attributes children scope) fun _ t V' =>
        V.Rebuilt root V' ∧ V'.Represents root t :=
    simulates_expandElement (refines_siblings hx hp x.maxDepth) ⟨hn.isTidy, hplain⟩ h
  obtain ⟨t, V', hperf, _, _, hrep⟩ := hd hs hg hk () w' hr
  obtain ⟨u, hu, hsame⟩ := hperf.alike (render_marking hl hfin false)
  exact ⟨t, u, V', hrep, hsame, hu⟩

end Expander

end PageTemplate
