import PageTemplate.Proofs.Template.Source
import PageTemplate.Proofs.Template.Erasure
import PageTemplate.Proofs.Ensures
import PageTemplate.Proofs.Tree.View

/-!
# PageTemplate.Proofs.Template.Tracing

The trace of an expansion: what was evaluated and loaded, and the store before and after every step.
From a trace it can be told which objects belong to templates and whether anything but the
expansion itself changed one of them.

What is proved about expansions goes from step to step: a step that was fair leads from a store with
one property to a store with another one, and evaluates nothing but code that is allowed.
-/

namespace PageTemplate

open Recorded (run')

/-- A step of an expansion, with the store before it and after it. Of a step that is not told apart
it says besides whether the functions that it called spared some objects. -/
inductive Event where
  | evaluated (source : Text) (before after : World)
  | looked (before after : World)
  | made (before after : World)
  | stepped (before after : World) (spared : (ObjectId → Prop) → Prop)
  | loaded (markup : Text)

namespace Event

/-- Whether an evaluation, a look at a value, or functions called besides left some objects as they
were. -/
def Spares (kept : ObjectId → Prop) : Event → Prop
  | evaluated _ before after | looked before after => before.Keeps kept after
  | stepped _ _ spared => spared kept
  | made .. | loaded _ => True

/-- The objects that a step adds to those of the templates: nodes that are made for a template, and
the fragments in which nodes are moved. -/
def Brings : Event → ObjectId → Prop
  | made before after, id => before.cells.size ≤ id ∧ id < after.cells.size
  | stepped before after _, id =>
    before.cells.size ≤ id ∧ ∃ parent, after.cells[id]? = some (Tree.nodeCell id .fragment parent)
  | evaluated _ _ _, _ | looked _ _, _ | loaded _, _ => False

/-- What was evaluated. -/
def source? : Event → Option Text
  | evaluated source _ _ => some source
  | _ => none

/-- Whether what was evaluated is some code that is allowed. -/
def Allowed (allowed : Text → Prop) (e : Event) : Prop :=
  ∀ source, e.source? = some source → allowed source

/-- The template that was loaded. -/
def markup? : Event → Option Text
  | loaded markup => some markup
  | _ => none

/-- An action as a step. The functions that it called spared some objects if it goes the same way
when calls that do not spare them fail; what it has made so far is to be spared as well. -/
def ofStep (env : Env) {α : Type} (action : M α) (before after : World) : Event :=
  .stepped before after fun kept =>
    M.run' (env.sparing fun id => kept id ∨ before.cells.size ≤ id) before action =
      M.run' env before action

/-- Whether a step that is not told apart is the step of some action. -/
def IsTraced (env : Env) : Event → Prop
  | stepped before after spared =>
    ∃ (α : Type) (action : M α), stepped before after spared = ofStep env action before after
  | evaluated .. | looked .. | made .. | loaded _ => True

end Event

/-- Traces an expansion. -/
def Observer.tracing (x : Expander) : Observer (Recorded Event) where
  step action := fun env =>
    Recorded.lift (fun before _ after => [.ofStep env action before after]) action env
  look := Recorded.lift fun before _ after => [.looked before after]
  making := Recorded.lift fun before _ after => [.made before after]
  evaluate scope source :=
    Recorded.lift (fun before _ after => [.evaluated source before after]) (x.evaluate scope source)
  loaded markup := Recorded.lift (fun _ _ _ => [.loaded markup]) (pure ())
  leave _ := pure ()

theorem Observer.faithful_tracing (x : Expander) : (tracing x).Faithful x where
  step _ := fun _ _ => rfl
  look := .lift _
  making := .lift _
  evaluate _ _ := .lift _ _
  loaded _ := .lift _ _
  leave _ := .pure ()

/-- What is known of a step: it spares some objects, those of the templates are among them, and the
code of what it loads is allowed. -/
structure Event.Fair (x : Expander) (kept : ObjectId → Prop) (allowed : Text → Prop) (e : Event) :
    Prop where
  spares : e.Spares kept
  brings : ∀ id, e.Brings id → kept id
  loads : ∀ markup, e.markup? = some markup → ∀ code, x.HasCode markup code → allowed code

/-- An action adds to the record and takes nothing from it. As long as its steps are fair, it leads
from a store with a property to one with another property when it succeeds, and all code that it
evaluates is allowed. -/
structure Sound (x : Expander) (env : Env) (kept : ObjectId → Prop) (allowed : Text → Prop)
    (P : World → Prop) {α : Type} (action : Recorded Event α) (Q : α → World → Prop) : Prop where
  grows : ∀ r, ∃ new, (run' env r action).2.events = new ++ r.events ∧ ∀ e ∈ new, e.IsTraced env
  sound : ∀ r, P r.world → (∀ e ∈ (run' env r action).2.events, e.Fair x kept allowed) →
    (∀ e ∈ r.events, e.Allowed allowed) →
      (∀ e ∈ (run' env r action).2.events, e.Allowed allowed) ∧
        ∀ a, (run' env r action).1 = .ok a → Q a (run' env r action).2.world

namespace Sound

variable {x : Expander} {env : Env} {kept : ObjectId → Prop} {allowed : Text → Prop}
  {P P' : World → Prop} {α β : Type} {Q Q' : α → World → Prop}

theorem pure {a : α} (h : ∀ w, P w → Q a w) : Sound x env kept allowed P (pure a) Q where
  grows r := ⟨[], rfl, by simp⟩
  sound r hr _ ha := ⟨ha, fun b hb => by
    cases hb
    exact h r.world hr⟩

theorem bind {a : Recorded Event α} {f : α → Recorded Event β} {R : β → World → Prop}
    (ha : Sound x env kept allowed P a Q) (hf : ∀ v, Sound x env kept allowed (Q v) (f v) R) :
    Sound x env kept allowed P (a >>= f) R where
  grows r := by
    obtain ⟨new, hnew, htraced⟩ := ha.grows r
    rw [Recorded.run'_bind]
    rcases hrun : run' env r a with ⟨e | v, r'⟩
    · rw [hrun] at hnew
      exact ⟨new, hnew, htraced⟩
    · rw [hrun] at hnew
      obtain ⟨more, hmore, htraced'⟩ := (hf v).grows r'
      refine ⟨more ++ new, ?_, List.forall_mem_append.2 ⟨htraced', htraced⟩⟩
      rw [hmore, hnew, List.append_assoc]
  sound r hr hfair hallowed := by
    have hsound := ha.sound r hr
    rw [Recorded.run'_bind] at hfair ⊢
    rcases hrun : run' env r a with ⟨e | v, r'⟩
    · rw [hrun] at hfair hsound
      exact ⟨(hsound hfair hallowed).1, fun b hb => by cases hb⟩
    · rw [hrun] at hfair hsound
      dsimp only at hfair hsound ⊢
      obtain ⟨more, hmore, -⟩ := (hf v).grows r'
      rw [hmore] at hfair
      obtain ⟨hnow, hq⟩ := hsound (fun e he => hfair e (List.mem_append_right more he)) hallowed
      exact (hf v).sound r' (hq v rfl) (hmore ▸ hfair) hnow

theorem imp {a : Recorded Event α} (h : Sound x env kept allowed P a Q)
    (hq : ∀ v w, Q v w → Q' v w) : Sound x env kept allowed P a Q' where
  grows := h.grows
  sound r hr hfair hallowed := by
    obtain ⟨hnow, hdone⟩ := h.sound r hr hfair hallowed
    exact ⟨hnow, fun v hv => hq v _ (hdone v hv)⟩

theorem of_imp {a : Recorded Event α} (h : Sound x env kept allowed P a Q)
    (hp : ∀ w, P' w → P w) : Sound x env kept allowed P' a Q where
  grows := h.grows
  sound r hr := h.sound r (hp _ hr)

theorem ite {p : Prop} [Decidable p] {a b : Recorded Event α}
    (ha : Sound x env kept allowed P a Q) (hb : Sound x env kept allowed P b Q) :
    Sound x env kept allowed P (if p then a else b) Q := by
  split
  · exact ha
  · exact hb

/-- What has nothing to do with the store stays true. -/
theorem frame {a : Recorded Event α} (h : Sound x env kept allowed P a Q) (p : Prop) :
    Sound x env kept allowed (fun w => p ∧ P w) a fun v w => p ∧ Q v w where
  grows := h.grows
  sound r hr hfair hallowed := by
    obtain ⟨hnow, hdone⟩ := h.sound r hr.2 hfair hallowed
    exact ⟨hnow, fun v hv => ⟨hr.1, hdone v hv⟩⟩

/-- What holds for all of some things holds when there is one of them. -/
theorem exists_ {ι : Type} [Nonempty ι] {P : ι → World → Prop} {Q : ι → α → World → Prop}
    {a : Recorded Event α} (h : ∀ i, Sound x env kept allowed (P i) a (Q i)) :
    Sound x env kept allowed (fun w => ∃ i, P i w) a fun v w => ∃ i, Q i v w where
  grows := (h (Classical.arbitrary ι)).grows
  sound r hr hfair hallowed := by
    obtain ⟨i, hi⟩ := hr
    obtain ⟨hnow, hdone⟩ := (h i).sound r hi hfair hallowed
    exact ⟨hnow, fun v hv => ⟨i, hdone v hv⟩⟩

/-- A property that each of several actions keeps. -/
theorem mapM {f : α → Recorded Event β} {xs : List α}
    (h : ∀ y ∈ xs, Sound x env kept allowed P (f y) fun _ => P) :
    Sound x env kept allowed P (xs.mapM f) fun _ => P := by
  induction xs with
  | nil =>
    rw [List.mapM_nil]
    exact .pure fun _ hw => hw
  | cons y ys ih =>
    rw [List.mapM_cons]
    exact (h y List.mem_cons_self).bind fun _ =>
      (ih fun z hz => h z (List.mem_cons_of_mem y hz)).bind fun _ => .pure fun _ hw => hw

theorem forM {f : α → Recorded Event PUnit} {xs : List α}
    (h : ∀ y ∈ xs, Sound x env kept allowed P (f y) fun _ => P) :
    Sound x env kept allowed P (xs.forM f) fun _ => P := by
  induction xs with
  | nil => exact .pure fun _ hw => hw
  | cons y ys ih =>
    exact (h y List.mem_cons_self).bind fun _ => ih fun z hz => h z (List.mem_cons_of_mem y hz)

theorem map {a : Recorded Event α} {f : α → β} {R : β → World → Prop}
    (h : Sound x env kept allowed P a fun v w => R (f v) w) :
    Sound x env kept allowed P (f <$> a) R := by
  rw [map_eq_pure_bind]
  exact h.bind fun _ => .pure fun _ hw => hw

theorem discard {a : Recorded Event α} {R : World → Prop}
    (h : Sound x env kept allowed P a fun _ => R) :
    Sound x env kept allowed P (discard a) fun _ => R := .map h

/-- An action with one event. -/
theorem lift {f : World → Except Fault α → World → Event} {action : M α}
    (ht : ∀ w out w', (f w out w').IsTraced env)
    (h : ∀ w, P w → ∀ out w', M.run' env w action = (out, w') →
      (f w out w').Fair x kept allowed →
        (f w out w').Allowed allowed ∧ ∀ a, out = .ok a → Q a w') :
    Sound x env kept allowed P (Recorded.lift (fun w out w' => [f w out w']) action) Q where
  grows r := ⟨[_], rfl, List.forall_mem_singleton.2 (ht _ _ _)⟩
  sound r hr hfair hallowed := by
    obtain ⟨hnow, hdone⟩ := h r.world hr _ _ rfl (hfair _ List.mem_cons_self)
    exact ⟨List.forall_mem_cons.2 ⟨hnow, hallowed⟩, hdone⟩

/-! The steps that are traced. -/

/-- Whether a property lasts as long as some objects stay as they are. -/
def Lasts (kept : ObjectId → Prop) (P : World → Prop) : Prop :=
  ∀ w w', P w → w.Keeps kept w' → P w'

theorem evaluate (hP : Lasts kept P) {scope : ScopeId} {source : Text}
    (ha : ∀ w, P w → allowed source) :
    Sound x env kept allowed P ((Observer.tracing x).evaluate scope source) fun _ => P := by
  refine .lift (f := fun before _ after => .evaluated source before after) (fun _ _ _ => trivial) ?_
  intro w hw out w' _ hfair
  refine ⟨fun _ hs => ?_, fun _ _ => hP w w' hw hfair.spares⟩
  cases hs
  exact ha w hw

/-- A look at a value whose outcome is known. -/
theorem look_of {action : M α}
    (h : ∀ w, P w → ∀ a w', M.run' env w action = (.ok a, w') → w.Keeps kept w' → Q a w') :
    Sound x env kept allowed P ((Observer.tracing x).look action) Q := by
  refine .lift (f := fun before _ after => .looked before after) (fun _ _ _ => trivial) ?_
  intro w hw out w' hr hfair
  exact ⟨fun _ hs => (by cases hs), fun a ha => h w hw a w' (ha ▸ hr) hfair.spares⟩

theorem look (hP : Lasts kept P) (action : M α) :
    Sound x env kept allowed P ((Observer.tracing x).look action) fun _ => P :=
  .look_of fun w hw _ w' _ hk => hP w w' hw hk

theorem making {action : M α}
    (h : ∀ w, P w → ∀ a w', M.run' env w action = (.ok a, w') →
      (∀ id, w.cells.size ≤ id → id < w'.cells.size → kept id) → Q a w') :
    Sound x env kept allowed P ((Observer.tracing x).making action) Q := by
  refine .lift (f := fun before _ after => .made before after) (fun _ _ _ => trivial) ?_
  intro w hw out w' hr hfair
  refine ⟨fun _ hs => (by cases hs), fun a ha => ?_⟩
  exact h w hw a w' (ha ▸ hr) fun id hge hlt => hfair.brings id ⟨hge, hlt⟩

/-- A step, with functions that are known to spare the objects of the templates. -/
theorem step {action : M α}
    (h : ∀ (env' : Env) (spared : ObjectId → Prop) (n : Nat), env'.Spares spared →
      env'.Shuns spared → (∀ id, kept id → spared id) → (∀ id, n ≤ id → spared id) →
      Ensures env' (fun w => P w ∧ n = w.cells.size) action fun a w =>
        (∀ id, n ≤ id →
          (∃ parent, w.cells[id]? = some (Tree.nodeCell id .fragment parent)) → kept id) → Q a w) :
    Sound x env kept allowed P ((Observer.tracing x).step action) Q := by
  have hlift : Sound x env kept allowed P
      (Recorded.lift (fun before _ after => [.ofStep env action before after]) action) Q := by
    refine .lift (f := fun before _ after => .ofStep env action before after)
      (fun _ _ _ => ⟨_, action, rfl⟩) ?_
    intro w hw out w' hr hfair
    refine ⟨fun _ hs => (by cases hs), fun a ha => ?_⟩
    have hrun : M.run' (env.sparing fun id => kept id ∨ w.cells.size ≤ id) w action = (.ok a, w') :=
      hfair.spares.trans (ha ▸ hr)
    exact h _ _ w.cells.size (env.sparing_spares _) (env.sparing_shuns _) (fun _ => .inl)
      (fun _ => .inr) w ⟨hw, rfl⟩ a w' hrun fun id hge hf => hfair.brings id ⟨hge, hf⟩
  exact ⟨hlift.grows, hlift.sound⟩

/-- A step of which it does not matter what functions do. -/
theorem step_of {action : M α} (h : ∀ env, Ensures env P action Q) :
    Sound x env kept allowed P ((Observer.tracing x).step action) Q :=
  .step fun env' _ _ _ _ _ _ w hw a w' hr _ => h env' w hw.1 a w' hr

theorem loaded (markup : Text) :
    Sound x env kept allowed P ((Observer.tracing x).loaded markup) fun _ w =>
      (∀ code, x.HasCode markup code → allowed code) ∧ P w := by
  show Sound x env kept allowed P
    (Recorded.lift (fun _ _ _ => [Event.loaded markup]) (Pure.pure ())) _
  refine .lift (f := fun _ _ _ => .loaded markup) (fun _ _ _ => trivial) ?_
  intro w hw out w' hr hfair
  cases hr
  exact ⟨fun _ hs => (by cases hs), fun _ _ => ⟨hfair.loads markup rfl, hw⟩⟩

theorem leave (inner : ScopeId) :
    Sound x env kept allowed P ((Observer.tracing x).leave inner) fun _ => P :=
  .pure fun _ hw => hw

end Sound

end PageTemplate
