import PageTemplate.Proofs.Tree.Edits
import PageTemplate.Template.Expand

/-!
# PageTemplate.Proofs.Template.Script

Scripts. A script computes without a store: where it needs an expression evaluated or a value
converted, it asks, and goes on with the answer. It is performed by a run of the program when the
run asks the same questions in the same order and gets the answers that the script goes on with;
between the questions nothing may happen but changes to trees.
-/

namespace PageTemplate

/-- What a script can ask. -/
inductive Query where
  /-- The value of an expression in a scope. -/
  | evaluate (scope : ScopeId) (code : Text)
  /-- What a value is shown as. -/
  | shown (v : Value)
  /-- What a value is shown as, joined to a text before it. -/
  | suffix (v : Value)
  | json (v : Value)
  | truth (v : Value)
  | entries (v : Value) (source : Text)
  /-- A new scope inside another one. -/
  | inner (scope : ScopeId)
  | bind (scope : ScopeId) (name : Text) (v : Value)
  /-- A handle on an element. -/
  | handle (element : NodeTree)
  /-- The value that a JSON document writes. -/
  | data (document : Json)
  /-- A bound on the depth of data. -/
  | depth
  | isObjectShaped (v : Value)
  /-- The name of the field for an entry. -/
  | childName (name key : Value)
  | log (words : List Text)

namespace Query

/-- What is answered. -/
abbrev Answer : Query → Type
  | evaluate .. | shown _ | handle _ | data _ | childName .. => Value
  | suffix _ | json _ => Text
  | truth _ | isObjectShaped _ => Bool
  | entries .. => List (Option (Value × Value))
  | inner _ => ScopeId
  | bind .. | log _ => Unit
  | depth => Nat

/-- What the program does in order to answer a question. A handle is one on a place that represents
the element. -/
def Runs (x : Expander) (V : View) : (q : Query) → M q.Answer → Prop
  | evaluate scope code, action => action = x.evaluate scope code
  | shown v, action => action = Present.shown v
  | suffix v, action => action = (do Convert.toSuffix (← Present.shown v))
  | json v, action => action = Present.toJson v
  | truth v, action => action = Present.toBool v
  | entries v source, action => action = Present.entriesOf v source
  | inner scope, action => action = Scope.create (some scope)
  | bind scope name v, action => action = Scope.bind scope name v
  | handle t, action =>
    ∃ e, V.Represents e t ∧ action = (do return .object (← Store.alloc (.handle (.object e) [])))
  | data document, action => action = Library.plantJson document
  | depth, action => action = Store.depth
  | isObjectShaped v, action => action = Present.isObjectShaped v
  | childName name key, action => action = (do Form.childNameOf name (← Present.shown key))
  | log words, action => action = x.logStep words

/-- Whether it takes an expression, or a method of a value, to find the answer. -/
def isForeign : Query → Bool
  | evaluate .. | shown _ | suffix _ | json _ | truth _ | entries .. | isObjectShaped _
  | childName .. => true
  | inner _ | bind .. | handle _ | data _ | depth | log _ => false

end Query

/-! What is asked of the store alone. -/

namespace Library

variable {env : Env} {w : World}

mutual

/-- A JSON document becomes new objects. -/
theorem run'_plantJson (document : Json) (w : World) :
    ∃ v cells, M.run' env w (plantJson document) = (.ok v, w.allocAll cells) := by
  match document with
  | .null => exact ⟨.null, [], by simp [plantJson]⟩
  | .bool b => exact ⟨.bool b, [], by simp [plantJson]⟩
  | .number x => exact ⟨.number x, [], by simp [plantJson]⟩
  | .text t => exact ⟨.text t, [], by simp [plantJson]⟩
  | .array items =>
    obtain ⟨vs, cells, hr⟩ := run'_plantItems items w
    refine ⟨.object (w.allocAll cells).cells.size, cells ++ [.array (vs.map some) []], ?_⟩
    rw [plantJson, M.run'_bind_ok hr, ← World.allocAll_append]
    exact M.run'_bind_ok (Store.run'_alloc _)
  | .object members =>
    obtain ⟨vs, cells, hr⟩ := run'_plantMembers members w
    refine ⟨.object (w.allocAll cells).cells.size, cells ++ [.record .object vs], ?_⟩
    rw [plantJson, M.run'_bind_ok hr, ← World.allocAll_append]
    exact M.run'_bind_ok (Store.run'_alloc _)

theorem run'_plantItems (items : List Json) (w : World) :
    ∃ vs cells, M.run' env w (plantItems items) = (.ok vs, w.allocAll cells) := by
  match items with
  | [] => exact ⟨[], [], by simp [plantItems]⟩
  | item :: items =>
    obtain ⟨v, cells, hr⟩ := run'_plantJson item w
    obtain ⟨vs, more, hr'⟩ := run'_plantItems items (w.allocAll cells)
    refine ⟨v :: vs, cells ++ more, ?_⟩
    rw [plantItems, M.run'_bind_ok hr, M.run'_bind_ok hr', World.allocAll_append]
    rfl

theorem run'_plantMembers (members : List (Text × Json)) (w : World) :
    ∃ vs cells, M.run' env w (plantMembers members) = (.ok vs, w.allocAll cells) := by
  match members with
  | [] => exact ⟨[], [], by simp [plantMembers]⟩
  | (name, member) :: members =>
    obtain ⟨v, cells, hr⟩ := run'_plantJson member w
    obtain ⟨vs, more, hr'⟩ := run'_plantMembers members (w.allocAll cells)
    refine ⟨(name, v) :: vs, cells ++ more, ?_⟩
    rw [plantMembers, M.run'_bind_ok hr, M.run'_bind_ok hr', World.allocAll_append]
    rfl

end

end Library

/-- The answer to what is asked of the store alone leaves the nodes as they are. -/
theorem Query.Runs.shows {x : Expander} {env : Env} {w w' : World} {V : View} {q : Query}
    {action : M q.Answer} (hq : q.Runs x V action) (hf : q.isForeign = false) (h : Shows w V)
    {a : q.Answer} (hr : M.run' env w action = (.ok a, w')) : Shows w' V := by
  cases q with
  | inner scope =>
    cases hq
    cases hr
    exact h.of_old fun _ _ => rfl
  | bind scope name v =>
    cases hq
    refine h.of_old fun _ _ => ?_
    rw [Scope.bind] at hr
    split at hr
    · cases hr
    · cases hr
      rfl
  | handle t =>
    obtain ⟨e, _, rfl⟩ := hq
    rw [M.run'_bind_ok (Store.run'_alloc _)] at hr
    cases hr
    exact h.allocAll _
  | data document =>
    cases hq
    obtain ⟨v, cells, hr'⟩ :
        ∃ v cells, M.run' env w (Library.plantJson document) = (.ok v, w.allocAll cells) :=
      Library.run'_plantJson document w
    cases hr'.symm.trans hr
    exact h.allocAll cells
  | depth =>
    cases hq
    cases hr
    exact h
  | log words =>
    cases hq
    rw [Expander.logStep] at hr
    split at hr
    · cases hr
      exact h.of_old fun _ _ => rfl
    · cases hr
      exact h
  | _ => cases hf

/-- A computation that asks. -/
inductive Script (β : Type) where
  | done (b : β)
  | ask (q : Query) (next : q.Answer → Script β)
  /-- There is nothing to compute: the program fails here. -/
  | fail

namespace Script

variable {β γ : Type}

def bind : Script β → (β → Script γ) → Script γ
  | done b, f => f b
  | ask q next, f => ask q fun a => (next a).bind f
  | fail, _ => fail

instance : Monad Script where
  pure := done
  bind := bind

def query (q : Query) : Script q.Answer := ask q done

theorem bind_done (s : Script β) : s.bind done = s := by
  induction s with
  | ask q next ih => exact congrArg (ask q) (funext ih)
  | _ => rfl

theorem bind_bind {δ : Type} (s : Script β) (f : β → Script γ) (g : γ → Script δ) :
    (s.bind f).bind g = s.bind fun b => (f b).bind g := by
  induction s with
  | ask q next ih => exact congrArg (ask q) (funext ih)
  | _ => rfl

instance : LawfulMonad Script :=
  .mk' Script (fun s => bind_done s) (fun _ _ => rfl) fun s f g => bind_bind s f g

/-- Whether a run from one store to another performs a script, seen through views of the nodes in
the stores, and the script yields a result. -/
def Performs (x : Expander) (env : Env) :
    Script β → World → View → World → View → β → Prop
  | done b', w, V, w', V', b => b = b' ∧ TreeStep w V w' V'
  | ask q next, w, V, w', V', b =>
    ∃ w1 V1, TreeStep w V w1 V1 ∧ V1.IsRegular ∧ ∃ action, q.Runs x V1 action ∧
      ∃ a w2, M.run' env w1 action = (.ok a, w2) ∧ Shows w2 V1 ∧
        Performs x env (next a) w2 V1 w' V' b
  | fail, _, _, _, _, _ => False

/-- Whether no expression and no method of a value that a script asks for changes a node, however
the trees change between the questions. -/
def Keeps (x : Expander) (env : Env) : Script β → World → View → Prop
  | ask q next, w, V =>
    ∀ w1 V1, TreeStep w V w1 V1 → V1.IsRegular → ∀ action, q.Runs x V1 action →
      ∀ a w2, M.run' env w1 action = (.ok a, w2) →
        (q.isForeign → Shows w2 V1) ∧ Keeps x env (next a) w2 V1
  | done _, _, _ | fail, _, _ => True

variable {x : Expander} {env : Env} {w w' w'' : World} {V V' V'' : View}

/-- When no expression and no method of a value ever changes a node, none of a script does. -/
theorem keeps_of_forall
    (h : ∀ w V (q : Query) action, Shows w V → V.IsRegular → q.Runs x V action → q.isForeign →
      ∀ a w', M.run' env w action = (.ok a, w') → Shows w' V) (s : Script β) :
    s.Keeps x env w V := by
  induction s generalizing w V with
  | ask q next ih =>
    intro w1 V1 ht hg action hq a w2 hr
    exact ⟨fun hf => h w1 V1 q action ht.shows hg hq hf a w2 hr, ih a⟩
  | _ => trivial

/-- The answer to the first question of a script leaves the nodes as they are. -/
theorem Keeps.first {q : Query} {next : q.Answer → Script β} (h : (ask q next).Keeps x env w V)
    (hs : Shows w V) (hg : V.IsRegular) {action : M q.Answer} (hq : q.Runs x V action)
    {a : q.Answer} (hr : M.run' env w action = (.ok a, w')) :
    Shows w' V ∧ (next a).Keeps x env w' V := by
  obtain ⟨hs', hk⟩ := h w V (.refl hs) hg action hq a w' hr
  refine ⟨?_, hk⟩
  cases hf : q.isForeign with
  | true => exact hs' hf
  | false => exact hq.shows hf hs hr

/-- A question that is always answered in the same way, without touching the store. -/
theorem keeps_constant {q : Query} {next : q.Answer → Script β} {a : q.Answer}
    (h : ∀ V action w, q.Runs x V action → M.run' env w action = (.ok a, w))
    (hk : ∀ w V, (next a).Keeps x env w V) : (ask q next).Keeps x env w V := by
  intro w1 V1 ht _ action hq a' w2 hr
  cases (h V1 action w1 hq).symm.trans hr
  exact ⟨fun _ => ht.shows, hk w1 V1⟩

theorem Performs.shows {s : Script β} {b : β} (h : s.Performs x env w V w' V' b) : Shows w' V' := by
  induction s generalizing w V with
  | done b' => exact h.2.shows
  | ask q next ih =>
    obtain ⟨w1, V1, _, _, action, _, a, w2, _, _, hp⟩ := h
    exact ih a hp
  | fail => exact h.elim

/-- Tree steps before a run that performs a script. -/
theorem Performs.step {s : Script β} {b : β} (ht : TreeStep w V w' V')
    (h : s.Performs x env w' V' w'' V'' b) : s.Performs x env w V w'' V'' b := by
  cases s with
  | done b' => exact ⟨h.1, ht.trans h.2⟩
  | ask q next =>
    obtain ⟨w1, V1, ht', h⟩ := h
    exact ⟨w1, V1, ht.trans ht', h⟩
  | fail => exact h.elim

theorem Performs.bind {s : Script β} {f : β → Script γ} {b : β} {c : γ}
    (h : s.Performs x env w V w' V' b) (hf : (f b).Performs x env w' V' w'' V'' c) :
    (s.bind f).Performs x env w V w'' V'' c := by
  induction s generalizing w V with
  | done b' =>
    obtain ⟨rfl, ht⟩ := h
    exact hf.step ht
  | ask q next ih =>
    obtain ⟨w1, V1, ht, hg, action, hq, a, w2, hr, hs, hp⟩ := h
    exact ⟨w1, V1, ht, hg, action, hq, a, w2, hr, hs, ih a hp⟩
  | fail => exact h.elim

theorem Keeps.step {s : Script β} (ht : TreeStep w V w' V') (h : s.Keeps x env w V) :
    s.Keeps x env w' V' := by
  cases s with
  | ask q next => exact fun w1 V1 ht' => h w1 V1 (ht.trans ht')
  | _ => trivial

theorem Keeps.left {s : Script β} {f : β → Script γ} (h : (s.bind f).Keeps x env w V) :
    s.Keeps x env w V := by
  induction s generalizing w V with
  | ask q next ih =>
    intro w1 V1 ht hg action hq a w2 hr
    obtain ⟨hs, hk⟩ := h w1 V1 ht hg action hq a w2 hr
    exact ⟨hs, ih a hk⟩
  | _ => trivial

theorem Keeps.right {s : Script β} {f : β → Script γ} {b : β} (h : (s.bind f).Keeps x env w V)
    (hp : s.Performs x env w V w' V' b) : (f b).Keeps x env w' V' := by
  induction s generalizing w V with
  | done b' =>
    obtain ⟨rfl, ht⟩ := hp
    exact Keeps.step ht h
  | ask q next ih =>
    obtain ⟨w1, V1, ht, hg, action, hq, a, w2, hr, hs, hp⟩ := hp
    exact ih a (h w1 V1 ht hg action hq a w2 hr).2 hp
  | fail => exact hp.elim

/-- A script whose result is only changed asks the same. -/
theorem Performs.of_map {s : Script β} {g : β → γ} {c : γ}
    (h : (s.bind fun b => done (g b)).Performs x env w V w' V' c) :
    ∃ b, c = g b ∧ s.Performs x env w V w' V' b := by
  induction s generalizing w V with
  | done b =>
    obtain ⟨rfl, ht⟩ := h
    exact ⟨b, rfl, rfl, ht⟩
  | ask q next ih =>
    obtain ⟨w1, V1, ht, hg, action, hq, a, w2, hr, hs, hp⟩ := h
    obtain ⟨b, hb, hp⟩ := ih a hp
    exact ⟨b, hb, w1, V1, ht, hg, action, hq, a, w2, hr, hs, hp⟩
  | fail => exact h.elim

theorem Keeps.map {s : Script β} (h : s.Keeps x env w V) (g : β → γ) :
    (s.bind fun b => done (g b)).Keeps x env w V := by
  induction s generalizing w V with
  | ask q next ih =>
    intro w1 V1 ht hg action hq a w2 hr
    obtain ⟨hs, hk⟩ := h w1 V1 ht hg action hq a w2 hr
    exact ⟨hs, ih a hk⟩
  | _ => trivial

end Script

/-- Whether every successful run of an action performs a script, as long as no answer changes a
node. The relation is between the results and the view at the end. -/
def Simulates (x : Expander) (env : Env) (w : World) (V : View) {α β : Type} (action : M α)
    (s : Script β) (R : α → β → View → Prop) : Prop :=
  Shows w V → V.IsRegular → s.Keeps x env w V → ∀ a w', M.run' env w action = (.ok a, w') →
    ∃ b V', s.Performs x env w V w' V' b ∧ V'.IsRegular ∧ R a b V'

namespace Simulates

variable {x : Expander} {env : Env} {w : World} {V : View} {α α' β β' : Type}
  {action : M α} {f : α → M α'} {s : Script β} {g : β → Script β'} {R : α' → β' → View → Prop}

theorem pure {a : α} {b : β} {Q : α → β → View → Prop} (h : Q a b V) :
    Simulates x env w V (pure a : M α) (.done b) Q := by
  intro hs hg _ a' w' hr
  cases hr
  exact ⟨b, V, ⟨rfl, .refl hs⟩, hg, h⟩

theorem of_error {e : Fault} {w' : World} {Q : α → β → View → Prop}
    (hr : M.run' env w action = (.error e, w')) : Simulates x env w V action s Q := by
  intro _ _ _ a w'' hr'
  rw [hr] at hr'
  cases hr'

theorem imp {P Q : α → β → View → Prop} (h : Simulates x env w V action s P)
    (hi : ∀ a b V', V'.IsRegular → P a b V' → Q a b V') : Simulates x env w V action s Q := by
  intro hs hg hk a w' hr
  obtain ⟨b, V', hp, hg', hq⟩ := h hs hg hk a w' hr
  exact ⟨b, V', hp, hg', hi a b V' hg' hq⟩

/-- One action after another performs one script after another. -/
theorem bind {P : α → β → View → Prop} (h : Simulates x env w V action s P)
    (hf : ∀ a b w' V', P a b V' → V'.IsRegular → Simulates x env w' V' (f a) (g b) R) :
    Simulates x env w V (action >>= f) (s >>= g) R := by
  intro hs hg hk a' w'' hr
  obtain ⟨a, w', hr, hr'⟩ := M.run'_bind_eq_ok.1 hr
  obtain ⟨b, V', hp, hg', hq⟩ := h hs hg hk.left a w' hr
  obtain ⟨c, V'', hp', hg'', hq'⟩ := hf a b w' V' hq hg' hp.shows hg' (hk.right hp) a' w'' hr'
  exact ⟨c, V'', hp.bind hp', hg'', hq'⟩

/-- A script that yields something made of what another one yields. -/
theorem map {P : α → β → View → Prop} {Q : α → β' → View → Prop} {g : β → β'}
    (h : Simulates x env w V action s P) (hq : ∀ a b V', P a b V' → Q a (g b) V') :
    Simulates x env w V action (s >>= fun b => Pure.pure (g b)) Q := by
  rw [← bind_pure action]
  exact h.bind fun a b _ V' hp _ => .pure (hq a b V' hp)

/-- What a script is that yields something made of what another one yields. -/
theorem of_map {Q : α → β' → View → Prop} {g : β → β'}
    (h : Simulates x env w V action (s >>= fun b => Pure.pure (g b)) Q) :
    Simulates x env w V action s fun a b V' => Q a (g b) V' := by
  intro hs hg hk a w' hr
  obtain ⟨c, V', hp, hg', hq⟩ := h hs hg (hk.map g) a w' hr
  obtain ⟨b, rfl, hp'⟩ := Script.Performs.of_map hp
  exact ⟨b, V', hp', hg', hq⟩

/-- What is known of the forest before an action. -/
theorem regular {Q : α → β → View → Prop}
    (h : Shows w V → V.IsRegular → Simulates x env w V action s Q) :
    Simulates x env w V action s Q :=
  fun hs hg => h hs hg hs hg

/-- A question. -/
theorem ask (q : Query) {action : M q.Answer} (hq : q.Runs x V action) {f : q.Answer → M α'}
    {g : q.Answer → Script β'} (hf : ∀ a w', Simulates x env w' V (f a) (g a) R) :
    Simulates x env w V (action >>= f) (Script.query q >>= g) R := by
  intro hs hg hk a' w'' hr
  obtain ⟨a, w', hr, hr'⟩ := M.run'_bind_eq_ok.1 hr
  obtain ⟨hs', hk'⟩ := Script.Keeps.first hk hs hg hq hr
  obtain ⟨c, V', hp, hg', hq'⟩ := hf a w' hs' hg hk' a' w'' hr'
  exact ⟨c, V', ⟨w, V, .refl hs, hg, action, hq, a, w', hr, hs', hp⟩, hg', hq'⟩

/-- A question at the end. -/
theorem query (q : Query) {action : M q.Answer} (hq : q.Runs x V action) :
    Simulates x env w V action (Script.query q) fun a b V' => a = b ∧ V' = V := by
  intro hs hg hk a w' hr
  obtain ⟨hs', _⟩ := Script.Keeps.first hk hs hg hq hr
  exact ⟨a, V, ⟨w, V, .refl hs, hg, action, hq, a, w', hr, hs', rfl, .refl hs'⟩, hg, rfl, rfl⟩

/-- An operation on trees, of which the script knows nothing. -/
theorem tree {P : α → View → Prop} {s : Script β'}
    (h : Shows w V → V.IsRegular → Leads env w V action P)
    (hf : ∀ a w' V', P a V' → V'.IsRegular → Simulates x env w' V' (f a) s R) :
    Simulates x env w V (action >>= f) s R := by
  intro hs hg hk a' w'' hr
  obtain ⟨a, w', hr, hr'⟩ := M.run'_bind_eq_ok.1 hr
  obtain ⟨V', ht, hg', hq⟩ := h hs hg
  rw [hr] at ht hq
  obtain ⟨c, V'', hp, hg'', hq'⟩ := hf a w' V' (hq a rfl) hg' ht.shows hg' (hk.step ht) a' w'' hr'
  exact ⟨c, V'', hp.step ht, hg'', hq'⟩

/-- Asking nodes for what is known of them. -/
theorem run {a : α} {s : Script β'} (h : Shows w V → M.run' env w action = (.ok a, w))
    (hf : Simulates x env w V (f a) s R) : Simulates x env w V (action >>= f) s R := by
  intro hs hg hk a' w'' hr
  rw [M.run'_bind_ok (h hs)] at hr
  exact hf hs hg hk a' w'' hr

/-- An operation on trees at the end. -/
theorem last {P : α → View → Prop} {b : β'} {Q : α → β' → View → Prop}
    (h : Shows w V → V.IsRegular → Leads env w V action P)
    (hq : ∀ a V', P a V' → V'.IsRegular → Q a b V') :
    Simulates x env w V action (.done b) Q := by
  intro hs hg _ a w' hr
  obtain ⟨V', ht, hg', hp⟩ := h hs hg
  rw [hr] at ht hp
  exact ⟨b, V', ⟨rfl, ht⟩, hg', hq a V' (hp a rfl) hg'⟩

end Simulates

end PageTemplate
