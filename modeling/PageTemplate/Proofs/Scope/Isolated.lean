import Mathlib.Logic.Relation
import PageTemplate.Proofs.Respect.Library
import PageTemplate.Scope

/-!
# PageTemplate.Proofs.Scope.Isolated

Values, trees, forms and the functions of the library are handled by actions that neither read nor
change scopes; scopes are the business of expressions and templates. An action may belong to a
scope. It then comes to the same in two stores that agree on the scopes around it, and changes no
other scope that is there already; in its own scope it takes steps of a given kind.
-/

namespace PageTemplate

section Unscoped

/-- The stores hold the scopes `s` and `t` and are the same otherwise. -/
structure World.DifferByScopes (s t : Array Scope) (w v : World) : Prop where
  left : w.scopes = s
  right : v = { w with scopes := t }

/-- The functions among the values do not touch scopes. -/
def Env.SparesScopes (env : Env) : Prop :=
  ∀ f this arguments s t, Respects env (World.DifferByScopes s t) (M.call f this arguments)

/-- An action that does not touch scopes, as long as the functions it calls do not. -/
def Unscoped {α : Type} (action : M α) : Prop :=
  ∀ env : Env, env.SparesScopes → ∀ s t, Respects env (World.DifferByScopes s t) action

variable {env : Env} {s t : Array Scope}

theorem Env.SparesScopes.kept (h : env.SparesScopes) (s t : Array Scope) :
    KeptByWrites env (World.DifferByScopes s t) where
  cells := fun ⟨_, hv⟩ => by rw [hv]
  joining := fun ⟨_, hv⟩ => by rw [hv]
  alloc cells := fun ⟨hw, hv⟩ => ⟨hw, by rw [hv]; rfl⟩
  log line := fun ⟨hw, hv⟩ => ⟨hw, by rw [hv]⟩
  warn line := fun ⟨hw, hv⟩ => ⟨hw, by rw [hv]⟩
  join ids := fun ⟨hw, hv⟩ => ⟨hw, by rw [hv]⟩
  set id c := fun ⟨hw, hv⟩ => ⟨hw, by rw [hv]; rfl⟩
  call f this arguments := h f this arguments s t _ _

/-- What respects every relation that steps on the store keep does not touch scopes. -/
theorem Unscoped.of_respects {α : Type} {action : M α}
    (h : ∀ (env : Env) (S : World → World → Prop) [KeptByWrites env S], Respects env S action) :
    Unscoped action := by
  intro env henv s t
  have := henv.kept s t
  exact h env _

/-- When the functions of a page do not touch scopes, no function does. -/
theorem Env.sparesScopes_of {host : HostFunctions}
    (h : ∀ name this arguments, Unscoped (host name this arguments)) :
    (Env.of host).SparesScopes := by
  have hdepth : ∀ n, (Env.ofDepth host n).SparesScopes := by
    intro n
    induction n with
    | zero => exact fun f this arguments s t w v hwv => ⟨rfl, hwv⟩
    | succ n ih =>
      intro f receiver arguments s t
      have := ih.kept s t
      exact Library.respects_call (fun name receiver arguments => h name receiver arguments _ ih s t)
        f receiver arguments
  exact hdepth maxCallDepth

/-- An action that does not touch scopes leaves them as they are, and comes to the same whatever
they hold. -/
theorem Unscoped.run' {α : Type} {action : M α} (h : Unscoped action) (henv : env.SparesScopes)
    (w : World) (t : Array Scope) :
    (M.run' env w action).2.scopes = w.scopes ∧
      M.run' env { w with scopes := t } action =
        ((M.run' env w action).1, { (M.run' env w action).2 with scopes := t }) := by
  obtain ⟨hout, hleft, hright⟩ := h env henv w.scopes t w { w with scopes := t } ⟨rfl, rfl⟩
  refine ⟨hleft, ?_⟩
  rw [Prod.ext_iff]
  exact ⟨hout.symm, hright⟩

end Unscoped

namespace World

/-- The scope at a place. -/
def scope (w : World) (c : ScopeId) : Scope := w.scopes.getD c ⟨none, []⟩

/-- What a scope itself binds. -/
def bindings (w : World) (c : ScopeId) : Properties := (w.scope c).bindings

/-- The stores differ at most in what scopes outside of `live` bind. -/
structure AgreesOn (live : ScopeId → Prop) (w v : World) : Prop where
  cells : w.cells = v.cells
  log : w.log = v.log
  warnings : w.warnings = v.warnings
  joining : w.joining = v.joining
  size : w.scopes.size = v.scopes.size
  parent : ∀ c, (w.scope c).parent = (v.scope c).parent
  bindings : ∀ c, live c → w.bindings c = v.bindings c

/-- The live scopes are there, and the scopes around a live one are live. -/
structure Encloses (live : ScopeId → Prop) (w : World) : Prop where
  lt : ∀ c, live c → c < w.scopes.size
  parent : ∀ c p, live c → (w.scope c).parent = some p → live p

/-- The scopes that there were are where they were, and only some of them bind something else. -/
structure Frame (changed : ScopeId → Prop) (w w' : World) : Prop where
  size : w.scopes.size ≤ w'.scopes.size
  parent : ∀ d < w.scopes.size, (w'.scope d).parent = (w.scope d).parent
  bindings : ∀ d < w.scopes.size, ¬ changed d → w'.bindings d = w.bindings d

/-- Of the scopes that there were, only `c` has changed, by steps of a kind in what it binds. -/
structure Reached (Step : Properties → Properties → Prop) (c : ScopeId) (w w' : World) : Prop where
  frame : Frame (· = c) w w'
  steps : Relation.ReflTransGen Step (w.bindings c) (w'.bindings c)

variable {live : ScopeId → Prop} {Step : Properties → Properties → Prop} {c : ScopeId}
  {changed : ScopeId → Prop} {w w' w'' v : World}

namespace AgreesOn

theorem refl (live : ScopeId → Prop) (w : World) : AgreesOn live w w :=
  ⟨rfl, rfl, rfl, rfl, rfl, fun _ => rfl, fun _ _ => rfl⟩

theorem mono {fewer : ScopeId → Prop} (h : AgreesOn live w v) (hf : ∀ c, fewer c → live c) :
    AgreesOn fewer w v :=
  { h with bindings := fun c hc => h.bindings c (hf c hc) }

/-- Agreeing stores are equal but for their scopes. -/
theorem eq_withScopes (h : AgreesOn live w v) : v = { w with scopes := v.scopes } := by
  obtain ⟨cells, scopes, log, warnings, joining⟩ := w
  obtain ⟨_, _, _, _, _⟩ := v
  obtain ⟨rfl, rfl, rfl, rfl, _, _, _⟩ := h
  rfl

end AgreesOn

namespace Frame

theorem refl (changed : ScopeId → Prop) (w : World) : Frame changed w w :=
  ⟨Nat.le_refl _, fun _ _ => rfl, fun _ _ _ => rfl⟩

theorem trans (h : Frame changed w w') (h' : Frame changed w' w'') : Frame changed w w'' where
  size := Nat.le_trans h.size h'.size
  parent d hd := (h'.parent d (Nat.lt_of_lt_of_le hd h.size)).trans (h.parent d hd)
  bindings d hd hn :=
    (h'.bindings d (Nat.lt_of_lt_of_le hd h.size) hn).trans (h.bindings d hd hn)

theorem mono {more : ScopeId → Prop} (h : Frame changed w w')
    (hc : ∀ d < w.scopes.size, changed d → more d) : Frame more w w' :=
  { h with bindings := fun d hd hn => h.bindings d hd fun hd' => hn (hc d hd hd') }

theorem encloses (h : Frame changed w w') (hl : w.Encloses live) : w'.Encloses live where
  lt d hd := Nat.lt_of_lt_of_le (hl.lt d hd) h.size
  parent d p hd hp := hl.parent d p hd (by rwa [h.parent d (hl.lt d hd)] at hp)

end Frame

namespace Reached

theorem refl (c : ScopeId) (w : World) : Reached Step c w w :=
  ⟨.refl _ w, .refl⟩

theorem trans (h : Reached Step c w w') (h' : Reached Step c w' w'') : Reached Step c w w'' :=
  ⟨h.frame.trans h'.frame, h.steps.trans h'.steps⟩

theorem mono {More : Properties → Properties → Prop} (h : Reached Step c w w')
    (hs : ∀ a b, Step a b → More a b) : Reached More c w w' :=
  ⟨h.frame, Relation.ReflTransGen.mono hs _ _ h.steps⟩

end Reached

end World

open World (AgreesOn Encloses Frame Reached)

/-- The action `b` comes to the same as the action `a` when the two start in stores that agree on
live scopes, of which `c` is one, and `a` changes nothing but `c` of the scopes that there were. -/
def Isolated (env : Env) (Step : Properties → Properties → Prop) (c : ScopeId) {α : Type}
    (a b : M α) : Prop :=
  ∀ (live : ScopeId → Prop) (w v : World), live c → w.Encloses live → w.AgreesOn live v →
    (M.run' env w a).1 = (M.run' env v b).1 ∧
      (M.run' env w a).2.AgreesOn live (M.run' env v b).2 ∧
      w.Reached Step c (M.run' env w a).2

namespace Isolated

variable {env : Env} {Step : Properties → Properties → Prop} {c : ScopeId} {α β : Type}

theorem pure (a : α) : Isolated env Step c (pure a) (pure a) :=
  fun _ w _ _ _ ha => ⟨rfl, ha, .refl c w⟩

theorem throw (f : Fault) : Isolated env Step c (throw f : M α) (throw f) :=
  fun _ w _ _ _ ha => ⟨rfl, ha, .refl c w⟩

theorem mono {More : Properties → Properties → Prop} {a b : M α} (h : Isolated env Step c a b)
    (hs : ∀ p q, Step p q → More p q) : Isolated env More c a b := by
  intro live w v hc hl ha
  obtain ⟨hout, hagree, hreach⟩ := h live w v hc hl ha
  exact ⟨hout, hagree, hreach.mono hs⟩

theorem bind {a b : M α} {f g : α → M β} (h : Isolated env Step c a b)
    (hf : ∀ x, Isolated env Step c (f x) (g x)) : Isolated env Step c (a >>= f) (b >>= g) := by
  intro live w v hc hl ha
  obtain ⟨hout, hagree, hreach⟩ := h live w v hc hl ha
  rw [M.run'_bind, M.run'_bind]
  rcases hw : M.run' env w a with ⟨e | x, w'⟩ <;>
    rcases hv : M.run' env v b with ⟨e' | x', v'⟩ <;> rw [hw, hv] at hout hagree <;>
    rw [hw] at hreach <;> cases hout
  · exact ⟨rfl, hagree, hreach⟩
  · obtain ⟨hout, hagree, hreach'⟩ := hf x live w' v' hc (hreach.frame.encloses hl) hagree
    exact ⟨hout, hagree, hreach.trans hreach'⟩

theorem ite {p : Prop} [Decidable p] {a a' b b' : M α} (h : Isolated env Step c a a')
    (h' : Isolated env Step c b b') :
    Isolated env Step c (if p then a else b) (if p then a' else b') := by
  split
  · exact h
  · exact h'

/-- An action that does not touch scopes belongs to any scope. -/
theorem of_unscoped (henv : env.SparesScopes) {a : M α} (h : Unscoped a) :
    Isolated env Step c a a := by
  intro live w v _ _ ha
  obtain ⟨hkept, hsame⟩ := h.run' henv w v.scopes
  have hscope (d : ScopeId) : (M.run' env w a).2.scope d = w.scope d := by
    rw [World.scope, World.scope, hkept]
  have hbindings (d : ScopeId) : (M.run' env w a).2.bindings d = w.bindings d := by
    rw [World.bindings, hscope, World.bindings]
  rw [ha.eq_withScopes, hsame]
  refine ⟨rfl, ⟨rfl, rfl, rfl, rfl, ?_, fun d => ?_, fun d hd => ?_⟩,
    ⟨⟨?_, fun d _ => ?_, fun d _ _ => hbindings d⟩, ?_⟩⟩
  · rw [hkept]
    exact ha.size
  · rw [hscope]
    exact ha.parent d
  · rw [hbindings]
    exact ha.bindings d hd
  · exact Nat.le_of_eq (congrArg Array.size hkept).symm
  · rw [hscope]
  · rw [hbindings]

theorem of_respects (henv : env.SparesScopes) {a : M α}
    (h : ∀ (env : Env) (S : World → World → Prop) [KeptByWrites env S], Respects env S a) :
    Isolated env Step c a a :=
  .of_unscoped henv (.of_respects h)

end Isolated

end PageTemplate
