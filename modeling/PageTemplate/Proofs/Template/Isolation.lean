import PageTemplate.Proofs.Scope.Evaluate
import PageTemplate.Proofs.Template.Observer

/-!
# PageTemplate.Proofs.Template.Isolation

Scopes of blocks. A block makes a scope inside the one it stands in: an entry of a loop, a partial,
the expression that an element is finished with. An action is isolated in its scope when it does not
matter that all scopes of a block are overwritten as soon as the block is over: every evaluation
comes to the same. And nothing but evaluations in this scope changes what it binds.
-/

namespace PageTemplate

open World (AgreesOn Encloses Frame)

namespace World

/-- The store with something else bound in the scopes from one on. -/
def forget (w : World) (first : ScopeId) (junk : ScopeId → Properties) : World :=
  { w with scopes := w.scopes.mapIdx fun c s => if first ≤ c then ⟨s.parent, junk c⟩ else s }

/-- The store with a new scope inside another one. -/
def withScope (w : World) (c : ScopeId) : World :=
  { w with scopes := w.scopes.push ⟨some c, []⟩ }

variable {w v : World} {c d first : ScopeId} {junk : ScopeId → Properties}

theorem parent_forget : ((w.forget first junk).scope d).parent = (w.scope d).parent := by
  rw [scope, scope, Array.getD_eq_getD_getElem?, Array.getD_eq_getD_getElem?, forget,
    Array.getElem?_mapIdx]
  cases w.scopes[d]? with
  | none => rfl
  | some s =>
    by_cases h : first ≤ d
    · simp [h]
    · simp [h]

theorem bindings_forget (h : d < first) : (w.forget first junk).bindings d = w.bindings d := by
  rw [bindings, bindings, scope, scope, Array.getD_eq_getD_getElem?, Array.getD_eq_getD_getElem?,
    forget, Array.getElem?_mapIdx]
  cases w.scopes[d]? with
  | none => rfl
  | some s => simp [Nat.not_le_of_lt h]

@[simp] theorem size_withScope : (w.withScope c).scopes.size = w.scopes.size + 1 := by
  simp [withScope]

theorem scope_withScope (d : ScopeId) :
    (w.withScope c).scope d = if d = w.scopes.size then ⟨some c, []⟩ else w.scope d := by
  rw [scope, scope, withScope, Array.getD_eq_getD_getElem?, Array.getD_eq_getD_getElem?,
    Array.getElem?_push]
  split <;> rfl

theorem scope_withScope_of_lt (h : d < w.scopes.size) : (w.withScope c).scope d = w.scope d := by
  rw [scope_withScope, if_neg (Nat.ne_of_lt h)]

theorem bindings_withScope_of_lt (h : d < w.scopes.size) :
    (w.withScope c).bindings d = w.bindings d := by
  rw [bindings, bindings, scope_withScope_of_lt h]

theorem scope_withScope_new : (w.withScope c).scope w.scopes.size = ⟨some c, []⟩ := by
  rw [scope_withScope, if_pos rfl]

theorem frame_withScope (changed : ScopeId → Prop) : w.Frame changed (w.withScope c) where
  size := by simp
  parent d hd := by rw [scope_withScope_of_lt hd]
  bindings d hd _ := bindings_withScope_of_lt hd

theorem Encloses.withScope {live : ScopeId → Prop} (h : w.Encloses live) (hc : live c) :
    (w.withScope c).Encloses fun d => live d ∨ d = w.scopes.size where
  lt d hd := by
    rw [size_withScope]
    rcases hd with hd | rfl
    · exact Nat.lt_succ_of_lt (h.lt d hd)
    · exact Nat.lt_succ_self _
  parent d p hd hp := by
    rcases hd with hd | rfl
    · rw [scope_withScope_of_lt (h.lt d hd)] at hp
      exact .inl (h.parent d p hd hp)
    · rw [scope_withScope_new] at hp
      exact .inl (Option.some.inj hp ▸ hc)

theorem AgreesOn.withScope {live : ScopeId → Prop} (h : w.AgreesOn live v)
    (hl : ∀ d, live d → d < w.scopes.size) (c : ScopeId) :
    (w.withScope c).AgreesOn (fun d => live d ∨ d = w.scopes.size) (v.withScope c) where
  cells := h.cells
  log := h.log
  warnings := h.warnings
  joining := h.joining
  size := by rw [size_withScope, size_withScope, h.size]
  parent d := by
    rw [scope_withScope, scope_withScope, h.size]
    split
    · rfl
    · exact h.parent d
  bindings d hd := by
    rcases hd with hd | rfl
    · have hlt := hl d hd
      rw [bindings_withScope_of_lt hlt, bindings_withScope_of_lt (h.size ▸ hlt)]
      exact h.bindings d hd
    · rw [World.bindings, World.bindings, scope_withScope_new, h.size, scope_withScope_new]

/-- Scopes that are overwritten from one on are of no concern to those before it. -/
theorem AgreesOn.forget {live : ScopeId → Prop} (h : w.AgreesOn live v)
    (hlt : ∀ d, live d → d < first) (junk : ScopeId → Properties) :
    w.AgreesOn live (v.forget first junk) where
  cells := h.cells
  log := h.log
  warnings := h.warnings
  joining := h.joining
  size := by
    rw [h.size]
    simp [World.forget]
  parent d := (h.parent d).trans parent_forget.symm
  bindings d hd := (h.bindings d hd).trans (bindings_forget (hlt d hd)).symm

end World

/-- An evaluation in a scope, what it comes to, and the stores before and after it. -/
structure Evaluation where
  scope : ScopeId
  source : Text
  outcome : Except Fault Value
  before : World
  after : World

/-- What an evaluation has to say for itself: where it was made, of what, and its outcome. -/
def Evaluation.report (e : Evaluation) : ScopeId × Text × Except Fault Value :=
  (e.scope, e.source, e.outcome)

/-- Evaluates a source and records this. -/
def Evaluation.record (c : ScopeId) (source : Text) : Recorded Evaluation Value :=
  .lift (fun w r w' => [⟨c, source, r, w, w'⟩]) (Program.evaluateText c source)

/-- Of some evaluations, the latest first, those in a scope turn what it binds from `p` into `q`:
each of them takes up what the one before it has left, and does no more to it than the assignments
of its source. -/
def Evaluation.Account (c : ScopeId) : List Evaluation → Properties → Properties → Prop
  | [], p, q => p = q
  | e :: es, p, q =>
    if e.scope = c then
      Account c es p (e.before.bindings c) ∧
        Relation.ReflTransGen (Program.Assigns e.source) (e.before.bindings c)
          (e.after.bindings c) ∧
        e.after.bindings c = q
    else Account c es p q

namespace Evaluation.Account

variable {c : ScopeId} {es later : List Evaluation} {p q q' : Properties}

theorem append (h : Account c es p q) (h' : Account c later q q') :
    Account c (later ++ es) p q' := by
  induction later generalizing q' with
  | nil => exact (show q = q' from h') ▸ h
  | cons e later ih =>
    rw [List.cons_append, Account]
    rw [Account] at h'
    split
    · rename_i he
      rw [if_pos he] at h'
      exact ⟨ih h'.1, h'.2⟩
    · rename_i he
      rw [if_neg he] at h'
      exact ih h'

theorem of_others (h : ∀ e ∈ es, e.scope ≠ c) : Account c es p p := by
  induction es with
  | nil => exact rfl
  | cons e es ih =>
    rw [Account, if_neg (h e List.mem_cons_self)]
    exact ih fun e he => h e (List.mem_cons_of_mem _ he)

end Evaluation.Account

/-- Two records go on in the same way: the outcomes are the same and so are the evaluations, and
the stores agree on live scopes. In the first one, of the scopes that there were, only some have
changed. The evaluations were made in these or in new scopes; when `audited`, those in `c` account
for its bindings. -/
structure Mirrors (audited : Prop) (c : ScopeId) (live changed : ScopeId → Prop)
    (r s : Record Evaluation) {α : Type} (ends ends' : Except Fault α × Record Evaluation) :
    Prop where
  outcome : ends'.1 = ends.1
  agrees : ends.2.world.AgreesOn live ends'.2.world
  frame : r.world.Frame changed ends.2.world
  events : ∃ added added', ends.2.events = added ++ r.events ∧
    ends'.2.events = added' ++ s.events ∧ added'.map Evaluation.report =
      added.map Evaluation.report ∧
    (∀ e ∈ added, changed e.scope ∨ r.world.scopes.size ≤ e.scope) ∧
    (audited → Evaluation.Account c added (r.world.bindings c) (ends.2.world.bindings c))

/-- The two actions in a scope go on in the same way, when they are started in stores that agree on
live scopes. -/
def Mirrored (env : Env) (audited : Prop) (c : ScopeId) {α : Type} (a b : Recorded Evaluation α) :
    Prop :=
  ∀ (live : ScopeId → Prop) (r s : Record Evaluation),
    live c → r.world.Encloses live → r.world.AgreesOn live s.world →
      Mirrors audited c live (· = c) r s (Recorded.run' env r a) (Recorded.run' env s b)

namespace Mirrors

variable {audited : Prop} {c : ScopeId} {live changed : ScopeId → Prop} {r s : Record Evaluation}
  {α β : Type}

/-- Two records go on, and go on again. -/
theorem trans {ends ends' : Except Fault α × Record Evaluation}
    {last last' : Except Fault β × Record Evaluation}
    (h : Mirrors audited c live changed r s ends ends')
    (h' : Mirrors audited c live changed ends.2 ends'.2 last last') :
    Mirrors audited c live changed r s last last' := by
  obtain ⟨added, added', hadded, hadded', hsame, hscopes, haccount⟩ := h.events
  obtain ⟨more, more', hmore, hmore', hsame', hscopes', haccount'⟩ := h'.events
  refine ⟨h'.outcome, h'.agrees, h.frame.trans h'.frame, more ++ added, more' ++ added',
    ?_, ?_, ?_, ?_, ?_⟩
  · rw [hmore, hadded, List.append_assoc]
  · rw [hmore', hadded', List.append_assoc]
  · rw [List.map_append, List.map_append, hsame, hsame']
  · intro e he
    rcases List.mem_append.1 he with he | he
    · exact (hscopes' e he).imp_right (Nat.le_trans h.frame.size)
    · exact hscopes e he
  · exact fun ha => (haccount ha).append (haccount' ha)

/-- An action after another one, which it follows when that has succeeded. -/
theorem bind {env : Env} {a b : Recorded Evaluation α} {f g : α → Recorded Evaluation β}
    (h : Mirrors audited c live changed r s (Recorded.run' env r a) (Recorded.run' env s b))
    (hf : ∀ x r' s', Recorded.run' env r a = (.ok x, r') → Recorded.run' env s b = (.ok x, s') →
      Mirrors audited c live changed r' s' (Recorded.run' env r' (f x))
        (Recorded.run' env s' (g x))) :
    Mirrors audited c live changed r s (Recorded.run' env r (a >>= f))
      (Recorded.run' env s (b >>= g)) := by
  rw [Recorded.run'_bind, Recorded.run'_bind]
  have hout := h.outcome
  rcases hr : Recorded.run' env r a with ⟨e | x, r'⟩ <;>
    rcases hs : Recorded.run' env s b with ⟨e' | x', s'⟩ <;> rw [hr, hs] at h hout <;> cases hout
  · exact ⟨rfl, h.agrees, h.frame, h.events⟩
  · exact h.trans (hf x r' s' hr hs)

end Mirrors

namespace Mirrored

variable {env : Env} {audited : Prop} {c : ScopeId} {α β : Type}

theorem pure (a : α) : Mirrored env audited c (pure a) (pure a) :=
  fun _ r _ _ _ ha => ⟨rfl, ha, .refl _ r.world, [], [], rfl, rfl, rfl, by simp, fun _ => rfl⟩

theorem bind {a b : Recorded Evaluation α} {f g : α → Recorded Evaluation β}
    (h : Mirrored env audited c a b) (hf : ∀ x, Mirrored env audited c (f x) (g x)) :
    Mirrored env audited c (a >>= f) (b >>= g) := by
  intro live r s hc hl ha
  have hfirst := h live r s hc hl ha
  refine hfirst.bind fun x r' s' hr hs => ?_
  rw [hr, hs] at hfirst
  exact hf x live r' s' hc (hfirst.frame.encloses hl) hfirst.agrees

theorem map {a b : Recorded Evaluation α} (f : α → β) (h : Mirrored env audited c a b) :
    Mirrored env audited c (f <$> a) (f <$> b) := by
  rw [map_eq_pure_bind, map_eq_pure_bind]
  exact h.bind fun x => .pure (f x)

theorem discard {a b : Recorded Evaluation α} (h : Mirrored env audited c a b) :
    Mirrored env audited c (discard a) (discard b) := h.map _

theorem ite {p : Prop} [Decidable p] {a a' b b' : Recorded Evaluation α}
    (h : Mirrored env audited c a a') (h' : Mirrored env audited c b b') :
    Mirrored env audited c (if p then a else b) (if p then a' else b') := by
  split
  · exact h
  · exact h'

theorem mapM {f g : α → Recorded Evaluation β} (h : ∀ x, Mirrored env audited c (f x) (g x))
    (xs : List α) : Mirrored env audited c (xs.mapM f) (xs.mapM g) := by
  induction xs with
  | nil =>
    rw [List.mapM_nil, List.mapM_nil]
    exact .pure []
  | cons x xs ih =>
    rw [List.mapM_cons, List.mapM_cons]
    exact (h x).bind fun y => ih.bind fun ys => .pure (y :: ys)

theorem forM {f g : α → Recorded Evaluation PUnit} (h : ∀ x, Mirrored env audited c (f x) (g x))
    (xs : List α) : Mirrored env audited c (xs.forM f) (xs.forM g) := by
  induction xs with
  | nil => exact .pure _
  | cons x xs ih => exact (h x).bind fun _ => ih

theorem foldlM {f g : β → α → Recorded Evaluation β}
    (h : ∀ y x, Mirrored env audited c (f y x) (g y x)) (xs : List α) (y : β) :
    Mirrored env audited c (xs.foldlM f y) (xs.foldlM g y) := by
  induction xs generalizing y with
  | nil => exact .pure y
  | cons x xs ih => exact (h y x).bind fun y => ih y

/-- An action that belongs to a scope, with nothing to be recorded. What it binds is not accounted
for. -/
theorem of_isolated {a : M α} (h : Isolated env (fun _ _ => True) c a a) :
    Mirrored env False c (Recorded.silent a) (Recorded.silent a) := by
  intro live r s hc hl ha
  obtain ⟨hout, hagree, hreach⟩ := h live r.world s.world hc hl ha
  rw [Recorded.run'_silent, Recorded.run'_silent]
  exact ⟨hout.symm, hagree, hreach.frame, [], [], rfl, rfl, rfl, by simp, False.elim⟩

/-- An action that does not touch scopes, with nothing to be recorded. -/
theorem of_respects (henv : env.SparesScopes) {a : M α}
    (h : ∀ (env : Env) (S : World → World → Prop) [KeptByWrites env S], Respects env S a) :
    Mirrored env audited c (Recorded.silent a) (Recorded.silent a) := by
  intro live r s hc hl ha
  have hiso : Isolated env (fun _ _ => False) c a a := .of_respects henv h
  obtain ⟨hout, hagree, hreach⟩ := hiso live r.world s.world hc hl ha
  rw [Recorded.run'_silent, Recorded.run'_silent]
  refine ⟨hout.symm, hagree, hreach.frame, [], [], rfl, rfl, rfl, by simp, fun _ => ?_⟩
  exact ((Relation.reflTransGen_iff_eq fun _ => id).1 hreach.steps).symm

/-- An evaluation is recorded, and accounts for what it does. -/
theorem evaluate (henv : env.SparesScopes) (source : Text) :
    Mirrored env audited c (Evaluation.record c source) (Evaluation.record c source) := by
  intro live r s hc hl ha
  obtain ⟨hout, hagree, hreach⟩ :=
    Program.isolated_evaluateText henv c source live r.world s.world hc hl ha
  rw [Evaluation.record, Recorded.run'_lift, Recorded.run'_lift]
  refine ⟨hout.symm, hagree, hreach.frame, _, _, rfl, rfl, ?_, ?_, fun _ => ?_⟩
  · rw [List.map_singleton, List.map_singleton, Evaluation.report, Evaluation.report, hout]
  · intro e he
    rw [List.mem_singleton.1 he]
    exact .inl rfl
  · rw [Evaluation.Account, if_pos rfl]
    exact ⟨rfl, hreach.steps, rfl⟩

/-- The block of a scope inside `c`, on its way: `c` and the scope of the block may change. -/
def Within (env : Env) (audited : Prop) (c inner : ScopeId) {α : Type}
    (a b : Recorded Evaluation α) : Prop :=
  ∀ (live : ScopeId → Prop) (r s : Record Evaluation),
    live c → (∀ d, live d → d < inner) → r.world.Encloses live →
      r.world.Encloses (fun d => live d ∨ d = inner) →
        r.world.AgreesOn (fun d => live d ∨ d = inner) s.world →
          Mirrors audited c live (fun d => d = c ∨ d = inner) r s (Recorded.run' env r a)
            (Recorded.run' env s b)

/-- A step of the block in the scope that was made for it. -/
theorem Within.bind {inner : ScopeId} {a b : Recorded Evaluation α}
    {f g : α → Recorded Evaluation β} (h : Mirrored env False inner a b)
    (hf : ∀ x, Within env audited c inner (f x) (g x)) :
    Within env audited c inner (a >>= f) (b >>= g) := by
  intro live r s hc hlt hlive hl ha
  have hne : c ≠ inner := Nat.ne_of_lt (hlt c hc)
  have hc' := hlive.lt c hc
  have hstep := h _ r s (.inr rfl) hl ha
  have hfirst : Mirrors audited c live (fun d => d = c ∨ d = inner) r s
      (Recorded.run' env r a) (Recorded.run' env s b) := by
    obtain ⟨added, added', hadded, hadded', hsame, hscopes, -⟩ := hstep.events
    refine ⟨hstep.outcome, hstep.agrees.mono fun _ => .inl, hstep.frame.mono fun _ _ => .inr,
      added, added', hadded, hadded', hsame, fun e he => (hscopes e he).imp_left .inr, fun _ => ?_⟩
    rw [hstep.frame.bindings c hc' hne]
    refine .of_others fun e he hec => ?_
    rcases hscopes e he with hei | hew
    · exact hne (hec.symm.trans hei)
    · exact Nat.not_lt_of_le hew (hec ▸ hc')
  refine hfirst.bind fun x r' s' hr hs => ?_
  rw [hr, hs] at hstep
  exact hf x live r' s' hc hlt (hstep.frame.encloses hlive) (hstep.frame.encloses hl)
    hstep.agrees

/-- The end of the block: in one of the records its scopes are overwritten, and `c` goes on. -/
theorem Within.leave {inner : ScopeId} {a b : Recorded Evaluation α}
    (h : Mirrored env audited c a b) (junk : World → ScopeId → Properties) :
    Within env audited c inner (Recorded.silent (modify id) >>= fun _ => a)
      (Recorded.silent (modify fun w => w.forget inner (junk w)) >>= fun _ => b) := by
  intro live r s hc hlt hlive _ ha
  rw [Recorded.run'_bind, Recorded.run'_silent, M.run'_modify, Recorded.run'_bind,
    Recorded.run'_silent, M.run'_modify]
  have hrest := h live r ⟨s.world.forget inner (junk s.world), s.events⟩ hc hlive
    ((ha.mono fun _ => .inl).forget hlt _)
  obtain ⟨added, added', hadded, hadded', hsame, hscopes, haccount⟩ := hrest.events
  exact ⟨hrest.outcome, hrest.agrees, hrest.frame.mono fun _ _ => .inl, added, added', hadded,
    hadded', hsame, fun e he => (hscopes e he).imp_left .inl, haccount⟩

/-- A block: a scope is made inside `c`, and left in the end. -/
theorem block {f g : ScopeId → Recorded Evaluation α}
    (h : ∀ inner, Within env audited c inner (f inner) (g inner)) :
    Mirrored env audited c (Recorded.silent (Scope.create (some c)) >>= f)
      (Recorded.silent (Scope.create (some c)) >>= g) := by
  intro live r s hc hl ha
  have hframe : r.world.Frame (· = c) (r.world.withScope c) := World.frame_withScope _
  have hcreate (w : World) :
      M.run' env w (Scope.create (some c)) = (.ok w.scopes.size, w.withScope c) := rfl
  rw [Recorded.run'_bind, Recorded.run'_silent, hcreate, Recorded.run'_bind,
    Recorded.run'_silent, hcreate, ← ha.size]
  have hblock := h r.world.scopes.size live ⟨r.world.withScope c, r.events⟩
    ⟨s.world.withScope c, s.events⟩ hc hl.lt (hframe.encloses hl) (hl.withScope hc)
    (ha.withScope hl.lt c)
  have hchanged := (World.frame_withScope _).trans hblock.frame
  obtain ⟨added, added', hadded, hadded', hsame, hscopes, haccount⟩ := hblock.events
  refine ⟨hblock.outcome, hblock.agrees,
    hchanged.mono fun d hd hdc => hdc.resolve_right (Nat.ne_of_lt hd), added, added', hadded,
    hadded', hsame, ?_, ?_⟩
  · intro e he
    rcases hscopes e he with (hec | hei) | hew
    · exact .inl hec
    · exact .inr (Nat.le_of_eq hei.symm)
    · exact .inr (Nat.le_trans hframe.size hew)
  · rwa [World.bindings_withScope_of_lt (hl.lt c hc)] at haccount

end Mirrored

end PageTemplate
