import PageTemplate.Proofs.Respect.Basic

/-!
# PageTemplate.Proofs.Ensures

What an action ensures when it succeeds, and functions that spare some objects: whatever they do,
these stay as they are. An action can also read a store without regard to some places: whatever is
there, it yields the same and changes nothing.
-/

namespace PageTemplate

/-- Whether a store has all objects of another one, and the same ones at some places. -/
structure World.Keeps (kept : ObjectId → Prop) (w w' : World) : Prop where
  size : w.cells.size ≤ w'.cells.size
  cells : ∀ id, kept id → id < w.cells.size → w'.cells[id]? = w.cells[id]?

namespace World.Keeps

variable {kept : ObjectId → Prop} {w w' w'' : World}

theorem refl (w : World) : w.Keeps kept w := ⟨Nat.le_refl _, fun _ _ _ => rfl⟩

theorem trans (h : w.Keeps kept w') (h' : w'.Keeps kept w'') : w.Keeps kept w'' where
  size := Nat.le_trans h.size h'.size
  cells id hk hlt := (h'.cells id hk (Nat.lt_of_lt_of_le hlt h.size)).trans (h.cells id hk hlt)

theorem mono {more : ObjectId → Prop} (h : w.Keeps more w') (hm : ∀ id, kept id → more id) :
    w.Keeps kept w' where
  size := h.size
  cells id hk hlt := h.cells id (hm id hk) hlt

theorem of_cells (h : w'.cells = w.cells) : w.Keeps kept w' where
  size := Nat.le_of_eq (congrArg Array.size h.symm)
  cells id _ _ := by rw [h]

theorem allocAll (cells : List Cell) : w.Keeps kept (w.allocAll cells) where
  size := by
    rw [World.size_allocAll]
    exact Nat.le_add_right _ _
  cells _ _ hlt := World.allocAll_old cells hlt

end World.Keeps

/-- Whether a store differs from another one in nothing but what is at some places, and in new
objects. -/
structure World.DiffersAt (w : World) (P : ObjectId → Prop) (w' : World) : Prop
    extends w.Keeps (fun id => ¬ P id) w' where
  rest : w'.scopes = w.scopes ∧ w'.log = w.log ∧ w'.warnings = w.warnings ∧ w'.joining = w.joining

namespace World.DiffersAt

variable {w w' w'' : World} {P Q : ObjectId → Prop} {id : ObjectId}

theorem refl (w : World) (P : ObjectId → Prop) : w.DiffersAt P w := ⟨.refl w, rfl, rfl, rfl, rfl⟩

theorem trans (h : w.DiffersAt P w') (h' : w'.DiffersAt Q w'')
    (hQ : ∀ id, id < w.cells.size → Q id → P id) : w.DiffersAt P w'' where
  size := Nat.le_trans h.size h'.size
  cells id hid hlt := by
    rw [h'.cells id (fun hq => hid (hQ id hlt hq)) (Nat.lt_of_lt_of_le hlt h.size),
      h.cells id hid hlt]
  rest := by
    obtain ⟨a, b, c, d⟩ := h.rest
    obtain ⟨a', b', c', d'⟩ := h'.rest
    exact ⟨a'.trans a, b'.trans b, c'.trans c, d'.trans d⟩

theorem cell (h : w.DiffersAt P w') (hid : ¬ P id) (hlt : id < w.cells.size) :
    w'.cell id = w.cell id := by
  rw [World.cell, World.cell, Array.getD_eq_getD_getElem?, Array.getD_eq_getD_getElem?,
    h.cells id hid hlt]

end World.DiffersAt

/-- Whether an action reads something from a store without regard to some places: whatever is there,
it yields the same, and then there may be new objects but no others. -/
def M.Reads (env : Env) (w : World) (P : ObjectId → Prop) {α : Type} (action : M α) (a : α) :
    Prop :=
  ∀ w', w.DiffersAt P w' →
    ∃ w'', M.run' env w' action = (.ok a, w'') ∧ w'.DiffersAt (fun _ => False) w''

namespace M.Reads

variable {env : Env} {w : World} {P : ObjectId → Prop} {α : Type} {action : M α} {a b : α}

theorem of_run (h : ∀ w', w.DiffersAt P w' → M.run' env w' action = (.ok a, w')) :
    M.Reads env w P action a :=
  fun w' hw => ⟨w', h w' hw, .refl w' _⟩

theorem unique (h : M.Reads env w P action a) (h' : M.Reads env w P action b) : a = b := by
  obtain ⟨u, hu, _⟩ := h w (.refl w P)
  obtain ⟨u', hu', _⟩ := h' w (.refl w P)
  exact Except.ok.inj (Prod.mk.inj (hu.symm.trans hu')).1

end M.Reads

/-- No call changes the objects at some places. -/
def Env.Spares (env : Env) (kept : ObjectId → Prop) : Prop :=
  ∀ f this arguments (w : World), w.Keeps kept (M.run' env w (M.call f this arguments)).2

open Classical in
/-- The functions as long as they are not called on the objects at some places and do not change
them; calls that do fail. -/
noncomputable def Env.sparing (env : Env) (kept : ObjectId → Prop) : Env where
  apply f this arguments := ExceptT.mk fun (w : World) =>
    let result := M.run' env w (M.call f this arguments)
    if (∀ id, this = .object id → ¬ kept id) ∧ w.Keeps kept result.2 then result
    else (.error (.library .typeError), w)

open Classical in
theorem Env.sparing_spares (env : Env) (kept : ObjectId → Prop) :
    (env.sparing kept).Spares kept := by
  intro f this arguments w
  rw [M.run'_call]
  show w.Keeps kept (ite _ _ _ : Except Fault Value × World).2
  split
  · rename_i h
    exact h.2
  · exact .of_cells rfl

/-- Calls on the objects at some places fail. -/
def Env.Shuns (env : Env) (kept : ObjectId → Prop) : Prop :=
  ∀ f id arguments (w : World), kept id →
    ∃ e, M.run' env w (M.call f (.object id) arguments) = (.error e, w)

open Classical in
theorem Env.sparing_shuns (env : Env) (kept : ObjectId → Prop) :
    (env.sparing kept).Shuns kept := by
  intro f id arguments w hk
  refine ⟨.library .typeError, ?_⟩
  rw [M.run'_call]
  show (ite _ _ _ : Except Fault Value × World) = _
  rw [if_neg fun h => h.1 id rfl hk]

open Classical in
/-- Without functions there is nothing to be spared. -/
theorem Env.sparing_silent (kept : ObjectId → Prop) : Env.silent.sparing kept = Env.silent := by
  refine congrArg Env.mk (funext fun f => funext fun this => funext fun arguments => ?_)
  refine funext fun w => ?_
  show (ite _ _ _ : Except Fault Value × World) = (.error (.library .typeError), w)
  split <;> rfl

/-- From a store with a property, whenever the action succeeds, its outcome and the store after it
have another one. -/
def Ensures (env : Env) (P : World → Prop) {α : Type} (action : M α) (Q : α → World → Prop) : Prop :=
  ∀ w, P w → ∀ a w', M.run' env w action = (.ok a, w') → Q a w'

namespace Ensures

variable {env : Env} {P P' : World → Prop} {α β : Type} {Q Q' : α → World → Prop}

theorem pure {a : α} (h : ∀ w, P w → Q a w) : Ensures env P (pure a : M α) Q := by
  intro w hw b w' hr
  cases hr
  exact h w hw

theorem throw (f : Fault) : Ensures env P (throw f : M α) Q := by
  intro w _ a w' hr
  cases hr

theorem typeError : Ensures env P (M.typeError : M α) Q := throw _

theorem bind {x : M α} {f : α → M β} {R : β → World → Prop} (hx : Ensures env P x Q)
    (hf : ∀ a, Ensures env (Q a) (f a) R) : Ensures env P (x >>= f) R := by
  intro w hw b w' hr
  obtain ⟨a, v, hx', hf'⟩ := M.run'_bind_eq_ok.1 hr
  exact hf a v (hx w hw a v hx') b w' hf'

theorem throw_bind (e : Fault) (f : α → M β) {R : β → World → Prop} :
    Ensures env P ((MonadExcept.throw e : M α) >>= f) R := by
  intro w _ b w' hr
  rw [M.run'_bind_error (M.run'_throw e)] at hr
  cases hr

/-- An action that comes to a known outcome and changes nothing, before another one. -/
theorem bind_run {x : M α} {f : α → M β} {a : α} {R : β → World → Prop}
    (h : ∀ w, P w → M.run' env w x = (.ok a, w)) (hf : Ensures env P (f a) R) :
    Ensures env P (x >>= f) R := by
  intro w hw b w' hr
  rw [M.run'_bind_ok (h w hw)] at hr
  exact hf w hw b w' hr

theorem imp {action : M α} (h : Ensures env P action Q) (hq : ∀ a w, Q a w → Q' a w) :
    Ensures env P action Q' :=
  fun w hw a w' hr => hq a w' (h w hw a w' hr)

theorem of_imp {action : M α} (h : Ensures env P action Q) (hp : ∀ w, P' w → P w) :
    Ensures env P' action Q :=
  fun w hw a w' hr => h w (hp w hw) a w' hr

theorem ite {p : Prop} [Decidable p] {x y : M α} (hx : p → Ensures env P x Q)
    (hy : ¬ p → Ensures env P y Q) : Ensures env P (if p then x else y) Q := by
  split
  · exact hx ‹_›
  · exact hy ‹_›

/-- What is known before and has nothing to do with the store. -/
theorem pre {p : Prop} {action : M α} (h : p → Ensures env P action Q) :
    Ensures env (fun w => P w ∧ p) action Q :=
  fun w hw a w' hr => h hw.2 w hw.1 a w' hr

theorem always (action : M α) : Ensures env P action fun _ _ => True :=
  fun _ _ _ _ _ => trivial

/-- A property that each of several actions keeps. -/
theorem forM {f : α → M PUnit} {xs : List α} (h : ∀ x ∈ xs, Ensures env P (f x) fun _ => P) :
    Ensures env P (xs.forM f) fun _ => P := by
  induction xs with
  | nil => exact .pure fun _ hw => hw
  | cons x xs ih =>
    exact (h x List.mem_cons_self).bind fun _ => ih fun y hy => h y (List.mem_cons_of_mem x hy)

/-- A property of what each of several actions comes to. -/
theorem mapM {f : α → M β} {xs : List α} {R : β → Prop}
    (h : ∀ x ∈ xs, Ensures env P (f x) fun y w => P w ∧ R y) :
    Ensures env P (xs.mapM f) fun ys w => P w ∧ ∀ y ∈ ys, R y := by
  induction xs with
  | nil => exact .pure fun _ hw => ⟨hw, by simp⟩
  | cons x xs ih =>
    rw [List.mapM_cons]
    refine (h x List.mem_cons_self).bind fun y => ?_
    refine .pre fun hy => (ih fun z hz => h z (List.mem_cons_of_mem x hz)).bind fun ys => ?_
    refine .pre fun hys => .pure fun w hw => ⟨hw, ?_⟩
    exact List.forall_mem_cons.2 ⟨hy, hys⟩

/-- A property of stores that is kept when stores are related to themselves by it. -/
theorem of_respects {action : M α} (h : Respects env (fun w v => w = v ∧ P w) action) :
    Ensures env P action fun _ => P := by
  intro w hw a w' hr
  have := (h w w ⟨rfl, hw⟩).2.2
  rw [hr] at this
  exact this

end Ensures

end PageTemplate
