import PageTemplate.Proofs.Run

/-!
# PageTemplate.Proofs.Respect.Basic

Actions that respect a relation between stores: from related stores they come to the same outcome
and to related stores. An action that is put together from others respects what its parts respect,
so that a relation has to be checked for the steps that touch the store and for nothing else.

With the diagonal of a predicate for a relation, this says that the predicate is kept.
-/

namespace PageTemplate

/-- Stores that are alike for everything that looks at objects, also after a step that adds objects,
says something or calls a function. -/
class KeptByReads (env : Env) (S : World → World → Prop) : Prop where
  cells {w v : World} : S w v → w.cells = v.cells
  joining {w v : World} : S w v → w.joining = v.joining
  alloc {w v : World} (cells : List Cell) : S w v → S (w.allocAll cells) (v.allocAll cells)
  log {w v : World} (line : Text) : S w v →
    S { w with log := line :: w.log } { v with log := line :: v.log }
  warn {w v : World} (line : Text) : S w v →
    S { w with warnings := line :: w.warnings } { v with warnings := line :: v.warnings }
  join {w v : World} (ids : List ObjectId) : S w v →
    S { w with joining := ids } { v with joining := ids }
  call {w v : World} (f : Fn) (this : Value) (arguments : List Value) : S w v →
    (M.run' env w (M.call f this arguments)).1 = (M.run' env v (M.call f this arguments)).1 ∧
      S (M.run' env w (M.call f this arguments)).2 (M.run' env v (M.call f this arguments)).2

/-- Stores that are alike also after a step that changes an object. -/
class KeptByWrites (env : Env) (S : World → World → Prop) : Prop extends KeptByReads env S where
  set {w v : World} (id : ObjectId) (c : Cell) : S w v → S (w.setCell id c) (v.setCell id c)

/-- From related stores the action comes to the same outcome and to related stores. -/
def Respects (env : Env) (S : World → World → Prop) {α : Type} (action : M α) : Prop :=
  ∀ w v, S w v → (M.run' env w action).1 = (M.run' env v action).1 ∧
    S (M.run' env w action).2 (M.run' env v action).2

variable {env : Env} {S : World → World → Prop} {α β : Type}

namespace Respects

@[grind ←] theorem pure (a : α) : Respects env S (pure a : M α) := fun _ _ h => ⟨rfl, h⟩

@[grind ←] theorem throw (f : Fault) : Respects env S (throw f : M α) := fun _ _ h => ⟨rfl, h⟩

@[grind ←] theorem failLibrary (k : ErrorKind) : Respects env S (M.failLibrary k : M α) :=
  throw _

@[grind ←] theorem typeError : Respects env S (M.typeError : M α) := throw _

/-- Nothing follows a failure. -/
theorem typeError_bind (f : α → M β) : Respects env S (M.typeError >>= f) :=
  fun _ _ h => ⟨rfl, h⟩

@[grind ←] theorem liftExcept (r : Except Fault α) : Respects env S (liftM r : M α) := by
  intro w v h
  rw [M.run'_liftExcept, M.run'_liftExcept]
  exact ⟨rfl, h⟩

@[grind ←] theorem bind {x : M α} {f : α → M β} (hx : Respects env S x)
    (hf : ∀ a, Respects env S (f a)) : Respects env S (x >>= f) := by
  intro w v h
  obtain ⟨hout, hrel⟩ := hx w v h
  rw [M.run'_bind, M.run'_bind]
  rcases hw : M.run' env w x with ⟨e | a, w'⟩ <;>
    rcases hv : M.run' env v x with ⟨e' | a', v'⟩ <;> rw [hw, hv] at hout hrel <;> cases hout
  · exact ⟨rfl, hrel⟩
  · exact hf a w' v' hrel

theorem ite {p : Prop} [Decidable p] {x y : M α} (hx : Respects env S x)
    (hy : Respects env S y) : Respects env S (if p then x else y) := by
  split
  · exact hx
  · exact hy

/-- An action after a check. -/
theorem check {p : Prop} [Decidable p] {x : M PUnit} {f : PUnit → M β} (hx : Respects env S x)
    (hf : Respects env S (f ())) : Respects env S (if p then x >>= f else f ()) := by
  split
  · exact hx.bind fun _ => hf
  · exact hf

@[grind ←] theorem map {x : M α} (f : α → β) (hx : Respects env S x) :
    Respects env S (f <$> x) := by
  rw [map_eq_pure_bind]
  exact hx.bind fun a => .pure (f a)

@[grind ←] theorem discard {x : M α} (hx : Respects env S x) : Respects env S (discard x) :=
  hx.map _

@[grind ←] theorem tryCatch {x : M α} {handle : Fault → M α} (hx : Respects env S x)
    (hh : ∀ e, Respects env S (handle e)) : Respects env S (tryCatch x handle) := by
  intro w v h
  obtain ⟨hout, hrel⟩ := hx w v h
  rw [M.run'_tryCatch, M.run'_tryCatch]
  rcases hw : M.run' env w x with ⟨e | a, w'⟩ <;>
    rcases hv : M.run' env v x with ⟨e' | a', v'⟩ <;> rw [hw, hv] at hout hrel <;> cases hout
  · exact hh e w' v' hrel
  · exact ⟨rfl, hrel⟩

@[grind ←] theorem tryFinally {x : M α} {last : M Unit} (hx : Respects env S x)
    (hl : Respects env S last) : Respects env S (tryFinally x last) := by
  intro w v h
  obtain ⟨hout, hrel⟩ := hx w v h
  rw [M.run'_tryFinally, M.run'_tryFinally]
  rcases hw : M.run' env w x with ⟨r, w'⟩
  rcases hv : M.run' env v x with ⟨r', v'⟩
  rw [hw, hv] at hout hrel
  cases hout
  obtain ⟨hout, hrel⟩ := hl w' v' hrel
  dsimp only
  rcases hw : M.run' env w' last with ⟨e | a, w''⟩ <;>
    rcases hv : M.run' env v' last with ⟨e' | a', v''⟩ <;> rw [hw, hv] at hout hrel <;> cases hout
  · exact ⟨rfl, hrel⟩
  · exact ⟨rfl, hrel⟩

/-! Lists. -/

@[grind ←] theorem mapM {f : α → M β} (hf : ∀ a, Respects env S (f a)) (as : List α) :
    Respects env S (as.mapM f) := by
  induction as with
  | nil =>
    rw [List.mapM_nil]
    exact .pure []
  | cons a as ih =>
    rw [List.mapM_cons]
    exact (hf a).bind fun b => ih.bind fun bs => .pure (b :: bs)

@[grind ←] theorem forM {f : α → M PUnit} (hf : ∀ a, Respects env S (f a)) (as : List α) :
    Respects env S (as.forM f) := by
  induction as with
  | nil => exact .pure _
  | cons a as ih => exact (hf a).bind fun _ => ih

@[grind ←] theorem foldlM {f : β → α → M β} (hf : ∀ b a, Respects env S (f b a)) (as : List α)
    (b : β) : Respects env S (as.foldlM f b) := by
  induction as generalizing b with
  | nil => exact .pure b
  | cons a as ih => exact (hf b a).bind fun b => ih b

@[grind ←] theorem filterM {f : α → M Bool} (hf : ∀ a, Respects env S (f a)) (as : List α) :
    Respects env S (as.filterM f) := by
  have aux : ∀ kept, Respects env S (as.filterAuxM f kept) := by
    induction as with
    | nil => exact fun kept => .pure kept
    | cons a as ih => exact fun kept => (hf a).bind fun _ => ih _
  exact (aux []).bind fun kept => .pure kept.reverse

@[grind ←] theorem call [KeptByReads env S] (f : Fn) (this : Value) (arguments : List Value) :
    Respects env S (M.call f this arguments) := fun _ _ h => KeptByReads.call f this arguments h

end Respects

/-! The store. -/

theorem World.cell_eq {w v : World} (h : w.cells = v.cells) (id : ObjectId) :
    w.cell id = v.cell id := by
  rw [cell, cell, h]

namespace Store

section Reads

variable [KeptByReads env S] {c : Cell} {id : ObjectId} {v : Value} {items : List Value}
  {entries : List (Value × Value)} {properties : Properties} {places : Places}
  {length start count : Nat}

@[grind ←] theorem respects_cell : Respects env S (cell id) := by
  intro w v h
  rw [run'_cell, run'_cell, World.cell_eq (KeptByReads.cells env h)]
  exact ⟨rfl, h⟩

@[grind ←] theorem respects_depth : Respects env S depth := by
  intro w v h
  rw [run'_depth, run'_depth, KeptByReads.cells env h]
  exact ⟨rfl, h⟩

@[grind ←] theorem respects_allocAll (cells : ObjectId → List Cell) :
    Respects env S (allocAll cells) := by
  intro w v h
  rw [run'_allocAll, run'_allocAll, KeptByReads.cells env h]
  exact ⟨rfl, KeptByReads.alloc env _ h⟩

@[grind ←] theorem respects_alloc : Respects env S (alloc c) := by
  intro w v h
  rw [run'_alloc, run'_alloc, KeptByReads.cells env h]
  exact ⟨rfl, KeptByReads.alloc env _ h⟩

@[grind ←] theorem respects_log (line : Text) : Respects env S (log line) :=
  fun _ _ h => ⟨rfl, KeptByReads.log env line h⟩

@[grind ←] theorem respects_warn (line : Text) : Respects env S (warn line) :=
  fun _ _ h => ⟨rfl, KeptByReads.warn env line h⟩

@[grind ←] theorem respects_isJoining : Respects env S (isJoining id) := by
  intro w v h
  refine ⟨?_, h⟩
  show Except.ok (w.joining.contains id) = Except.ok (v.joining.contains id)
  rw [KeptByReads.joining env h]

theorem respects_join (f : List ObjectId → List ObjectId) :
    Respects env S (modify fun w => { w with joining := f w.joining } : M Unit) := by
  intro w v h
  rw [M.run'_modify, M.run'_modify, KeptByReads.joining env h]
  exact ⟨rfl, KeptByReads.join env _ h⟩

@[grind ←] theorem respects_whileJoining {α : Type} {action : M α} (h : Respects env S action) :
    Respects env S (whileJoining id action) := by
  exact (respects_join (id :: ·)).bind fun _ => h.tryFinally (respects_join (·.drop 1))

@[grind ←] theorem respects_newRecord : Respects env S (newRecord properties) := by
  unfold newRecord
  exact respects_alloc.bind fun a => .pure _

@[grind ←] theorem respects_newArray : Respects env S (newArray items) := by
  unfold newArray
  exact respects_alloc.bind fun a => .pure _

@[grind ←] theorem respects_newMap : Respects env S (newMap entries) := by
  unfold newMap
  exact respects_alloc.bind fun a => .pure _

@[grind ←] theorem respects_newSet : Respects env S (newSet items) := by
  unfold newSet
  exact respects_alloc.bind fun a => .pure _

@[grind ←] theorem respects_arrayItems? : Respects env S (arrayItems? v) := by
  unfold arrayItems?
  cases v with
  | object =>
    refine respects_cell.bind fun cell => ?_
    cases cell <;> exact .pure _
  | _ => exact .pure _

@[grind ←] theorem respects_arrayLength? : Respects env S (arrayLength? v) := by
  unfold arrayLength?
  cases v with
  | object =>
    refine respects_cell.bind fun cell => ?_
    cases cell <;> exact .pure _
  | _ => exact .pure _

@[grind ←] theorem respects_isArray : Respects env S (isArray v) := by
  unfold isArray
  exact respects_arrayLength?.bind fun found => .pure _

@[grind ←] theorem respects_arrayPlaces? : Respects env S (arrayPlaces? v) := by
  unfold arrayPlaces?
  cases v with
  | object =>
    refine respects_cell.bind fun cell => ?_
    cases cell <;> exact .pure _
  | _ => exact .pure _

@[grind ←] theorem respects_newPlaces : Respects env S (newPlaces length places) := by
  unfold newPlaces
  refine .check (.failLibrary _) ?_
  exact respects_alloc.bind fun a => .pure _

@[grind ←] theorem respects_listedItems? : Respects env S (listedItems? v) := by
  unfold listedItems?
  refine respects_arrayItems?.bind fun found => ?_
  cases found with
  | none => exact respects_isArray.bind fun b => .ite (.failLibrary _) (.pure _)
  | some => exact .pure _

omit [KeptByReads env S] in
@[grind ←] theorem respects_positions : Respects env S (positions start count) := by
  unfold positions
  exact .ite (.failLibrary _) (.pure _)

end Reads

section Writes

variable [KeptByWrites env S] {c : Cell} {id : ObjectId} {items : List (Option Value)}

@[grind ←] theorem respects_setCell : Respects env S (setCell id c) :=
  fun _ _ h => ⟨rfl, KeptByWrites.set env id c h⟩

@[grind ←] theorem respects_setArrayItems : Respects env S (setArrayItems id items) := by
  unfold setArrayItems
  refine respects_cell.bind fun cell => ?_
  cases cell with
  | array => exact respects_setCell
  | _ => exact .typeError

end Writes

end Store

end PageTemplate
