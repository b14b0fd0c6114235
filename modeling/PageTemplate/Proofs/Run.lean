import PageTemplate.Value.Store

/-!
# PageTemplate.Proofs.Run

Running actions: what an action that is put together from others yields, and what the actions on
the store do to it.
-/

namespace PageTemplate

namespace M

variable {α β : Type} {env : Env} {w : World}

@[simp] theorem run'_pure (a : α) : run' env w (pure a) = (.ok a, w) := rfl

@[simp] theorem run'_throw (f : Fault) : run' env w (throw f : M α) = (.error f, w) := rfl

@[simp] theorem run'_failLibrary (k : ErrorKind) :
    run' env w (failLibrary k : M α) = (.error (.library k), w) := rfl

@[simp] theorem run'_typeError :
    run' env w (typeError : M α) = (.error (.library .typeError), w) := rfl

@[simp] theorem run'_get : run' env w get = (.ok w, w) := rfl

@[simp] theorem run'_set (w' : World) : run' env w (set w' : M Unit) = (.ok (), w') := rfl

@[simp] theorem run'_modify (f : World → World) :
    run' env w (modify f : M Unit) = (.ok (), f w) := rfl

@[simp] theorem run'_read : run' env w read = (.ok env, w) := rfl

@[simp] theorem run'_liftExcept (r : Except Fault α) : run' env w (liftM r : M α) = (r, w) := by
  cases r <;> rfl

@[simp] theorem run'_call (f : Fn) (this : Value) (arguments : List Value) :
    run' env w (call f this arguments) = StateT.run (ExceptT.run (env.apply f this arguments)) w :=
  rfl

/-- What follows an action is run where it ends, unless it fails. -/
theorem run'_bind (x : M α) (f : α → M β) :
    run' env w (x >>= f) =
      match run' env w x with
      | (.ok a, w') => run' env w' (f a)
      | (.error e, w') => (.error e, w') := by
  simp only [run', bind, ReaderT.bind, ReaderT.run, ExceptT.bind, ExceptT.mk, ExceptT.run,
    StateT.bind, StateT.run]
  rcases x env w with ⟨a | e, w'⟩ <;> rfl

theorem run'_bind_ok {x : M α} {f : α → M β} {a : α} {w' : World}
    (h : run' env w x = (.ok a, w')) : run' env w (x >>= f) = run' env w' (f a) := by
  rw [run'_bind, h]

theorem run'_bind_error {x : M α} {f : α → M β} {e : Fault} {w' : World}
    (h : run' env w x = (.error e, w')) : run' env w (x >>= f) = (.error e, w') := by
  rw [run'_bind, h]

/-- When two actions in a row succeed, so does the first. -/
theorem run'_bind_eq_ok {x : M α} {f : α → M β} {b : β} {w'' : World} :
    run' env w (x >>= f) = (.ok b, w'') ↔
      ∃ a w', run' env w x = (.ok a, w') ∧ run' env w' (f a) = (.ok b, w'') := by
  rw [run'_bind]
  constructor
  · intro h
    split at h
    · rename_i a w' hx
      exact ⟨a, w', hx, h⟩
    · cases h
  · rintro ⟨a, w', hx, hf⟩
    rw [hx]
    exact hf

@[simp] theorem run'_map (f : α → β) (x : M α) :
    run' env w (f <$> x) =
      match run' env w x with
      | (.ok a, w') => (.ok (f a), w')
      | (.error e, w') => (.error e, w') := by
  rw [map_eq_pure_bind, run'_bind]
  rfl

/-- An action on each of some values that always succeeds and changes nothing. -/
theorem run'_mapM {f : α → M β} {g : α → β} {xs : List α}
    (h : ∀ x ∈ xs, run' env w (f x) = (.ok (g x), w)) :
    run' env w (xs.mapM f) = (.ok (xs.map g), w) := by
  induction xs with
  | nil => rfl
  | cons x xs ih =>
    rw [List.mapM_cons, run'_bind_ok (h x List.mem_cons_self),
      run'_bind_ok (ih fun y hy => h y (List.mem_cons_of_mem x hy))]
    rfl

/-- Selecting some values by an action that always succeeds and changes nothing. -/
theorem run'_filterM {f : α → M Bool} {ι : Type} {value : ι → α} {g : ι → Bool} {is : List ι}
    (h : ∀ i ∈ is, run' env w (f (value i)) = (.ok (g i), w)) :
    run' env w ((is.map value).filterM f) = (.ok ((is.filter g).map value), w) := by
  have key : ∀ (is : List ι) (done : List α),
      (∀ i ∈ is, run' env w (f (value i)) = (.ok (g i), w)) →
      run' env w ((is.map value).filterAuxM f done) =
        (.ok (((is.filter g).map value).reverse ++ done), w) := by
    intro is
    induction is with
    | nil => exact fun _ _ => rfl
    | cons i is ih =>
      intro done h
      rw [List.map_cons, List.filterAuxM, run'_bind_ok (h i List.mem_cons_self),
        ih _ fun j hj => h j (List.mem_cons_of_mem i hj)]
      cases hg : g i <;> simp [hg]
  rw [List.filterM, run'_bind_ok (key is [] h)]
  simp

theorem run'_tryCatch (x : M α) (handle : Fault → M α) :
    run' env w (tryCatch x handle) =
      match run' env w x with
      | (.ok a, w') => (.ok a, w')
      | (.error e, w') => run' env w' (handle e) := by
  simp only [run', tryCatch, tryCatchThe, MonadExceptOf.tryCatch, ReaderT.run, ExceptT.tryCatch,
    ExceptT.mk, ExceptT.run, StateT.bind, StateT.run, bind]
  rcases x env w with ⟨a | e, w'⟩ <;> rfl

/-- What is done finally is done whatever an action comes to. -/
theorem run'_tryFinally (x : M α) (last : M Unit) :
    run' env w (tryFinally x last) =
      match run' env w x with
      | (r, w') =>
        match run' env w' last with
        | (.ok _, w'') => (r, w'')
        | (.error e, w'') => (.error e, w'') := by
  simp only [run', tryFinally, tryFinally', ReaderT.run, ExceptT.run, ExceptT.mk, StateT.run, bind,
    StateT.bind, Functor.map, ExceptT.map, pure]
  rcases x env w with ⟨a | e, w'⟩ <;> dsimp only <;> rcases last env w' with ⟨e | a, w''⟩ <;> rfl

end M

/-- No function can be called. -/
def Env.silent : Env := ⟨fun _ _ _ => throw (.library .typeError)⟩

/-- The store without anything in it. -/
def World.blank : World := ⟨#[], #[], [], [], []⟩

namespace World

/-- The object at a place. -/
def cell (w : World) (id : ObjectId) : Cell := w.cells.getD id default

/-- The store with another object at a place. -/
def setCell (w : World) (id : ObjectId) (c : Cell) : World :=
  { w with cells := w.cells.setIfInBounds id c }

/-- The store with more objects. -/
def allocAll (w : World) (cells : List Cell) : World :=
  { w with cells := w.cells ++ cells.toArray }

theorem cell_of_getElem? {w : World} {id : ObjectId} {c : Cell} (h : w.cells[id]? = some c) :
    w.cell id = c := by
  simp [cell, h]

theorem lt_of_getElem? {w : World} {id : ObjectId} {c : Cell} (h : w.cells[id]? = some c) :
    id < w.cells.size := by
  obtain ⟨hlt, _⟩ := Array.getElem?_eq_some_iff.1 h
  exact hlt

theorem setCell_self {w : World} {id : ObjectId} (c : Cell) (h : id < w.cells.size) :
    (w.setCell id c).cells[id]? = some c := by
  simp [setCell, h]

theorem setCell_other {w : World} {id other : ObjectId} (c : Cell) (h : other ≠ id) :
    (w.setCell id c).cells[other]? = w.cells[other]? := by
  simp [setCell, Array.getElem?_setIfInBounds_ne h.symm]

@[simp] theorem size_setCell (w : World) (id : ObjectId) (c : Cell) :
    (w.setCell id c).cells.size = w.cells.size := by
  simp [setCell]

@[simp] theorem size_allocAll (w : World) (cells : List Cell) :
    (w.allocAll cells).cells.size = w.cells.size + cells.length := by
  simp [allocAll]

theorem allocAll_old {w : World} {id : ObjectId} (cells : List Cell) (h : id < w.cells.size) :
    (w.allocAll cells).cells[id]? = w.cells[id]? := by
  simp [allocAll, Array.getElem?_append_left h]

@[simp] theorem allocAll_nil (w : World) : w.allocAll [] = w := by
  simp [allocAll]

theorem allocAll_append (w : World) (cells more : List Cell) :
    (w.allocAll cells).allocAll more = w.allocAll (cells ++ more) := by
  simp [allocAll]

theorem allocAll_new (w : World) (cells : List Cell) (i : Nat) :
    (w.allocAll cells).cells[w.cells.size + i]? = cells[i]? := by
  simp [allocAll, Array.getElem?_append_right]

end World

namespace Store

variable {env : Env} {w : World}

@[simp] theorem run'_cell (id : ObjectId) : M.run' env w (cell id) = (.ok (w.cell id), w) := rfl

@[simp] theorem run'_setCell (id : ObjectId) (c : Cell) :
    M.run' env w (setCell id c) = (.ok (), w.setCell id c) := rfl

@[simp] theorem run'_allocAll (cells : ObjectId → List Cell) :
    M.run' env w (allocAll cells) =
      (.ok w.cells.size, w.allocAll (cells w.cells.size)) := rfl

@[simp] theorem run'_alloc (c : Cell) :
    M.run' env w (alloc c) = (.ok w.cells.size, w.allocAll [c]) := by
  have : w.cells.push c = w.cells ++ [c].toArray := by simp
  simp only [World.allocAll, ← this]
  rfl

@[simp] theorem run'_depth : M.run' env w depth = (.ok (w.cells.size + 1), w) := rfl

end Store

end PageTemplate
