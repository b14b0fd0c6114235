import PageTemplate.Expr.Evaluate
import PageTemplate.Proofs.Run
import PageTemplate.Proofs.Text

/-!
# PageTemplate.Proofs.Expr.Access

The keys that the evaluator uses. The watched evaluator does what the evaluator does and records
every key with which it goes to an object, at the place where it does so. Without its records it is
the evaluator, and no key that it records is out of reach of expressions.
-/

namespace PageTemplate

/-- What a key is used for. -/
inductive KeyUse where
  /-- A property is read. -/
  | read
  /-- A method is looked up for a call. -/
  | method
  /-- A property is set, or an entry of a map. -/
  | write
  /-- A property of an object literal is stored. -/
  | store
  /-- The operator `in` looks for a key. -/
  | test
  deriving Repr, DecidableEq

structure Access where
  use : KeyUse
  key : Text
  deriving Repr, DecidableEq

/-- The key is neither among the properties out of reach nor begins with two underscores, and the
key of a method is not among the methods out of reach. -/
structure Access.IsAllowed (a : Access) : Prop where
  property : a.key ∉ Names.blockedProperties
  beginning : ¬ Text.ofString "__" <+: a.key
  method : a.use = .method → a.key ∉ Names.blockedMethods

namespace Names

theorem not_mem_of_isBlockedProperty {key : Text} (h : isBlockedProperty key = false) :
    key ∉ blockedProperties ∧ ¬ Text.ofString "__" <+: key := by
  simp only [isBlockedProperty, Bool.or_eq_false_iff] at h
  obtain ⟨hlist, hbeginning⟩ := h
  constructor
  · intro hmem
    simp [hmem] at hlist
  · intro hprefix
    rw [Text.startsWith, Option.isSome_eq_false_iff, Option.isNone_iff_eq_none] at hbeginning
    exact Text.afterPrefix_eq_none_iff.1 hbeginning hprefix

theorem not_mem_of_isBlockedMethod {key : Text} (h : isBlockedMethod key = false) :
    key ∉ blockedMethods ∧ isBlockedProperty key = false := by
  simp only [isBlockedMethod, Bool.or_eq_false_iff] at h
  refine ⟨fun hmem => ?_, h.2⟩
  simp [hmem] at h

end Names

theorem Access.isAllowed_of_property (use : KeyUse) {key : Text}
    (h : Names.isBlockedProperty key = false) (huse : use ≠ .method) :
    Access.IsAllowed ⟨use, key⟩ where
  property := (Names.not_mem_of_isBlockedProperty h).1
  beginning := (Names.not_mem_of_isBlockedProperty h).2
  method := fun hmethod => absurd hmethod huse

theorem Access.isAllowed_of_method {key : Text} (h : Names.isBlockedMethod key = false) :
    Access.IsAllowed ⟨.method, key⟩ := by
  obtain ⟨hmethod, hproperty⟩ := Names.not_mem_of_isBlockedMethod h
  obtain ⟨hlist, hbeginning⟩ := Names.not_mem_of_isBlockedProperty hproperty
  exact ⟨hlist, hbeginning, fun _ => hmethod⟩

/-- A store with the record of the keys used so far, the latest first. -/
structure Watch where
  world : World
  accesses : List Access

/-- An action that records the keys it uses. What it recorded before a failure stays recorded. -/
abbrev Watched := ReaderT Env (ExceptT Fault (StateM Watch))

namespace Watched

/-- Runs an action and yields its outcome, and the store and the record after it. -/
def run' {α : Type} (env : Env) (watch : Watch) (action : Watched α) : Except Fault α × Watch :=
  StateT.run (ExceptT.run (ReaderT.run action env)) watch

/-- An action of which nothing is recorded. -/
def unrecorded {α : Type} (action : M α) : Watched α := fun env watch =>
  match M.run' env watch.world action with
  | (r, w) => (r, { watch with world := w })

/-- Records the use of a key. -/
def note (use : KeyUse) (key : Text) : Watched Unit :=
  modify fun watch => { watch with accesses := ⟨use, key⟩ :: watch.accesses }

/-- The action does what `plain` does, with the same outcome and the same store, and adds only
allowed keys to the record. -/
def Follows {α : Type} (action : Watched α) (plain : M α) : Prop :=
  ∀ env watch,
    ((run' env watch action).1, (run' env watch action).2.world) = M.run' env watch.world plain ∧
    ∃ added, (run' env watch action).2.accesses = added ++ watch.accesses ∧
      ∀ a ∈ added, a.IsAllowed

variable {α β : Type}

theorem run'_bind (env : Env) (watch : Watch) (x : Watched α) (f : α → Watched β) :
    run' env watch (x >>= f) =
      match run' env watch x with
      | (.ok a, watch') => run' env watch' (f a)
      | (.error e, watch') => (.error e, watch') := by
  simp only [run', bind, ReaderT.bind, ReaderT.run, ExceptT.bind, ExceptT.mk, ExceptT.run,
    StateT.bind, StateT.run]
  rcases x env watch with ⟨a | e, watch'⟩ <;> rfl

namespace Follows

theorem pure (a : α) : Follows (Pure.pure a) (Pure.pure a) := by
  intro env watch
  exact ⟨rfl, [], rfl, by simp⟩

theorem unrecorded (plain : M α) : Follows (Watched.unrecorded plain) plain := by
  intro env watch
  exact ⟨rfl, [], rfl, by simp⟩

theorem bind {x : Watched α} {x' : M α} {f : α → Watched β} {f' : α → M β} (hx : Follows x x')
    (hf : ∀ a, Follows (f a) (f' a)) : Follows (x >>= f) (x' >>= f') := by
  intro env watch
  obtain ⟨hplain, added, hadded, hallowed⟩ := hx env watch
  rw [run'_bind, M.run'_bind, ← hplain]
  rcases hrun : run' env watch x with ⟨a | a, watch'⟩
  · rw [hrun] at hadded
    exact ⟨rfl, added, hadded, hallowed⟩
  · rw [hrun] at hadded
    obtain ⟨hrest, more, hmore, hmoreAllowed⟩ := hf a env watch'
    refine ⟨hrest, more ++ added, ?_, ?_⟩
    · rw [List.append_assoc, ← hadded]
      exact hmore
    · intro access hmem
      rcases List.mem_append.1 hmem with hmem | hmem
      · exact hmoreAllowed access hmem
      · exact hallowed access hmem

/-- A use of an allowed key, before an action that is not recorded itself. -/
theorem note {use : KeyUse} {key : Text} {action : Watched α} {plain : M α}
    (hallowed : Access.IsAllowed ⟨use, key⟩) (h : Follows action plain) :
    Follows (Watched.note use key >>= fun _ => action) plain := by
  intro env watch
  obtain ⟨hplain, added, hadded, hrest⟩ :=
    h env { watch with accesses := ⟨use, key⟩ :: watch.accesses }
  refine ⟨hplain, added ++ [⟨use, key⟩], ?_, ?_⟩
  · rw [List.append_assoc]
    exact hadded
  · intro access hmem
    rcases List.mem_append.1 hmem with hmem | hmem
    · exact hrest access hmem
    · rw [List.mem_singleton.1 hmem]
      exact hallowed

end Follows

end Watched

namespace Expr

open Watched

variable (s : Site)

/-- The value of a property. -/
def readMemberWatched (object : Value) (key : Text) : Watched Value := do
  if Names.isBlockedProperty key then
    unrecorded (warnBlocked "access to unsafe property" key)
    return .undefined
  else
    note .read key
    unrecorded (Property.get object key)

/-- Whether a key is in an object. -/
def isWithinWatched (key container : Value) : Watched Value := do
  match container with
  | .object id =>
    let name ← unrecorded (Convert.display key)
    if Names.isBlockedProperty name then
      unrecorded (s.reject ("cannot check unsafe property " ++ inQuotes name))
    match ← unrecorded (Store.cell id) with
    | .map entries =>
      note .test name
      return .bool (entries.has (.text name))
    | _ =>
      if ← unrecorded (Present.isOf .map container) then
        note .test name
        unrecorded (Convert.invoke container "has" [.text name])
      else
        note .test name
        return .bool (← unrecorded (Property.has container name))
  | v => unrecorded (s.reject ("cannot use \"in\" on " ++ kindName v))

def applyBinaryWatched (op : BinaryOp) (v w : Value) : Watched Value :=
  match op with
  | .within => isWithinWatched s v w
  | op => unrecorded (applyBinary s op v w)

/-- Sets a property of a value. -/
def writeMemberWatched (object : Value) (key : Text) (value : Value) : Watched Unit := do
  match object with
  | .object id =>
    if Names.isBlockedProperty key then
      unrecorded (s.reject ("cannot assign to " ++ inQuotes key))
    match ← unrecorded (Store.cell id) with
    | .map entries =>
      note .write key
      unrecorded (Store.setCell id (.map (entries.put (.text key) value)))
    | .array .. | .sparseArray .. =>
      let value ←
        if key == Text.ofString "length" then unrecorded (.ofNat <$> arrayLength value)
        else pure value
      note .write key
      unrecorded (discard (Property.set id key value))
    | _ =>
      if ← unrecorded (Present.isOf .map object) then
        note .write key
        unrecorded (discard (Convert.invoke object "set" [.text key, value]))
      else
        note .write key
        if !(← unrecorded (Property.set id key value)) then
          unrecorded (s.reject ("cannot set " ++ inQuotes key))
  | v => unrecorded (s.reject ("cannot set " ++ inQuotes key ++ " on " ++ kindName v))

/-- The method of a receiver; `none` for one that is blocked. -/
def methodWatched? (receiver : Value) (key : Text) : Watched (Option Value) := do
  if receiver.isNullish then
    let name ← unrecorded (Convert.toText receiver)
    unrecorded (s.reject ("cannot call " ++ inQuotes key ++ " on " ++ name))
  if Names.isBlockedMethod key then
    unrecorded (warnBlocked "call to unsafe method" key)
    return none
  else
    note .method key
    return some (← unrecorded (Property.get receiver key))

mutual

/-- The value of an expression. -/
def evaluateWatched : Expr → Watched Value
  | .literal l => return l.value
  | .name n => unrecorded (lookup s n)
  | .member holder property => do
    let o ← evaluateWatched holder
    if o.isNullish then return .undefined
    readMemberWatched o (← unrecorded (keyText s (← evaluateWatched property)))
  | .call (.member holder property) arguments => do
    let receiver ← evaluateWatched holder
    let key ← unrecorded (keyText s (← evaluateWatched property))
    match ← methodWatched? s receiver key with
    | none => return .undefined
    | some f => do
      let f ← unrecorded (callee s f key)
      let arguments ← evaluateAllWatched arguments
      unrecorded (M.call f receiver arguments)
  | .call f arguments => do
    let f ← unrecorded (callee s (← evaluateWatched f) (label f))
    let arguments ← evaluateAllWatched arguments
    unrecorded (M.call f .undefined arguments)
  | .unary op operand => do
    let v ← evaluateWatched operand
    unrecorded (applyUnary op v)
  | .binary op left right => do
    let v ← evaluateWatched left
    if ← unrecorded (settles op v) then return v
    applyBinaryWatched s op v (← evaluateWatched right)
  | .ternary condition consequent alternate => do
    let v ← evaluateWatched condition
    if ← unrecorded (Present.toBool v) then evaluateWatched consequent
    else evaluateWatched alternate
  | .array elements => do
    let vs ← evaluateAllWatched elements
    unrecorded (Store.newArray vs)
  | .object properties => do
    let ps ← evaluatePropertiesWatched properties
    unrecorded (Store.newRecord (Assoc.ofList ps))
  | .assignName n value => do
    let v ← evaluateWatched value
    unrecorded (writeName s n v)
    return v
  | .assignMember holder property value => do
    let v ← evaluateWatched value
    let o ← evaluateWatched holder
    let key ← unrecorded (keyText s (← evaluateWatched property))
    writeMemberWatched s o key v
    return v

/-- The values of expressions in order. -/
def evaluateAllWatched : List Expr → Watched (List Value)
  | [] => return []
  | e :: es => do
    let v ← evaluateWatched e
    let vs ← evaluateAllWatched es
    return v :: vs

/-- The properties of an object literal. -/
def evaluatePropertiesWatched : List (Expr × Expr) → Watched Properties
  | [] => return []
  | (key, value) :: rest => do
    let name ← unrecorded (keyText s (← evaluateWatched key))
    if Names.isBlockedProperty name then
      unrecorded (warnBlocked "unsafe object key in literal" name)
      evaluatePropertiesWatched rest
    else
      let v ← evaluateWatched value
      note .store name
      let vs ← evaluatePropertiesWatched rest
      return (name, v) :: vs

end

/-- Nothing follows a rejected expression. -/
theorem follows_reject {α β : Type} (reason : Text) (f : α → Watched β) (f' : α → M β) :
    Follows (unrecorded (s.reject reason) >>= f) (s.reject reason >>= f') := by
  intro env watch
  exact ⟨rfl, [], rfl, by simp⟩

theorem readMember_follows (object : Value) (key : Text) :
    Follows (readMemberWatched object key) (readMember object key) := by
  unfold readMemberWatched readMember
  split
  · exact (Follows.unrecorded _).bind fun _ => Follows.pure _
  · rename_i h
    have hallowed := Access.isAllowed_of_property .read (by simpa using h) (by decide)
    exact Follows.note hallowed (Follows.unrecorded _)

theorem isWithin_follows (key container : Value) :
    Follows (isWithinWatched s key container) (isWithin s key container) := by
  unfold isWithinWatched isWithin
  cases container with
  | object id =>
    refine (Follows.unrecorded _).bind fun name => ?_
    split
    · exact follows_reject s _ _ _
    · rename_i h
      have hallowed := Access.isAllowed_of_property .test (by simpa using h) (by decide)
      refine (Follows.unrecorded _).bind fun c => ?_
      cases c with
      | map entries => exact Follows.note hallowed (Follows.pure _)
      | _ =>
        refine (Follows.unrecorded _).bind fun isMap => ?_
        split
        · exact Follows.note hallowed (Follows.unrecorded _)
        · exact Follows.note hallowed ((Follows.unrecorded _).bind fun _ => Follows.pure _)
  | _ => exact Follows.unrecorded _

theorem applyBinary_follows (op : BinaryOp) (v w : Value) :
    Follows (applyBinaryWatched s op v w) (applyBinary s op v w) := by
  cases op with
  | within => exact isWithin_follows s v w
  | _ => exact Follows.unrecorded _

theorem writeMember_follows (object : Value) (key : Text) (value : Value) :
    Follows (writeMemberWatched s object key value) (writeMember s object key value) := by
  unfold writeMemberWatched writeMember
  cases object with
  | object id =>
    simp only
    split
    · exact follows_reject s _ _ _
    · rename_i h
      have hallowed := Access.isAllowed_of_property .write (by simpa using h) (by decide)
      refine (Follows.unrecorded _).bind fun c => ?_
      have hset : ∀ v, Follows (do note .write key; unrecorded (discard (Property.set id key v)))
          (discard (Property.set id key v)) :=
        fun v => Follows.note hallowed (Follows.unrecorded _)
      cases c with
      | map entries => exact Follows.note hallowed (Follows.unrecorded _)
      | array items extra =>
        simp only
        split
        · exact (Follows.unrecorded _).bind fun v => hset v
        · exact (Follows.pure _).bind fun v => hset v
      | sparseArray length items extra =>
        simp only
        split
        · exact (Follows.unrecorded _).bind fun v => hset v
        · exact (Follows.pure _).bind fun v => hset v
      | _ =>
        refine (Follows.unrecorded _).bind fun isMap => ?_
        split
        · exact Follows.note hallowed (Follows.unrecorded _)
        · refine Follows.note hallowed ((Follows.unrecorded _).bind fun isSet => ?_)
          split
          · exact Follows.unrecorded _
          · exact Follows.pure _
  | _ => exact Follows.unrecorded _

theorem method_follows (receiver : Value) (key : Text) :
    Follows (methodWatched? s receiver key) (method? s receiver key) := by
  unfold methodWatched? method?
  split
  · split
    · exact (Follows.unrecorded _).bind fun name => follows_reject s _ _ _
    · exact (Follows.unrecorded _).bind fun _ => Follows.pure _
  · split
    · exact (Follows.unrecorded _).bind fun name => follows_reject s _ _ _
    · rename_i h _
      have hallowed := Access.isAllowed_of_method (by simpa using h)
      exact Follows.note hallowed ((Follows.unrecorded _).bind fun _ => Follows.pure _)

mutual

/-- The watched evaluator does what the evaluator does, by the recursion of both. -/
theorem evaluate_follows (e : Expr) : Follows (evaluateWatched s e) (evaluate s e) := by
  cases e with
  | literal l =>
    rw [evaluateWatched, evaluate]
    exact Follows.pure _
  | name n =>
    rw [evaluateWatched, evaluate]
    exact Follows.unrecorded _
  | member holder property =>
    rw [evaluateWatched, evaluate]
    refine (evaluate_follows holder).bind fun o => ?_
    split
    · exact Follows.pure _
    · refine (evaluate_follows property).bind fun v => (Follows.unrecorded _).bind fun key => ?_
      exact readMember_follows o key
  | call f arguments =>
    by_cases hf : ∃ holder property, f = .member holder property
    · obtain ⟨holder, property, rfl⟩ := hf
      rw [evaluateWatched, evaluate]
      refine (evaluate_follows holder).bind fun receiver => ?_
      refine (evaluate_follows property).bind fun v => (Follows.unrecorded _).bind fun key => ?_
      refine (method_follows s receiver key).bind fun m => ?_
      cases m with
      | none => exact Follows.pure _
      | some f =>
        refine (Follows.unrecorded _).bind fun f => ?_
        exact (evaluateAll_follows arguments).bind fun _ => Follows.unrecorded _
    · have hmember : ∀ holder property, f = .member holder property → False :=
        fun holder property h => hf ⟨holder, property, h⟩
      rw [evaluateWatched, evaluate]
      · refine (evaluate_follows f).bind fun v => (Follows.unrecorded _).bind fun f => ?_
        exact (evaluateAll_follows arguments).bind fun _ => Follows.unrecorded _
      · exact hmember
      · exact hmember
  | unary op operand =>
    rw [evaluateWatched, evaluate]
    exact (evaluate_follows operand).bind fun _ => Follows.unrecorded _
  | binary op left right =>
    rw [evaluateWatched, evaluate]
    refine (evaluate_follows left).bind fun v => (Follows.unrecorded _).bind fun settled => ?_
    split
    · exact Follows.pure _
    · exact (evaluate_follows right).bind fun w => applyBinary_follows s op v w
  | ternary condition consequent alternate =>
    rw [evaluateWatched, evaluate]
    refine (evaluate_follows condition).bind fun v => (Follows.unrecorded _).bind fun holds => ?_
    split
    · exact evaluate_follows consequent
    · exact evaluate_follows alternate
  | array elements =>
    rw [evaluateWatched, evaluate]
    exact (evaluateAll_follows elements).bind fun _ => Follows.unrecorded _
  | object properties =>
    rw [evaluateWatched, evaluate]
    exact (evaluateProperties_follows properties).bind fun _ => Follows.unrecorded _
  | assignName n value =>
    rw [evaluateWatched, evaluate]
    refine (evaluate_follows value).bind fun v => ?_
    exact (Follows.unrecorded _).bind fun _ => Follows.pure _
  | assignMember holder property value =>
    rw [evaluateWatched, evaluate]
    refine (evaluate_follows value).bind fun v => (evaluate_follows holder).bind fun o => ?_
    refine (evaluate_follows property).bind fun k => (Follows.unrecorded _).bind fun key => ?_
    exact (writeMember_follows s o key v).bind fun _ => Follows.pure _

theorem evaluateAll_follows (es : List Expr) :
    Follows (evaluateAllWatched s es) (evaluateAll s es) := by
  cases es with
  | nil =>
    rw [evaluateAllWatched, evaluateAll]
    exact Follows.pure _
  | cons e es =>
    rw [evaluateAllWatched, evaluateAll]
    refine (evaluate_follows e).bind fun v => (evaluateAll_follows es).bind fun vs => ?_
    exact Follows.pure _

theorem evaluateProperties_follows (ps : List (Expr × Expr)) :
    Follows (evaluatePropertiesWatched s ps) (evaluateProperties s ps) := by
  match ps with
  | [] =>
    rw [evaluatePropertiesWatched, evaluateProperties]
    exact Follows.pure _
  | (key, value) :: rest =>
    rw [evaluatePropertiesWatched, evaluateProperties]
    refine (evaluate_follows key).bind fun v => (Follows.unrecorded _).bind fun name => ?_
    split
    · exact (Follows.unrecorded _).bind fun _ => evaluateProperties_follows rest
    · rename_i h
      have hallowed := Access.isAllowed_of_property .store (by simpa using h) (by decide)
      refine (evaluate_follows value).bind fun v => Follows.note hallowed ?_
      exact (evaluateProperties_follows rest).bind fun _ => Follows.pure _

end

end Expr

namespace Program

open Watched

/-- Evaluates statements in order and records the keys that they use. -/
def runWatched (s : Expr.Site) : Program → Watched Value
  | [] => return .undefined
  | [e] => e.evaluateWatched s
  | e :: es => do
    let _ ← e.evaluateWatched s
    runWatched s es

theorem run_follows (s : Expr.Site) (program : Program) :
    Follows (runWatched s program) (run s program) := by
  match program with
  | [] => exact Follows.pure _
  | [e] => exact Expr.evaluate_follows s e
  | e :: e' :: es => exact (Expr.evaluate_follows s e).bind fun _ => run_follows s (e' :: es)

/-- Every run of a program is a watched run without its record, also where it fails, and every key
that the record names is allowed. -/
theorem run_uses_allowed_keys (s : Expr.Site) (program : Program) (env : Env) (w : World) :
    ((Watched.run' env ⟨w, []⟩ (runWatched s program)).1,
      (Watched.run' env ⟨w, []⟩ (runWatched s program)).2.world) = M.run' env w (run s program) ∧
    ∀ a ∈ (Watched.run' env ⟨w, []⟩ (runWatched s program)).2.accesses, a.IsAllowed := by
  obtain ⟨hplain, added, hadded, hallowed⟩ := run_follows s program env ⟨w, []⟩
  refine ⟨hplain, ?_⟩
  rw [hadded, List.append_nil]
  exact hallowed

end Program

end PageTemplate
