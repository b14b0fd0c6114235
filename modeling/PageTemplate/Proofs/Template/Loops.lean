import PageTemplate.Proofs.Assoc
import PageTemplate.Proofs.Template.Recognition

/-!
# PageTemplate.Proofs.Template.Loops

Loops. What a loop goes through is settled before its first turn: the items of an array, the entries
of a map, the members of a set, the properties of a record, each with its key. So a loop that comes
to an end has had one turn for each of them, in order, whatever the turns have done to the
collection. At a hole of an array there is no item, and a loop over such an array fails.
-/

namespace PageTemplate

namespace Key

variable {ν : Type}

/-- Putting properties in order adds none. -/
theorem mem_of_mem_inOrder {named : List (Text × ν)} {p : Text × ν} (h : p ∈ inOrder named) :
    p ∈ named := by
  rcases List.mem_append.1 h with h | h
  · obtain ⟨i, hi, rfl⟩ := List.mem_map.1 h
    obtain ⟨q, hq, hindex⟩ := List.mem_filterMap.1 (List.mem_mergeSort.1 hi)
    obtain ⟨n, _, rfl⟩ := Option.map_eq_some_iff.1 hindex
    exact hq
  · exact List.mem_of_mem_filter h

end Key

variable {env : Env} {w w' : World}

namespace Present

/-- What a value holds: items with their keys, in order. A hole of an array has neither. -/
inductive Holds (w : World) : Value → List (Option (Value × Value)) → Prop where
  | array {id : ObjectId} {items : List (Option Value)} {extra : Properties}
    (cell : w.cell id = .array items extra) : Holds w (.object id) (numbered items)
  | map {id : ObjectId} {entries : Entries} (cell : w.cell id = .map entries) :
    Holds w (.object id) (entries.live.map some)
  | set {id : ObjectId} {members : Entries} {extra : Properties}
    (cell : w.cell id = .set members extra) :
    Holds w (.object id) (numbered (members.keys.map some))
  | record {id : ObjectId} {properties : Properties}
    (cell : w.cell id = .record .object properties) (plain : properties.isNodeShaped = false)
    (distinct : (properties.map (·.1)).Nodup) :
    Holds w (.object id) ((Key.inOrder properties).map fun p => some (.text p.1, p.2))

theorem run'_isOf {id : ObjectId} {f g : Family}
    (h : M.run' env w (Property.family? (.object id)) = (.ok (some f), w)) :
    M.run' env w (isOf g (.object id)) = (.ok (f == g), w) := by
  rw [isOf, M.run'_bind_ok h]
  cases f <;> cases g <;> rfl

theorem run'_listedItems_none {id : ObjectId}
    (hitems : M.run' env w (Store.arrayItems? (.object id)) = (.ok none, w))
    (hlength : M.run' env w (Store.arrayLength? (.object id)) = (.ok none, w)) :
    M.run' env w (Store.listedItems? (.object id)) = (.ok none, w) := by
  rw [Store.listedItems?, M.run'_bind_ok hitems, Store.isArray, bind_assoc, M.run'_bind_ok hlength]
  rfl

/-- The items of an object that is no array depend on its family. -/
theorem run'_entriesOf_object {id : ObjectId} {f : Family} (source : Text)
    (hlisted : M.run' env w (Store.listedItems? (.object id)) = (.ok none, w))
    (hfamily : M.run' env w (Property.family? (.object id)) = (.ok (some f), w)) :
    M.run' env w (entriesOf (.object id) source) = M.run' env w (
      if f == .map then do return (← mapEntries (.object id)).map some
      else if f == .set then do return numbered ((← Sequence.iterate (.object id)).map some)
      else do
        if (← node? (.object id)).isSome then notIterable (.object id) source
        else
          (← Property.ownEntries (.object id)).mapM fun (key, _) => do
            return some (.text key, ← Property.get (.object id) key)) := by
  rw [entriesOf]
  simp only [Value.isNullish, Bool.false_eq_true, if_false]
  rw [M.run'_bind_ok hlisted]
  dsimp only
  rw [M.run'_bind_ok (run'_isOf hfamily)]
  split
  · rfl
  · rw [M.run'_bind_ok (run'_isOf hfamily)]
    rfl

/-- **What a loop goes through** is what its value holds. -/
theorem run'_entriesOf {v : Value} {entries : List (Option (Value × Value))}
    (h : Holds w v entries) (source : Text) :
    M.run' env w (entriesOf v source) = (.ok entries, w) := by
  cases h with
  | @array id items extra cell =>
    have hitems : M.run' env w (Store.listedItems? (.object id)) = (.ok (some items), w) := by
      simp [Store.listedItems?, Store.arrayItems?, M.run'_bind, cell]
    rw [entriesOf]
    simp only [Value.isNullish, Bool.false_eq_true, if_false]
    rw [M.run'_bind_ok hitems]
    rfl
  | @map id entries cell =>
    have hlisted : M.run' env w (Store.listedItems? (.object id)) = (.ok none, w) :=
      run'_listedItems_none (by simp [Store.arrayItems?, M.run'_bind, cell])
        (by simp [Store.arrayLength?, M.run'_bind, cell])
    have hfamily : M.run' env w (Property.family? (.object id)) = (.ok (some .map), w) :=
      Property.run'_family_object (by simp [Property.ancestryOf, M.run'_bind, cell])
    have hentries : M.run' env w (mapEntries (.object id)) = (.ok entries.live, w) := by
      simp [mapEntries, M.run'_bind, cell]
    rw [run'_entriesOf_object source hlisted hfamily]
    exact M.run'_bind_ok hentries
  | @set id members extra cell =>
    have hlisted : M.run' env w (Store.listedItems? (.object id)) = (.ok none, w) :=
      run'_listedItems_none (by simp [Store.arrayItems?, M.run'_bind, cell])
        (by simp [Store.arrayLength?, M.run'_bind, cell])
    have hfamily : M.run' env w (Property.family? (.object id)) = (.ok (some .set), w) :=
      Property.run'_family_object (by simp [Property.ancestryOf, M.run'_bind, cell])
    have hitems : M.run' env w (Sequence.iterate (.object id)) = (.ok members.keys, w) := by
      simp [Sequence.iterate, M.run'_bind, cell]
    rw [run'_entriesOf_object source hlisted hfamily]
    exact M.run'_bind_ok hitems
  | @record id properties cell plain distinct =>
    have hlisted : M.run' env w (Store.listedItems? (.object id)) = (.ok none, w) :=
      run'_listedItems_none (by simp [Store.arrayItems?, M.run'_bind, cell])
        (by simp [Store.arrayLength?, M.run'_bind, cell])
    have hown : M.run' env w (Property.ownEntries (.object id)) =
        (.ok (Key.inOrder properties), w) := by
      simp [Property.ownEntries, M.run'_bind, cell]
    rw [run'_entriesOf_object source hlisted (Property.run'_family_record cell)]
    refine (M.run'_bind_ok (run'_node_plain cell plain)).trans
      ((M.run'_bind_ok hown).trans (M.run'_mapM fun p hp => ?_))
    have hfind := Assoc.find?_of_mem distinct (Key.mem_of_mem_inOrder hp)
    exact M.run'_bind_ok (Property.run'_get_record cell hfind)

end Present

namespace Expander

variable {x : Expander} {siblings : Siblings} {scope : ScopeId}

/-- The turns of a loop, one after another: each starts where the one before it has ended. -/
inductive Turns (env : Env) (turn : Value × Value → M Unit) :
    List (Value × Value) → World → World → Prop where
  | nil (w : World) : Turns env turn [] w w
  | cons {entry : Value × Value} {entries : List (Value × Value)} {w w1 w' : World}
    (run : M.run' env w (turn entry) = (.ok (), w1)) (more : Turns env turn entries w1 w') :
    Turns env turn (entry :: entries) w w'

/-- Going through entries comes to an end only when none of them is a hole, and then each has had
its turn. -/
theorem turns_of_forM {loop fragment itemName keyName : Value}
    {entries : List (Option (Value × Value))}
    (h : M.run' env w (entries.forM (expandEntry siblings loop fragment scope itemName keyName)) =
      (.ok (), w')) :
    ∃ pairs, entries = pairs.map some ∧
      Turns env (fun p => expandEntry siblings loop fragment scope itemName keyName (some p)) pairs
        w w' := by
  induction entries generalizing w with
  | nil =>
    cases h
    exact ⟨[], rfl, .nil _⟩
  | cons entry entries ih =>
    obtain ⟨_, w1, hturn, hmore⟩ := M.run'_bind_eq_ok.1 h
    obtain ⟨pairs, rfl, hturns⟩ := ih hmore
    cases entry with
    | none => cases hturn
    | some entry => exact ⟨entry :: pairs, rfl, .cons hturn hturns⟩

/-- **A loop goes through what there is before its first turn.** When a loop comes to an end, its
collection had no hole, there was one turn for each item with its key, in order, and the outcome is
whether there were any. -/
theorem expandLoop_turns {element : Value} {outcome : Bool}
    (h : M.run' env w (x.expandLoop siblings element scope) = (.ok outcome, w')) :
    ∃ source itemName keyName v w0 w1, M.run' env w0 (x.evaluate scope source) = (.ok v, w1) ∧
      ∀ entries, Present.Holds w1 v entries → ∃ pairs, entries = pairs.map some ∧
        outcome = !pairs.isEmpty ∧ (pairs ≠ [] → ∃ fragment w2 w3,
          Turns env (fun p => expandEntry siblings element fragment scope itemName keyName (some p))
            pairs w2 w3) := by
  obtain ⟨_, u1, _, h⟩ := M.run'_bind_eq_ok.1 h
  obtain ⟨itemName, u2, _, h⟩ := M.run'_bind_eq_ok.1 h
  obtain ⟨keyName, u3, _, h⟩ := M.run'_bind_eq_ok.1 h
  obtain ⟨source, u4, _, h⟩ := M.run'_bind_eq_ok.1 h
  obtain ⟨v, u5, hv, h⟩ := M.run'_bind_eq_ok.1 h
  refine ⟨source, itemName, keyName, v, u4, u5, hv, fun entries hh => ?_⟩
  rw [M.run'_bind_ok (Present.run'_entriesOf hh source)] at h
  cases entries with
  | nil =>
    obtain ⟨_, u6, _, h⟩ := M.run'_bind_eq_ok.1 h
    cases h
    exact ⟨[], rfl, rfl, fun hne => absurd rfl hne⟩
  | cons entry entries =>
    obtain ⟨fragment, u6, _, h⟩ := M.run'_bind_eq_ok.1 h
    obtain ⟨_, u7, hturns, h⟩ := M.run'_bind_eq_ok.1 h
    obtain ⟨_, u8, _, h⟩ := M.run'_bind_eq_ok.1 h
    obtain ⟨_, u9, _, h⟩ := M.run'_bind_eq_ok.1 h
    cases h
    obtain ⟨pairs, hpairs, hturns⟩ := turns_of_forM hturns
    refine ⟨pairs, hpairs, ?_, fun _ => ⟨_, u6, u7, hturns⟩⟩
    cases pairs with
    | nil => cases hpairs
    | cons => rfl

end Expander

end PageTemplate
