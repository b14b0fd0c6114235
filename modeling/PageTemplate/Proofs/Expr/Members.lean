import PageTemplate.Proofs.Assoc
import PageTemplate.Proofs.Property
import PageTemplate.Proofs.Scope.Evaluate

/-!
# PageTemplate.Proofs.Expr.Members

Members that are written, and what is seen of them afterwards. On an object without a class of its
own a member that was assigned is read back and is in the object, and the other members are what
they were. On a map an assignment makes an entry, which is in the map; but members are read past the
entries, so the entry is not read back.
-/

namespace PageTemplate

theorem World.lookup_setCell (w : World) (id : ObjectId) (c : Cell) (name : Text) (n : Nat)
    (scope : ScopeId) : (w.setCell id c).lookup name n scope = w.lookup name n scope := by
  induction n generalizing scope with
  | zero => rfl
  | succ n ih =>
    have hscope : (w.setCell id c).scope scope = w.scope scope := rfl
    rw [lookup, lookup, bindings, bindings, hscope]
    simp only [ih]

namespace Expr

variable {env : Env} {w w₁ : World} {s : Site} {id : ObjectId} {key : Text} {v : Value}

/-! Single steps on an object without a class of its own. -/

section Plain

variable {proto : Proto} {properties : Properties}

theorem run'_readMember_plain (hp : proto.IsPlain) (h : w.cell id = .record proto properties)
    (hkey : Names.isBlockedProperty key = false) :
    M.run' env w (readMember (.object id) key) =
      (.ok (.ofOption (properties.member? proto key)), w) := by
  rw [readMember, if_neg (by simp [hkey])]
  exact Property.run'_get_plain hp h key

theorem run'_isWithin_plain (hp : proto.IsPlain) (h : w.cell id = .record proto properties)
    (hkey : Names.isBlockedProperty key = false) :
    M.run' env w (isWithin s (.text key) (.object id)) =
      (.ok (.bool (properties.member? proto key).isSome), w) := by
  have hname : M.run' env w (Convert.display (.text key)) = (.ok key, w) := rfl
  have hcell : M.run' env w (Store.cell id) = (.ok (.record proto properties), w) := by
    rw [Store.run'_cell, h]
  rw [isWithin, M.run'_bind_ok hname]
  simp only [hkey, Bool.false_eq_true, if_false]
  rw [M.run'_bind_ok hcell]
  dsimp only
  rw [M.run'_bind_ok (Property.run'_isOf_plain hp h (by decide))]
  exact M.run'_bind_ok (Property.run'_has_plain hp h key)

theorem run'_writeMember_plain (hp : proto.IsPlain) (h : w.cell id = .record proto properties)
    (hkey : Names.isBlockedProperty key = false) (v : Value) :
    M.run' env w (writeMember s (.object id) key v) =
      (.ok (), w.setCell id (.record proto (Assoc.put key v properties))) := by
  have hcell : M.run' env w (Store.cell id) = (.ok (.record proto properties), w) := by
    rw [Store.run'_cell, h]
  rw [writeMember]
  simp only [hkey, Bool.false_eq_true, if_false]
  rw [M.run'_bind_ok hcell]
  dsimp only
  rw [M.run'_bind_ok (Property.run'_isOf_plain hp h (by decide))]
  simp only [Bool.false_eq_true, if_false]
  rw [M.run'_bind_ok (Property.run'_set_plain hp h key v)]
  rfl

end Plain

/-! Single steps on a map. -/

section Map

variable {entries : Entries}

/-- What is read of a map, the count of its entries apart, is what all maps share. -/
theorem run'_readMember_map (h : w.cell id = .map entries)
    (hkey : Names.isBlockedProperty key = false) (hsize : key ≠ Text.ofString "size") :
    M.run' env w (readMember (.object id) key) = (.ok (.ofOption (Family.map.member? key)), w) := by
  have hnone : Assoc.find? key Family.map.accessors = none := by
    have hne : (Text.ofString "size" == key) = false := by
      simpa using fun he => hsize he.symm
    simp [Family.accessors, Assoc.find?, hne]
  have hsearch : M.run' env w (Property.search? (.object id) key) = _ :=
    Property.run'_search_map h key
  rw [Property.shared?_eq_member? hnone] at hsearch
  rw [readMember, if_neg (by simp [hkey])]
  exact Property.run'_get_member hsearch rfl

theorem run'_isWithin_map (h : w.cell id = .map entries)
    (hkey : Names.isBlockedProperty key = false) :
    M.run' env w (isWithin s (.text key) (.object id)) =
      (.ok (.bool (entries.find? (.text key)).isSome), w) := by
  have hname : M.run' env w (Convert.display (.text key)) = (.ok key, w) := rfl
  have hcell : M.run' env w (Store.cell id) = (.ok (.map entries), w) := by
    rw [Store.run'_cell, h]
  rw [isWithin, M.run'_bind_ok hname]
  simp only [hkey, Bool.false_eq_true, if_false]
  rw [M.run'_bind_ok hcell]
  rfl

theorem run'_writeMember_map (h : w.cell id = .map entries)
    (hkey : Names.isBlockedProperty key = false) (v : Value) :
    M.run' env w (writeMember s (.object id) key v) =
      (.ok (), w.setCell id (.map (entries.put (.text key) v))) := by
  have hcell : M.run' env w (Store.cell id) = (.ok (.map entries), w) := by
    rw [Store.run'_cell, h]
  rw [writeMember]
  simp only [hkey, Bool.false_eq_true, if_false]
  rw [M.run'_bind_ok hcell]
  rfl

end Map

/-! Assignments in programs. -/

/-- Whether an expression always has a certain text for its value and does nothing else. -/
def Spells (env : Env) (s : Site) (p : Expr) (key : Text) : Prop :=
  ∀ w, M.run' env w (p.evaluate s) = (.ok (.text key), w)

example (env : Env) (s : Site) (key : Text) : Spells env s (.literal (.text key)) key :=
  fun _ => rfl

/-- Whether a name is bound to an object where expressions are evaluated. -/
def Names (s : Site) (w : World) (o : Text) (id : ObjectId) : Prop :=
  w.lookup o (w.scopes.size + 1) s.scope = some (.object id)

variable {o : Text} {p value : Expr}

theorem Names.run'_name (h : Names s w o id) :
    M.run' env w (evaluate s (.name o)) = (.ok (.object id), w) := by
  rw [evaluate, lookup, M.run'_bind_ok (Scope.run'_find? w s.scope o)]
  rw [show w.lookup o (w.scopes.size + 1) s.scope = _ from h]
  rfl

theorem Names.setCell (h : Names s w o id) (other : ObjectId) (c : Cell) :
    Names s (w.setCell other c) o id :=
  (World.lookup_setCell w other c o _ s.scope).trans h

theorem Names.run'_member (h : Names s w o id) (hp : Spells env s p key) :
    M.run' env w (evaluate s (.member (.name o) p)) =
      M.run' env w (readMember (.object id) key) := by
  rw [evaluate, M.run'_bind_ok h.run'_name]
  simp only [Value.isNullish, Bool.false_eq_true, if_false]
  rw [M.run'_bind_ok (hp w)]
  rfl

theorem Names.run'_within (h : Names s w o id) (hp : Spells env s p key) :
    M.run' env w (evaluate s (.binary .within p (.name o))) =
      M.run' env w (isWithin s (.text key) (.object id)) := by
  have hsettles : M.run' env w (settles .within (.text key)) = (.ok false, w) := rfl
  rw [evaluate, M.run'_bind_ok (hp w), M.run'_bind_ok hsettles]
  simp only [Bool.false_eq_true, if_false]
  rw [M.run'_bind_ok h.run'_name]
  rfl

theorem Names.run'_assign {w₂ : World} (hvalue : M.run' env w (value.evaluate s) = (.ok v, w₁))
    (h : Names s w₁ o id) (hp : Spells env s p key)
    (hwrite : M.run' env w₁ (writeMember s (.object id) key v) = (.ok (), w₂)) :
    M.run' env w (evaluate s (.assignMember (.name o) p value)) = (.ok v, w₂) := by
  have hkey : M.run' env w₁ (keyText s (.text key)) = (.ok key, w₁) := rfl
  rw [evaluate, M.run'_bind_ok hvalue, M.run'_bind_ok h.run'_name, M.run'_bind_ok (hp w₁),
    M.run'_bind_ok hkey, M.run'_bind_ok hwrite]
  rfl

/-- What a program sees of a key in the object under a name: the member that is read, and whether
the key is in the object. Looking does nothing. -/
structure Sees (env : Env) (s : Site) (w : World) (o : Text) (p : Expr) (member : Option Value)
    (isIn : Bool) : Prop where
  read : M.run' env w (evaluate s (.member (.name o) p)) = (.ok (.ofOption member), w)
  within : M.run' env w (evaluate s (.binary .within p (.name o))) = (.ok (.bool isIn), w)

/-- **What is assigned is seen.** On an object without a class of its own, an assignment to a member
that is in reach succeeds. After it the member is read as the value that was assigned and is in the
object, and of every other key in reach the same is seen as before. -/
theorem sees_assignMember {proto : Proto} {properties : Properties}
    (hvalue : M.run' env w (value.evaluate s) = (.ok v, w₁)) (ho : Names s w₁ o id)
    (hcell : w₁.cells[id]? = some (.record proto properties)) (hplain : proto.IsPlain)
    (hp : Spells env s p key) (hkey : Names.isBlockedProperty key = false) :
    ∃ w₂, M.run' env w (evaluate s (.assignMember (.name o) p value)) = (.ok v, w₂) ∧
      ∀ p' key', Spells env s p' key' → Names.isBlockedProperty key' = false →
        ∃ before, Sees env s w₁ o p' before before.isSome ∧
          Sees env s w₂ o p' (if key' = key then some v else before)
            (key' = key ∨ before.isSome) := by
  have hbefore := World.cell_of_getElem? hcell
  have hafter : (w₁.setCell id (.record proto (Assoc.put key v properties))).cell id = _ :=
    World.cell_of_getElem? (World.setCell_self _ (World.lt_of_getElem? hcell))
  have ho₂ := ho.setCell id (.record proto (Assoc.put key v properties))
  refine ⟨_, ho.run'_assign hvalue hp (run'_writeMember_plain hplain hbefore hkey v), ?_⟩
  intro p' key' hp' hkey'
  refine ⟨properties.member? proto key', ⟨?_, ?_⟩, ⟨?_, ?_⟩⟩
  · rw [ho.run'_member hp', run'_readMember_plain hplain hbefore hkey']
  · rw [ho.run'_within hp', run'_isWithin_plain hplain hbefore hkey']
  · rw [ho₂.run'_member hp', run'_readMember_plain hplain hafter hkey', Properties.member?_put]
  · rw [ho₂.run'_within hp', run'_isWithin_plain hplain hafter hkey', Properties.member?_put]
    split <;> simp [*]

/-- **An entry that is assigned is not read back.** On a map, an assignment to a key in reach
succeeds and makes an entry. After it the key is in the map and every other key is in it as before;
but whatever key is read, the count of the entries apart, the same is read as before. -/
theorem sees_assignMember_map {entries : Entries}
    (hvalue : M.run' env w (value.evaluate s) = (.ok v, w₁)) (ho : Names s w₁ o id)
    (hcell : w₁.cells[id]? = some (.map entries)) (hp : Spells env s p key)
    (hkey : Names.isBlockedProperty key = false) :
    ∃ w₂ entries₂, M.run' env w (evaluate s (.assignMember (.name o) p value)) = (.ok v, w₂) ∧
      w₂.cells[id]? = some (.map entries₂) ∧ entries₂.find? (.text key) = some v ∧
      ∀ p' key', Spells env s p' key' → Names.isBlockedProperty key' = false →
        key' ≠ Text.ofString "size" →
        ∃ member isIn, Sees env s w₁ o p' member isIn ∧
          Sees env s w₂ o p' member (key' = key ∨ isIn) := by
  have hbefore := World.cell_of_getElem? hcell
  have hself := World.setCell_self (.map (entries.put (.text key) v)) (World.lt_of_getElem? hcell)
  have hafter := World.cell_of_getElem? hself
  have ho₂ := ho.setCell id (.map (entries.put (.text key) v))
  refine ⟨_, _, ho.run'_assign hvalue hp (run'_writeMember_map hbefore hkey v), hself, ?_, ?_⟩
  · rw [Entries.find?_put, if_pos rfl]
  intro p' key' hp' hkey' hsize
  refine ⟨Family.map.member? key', (entries.find? (.text key')).isSome, ⟨?_, ?_⟩, ⟨?_, ?_⟩⟩
  · rw [ho.run'_member hp', run'_readMember_map hbefore hkey' hsize]
  · rw [ho.run'_within hp', run'_isWithin_map hbefore hkey']
  · rw [ho₂.run'_member hp', run'_readMember_map hafter hkey' hsize]
  · rw [ho₂.run'_within hp', run'_isWithin_map hafter hkey', Entries.find?_put]
    split <;> simp [*]

end Expr

end PageTemplate
