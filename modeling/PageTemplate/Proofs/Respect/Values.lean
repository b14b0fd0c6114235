import PageTemplate.Proofs.Respect.Basic
import PageTemplate.Value.Sequence

/-!
# PageTemplate.Proofs.Respect.Values

Reading, writing and converting values goes to the store by looking at objects, adding and changing
them, and by calling functions. So it respects every relation that these steps keep.
-/

namespace PageTemplate

variable {env : Env} {S : World → World → Prop}

section Reads

variable [KeptByReads env S]

namespace Property

@[grind ←] theorem respects_ownOf? (id : ObjectId) (name : Text) :
    Respects env S (ownOf? id name) := by
  unfold ownOf?
  refine Store.respects_cell.bind fun cell => ?_
  cases cell with
  | handle => exact .ite (.pure _) (.pure _)
  | _ => exact .pure _

@[grind ←] theorem respects_own? (v : Value) (name : Text) : Respects env S (own? v name) := by
  unfold own?
  cases v with
  | object => exact respects_ownOf? _ _
  | _ => exact .pure _

@[grind ←] theorem respects_ancestryOf (id : ObjectId) : Respects env S (ancestryOf id) := by
  unfold ancestryOf
  refine Store.respects_cell.bind fun cell => ?_
  cases cell with
  | record => split <;> exact .pure _
  | _ => exact .pure _

@[grind ←] theorem respects_ancestry (v : Value) : Respects env S (ancestry v) := by
  unfold ancestry
  cases v with
  | object => exact respects_ancestryOf _
  | _ => exact .pure _

@[grind ←] theorem respects_familyWithin? (n : Nat) (v : Value) :
    Respects env S (familyWithin? n v) := by
  induction n generalizing v with
  | zero => exact .pure none
  | succ n ih =>
    unfold familyWithin?
    refine (respects_ancestry _).bind fun a => ?_
    cases a with
    | value => exact ih _
    | _ => exact .pure _

@[grind ←] theorem respects_family? (v : Value) : Respects env S (family? v) := by
  unfold family?
  exact Store.respects_depth.bind fun n => respects_familyWithin? _ _

@[grind ←] theorem respects_isFixed (v : Value) (name : Text) :
    Respects env S (isFixed v name) := by
  unfold isFixed
  cases v with
  | object =>
    refine Store.respects_cell.bind fun cell => ?_
    cases cell <;> exact .pure _
  | function =>
    split
    · refine Store.respects_cell.bind fun cell => ?_
      cases cell <;> exact .pure _
    · exact .pure _
    · exact .pure _
  | _ => exact .pure _

@[grind ←] theorem respects_searchWithin? (n : Nat) (v : Value) (name : Text) :
    Respects env S (searchWithin? n v name) := by
  induction n generalizing v with
  | zero => exact .pure none
  | succ n ih =>
    unfold searchWithin?
    refine (respects_own? _ _).bind fun found => ?_
    cases found with
    | none =>
      refine (respects_ancestry _).bind fun a => ?_
      cases a with
      | value => exact ih _
      | _ => exact .pure _
    | some => exact (respects_isFixed _ _).bind fun b => .pure _

@[grind ←] theorem respects_search? (v : Value) (name : Text) :
    Respects env S (search? v name) := by
  unfold search?
  exact Store.respects_depth.bind fun n => respects_searchWithin? _ _ _

@[grind ←] theorem respects_find? (v : Value) (name : Text) : Respects env S (find? v name) := by
  unfold find?
  refine (respects_search? _ _).bind fun found => ?_
  cases found with
  | none => exact .pure _
  | some =>
    split
    · exact .pure _
    · exact .bind (.call _ _ _) fun v => .pure _
    · exact .pure _

@[grind ←] theorem respects_get (v : Value) (name : Text) : Respects env S (get v name) := by
  unfold get
  refine .check .typeError ?_
  exact (respects_find? _ _).bind fun found => .pure _

@[grind ←] theorem respects_has (v : Value) (name : Text) : Respects env S (has v name) := by
  unfold has
  exact (respects_search? _ _).bind fun found => .pure _

@[grind ←] theorem respects_ownEntries (v : Value) : Respects env S (ownEntries v) := by
  unfold ownEntries
  cases v with
  | undefined => exact .typeError
  | null => exact .typeError
  | object =>
    refine Store.respects_cell.bind fun cell => ?_
    cases cell <;> exact .pure _
  | _ => exact .pure _

omit [KeptByReads env S] in
@[grind ←] theorem respects_lengthOf (v : Value) : Respects env S (lengthOf v) := by
  unfold lengthOf
  cases v with
  | number =>
    split
    · split
      · exact .ite (.pure _) (.failLibrary _)
      · exact .failLibrary _
    · split
      · exact .ite (.pure _) (.failLibrary _)
      · exact .failLibrary _
  | _ => exact .failLibrary _

end Property

end Reads

section Writes

variable [KeptByWrites env S]

namespace Property

@[grind ←] theorem respects_setInArray (id : ObjectId) (c : Cell) (name : Text) (value : Value) :
    Respects env S (setInArray id c name value) := by
  unfold setInArray
  refine .ite ?_ ?_
  · exact (respects_lengthOf _).bind fun n => Store.respects_setCell
  · cases c with
    | array =>
      split
      · exact Store.respects_setCell
      · exact Store.respects_setCell
      · exact Store.respects_setCell
      · exact Store.respects_setCell
      · exact .pure _
    | sparseArray =>
      split
      · exact Store.respects_setCell
      · exact Store.respects_setCell
      · exact Store.respects_setCell
      · exact Store.respects_setCell
      · exact .pure _
    | _ => exact .pure _

@[grind ←] theorem respects_setOwn (id : ObjectId) (name : Text) (value : Value) :
    Respects env S (setOwn id name value) := by
  unfold setOwn
  refine Store.respects_cell.bind fun cell => ?_
  cases cell with
  | array => exact (respects_setInArray _ _ _ _).bind fun _ => .pure _
  | sparseArray => exact (respects_setInArray _ _ _ _).bind fun _ => .pure _
  | map => exact .pure _
  | handle => refine .ite ?_ ?_ <;> exact Store.respects_setCell.bind fun _ => .pure _
  | _ => exact Store.respects_setCell.bind fun _ => .pure _

@[grind ←] theorem respects_set (id : ObjectId) (name : Text) (value : Value) :
    Respects env S (set id name value) := by
  unfold set
  refine (respects_search? _ _).bind fun found => ?_
  cases found with
  | none => exact respects_setOwn _ _ _
  | some =>
    split
    · exact .pure _
    · exact .bind (.call _ _ _) fun v => .pure _
    · exact .pure _
    · exact respects_setOwn _ _ _
    · exact respects_setOwn _ _ _

@[grind ←] theorem respects_erase (id : ObjectId) (name : Text) :
    Respects env S (erase id name) := by
  unfold erase
  refine Store.respects_cell.bind fun cell => ?_
  cases cell with
  | array =>
    split
    · exact Store.respects_setCell
    · exact Store.respects_setCell
    · exact Store.respects_setCell
    · exact Store.respects_setCell
    · exact Store.respects_setCell
    · exact Store.respects_setCell
    · split <;> exact Store.respects_setCell
    · split <;> exact Store.respects_setCell
    · exact .pure _
  | sparseArray =>
    split
    · exact Store.respects_setCell
    · exact Store.respects_setCell
    · exact Store.respects_setCell
    · exact Store.respects_setCell
    · exact Store.respects_setCell
    · exact Store.respects_setCell
    · split <;> exact Store.respects_setCell
    · split <;> exact Store.respects_setCell
    · exact .pure _
  | map => exact .pure _
  | _ => exact Store.respects_setCell

end Property

end Writes

section Reads

variable [KeptByReads env S]

namespace Convert

@[grind ←] theorem respects_invoke (v : Value) (name : Text) (arguments : List Value) :
    Respects env S (invoke v name arguments) := by
  unfold invoke
  refine (Property.respects_get _ _).bind fun v => ?_
  cases v with
  | function => exact .call _ _ _
  | _ => exact .typeError

@[grind ←] theorem respects_firstPlain (v : Value) (names : List Text) :
    Respects env S (firstPlain v names) := by
  induction names with
  | nil => exact .typeError
  | cons name names ih =>
    unfold firstPlain
    refine (Property.respects_get _ _).bind fun v => ?_
    cases v with
    | function => exact .bind (.call _ _ _) fun r => .ite ih (.pure _)
    | _ => exact ih

@[grind ←] theorem respects_toPlain (preference : Preference) (v : Value) :
    Respects env S (toPlain preference v) := by
  unfold toPlain
  cases v with
  | object =>
    cases preference with
    | none =>
      refine (Property.respects_family? _).bind fun found => ?_
      exact .bind (.pure _) fun prefersText => respects_firstPlain _ _
    | _ => exact .bind (.pure _) fun prefersText => respects_firstPlain _ _
  | _ => exact .pure _

@[grind ←] theorem respects_toText (v : Value) : Respects env S (toText v) := by
  unfold toText
  refine (respects_toPlain _ _).bind fun v => ?_
  split
  · exact .pure _
  · exact .typeError

@[grind ←] theorem respects_toSuffix (v : Value) : Respects env S (toSuffix v) := by
  unfold toSuffix
  exact (respects_toPlain _ _).bind fun v => respects_toText _

@[grind ←] theorem respects_toJoined (v : Value) : Respects env S (toJoined v) := by
  unfold toJoined
  exact .ite (.pure _) (respects_toText _)

@[grind ←] theorem respects_display (v : Value) : Respects env S (display v) := by
  unfold display
  cases v with
  | symbol => exact .pure _
  | _ => exact respects_toText _

@[grind ←] theorem respects_toNumber (v : Value) : Respects env S (toNumber v) := by
  unfold toNumber
  refine (respects_toPlain _ _).bind fun v => ?_
  split
  · exact .pure _
  · exact .typeError

@[grind ←] theorem respects_numberOf (v : Value) : Respects env S (numberOf v) := by
  unfold numberOf
  refine (respects_toPlain _ _).bind fun v => ?_
  cases v with
  | symbol => exact .typeError
  | object => exact .typeError
  | function => exact .typeError
  | _ => exact .pure _

@[grind ←] theorem respects_isFilled (v : Value) : Respects env S (isFilled v) := by
  unfold isFilled
  refine (Property.respects_get _ _).bind fun v => ?_
  exact (respects_numberOf _).bind fun x => .pure _

@[grind ←] theorem respects_toWhole (v : Value) : Respects env S (toWhole v) := by
  unfold toWhole
  exact (respects_toNumber _).bind fun x => .pure _

@[grind ←] theorem respects_positionOr (length default : Nat) (v : Value) :
    Respects env S (positionOr length default v) := by
  unfold positionOr
  cases v with
  | undefined => exact .pure _
  | _ => exact (respects_toWhole _).bind fun x => .pure _

@[grind ←] theorem respects_toUnsigned (bits : Nat) (v : Value) :
    Respects env S (toUnsigned bits v) := by
  unfold toUnsigned
  refine (respects_toNumber _).bind fun x => ?_
  split <;> exact .pure _

@[grind ←] theorem respects_looselyEqual (v w : Value) : Respects env S (looselyEqual v w) := by
  unfold looselyEqual
  refine .ite (.pure _) ?_
  refine .ite (.pure _) ?_
  refine (respects_toPlain _ _).bind fun v => ?_
  exact (respects_toPlain _ _).bind fun v => .pure _

@[grind ←] theorem respects_add (v w : Value) : Respects env S (add v w) := by
  unfold add
  refine (respects_toPlain _ _).bind fun v => ?_
  refine (respects_toPlain _ _).bind fun w => ?_
  cases v with
  | bigint =>
    cases w with
    | bigint => exact .pure _
    | text =>
      refine (respects_toText _).bind fun t => ?_
      exact (respects_toText _).bind fun t => .pure _
    | _ =>
      refine (respects_toNumber _).bind fun x => ?_
      exact (respects_toNumber _).bind fun x => .pure _
  | text =>
    refine (respects_toText _).bind fun t => ?_
    exact (respects_toText _).bind fun t => .pure _
  | _ =>
    cases w with
    | text =>
      refine (respects_toText _).bind fun t => ?_
      exact (respects_toText _).bind fun t => .pure _
    | _ =>
      refine (respects_toNumber _).bind fun x => ?_
      exact (respects_toNumber _).bind fun x => .pure _

end Convert

end Reads

section Reads

variable [KeptByReads env S]

namespace Sequence

@[grind ←] theorem respects_length (v : Value) : Respects env S (length v) := by
  unfold length
  refine Store.respects_arrayLength?.bind fun found => ?_
  cases found with
  | none =>
    refine (Property.respects_get _ _).bind fun v => ?_
    exact (Convert.respects_toWhole _).bind fun x => .pure _
  | some => exact .pure _

@[grind ←] theorem respects_item? (v : Value) (i : Nat) : Respects env S (item? v i) := by
  unfold item?
  refine Store.respects_arrayItems?.bind fun found => ?_
  cases found with
  | none => exact Property.respects_find? _ _
  | some => exact .pure _

@[grind ←] theorem respects_range (v : Value) (start count : Nat) :
    Respects env S (range v start count) := by
  unfold range
  refine Store.respects_arrayItems?.bind fun found => ?_
  cases found with
  | none =>
    refine Store.respects_positions.bind fun items => ?_
    exact .mapM (fun a => (respects_item? _ _)) _
  | some => exact .pure _

@[grind ←] theorem respects_items (v : Value) : Respects env S (items v) := by
  unfold items
  exact (respects_length _).bind fun n => respects_range _ _ _

@[grind ←] theorem respects_isIterable (v : Value) : Respects env S (isIterable v) := by
  unfold isIterable
  refine (Property.respects_family? _).bind fun found => ?_
  cases found with
  | none => exact .pure _
  | some => split <;> exact .pure _

@[grind ←] theorem respects_turn (v : Value) (place : Nat) : Respects env S (turn v place) := by
  unfold turn
  cases v with
  | object id =>
    simp only [pure_bind]
    refine Store.respects_cell.bind fun cell => ?_
    cases cell with
    | map =>
      split
      · split
        · exact .pure _
        · exact .pure _
        · exact Store.respects_newArray.bind fun v => .pure _
      · split <;> exact .pure _
      · split
        · exact .pure _
        · exact .pure _
        · exact Store.respects_newArray.bind fun v => .pure _
    | set =>
      split
      · split
        · exact .pure _
        · exact .pure _
        · exact Store.respects_newArray.bind fun v => .pure _
      · split <;> exact .pure _
      · split <;> exact .pure _
    | _ =>
      refine (Property.respects_family? _).bind fun found => ?_
      refine .check .typeError ?_
      refine (respects_length _).bind fun n => ?_
      refine .ite ?_ (.pure _)
      exact (respects_item? _ _).bind fun found => .pure _
  | _ => grind

@[grind ←] theorem respects_visitFrom {α : Type} (v : Value) {action : Value → Nat → M α}
    (h : ∀ v i, Respects env S (action v i)) (n place : Nat) (done : List α) :
    Respects env S (visitFrom v action n place done) := by
  induction n generalizing place done with
  | zero => exact .failLibrary .rangeError
  | succ n ih =>
    unfold visitFrom
    refine (respects_turn _ _).bind fun a => ?_
    cases a with
    | done => exact .pure _
    | vacant => exact ih _ _
    | item => exact (h _ _).bind fun a => ih _ _

@[grind ←] theorem respects_visit {α : Type} (v : Value) {action : Value → Nat → M α}
    (h : ∀ v i, Respects env S (action v i)) : Respects env S (visit v action) := by
  unfold visit
  cases v with
  | text => exact .mapM (fun a => (h _ _)) _
  | _ => exact respects_visitFrom _ (fun _ _ => (h _ _)) _ _ _

@[grind ←] theorem respects_iterate (v : Value) : Respects env S (iterate v) := by
  unfold iterate
  cases v with
  | text => exact .pure _
  | object =>
    refine Store.respects_cell.bind fun cell => ?_
    cases cell with
    | map => exact .mapM (fun a => Store.respects_newArray) _
    | set => exact .pure _
    | _ =>
      refine (Property.respects_family? _).bind fun found => ?_
      refine .ite ?_ .typeError
      exact (respects_items _).bind fun items => .pure _
  | _ => exact .typeError

end Sequence

end Reads

section Writes

variable [KeptByWrites env S]

namespace Sequence

@[grind ←] theorem respects_put (v : Value) (name : Text) (value : Value) :
    Respects env S (put v name value) := by
  unfold put
  cases v with
  | object => exact (Property.respects_set _ _ _).bind fun b => .ite (.pure _) .typeError
  | _ => exact .typeError

@[grind ←] theorem respects_putAt (v : Value) (i : Nat) (item : Value) :
    Respects env S (putAt v i item) := by
  unfold putAt
  exact respects_put _ _ _

@[grind ←] theorem respects_putLength (v : Value) (length : Nat) :
    Respects env S (putLength v length) := by
  unfold putLength
  exact respects_put _ _ _

@[grind ←] theorem respects_removeAt (v : Value) (i : Nat) : Respects env S (removeAt v i) := by
  unfold removeAt
  cases v with
  | object => exact Property.respects_erase _ _
  | _ => exact .typeError

end Sequence

end Writes

end PageTemplate
