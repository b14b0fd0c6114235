import PageTemplate.Library.Call
import PageTemplate.Proofs.Respect.Pages

/-!
# PageTemplate.Proofs.Respect.Library

The functions that expressions can call respect what the steps on the store respect, as long as the
functions of the page do.
-/

namespace PageTemplate

variable {env : Env} {S : World → World → Prop}

section Writes

variable [KeptByWrites env S]

namespace ArrayLike

omit [KeptByWrites env S] in
@[grind ←] theorem respects_checkLength (length : Nat) : Respects env S (checkLength length) := by
  unfold checkLength
  exact .ite .typeError (.pure _)

@[grind ←] theorem respects_move (v : Value) (source target : Nat) :
    Respects env S (move v source target) := by
  unfold move
  refine (Sequence.respects_item? _ _).bind fun found => ?_
  cases found with
  | none => exact Sequence.respects_removeAt _ _
  | some => exact Sequence.respects_putAt _ _ _

@[grind ←] theorem respects_putItems (v : Value) (start : Nat) (items : List Value) :
    Respects env S (putItems v start items) := by
  unfold putItems
  exact .forM (fun a => (Sequence.respects_putAt _ _ _)) _

@[grind ←] theorem respects_push (v : Value) (length : Nat) (items : List Value) :
    Respects env S (push v length items) := by
  unfold push
  refine (respects_checkLength _).bind fun _ => ?_
  refine (respects_putItems _ _ _).bind fun _ => ?_
  exact (Sequence.respects_putLength _ _).bind fun _ => .pure _

@[grind ←] theorem respects_pop (v : Value) (length : Nat) : Respects env S (pop v length) := by
  unfold pop
  refine .ite ?_ ?_
  · refine .bind (.pure _) fun item => ?_
    exact (Sequence.respects_putLength _ _).bind fun _ => .pure _
  · refine (Sequence.respects_item? _ _).bind fun item => ?_
    refine (Sequence.respects_removeAt _ _).bind fun _ => ?_
    refine .bind (.pure _) fun item => ?_
    exact (Sequence.respects_putLength _ _).bind fun _ => .pure _

@[grind ←] theorem respects_shift (v : Value) (length : Nat) : Respects env S (shift v length) := by
  unfold shift
  refine .ite ?_ ?_
  · refine .bind (.pure _) fun first => ?_
    exact (Sequence.respects_putLength _ _).bind fun _ => .pure _
  · refine (Sequence.respects_item? _ _).bind fun first => ?_
    refine Store.respects_positions.bind fun items => ?_
    refine .bind ?_ fun _ => ?_
    · exact .forM (fun a => (respects_move _ _ _)) _
    · refine (Sequence.respects_removeAt _ _).bind fun _ => ?_
      refine .bind (.pure _) fun first => ?_
      exact (Sequence.respects_putLength _ _).bind fun _ => .pure _

@[grind ←] theorem respects_unshift (v : Value) (length : Nat) (items : List Value) :
    Respects env S (unshift v length items) := by
  unfold unshift
  refine .ite ?_ ?_
  · refine (respects_checkLength _).bind fun _ => ?_
    refine Store.respects_positions.bind fun items => ?_
    refine .bind ?_ fun _ => ?_
    · exact .forM (fun a => (respects_move _ _ _)) _
    · refine (respects_putItems _ _ _).bind fun _ => ?_
      exact (Sequence.respects_putLength _ _).bind fun _ => .pure _
  · exact (Sequence.respects_putLength _ _).bind fun _ => .pure _

@[grind ←] theorem respects_exchange (v : Value) (i j : Nat) : Respects env S (exchange v i j) := by
  unfold exchange
  refine (Sequence.respects_item? _ _).bind fun found => ?_
  refine (Sequence.respects_item? _ _).bind fun found => ?_
  cases found with
  | none =>
    cases found with
    | none => exact .pure _
    | some => exact (Sequence.respects_removeAt _ _).bind fun _ => Sequence.respects_putAt _ _ _
  | some =>
    cases found with
    | none => exact (Sequence.respects_putAt _ _ _).bind fun _ => Sequence.respects_removeAt _ _
    | some => exact (Sequence.respects_putAt _ _ _).bind fun _ => Sequence.respects_putAt _ _ _

@[grind ←] theorem respects_reverse (v : Value) (length : Nat) :
    Respects env S (reverse v length) := by
  unfold reverse
  refine Store.respects_positions.bind fun items => ?_
  exact .forM (fun a => (respects_exchange _ _ _)) _

@[grind ←] theorem respects_fill (v item : Value) (start stop : Nat) :
    Respects env S (fill v item start stop) := by
  unfold fill
  refine Store.respects_positions.bind fun items => ?_
  exact .forM (fun a => (Sequence.respects_putAt _ _ _)) _

@[grind ←] theorem respects_splice (v : Value) (length start count : Nat) (items : List Value) :
    Respects env S (splice v length start count items) := by
  have hmove (f : Nat → Nat) (is : List Nat) :
      Respects env S (is.forM fun i => move v i (f i)) :=
    .forM (fun i => respects_move v i (f i)) is
  have hremove (is : List Nat) : Respects env S (is.forM (Sequence.removeAt v)) :=
    .forM (Sequence.respects_removeAt v) is
  have hput (removed : List (Option Value)) : Respects env S (do
      putItems v start items
      Sequence.putLength v (length - count + items.length)
      return removed) := by
    refine (respects_putItems _ _ _).bind fun _ => ?_
    exact (Sequence.respects_putLength _ _).bind fun _ => .pure _
  unfold splice
  refine (respects_checkLength _).bind fun _ => (Sequence.respects_range v start count).bind
    fun removed => ?_
  dsimp only
  split
  · exact Store.respects_positions.bind fun is => (hmove _ is).bind fun _ =>
      Store.respects_positions.bind fun js => (hremove _).bind fun _ => hput removed
  · split
    · exact Store.respects_positions.bind fun is => (hmove _ _).bind fun _ => hput removed
    · exact hput removed

@[grind ←] theorem respects_putSorted (v : Value) (length : Nat) (sorted : List Value) :
    Respects env S (putSorted v length sorted) := by
  unfold putSorted
  refine (respects_putItems _ _ _).bind fun _ => ?_
  refine Store.respects_positions.bind fun items => ?_
  exact .forM (fun a => (Sequence.respects_removeAt _ _)) _

end ArrayLike

namespace Library

omit [KeptByWrites env S] in
@[grind ←] theorem respects_receiverNumber (this : Value) :
    Respects env S (receiverNumber this) := by
  unfold receiverNumber
  cases this with
  | number => exact .pure _
  | _ => exact .typeError

omit [KeptByWrites env S] in
@[grind ←] theorem respects_wholeBetween (low high : Nat) (x : Float) :
    Respects env S (wholeBetween low high x) := by
  unfold wholeBetween
  exact .ite (.failLibrary _) (.pure _)

@[grind ←] theorem respects_callNumber (m : NumberMethod) (this : Value) (arguments : List Value) :
    Respects env S (callNumber m this arguments) := by
  unfold callNumber
  refine (respects_receiverNumber _).bind fun x => ?_
  cases m with
  | toFixed =>
    refine (Convert.respects_toWhole _).bind fun x => ?_
    exact (respects_wholeBetween _ _ _).bind fun places => .pure _
  | toText =>
    split
    · exact .pure _
    · refine (Convert.respects_toWhole _).bind fun x => ?_
      exact (respects_wholeBetween _ _ _).bind fun places => .pure _
    · split
      · exact .bind (.pure _) fun base => .pure _
      · refine (Convert.respects_toWhole _).bind fun x => ?_
        exact (respects_wholeBetween _ _ _).bind fun base => .pure _
  | valueOf => exact .pure _

@[grind ←] theorem respects_callMath (f : MathFunction) (arguments : List Value) :
    Respects env S (callMath f arguments) := by
  unfold callMath
  cases f with
  | max =>
    refine .bind ?_ fun xs => ?_
    · exact .mapM (fun a => (Convert.respects_toNumber _)) _
    · exact .pure _
  | min =>
    refine .bind ?_ fun xs => ?_
    · exact .mapM (fun a => (Convert.respects_toNumber _)) _
    · exact .pure _
  | pow =>
    refine (Convert.respects_toNumber _).bind fun x => ?_
    exact (Convert.respects_toNumber _).bind fun y => .pure _
  | _ => exact (Convert.respects_toNumber _).bind fun x => .pure _

@[grind ←] theorem respects_readingBase (v : Value) : Respects env S (readingBase v) := by
  unfold readingBase
  exact (Convert.respects_toUnsigned _ _).bind fun n => .pure _

@[grind ←] theorem respects_parseInt (arguments : List Value) :
    Respects env S (parseInt arguments) := by
  unfold parseInt
  refine (Convert.respects_toText _).bind fun t => ?_
  refine (respects_readingBase _).bind fun found => ?_
  cases found <;> exact .pure _

end Library

namespace Library

@[grind ←] theorem respects_receiverText (this : Value) : Respects env S (receiverText this) := by
  unfold receiverText
  exact .ite .typeError (Convert.respects_toText _)

omit [KeptByWrites env S] in
@[grind ←] theorem respects_expectReceiverText (this : Value) :
    Respects env S (expectReceiverText this) := by
  unfold expectReceiverText
  cases this with
  | text => exact .pure _
  | _ => exact .typeError

omit [KeptByWrites env S] in
@[grind ←] theorem respects_checkTextLength (length : Nat) :
    Respects env S (checkTextLength length) := by
  unfold checkTextLength
  exact .ite (.failLibrary _) (.pure _)

@[grind ←] theorem respects_lengthOf (v : Value) : Respects env S (lengthOf v) := by
  unfold lengthOf
  exact (Convert.respects_toWhole _).bind fun x => .pure _

@[grind ←] theorem respects_startOf (length : Nat) (v : Value) :
    Respects env S (startOf length v) := by
  unfold startOf
  exact (Convert.respects_toWhole _).bind fun x => .pure _

@[grind ←] theorem respects_startOr (length default : Nat) (v : Value) :
    Respects env S (startOr length default v) := by
  unfold startOr
  cases v with
  | undefined => exact .pure _
  | _ => exact respects_startOf _ _

@[grind ←] theorem respects_unitAt (t : Text) (v : Value) : Respects env S (unitAt t v) := by
  unfold unitAt
  exact (Convert.respects_toWhole _).bind fun x => .pure _

@[grind ←] theorem respects_padding (t : Text) (arguments : List Value) :
    Respects env S (padding t arguments) := by
  unfold padding
  refine (respects_lengthOf _).bind fun target => ?_
  refine .ite (.pure _) ?_
  split
  · refine .bind (.pure _) fun filling => ?_
    refine .ite (.pure _) ?_
    exact (respects_checkTextLength _).bind fun _ => .pure _
  · refine (Convert.respects_toText _).bind fun filling => ?_
    refine .ite (.pure _) ?_
    exact (respects_checkTextLength _).bind fun _ => .pure _

@[grind ←] theorem respects_replacement (replacer : Value) (t found : Text) (position : Nat) :
    Respects env S (replacement replacer t found position) := by
  unfold replacement
  cases replacer with
  | text => exact .ite (.pure _) (.pure _)
  | function => exact .bind (.call _ _ _) fun v => Convert.respects_toText _
  | _ => exact .typeError

@[grind ←] theorem respects_replacerOf (v : Value) : Respects env S (replacerOf v) := by
  unfold replacerOf
  cases v with
  | function => exact .pure _
  | _ => exact (Convert.respects_toText _).bind fun t => .pure _

@[grind ←] theorem respects_replaceAt (replacer : Value) (t found : Text) (done : Nat) (rest : Text)
    (positions : List Nat) : Respects env S (replaceAt replacer t found done rest positions) := by
  induction positions generalizing done rest with
  | nil => exact .pure rest
  | cons p ps ih =>
    unfold replaceAt
    refine (respects_replacement _ _ _ _).bind fun r => ?_
    exact (ih _ _).bind fun replaced => .pure _

@[grind ←] theorem respects_pieces (parts : List Text) : Respects env S (pieces parts) := by
  unfold pieces
  exact Store.respects_newArray

@[grind ←] theorem respects_splitLimit (v : Value) : Respects env S (splitLimit v) := by
  unfold splitLimit
  cases v with
  | undefined => exact .pure _
  | _ => exact Convert.respects_toUnsigned _ _

@[grind ←] theorem respects_callText (m : TextMethod) (this : Value) (arguments : List Value) :
    Respects env S (callText m this arguments) := by
  unfold callText
  cases m <;> grind

end Library

namespace Library

@[grind ←] theorem respects_receiverTime (this : Value) : Respects env S (receiverTime this) := by
  unfold receiverTime
  cases this with
  | object =>
    refine Store.respects_cell.bind fun cell => ?_
    cases cell with
    | date => exact .pure _
    | _ => exact .typeError
  | _ => exact .typeError

@[grind ←] theorem respects_dateJson (this : Value) : Respects env S (dateJson this) := by
  unfold dateJson
  refine .check .typeError ?_
  refine (Convert.respects_toPlain _ _).bind fun v => ?_
  cases v with
  | number => exact .ite (.pure _) (Convert.respects_invoke _ _ _)
  | _ => exact Convert.respects_invoke _ _ _

@[grind ←] theorem respects_callDate (m : DateMethod) (this : Value) :
    Respects env S (callDate m this) := by
  unfold callDate
  cases m with
  | toISOText =>
    refine (respects_receiverTime _).bind fun time => ?_
    split
    · exact .pure _
    · exact .pure _
    · exact .pure _
    · exact .pure _
    · exact .pure _
    · exact .pure _
    · exact .pure _
    · exact .pure _
    · exact .pure _
    · exact .pure _
    · exact .pure _
    · split
      · exact .pure _
      · exact .failLibrary _
    · exact .pure _
  | toJSON => exact respects_dateJson _
  | _ => exact (respects_receiverTime _).bind fun time => .pure _

@[grind ←] theorem respects_dateUTC (arguments : List Value) :
    Respects env S (dateUTC arguments) := by
  unfold dateUTC
  refine .bind ?_ fun given => ?_
  · exact .mapM (fun a => (Convert.respects_toNumber _)) _
  · exact .pure _

end Library

namespace Library

set_option linter.unusedSectionVars false in
mutual

@[grind ←] theorem respects_plantJson (document : Json) :
    Respects env S (plantJson document) := by
  cases document with
  | array items =>
    have hitems := respects_plantItems items
    unfold plantJson
    grind
  | object members =>
    have hmembers := respects_plantMembers members
    unfold plantJson
    grind
  | _ =>
    unfold plantJson
    exact .pure _

@[grind ←] theorem respects_plantItems (items : List Json) :
    Respects env S (plantItems items) := by
  cases items with
  | nil =>
    unfold plantItems
    exact .pure []
  | cons item items =>
    have hitem := respects_plantJson item
    have hitems := respects_plantItems items
    unfold plantItems
    grind

@[grind ←] theorem respects_plantMembers (members : List (Text × Json)) :
    Respects env S (plantMembers members) := by
  cases members with
  | nil =>
    unfold plantMembers
    exact .pure []
  | cons member members =>
    obtain ⟨name, member⟩ := member
    have hmember := respects_plantJson member
    have hmembers := respects_plantMembers members
    unfold plantMembers
    grind

end

@[grind ←] theorem respects_parseJson (t : Text) : Respects env S (parseJson t) := by
  unfold parseJson
  split
  · exact respects_plantJson _
  · exact .failLibrary _

omit [KeptByWrites env S] in
@[grind ←] theorem respects_keyList (items : List (Option Value)) :
    Respects env S (keyList items) := by
  unfold keyList
  refine .bind ?_ fun keys => ?_
  · refine .mapM (fun a => ?_) _
    cases a with
    | none => exact .pure _
    | some => split <;> exact .pure _
  · exact .pure _

@[grind ←] theorem respects_callJson (f : JsonFunction) (arguments : List Value) :
    Respects env S (callJson f arguments) := by
  unfold callJson
  cases f with
  | parse => grind
  | stringify =>
    have hkeep (keys : Option (List Text)) (gap v : Value) :
        Respects env S (Stringify.write ⟨fun _ _ v => return v, keys, gapOf gap⟩ v) :=
      Stringify.respects_write (fun _ _ v => .pure v) v
    unfold styleOf
    cases argument arguments 1 with
    | function f =>
      have hcall (v : Value) : Respects env S (Stringify.write
          ⟨fun holder key v => M.call f holder [.text key, v], none,
            gapOf (argument arguments 2)⟩ v) :=
        Stringify.respects_write (fun holder key v => .call f holder [.text key, v]) v
      simp only [pure_bind]
      grind
    | _ =>
      simp only [bind_assoc]
      refine Store.respects_listedItems?.bind fun items => ?_
      cases items with
      | none =>
        simp only [pure_bind]
        exact (hkeep _ _ _).bind fun found => .pure _
      | some items =>
        simp only [bind_assoc, pure_bind]
        refine (respects_keyList _).bind fun items => ?_
        exact (hkeep _ _ _).bind fun found => .pure _

end Library

namespace Library

theorem respects_compareBy (f : Fn) (v w : Value) : Respects env S (compareBy f v w) := by
  unfold compareBy
  refine .bind (.call _ _ _) fun v => ?_
  exact (Convert.respects_toNumber _).bind fun x => .pure _

theorem respects_compareTexts (v w : Value) : Respects env S (compareTexts v w) := by
  unfold compareTexts
  refine (Convert.respects_toText _).bind fun s => ?_
  exact (Convert.respects_toText _).bind fun t => .pure _

section Compare

variable {compare : Comparison} (h : ∀ v w, Respects env S (compare v w))

include h

omit [KeptByWrites env S]

theorem respects_takeRun (descending : Bool) (last : Value) (run vs : List Value) :
    Respects env S (takeRun compare descending last run vs) := by
  induction vs generalizing last run with
  | nil => exact .pure _
  | cons v vs ih =>
    unfold takeRun
    exact (h _ _).bind fun x => .ite (ih _ _) (.pure _)

theorem respects_firstRun (vs : List Value) : Respects env S (firstRun compare vs) := by
  have hrun := respects_takeRun h
  unfold firstRun
  grind

theorem respects_insertionPoint (v : Value) (sorted : Array Value) (n left right : Nat) :
    Respects env S (insertionPoint compare v sorted n left right) := by
  induction n generalizing left right with
  | zero => exact .pure left
  | succ n ih =>
    unfold insertionPoint
    refine .ite (.pure _) ?_
    exact (h _ _).bind fun x => .ite (ih _ _) (ih _ _)

theorem respects_insertSorted (sorted : Array Value) (v : Value) :
    Respects env S (insertSorted compare sorted v) :=
  (respects_insertionPoint h v sorted _ _ _).bind fun _ => .pure _

theorem respects_sortBy (values : List Value) : Respects env S (sortBy compare values) := by
  have hrun := respects_firstRun h
  have hinsert := respects_insertSorted h
  unfold sortBy
  grind

theorem respects_sortDefined (values : List Value) :
    Respects env S (sortDefined compare values) :=
  (respects_sortBy h _).bind fun _ => .pure _

end Compare

end Library

namespace Library

@[grind ←] theorem respects_newSparseArray (items : List (Option Value)) :
    Respects env S (newSparseArray items) := by
  unfold newSparseArray
  exact Store.respects_alloc.bind fun a => .pure _

omit [KeptByWrites env S] in
@[grind ←] theorem respects_expectFunction (v : Value) : Respects env S (expectFunction v) := by
  unfold expectFunction
  cases v with
  | function => exact .pure _
  | _ => exact .typeError

@[grind ←] theorem respects_visit (this : Value) (arguments : List Value) (item : Value) (i : Nat) :
    Respects env S (visit this arguments item i) := by
  unfold visit
  exact (respects_expectFunction _).bind fun f => .call _ _ _

@[grind ←] theorem respects_visitEach (this : Value) (arguments : List Value) (length : Nat) :
    Respects env S (visitEach this arguments length) := by
  unfold visitEach
  refine Store.respects_positions.bind fun items => ?_
  refine .mapM (fun a => ?_) _
  refine (Sequence.respects_item? _ _).bind fun found => ?_
  cases found with
  | none => exact .pure _
  | some => exact (respects_visit _ _ _ _).bind fun v => .pure _

@[grind ←] theorem respects_search (this : Value) (arguments : List Value) (holes : Bool)
    (way : Way) (n : Nat) : Respects env S (search this arguments holes way n) := by
  induction n with
  | zero => exact .pure none
  | succ n ih =>
    unfold search
    refine (Sequence.respects_item? _ _).bind fun item => ?_
    refine .ite ih ?_
    exact (respects_visit _ _ _ _).bind fun v => .ite (.pure _) ih

@[grind ←] theorem respects_searchFailure (this : Value) (arguments : List Value) (way : Way)
    (n : Nat) : Respects env S (searchFailure this arguments way n) := by
  induction n with
  | zero => exact .pure false
  | succ n ih =>
    unfold searchFailure
    refine (Sequence.respects_item? _ _).bind fun found => ?_
    cases found with
    | none => exact ih
    | some => exact (respects_visit _ _ _ _).bind fun v => .ite ih (.pure _)

@[grind ←] theorem respects_seek (this : Value) (test : Option Value → Bool) (way : Way)
    (n : Nat) : Respects env S (seek this test way n) := by
  induction n with
  | zero => exact .pure none
  | succ n ih =>
    unfold seek
    exact (Sequence.respects_item? _ _).bind fun found => .ite (.pure _) ih

@[grind ←] theorem respects_foldItems (this : Value) (f : Fn) (way : Way) (acc : Value) (n : Nat) :
    Respects env S (foldItems this f way acc n) := by
  induction n generalizing acc with
  | zero => exact .pure acc
  | succ n ih =>
    unfold foldItems
    refine (Sequence.respects_item? _ _).bind fun found => ?_
    cases found with
    | none => exact ih _
    | some => exact .bind (.call _ _ _) fun acc => ih _

@[grind ←] theorem respects_foldRest (this : Value) (f : Fn) (way : Way) (n : Nat) :
    Respects env S (foldRest this f way n) := by
  induction n with
  | zero => exact .typeError
  | succ n ih =>
    unfold foldRest
    refine (Sequence.respects_item? _ _).bind fun found => ?_
    cases found with
    | none => exact ih
    | some => exact respects_foldItems _ _ _ _ _

@[grind ←] theorem respects_reduce (this : Value) (way : Way) (length : Nat)
    (arguments : List Value) :
    Respects env S (reduce this way length arguments) := by
  unfold reduce
  refine (respects_expectFunction _).bind fun f => ?_
  cases arguments with
  | nil => exact respects_foldRest _ _ _ _
  | cons =>
    split
    · exact respects_foldItems _ _ _ _ _
    · exact respects_foldRest _ _ _ _

@[grind ←] theorem respects_flatten (n depth : Nat) (items : List Value) :
    Respects env S (flatten n depth items) := by
  induction n generalizing depth items with
  | zero => exact .failLibrary .rangeError
  | succ n ih =>
    unfold flatten
    refine .bind ?_ fun parts => ?_
    · refine .mapM (fun a => ?_) _
      refine Store.respects_arrayPlaces?.bind fun found => ?_
      cases found with
      | none => exact .pure _
      | some =>
        cases depth with
        | zero => exact .pure _
        | succ => exact ih _ _
    · exact .pure _

@[grind ←] theorem respects_unlessJoining (this : Value) {action : M Text}
    (h : Respects env S action) : Respects env S (unlessJoining this action) := by
  unfold unlessJoining
  cases this with
  | object =>
    refine Store.respects_isJoining.bind fun b => ?_
    refine .ite (.pure _) ?_
    exact Store.respects_whileJoining h
  | _ => exact h

@[grind ←] theorem respects_join (this : Value) (length : Nat) (separator : Value) :
    Respects env S (join this length separator) := by
  have hjoined (separator : Text) : Respects env S (unlessJoining this do
      let texts ← (do
        (← Sequence.range this 0 length).mapM fun item => Convert.toJoined (.ofOption item))
      let units := texts.foldl (fun n t => n + t.length) 0
      checkTextLength (units + separator.length * (texts.length - 1))
      return Text.join separator texts) := by
    refine respects_unlessJoining this ?_
    refine .bind ?_ fun texts => ?_
    · refine (Sequence.respects_range _ _ _).bind fun items => ?_
      exact .mapM (fun a => (Convert.respects_toJoined _)) _
    · exact (respects_checkTextLength _).bind fun _ => .pure _
  unfold join
  cases separator with
  | undefined => exact (hjoined _).bind fun t => .pure _
  | _ =>
    exact (Convert.respects_toText _).bind fun separator =>
      (hjoined separator).bind fun t => .pure _

@[grind ←] theorem respects_sort (this : Value) (length : Nat) {compare : Comparison}
    (h : ∀ v w, Respects env S (compare v w)) : Respects env S (sort this length compare) := by
  have hsort := respects_sortDefined h
  unfold sort
  grind

omit [KeptByWrites env S] in
@[grind ←] theorem respects_comparisonOf (v : Value) : Respects env S (comparisonOf v) := by
  unfold comparisonOf
  cases v with
  | undefined => exact .pure _
  | function => exact .pure _
  | _ => exact .typeError

@[grind ←] theorem respects_spliceCount (available : Nat) (arguments : List Value) :
    Respects env S (spliceCount available arguments) := by
  unfold spliceCount
  cases arguments with
  | nil => exact .pure _
  | cons =>
    split
    · exact .pure _
    · exact .pure _
    · exact (Convert.respects_toWhole _).bind fun x => .pure _

@[grind ←] theorem respects_lastCount (length : Nat) (arguments : List Value) :
    Respects env S (lastCount length arguments) := by
  unfold lastCount
  cases arguments with
  | nil => exact .pure _
  | cons =>
    split
    · exact (Convert.respects_toWhole _).bind fun x => .pure _
    · exact .pure _

@[grind ←] theorem respects_arrayText (this : Value) : Respects env S (arrayText this) := by
  unfold arrayText
  refine (Property.respects_get _ _).bind fun v => ?_
  cases v <;> exact .call _ _ _

@[grind ←] theorem respects_change (m : ArrayMethod) (this : Value) (length : Nat)
    (arguments : List Value) :
    Respects env S (change m this length arguments) := by
  unfold change
  refine Store.respects_arrayItems?.bind fun found => ?_
  cases m with
  | pop =>
    cases this with
    | object =>
      cases found with
      | none => exact ArrayLike.respects_pop _ _
      | some => exact Store.respects_setArrayItems.bind fun _ => .pure _
    | _ => exact ArrayLike.respects_pop _ _
  | push =>
    cases this with
    | object =>
      cases found with
      | none => exact ArrayLike.respects_push _ _ _
      | some => exact Store.respects_setArrayItems.bind fun _ => .pure _
    | _ => exact ArrayLike.respects_push _ _ _
  | reverse =>
    cases this with
    | object =>
      cases found with
      | none => exact (ArrayLike.respects_reverse _ _).bind fun _ => .pure _
      | some => exact Store.respects_setArrayItems.bind fun _ => .pure _
    | _ => exact (ArrayLike.respects_reverse _ _).bind fun _ => .pure _
  | shift =>
    cases this with
    | object =>
      cases found with
      | none => exact ArrayLike.respects_shift _ _
      | some => exact Store.respects_setArrayItems.bind fun _ => .pure _
    | _ => exact ArrayLike.respects_shift _ _
  | unshift =>
    cases this with
    | object =>
      cases found with
      | none => exact ArrayLike.respects_unshift _ _ _
      | some => exact Store.respects_setArrayItems.bind fun _ => .pure _
    | _ => exact ArrayLike.respects_unshift _ _ _
  | _ => exact .typeError

@[grind ←] theorem respects_fill (this : Value) (length : Nat) (arguments : List Value) :
    Respects env S (fill this length arguments) := by
  unfold fill
  refine (Convert.respects_positionOr _ _ _).bind fun start => ?_
  refine (Convert.respects_positionOr _ _ _).bind fun stop => ?_
  refine Store.respects_arrayItems?.bind fun found => ?_
  cases this with
  | object =>
    cases found with
    | none => exact (ArrayLike.respects_fill _ _ _ _).bind fun _ => .pure _
    | some => exact Store.respects_setArrayItems.bind fun _ => .pure _
  | _ => exact (ArrayLike.respects_fill _ _ _ _).bind fun _ => .pure _

@[grind ←] theorem respects_splice (this : Value) (length : Nat) (arguments : List Value) :
    Respects env S (splice this length arguments) := by
  unfold splice
  refine (Convert.respects_positionOr _ _ _).bind fun start => ?_
  refine (respects_spliceCount _ _).bind fun count => ?_
  refine Store.respects_arrayItems?.bind fun found => ?_
  cases this with
  | object =>
    cases found with
    | none =>
      exact (ArrayLike.respects_splice _ _ _ _ _).bind fun items => respects_newSparseArray _
    | some => exact Store.respects_setArrayItems.bind fun _ => respects_newSparseArray _
  | _ => exact (ArrayLike.respects_splice _ _ _ _ _).bind fun items => respects_newSparseArray _

@[grind ←] theorem respects_concat (this : Value) (arguments : List Value) :
    Respects env S (concat this arguments) := by
  unfold concat
  refine .bind ?_ fun parts => ?_
  · refine .mapM (fun a => ?_) _
    refine Store.respects_arrayLength?.bind fun found => ?_
    refine Store.respects_arrayPlaces?.bind fun found => ?_
    cases found <;> cases found <;> exact .pure _
  · exact Store.respects_newPlaces

omit [KeptByWrites env S] in
@[grind ←] theorem respects_checkNewLength (length : Nat) :
    Respects env S (checkNewLength length) := by
  unfold checkNewLength
  exact .ite (.failLibrary _) (.pure _)

/-- Sorting by the comparison that an argument asks for. -/
theorem respects_sort_comparisonOf (this : Value) (length : Nat) (v : Value) :
    Respects env S (do
      sort this length (← comparisonOf v)
      return this) := by
  unfold comparisonOf
  cases v with
  | undefined =>
    rw [pure_bind]
    exact (respects_sort this length respects_compareTexts).bind fun _ => .pure this
  | function f =>
    rw [pure_bind]
    exact (respects_sort this length (respects_compareBy f)).bind fun _ => .pure this
  | _ => exact .typeError_bind _

@[grind ←] theorem respects_callArray (m : ArrayMethod) (this : Value) (arguments : List Value) :
    Respects env S (callArray m this arguments) := by
  unfold callArray
  cases m with
  | sort =>
    have hrest : Respects env S (do
        let length ← Sequence.length this
        sort this length (← comparisonOf (argument arguments 0))
        return this) :=
      (Sequence.respects_length this).bind fun length => respects_sort_comparisonOf this length _
    exact (respects_comparisonOf _).discard.bind fun _ => .check .typeError hrest
  | flat =>
    have hflatten (length depth : Nat) : Respects env S (do
        let items ← Sequence.range this 0 length
        Store.newArray (← flatten (← Store.depth) depth (items.filterMap fun item => item))) := by
      refine (Sequence.respects_range _ _ _).bind fun items => ?_
      refine Store.respects_depth.bind fun n => ?_
      exact (respects_flatten _ _ _).bind fun items => Store.respects_newArray
    dsimp only
    rw [if_neg (by decide)]
    refine .check (f := fun _ => _) .typeError ((Sequence.respects_length this).bind fun length => ?_)
    cases argument arguments 0 with
    | undefined => exact (Respects.pure 1).bind (hflatten length)
    | _ =>
      exact (Convert.respects_toWhole _).bind fun x => (Respects.pure _).bind (hflatten length)
  | _ => grind

end Library

namespace Library

@[grind ←] theorem respects_receiverMap (this : Value) : Respects env S (receiverMap this) := by
  unfold receiverMap
  cases this with
  | object =>
    refine Store.respects_cell.bind fun cell => ?_
    cases cell with
    | map => exact .pure _
    | _ => exact .typeError
  | _ => exact .typeError

@[grind ←] theorem respects_receiverSet (this : Value) : Respects env S (receiverSet this) := by
  unfold receiverSet
  cases this with
  | object =>
    refine Store.respects_cell.bind fun cell => ?_
    cases cell with
    | set => exact .pure _
    | _ => exact .typeError
  | _ => exact .typeError

@[grind ←] theorem respects_visitEntries (this : Value) (f : Fn) (receiver : Value)
    {entries : M Entries} (h : Respects env S entries) (n place : Nat) :
    Respects env S (visitEntries this f receiver entries n place) := by
  induction n generalizing place with
  | zero => exact .failLibrary .rangeError
  | succ n ih =>
    unfold visitEntries
    refine h.bind fun a => ?_
    split
    · exact .pure _
    · exact ih _
    · exact .bind (.call _ _ _) fun v => ih _

@[grind ←] theorem respects_forEachEntry (this : Value) (arguments : List Value)
    {entries : M Entries} (h : Respects env S entries) :
    Respects env S (forEachEntry this arguments entries) := by
  unfold forEachEntry
  split
  · refine .bind ?_ fun _ => ?_
    · exact respects_visitEntries _ _ _ h _ _
    · exact .pure _
  · exact .typeError

@[grind ←] theorem respects_callMap (m : MapMethod) (this : Value) (arguments : List Value) :
    Respects env S (callMap m this arguments) := by
  unfold callMap
  refine (respects_receiverMap _).bind fun a => ?_
  cases m with
  | forEach =>
    refine respects_forEachEntry _ _ ?_
    exact (respects_receiverMap _).bind fun a => .pure _
  | get => exact .pure _
  | has => exact .pure _
  | size => exact .pure _
  | _ => exact Store.respects_setCell.bind fun _ => .pure _

@[grind ←] theorem respects_callSet (m : SetMethod) (this : Value) (arguments : List Value) :
    Respects env S (callSet m this arguments) := by
  unfold callSet
  refine (respects_receiverSet _).bind fun a => ?_
  cases m with
  | forEach =>
    refine respects_forEachEntry _ _ ?_
    exact (respects_receiverSet _).bind fun a => .pure _
  | has => exact .pure _
  | size => exact .pure _
  | _ => exact Store.respects_setCell.bind fun _ => .pure _

end Library

namespace Library

@[grind ←] theorem respects_newHoles (x : Float) : Respects env S (newHoles x) := by
  unfold newHoles
  split
  · exact .ite Store.respects_newPlaces (.failLibrary _)
  · exact .failLibrary _

@[grind ←] theorem respects_callConstructor (c : Constructor) (arguments : List Value) :
    Respects env S (callConstructor c arguments) := by
  unfold callConstructor
  cases c with
  | array =>
    cases arguments with
    | nil => exact Store.respects_newArray
    | cons =>
      split
      · exact respects_newHoles _
      · exact Store.respects_newArray
      · exact .pure _
      · exact .pure _
      · exact (Convert.respects_numberOf _).bind fun x => .pure _
      · exact .pure _
      · exact (Convert.respects_display _).bind fun t => .pure _
      · exact .pure _
  | number =>
    cases arguments with
    | nil => exact .pure _
    | cons => exact (Convert.respects_numberOf _).bind fun x => .pure _
  | text =>
    cases arguments with
    | nil => exact .pure _
    | cons => exact (Convert.respects_display _).bind fun t => .pure _
  | _ => exact .pure _

@[grind ←] theorem respects_visitItems (v : Value) {action : Value → Nat → M Value}
    (h : ∀ v i, Respects env S (action v i)) : Respects env S (visitItems v action) := by
  unfold visitItems
  refine .check .typeError ?_
  refine (Sequence.respects_isIterable _).bind fun b => ?_
  refine .ite ?_ ?_
  · exact Sequence.respects_visit _ (fun _ _ => (h _ _))
  · refine (Sequence.respects_length _).bind fun length => ?_
    refine .check (.failLibrary _) ?_
    refine Store.respects_positions.bind fun items => ?_
    refine .mapM (fun a => ?_) _
    exact (Sequence.respects_item? _ _).bind fun found => h _ _

@[grind ←] theorem respects_arrayFrom (arguments : List Value) :
    Respects env S (arrayFrom arguments) := by
  unfold arrayFrom
  split
  · refine (Sequence.respects_isIterable _).bind fun b => ?_
    refine .ite ?_ ?_
    · exact (Sequence.respects_iterate _).bind fun items => Store.respects_newArray
    · refine .bind ?_ fun items => ?_
      · exact respects_visitItems _ (fun _ _ => (.pure _))
      · exact Store.respects_newArray
  · refine .bind ?_ fun items => ?_
    · exact respects_visitItems _ (fun _ _ => (.call _ _ _))
    · exact Store.respects_newArray
  · exact .typeError

@[grind ←] theorem respects_codePointOf (v : Value) : Respects env S (codePointOf v) := by
  unfold codePointOf
  refine (Convert.respects_toNumber _).bind fun x => ?_
  split
  · exact .ite (.pure _) (.failLibrary _)
  · exact .failLibrary _

@[grind ←] theorem respects_callGlobal (f : GlobalFunction) (arguments : List Value) :
    Respects env S (callGlobal f arguments) := by
  unfold callGlobal
  cases f with
  | isFinite => exact (Convert.respects_toNumber _).bind fun x => .pure _
  | isNaN => exact (Convert.respects_toNumber _).bind fun x => .pure _
  | parseFloat => exact (Convert.respects_toText _).bind fun t => .pure _
  | parseInt => exact respects_parseInt _
  | arrayFrom => exact respects_arrayFrom _
  | arrayIs => exact Store.respects_isArray.bind fun b => .pure _
  | arrayOf => exact Store.respects_newArray
  | dateUTC => exact respects_dateUTC _
  | fromCharCode =>
    refine .bind ?_ fun items => ?_
    · refine .mapM (fun a => ?_) _
      exact (Convert.respects_toUnsigned _ _).bind fun n => .pure _
    · exact .pure _
  | fromCodePoint =>
    refine .bind ?_ fun items => ?_
    · exact .mapM (fun a => (respects_codePointOf _)) _
    · exact .pure _
  | _ => exact .pure _

end Library

namespace Library

@[grind ←] theorem respects_namedWithin? (n : Nat) (v : Value) :
    Respects env S (namedWithin? n v) := by
  induction n generalizing v with
  | zero => exact .pure none
  | succ n ih =>
    unfold namedWithin?
    cases v with
    | object =>
      refine Store.respects_cell.bind fun cell => ?_
      cases cell with
      | record =>
        split
        · exact .pure _
        · exact .pure _
        · exact .pure _
        · exact .pure _
        · exact ih _
        · exact .pure _
      | _ => exact .pure _
    | _ => exact .pure _

@[grind ←] theorem respects_objectTag (v : Value) : Respects env S (objectTag v) := by
  unfold objectTag
  cases v with
  | object =>
    refine Store.respects_cell.bind fun cell => ?_
    cases cell with
    | array => exact .pure _
    | sparseArray => exact .pure _
    | date => exact .pure _
    | _ =>
      refine Store.respects_depth.bind fun n => ?_
      exact (respects_namedWithin? _ _).bind fun found => .pure _
  | _ => exact .pure _

@[grind ←] theorem respects_hasOwn (v key : Value) : Respects env S (hasOwn v key) := by
  unfold hasOwn
  cases key with
  | symbol => exact .pure _
  | _ =>
    refine (Convert.respects_toText _).bind fun t => ?_
    exact (Property.respects_own? _ _).bind fun found => .pure _

@[grind ←] theorem respects_hasListed (v key : Value) : Respects env S (hasListed v key) := by
  unfold hasListed
  cases key with
  | symbol => exact .pure _
  | _ =>
    refine (Convert.respects_toText _).bind fun name => ?_
    exact (Property.respects_ownEntries _).bind fun items => .pure _

@[grind ←] theorem respects_callObject (m : ObjectMethod) (this : Value) (arguments : List Value) :
    Respects env S (callObject m this arguments) := by
  unfold callObject
  cases m with
  | hasOwnProperty =>
    exact (Convert.respects_toPlain _ _).bind fun key => .ite .typeError (respects_hasOwn _ _)
  | propertyIsEnumerable =>
    exact (Convert.respects_toPlain _ _).bind fun key => .ite .typeError (respects_hasListed _ _)
  | toText => exact (respects_objectTag _).bind fun t => .pure _
  | valueOf => exact .ite .typeError (.pure _)

@[grind ←] theorem respects_entryOf (v : Value) : Respects env S (entryOf v) := by
  unfold entryOf
  refine .check .typeError ?_
  refine (Property.respects_get _ _).bind fun v => ?_
  exact (Property.respects_get _ _).bind fun v => .pure _

@[grind ←] theorem respects_propertiesOf (entries : List Value) :
    Respects env S (propertiesOf entries) := by
  unfold propertiesOf
  refine .bind ?_ fun pairs => ?_
  · refine .mapM (fun a => ?_) _
    refine (respects_entryOf _).bind fun a => ?_
    refine (Convert.respects_toPlain _ _).bind fun v => ?_
    cases v with
    | symbol => exact .pure _
    | _ => exact (Convert.respects_toText _).bind fun t => .pure _
  · exact .pure _

@[grind ←] theorem respects_callObjects (f : ObjectFunction) (arguments : List Value) :
    Respects env S (callObjects f arguments) := by
  unfold callObjects
  cases f with
  | entries =>
    refine (Property.respects_ownEntries _).bind fun items => ?_
    refine .bind ?_ fun pairs => ?_
    · refine .mapM (fun a => ?_) _
      exact (Property.respects_get _ _).bind fun v => Store.respects_newArray
    · exact Store.respects_newArray
  | fromEntries =>
    refine (Sequence.respects_iterate _).bind fun items => ?_
    exact (respects_propertiesOf _).bind fun a => Store.respects_newRecord
  | hasOwn =>
    refine .check .typeError ?_
    exact (Convert.respects_toPlain _ _).bind fun v => respects_hasOwn _ _
  | same => exact .pure _
  | keys => exact (Property.respects_ownEntries _).bind fun items => Store.respects_newArray
  | values =>
    refine (Property.respects_ownEntries _).bind fun items => ?_
    refine .bind ?_ fun items => ?_
    · exact .mapM (fun a => (Property.respects_get _ _)) _
    · exact Store.respects_newArray

@[grind ←] theorem respects_baseOf (v : Value) : Respects env S (baseOf v) := by
  unfold baseOf
  cases v with
  | undefined => exact .pure _
  | _ =>
    refine (Convert.respects_toWhole _).bind fun x => ?_
    exact .check (.failLibrary _) (.pure _)

@[grind ←] theorem respects_callSimple (m : SimpleMethod) (this : Value) (arguments : List Value) :
    Respects env S (callSimple m this arguments) := by
  unfold callSimple
  cases m with
  | functionToText =>
    cases this with
    | function => exact .pure _
    | _ => exact .typeError
  | boolToText =>
    cases this with
    | bool => exact .pure _
    | _ => exact .typeError
  | boolValueOf =>
    cases this with
    | bool => exact .pure _
    | _ => exact .typeError
  | bigintToText =>
    cases this with
    | bigint => exact (respects_baseOf _).bind fun n => .pure _
    | _ => exact .typeError
  | bigintValueOf =>
    cases this with
    | bigint => exact .pure _
    | _ => exact .typeError
  | _ =>
    cases this with
    | symbol => exact .pure _
    | _ => exact .typeError

end Library

namespace KeyFilter

@[grind ←] theorem respects_filtersOf (filters : Value) : Respects env S (filtersOf filters) := by
  unfold filtersOf
  refine (Present.respects_entriesOf _ _).bind fun items => ?_
  refine .mapM (fun a => ?_) _
  cases a with
  | none => exact .pure _
  | some =>
    refine (Present.respects_toText _).bind fun t => ?_
    split
    · exact .pure _
    · exact .throw _

omit [KeptByWrites env S] in
@[grind ←] theorem respects_keeps (key : Text) (filters : List (Option Filter)) :
    Respects env S (keeps key filters) := by
  induction filters with
  | nil => exact .pure false
  | cons f fs ih =>
    unfold keeps
    grind

@[grind ←] theorem respects_setProto (id : ObjectId) (value : Value) :
    Respects env S (setProto id value) := by
  unfold setProto
  refine Store.respects_cell.bind fun cell => ?_
  cases cell with
  | record => exact Store.respects_setCell
  | _ => exact .pure _

@[grind ←] theorem respects_store (id : ObjectId) (name : Text) (value : Value) :
    Respects env S (store id name value) := by
  unfold store
  refine (Property.respects_search? _ _).bind fun found => ?_
  refine (Property.respects_family? _).bind fun found => ?_
  refine .ite (respects_setProto _ _) ?_
  exact (Property.respects_set _ _ _).bind fun b => .ite (.pure _) .typeError

@[grind ←] theorem respects_filterKeys (v filters : Value) :
    Respects env S (filterKeys v filters) := by
  unfold filterKeys
  refine (respects_filtersOf filters).bind fun filters => Store.respects_alloc.bind fun id =>
    (Present.respects_entriesOf v []).bind fun entries => ?_
  exact Respects.bind (.forM (by grind) entries) fun _ => .pure _

end KeyFilter

namespace Builtin

@[grind ←] theorem respects_reword (v : Value) (shortest : Nat) (write : Text → Text) :
    Respects env S (reword v shortest write) := by
  unfold reword
  refine (Present.respects_shown _).bind fun v => ?_
  cases v with
  | text => exact .pure _
  | _ =>
    refine (Property.respects_get _ _).bind fun v => ?_
    exact (Convert.respects_numberOf _).bind fun x => .ite (.pure _) .typeError

@[grind ←] theorem respects_call (h : Helper) (arguments : List Value) :
    Respects env S (call h arguments) := by
  unfold call
  cases h with
  | dayOfWeek =>
    refine (Present.respects_toText _).bind fun t => ?_
    exact .bind (.liftExcept _) fun t => .pure _
  | encodeURIComponent =>
    refine (Present.respects_shown _).bind fun v => ?_
    refine (Convert.respects_toText _).bind fun t => ?_
    split
    · exact .pure _
    · exact .failLibrary _
  | filterKeys => exact KeyFilter.respects_filterKeys _ _
  | _ => exact respects_reword _ _ _

end Builtin

namespace Library

@[grind ←] theorem respects_callNode (f : NodeFunction) (v : Value) :
    Respects env S (callNode f v) := by
  unfold callNode
  cases f with
  | isElement => exact (Tree.respects_isElement _).bind fun b => .pure _
  | serialize => exact Tree.respects_serialize _
  | textContent => exact Tree.respects_textContent _

theorem respects_call {host : HostFunctions}
    (h : ∀ name this arguments, Respects env S (host name this arguments)) (f : Fn) (this : Value)
    (arguments : List Value) : Respects env S (call host f this arguments) := by
  unfold call
  cases f <;> grind

end Library

end Writes

end PageTemplate
