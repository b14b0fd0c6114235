import PageTemplate.Builtin.KeyFilter
import PageTemplate.Proofs.Form.Held

/-!
# PageTemplate.Proofs.KeyFilter

Choosing entries by their keys. A pattern stands for the texts that are made of it by putting any
units that are no line ends in the place of `*`, one of them in the place of `?`, and every other
unit in its own place. The first filter whose pattern stands for a key decides; the new record has
the entries whose keys are kept, in their order.
-/

namespace PageTemplate

namespace Assoc

variable {κ ν : Type} [BEq κ] [LawfulBEq κ]

/-- Binding distinct keys that are not bound yet adds them at the end. -/
theorem foldl_put (pairs bound : List (κ × ν)) (h : ((bound ++ pairs).map (·.1)).Nodup) :
    pairs.foldl (fun bound (k, v) => put k v bound) bound = bound ++ pairs := by
  induction pairs generalizing bound with
  | nil => simp
  | cons pair pairs ih =>
    have hkey : pair.1 ∉ bound.map (·.1) := by
      rw [List.map_append, List.map_cons] at h
      exact fun hm => (List.nodup_append.1 h).2.2 _ hm _ List.mem_cons_self rfl
    rw [List.append_cons] at h
    rw [List.foldl_cons, List.append_cons bound pair pairs, ← ih _ h]
    exact congrArg (pairs.foldl _) (put_of_not_mem hkey pair.2)

end Assoc

namespace Present

variable {w w' : World} {v : Value} {entries : List (Option (Value × Value))}

/-- What holds something keeps holding it when objects are added. -/
theorem Holds.allocAll (h : Holds w v entries) (cells : List Cell) :
    Holds (w.allocAll cells) v entries := by
  have hcell : ∀ {id : ObjectId}, w.cell id ≠ default → (w.allocAll cells).cell id = w.cell id := by
    intro id hne
    rw [World.cell, World.cell, Array.getD_eq_getD_getElem?, Array.getD_eq_getD_getElem?]
    by_cases hlt : id < w.cells.size
    · rw [World.allocAll_old cells hlt]
    · simp [World.cell, Array.getD_eq_getD_getElem?, Array.getElem?_eq_none (Nat.not_lt.1 hlt)]
        at hne
  cases h with
  | array cell => exact .array ((hcell (by rw [cell]; rintro ⟨⟩)).trans cell)
  | map cell => exact .map ((hcell (by rw [cell]; rintro ⟨⟩)).trans cell)
  | set cell => exact .set ((hcell (by rw [cell]; rintro ⟨⟩)).trans cell)
  | record cell plain distinct =>
    exact .record ((hcell (by rw [cell]; rintro ⟨⟩)).trans cell) plain distinct

end Present

namespace KeyFilter

/-! What a pattern stands for. -/

/-- Whether a text is made of a pattern. -/
inductive Stands : List Piece → Text → Prop where
  | nil : Stands [] []
  | run {ps : List Piece} {s t : Text} : (∀ u ∈ s, isLineEnd u = false) → Stands ps t →
    Stands (.run :: ps) (s ++ t)
  | one {ps : List Piece} {u : CodeUnit} {t : Text} : isLineEnd u = false → Stands ps t →
    Stands (.one :: ps) (u :: t)
  | exactly {ps : List Piece} {u : CodeUnit} {t : Text} : Stands ps t →
    Stands (.exactly u :: ps) (u :: t)

theorem someRest_iff {test : Text → Bool} {t : Text} :
    someRest test t = true ↔
      ∃ s rest, t = s ++ rest ∧ (∀ u ∈ s, isLineEnd u = false) ∧ test rest = true := by
  induction t with
  | nil =>
    rw [someRest]
    constructor
    · exact fun h => ⟨[], [], rfl, nofun, h⟩
    · rintro ⟨s, rest, he, _, h⟩
      rwa [(List.append_eq_nil_iff.1 he.symm).2] at h
  | cons u t ih =>
    rw [someRest, Bool.or_eq_true, Bool.and_eq_true, Bool.not_eq_true', ih]
    constructor
    · rintro (h | ⟨hu, s, rest, rfl, hs, h⟩)
      · exact ⟨[], u :: t, rfl, nofun, h⟩
      · exact ⟨u :: s, rest, rfl, List.forall_mem_cons.2 ⟨hu, hs⟩, h⟩
    · rintro ⟨s, rest, he, hs, h⟩
      cases s with
      | nil =>
        rw [List.nil_append] at he
        exact .inl (he ▸ h)
      | cons u' s =>
        obtain ⟨rfl, rfl⟩ := List.cons.inj he
        obtain ⟨hu, hs⟩ := List.forall_mem_cons.1 hs
        exact .inr ⟨hu, s, rest, rfl, hs, h⟩

/-- **Matching is standing for a whole text.** -/
theorem matchesPattern_iff {ps : List Piece} {t : Text} :
    matchesPattern ps t = true ↔ Stands ps t := by
  induction ps generalizing t with
  | nil =>
    rw [matchesPattern, List.isEmpty_iff]
    exact ⟨fun h => h ▸ .nil, fun h => by cases h; rfl⟩
  | cons p ps ih =>
    cases p with
    | run =>
      rw [matchesPattern, someRest_iff]
      constructor
      · rintro ⟨s, rest, rfl, hs, h⟩
        exact .run hs (ih.1 h)
      · rintro (_ | ⟨hs, h⟩)
        exact ⟨_, _, rfl, hs, ih.2 h⟩
    | one =>
      cases t with
      | nil => exact iff_of_false nofun nofun
      | cons u t =>
        rw [matchesPattern, Bool.and_eq_true, Bool.not_eq_true', ih]
        exact ⟨fun h => .one h.1 h.2, fun h => by cases h with | one hu h => exact ⟨hu, h⟩⟩
    | exactly v =>
      cases t with
      | nil => exact iff_of_false nofun nofun
      | cons u t =>
        rw [matchesPattern, Bool.and_eq_true, beq_iff_eq, ih]
        constructor
        · rintro ⟨rfl, h⟩
          exact .exactly h
        · rintro (_ | _ | _ | h)
          exact ⟨rfl, h⟩

example : matchesPattern (patternOf "*") "a\nb" = false := by decide +kernel

/-! What filters decide. -/

/-- Whether filters keep a key: there is one that matches it, and the first such one does not
reject. -/
def Keeps (filters : List Filter) (key : Text) : Prop :=
  ∃ earlier f later, filters = earlier ++ f :: later ∧ (∀ g ∈ earlier, ¬ Stands g.pattern key) ∧
    Stands f.pattern key ∧ f.rejects = false

/-- The decision about a key. -/
def kept (filters : List Filter) (key : Text) : Bool :=
  match filters.find? fun f => matchesPattern f.pattern key with
  | some f => !f.rejects
  | none => false

theorem kept_iff {filters : List Filter} {key : Text} :
    kept filters key = true ↔ Keeps filters key := by
  rw [kept]
  constructor
  · intro h
    split at h
    · rename_i f hfind
      obtain ⟨hf, earlier, later, rfl, hearlier⟩ := List.find?_eq_some_iff_append.1 hfind
      refine ⟨earlier, f, later, rfl, fun g hg hs => ?_, matchesPattern_iff.1 hf, by simpa using h⟩
      simpa [matchesPattern_iff.2 hs] using hearlier g hg
    · cases h
  · rintro ⟨earlier, f, later, rfl, hearlier, hf, hrejects⟩
    have hfind : (earlier ++ f :: later).find? (fun g => matchesPattern g.pattern key) =
        some f := by
      refine List.find?_eq_some_iff_append.2 ⟨matchesPattern_iff.2 hf, earlier, later, rfl, ?_⟩
      intro g hg
      rw [Bool.not_eq_true', ← Bool.not_eq_true, matchesPattern_iff]
      exact hearlier g hg
    rw [hfind]
    simp [hrejects]

variable {env : Env} {w : World} {id : ObjectId} {properties : Properties} {name : Text}
  {v value filters : Value}

theorem run'_keeps (fs : List Filter) (key : Text) :
    M.run' env w (keeps key (fs.map some)) = (.ok (kept fs key), w) := by
  induction fs with
  | nil => rfl
  | cons f fs ih =>
    rw [List.map_cons, keeps, kept, List.find?_cons]
    cases hf : matchesPattern f.pattern key with
    | true => rfl
    | false => exact ih

/-- Whether entries are those of texts that write filters. -/
def WriteFilters (entries : List (Option (Value × Value))) (fs : List Filter) : Prop :=
  List.Forall₂ (fun e f => ∃ k v t, e = some (k, v) ∧ Form.IsShown v t ∧ filter? t = some f)
    entries fs

/-- Whether the keys of entries are shown as names. -/
def AreNamed (entries : List (Option (Value × Value))) (named : List (Text × Value)) : Prop :=
  List.Forall₂ (fun e p => ∃ k, e = some (k, p.2) ∧ Form.IsShown k p.1) entries named

theorem run'_filtersOf {entries : List (Option (Value × Value))} {fs : List Filter}
    (h : Present.Holds w filters entries) (hfs : WriteFilters entries fs) :
    M.run' env w (filtersOf filters) = (.ok (fs.map some), w) := by
  rw [filtersOf, M.run'_bind_ok (Present.run'_entriesOf h [])]
  clear h
  induction hfs with
  | nil => rfl
  | @cons e f entries fs hf _ ih =>
    obtain ⟨k, v, t, rfl, hshown, hfilter⟩ := hf
    have htext : M.run' env w (Present.toText v) = (.ok t, w) := by
      rw [Present.toText, M.run'_bind_ok (hshown.2 env w)]
      rfl
    rw [List.mapM_cons]
    dsimp only
    rw [bind_assoc, M.run'_bind_ok htext, hfilter]
    dsimp only
    rw [pure_bind, M.run'_bind_ok ih]
    rfl

/-! Adding entries. -/

theorem run'_store (hcell : w.cell id = .record .object properties) (hname : name ≠ protoName) :
    M.run' env w (store id name value) =
      (.ok (), w.setCell id (.record .object (Assoc.put name value properties))) := by
  have hno : (name == protoName) = false := by simpa using hname
  have hsearch : M.run' env w (Property.search? (.object id) name) = _ :=
    Property.run'_search_plain .object hcell name
  have hfamily : M.run' env w (Property.family? (.object id)) = _ :=
    Property.run'_family_record hcell
  have hset : M.run' env w (Property.set id name value) = _ :=
    Property.run'_set_plain .object hcell name value
  rw [store, M.run'_bind_ok hsearch, M.run'_bind_ok hfamily, hno]
  exact M.run'_bind_ok hset

/-- An entry whose name stands for what the record inherits from becomes no entry of the record. -/
theorem run'_store_proto (hcell : w.cell id = .record .object properties)
    (hname : Assoc.find? protoName properties = none) :
    ∃ proto, M.run' env w (store id protoName value) =
      (.ok (), w.setCell id (.record proto properties)) := by
  have hmember : properties.member? .object protoName = none := by
    rw [Properties.member?, hname]
    rfl
  have hsearch : M.run' env w (Property.search? (.object id) protoName) = (.ok none, w) := by
    rw [Property.run'_search_plain .object hcell, hmember]
    rfl
  have hfamily : M.run' env w (Property.family? (.object id)) = (.ok (some .plain), w) :=
    Property.run'_family_record hcell
  have hset : ∃ proto, M.run' env w (setProto id value) =
      (.ok (), w.setCell id (.record proto properties)) :=
    ⟨_, by rw [setProto, M.run'_bind_ok (Store.run'_cell id), hcell]; rfl⟩
  obtain ⟨proto, hset⟩ := hset
  refine ⟨proto, ?_⟩
  rw [store, M.run'_bind_ok hsearch, M.run'_bind_ok hfamily]
  exact hset

/-- Adding an entry to a record that is the newest object. -/
theorem run'_store_newest (hname : name ≠ protoName) :
    M.run' env (w.allocAll [.record .object properties]) (store w.cells.size name value) =
      (.ok (), w.allocAll [.record .object (Assoc.put name value properties)]) := by
  have hcell : (w.allocAll [.record .object properties]).cell w.cells.size =
      .record .object properties :=
    World.cell_of_getElem? (by simpa using World.allocAll_new w [.record .object properties] 0)
  rw [run'_store hcell hname]
  simp [World.setCell, World.allocAll, Array.setIfInBounds, Array.set_push]

/-- What comes into the new record, one entry after another. -/
theorem run'_storeKept (fs : List Filter) {entries : List (Option (Value × Value))}
    {named : List (Text × Value)} (h : AreNamed entries named)
    (hproto : ∀ p ∈ named, kept fs p.1 = true → p.1 ≠ protoName) : ∀ properties : Properties,
      M.run' env (w.allocAll [.record .object properties])
        (entries.forM fun entry => do
          let (key, value) ← Present.expectEntry entry
          let name ← Convert.toText (← Present.shown key)
          if ← keeps name (fs.map some) then store w.cells.size name value) =
        (.ok (), w.allocAll [.record .object ((named.filter fun p => kept fs p.1).foldl
          (fun bound (k, v) => Assoc.put k v bound) properties)]) := by
  induction h with
  | nil => exact fun _ => rfl
  | @cons e p entries named he _ ih =>
    intro properties
    obtain ⟨k, rfl, hshown⟩ := he
    obtain ⟨hp, hnamed⟩ := List.forall_mem_cons.1 hproto
    let properties' : Properties :=
      if kept fs p.1 then Assoc.put p.1 p.2 properties else properties
    have hturn : M.run' env (w.allocAll [.record .object properties])
        (do
          let (key, value) ← Present.expectEntry (some (k, p.2))
          let name ← Convert.toText (← Present.shown key)
          if ← keeps name (fs.map some) then store w.cells.size name value) =
        (.ok (), w.allocAll [.record .object properties']) := by
      refine (M.run'_bind_ok (a := (k, p.2)) rfl).trans
        ((M.run'_bind_ok (hshown.2 _ _)).trans ((M.run'_bind_ok (a := p.1) rfl).trans
          ((M.run'_bind_ok (run'_keeps fs p.1)).trans ?_)))
      cases hkept : kept fs p.1 with
      | true =>
        simp only [if_true, properties', hkept]
        exact run'_store_newest (hp hkept)
      | false =>
        simp only [Bool.false_eq_true, if_false, properties', hkept]
        rfl
    refine ((M.run'_bind_ok hturn).trans (ih hnamed properties')).trans ?_
    rw [List.filter_cons]
    cases hkept : kept fs p.1 with
    | true => simp [properties', hkept]
    | false => simp [properties', hkept]

/-- **Choosing by keys.** The new record has those of the entries whose keys the filters keep, in
their order and with their values: the keys that some filter matches of which the first one that
does is no rejection. No key that is kept may be the name for what a record inherits from. -/
theorem run'_filterKeys (env : Env) {entries filterEntries : List (Option (Value × Value))}
    {named : List (Text × Value)} {fs : List Filter} (h : Present.Holds w v entries)
    (hnamed : AreNamed entries named) (hdistinct : (named.map (·.1)).Nodup)
    (hfilters : Present.Holds w filters filterEntries) (hfs : WriteFilters filterEntries fs)
    (hproto : ∀ p ∈ named, Keeps fs p.1 → p.1 ≠ protoName) :
    ∃ chosen : Properties, chosen.Sublist named ∧
      (∀ p ∈ named, p ∈ chosen ↔ Keeps fs p.1) ∧
      M.run' env w (filterKeys v filters) =
        (.ok (.object w.cells.size), w.allocAll [.record .object chosen]) := by
  refine ⟨named.filter fun p => kept fs p.1, List.filter_sublist, fun p hp => ?_, ?_⟩
  · rw [List.mem_filter, kept_iff]
    exact and_iff_right hp
  · have hstore : M.run' env (w.allocAll [.record .object []]) _ = _ :=
      run'_storeKept fs hnamed (fun p hp hk => hproto p hp (kept_iff.1 hk)) []
    have hput := Assoc.foldl_put (named.filter fun p => kept fs p.1) []
      (hdistinct.sublist (List.filter_sublist.map _))
    rw [hput] at hstore
    rw [filterKeys, M.run'_bind_ok (run'_filtersOf hfilters hfs),
      M.run'_bind_ok (Store.run'_alloc _),
      M.run'_bind_ok (Present.run'_entriesOf (h.allocAll _) []), M.run'_bind_ok hstore]
    rfl

end KeyFilter

end PageTemplate
