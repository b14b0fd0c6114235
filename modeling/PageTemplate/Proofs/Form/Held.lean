import PageTemplate.Proofs.Ensures
import PageTemplate.Proofs.Form.Names
import PageTemplate.Proofs.Template.Fields
import PageTemplate.Proofs.Template.Loops

/-!
# PageTemplate.Proofs.Form.Held

Data in a store. Arrays, maps and records are flattened into their entries, and what is no object is
shown as a text. Data that shares no object with the nodes of a tree is left alone by whatever
happens to the tree.

More data is read from a value without regard to some places of the store: whatever is there, the
value has the same entries and is shown as the same texts. Reading it may make new objects, but
changes none.
-/

namespace PageTemplate

/-- Whether an object is flattened into its entries. -/
def Cell.Flattens : Cell → Prop
  | .array _ [] | .map _ | .record .object _ => True
  | _ => False

theorem World.getElem?_of_flattens {w : World} {id : ObjectId} (h : (w.cell id).Flattens) :
    w.cells[id]? = some (w.cell id) := by
  cases hcell : w.cells[id]? with
  | some c => rw [World.cell_of_getElem? hcell]
  | none =>
    have hdefault : w.cell id = default := by
      simp [World.cell, Array.getD_eq_getD_getElem?, hcell]
    rw [hdefault] at h
    exact h.elim

namespace Present

variable {env : Env} {w w' : World} {id : ObjectId} {v : Value}
  {entries entries' : List (Option (Value × Value))}

theorem run'_node_map {entries : Entries} (h : w.cell id = .map entries) :
    M.run' env w (node? (.object id)) = (.ok none, w) := by
  have hfamily : M.run' env w (Property.family? (.object id)) = (.ok (some .map), w) :=
    Property.run'_family_object (by simp [Property.ancestryOf, M.run'_bind, h])
  refine run'_node_object (b := false) (by decide) hfamily ?_
  have hkind : M.run' env w (Tree.kind? (.object id)) = (.ok none, w) :=
    Tree.run'_kind_none (Property.run'_search_map h _)
  rw [Tree.isNode]
  simp only [Value.isObject, Bool.not_true, Bool.false_eq_true, if_false]
  rw [M.run'_bind_ok hkind, Property.has, bind_assoc,
    M.run'_bind_ok (Property.run'_search_map h _)]
  rfl

/-- What is no node is flattened when it is an array, a map or a record. -/
theorem run'_isObjectShaped_object {f : Family} (isArray isRecord : Bool)
    (hnode : M.run' env w (node? (.object id)) = (.ok none, w))
    (hfamily : M.run' env w (Property.family? (.object id)) = (.ok (some f), w))
    (harray : M.run' env w (Store.isArray (.object id)) = (.ok isArray, w))
    (hrecord : M.run' env w (isPlainObject (.object id)) = (.ok isRecord, w)) :
    M.run' env w (isObjectShaped (.object id)) =
      (.ok (isArray || f == .map || isRecord), w) := by
  have hmap : M.run' env w (isOf .map (.object id)) = (.ok (f == .map), w) := run'_isOf hfamily
  rw [isObjectShaped, M.run'_bind_ok hnode]
  simp [M.run'_bind, harray, hmap, hrecord]

theorem run'_isObjectShaped (h : Holds w (.object id) entries) (hc : (w.cell id).Flattens) :
    M.run' env w (isObjectShaped (.object id)) = (.ok true, w) := by
  cases h with
  | set cell =>
    rw [cell] at hc
    exact hc.elim
  | @array _ items extra cell =>
    rw [cell] at hc
    cases extra with
    | cons => exact hc.elim
    | nil =>
      refine run'_isObjectShaped_object true false (run'_node_array cell)
        (Property.run'_family_array cell) ?_ ?_
      · simp [Store.isArray, Store.arrayLength?, M.run'_bind, cell]
      · simp [isPlainObject, M.run'_bind, cell]
  | @map _ entries cell =>
    have hfamily : M.run' env w (Property.family? (.object id)) = (.ok (some .map), w) :=
      Property.run'_family_object (by simp [Property.ancestryOf, M.run'_bind, cell])
    refine run'_isObjectShaped_object false false (run'_node_map cell) hfamily ?_ ?_
    · simp [Store.isArray, Store.arrayLength?, M.run'_bind, cell]
    · simp [isPlainObject, M.run'_bind, cell]
  | @record _ properties cell plain distinct =>
    refine run'_isObjectShaped_object false true (run'_node_plain cell plain)
      (Property.run'_family_record cell) ?_ ?_
    · simp [Store.isArray, Store.arrayLength?, M.run'_bind, cell]
    · simp [isPlainObject, M.run'_bind, cell]

theorem run'_isObjectShaped_single (hv : v.isObject = false) :
    M.run' env w (isObjectShaped v) = (.ok false, w) := by
  cases v with
  | object => cases hv
  | _ => rfl

/-- What a value holds is settled: it is what a loop goes through. -/
theorem Holds.unique (h : Holds w v entries) (h' : Holds w v entries') : entries = entries' := by
  have he : M.run' Env.silent w (entriesOf v []) = (.ok entries, w) := run'_entriesOf h []
  rw [run'_entriesOf h' []] at he
  exact (Except.ok.inj (Prod.mk.inj he).1).symm

/-- What an object holds depends on the object. -/
theorem Holds.frame (h : Holds w (.object id) entries) (hcell : w'.cell id = w.cell id) :
    Holds w' (.object id) entries := by
  cases h with
  | array cell => exact .array (hcell.trans cell)
  | map cell => exact .map (hcell.trans cell)
  | set cell => exact .set (hcell.trans cell)
  | record cell plain distinct => exact .record (hcell.trans cell) plain distinct

end Present

namespace Form

/-- Whether a value is no object and is shown as a text, in whatever store. -/
def IsShown (v : Value) (t : Text) : Prop :=
  v.isObject = false ∧ ∀ env w, M.run' env w (Present.shown v) = (.ok (.text t), w)

theorem isShown_text (t : Text) : IsShown (.text t) t := ⟨rfl, fun _ _ => rfl⟩

namespace Data

variable {w w' : World} {V V' : View}

mutual

/-- The number of levels that data has. -/
def depth : Data → Nat
  | .single _ => 1
  | .parts ps => partDepth ps + 1

def partDepth : List (Text × Data) → Nat
  | [] => 0
  | (_, d) :: ps => max d.depth (partDepth ps)

end

mutual

/-- Whether a value of a store holds data, and shares no object with the nodes of a view. -/
def IsHeld (w : World) (V : View) : Data → Value → Prop
  | .single shown, v => IsShown v shown
  | .parts ps, v => ∃ id entries, v = .object id ∧ (w.cell id).Flattens ∧ ¬ V.Place id ∧
      Present.Holds w (.object id) entries ∧ AreHeld w V ps entries

/-- Whether the entries of a value hold parts. No entry is a hole. -/
def AreHeld (w : World) (V : View) : List (Text × Data) → List (Option (Value × Value)) → Prop
  | [], entries => entries = []
  | (key, d) :: ps, entries => ∃ k v rest, entries = some (k, v) :: rest ∧ IsShown k key ∧
      d.IsHeld w V v ∧ AreHeld w V ps rest

end

/-- A map beside a tree holds what its entries hold. -/
theorem isHeld_map {id : ObjectId} {entries : Entries} {ps : List (Text × Data)}
    (hcell : w.cell id = .map entries) (hid : ¬ V.Place id)
    (hps : AreHeld w V ps (entries.live.map some)) : (parts ps).IsHeld w V (.object id) :=
  ⟨id, _, rfl, by rw [hcell]; trivial, hid, .map hcell, hps⟩

/-! A step on trees leaves data alone. -/

mutual

theorem IsHeld.step (hs : TreeStep w V w' V') (d : Data) {v : Value} (h : d.IsHeld w V v) :
    d.IsHeld w' V' v := by
  match d with
  | .single shown => exact h
  | .parts ps =>
    obtain ⟨id, entries, rfl, hflat, hplace, hholds, hparts⟩ := h
    have hlt := World.lt_of_getElem? (World.getElem?_of_flattens hflat)
    have hcell : w'.cell id = w.cell id :=
      World.cell_of_getElem? ((hs.frame id hlt hplace).trans (World.getElem?_of_flattens hflat))
    exact ⟨id, entries, rfl, by rwa [hcell], fun hp => hplace (hs.place_old hlt hp),
      hholds.frame hcell, AreHeld.step hs ps hparts⟩

theorem AreHeld.step (hs : TreeStep w V w' V') (ps : List (Text × Data))
    {entries : List (Option (Value × Value))} (h : AreHeld w V ps entries) :
    AreHeld w' V' ps entries := by
  match ps with
  | [] => exact h
  | (key, d) :: ps =>
    obtain ⟨k, v, rest, rfl, hkey, hd, hps⟩ := h
    exact ⟨k, v, rest, rfl, hkey, IsHeld.step hs d hd, AreHeld.step hs ps hps⟩

end

/-! Data that is read. -/

mutual

/-- Whether data is read from a value without regard to some places: what is flattened is an object
of the store, and its entries hold the parts. -/
def IsRead (env : Env) (w : World) (P : ObjectId → Prop) : Data → Value → Prop
  | .single shown, v => M.Reads env w P (Present.isObjectShaped v) false ∧
      M.Reads env w P (Present.shown v) (.text shown)
  | .parts ps, v => ∃ id entries, v = .object id ∧ id < w.cells.size ∧
      M.Reads env w P (Present.isObjectShaped v) true ∧
      M.Reads env w P (Present.entriesOf v []) entries ∧ AreRead env w P ps entries

/-- Whether parts are read from the entries of a value. No entry is a hole. -/
def AreRead (env : Env) (w : World) (P : ObjectId → Prop) :
    List (Text × Data) → List (Option (Value × Value)) → Prop
  | [], entries => entries = []
  | (key, d) :: ps, entries => ∃ k v rest, entries = some (k, v) :: rest ∧
      M.Reads env w P (Present.shown k) (.text key) ∧ d.IsRead env w P v ∧
      AreRead env w P ps rest

end

variable {env : Env} {P : ObjectId → Prop}

/-! Data is no deeper than there are objects: an object that held itself would hold two different
things. -/

mutual

theorem IsRead.unique (d d' : Data) {v : Value} (h : d.IsRead env w P v)
    (h' : d'.IsRead env w P v) : d = d' := by
  match d, d' with
  | .single shown, .single shown' => rw [Value.text.inj (h.2.unique h'.2)]
  | .single shown, .parts ps' =>
    obtain ⟨_, _, _, _, hshape, _⟩ := h'
    cases h.1.unique hshape
  | .parts ps, .single shown' =>
    obtain ⟨_, _, _, _, hshape, _⟩ := h
    cases h'.1.unique hshape
  | .parts ps, .parts ps' =>
    obtain ⟨_, entries, _, _, _, hentries, hps⟩ := h
    obtain ⟨_, entries', _, _, _, hentries', hps'⟩ := h'
    cases hentries.unique hentries'
    rw [AreRead.unique ps ps' hps hps']

theorem AreRead.unique (ps ps' : List (Text × Data)) {entries : List (Option (Value × Value))}
    (h : AreRead env w P ps entries) (h' : AreRead env w P ps' entries) : ps = ps' := by
  match ps, ps' with
  | [], [] => rfl
  | [], (_, _) :: _ =>
    obtain ⟨_, _, _, hcons, _⟩ := h'
    cases h.symm.trans hcons
  | (_, _) :: _, [] =>
    obtain ⟨_, _, _, hcons, _⟩ := h
    cases h'.symm.trans hcons
  | (key, d) :: ps, (key', d') :: ps' =>
    obtain ⟨k, v, rest, rfl, hkey, hd, hps⟩ := h
    obtain ⟨_, _, _, he, hkey', hd', hps'⟩ := h'
    cases he
    rw [Value.text.inj (hkey.unique hkey'), IsRead.unique d d' hd hd',
      AreRead.unique ps ps' hps hps']

end

mutual

/-- The objects on the way to data hold deeper data. -/
theorem IsRead.path_le (d : Data) {v : Value} {path : List ObjectId} (h : d.IsRead env w P v)
    (hn : path.Nodup) (hp : ∀ a ∈ path, a < w.cells.size ∧
      ∃ d' : Data, d'.IsRead env w P (.object a) ∧ d.depth < d'.depth) :
    path.length + d.depth ≤ w.cells.size + 1 := by
  match d with
  | .single shown =>
    have hlen := View.length_le_of_nodup hn fun a ha => (hp a ha).1
    rw [depth]
    omega
  | .parts ps =>
    have hwhole := h
    obtain ⟨id, entries, rfl, hlt, _, _, hparts⟩ := h
    -- Whatever is on the path holds data that is deeper than what is read here.
    have hid : id ∉ path := fun hm => by
      obtain ⟨_, d', hd', hdepth⟩ := hp id hm
      rw [IsRead.unique _ _ hwhole hd'] at hdepth
      exact Nat.lt_irrefl _ hdepth
    have hpath : ∀ a ∈ id :: path, a < w.cells.size ∧
        ∃ d' : Data, d'.IsRead env w P (.object a) ∧ partDepth ps < d'.depth := by
      refine List.forall_mem_cons.2 ⟨⟨hlt, _, hwhole, Nat.lt_succ_self _⟩, fun a ha => ?_⟩
      obtain ⟨hsize, d', hd', hdepth⟩ := hp a ha
      exact ⟨hsize, d', hd', Nat.lt_of_succ_lt hdepth⟩
    have hle := AreRead.path_le ps hparts (List.nodup_cons.2 ⟨hid, hn⟩) hpath
    rw [List.length_cons] at hle
    rw [depth]
    omega

theorem AreRead.path_le (ps : List (Text × Data)) {entries : List (Option (Value × Value))}
    {path : List ObjectId} (h : AreRead env w P ps entries) (hn : path.Nodup)
    (hp : ∀ a ∈ path, a < w.cells.size ∧
      ∃ d' : Data, d'.IsRead env w P (.object a) ∧ partDepth ps < d'.depth) :
    path.length + partDepth ps ≤ w.cells.size + 1 := by
  match ps with
  | [] =>
    have hlen := View.length_le_of_nodup hn fun a ha => (hp a ha).1
    rw [partDepth]
    omega
  | (key, d) :: ps =>
    obtain ⟨k, v, rest, rfl, _, hd, hps⟩ := h
    have hfirst := IsRead.path_le d hd hn fun a ha => by
      obtain ⟨hsize, d', hd', hdepth⟩ := hp a ha
      exact ⟨hsize, d', hd', Nat.lt_of_le_of_lt (Nat.le_max_left _ _) hdepth⟩
    have hmore := AreRead.path_le ps hps hn fun a ha => by
      obtain ⟨hsize, d', hd', hdepth⟩ := hp a ha
      exact ⟨hsize, d', hd', Nat.lt_of_le_of_lt (Nat.le_max_right _ _) hdepth⟩
    rw [partDepth]
    omega

end

theorem IsRead.depth_le {d : Data} {v : Value} (h : d.IsRead env w P v) :
    d.depth ≤ w.cells.size + 1 := by
  have hle := IsRead.path_le d h List.nodup_nil nofun
  rwa [List.length_nil, Nat.zero_add] at hle

/-! Data that is held. -/

theorem reads_of_isShown {v : Value} {t : Text} (h : IsShown v t) :
    M.Reads env w P (Present.shown v) (.text t) :=
  .of_run fun w' _ => h.2 env w'

mutual

/-- Data that is held beside a tree is read without regard to the places of its nodes. -/
theorem IsHeld.isRead (env : Env) (hP : ∀ id, P id → V.Place id) (d : Data) {v : Value}
    (h : d.IsHeld w V v) : d.IsRead env w P v := by
  match d with
  | .single shown =>
    exact ⟨.of_run fun w' _ => Present.run'_isObjectShaped_single h.1, reads_of_isShown h⟩
  | .parts ps =>
    obtain ⟨id, entries, rfl, hflat, hplace, hholds, hparts⟩ := h
    have hlt := World.lt_of_getElem? (World.getElem?_of_flattens hflat)
    have hcell : ∀ {w'}, w.DiffersAt P w' → w'.cell id = w.cell id := fun hw =>
      hw.cell (fun hp => hplace (hP id hp)) hlt
    refine ⟨id, entries, rfl, hlt, .of_run fun w' hw => ?_, .of_run fun w' hw => ?_,
      AreHeld.areRead env hP ps hparts⟩
    · exact Present.run'_isObjectShaped (hholds.frame (hcell hw)) (by rwa [hcell hw])
    · exact Present.run'_entriesOf (hholds.frame (hcell hw)) []

theorem AreHeld.areRead (env : Env) (hP : ∀ id, P id → V.Place id) (ps : List (Text × Data))
    {entries : List (Option (Value × Value))} (h : AreHeld w V ps entries) :
    AreRead env w P ps entries := by
  match ps with
  | [] => exact h
  | (key, d) :: ps =>
    obtain ⟨k, v, rest, rfl, hkey, hd, hps⟩ := h
    exact ⟨k, v, rest, rfl, reads_of_isShown hkey, IsHeld.isRead env hP d hd,
      AreHeld.areRead env hP ps hps⟩

end

theorem IsHeld.depth_le {d : Data} {v : Value} (h : d.IsHeld w V v) :
    d.depth ≤ w.cells.size + 1 :=
  (IsHeld.isRead Env.silent (fun _ hp => hp) d h).depth_le

end Data

end Form

end PageTemplate
