import Mathlib.Data.List.Basic
import Mathlib.Data.List.Nodup
import PageTemplate.Form.Field
import PageTemplate.Proofs.Text

/-!
# PageTemplate.Proofs.Form.Names

The fields that data is flattened into, and their names. As long as no key has the mark that stands
for keys, the name of a field is the path to its part in brackets, and different parts have
different names. A key with the mark is written into the name of its part, where the next key takes
its place: names that belong to different parts become one.
-/

namespace PageTemplate

namespace Form

/-- Data for a form: what a single value is shown as, or parts with their keys. -/
inductive Data where
  | single (shown : Text)
  | parts (parts : List (Text × Data))

namespace Data

mutual

/-- The fields of data, a name and a value each: first its own, then those of its parts. -/
def fields (name : Text) : Data → List (Text × Text)
  | .single shown => [(name, shown)]
  | .parts ps => (name, []) :: partFields name ps

def partFields (name : Text) : List (Text × Data) → List (Text × Text)
  | [] => []
  | (key, d) :: ps => d.fields (childName name key) ++ partFields name ps

end

mutual

/-- The parts of data in the order of their fields: the keys on the way there, and what a part is
shown as. -/
def paths : Data → List (List Text × Text)
  | .single shown => [([], shown)]
  | .parts ps => ([], []) :: partPaths ps

def partPaths : List (Text × Data) → List (List Text × Text)
  | [] => []
  | (key, d) :: ps => d.paths.map (fun p => (key :: p.1, p.2)) ++ partPaths ps

end

mutual

/-- Whether parts of one whole have different keys everywhere. -/
def Distinct : Data → Prop
  | .single _ => True
  | .parts ps => (ps.map Prod.fst).Nodup ∧ AllDistinct ps

def AllDistinct : List (Text × Data) → Prop
  | [] => True
  | (_, d) :: ps => d.Distinct ∧ AllDistinct ps

end

mutual

/-- Whether all keys in data are of some kind. -/
def Keys (P : Text → Prop) : Data → Prop
  | .single _ => True
  | .parts ps => PartKeys P ps

def PartKeys (P : Text → Prop) : List (Text × Data) → Prop
  | [] => True
  | (key, d) :: ps => P key ∧ d.Keys P ∧ PartKeys P ps

end

/-! Different parts have different paths. -/

theorem exists_key_of_mem_partPaths {ps : List (Text × Data)} {p : List Text × Text}
    (h : p ∈ partPaths ps) : ∃ key rest, p.1 = key :: rest ∧ key ∈ ps.map Prod.fst := by
  induction ps with
  | nil => cases h
  | cons part ps ih =>
    obtain ⟨key, d⟩ := part
    rw [partPaths, List.mem_append, List.mem_map] at h
    rcases h with ⟨q, _, rfl⟩ | h
    · exact ⟨key, q.1, rfl, List.mem_cons_self⟩
    · obtain ⟨key', rest, hpath, hkey⟩ := ih h
      exact ⟨key', rest, hpath, List.mem_cons_of_mem key hkey⟩

mutual

theorem nodup_paths (d : Data) (h : d.Distinct) : (d.paths.map Prod.fst).Nodup := by
  match d with
  | .single shown => exact List.nodup_singleton _
  | .parts ps =>
    rw [paths, List.map_cons]
    refine List.nodup_cons.2 ⟨fun hm => ?_, nodup_partPaths ps h.1 h.2⟩
    obtain ⟨p, hp, hnil⟩ := List.mem_map.1 hm
    obtain ⟨key, rest, hpath, _⟩ := exists_key_of_mem_partPaths hp
    cases hnil.symm.trans hpath

theorem nodup_partPaths (ps : List (Text × Data)) (hkeys : (ps.map Prod.fst).Nodup)
    (h : AllDistinct ps) : ((partPaths ps).map Prod.fst).Nodup := by
  match ps with
  | [] => exact List.nodup_nil
  | (key, d) :: ps =>
    obtain ⟨hkey, hkeys⟩ := List.nodup_cons.1 hkeys
    have hfirst : ((d.paths.map fun p => (key :: p.1, p.2)).map Prod.fst).Nodup := by
      have hmap : (d.paths.map fun p => (key :: p.1, p.2)).map Prod.fst =
          (d.paths.map Prod.fst).map (key :: ·) := by
        simp only [List.map_map, Function.comp_def]
      rw [hmap]
      exact (nodup_paths d h.1).map fun _ _ he => (List.cons.inj he).2
    rw [partPaths, List.map_append]
    refine hfirst.append (nodup_partPaths ps hkeys h.2) fun path hp hq => ?_
    obtain ⟨_, hcons, rfl⟩ := List.mem_map.1 hp
    obtain ⟨p, _, rfl⟩ := List.mem_map.1 hcons
    obtain ⟨q, hq, hpath⟩ := List.mem_map.1 hq
    obtain ⟨key', rest, hcons', hmem⟩ := exists_key_of_mem_partPaths hq
    cases hpath.symm.trans hcons'
    exact hkey hmem

end

end Data

/-! Names in brackets. -/

/-- A key in brackets. -/
def bracket (key : Text) : Text := unit '[' :: key ++ [unit ']']

/-- The name of a field at the end of a path. -/
def bracketed (name : Text) (path : List Text) : Text := name ++ path.flatMap bracket

/-- Whether a key can be written in brackets: it has neither the mark nor a closing bracket. -/
def IsPlainKey (key : Text) : Prop := unit '%' ∉ key ∧ unit ']' ∉ key

theorem childName_of_unmarked {name : Text} (h : unit '%' ∉ name) (key : Text) :
    childName name key = name ++ bracket key := by
  rw [childName, if_neg (by simpa using h), bracket]
  simp

theorem unmarked_bracket {name key : Text} (h : unit '%' ∉ name) (hkey : unit '%' ∉ key) :
    unit '%' ∉ name ++ bracket key := by
  have hopen : unit '%' ≠ unit '[' := by decide
  have hclose : unit '%' ≠ unit ']' := by decide
  simp [bracket, h, hkey, hopen, hclose]

theorem bracketed_bracket (name key : Text) (path : List Text) :
    bracketed (name ++ bracket key) path = bracketed name (key :: path) := by
  simp [bracketed]

/-- A path can be read off the name. -/
theorem bracketed_injective {name : Text} {path path' : List Text}
    (h : ∀ key ∈ path, IsPlainKey key) (h' : ∀ key ∈ path', IsPlainKey key)
    (he : bracketed name path = bracketed name path') : path = path' := by
  have hflat := List.append_cancel_left he
  clear he
  induction path generalizing path' with
  | nil =>
    cases path' with
    | nil => rfl
    | cons key' path' => cases hflat
  | cons key path ih =>
    cases path' with
    | nil => cases hflat
    | cons key' path' =>
      obtain ⟨⟨_, hkey⟩, hpath⟩ := List.forall_mem_cons.1 h
      obtain ⟨⟨_, hkey'⟩, hpath'⟩ := List.forall_mem_cons.1 h'
      simp only [List.flatMap_cons, bracket, List.cons_append, List.append_assoc,
        List.nil_append, List.cons.injEq, true_and] at hflat
      have hread := Text.breakAt_append hkey (path.flatMap bracket)
      rw [hflat, Text.breakAt_append hkey'] at hread
      obtain ⟨rfl, hrest⟩ := Prod.mk.inj (Option.some.inj hread)
      rw [ih hpath hpath' hrest.symm]

namespace Data

mutual

/-- Fields are named by paths. -/
theorem fields_eq_paths (d : Data) {name : Text} (hname : unit '%' ∉ name)
    (h : d.Keys IsPlainKey) :
    d.fields name = d.paths.map fun p => (bracketed name p.1, p.2) := by
  match d with
  | .single shown => simp [fields, paths, bracketed]
  | .parts ps =>
    rw [fields, paths, List.map_cons, partFields_eq_paths ps hname h]
    simp [bracketed]

theorem partFields_eq_paths (ps : List (Text × Data)) {name : Text} (hname : unit '%' ∉ name)
    (h : PartKeys IsPlainKey ps) :
    partFields name ps = (partPaths ps).map fun p => (bracketed name p.1, p.2) := by
  match ps with
  | [] => rfl
  | (key, d) :: ps =>
    obtain ⟨hkey, hd, hps⟩ := h
    rw [partFields, partPaths, List.map_append, partFields_eq_paths ps hname hps,
      childName_of_unmarked hname, fields_eq_paths d (unmarked_bracket hname hkey.1) hd]
    simp only [List.map_map, Function.comp_def, bracketed_bracket]

end

mutual

theorem forall_keys (d : Data) {P : Text → Prop} (h : d.Keys P) :
    ∀ p ∈ d.paths, ∀ key ∈ p.1, P key := by
  match d with
  | .single shown => simp [paths]
  | .parts ps =>
    rw [paths]
    exact List.forall_mem_cons.2 ⟨by simp, forall_partKeys ps h⟩

theorem forall_partKeys (ps : List (Text × Data)) {P : Text → Prop} (h : PartKeys P ps) :
    ∀ p ∈ partPaths ps, ∀ key ∈ p.1, P key := by
  match ps with
  | [] => simp [partPaths]
  | (key, d) :: ps =>
    obtain ⟨hkey, hd, hps⟩ := h
    rw [partPaths]
    refine List.forall_mem_append.2 ⟨fun p hp => ?_, forall_partKeys ps hps⟩
    obtain ⟨q, hq, rfl⟩ := List.mem_map.1 hp
    exact List.forall_mem_cons.2 ⟨hkey, forall_keys d hd q hq⟩

end

/-- Different parts have different names. -/
theorem nodup_names {d : Data} {name : Text} (hname : unit '%' ∉ name) (hkeys : d.Keys IsPlainKey)
    (hd : d.Distinct) : ((d.fields name).map Prod.fst).Nodup := by
  have hnames : (d.fields name).map Prod.fst = (d.paths.map Prod.fst).map (bracketed name) := by
    rw [fields_eq_paths d hname hkeys]
    simp only [List.map_map, Function.comp_def]
  rw [hnames]
  refine (nodup_paths d hd).map_on fun path hm path' hm' he => ?_
  obtain ⟨p, hp, rfl⟩ := List.mem_map.1 hm
  obtain ⟨p', hp', rfl⟩ := List.mem_map.1 hm'
  exact bracketed_injective (forall_keys d hkeys p hp) (forall_keys d hkeys p' hp') he

end Data

/-- A key that is the mark makes way for the next key, so that what is inside of its part is named
like what stands beside it. -/
theorem childName_mark {name : Text} (h : unit '%' ∉ name) (key : Text) :
    childName (childName name [unit '%']) key = childName name key := by
  have hopen : unit '%' ≠ unit '[' := by decide
  have hmarked : name ++ bracket [unit '%'] = (name ++ [unit '[']) ++ unit '%' :: [unit ']'] := by
    simp [bracket]
  have hcontains : (name ++ bracket [unit '%']).contains (unit '%') = true := by simp [bracket]
  rw [childName_of_unmarked h, childName_of_unmarked h, childName, if_pos hcontains, hmarked,
    Text.splitOn_append (by simp [h, hopen]), Text.splitOn_of_not_mem (by decide)]
  simp [Text.join, bracket, List.intercalate]

example : (Data.parts [("%", .parts [("a", .single "1")]), ("a", .single "2")]).fields "x" =
    [("x", ""), ("x[%]", ""), ("x[a]", "1"), ("x[a]", "2")].map (.map .ofString .ofString) := by
  decide +kernel

end Form

end PageTemplate
