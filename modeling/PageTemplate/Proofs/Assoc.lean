import PageTemplate.Assoc
import PageTemplate.Value.Entries

/-!
# PageTemplate.Proofs.Assoc

Lists of pairs with distinct keys: binding a new key adds it at the end.

The entries of a map whose keys are texts: finding, replacing and removing one of them.
-/

namespace PageTemplate

namespace Assoc

variable {κ ν : Type} [BEq κ] [LawfulBEq κ]

theorem find?_of_not_mem {key : κ} {pairs : List (κ × ν)} (h : key ∉ pairs.map (·.1)) :
    find? key pairs = none := by
  induction pairs with
  | nil => rfl
  | cons pair pairs ih =>
    obtain ⟨k, v⟩ := pair
    simp only [List.map_cons, List.mem_cons, not_or] at h
    have hk : ¬ k = key := fun e => h.1 e.symm
    simp [find?, hk, ih h.2]

theorem not_mem_of_find? {key : κ} {pairs : List (κ × ν)} (h : find? key pairs = none) :
    key ∉ pairs.map (·.1) := by
  induction pairs with
  | nil => exact List.not_mem_nil
  | cons pair pairs ih =>
    obtain ⟨k, v⟩ := pair
    simp only [find?] at h
    split at h
    · cases h
    · rename_i hk
      rw [List.map_cons, List.mem_cons, not_or]
      exact ⟨fun he => hk (by simp [he]), ih h⟩

/-- What is found is in the list. -/
theorem mem_of_find? {key : κ} {value : ν} {pairs : List (κ × ν)}
    (h : find? key pairs = some value) : (key, value) ∈ pairs := by
  induction pairs with
  | nil => cases h
  | cons pair pairs ih =>
    obtain ⟨k, v⟩ := pair
    simp only [find?] at h
    split at h
    · cases h
      rename_i hk
      rw [eq_of_beq hk]
      exact List.mem_cons_self
    · exact List.mem_cons_of_mem _ (ih h)

/-- What is in a list with distinct keys is found by its key. -/
theorem find?_of_mem {key : κ} {value : ν} {pairs : List (κ × ν)} (hn : (pairs.map (·.1)).Nodup)
    (h : (key, value) ∈ pairs) : find? key pairs = some value := by
  induction pairs with
  | nil => cases h
  | cons pair pairs ih =>
    obtain ⟨k, v⟩ := pair
    obtain ⟨hk, hn⟩ := List.nodup_cons.1 hn
    rcases List.mem_cons.1 h with h | h
    · cases h
      simp [find?]
    · have hne : ¬ k = key := fun he => hk (List.mem_map.2 ⟨_, h, he.symm⟩)
      simp [find?, hne, ih hn h]

theorem find?_erase (key : κ) (pairs : List (κ × ν)) : find? key (erase key pairs) = none := by
  refine find?_of_not_mem fun hm => ?_
  obtain ⟨pair, hp, rfl⟩ := List.mem_map.1 hm
  simp [erase] at hp

omit [LawfulBEq κ] in
/-- What is not found in a list is looked for in the one behind it. -/
theorem find?_append (key : κ) (pairs more : List (κ × ν)) :
    find? key (pairs ++ more) = (find? key pairs).or (find? key more) := by
  induction pairs with
  | nil => rfl
  | cons pair pairs ih =>
    rw [List.cons_append, find?, find?, ih]
    split <;> rfl

/-- Dropping a key leaves the others. -/
theorem find?_erase_of_ne {key other : κ} (h : other ≠ key) (pairs : List (κ × ν)) :
    find? other (erase key pairs) = find? other pairs := by
  induction pairs with
  | nil => rfl
  | cons pair pairs ih =>
    rw [erase] at ih ⊢
    by_cases hk : pair.1 = key
    · have hother : (pair.1 == other) = false := by simpa [hk] using h.symm
      rw [List.filter_cons_of_neg (by simp [hk]), ih, find?, hother]
      rfl
    · rw [List.filter_cons_of_pos (by simp [hk]), find?, find?, ih]

/-- Lists that are the same without a key have the same values for others. -/
theorem find?_eq_of_erase_eq {key other : κ} {pairs pairs' : List (κ × ν)}
    (h : erase key pairs = erase key pairs') (hne : other ≠ key) :
    find? other pairs = find? other pairs' := by
  rw [← find?_erase_of_ne hne pairs, h, find?_erase_of_ne hne]

theorem put_of_not_mem {key : κ} {pairs : List (κ × ν)} (h : key ∉ pairs.map (·.1)) (value : ν) :
    put key value pairs = pairs ++ [(key, value)] := by
  induction pairs with
  | nil => rfl
  | cons pair pairs ih =>
    obtain ⟨k, v⟩ := pair
    simp only [List.map_cons, List.mem_cons, not_or] at h
    have hk : ¬ k = key := fun e => h.1 e.symm
    simp [put, hk, ih h.2]

theorem find?_put_self (key : κ) (value : ν) (pairs : List (κ × ν)) :
    find? key (put key value pairs) = some value := by
  induction pairs with
  | nil => simp [put, find?]
  | cons pair pairs ih =>
    rw [put]
    split
    · rename_i hk
      simp [find?, hk]
    · rename_i hk
      simp [find?, hk, ih]

/-- Binding a key leaves the others. -/
theorem find?_put_of_ne {key other : κ} (h : other ≠ key) (value : ν) (pairs : List (κ × ν)) :
    find? other (put key value pairs) = find? other pairs := by
  induction pairs with
  | nil =>
    have hne : ¬ key = other := fun he => h he.symm
    simp [put, find?, hne]
  | cons pair pairs ih =>
    rw [put]
    split
    · rename_i hk
      have hne : ¬ pair.1 = other := fun he => h (he.symm.trans (eq_of_beq hk))
      simp [find?, hne]
    · rw [find?, find?, ih]

/-- Binding a key adds it to the keys that there are, if it is none of them. -/
theorem keys_put (key : κ) (value : ν) (pairs : List (κ × ν)) :
    (put key value pairs).map (·.1) =
      if key ∈ pairs.map (·.1) then pairs.map (·.1) else pairs.map (·.1) ++ [key] := by
  induction pairs with
  | nil => rfl
  | cons pair pairs ih =>
    obtain ⟨k, v⟩ := pair
    by_cases hk : k = key
    · simp [put, hk]
    · have hk' : ¬ key = k := fun e => hk e.symm
      simp only [put, beq_iff_eq, hk, if_false, List.map_cons, ih, List.mem_cons, hk', false_or]
      split <;> rfl

theorem nodup_put {pairs : List (κ × ν)} (h : (pairs.map (·.1)).Nodup) (key : κ) (value : ν) :
    ((put key value pairs).map (·.1)).Nodup := by
  rw [keys_put]
  split
  · exact h
  · rename_i hk
    rw [List.nodup_append]
    refine ⟨h, by simp, ?_⟩
    rintro a ha b hb rfl
    exact hk (List.mem_singleton.1 hb ▸ ha)

end Assoc

/-! Entries of maps. -/

namespace Value

@[simp] theorem text_beq (s t : Text) : (Value.text s == Value.text t) = (s == t) := rfl

@[simp] theorem text_strictlyEqual (s t : Text) :
    (Value.text s).strictlyEqual (.text t) = (s == t) := rfl

end Value

namespace Entries

@[simp] theorem live_nil : live [] = [] := rfl

@[simp] theorem live_none (es : Entries) : live (none :: es) = live es := rfl

@[simp] theorem live_some (e : Value × Value) (es : Entries) :
    live (some e :: es) = e :: live es := rfl

@[simp] theorem live_append (es fs : Entries) : live (es ++ fs) = live es ++ live fs := by
  simp [live]

/-- The entries of a map after the values of some keys were replaced. -/
theorem live_map (g : Value × Value → Value × Value) (es : Entries) :
    live (es.map fun e => e.map g) = es.live.map g := by
  induction es with
  | nil => rfl
  | cons e es ih => cases e <;> simp [ih]

/-- Whether no entry has a certain key. -/
def Lacks (key : Value) (es : Entries) : Prop := ∀ e ∈ es.live, (e.1 == key) = false

theorem Lacks.append {key : Value} {es fs : Entries} (h : Lacks key es) (h' : Lacks key fs) :
    Lacks key (es ++ fs) := by
  intro e he
  rw [live_append, List.mem_append] at he
  exact he.elim (h e) (h' e)

theorem Lacks.find_eq {key : Value} {es : Entries} (h : Lacks key es) : es.find? key = none := by
  simp only [find?]
  generalize hl : es.live = l at h
  have : ∀ e ∈ l, (e.1 == key) = false := fun e he => h e (hl ▸ he)
  clear h hl
  induction l with
  | nil => rfl
  | cons e l ih =>
    simp only [Assoc.find?, this e List.mem_cons_self, Bool.false_eq_true, if_false]
    exact ih fun e' he => this e' (List.mem_cons_of_mem e he)

/-- Replacing leaves entries with other keys alone. -/
theorem Lacks.map_eq {key : Value} {es : Entries} (h : Lacks key es) (value : Value) :
    es.map (fun e => e.map fun (k, v) => if k == key then (k, value) else (k, v)) = es := by
  induction es with
  | nil => rfl
  | cons e es ih =>
    cases e with
    | none => simpa using ih h
    | some e =>
      have he := h e List.mem_cons_self
      have hes : Lacks key es := fun f hf => h f (List.mem_cons_of_mem e hf)
      rw [List.map_cons, ih hes]
      simp [he]

theorem find_append {key : Value} {es fs : Entries} (h : Lacks key es) :
    (es ++ fs).find? key = fs.find? key := by
  induction es with
  | nil => rfl
  | cons e es ih =>
    cases e with
    | none => exact ih h
    | some e =>
      have he := h e List.mem_cons_self
      have hes : Lacks key es := fun f hf => h f (List.mem_cons_of_mem e hf)
      have hfind := ih hes
      simp only [find?, List.cons_append, live_some, Assoc.find?, he, Bool.false_eq_true,
        if_false] at hfind ⊢
      exact hfind

/-- Binding a text that is a key replaces its value where it stands. -/
theorem put_middle {name : Text} {es fs : Entries} (hes : Lacks (.text name) es)
    (hfs : Lacks (.text name) fs) (old value : Value) :
    (es ++ some (.text name, old) :: fs).put (.text name) value =
      es ++ some (.text name, value) :: fs := by
  have hhas : (es ++ some (.text name, old) :: fs).has (.text name) = true := by
    rw [has, find_append hes]
    simp [find?, Assoc.find?]
  rw [put, if_pos hhas, List.map_append, List.map_cons, hes.map_eq, hfs.map_eq]
  simp

/-- Binding a new text adds it at the end. -/
theorem put_new {name : Text} {es : Entries} (h : Lacks (.text name) es) (value : Value) :
    es.put (.text name) value = es ++ [some (.text name, value)] := by
  rw [put, has, h.find_eq]
  rfl

/-- Only the text itself is the same as a text. -/
theorem beq_text_iff {key : Value} {t : Text} : (key == .text t) = true ↔ key = .text t := by
  cases key with
  | text s => simp
  | _ => exact iff_of_false Bool.false_ne_true (by simp)

/-- The pairs with the value of one text replaced. -/
theorem find?_replace (key : Text) (value : Value) (pairs : List (Value × Value)) (other : Text) :
    Assoc.find? (.text other)
        (pairs.map fun (k, v) => if k == .text key then (k, value) else (k, v)) =
      if other = key then (Assoc.find? (.text key) pairs).map fun _ => value
      else Assoc.find? (.text other) pairs := by
  induction pairs with
  | nil => simp [Assoc.find?]
  | cons pair pairs ih =>
    obtain ⟨k, v⟩ := pair
    by_cases hk : k = .text key
    · by_cases ho : other = key
      · simp [hk, ho, Assoc.find?]
      · have hne : ¬ key = other := fun he => ho he.symm
        simpa [hk, ho, hne, Assoc.find?] using ih
    · have hkey : (k == .text key) = false := by
        rwa [← Bool.not_eq_true, beq_text_iff]
      simp only [List.map_cons, hkey, Bool.false_eq_true, if_false, Assoc.find?, ih]
      split
      · rename_i hother
        have hne : other ≠ key := by
          rintro rfl
          exact hk (beq_text_iff.1 hother)
        rw [if_neg hne]
      · rfl

/-- A text that is bound has its value, and other texts keep theirs. -/
theorem find?_put (key : Text) (value : Value) (es : Entries) (other : Text) :
    (es.put (.text key) value).find? (.text other) =
      if other = key then some value else es.find? (.text other) := by
  rw [put]
  split
  · rename_i hhas
    obtain ⟨v, hv⟩ := Option.isSome_iff_exists.1 hhas
    rw [find?, live_map, find?_replace, show Assoc.find? (.text key) es.live = some v from hv]
    rfl
  · rename_i hhas
    have hnone : es.find? (.text key) = none := by simpa [has] using hhas
    have hlast : ∀ pairs : List (Value × Value),
        Assoc.find? (.text other) (pairs ++ [(.text key, value)]) =
          (Assoc.find? (.text other) pairs).or (if key = other then some value else none) := by
      intro pairs
      induction pairs with
      | nil => simp [Assoc.find?]
      | cons pair pairs ih =>
        simp only [List.cons_append, Assoc.find?, ih]
        split <;> rfl
    rw [find?, live_append]
    refine (hlast es.live).trans ?_
    by_cases h : other = key
    · subst h
      rw [if_pos rfl, if_pos rfl, show Assoc.find? (.text other) es.live = none from hnone,
        Option.none_or]
    · rw [if_neg h, if_neg fun he => h he.symm, Option.or_none]
      rfl

theorem ofList_concat (l : List (Value × Value)) (e : Value × Value) :
    ofList (l ++ [e]) = (ofList l).put e.1 e.2 := by
  rw [ofList, List.foldl_append]
  rfl

end Entries

end PageTemplate
