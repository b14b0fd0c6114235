import PageTemplate.Proofs.Ensures
import PageTemplate.Proofs.Json.Spelling
import PageTemplate.Value.Present

/-!
# PageTemplate.Proofs.Json.Written

What values are written as spells a JSON document: by induction on the nesting, each kind of value
is written in a form that the reader takes, and the pieces between brackets are put together from
those inside.
-/

namespace PageTemplate

variable {env : Env}

/-- A text that spells some document. -/
def Json.IsSpelled (t : Text) : Prop := ∃ document, Json.Spells t document

namespace Stringify

open Json

theorem exists_forall₂ {α β : Type} {R : α → β → Prop} {xs : List α} (h : ∀ x ∈ xs, ∃ y, R x y) :
    ∃ ys, List.Forall₂ R xs ys := by
  induction xs with
  | nil => exact ⟨[], .nil⟩
  | cons x xs ih =>
    obtain ⟨y, hy⟩ := h x List.mem_cons_self
    obtain ⟨ys, hys⟩ := ih fun z hz => h z (List.mem_cons_of_mem x hz)
    exact ⟨y :: ys, .cons hy hys⟩

/-- Without indentation the pieces stand between the brackets with commas between them. -/
theorem bracketed_compact {style : Style} (hgap : style.gap = []) (indent : Text)
    (opening closing : Char) (pieces : List Text) :
    bracketed style indent opening closing pieces =
      unit opening :: Text.join [unit ','] pieces ++ [unit closing] := by
  unfold bracketed
  split
  · rename_i hnone
    rw [List.isEmpty_iff.1 hnone]
    rfl
  · rw [if_pos (by simp [hgap])]

theorem isSpelled_array {style : Style} (hgap : style.gap = []) (indent : Text)
    {pieces : List Text} (h : ∀ piece ∈ pieces, IsSpelled piece) :
    IsSpelled (bracketed style indent '[' ']' pieces) := by
  obtain ⟨documents, hdocuments⟩ := exists_forall₂ h
  rw [bracketed_compact hgap]
  exact ⟨.array documents, spells_array hdocuments⟩

theorem spellsMember {style : Style} (hgap : style.gap = []) (key : Text) {value : Text}
    (h : IsSpelled value) : ∃ m, SpellsMember (member style key value) m := by
  obtain ⟨document, hd⟩ := h
  refine ⟨(key, document), value, ?_, hd⟩
  rw [member, if_pos (by simp [hgap]), List.append_assoc]
  rfl

theorem isSpelled_object {style : Style} (hgap : style.gap = []) (indent : Text)
    {pieces : List (Option Text)} (h : ∀ piece ∈ pieces, ∀ t ∈ piece, ∃ m, SpellsMember t m) :
    IsSpelled (bracketed style indent '\x7b' '\x7d' (pieces.filterMap fun piece => piece)) := by
  obtain ⟨members, hmembers⟩ : ∃ members,
      List.Forall₂ SpellsMember (pieces.filterMap fun piece => piece) members := by
    refine exists_forall₂ fun t ht => ?_
    obtain ⟨piece, hp, rfl⟩ := List.mem_filterMap.1 ht
    exact h _ hp t rfl
  rw [bracketed_compact hgap]
  exact ⟨.object (Assoc.ofList members), spells_object hmembers⟩

/-- Whatever stands for the values, what is written spells a document. -/
theorem ensures_writeWithin {style : Style} (hgap : style.gap = []) (n : Nat)
    (path : List ObjectId) (indent : Text) (holder : Value) (key : Text) (v : Value) :
    Ensures env (fun _ => True) (writeWithin style n path indent holder key v)
      fun piece _ => True ∧ ∀ t ∈ piece, IsSpelled t := by
  induction n generalizing path indent holder key v with
  | zero => exact .throw _
  | succ n ih =>
    unfold writeWithin
    refine (Ensures.always _).bind fun v => ?_
    have written : ∀ {t : Text}, IsSpelled t →
        Ensures env (fun _ => True) (pure (some t) : M (Option Text))
          fun piece _ => True ∧ ∀ t ∈ piece, IsSpelled t := by
      intro t h
      refine .pure fun _ _ => ⟨trivial, ?_⟩
      rintro _ ⟨⟩
      exact h
    have absent : Ensures env (fun _ => True) (pure none : M (Option Text))
        fun piece _ => True ∧ ∀ t ∈ piece, IsSpelled t :=
      .pure fun _ _ => ⟨trivial, by simp⟩
    cases v with
    | null => exact written ⟨_, spells_null⟩
    | bool b => exact written ⟨_, spells_bool b⟩
    | text t => exact written ⟨_, spells_quote t⟩
    | number x =>
      dsimp only
      split
      · exact written ⟨_, spells_null⟩
      · rename_i h
        simp only [Bool.or_eq_true, not_or, Bool.not_eq_true] at h
        obtain ⟨y, hy⟩ := spells_format h.1 h.2
        exact written ⟨_, hy⟩
    | bigint => exact .typeError
    | undefined => exact absent
    | symbol => exact absent
    | function => exact absent
    | object id =>
      dsimp only
      split
      · exact .throw_bind _ _
      refine (Ensures.always _).bind fun items => ?_
      cases items with
      | some items =>
        have pieces : Ensures env (fun _ => True)
            ((List.range items.length).mapM fun i => do
              return (← writeWithin style n (id :: path) (indent ++ style.gap) (.object id)
                (Text.ofNat i) (← Property.get (.object id) (Text.ofNat i))).getD "null")
            fun pieces _ => True ∧ ∀ piece ∈ pieces, IsSpelled piece := by
          refine .mapM fun i _ => (Ensures.always _).bind fun part => ?_
          refine (ih _ _ _ _ part).bind fun piece => .pre fun hpiece => .pure fun _ _ => ⟨trivial, ?_⟩
          cases piece with
          | none => exact ⟨.null, spells_null⟩
          | some t => exact hpiece t rfl
        refine pieces.bind fun texts => .pre fun htexts => ?_
        exact written (isSpelled_array hgap indent htexts)
      | none =>
        have members : ∀ keys : List Text, Ensures env (fun _ => True) (do
            let pieces ← keys.mapM fun key => do
              return (← writeWithin style n (id :: path) (indent ++ style.gap) (.object id) key
                (← Property.get (.object id) key)).map (member style key)
            return some (bracketed style indent '\x7b' '\x7d'
              (pieces.filterMap fun piece => piece)))
            fun piece _ => True ∧ ∀ t ∈ piece, IsSpelled t := by
          intro keys
          have pieces : Ensures env (fun _ => True)
              (keys.mapM fun key => do
                return (← writeWithin style n (id :: path) (indent ++ style.gap) (.object id) key
                  (← Property.get (.object id) key)).map (member style key))
              fun pieces _ => True ∧ ∀ piece ∈ pieces, ∀ t ∈ piece, ∃ m, SpellsMember t m := by
            refine .mapM fun key _ => (Ensures.always _).bind fun part => ?_
            refine (ih _ _ _ _ part).bind fun piece => .pre fun hpiece =>
              .pure fun _ _ => ⟨trivial, ?_⟩
            rintro t ht
            obtain ⟨value, hvalue, rfl⟩ := Option.map_eq_some_iff.1 ht
            exact spellsMember hgap key (hpiece value hvalue)
          refine pieces.bind fun texts => .pre fun htexts => ?_
          exact written (isSpelled_object hgap indent htexts)
        cases style.keys with
        | some keys => exact members keys
        | none => exact (Ensures.always _).bind members

/-- The JSON text of a value spells a document. -/
theorem ensures_write {style : Style} (hgap : style.gap = []) (v : Value) :
    Ensures env (fun _ => True) (write style v) fun written _ => ∀ t ∈ written, IsSpelled t := by
  refine (Ensures.always _).bind fun depth => (Ensures.always _).bind fun holder => ?_
  exact (ensures_writeWithin hgap _ _ _ _ _ _).imp fun _ _ h => h.2

end Stringify

end PageTemplate
