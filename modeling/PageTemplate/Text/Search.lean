import PageTemplate.Text.Basic

/-!
# PageTemplate.Text.Search

Finding, cutting and replacing parts of a text.
-/

namespace PageTemplate

namespace Text

/-- What follows the given beginning, if the text has it. -/
def afterPrefix : Text → Text → Option Text
  | [], t => some t
  | _ :: _, [] => none
  | p :: ps, c :: cs => if p == c then afterPrefix ps cs else none

def startsWith (t beginning : Text) : Bool := (afterPrefix beginning t).isSome

def endsWith (t ending : Text) : Bool := startsWith t.reverse ending.reverse

/-- The text before the first occurrence of `pattern` and the text after it. -/
def breakOn (pattern : Text) : Text → Option (Text × Text)
  | [] => if pattern.isEmpty then some ([], []) else none
  | c :: cs =>
    match afterPrefix pattern (c :: cs) with
    | some rest => some ([], rest)
    | none => (breakOn pattern cs).map fun (before, after) => (c :: before, after)

/-- The text before the first occurrence of a unit and the text after it. -/
def breakAt (u : CodeUnit) : Text → Option (Text × Text)
  | [] => none
  | c :: cs =>
    if c == u then some ([], cs)
    else (breakAt u cs).map fun (before, after) => (c :: before, after)

def includes (t pattern : Text) : Bool := (breakOn pattern t).isSome

/-- The position of the first occurrence of `pattern`. -/
def indexOf (t pattern : Text) : Option Nat := (breakOn pattern t).map (·.1.length)

/-- The position of the first occurrence of `pattern` at or after `start`. -/
def indexOfFrom (t pattern : Text) (start : Nat) : Option Nat :=
  (indexOf (t.drop start) pattern).map (· + start)

/-- The position of the last occurrence of `pattern` that starts at or before `last`. -/
def lastIndexOf (t pattern : Text) (last : Nat) : Option Nat :=
  ((List.range (min last t.length + 1)).reverse).find? fun i => startsWith (t.drop i) pattern

theorem afterPrefix_eq_some_iff {p t rest : Text} :
    afterPrefix p t = some rest ↔ t = p ++ rest := by
  induction p generalizing t with
  | nil => simp [afterPrefix]
  | cons a p ih =>
    cases t with
    | nil => simp [afterPrefix]
    | cons b t =>
      by_cases hab : a = b
      · simp [afterPrefix, hab, ih]
      · simp [afterPrefix, hab, Ne.symm hab]

/-- Nothing is lost when a text is broken. -/
theorem eq_of_breakOn {p t before after : Text} (h : breakOn p t = some (before, after)) :
    t = before ++ p ++ after := by
  induction t generalizing before after with
  | nil =>
    simp only [breakOn] at h
    split at h
    · rename_i hp
      cases h
      simpa using hp
    · cases h
  | cons c t ih =>
    simp only [breakOn] at h
    split at h
    · rename_i rest hr
      cases h
      simpa using afterPrefix_eq_some_iff.1 hr
    · obtain ⟨⟨b, a⟩, hb, he⟩ := Option.map_eq_some_iff.1 h
      cases he
      simp [ih hb]

theorem length_breakOn {p t before after : Text} (h : breakOn p t = some (before, after)) :
    t.length = before.length + p.length + after.length := by
  rw [eq_of_breakOn h]
  simp only [List.length_append]

/-- The pieces between the occurrences of a separator; an empty separator yields every unit. -/
def splitOn (separator : Text) (t : Text) : List Text :=
  if _hs : separator = [] then t.map ([·])
  else
    match _h : breakOn separator t with
    | none => [t]
    | some (before, after) => before :: splitOn separator after
termination_by t.length
decreasing_by
  have := length_breakOn _h
  have : 0 < separator.length := List.length_pos_iff.2 _hs
  omega

/-- The pieces in order, with a separator between neighbours. -/
def join (separator : Text) (pieces : List Text) : Text := List.intercalate separator pieces

/-- Every occurrence of a non-empty `pattern` replaced, from left to right. -/
def replaceAll (pattern replacement t : Text) : Text := join replacement (splitOn pattern t)

/-- The units from position `start` up to, not including, `stop`. -/
def slice (t : Text) (start stop : Nat) : Text := (t.drop start).take (stop - start)

/-- A text `n` times over. -/
def replicate (n : Nat) (t : Text) : Text := Nat.repeat (t ++ ·) n []

/-- Drops units from the end while they satisfy `p`. -/
def dropEndWhile (p : CodeUnit → Bool) (t : Text) : Text := (t.reverse.dropWhile p).reverse

end Text

end PageTemplate
