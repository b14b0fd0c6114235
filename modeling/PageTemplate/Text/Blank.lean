import PageTemplate.Text.Search

/-!
# PageTemplate.Text.Blank

White space: tab to carriage return, the space separators, the line and paragraph separators and
the byte order mark.
-/

namespace PageTemplate

/-- Whether a unit is white space. -/
def isBlank (u : CodeUnit) : Bool :=
  (9 ≤ u && u ≤ 13) || u == 32 || u == 0xA0 || u == 0x1680 || (0x2000 ≤ u && u ≤ 0x200A) ||
  u == 0x2028 || u == 0x2029 || u == 0x202F || u == 0x205F || u == 0x3000 || u == 0xFEFF

namespace Text

def trimStart (t : Text) : Text := t.dropWhile isBlank

def trimEnd (t : Text) : Text := dropEndWhile isBlank t

def trim (t : Text) : Text := trimEnd (trimStart t)

/-- The maximal runs without white space, in order. -/
def words (t : Text) : List Text :=
  let (current, done) := t.foldr
    (fun u (current, done) =>
      if isBlank u then ([], if current.isEmpty then done else current :: done)
      else (u :: current, done))
    (([] : Text), ([] : List Text))
  if current.isEmpty then done else current :: done

/-- The pieces between maximal runs of white space, empty ones at the ends included. -/
def splitBlanks (t : Text) : List Text :=
  let (current, done, _) := t.foldr
    (fun u (current, done, inRun) =>
      if isBlank u then (if inRun then (current, done, true) else ([], current :: done, true))
      else (u :: current, done, false))
    (([] : Text), ([] : List Text), false)
  current :: done

end Text

end PageTemplate
