import PageTemplate.Text.Search
import PageTemplate.Value.Convert

/-!
# PageTemplate.Template.Marker

Markers in text: `<%=`, an expression, `%>`. A text is cut at its markers once, from left to right;
what comes in the place of a marker is not looked at again.
-/

namespace PageTemplate

namespace Marker

def opening : Text := "<%="

def closing : Text := "%>"

/-- What a text starts with. -/
inductive Next where
  /-- No marker is left. -/
  | none
  /-- A marker begins and does not end. -/
  | unterminated
  | marker (before code after : Text)

/-- The first marker of a text. -/
def next (t : Text) : Next :=
  match Text.breakOn opening t with
  | .none => .none
  | some (before, rest) =>
    match Text.breakOn closing rest with
    | .none => .unterminated
    | some (code, after) => .marker before code after

theorem length_next {t before code after : Text} (h : next t = .marker before code after) :
    after.length < t.length := by
  simp only [next] at h
  split at h
  · cases h
  · rename_i b rest hb
    split at h
    · cases h
    · rename_i c a hc
      have h1 := Text.length_breakOn hb
      have h2 := Text.length_breakOn hc
      cases h
      have h3 : opening.length = 3 := by decide +kernel
      omega

/-- A text cut at its markers: the markers with the text before each of them, the text after the
last one, and whether every marker ends. -/
structure Cut where
  markers : List (Text × Text)
  tail : Text
  terminated : Bool

/-- Cuts a text at its markers. -/
def cut (t : Text) : Cut :=
  match _h : next t with
  | .none => ⟨[], t, true⟩
  | .unterminated => ⟨[], t, false⟩
  | .marker before code after =>
    let rest := cut after
    { rest with markers := (before, code) :: rest.markers }
termination_by t.length
decreasing_by exact length_next _h

/-- The fault of a marker without an end. -/
def unterminated (place : Text) : Fault :=
  .malformed ("unterminated \"<%=\" in " ++ place) (some "Every <%= must be closed with %>.")

/-- The text with every marker replaced by the encoded value of its expression. `place` says in
messages where the text stands. -/
def substitute (evaluate : Text → M Value) (encode : Value → M Value) (place t : Text) :
    M Text := do
  let c := cut t
  let parts ← c.markers.mapM fun (before, code) => do
    return before ++ (← Convert.toSuffix (← encode (← evaluate code)))
  if !c.terminated then throw (unterminated place)
  return parts.flatten ++ c.tail

/-- A value that is no text is kept when it says itself that it holds no marker. What stands in a
marker of such a value is no expression. -/
def keepUnmarked (place : Text) (v : Value) : M Value := do
  let none := Value.number (-1.0)
  let start ← Convert.invoke v "indexOf" [.text opening, .number 0.0]
  if start.strictlyEqual none then return v
  let behind ← Convert.add start (.ofNat opening.length)
  let stop ← Convert.invoke v "indexOf" [.text closing, behind]
  if stop.strictlyEqual none then throw (unterminated place) else M.typeError

end Marker

end PageTemplate
