import PageTemplate.Page.Compose
import PageTemplate.Proofs.Tree.Serialize

/-!
# PageTemplate.Proofs.Page.Failure

How a page fails. Making a page fails with the fault of a page only. Making a page and writing it
can fail with another fault as well: when the page is made, and has a part that cannot be written.
-/

namespace PageTemplate

/-- Whether a fault is one of a page. -/
def Fault.isRender : Fault → Bool
  | .render .. => true
  | _ => false

namespace Composer

variable {c : Composer} {env : Env} {w w' : World} {name skeletonName : Text}
  {contentScope skeletonScope : ScopeId} {f : Fault}

/-- **A page fails as one fault of a page**: the fault of this page, for the reason that its making
failed, or the fault of another page that its making failed with. -/
theorem render_fault
    (h : M.run' env w (c.render name contentScope skeletonScope skeletonName) = (.error f, w')) :
    ∃ cause, M.run' env w (c.compose name contentScope skeletonScope skeletonName) =
        (.error cause, w') ∧
      (cause.isRender = false ∧ f = .render name cause ∨ cause.isRender = true ∧ f = cause) := by
  rw [render, M.run'_tryCatch] at h
  rcases hc : M.run' env w (c.compose name contentScope skeletonScope skeletonName) with
    ⟨cause | v, w1⟩
  · rw [hc] at h
    cases cause with
    | render page cause =>
      cases h
      exact ⟨.render page cause, rfl, .inr ⟨rfl, rfl⟩⟩
    | _ =>
      cases h
      exact ⟨_, rfl, .inl ⟨rfl, rfl⟩⟩
  · rw [hc] at h
    cases h

theorem isRender_of_render
    (h : M.run' env w (c.render name contentScope skeletonScope skeletonName) = (.error f, w')) :
    f.isRender = true := by
  obtain ⟨cause, _, ⟨_, rfl⟩ | ⟨hcause, rfl⟩⟩ := render_fault h
  · rfl
  · exact hcause

/-- A page that is to be written fails as a page, or is made and cannot be written. -/
theorem renderText_fault
    (h : M.run' env w (c.renderText name contentScope skeletonScope skeletonName) = (.error f, w')) :
    f.isRender = true ∨ ∃ document w1,
      M.run' env w (c.render name contentScope skeletonScope skeletonName) = (.ok document, w1) ∧
        M.run' env w1 (Tree.serialize document) = (.error f, w') := by
  rcases hr : M.run' env w (c.render name contentScope skeletonScope skeletonName) with
    ⟨e | document, w1⟩
  · rw [renderText, M.run'_bind_error hr] at h
    cases h
    exact .inl (isRender_of_render hr)
  · rw [renderText, M.run'_bind_ok hr] at h
    exact .inr ⟨document, w1, rfl, h⟩

/-- A page whose parts are texts is written. -/
theorem renderText_texts {V : View} {d : ObjectId} {ns : List Markup.Node}
    (hr : M.run' env w (c.render name contentScope skeletonScope skeletonName) =
      (.ok (.object d), w'))
    (hs : Shows w' V) (hf : V.IsForest) (hd : V.core d = some .document)
    (h : V.RepresentsAll (V.children d) (treesOf ns)) :
    M.run' env w (c.renderText name contentScope skeletonScope skeletonName) =
      (.ok (.text (Markup.serializeAll ns)), w') := by
  rw [renderText, M.run'_bind_ok hr, Tree.run'_serializeRoot hs hf hd (.inl rfl) h]

end Composer

end PageTemplate
