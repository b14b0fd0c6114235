import PageTemplate.Proofs.Respect.Library
import PageTemplate.Template.Expand

/-!
# PageTemplate.Proofs.Respect.Templates

What expansion does besides evaluating expressions and making scopes respects what the steps on the
store respect.
-/

namespace PageTemplate

variable {env : Env} {S : World → World → Prop}

namespace Expander

variable (x : Expander)

section Reads

variable [KeptByReads env S]

@[grind ←] theorem respects_logStep (words : List Text) :
    Respects env S (x.logStep words) := by
  unfold logStep
  exact .ite (Store.respects_log _) (.pure _)

@[grind ←] theorem respects_requireAttribute (element : Value) (name : Text) :
    Respects env S (requireAttribute element name) := by
  unfold requireAttribute
  refine (Tree.respects_getAttribute _ _).bind fun v => ?_
  cases v with
  | undefined =>
    refine (Tree.respects_tag _).bind fun v => ?_
    exact (Convert.respects_toText _).bind fun tag => .throw _
  | _ => exact .pure _

@[grind ←] theorem respects_dataText? (data : Value) : Respects env S (dataText? data) := by
  unfold dataText?
  refine .tryCatch ?_ fun _ => ?_
  · exact (Convert.respects_toText _).bind fun t => .pure _
  · exact .pure _

end Reads

section Writes

variable [KeptByWrites env S]

@[grind ←] theorem respects_partialData (file : Text) (data : Value) :
    Respects env S (partialData file data) := by
  unfold partialData
  refine (respects_dataText? data).bind fun t => ?_
  cases t.bind Json.parse? with
  | some document => exact Library.respects_plantJson document
  | none => exact .throw _

@[grind ←] theorem respects_readTemplate (markup : Text) (wrap : Bool) :
    Respects env S (x.readTemplate markup wrap) := by
  unfold readTemplate
  exact (Tree.respects_readNodes _ _).bind fun nodes => Tree.respects_create _

@[grind ←] theorem respects_rootOf (document : Value) : Respects env S (rootOf document) := by
  unfold rootOf
  refine (Tree.respects_documentElement? _).bind fun found => ?_
  cases found with
  | none => exact (Tree.respects_createElement _ _).bind fun a => .pure _
  | some => exact .pure _

@[grind ←] theorem respects_addRemark (fragment : Value) (t : Text) :
    Respects env S (addRemark fragment t) := by
  unfold addRemark
  exact (Tree.respects_create _).bind fun a => Tree.respects_append _ _

@[grind ←] theorem respects_fragmentOf (before behind : List Text) (source : Value) :
    Respects env S (fragmentOf before behind source) := by
  unfold fragmentOf
  refine (Tree.respects_create _).bind fun a => ?_
  refine .bind ?_ fun _ => ?_
  · exact .forM (fun a => (respects_addRemark _ _)) _
  · refine (Tree.respects_stealChildren _ _).bind fun _ => ?_
    refine .bind ?_ fun _ => ?_
    · exact .forM (fun a => (respects_addRemark _ _)) _
    · exact .pure _

@[grind ←] theorem respects_partialFragment (file : Text) (root : Value) :
    Respects env S (x.partialFragment file root) := by
  unfold partialFragment
  exact .ite (respects_fragmentOf _ _ _) (respects_fragmentOf _ _ _)

@[grind ←] theorem respects_readInserted (v : Value) : Respects env S (x.readInserted v) := by
  unfold readInserted
  refine (Present.respects_shown _).bind fun v => ?_
  cases v with
  | text => exact Tree.respects_readFragment _ _
  | _ =>
    refine (Convert.respects_isFilled _).bind fun b => ?_
    exact .check .typeError (Tree.respects_create _)

end Writes

end Expander

end PageTemplate
