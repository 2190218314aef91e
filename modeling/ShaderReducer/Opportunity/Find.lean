import ShaderReducer.Opportunity.InlineField
import ShaderReducer.Opportunity.Removal
import ShaderReducer.Opportunity.Replacement

/-!
# Finding and trying opportunities

All opportunities of a shader, the shallowest first; and the trial of one on a shader, which leaves
the shader alone where the opportunity is stale.
-/

namespace ShaderReducer

namespace Opportunity

def ofKind (s : Shader) (a : Analysis) : OpportunityKind → List Opportunity
  | .compoundExprToSubExpr => SubExpr.find s a
  | .exprToConstant => Constant.find s a
  | .removeDeclaration => UnusedDecl.find s a
  | .inlineStructifiedField => InlineField.find s a
  | .removeStmt => RemovableStmt.find s a
  | .removeVariable => UnusedVariable.find s a
  | .unwrapStmt => Unwrap.find s a

/-- The opportunities of some kinds, sorted by depth. At one depth they stand in the order of their
kinds, and within a kind in that of the shader. -/
def find (s : Shader) (everywhere : Bool) (enabled : List OpportunityKind) : List Opportunity :=
  let a := Analysis.ofShader s everywhere
  let found := (OpportunityKind.all.filter enabled.contains).flatMap (ofKind s a)
  found.mergeSort fun o p => o.depth ≤ p.depth

def holds (o : Opportunity) (s : Shader) : Bool :=
  match o.change with
  | .toSubExpr target child => SubExpr.holds s target child
  | .toConstant target constant => Constant.holds s target constant
  | .removeDecl decl => s.isDeclLive decl
  | .inlineField outer field => InlineField.holds s outer field
  | .removeStmt block stmt => s.standsIn block stmt
  | .removeVariable stmt block name => UnusedVariable.holds s stmt block name
  | .unwrap block target way => Unwrap.holds s block target way

def apply (o : Opportunity) (s : Shader) (supply : NameSupply) : Shader × NameSupply :=
  match o.change with
  | .toSubExpr target child => (s.replaceWithChild target child, supply)
  | .toConstant target constant => (Constant.apply s target constant, supply)
  | .removeDecl decl => ((s.removeDecl decl).2, supply)
  | .inlineField outer field => InlineField.apply s supply outer field
  | .removeStmt block stmt => ((s.removeFromBlock block stmt).2, supply)
  | .removeVariable stmt block name => (UnusedVariable.apply s stmt block name, supply)
  | .unwrap block target way => (Unwrap.apply s block target way, supply)

/-- Makes the change of an opportunity if that still makes sense; says whether it did. -/
def tryApply (o : Opportunity) (s : Shader) (supply : NameSupply) : Bool × Shader × NameSupply :=
  if o.holds s then (true, o.apply s supply) else (false, s, supply)

/-- Tries some opportunities in order; says of each whether its change was made. -/
def tryAll : List Opportunity → Shader → NameSupply → List Bool × Shader × NameSupply
  | [], s, supply => ([], s, supply)
  | o :: rest, s, supply =>
    let (applied, s, supply) := o.tryApply s supply
    let (more, s, supply) := tryAll rest s supply
    (applied :: more, s, supply)

end Opportunity

end ShaderReducer
