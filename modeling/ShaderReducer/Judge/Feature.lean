import ShaderReducer.Judge.Basic
import ShaderReducer.Pattern.Reader

/-!
# Judging by features

A judge that looks for features of the candidate itself: parts of its text that match a pattern,
functions with a name, or whatever else a condition says of it.
-/

namespace ShaderReducer

inductive Feature where
  | contains (pattern : Pattern)
  | definesFunction (name : String)
  | custom (check : ReductionState → Bool)

namespace Feature

def holds (candidate : ReductionState) : Feature → Bool
  | contains pattern => pattern.occursIn candidate.source.toList
  | definesFunction name => candidate.shader.functions.any fun (_, f) => f.name == name
  | custom check => check candidate

end Feature

namespace Judge

def features {σ : Type} (features : List Feature) (anyOne : Bool) : Judge σ :=
  ofPredicate fun candidate =>
    if anyOne then features.any (Feature.holds candidate)
    else features.all (Feature.holds candidate)

end Judge

end ShaderReducer
