import ShaderReducer.Opportunity.Basic

/-!
# Configurations

How a reduction goes about its work.
-/

namespace ShaderReducer

inductive Strategy where
  | random
  | shallowest
  deriving Repr, DecidableEq

inductive JudgeErrorPolicy where
  | reject
  | fatal
  deriving Repr, DecidableEq

/-- How a reduction goes about its work. Without a largest number of steps it goes on until there is
nothing left to reduce. -/
structure Config where
  everywhere : Bool := false
  seed : UInt64 := 0
  maxSteps : Option Nat := none
  strategy : Strategy := .random
  chunkSize : Nat := 1
  kinds : List OpportunityKind := OpportunityKind.all
  onJudgeError : JudgeErrorPolicy := .reject
  deriving Repr, DecidableEq

/-- The configuration without some kinds of opportunities. -/
def Config.without (c : Config) (disabled : List OpportunityKind) : Config :=
  { c with kinds := c.kinds.filter fun kind => !disabled.contains kind }

end ShaderReducer
