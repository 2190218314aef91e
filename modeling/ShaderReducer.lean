import ShaderReducer.Main
import ShaderReducer.Proofs.Analysis.Idle
import ShaderReducer.Proofs.Binding.Defaults
import ShaderReducer.Proofs.Image.Pixmap
import ShaderReducer.Proofs.Judge.Template
import ShaderReducer.Proofs.Opportunity.Confluent
import ShaderReducer.Proofs.Opportunity.InlineAccesses
import ShaderReducer.Proofs.Opportunity.InlineAligned
import ShaderReducer.Proofs.Opportunity.Narrowed
import ShaderReducer.Proofs.Opportunity.Outside
import ShaderReducer.Proofs.Opportunity.Progress
import ShaderReducer.Proofs.Opportunity.Referring
import ShaderReducer.Proofs.Opportunity.Renumbered
import ShaderReducer.Proofs.Opportunity.Returns
import ShaderReducer.Proofs.Opportunity.Retyped
import ShaderReducer.Proofs.Opportunity.RoundTrip
import ShaderReducer.Proofs.Opportunity.Stale
import ShaderReducer.Proofs.Opportunity.Written
import ShaderReducer.Proofs.Parser.Directive
import ShaderReducer.Proofs.Parser.ExprText
import ShaderReducer.Proofs.Parser.Faults
import ShaderReducer.Proofs.Parser.Layers
import ShaderReducer.Proofs.Random.Below
import ShaderReducer.Proofs.Reduction.Candidates
import ShaderReducer.Proofs.Reduction.Resumable
import ShaderReducer.Proofs.Reduction.Rounds
import ShaderReducer.Proofs.Shader.Erased
import ShaderReducer.Proofs.Token.Position
