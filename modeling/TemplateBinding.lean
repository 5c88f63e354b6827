import TemplateBinding.Main
import TemplateBinding.Proofs.Expr.Spans
import TemplateBinding.Proofs.Expr.Printing
import TemplateBinding.Proofs.Template.Embedding
import TemplateBinding.Proofs.Attribute.Agreement
import TemplateBinding.Proofs.Attribute.Placement
import TemplateBinding.Proofs.Attribute.Chains
import TemplateBinding.Proofs.Grammar.Coverage
import TemplateBinding.Proofs.Grammar.Spacing
import TemplateBinding.Proofs.Grammar.Head
import TemplateBinding.Proofs.Grammar.Bounds
import TemplateBinding.Proofs.Attribute.Scanning
import TemplateBinding.Proofs.Attribute.Options
import TemplateBinding.Proofs.Attribute.Policies
import TemplateBinding.Proofs.CommandLine.Diagnostics
import TemplateBinding.Proofs.CommandLine.Elements
import TemplateBinding.Proofs.Template.Splitting
import TemplateBinding.Proofs.Attribute.Loops
import TemplateBinding.Proofs.Attribute.LoopForm
import TemplateBinding.Proofs.Grammar.Laying
import TemplateBinding.Proofs.Grammar.Semicolons
import TemplateBinding.Proofs.Expr.Retokenizing
import TemplateBinding.Proofs.Expr.Keys
import TemplateBinding.Proofs.Expr.Filtering
import TemplateBinding.Proofs.Attribute.MissingFilters
import TemplateBinding.Proofs.Grammar.Escaping
import TemplateBinding.Proofs.Attribute.Depth
import TemplateBinding.Proofs.Attribute.Aliases
import TemplateBinding.Proofs.Grammar.Rounds
