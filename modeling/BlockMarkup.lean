import BlockMarkup.Command
import BlockMarkup.Config.Reader
import BlockMarkup.Config.Writer
import BlockMarkup.Main
import BlockMarkup.Proofs.Block.Commute
import BlockMarkup.Proofs.Session.Cursor
import BlockMarkup.Proofs.Style.Rewrite
import BlockMarkup.Proofs.Style.Structure
import BlockMarkup.Style.Json
import BlockMarkup.Proofs.Block.Moved
import BlockMarkup.Proofs.Session.Styling
import BlockMarkup.Proofs.Block.Repeated
import BlockMarkup.Proofs.Session.PropertyEdit
import BlockMarkup.Proofs.Header
import BlockMarkup.Proofs.Identifier
import BlockMarkup.Proofs.Naming
import BlockMarkup.Proofs.Session.Scoping
import BlockMarkup.Proofs.Annotation
import BlockMarkup.Proofs.Session.Minting
import BlockMarkup.Proofs.Style.Updates
import BlockMarkup.Proofs.Style.Scoped
import BlockMarkup.Proofs.Session.Transaction
import BlockMarkup.Proofs.Files
import BlockMarkup.Proofs.Program
import BlockMarkup.Proofs.ClassAttribute
import BlockMarkup.Proofs.Nesting
import BlockMarkup.Proofs.Style.SameRules
import BlockMarkup.Proofs.Style.Indentation
import BlockMarkup.Proofs.Style.Dialects
import BlockMarkup.Proofs.Style.Restore
import BlockMarkup.Proofs.Tree.Positions
import BlockMarkup.Proofs.Tree.OwnClass
import BlockMarkup.Checked.Command
import BlockMarkup.Checked.Naming
import BlockMarkup.Proofs.Checked.Naming
import BlockMarkup.Proofs.Style.Descendant
import BlockMarkup.Proofs.Returns
import BlockMarkup.Proofs.Command
import BlockMarkup.Proofs.Style.Json
import BlockMarkup.Proofs.LineGrammar
import BlockMarkup.Proofs.Checked.Cluster
