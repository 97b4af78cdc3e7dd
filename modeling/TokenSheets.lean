import TokenSheets.Main
import TokenSheets.Store.Listing
import TokenSheets.Proofs.Token.Leaves
import TokenSheets.Proofs.Build.Failing
import TokenSheets.Proofs.Build.Leftovers
import TokenSheets.Proofs.Namespace.Accounting
import TokenSheets.Proofs.Namespace.Directories
import TokenSheets.Proofs.Namespace.History
import TokenSheets.Proofs.Namespace.Inheritance
import TokenSheets.Proofs.Namespace.Isolation
import TokenSheets.Proofs.Namespace.Rebuild
import TokenSheets.Proofs.Sheet.Script
import TokenSheets.Proofs.Build.Cleaning
import TokenSheets.Proofs.Build.Writing
import TokenSheets.Proofs.Build.Undoing
import TokenSheets.Proofs.Dimension.Verdict
import TokenSheets.Proofs.Namespace.Commands
import TokenSheets.Proofs.Namespace.Refusals
import TokenSheets.Proofs.Namespace.SharedTexts
import TokenSheets.Proofs.Namespace.TextGroups
import TokenSheets.Proofs.Sheet.Units
import TokenSheets.Proofs.Token.Spellings
import TokenSheets.Proofs.Name.Composition
import TokenSheets.Proofs.Name.Signs
import TokenSheets.Proofs.Sheet.Comments
import TokenSheets.Proofs.Build.Contents
import TokenSheets.Proofs.Token.Loading
import TokenSheets.Proofs.Namespace.Unreadable
import TokenSheets.Proofs.Config.Layers
import TokenSheets.Proofs.Sheet.Literals
import TokenSheets.Proofs.Token.Members
import TokenSheets.Proofs.Token.Obtained
