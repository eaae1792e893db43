import Reckoner.Binary64.Order
import Reckoner.Main
import Reckoner.Token.Grammar
import Reckoner.Tree.Execution
import Reckoner.Worksheet
import Reckoner.Program.Stored
import Reckoner.Proofs.Meaning
import Reckoner.Proofs.Compilation
import Reckoner.Proofs.Substitution
import Reckoner.Proofs.Layout
import Reckoner.Proofs.Decompilation
import Reckoner.Proofs.Faults.Defects
import Reckoner.Proofs.Storage
import Reckoner.Proofs.Legibility
import Reckoner.Proofs.CommandLine
import Reckoner.Proofs.Execution
import Reckoner.Proofs.Source.Balance
import Reckoner.Proofs.Conservation
import Reckoner.Proofs.Shunting
import Reckoner.Proofs.Dependencies
import Reckoner.Proofs.Tokenization
import Reckoner.Proofs.Binding
import Reckoner.Proofs.Alike
import Reckoner.Proofs.Source.Order
import Reckoner.Proofs.Pending
