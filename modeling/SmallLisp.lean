import SmallLisp.Main
import SmallLisp.Proofs.Checked
import SmallLisp.Proofs.Generated
import SmallLisp.Proofs.Place
import SmallLisp.Proofs.Calls
import SmallLisp.Proofs.Recurrence
import SmallLisp.Proofs.Attribution
import SmallLisp.Proofs.RecurLoop
import SmallLisp.Proofs.Definition
import SmallLisp.Proofs.RecurTarget
import SmallLisp.Proofs.FreshNames
import SmallLisp.Proofs.SessionNames
import SmallLisp.Proofs.SessionState
import SmallLisp.Proofs.Renaming
import SmallLisp.Proofs.HistoryIndependence
import SmallLisp.Proofs.SeparateCompilation
import SmallLisp.Proofs.SinglePass
import SmallLisp.Proofs.ReturnDiscipline
import SmallLisp.Proofs.Configuration
import SmallLisp.Proofs.Naming
import SmallLisp.Proofs.References
import SmallLisp.Proofs.Mentions
import SmallLisp.Proofs.Hygiene
import SmallLisp.Proofs.CorePackage
import SmallLisp.Proofs.DeclaredNames
import SmallLisp.Proofs.Language
import SmallLisp.Proofs.Reading.Token
import SmallLisp.Proofs.Reading.Run
import SmallLisp.Proofs.Reading.Spelling
import SmallLisp.Proofs.Reading.Written
import SmallLisp.Proofs.Meaning.Host
import SmallLisp.Proofs.Meaning.Program
import SmallLisp.Proofs.Meaning.Datum
import SmallLisp.Proofs.Meaning.Fragment
import SmallLisp.Proofs.Meaning.Simulation
import SmallLisp.Proofs.Meaning.Passes
import SmallLisp.Proofs.Meaning.Preservation
import SmallLisp.Proofs.Reading.Grammar
import SmallLisp.Proofs.Reading.Layout
import SmallLisp.Proofs.Reading.Completion
import SmallLisp.Proofs.Reading.Concatenation
import SmallLisp.Proofs.Printing.Literal
import SmallLisp.Proofs.Printing.Lexeme
import SmallLisp.Proofs.Printing.LiteralLexeme
import SmallLisp.Proofs.Printing.Scanned
import SmallLisp.Proofs.Printing.Indentation
import SmallLisp.Proofs.Printing.ParseTypes
import SmallLisp.Proofs.Printing.Parse
import SmallLisp.Proofs.Printing.Injectivity
import SmallLisp.Proofs.Printing.Grammar
import SmallLisp.Proofs.Printing.Parentheses
import SmallLisp.Proofs.IntegerValue
import SmallLisp.Proofs.JsonForm
import SmallLisp.Proofs.Reading.ErrorPlace
import SmallLisp.Proofs.Reading.NumberToken
import SmallLisp.Proofs.TextValue
import SmallLisp.Proofs.IdentifierCharacters
import SmallLisp.Proofs.BindingVectors
import SmallLisp.Proofs.SafeNames
import SmallLisp.Proofs.DefinedFunctions
import SmallLisp.Proofs.Listing
import SmallLisp.Proofs.ShortDeclarations
