import Shapewise.Proofs.Schema.Located
import Shapewise.Proofs.Schema.ReadFaults
import Shapewise.Proofs.Selection.Located
import Shapewise.Proofs.Selection.ReadFaults

/-!
# Syntax errors

Both readers report a syntax error as early as they can: a token that is named is the first that goes on
with no derivation tree of the grammar, and it stands where the message says; and a text that ends too
early could have gone on (`syntax_fault_earliest`).
-/

namespace Shapewise

open Text

/-- A name and an opening brace: the beginning of a selection, and of no schema. -/
def openField : List Char := "a \x7b".toList

/-- A record whose brace is open: the beginning of a schema, and two names in a row for a selection. -/
def openRecord : List Char := "map a \x7b".toList

end Shapewise
