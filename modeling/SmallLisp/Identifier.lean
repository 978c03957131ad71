import SmallLisp.Text.Letter
import SmallLisp.Text.Split
import SmallLisp.Text.UpperCase

/-! Go identifiers for source names. The words of a name, cut at hyphens, are joined in camel case;
what Go does not allow in an identifier becomes an underscore; digits in front and keywords are
escaped. Names with two underscores in front are left to the compiler: `generated` makes them, and
a source name of that form gets an underscore at its end. -/

namespace SmallLisp.Identifier

def keywords : List String :=
  ["break", "case", "chan", "const", "continue", "default", "defer", "else", "fallthrough", "for",
    "func", "go", "goto", "if", "import", "interface", "map", "package", "range", "return",
    "select", "struct", "switch", "type", "var"]

/-- A character that may stand in an identifier, or an underscore in its place. -/
def allowed (c : Char) : Char :=
  if Text.isLetter c || c.isDigit || c == '_' then c else '_'

/-- The parts of a name between hyphens, without the empty ones. -/
def words (name : List Char) : List (List Char) :=
  (Text.split '-' name).filter (!·.isEmpty)

def capitalize : List Char → List Char
  | [] => []
  | c :: cs => Text.upperCase (allowed c) ++ cs.map allowed

/-- The words after the first are capitalized, and the first too in an exported name. -/
def joinWords (exported : Bool) : List (List Char) → List Char
  | [] => []
  | w :: ws => (if exported then capitalize w else w.map allowed) ++ ws.flatMap capitalize

/-- Something for an empty text. -/
def fillEmpty (cs : List Char) : List Char :=
  if cs.isEmpty then ['_'] else cs

/-- An underscore before a digit and before a keyword. -/
def escapeStart (cs : List Char) : List Char :=
  if (cs.head?.any Char.isDigit) || keywords.contains (String.ofList cs) then '_' :: cs else cs

/-- What generated identifiers start with. -/
def generatedMark : List Char := ['_', '_']

/-- An underscore after a text that starts like a generated identifier. -/
def escapeMark (cs : List Char) : List Char :=
  if generatedMark.isPrefixOf cs then cs ++ ['_'] else cs

def chars (exported : Bool) (name : List Char) : List Char :=
  escapeMark (escapeStart (fillEmpty (joinWords exported (words name))))

/-- The identifier that a name declares, or refers to in its own package. -/
def ofName (name : String) : String := String.ofList (chars false name.toList)

/-- A generated identifier. Ending in a digit, it is never that of a source name. -/
def generated (hint : String) (n : Nat) : String :=
  String.ofList (generatedMark ++ hint.toList ++ Nat.toDigits 10 n)

end SmallLisp.Identifier
