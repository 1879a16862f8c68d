import PlainPattern.Draft.OpenBlock
import PlainPattern.Schema.Basic
import PlainPattern.Schema.Keyword
import PlainPattern.Text.Character

/-!
Contract: a schema as text.

Owns: `Schema.printed`. Every symbol is printed with its name above it, the patterns without a name
first and in the order of their numbers. A node is a line: its modifiers, its construct, and the
name of its capture. A repeat is a line of its own behind the node, and a separator is the line
behind that. Characters are escaped where the language asks for it. What cannot be written down at
all is printed somehow.
-/

set_option autoImplicit false

namespace PlainPattern

open Text

namespace Printer

/-- A character inside the brackets of a literal. -/
def literalCharacter (character : Char) : List Char :=
  if character = '\n' then ['\\', 'n']
  else if isMark character then ['\\', character]
  else [character]

def literal (text : String) : List Char :=
  '(' :: text.toList.flatMap literalCharacter ++ [')']

/-- The four digits of a code point, behind a backslash. -/
def codePoint (character : Char) : List Char :=
  ['\\', 'u', Nat.digitChar (character.toNat / 4096), Nat.digitChar (character.toNat / 256 % 16),
    Nat.digitChar (character.toNat / 16 % 16), Nat.digitChar (character.toNat % 16)]

/-- One end of a range. A blank or a comma is never an element, and a bar at the start of a line
begins a pattern. -/
def bound (character : Char) : List Char :=
  if isMark character then ['\\', character]
  else if isBlank character ∨ character = ',' ∨ character = '|' then codePoint character
  else [character]

/-- A keyword with a blank behind it. -/
def keyword (keyword : Keyword) : List Char :=
  keyword.spelling.toList ++ [' ']

def element : Criterion → List Char
  | .literal text => literal text
  | .valueOf name => ['(', '$'] ++ name.toList ++ [')']
  | .range low high => bound low ++ ' ' :: keyword .upTo ++ bound high
  | .symbol name => name.toList
  | .endpoint _ => []

def elements : List Criterion → List Char
  | [] => []
  | [criterion] => element criterion
  | criterion :: next :: rest => element criterion ++ [',', ' '] ++ elements (next :: rest)

def endpoint : Endpoint → Keyword
  | .start => .startOfText
  | .finish => .endOfText

def rule (rule : Rule) : List Char :=
  match rule with
  | ⟨true, [.endpoint place]⟩ => (endpoint place).spelling.toList
  | ⟨inclusive, criteria⟩ => keyword (if inclusive then .anyOf else .noneOf) ++ elements criteria

/-- The modifiers in front of a construct. -/
def modifiers (lead : Lead) : List Char :=
  (if lead.separates then keyword .after else []) ++
    (if lead.forks then keyword .orElse else []) ++
    (if lead.optional then keyword .optionally else []) ++
    (if lead.negated then keyword .negated else [])

def capture : Option String → List Char
  | none => []
  | some name => ' ' :: keyword .collectAs ++ name.toList

def maximum : Option Nat → String
  | some max => toString max
  | none => Keyword.forever.spelling

/-- A repeat, on a line of its own. -/
def times (bounds : Bounds) : List Char :=
  keyword .times ++ (toString bounds.min).toList ++ ' ' :: keyword .upTo ++
    (maximum bounds.max).toList ++ ['\n']

/-- The modifiers of a node, which may be a separator. -/
def lead (separates : Bool) (marks : Marks) : Lead :=
  { forks := marks.forks, optional := marks.optional, separates, negated := marks.negated }

mutual

/-- A node with the lines that belong to it. -/
def node (separates : Bool) : Node → List Char
  | .mk content marks repeated =>
      modifiers (lead separates marks) ++ body content ++ capture marks.collectAs ++
        '\n' :: repetition repeated

def body : Body → List Char
  | .block children => ['\x7b', '\n'] ++ nodes children ++ ['\x7d']
  | .rule content => rule content
  | .reference name => name.toList

def repetition : Repetition → List Char
  | .once => []
  | .times bounds => times bounds
  | .separated bounds separator => times bounds ++ node true separator

def nodes : List Node → List Char
  | [] => []
  | child :: rest => node false child ++ nodes rest

end

/-- Names that begin with a digit are numbers that stand for no name. -/
def isNumbered (name : String) : Bool :=
  name.toList.head?.any Char.isDigit

/-- The line above a symbol that has a name of its own. -/
def heading (name : String) : List Char :=
  if isNumbered name then [] else '@' :: name.toList ++ ['\n']

def symbol : Symbol → List Char
  | .pattern found =>
      heading found.name ++ ['|', '|', '\n'] ++ nodes found.children ++ ['|', '|', '\n']
  | .charset found => heading found.name ++ elements found.criteria ++ ['\n']

end Printer

namespace Schema

/-- The names in the order in which their symbols are printed: the numbers come first, as numbers
and not as words. -/
def printedNames (schema : Schema) : List String :=
  (List.range (schema.names.countP Printer.isNumbered)).map toString ++
    schema.names.filter fun name => !Printer.isNumbered name

def printedSymbols (schema : Schema) : List Symbol :=
  schema.printedNames.filterMap schema.get?

/-- The schema as text. -/
def printed (schema : Schema) : String :=
  String.ofList (schema.printedSymbols.flatMap Printer.symbol)

end Schema

end PlainPattern
