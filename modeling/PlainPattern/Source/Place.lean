import PlainPattern.Draft.Basic
import PlainPattern.Source.Element
import PlainPattern.Source.RepeatBounds

/-!
Contract: one move of a reader over schema text.

Owns: the places in which a reader can stand, and the move it makes from each of them. A move either
stops, with or without a fault, or takes some text and leads to the next place; the edits of a move
are what that text says about the schema. Blocks nest without any stack: behind a closing brace the
line of the block goes on, and such a line has its construct already, so the number of open blocks
is all there is to know.
-/

set_option autoImplicit false

namespace PlainPattern

inductive Slot where
  /-- Only modifiers so far. -/
  | awaiting (lead : Lead)
  /-- The one construct that a line may hold. -/
  | filled
deriving DecidableEq, Repr

/-- What a list of elements belongs to: a charset, or a rule inside this many blocks. -/
inductive Owner where
  | charset
  | rule (depth : Nat)
deriving DecidableEq, Repr

/-- Where a reader stands. Depths count the open blocks of the pattern. -/
inductive Place where
  /-- Between symbols, perhaps behind the name of the next one. -/
  | top (pending : Option String)
  /-- Between rule lines. -/
  | rules (depth : Nat)
  /-- Inside a rule line. -/
  | line (depth : Nat) (slot : Slot)
  /-- In front of an element. -/
  | elements (owner : Owner)
deriving DecidableEq, Repr

def Owner.place : Owner → Place
  | .charset => .top none
  | .rule depth => .line depth .filled

inductive Move where
  | stop (edits : List Edit) (fault : Option Fault)
  | go (edits : List Edit) (place : Place) (rest : List Char)
  /-- A symbol has been named; its definition comes next. -/
  | declare (name : String) (rest : List Char)

namespace Move

def complain (complaint : Complaint) (rest : List Char) : Move :=
  .stop [] (some ⟨complaint, rest⟩)

def edits : Move → List Edit
  | .stop edits _ => edits
  | .go edits _ _ => edits
  | .declare _ _ => []

def fault? : Move → Option Fault
  | .stop _ fault => fault
  | .go _ _ _ => none
  | .declare _ _ => none

/-- The same move with these edits in front of its own; the name of a symbol has none. -/
def behind (edits : List Edit) : Move → Move
  | .stop later fault => .stop (edits ++ later) fault
  | .go later place rest => .go (edits ++ later) place rest
  | .declare name rest => .declare name rest

end Move

namespace Place

open Text Lexeme Element

def elementMove (owner : Owner) (rest : List Char) : Move :=
  match element (skipInlineBlanks rest) with
  | .error fault => .stop [] (some fault)
  | .ok (criterion, after) =>
      match skipInlineBlanks after with
      | ',' :: tail => .go [.addCriterion criterion] (.elements owner) tail
      | other => .go [.addCriterion criterion] owner.place other

def unclosed (depth : Nat) : Complaint :=
  if depth = 0 then .unclosedPattern else .unclosedBlock

def closingMove (depth : Nat) (tail : List Char) : Move :=
  match depth with
  | 0 => .complain .strayBrace ('\x7d' :: tail)
  | outer + 1 => .go [.closeBlock] (.line outer .filled) tail

/-- Ends a line whose construct has been read; a line without one is in error. -/
def endMove (slot : Slot) (rest : List Char) (ended : Move) : Move :=
  match slot with
  | .awaiting _ => .complain .missingConstruct rest
  | .filled => ended

/-- Fills a line with a construct; a second one is in error. -/
def constructMove (slot : Slot) (rest : List Char) (construct : Lead → Move) : Move :=
  match slot with
  | .awaiting lead => construct lead
  | .filled => .complain .tooManyConstructs rest

def literalMove (depth : Nat) (lead : Lead) (tail : List Char) : Move :=
  match literal tail with
  | .error fault => .stop [.addRule lead true] (some fault)
  | .ok (criterion, after) =>
      .go [.addRule lead true, .addCriterion criterion] (.line depth .filled) after

def openingMove (depth : Nat) (slot : Slot) (tail : List Char) : Move :=
  match slot with
  | .awaiting lead => .go [.openBlock lead] (.rules (depth + 1)) tail
  | .filled => .complain .blockAfterRule ('\x7b' :: tail)

def modifierMove (depth : Nat) (slot : Slot) (extend : Lead → Lead) (after : List Char) : Move :=
  match slot with
  | .filled => .complain .modifierAfterRule after
  | .awaiting lead =>
      let extended := extend lead
      if extended.separates && extended.forks then .complain .separatorForks after
      else if extended.negated && extended.optional then .complain .optionalNegation after
      else .go [] (.line depth (.awaiting extended)) after

/-- Repeats what was read last. It may stand on a line of its own, but without modifiers. -/
def repeatMove (depth : Nat) (slot : Slot) (after : List Char) : Move :=
  if slot = .filled ∨ slot = .awaiting {} then
    match RepeatBounds.bounds after with
    | .error fault => .stop [] (some fault)
    | .ok (bounds, after) => .go [.addRepeat bounds] (.line depth .filled) after
  else .complain .repeatWithModifier after

def collectMove (depth : Nat) (slot : Slot) (after : List Char) : Move :=
  match slot with
  | .awaiting _ => .complain .collectionBeforeRule after
  | .filled =>
      let rest := skipInlineBlanks after
      if (word rest).isEmpty then .complain .collectionWithoutName rest
      else .go [.collectAs (word rest)] (.line depth .filled) (afterWord rest)

def keywordMove (depth : Nat) (slot : Slot) (keyword : Keyword) (written : String)
    (after : List Char) : Move :=
  let endpointMove (endpoint : Endpoint) : Move :=
    constructMove slot after fun lead =>
      .go [.addRule lead true, .addCriterion (.endpoint endpoint)] (.line depth .filled) after
  let listMove (inclusive : Bool) : Move :=
    constructMove slot after fun lead =>
      .go [.addRule lead inclusive] (.elements (.rule depth)) after
  match keyword with
  | .orElse => modifierMove depth slot (fun lead => { lead with forks := true }) after
  | .optionally => modifierMove depth slot (fun lead => { lead with optional := true }) after
  | .after => modifierMove depth slot (fun lead => { lead with separates := true }) after
  | .negated => modifierMove depth slot (fun lead => { lead with negated := true }) after
  | .anyOf => listMove true
  | .noneOf => listMove false
  | .startOfText => endpointMove .start
  | .endOfText => endpointMove .finish
  | .times => repeatMove depth slot after
  | .collectAs => collectMove depth slot after
  | .anything | .digit | .forever | .space | .upTo | .whitespace =>
      .complain (.reservedWord written) after

def wordMove (depth : Nat) (slot : Slot) (rest : List Char) : Move :=
  let written := word rest
  let after := afterWord rest
  match Keyword.ofWord? written with
  | some keyword => keywordMove depth slot keyword written after
  | none =>
      constructMove slot after fun lead =>
        .go [.addReference written lead] (.line depth .filled) after

/-- The next piece of a rule line. A brace ends the line as well as a newline does. -/
def lineMove (depth : Nat) (slot : Slot) (rest : List Char) : Move :=
  match skipInlineBlanks rest with
  | [] => endMove slot [] (.complain (unclosed depth) [])
  | character :: tail =>
      if character = '\n' then endMove slot (character :: tail) (.go [] (.rules depth) tail)
      else if character = '\x7d' then
        endMove slot (character :: tail) (closingMove depth tail)
      else if character = '#' then .go [] (.line depth slot) (skipLine tail)
      else if character = '(' then
        constructMove slot (character :: tail) fun lead => literalMove depth lead tail
      else if character = '\x7b' then openingMove depth slot tail
      else if isWordCharacter character then wordMove depth slot (character :: tail)
      else .complain .unexpectedCharacter (character :: tail)

def secondBar (tail : List Char) : Except Fault (List Char) :=
  match expect '|' tail with
  | .ok after => finishLine after
  | .error fault => .error fault

/-- Takes a pair of bars on a line of its own. -/
def barsMove (edit : Edit) (next : Place) (tail : List Char) : Move :=
  match secondBar tail with
  | .ok after => .go [edit] next after
  | .error fault => .stop [] (some fault)

def rulesMove (depth : Nat) (rest : List Char) : Move :=
  match skipBlanks rest with
  | [] => .complain (unclosed depth) []
  | character :: tail =>
      if character = '|' then
        if depth = 0 then barsMove .endPattern (.top none) tail
        else .complain .unclosedBlock (character :: tail)
      else if character = '#' then .go [] (.rules depth) (skipLine tail)
      else if character = '\x7d' then closingMove depth tail
      else lineMove depth (.awaiting {}) (character :: tail)

def declarationMove (declared : List String) (pending : Option String) (tail : List Char) : Move :=
  let name := word tail
  let after := afterWord tail
  if pending.isSome then .complain .misplacedSymbol tail
  else if name.length < 2 then .complain .symbolTooShort after
  else if tail.head?.any Char.isDigit then .complain .symbolBeginsWithDigit after
  else if Keyword.reserved name || declared.contains name then .complain .symbolNotAllowed after
  else
    match finishLine after with
    | .ok after => .declare name after
    | .error fault => .stop [] (some fault)

/-- The next symbol. A name is followed by a pattern, or by the elements of a charset. -/
def topMove (declared : List String) (pending : Option String) (rest : List Char) : Move :=
  match skipBlanks rest, pending with
  | [], none => .stop [] none
  | [], some _ => .complain .symbolWithoutDefinition []
  | character :: tail, pending =>
      if character = '@' then declarationMove declared pending tail
      else if character = '|' then barsMove (.beginPattern pending) (.rules 0) tail
      else if character = '#' then .go [] (.top pending) (skipLine tail)
      else
        match pending with
        | some name => (elementMove .charset (character :: tail)).behind [.beginCharset name]
        | none => .complain .unexpectedCharacter (character :: tail)

/-- The move from a place, where the symbols in `declared` have been named before. -/
def move (declared : List String) : Place → List Char → Move
  | .top pending => topMove declared pending
  | .rules depth => rulesMove depth
  | .line depth slot => lineMove depth slot
  | .elements owner => elementMove owner

end Place

end PlainPattern
