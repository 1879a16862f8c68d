import PlainPattern.Draft.Refusal
import PlainPattern.Schema.Node

/-!
Contract: a block of nodes that is still being written.

Owns: the modifiers written before a construct, the children of an unfinished block, and the rules
for where the next node may stand. The child that was placed last is kept apart as a chain: the end
of the chain is what a repeat, a capture name or a further separator applies to, and every link
behind it is a repeated node whose separator is the link in front. `settled` folds the chain into
one node and appends it to the finished children.
-/

set_option autoImplicit false

namespace PlainPattern

/-- The modifiers written before a construct. -/
structure Lead where
  /-- An alternative to the sibling before it. -/
  forks : Bool := false
  optional : Bool := false
  /-- A separator for the repeat before it. -/
  separates : Bool := false
  negated : Bool := false
deriving DecidableEq, Repr

/-- The node that a construct becomes, before anything is written after it. -/
def Lead.node (lead : Lead) (body : Body) : Node :=
  .mk body { forks := lead.forks, optional := lead.optional, negated := lead.negated } .once

/-- The node with a separator for its repeat; nothing if it is not repeated. -/
def Node.separatedBy? (node separator : Node) : Option Node :=
  match node.repetition with
  | .once => none
  | .times bounds => some (node.withRepetition (.separated bounds separator))
  | .separated bounds _ => some (node.withRepetition (.separated bounds separator))

/-- Folds a chain, its end first: each link becomes the separator of the one behind it. -/
def joinChain : Option Node → List Node → Except Refusal (Option Node)
  | joined, [] => .ok joined
  | none, link :: outer => joinChain (some link) outer
  | some separator, link :: outer =>
      match link.separatedBy? separator with
      | some joined => joinChain (some joined) outer
      | none => .error .separatorWithoutRepeat

structure OpenBlock where
  /-- What was written before the block itself. -/
  lead : Lead := {}
  /-- The children before the one placed last. -/
  finished : List Node := []
  /-- The child placed last with its separators, the innermost separator first. -/
  chain : List Node := []
  /-- The end of the chain is a rule that takes criteria. -/
  acceptsCriteria : Bool := false
  /-- The end of the chain has just been repeated, so a separator may follow. -/
  repeatOpen : Bool := false

namespace OpenBlock

def isEmpty (block : OpenBlock) : Bool :=
  block.finished.isEmpty && block.chain.isEmpty

/-- A separator needs a repeat before it and cannot be an alternative; the first child of a block
has no sibling to be an alternative to. -/
def checkPlacement (block : OpenBlock) (lead : Lead) : Except Refusal Unit :=
  if lead.separates then
    if !block.repeatOpen then .error .separatorWithoutRepeat
    else if lead.forks then .error .separatorForks
    else .ok ()
  else if lead.forks && block.isEmpty then .error .firstRuleForks
  else .ok ()

/-- The block with its last child among the finished ones. -/
def settled (block : OpenBlock) : Except Refusal OpenBlock :=
  match joinChain none block.chain with
  | .ok last => .ok { block with finished := block.finished ++ last.toList, chain := [] }
  | .error refusal => .error refusal

/-- Puts a node behind the children so far, or behind the repeat that it separates. -/
def place (block : OpenBlock) (node : Node) (separates acceptsCriteria : Bool) :
    Except Refusal OpenBlock :=
  if separates then
    .ok { block with chain := node :: block.chain, repeatOpen := false, acceptsCriteria }
  else
    match block.settled with
    | .ok block => .ok { block with chain := [node], repeatOpen := false, acceptsCriteria }
    | .error refusal => .error refusal

/-- Adds a construct where its modifiers allow it to stand. -/
def add (block : OpenBlock) (lead : Lead) (body : Body) (acceptsCriteria : Bool) :
    Except Refusal OpenBlock :=
  match block.checkPlacement lead with
  | .ok () => block.place (lead.node body) lead.separates acceptsCriteria
  | .error refusal => .error refusal

def addCriterion (block : OpenBlock) (criterion : Criterion) : Except Refusal OpenBlock :=
  match block.acceptsCriteria, block.chain with
  | true, .mk (.rule rule) marks repetition :: outer =>
      let extended : Rule := { rule with criteria := rule.criteria ++ [criterion] }
      .ok { block with chain := .mk (.rule extended) marks repetition :: outer }
  | _, _ => .error .criterionWithoutRule

/-- Repeats the end of the chain, once and only if it is no negation. -/
def addRepeat (block : OpenBlock) (bounds : Bounds) : Except Refusal OpenBlock :=
  match block.chain with
  | [] => .error .repeatWithoutTarget
  | target :: outer =>
      match target.repetition with
      | .once =>
          if target.negated then .error .repeatOfNegation
          else .ok { block with
            chain := target.withRepetition (.times bounds) :: outer, repeatOpen := true }
      | .times _ => .error .repeatOfRepeat
      | .separated _ _ => .error .repeatOfRepeat

/-- Names the capture of the end of the chain, over an earlier name if there was one. -/
def collectAs (block : OpenBlock) (name : String) : Except Refusal OpenBlock :=
  match block.chain with
  | [] => .error .collectionWithoutRule
  | target :: outer =>
      let marks : Marks := { target.marks with collectAs := some name }
      .ok { block with chain := target.withMarks marks :: outer }

end OpenBlock

end PlainPattern
