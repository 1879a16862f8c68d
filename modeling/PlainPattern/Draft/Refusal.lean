/-!
Contract: the reasons for which a draft refuses an edit.

Owns: one constructor for each structural rule that an edit can break, and the sentence that says
so. A refusal is about the tree being built and knows no place in any text.
-/

set_option autoImplicit false

namespace PlainPattern

inductive Refusal where
  /-- The next symbol begins, or the draft is finished, while a pattern is open. -/
  | patternNeverClosed
  /-- The name is a reserved word or belongs to another symbol. -/
  | nameTaken (name : String)
  | patternEndedInsideBlock
  | emptyPattern
  | noPatternToEnd
  | noBlockToClose
  | emptyBlock
  | separatorWithoutRepeat
  | separatorForks
  | firstRuleForks
  | charsetContainsItself
  /-- The node that was added last is no rule, or takes no more criteria. -/
  | criterionWithoutRule
  /-- Neither a pattern nor a charset is being built. -/
  | criterionWithoutOwner
  | invalidRepeatRange
  | repeatWithoutTarget
  | repeatOfRepeat
  | repeatOfNegation
  | collectionWithoutRule
  | outsidePattern
  | emptyCharset
  /-- The charsets that lead back to the first of them, which stands at both ends. -/
  | charsetCycle (names : List String)
deriving DecidableEq, Repr

namespace Refusal

/-- What is wrong, without any introduction. -/
def reason : Refusal → String
  | patternNeverClosed => "Pattern was never closed"
  | nameTaken name => "Symbol '" ++ name ++ "' is reserved or already defined"
  | patternEndedInsideBlock => "Pattern ended inside a block"
  | emptyPattern => "Must be at least one matching rule in pattern"
  | noPatternToEnd => "No pattern to end"
  | noBlockToClose => "No block to close"
  | emptyBlock => "Must be at least one matching rule in block"
  | separatorWithoutRepeat => "A separator must follow a repeat"
  | separatorForks => "A separator cannot fork"
  | firstRuleForks => "First rule in block cannot fork"
  | charsetContainsItself => "Cannot include charset in itself"
  | criterionWithoutRule => "No matching rule to add a criterion to"
  | criterionWithoutOwner => "No rule or charset to add a criterion to"
  | invalidRepeatRange => "Invalid repeat range"
  | repeatWithoutTarget => "Repeat invalid in this position"
  | repeatOfRepeat => "Cannot repeat a repeat"
  | repeatOfNegation => "Cannot repeat a negative match"
  | collectionWithoutRule => "Collection must come after a rule"
  | outsidePattern => "Rules can only appear inside a pattern"
  | emptyCharset => "Charset must contain at least one element"
  | charsetCycle names => "Charset cycle: " ++ String.intercalate " -> " names

def message (refusal : Refusal) : String :=
  "Internal consistency error: " ++ refusal.reason

end Refusal

end PlainPattern
