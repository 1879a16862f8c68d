import PlainPattern.Matching.Evaluator
import PlainPattern.Schema.CharacterClass

/-!
Contract: what the nodes and symbols of a schema match in a text.

Owns: the evaluators of criteria, rules, nodes, charsets and patterns. Within a node the recursion
is on the tree; only the names of symbols lead out of it, and each name that is followed uses up one
step of a depth. The depths are large enough for every schema and text:

* a chain of charsets that does not close is no longer than the schema has symbols;
* along a chain of references the cursor never goes back, and while it stays, nothing is captured
  and names only begin to collect, at most one for each node. A chain longer than `referenceDepth`
  therefore comes back to a pattern in the very state in which it was entered before, and would go
  on without end.
-/

set_option autoImplicit false

namespace PlainPattern

namespace Scene

/-! ## Criteria -/

/-- The evaluator of a criterion, given the evaluators of charsets by name. A name is a character
class before it is a charset. -/
def criterionWith (scene : Scene) (charset : String → Evaluator) : Criterion → Evaluator
  | .literal text => Evaluator.exactly scene.text text.toList
  | .valueOf name => fun entry =>
      match entry.value? scene.supplied name with
      | some value => Evaluator.exactly scene.text value.toList entry
      | none => .undecided (.missingVariable name) entry
  | .range low high =>
      Evaluator.oneCharacter scene.text fun character =>
        decide (low ≤ character) && decide (character ≤ high)
  | .symbol name => fun entry =>
      match CharacterClass.ofName? name with
      | some characterClass => Evaluator.oneCharacter scene.text characterClass.contains entry
      | none => charset name entry
  | .endpoint .start => fun entry => .answer (entry.position == 0) entry
  | .endpoint .finish => fun entry => .answer (entry.atEnd scene.text) entry

/-- The evaluator of a charset's criteria, the first that matches wins. -/
def charsetWith (scene : Scene) (charset : String → Evaluator) (found : Charset) : Evaluator :=
  fun entry => Evaluator.firstOf (found.criteria.map (scene.criterionWith charset)) entry

/-- The evaluator of the charset of this name, where names may be followed to this depth. -/
def charsetTo (scene : Scene) : Nat → String → Evaluator
  | 0, name => fun entry =>
      match scene.schema.charset name with
      | .error error => .undecided (.lookup error) entry
      | .ok _ => .undecided (.endlessReference name) entry
  | depth + 1, name => fun entry =>
      match scene.schema.charset name with
      | .error error => .undecided (.lookup error) entry
      | .ok charset => scene.charsetWith (scene.charsetTo depth) charset entry

def charset (scene : Scene) (name : String) : Evaluator :=
  scene.charsetTo scene.schema.size name

def criterion (scene : Scene) (criterion : Criterion) : Evaluator :=
  scene.criterionWith scene.charset criterion

/-! ## Rules and nodes -/

/-- At the end of the text only the rule that asks for nothing but the end matches. -/
def rule (scene : Scene) (rule : Rule) : Evaluator := fun entry =>
  if entry.atEnd scene.text then
    .answer (decide (rule.criteria = [.endpoint .finish])) entry
  else if rule.inclusive then Evaluator.firstOf (rule.criteria.map scene.criterion) entry
  else Evaluator.stepUnless scene.text (rule.criteria.map scene.criterion) entry

mutual

/-- The evaluator of a node, given the evaluators of patterns by name. -/
def nodeWith (scene : Scene) (pattern : String → Evaluator) : Node → Evaluator
  | .mk body marks repetition => fun entry =>
      let once := Evaluator.collectingAs marks.collectAs (bodyWith scene pattern body)
      let whole := repetitionWith scene pattern once repetition
      if marks.negated then Evaluator.absent whole entry else whole entry

/-- The evaluator of what a node matches, without regard to its marks. -/
def bodyWith (scene : Scene) (pattern : String → Evaluator) : Body → Evaluator
  | .block children => fun entry => Evaluator.block (branchesWith scene pattern children) entry
  | .rule rule => scene.rule rule
  | .reference name => pattern name

def repetitionWith (scene : Scene) (pattern : String → Evaluator) (item : Evaluator) :
    Repetition → Evaluator
  | .once => item
  | .times bounds => Evaluator.repeated scene.text bounds none item
  | .separated bounds separator =>
      Evaluator.repeated scene.text bounds
        (some ⟨separator.optional, nodeWith scene pattern separator⟩) item

def branchesWith (scene : Scene) (pattern : String → Evaluator) :
    List Node → List Evaluator.Branch
  | [] => []
  | node :: rest =>
      ⟨node.forks, node.optional, nodeWith scene pattern node⟩ ::
        branchesWith scene pattern rest

end

/-! ## Patterns -/

/-- The evaluator of a pattern: its children, as one unit. -/
def patternWith (scene : Scene) (pattern : String → Evaluator) (found : Pattern) : Evaluator :=
  fun entry => Evaluator.block (scene.branchesWith pattern found.children) entry

/-- The evaluator of the pattern of this name, where names may be followed to this depth. -/
def patternTo (scene : Scene) : Nat → String → Evaluator
  | 0, name => fun entry =>
      match scene.schema.pattern name with
      | .error error => .undecided (.lookup error) entry
      | .ok _ => .undecided (.endlessReference name) entry
  | depth + 1, name => fun entry =>
      match scene.schema.pattern name with
      | .error error => .undecided (.lookup error) entry
      | .ok pattern => scene.patternWith (scene.patternTo depth) pattern entry

/-- One step for each pattern, each place from the cursor on and each number of names that may
have begun to collect. -/
def referenceDepth (scene : Scene) (entry : State) : Nat :=
  scene.schema.patterns.length * (entry.remaining scene.text + 1) * (scene.schema.nodeCount + 1) + 1

def pattern (scene : Scene) (pattern : Pattern) : Evaluator := fun entry =>
  scene.patternWith (scene.patternTo (scene.referenceDepth entry)) pattern entry

/-- The evaluator of whatever pattern the schema holds under a name. -/
def patternNamed (scene : Scene) (name : String) : Evaluator := fun entry =>
  match scene.schema.pattern name with
  | .error error => .undecided (.lookup error) entry
  | .ok pattern => scene.pattern pattern entry

theorem patternNamed_of_found {scene : Scene} {name : String} {found : Pattern}
    (looked : scene.schema.pattern name = .ok found) :
    scene.patternNamed name = scene.pattern found := by
  funext entry
  simp only [patternNamed, looked]

/-- The name is followed first, and then as many as the pattern may follow. -/
theorem patternNamed_eq (scene : Scene) (name : String) (entry : State) :
    scene.patternNamed name entry =
      scene.patternTo (scene.referenceDepth entry + 1) name entry :=
  rfl

end Scene

end PlainPattern
