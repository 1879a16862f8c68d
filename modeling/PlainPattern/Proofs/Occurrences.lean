import PlainPattern.Proofs.TreeRules

/-!
Contract: the rules and the criteria that occur in a schema.

Owns: the rules of a tree, in itself, in everything inside it and in its separators; the rules and
the criteria of a schema, of which the criteria also stand in charsets; and what it means that
something occurs (`Schema.mem_rules_iff`, `Schema.mem_criteria_iff`).
-/

set_option autoImplicit false

namespace PlainPattern

mutual

/-- All rules in a tree: in itself, in everything inside it and in its separators. -/
def Node.rules : Node → List Rule
  | .mk body _ repetition => body.rules ++ repetition.rules

def Body.rules : Body → List Rule
  | .block children => rulesOf children
  | .rule rule => [rule]
  | .reference _ => []

def Repetition.rules : Repetition → List Rule
  | .once => []
  | .times _ => []
  | .separated _ separator => separator.rules

def rulesOf : List Node → List Rule
  | [] => []
  | node :: rest => node.rules ++ rulesOf rest

end

def Symbol.rules : Symbol → List Rule
  | .pattern found => rulesOf found.children
  | .charset _ => []

/-- The criteria of all rules of a pattern, or those of a charset. -/
def Symbol.criteria : Symbol → List Criterion
  | .pattern found => (rulesOf found.children).flatMap Rule.criteria
  | .charset found => found.criteria

namespace Schema

variable {schema : Schema} {rule : Rule} {criterion : Criterion}

def rules (schema : Schema) : List Rule :=
  schema.symbols.entries.flatMap fun entry => entry.2.rules

def criteria (schema : Schema) : List Criterion :=
  schema.symbols.entries.flatMap fun entry => entry.2.criteria

theorem mem_rules_iff :
    rule ∈ schema.rules ↔ ∃ name symbol, schema.get? name = some symbol ∧ rule ∈ symbol.rules := by
  simp only [rules, List.mem_flatMap, Prod.exists, Table.mem_entries_iff]
  rfl

theorem mem_criteria_iff :
    criterion ∈ schema.criteria ↔
      ∃ name symbol, schema.get? name = some symbol ∧ criterion ∈ symbol.criteria := by
  simp only [criteria, List.mem_flatMap, Prod.exists, Table.mem_entries_iff]
  rfl

theorem mem_criteria_of_charset {name : String} {charset : Charset}
    (found : schema.get? name = some (.charset charset)) (member : criterion ∈ charset.criteria) :
    criterion ∈ schema.criteria :=
  mem_criteria_iff.2 ⟨name, .charset charset, found, member⟩

theorem mem_criteria_of_rule {name : String} {pattern : Pattern}
    (found : schema.get? name = some (.pattern pattern)) (inside : rule ∈ rulesOf pattern.children)
    (member : criterion ∈ rule.criteria) : criterion ∈ schema.criteria :=
  mem_criteria_iff.2 ⟨name, .pattern pattern, found, List.mem_flatMap.2 ⟨rule, inside, member⟩⟩

end Schema

/-! ## Rules that are obeyed everywhere -/

section Obeys

variable {rules : TreeRules} {rule : Rule}

mutual

theorem Node.rule_of_obeys : ∀ {node : Node}, node.Obeys rules → rule ∈ node.rules →
    rules.rule rule
  | .mk _ _ _, ⟨_, body, repetition⟩, member => by
      rcases List.mem_append.1 member with inBody | inRepetition
      · exact Body.rule_of_obeys body inBody
      · exact Repetition.rule_of_obeys repetition inRepetition

theorem Body.rule_of_obeys : ∀ {body : Body}, body.Obeys rules → rule ∈ body.rules →
    rules.rule rule
  | .block _, ⟨_, each⟩, member => rule_of_allObey each member
  | .rule _, obeys, member => List.mem_singleton.1 member ▸ obeys
  | .reference _, _, member => by cases member

theorem Repetition.rule_of_obeys {marks : Marks} : ∀ {repetition : Repetition},
    repetition.Obeys rules marks → rule ∈ repetition.rules → rules.rule rule
  | .once, _, member => by cases member
  | .times _, _, member => by cases member
  | .separated _ _, ⟨_, _, separator⟩, member => Node.rule_of_obeys separator member

theorem rule_of_allObey : ∀ {nodes : List Node}, AllObey rules nodes → rule ∈ rulesOf nodes →
    rules.rule rule
  | [], _, member => by cases member
  | _ :: _, ⟨first, others⟩, member => by
      rcases List.mem_append.1 member with inFirst | inOthers
      · exact Node.rule_of_obeys first inFirst
      · exact rule_of_allObey others inOthers

end

/-- In a schema all of whose symbols obey the rules, every rule that occurs obeys them. -/
theorem Schema.rule_of_obeys {schema : Schema}
    (obeys : ∀ key symbol, schema.get? key = some symbol → symbol.Obeys rules)
    (member : rule ∈ schema.rules) : rules.rule rule := by
  obtain ⟨key, symbol, found, inside⟩ := Schema.mem_rules_iff.1 member
  cases symbol with
  | pattern pattern => exact rule_of_allObey (obeys key _ found).2 inside
  | charset charset => cases inside

end Obeys

end PlainPattern
