import PlainPattern.Proofs.Consumption
import PlainPattern.Schema.Basic

/-!
Contract: a schema without some of its captures, and captured values without some of their names.

Owns: tables whose values are changed (`Table.map`), bindings that leave names out
(`Bindings.without`), and trees in which no item, block, reference or separator collects under a
hidden name any more (`Schema.withoutCaptures`). Nothing else of a schema changes: every lookup
leads where it led before, and the counts on which the depth of a match depends are the same.
-/

set_option autoImplicit false

namespace PlainPattern

/-! ## Tables -/

theorem lookup_map_snd {Value Other : Type} (change : Value → Other) (name : String)
    (entries : List (String × Value)) :
    (entries.map fun entry => (entry.1, change entry.2)).lookup name =
      (entries.lookup name).map change := by
  induction entries with
  | nil => rfl
  | cons entry rest inductionHypothesis =>
      obtain ⟨key, value⟩ := entry
      rw [List.map_cons, lookup_cons_eq_ite, lookup_cons_eq_ite, inductionHypothesis]
      split <;> rfl

/-- The table with every value changed. -/
def Table.map {Value Other : Type} (change : Value → Other) (table : Table Value) :
    Table Other where
  entries := table.entries.map fun entry => (entry.1, change entry.2)
  ascending := by exact List.pairwise_map.2 table.ascending

theorem Table.get?_map {Value Other : Type} (change : Value → Other) (table : Table Value)
    (name : String) : (table.map change).get? name = (table.get? name).map change :=
  lookup_map_snd change name table.entries

namespace Bindings

variable {hidden : String → Bool}

theorem lookup_filter_fst (hidden : String → Bool) (name : String)
    (entries : List (String × String)) :
    (entries.filter fun entry => !hidden entry.1).lookup name =
      if hidden name then none else entries.lookup name := by
  induction entries with
  | nil => simp
  | cons entry rest inductionHypothesis =>
      obtain ⟨key, value⟩ := entry
      rw [List.filter_cons, lookup_cons_eq_ite]
      by_cases same : name = key
      · subst same
        cases isHidden : hidden name with
        | true => simp [inductionHypothesis, isHidden]
        | false => simp
      · cases hidden key with
        | true => simpa [same] using inductionHypothesis
        | false => simpa [lookup_cons_eq_ite, same] using inductionHypothesis

/-- The bindings of all names that are not hidden. -/
def without (hidden : String → Bool) (bindings : Bindings) : Bindings :=
  ⟨bindings.entries.filter fun entry => !hidden entry.1, bindings.ascending.filter _⟩

theorem get?_without (bindings : Bindings) (name : String) :
    (bindings.without hidden).get? name = if hidden name then none else bindings.get? name :=
  lookup_filter_fst hidden name bindings.entries

theorem without_of_visible (bindings : Bindings) : bindings.without (fun _ => false) = bindings :=
  Table.ext_get? fun name => by simp [get?_without]

theorem without_append_of_hidden {name : String} (isHidden : hidden name = true)
    (bindings : Bindings) (character : Char) :
    (bindings.append name character).without hidden = bindings.without hidden := by
  refine Table.ext_get? fun other => ?_
  rw [get?_without, get?_without, get?_append]
  by_cases same : other = name
  · simp [same, isHidden]
  · simp [same]

theorem without_append_of_visible {name : String} (visible : hidden name = false)
    (bindings : Bindings) (character : Char) :
    (bindings.append name character).without hidden =
      (bindings.without hidden).append name character := by
  refine Table.ext_get? fun other => ?_
  rw [get?_without, get?_append, get?_append, get?_without, get?_without]
  by_cases same : other = name
  · simp [same, visible]
  · simp [same]

/-- A character that is collected under some names is collected under those of them that are not
hidden. -/
theorem without_foldl_append (bindings : Bindings) (names : List String) (character : Char) :
    (names.foldl (fun captured name => captured.append name character) bindings).without hidden =
      (names.filter fun name => !hidden name).foldl
        (fun captured name => captured.append name character) (bindings.without hidden) := by
  induction names generalizing bindings with
  | nil => rfl
  | cons name rest inductionHypothesis =>
      rw [List.foldl_cons, inductionHypothesis]
      cases isHidden : hidden name with
      | true => rw [without_append_of_hidden isHidden, List.filter_cons_of_neg (by simp [isHidden])]
      | false =>
          rw [without_append_of_visible isHidden, List.filter_cons_of_pos (by simp [isHidden]),
            List.foldl_cons]

end Bindings

/-! ## Trees -/

/-- A node with these marks no longer collects under a hidden name. -/
def Marks.withoutCapture (hidden : String → Bool) (marks : Marks) : Marks :=
  { marks with collectAs := marks.collectAs.filter fun name => !hidden name }

mutual

/-- The tree in which nothing collects under a hidden name. -/
def Node.withoutCaptures (hidden : String → Bool) : Node → Node
  | .mk body marks repetition =>
      .mk (body.withoutCaptures hidden) (marks.withoutCapture hidden)
        (repetition.withoutCaptures hidden)

def Body.withoutCaptures (hidden : String → Bool) : Body → Body
  | .block children => .block (nodesWithoutCaptures hidden children)
  | .rule rule => .rule rule
  | .reference name => .reference name

def Repetition.withoutCaptures (hidden : String → Bool) : Repetition → Repetition
  | .once => .once
  | .times bounds => .times bounds
  | .separated bounds separator => .separated bounds (separator.withoutCaptures hidden)

def nodesWithoutCaptures (hidden : String → Bool) : List Node → List Node
  | [] => []
  | node :: rest => node.withoutCaptures hidden :: nodesWithoutCaptures hidden rest

end

section Trees

variable {hidden : String → Bool}

theorem nodesWithoutCaptures_append (first second : List Node) :
    nodesWithoutCaptures hidden (first ++ second) =
      nodesWithoutCaptures hidden first ++ nodesWithoutCaptures hidden second := by
  induction first with
  | nil => rfl
  | cons node rest inductionHypothesis =>
      rw [List.cons_append, nodesWithoutCaptures, inductionHypothesis]
      rfl

mutual

theorem Node.nodeCount_withoutCaptures : ∀ node : Node,
    (node.withoutCaptures hidden).nodeCount = node.nodeCount
  | .mk body _ repetition => by
      rw [Node.withoutCaptures, Node.nodeCount, Node.nodeCount,
        Body.nodeCount_withoutCaptures body, Repetition.nodeCount_withoutCaptures repetition]

theorem Body.nodeCount_withoutCaptures : ∀ body : Body,
    (body.withoutCaptures hidden).nodeCount = body.nodeCount
  | .block children => nodeCountOf_withoutCaptures children
  | .rule _ => rfl
  | .reference _ => rfl

theorem Repetition.nodeCount_withoutCaptures : ∀ repetition : Repetition,
    (repetition.withoutCaptures hidden).nodeCount = repetition.nodeCount
  | .once => rfl
  | .times _ => rfl
  | .separated _ separator => Node.nodeCount_withoutCaptures separator

theorem nodeCountOf_withoutCaptures : ∀ nodes : List Node,
    nodeCountOf (nodesWithoutCaptures hidden nodes) = nodeCountOf nodes
  | [] => rfl
  | node :: rest => by
      rw [nodesWithoutCaptures, nodeCountOf, nodeCountOf, Node.nodeCount_withoutCaptures node,
        nodeCountOf_withoutCaptures rest]

end

theorem Marks.withoutCapture_of_visible (marks : Marks) :
    marks.withoutCapture (fun _ => false) = marks := by
  obtain ⟨forks, optional, negated, collectAs⟩ := marks
  cases collectAs <;> rfl

mutual

theorem Node.withoutCaptures_of_visible : ∀ node : Node,
    node.withoutCaptures (fun _ => false) = node
  | .mk body marks repetition => by
      rw [Node.withoutCaptures, Body.withoutCaptures_of_visible body,
        marks.withoutCapture_of_visible, Repetition.withoutCaptures_of_visible repetition]

theorem Body.withoutCaptures_of_visible : ∀ body : Body,
    body.withoutCaptures (fun _ => false) = body
  | .block children => congrArg Body.block (nodesWithoutCaptures_of_visible children)
  | .rule _ => rfl
  | .reference _ => rfl

theorem Repetition.withoutCaptures_of_visible : ∀ repetition : Repetition,
    repetition.withoutCaptures (fun _ => false) = repetition
  | .once => rfl
  | .times _ => rfl
  | .separated bounds separator =>
      congrArg (Repetition.separated bounds) (Node.withoutCaptures_of_visible separator)

theorem nodesWithoutCaptures_of_visible : ∀ nodes : List Node,
    nodesWithoutCaptures (fun _ => false) nodes = nodes
  | [] => rfl
  | node :: rest => by
      rw [nodesWithoutCaptures, Node.withoutCaptures_of_visible node,
        nodesWithoutCaptures_of_visible rest]

end

end Trees

/-! ## Schemas -/

def Pattern.withoutCaptures (hidden : String → Bool) (pattern : Pattern) : Pattern :=
  { pattern with children := nodesWithoutCaptures hidden pattern.children }

theorem Pattern.withoutCaptures_of_visible (pattern : Pattern) :
    pattern.withoutCaptures (fun _ => false) = pattern := by
  rw [Pattern.withoutCaptures, nodesWithoutCaptures_of_visible]

def Symbol.withoutCaptures (hidden : String → Bool) : Symbol → Symbol
  | .pattern found => .pattern (found.withoutCaptures hidden)
  | .charset found => .charset found

namespace Schema

variable {schema : Schema} {hidden : String → Bool}

/-- The schema in which nothing collects under a hidden name. -/
def withoutCaptures (hidden : String → Bool) (schema : Schema) : Schema :=
  ⟨schema.symbols.map (Symbol.withoutCaptures hidden)⟩

theorem get?_withoutCaptures (name : String) :
    (schema.withoutCaptures hidden).get? name =
      (schema.get? name).map (Symbol.withoutCaptures hidden) :=
  Table.get?_map _ schema.symbols name

theorem pattern_withoutCaptures (name : String) :
    (schema.withoutCaptures hidden).pattern name =
      (schema.pattern name).map (Pattern.withoutCaptures hidden) := by
  unfold Schema.pattern
  rw [get?_withoutCaptures]
  match schema.get? name with
  | some (.pattern found) | some (.charset found) | none => rfl

theorem charset_withoutCaptures (name : String) :
    (schema.withoutCaptures hidden).charset name = schema.charset name := by
  unfold Schema.charset
  rw [get?_withoutCaptures]
  match schema.get? name with
  | some (.pattern found) | some (.charset found) | none => rfl

theorem size_withoutCaptures : (schema.withoutCaptures hidden).size = schema.size :=
  List.length_map _

theorem patterns_withoutCaptures :
    (schema.withoutCaptures hidden).patterns =
      schema.patterns.map (Pattern.withoutCaptures hidden) := by
  simp only [patterns, withoutCaptures, Table.map, List.filterMap_map, List.map_filterMap]
  refine congrArg (List.filterMap · schema.symbols.entries) (funext fun entry => ?_)
  obtain ⟨name, symbol⟩ := entry
  cases symbol <;> rfl

theorem nodeCount_withoutCaptures :
    (schema.withoutCaptures hidden).nodeCount = schema.nodeCount := by
  have children : (schema.withoutCaptures hidden).patterns.flatMap Pattern.children =
      nodesWithoutCaptures hidden (schema.patterns.flatMap Pattern.children) := by
    rw [patterns_withoutCaptures]
    induction schema.patterns with
    | nil => rfl
    | cons pattern rest inductionHypothesis =>
        rw [List.map_cons, List.flatMap_cons, inductionHypothesis, List.flatMap_cons,
          nodesWithoutCaptures_append]
        rfl
  rw [nodeCount, children, nodeCountOf_withoutCaptures]
  rfl

theorem withoutCaptures_of_visible (schema : Schema) :
    schema.withoutCaptures (fun _ => false) = schema := by
  have same : (schema.withoutCaptures fun _ => false).symbols = schema.symbols := by
    refine Table.ext_get? fun name => ?_
    rw [withoutCaptures, Table.get?_map]
    match schema.symbols.get? name with
    | none => rfl
    | some (.charset found) => rfl
    | some (.pattern found) =>
        exact congrArg (fun pattern => some (Symbol.pattern pattern))
          found.withoutCaptures_of_visible
  exact congrArg Schema.mk same

end Schema

end PlainPattern
