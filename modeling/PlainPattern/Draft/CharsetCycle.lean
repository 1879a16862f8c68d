import PlainPattern.Schema.Basic

/-!
Contract: no charset may lead back to itself through the charsets it names.

Owns: the links between the charsets of a table, and the walk that finds the first chain of links
that closes. The walk goes depth first, over the names in ascending order and over the criteria of
a charset as they are written, and enters each charset once. Its recursion is on the names that are
not on the current path, so it needs no limit.
-/

set_option autoImplicit false

namespace PlainPattern

def Criterion.symbolName? : Criterion → Option String
  | .symbol name => some name
  | _ => none

/-- The symbols that a charset names, in order; nothing if the name is not a charset's. -/
def charsetLinks? (symbols : Table Symbol) (name : String) : Option (List String) :=
  match symbols.get? name with
  | some (.charset charset) => some (charset.criteria.filterMap Criterion.symbolName?)
  | _ => none

/-- Walks everything that can be reached from a name. The names in `done` are known to be harmless;
those on `path` lead to this one, and every other charset is in `fresh`. Answers with the harmless
names, or with a chain that closes. -/
def walkCharsets (symbols : Table Symbol) (fresh path done : List String) (name : String) :
    Except (List String) (List String) :=
  match charsetLinks? symbols name with
  | none => .ok done
  | some links =>
      if name ∈ done then .ok done
      else if name ∈ fresh then
        let walked := links.foldlM
          (fun harmless link =>
            walkCharsets symbols (fresh.erase name) (path ++ [name]) harmless link)
          done
        match walked with
        | .ok harmless => .ok (name :: harmless)
        | .error cycle => .error cycle
      else .error (path.dropWhile (fun earlier => earlier != name) ++ [name])
termination_by fresh.length
decreasing_by
  rename_i unseen
  rw [List.length_erase_of_mem unseen]
  exact Nat.sub_lt (List.length_pos_of_mem unseen) Nat.one_pos

/-- The first chain of charsets that closes, if there is one. -/
def findCharsetCycle? (symbols : Table Symbol) : Option (List String) :=
  let walked := symbols.names.foldlM
    (fun harmless name => walkCharsets symbols symbols.names [] harmless name) []
  match walked with
  | .ok _ => none
  | .error cycle => some cycle

end PlainPattern
