import PatternScript.Script.Command

/-!
# The outline of a command tree

The commands in the order in which they are written: a block before its body, and what
holds when a condition is met before what holds otherwise.
-/
namespace PatternScript

inductive Place
  | top
  | body
  | yes
  | no
  deriving DecidableEq, Repr

structure Outlined where
  depth : Nat
  place : Place
  command : Command

mutual

def Command.outline (depth : Nat) (place : Place) : Command → List Outlined
  | .act line a => [⟨depth, place, .act line a⟩]
  | .loop line count body =>
    ⟨depth, place, .loop line count body⟩ :: outlineAll (depth + 1) .body body
  | .choice line condition yes no =>
    ⟨depth, place, .choice line condition yes no⟩ ::
      (outlineAll (depth + 1) .yes yes ++ outlineAll (depth + 1) .no no)

def Command.outlineAll (depth : Nat) (place : Place) : List Command → List Outlined
  | [] => []
  | c :: rest => c.outline depth place ++ outlineAll depth place rest

end

def Script.outline (s : Script) : List Outlined := Command.outlineAll 0 .top s.commands

end PatternScript
