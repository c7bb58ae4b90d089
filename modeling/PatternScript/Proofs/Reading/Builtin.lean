import Mathlib
import PatternScript.Proofs.Reading.Definitions
import PatternScript.Script.Builtin

/-!
# The built-in script, read

The first line of the built-in script defines its pattern. The other lines define nothing, so
what they are read as does not depend on the pattern: a ground with a few variables, and a loop
that adds one blade of the fan after the other.
-/
namespace PatternScript

deriving instance DecidableEq for NameMap, Action

namespace Command

mutual

def decEq (c d : Command) : Decidable (c = d) :=
  match c, d with
  | .act line a, .act line' a' => decidable_of_iff (line = line' ∧ a = a') (by simp)
  | .loop line count body, .loop line' count' body' =>
    have := decEqAll body body'
    decidable_of_iff (line = line' ∧ count = count' ∧ body = body') (by simp)
  | .choice line condition yes no, .choice line' condition' yes' no' =>
    have := decEqAll yes yes'
    have := decEqAll no no'
    decidable_of_iff (line = line' ∧ condition = condition' ∧ yes = yes' ∧ no = no') (by simp)
  | .act .., .loop .. | .act .., .choice .. | .loop .., .act .. | .loop .., .choice ..
  | .choice .., .act .. | .choice .., .loop .. => isFalse nofun

def decEqAll (cs ds : List Command) : Decidable (cs = ds) :=
  match cs, ds with
  | [], [] => isTrue rfl
  | c :: cs, d :: ds =>
    have := decEq c d
    have := decEqAll cs ds
    decidable_of_iff (c = d ∧ cs = ds) (by simp)
  | [], _ :: _ | _ :: _, [] => isFalse nofun

end

instance : DecidableEq Command := decEq

end Command

namespace Reading

variable {r : Reading}

theorem readCommand_define (r : Reading) (line : Nat) (args : List Char) :
    r.readCommand line "DEFINE" args = r.define line args := rfl

theorem patterns_readLines {line : Nat} {texts : List (List Char)}
    (h : Text.definitionsFrom line texts = []) :
    (r.readLines line texts).patterns = r.patterns := by
  induction texts generalizing r line with
  | nil => rfl
  | cons text rest ih =>
    obtain ⟨hnone, hrest⟩ := List.append_eq_nil_iff.1 h
    rw [readLines, ih hrest, readLine_eq]
    cases hsaid : Text.statement? text with
    | none => rfl
    | some s =>
      refine patterns_of_outcome (outcome_readCommand r line s.1 s.2) fun hdefine => ?_
      simp [Text.definition?, hsaid, hdefine] at hnone

theorem result_finish (herrors : r.errors = #[]) (hblocks : r.blocks = []) :
    r.finish.result = .ok r.script := by
  simp [finish, result, script, herrors, hblocks]

end Reading

namespace Builtin

open Definition (pattern)

def lines : List (List Char) := Text.lines Script.builtinSource.toList

def firstLine : List Char := lines.headD []

def definition : List Char := firstLine.drop 7

def digits : List Char := (definition.drop 48).take 400

def artdeco : Definition.Fields := ⟨"artdeco", 20, 20, digits⟩

def table : PatternTable := .set .empty (pattern artdeco).key (pattern artdeco)

def operand (name : String) : Token := .var ⟨name, false⟩

def arguments (fields : List (String × Token)) : Arguments :=
  fields.foldl (fun args e => args.set e.1 e.2) .empty

def declarations : List Command :=
  [.act 3 (.declare "$CENTER_X" []),
    .act 4 (.declare "$CENTER_Y" []),
    .act 5 (.declare "$SECONDPLUS" []),
    .act 6 (.declare "$ROTATION" []),
    .act 7 (.declare "$SIZE" [])]

def ground : List Command :=
  [.act 10 (.color (arguments [("NAME", .text "BLACK")])),
    .act 11 (.fill (arguments [("NAME", .text "SOLID")])),
    .act 12 (.draw .fillRect (arguments
      [("WIDTH", operand "$WIDTH"), ("HEIGHT", operand "$HEIGHT"), ("X", .int 0), ("Y", .int 0)])),
    .act 14 (.assign "$CENTER_X" [operand "$WIDTH", .op .div, .int 2]),
    .act 15 (.assign "$CENTER_Y" [operand "$HEIGHT", .op .div, .int 2]),
    .act 17 (.translate (arguments [("DX", operand "$CENTER_X"), ("DY", operand "$CENTER_Y")]))]

def counting : List Command :=
  [.act 19 (.assign "$SECONDPLUS"
      [.int 3, .op .add, operand "$SECOND", .op .mul, operand "$COUNTER", .op .mod, .int 15]),
    .act 20 (.assign "$ROTATION" [.int 360, .op .mul, .int 89, .op .div, operand "$SECONDPLUS"])]

def brushing : List Command :=
  [.act 21 (.rotate (arguments [("DEGREES", operand "$ROTATION")])),
    .act 23 (.assign "$SIZE" [operand "$WIDTH", .op .div, .int 40]),
    .act 25 (.fill (arguments [("NAME", .text "artdeco")])),
    .act 26 (.color (arguments [("NAME", .text "BLACK")]))]

def blade : List Command :=
  [.act 30 (.rotate (arguments [("DEGREES", operand "$ROTATION")])),
    .act 32 (.declare "$RADIUS" [operand "$INDEX", .op .mul, .int 10, .op .mod, .int 50]),
    .act 33 (.declare "$XPOSITION" [.int 0]),
    .act 34 (.declare "$YPOSITION" [operand "$INDEX"]),
    .act 36 (.draw .fillCircle (arguments
      [("RADIUS", operand "$INDEX"), ("X", operand "$XPOSITION"), ("Y", operand "$YPOSITION")])),
    .choice 38 [operand "$INDEX", .op .mod, .int 2, .compare .eq, .int 0]
      [.act 39 (.color (arguments [("NAME", .text "WHITE")])),
        .act 40 (.scale (arguments [("FACTOR", operand "$SIZE")]))]
      [.act 42 (.color (arguments [("NAME", .text "BLACK")])),
        .act 43 (.scale (arguments [("FACTOR", operand "$SIZE")]))],
    .act 46 (.draw .stamp (arguments [("NAME", .text "artdeco"), ("X", operand "$XPOSITION"),
      ("Y", operand "$YPOSITION")]))]

end Builtin

open Builtin

def Script.builtin : Script where
  commands := declarations ++ ground ++ counting ++ brushing ++
    [.loop 28 (operand "$SECONDPLUS") blade]
  patterns := table
  declared := ["$CENTER_X", "$CENTER_Y", "$SECONDPLUS", "$ROTATION", "$SIZE", "$RADIUS",
    "$XPOSITION", "$YPOSITION"]

namespace Builtin

set_option maxRecDepth 20000 in
theorem lines_eq : lines = firstLine :: lines.tail := by
  rw [firstLine, lines, Script.builtinSource, String.toList_ofList]
  decide +kernel

set_option maxRecDepth 20000 in
theorem statement?_firstLine : Text.statement? firstLine = some ("DEFINE", definition) := by
  rw [definition, firstLine, lines, Script.builtinSource, String.toList_ofList]
  decide +kernel

set_option maxRecDepth 20000 in
theorem parse_definition : Arguments.parse (definition.drop 7) = .ok (arguments
    [("NAME", .text "artdeco"), ("WIDTH", .int 20), ("HEIGHT", .int 20),
      ("DATA", .text (String.ofList digits))]) := by
  rw [digits, definition, firstLine, lines, Script.builtinSource, String.toList_ofList]
  cbv

set_option maxRecDepth 20000 in
theorem afterKeyword?_definition :
    Definition.afterKeyword? definition = some (definition.drop 7) := by
  rw [definition, firstLine, lines, Script.builtinSource, String.toList_ofList]
  decide +kernel

set_option maxRecDepth 20000 in
theorem acceptable_artdeco : Definition.sizeFault? artdeco = none ∧
    Definition.contentFault? .empty artdeco = none ∧
    Definition.sizeRemarks artdeco ++ Definition.dataRemarks artdeco = [] := by
  rw [artdeco, digits, definition, firstLine, lines, Script.builtinSource, String.toList_ofList]
  decide +kernel

theorem readFields_definition : Definition.readFields definition = .ok artdeco := by
  rw [Definition.readFields, afterKeyword?_definition]
  refine bind_eq_ok.2 ⟨_, parse_definition, ?_⟩
  refine bind_eq_ok.2 ⟨"artdeco", by simp [Definition.text, arguments], ?_⟩
  refine throw_unless_eq_ok.2 ⟨by decide, ?_⟩
  refine bind_eq_ok.2 ⟨20, by simp [Definition.size, arguments], ?_⟩
  refine bind_eq_ok.2 ⟨20, by simp [Definition.size, arguments], ?_⟩
  refine bind_eq_ok.2 ⟨String.ofList digits, by simp [Definition.text, arguments], ?_⟩
  rw [String.toList_ofList]
  rfl

theorem readLine_firstLine : ({} : Reading).readLine 1 firstLine = { patterns := table } := by
  obtain ⟨hsize, hcontent, hremarks⟩ := acceptable_artdeco
  have hread : Definition.read ({} : Reading).patterns definition = ([], .ok table) := by
    rw [← hremarks]
    exact Definition.read_accepted readFields_definition hsize hcontent
  rw [Reading.readLine_eq, statement?_firstLine]
  dsimp only
  rw [Reading.readCommand_define, Reading.define, hread]
  rfl

set_option maxRecDepth 20000 in
theorem definitionsFrom_tail : Text.definitionsFrom 2 lines.tail = [] := by
  rw [lines, Script.builtinSource, String.toList_ofList]
  decide +kernel

set_option maxRecDepth 20000 in
theorem readLines_tail :
    let r := ({ patterns := table } : Reading).readLines 2 lines.tail
    r.errors.isEmpty = true ∧ r.blocks.isEmpty = true ∧
      r.commands.toList = Script.builtin.commands ∧ r.declared = Script.builtin.declared := by
  rw [lines, Script.builtinSource, String.toList_ofList]
  decide +kernel

end Builtin

theorem Script.compile_builtinSource : compile builtinSource = .ok builtin := by
  obtain ⟨herrors, hblocks, hcommands, hdeclared⟩ := readLines_tail
  have hpatterns : (({ patterns := table } : Reading).readLines 2 lines.tail).patterns = table :=
    Reading.patterns_readLines definitionsFrom_tail
  have hread :=
    calc Reading.readLines {} 1 lines
      _ = Reading.readLines {} 1 (firstLine :: lines.tail) :=
        congrArg (Reading.readLines {} 1) lines_eq
      _ = (Reading.readLine {} 1 firstLine).readLines 2 lines.tail := by rw [Reading.readLines]
      _ = Reading.readLines { patterns := table } 2 lines.tail := by rw [readLine_firstLine]
  rw [compile, Reading.ofSource, ← lines, hread,
    Reading.result_finish (Array.isEmpty_iff.1 herrors) (List.isEmpty_iff.1 hblocks),
    Reading.script, hcommands, hpatterns, hdeclared]
  rfl

end PatternScript
