import PatternScript.Number.Fixed
import PatternScript.Preview.App

/-!
# The panels of the preview

Each panel is a list of short texts. How long a run took is measured by the host, which
hands the texts for it in.
-/
namespace PatternScript

inductive Panel
  | status
  | errors
  | commands
  | displayList
  | stats
  deriving DecidableEq, Repr

namespace Panel

def all : List Panel := [status, errors, commands, displayList, stats]

def name : Panel → String
  | status => "status"
  | errors => "errors"
  | commands => "commands"
  | displayList => "display_list"
  | stats => "stats"

def ofName? (name : String) : Option Panel := all.find? (·.name = name)

structure Durations where
  generate : String
  render : String

def statusTexts (s : Shown) : List String :=
  (if s.parseErrors.isEmpty then ["✓  parsed"]
    else [s!"✗  {s.parseErrors.length} parse error(s)"]) ++
  (if s.usedBuiltin then ["showing built-in script"] else []) ++
  (if s.runtimeErrors.isEmpty then []
    else [s!"{s.runtimeErrors.length} runtime error(s)"]) ++
  ["fallback on error", "run"]

def errorTexts (s : Shown) : List String :=
  if s.parseErrors.isEmpty && s.runtimeErrors.isEmpty then ["No errors."]
  else
    s.parseErrors.map (fun e => s!"[{e.code.label}] {e.text}") ++
    s.runtimeErrors.map (fun e => s!"[{e.code.label}] {e.text}")

def sized (name : String) (width height : Nat) : String := s!"{name} {width}×{height}"

def commandText (c : Command) : String :=
  String.ofList (Text.padLeft 4 ' ' (Nat.toDigits 10 c.line)) ++ "  " ++ c.summary

mutual

def commandTexts : Command → List String
  | .act line a => [commandText (.act line a)]
  | .loop line count body => commandText (.loop line count body) :: commandListTexts body
  | .choice line condition yes no =>
    commandText (.choice line condition yes no) :: commandListTexts yes ++
      (if no.isEmpty then [] else "ELSE" :: commandListTexts no)

def commandListTexts : List Command → List String
  | [] => []
  | c :: rest => commandTexts c ++ commandListTexts rest

end

def scriptTexts (s : Shown) : List String :=
  match s.script with
  | none => ["No command tree (parse failed)."]
  | some script =>
    (if script.declared.isEmpty then [] else ["vars:", " ".intercalate script.declared]) ++
    script.patterns.values.flatMap (fun p => ["pattern:", sized p.name p.width p.height]) ++
    commandListTexts script.commands

def matrixText (m : Affine) (scale : Float) : String :=
  let linear := [m.xx, m.yx, m.xy, m.yy].map (Number.fixed 3)
  let offset := [m.tx, m.ty].map (Number.fixed 1)
  let entries := " ".intercalate (linear ++ offset)
  s!"[{entries}]  scale={Rounding.nearest.toWord64 scale}"

def paintText (item : Item) : String :=
  item.color.name ++ " / " ++ (item.fill.map Pattern.name).getD "SOLID"

def itemTexts (i : Nat) (item : Item) : List String :=
  [s!"[{i}]", item.shape.name, s!"line {item.line}"] ++
  (if item.isOpaque then ["opaque"] else []) ++
  ["  params:", " ".intercalate (item.params.entries.map fun (k, v) => s!"{k}={v.toInt}")] ++
  (match item.stamp with
    | some p => ["  asset: ", p.name]
    | none => []) ++
  ["  matrix:", matrixText item.matrix item.scale,
    "  paint: ", paintText item]

def displayListTexts (s : Shown) : List String :=
  if s.items.isEmpty then ["Display list is empty."]
  else (s.items.zipIdx.map fun (item, i) => itemTexts i item).flatten

def twoPlaces (n : Int32) : String :=
  String.ofList (Text.padLeft 2 '0' (toString n.toInt).toList)

def stateText (s : HostState) : String :=
  s!"counter={s.counter.toInt} time={twoPlaces s.hour}:{twoPlaces s.minute}:{twoPlaces s.second}"

def statsTexts (a : App) (d : Durations) : List String :=
  let s := a.shown.stats
  ["surface:         ", s!"{a.config.width.toInt}×{a.config.height.toInt}",
    "items:           ", toString s.total,
    "rendered:        ", toString s.rendered,
    "off-screen:      ", toString s.offScreen,
    "occluded:        ", toString s.occluded,
    "generate:        ", d.generate,
    "render:          ", d.render,
    "state:           ", stateText a.state]

def texts (panel : Panel) (a : App) (d : Durations) : List String :=
  match panel with
  | status => statusTexts a.shown
  | errors => errorTexts a.shown
  | commands => scriptTexts a.shown
  | displayList => displayListTexts a.shown
  | stats => statsTexts a d

end Panel

end PatternScript
