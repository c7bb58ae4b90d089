import PatternScript.Picture.Item
import PatternScript.Run.Evaluation
import PatternScript.Run.Signal
import PatternScript.Script.Command

/-!
# Generating a display list

A script is run command by command over variables and a pen, and each drawing
command leaves one item. No pixel is touched. The signal is polled before every command
and every iteration; the run yields after each fiftieth command of the script itself and
after each twentieth iteration of a loop.
-/
namespace PatternScript

structure Pen where
  matrix : Affine := .identity
  inverse : Affine := .identity
  scale : Float := 1
  color : Color := .black
  fill : Option Pattern := none

namespace Pen

def resetTransforms (d : Pen) : Pen :=
  { d with matrix := .identity, inverse := .identity, scale := 1 }

def transform? (d : Pen) (t : Affine) : Option Pen :=
  let m := d.matrix.mul t
  m.invert?.map fun inverse => { d with matrix := m, inverse }

end Pen

/-- What a run has to say: a fault, or a transformation left out for having no inverse. -/
inductive Notice
  | fault (error : RuntimeError)
  | singular (line : Nat)
  deriving DecidableEq

namespace Notice

def error? : Notice → Option RuntimeError
  | fault e => some e
  | singular _ => none

def text : Notice → String
  | fault e => e.text
  | singular line => s!"Line {line}: transform would make the matrix singular, ignored"

end Notice

structure Generation where
  vars : Store := {}
  pen : Pen := {}
  items : Array Item := #[]
  notices : Array Notice := #[]
  signal : Signal := {}

namespace Generation

def iterationsPerYield : Nat := 20

def commandsPerYield : Nat := 50

def errors (g : Generation) : List RuntimeError := g.notices.toList.filterMap Notice.error?

def remarks (g : Generation) : List String := g.notices.toList.map Notice.text

def fault (line : Nat) (causes : List RuntimeCause) (g : Generation) : Generation :=
  { g with notices := g.notices ++ causes.map fun c => Notice.fault ⟨line, c⟩ }

def poll (host : Host) (g : Generation) : Generation :=
  { g with signal := g.signal.poll host }

def yield (host : Host) (g : Generation) : Generation :=
  { g with signal := g.signal.yield host }

def integer (g : Generation) (index : Option Int32) (args : Arguments) (key : String)
    (default : Int32) : Evaluated Int32 :=
  match args.get? key with
  | some t => Evaluation.integer g.vars index t
  | none => ⟨default, []⟩

/-- The color that a `COLOR` chooses; one that is not known is black. -/
def chooseColor (args : Arguments) : Evaluated Color :=
  match args.get? "NAME" with
  | none => ⟨.black, []⟩
  | some t =>
    match t.text?.bind Color.ofName? with
    | some c => ⟨c, []⟩
    | none => ⟨.black, [.notColor t]⟩

def chooseFill (patterns : PatternTable) (args : Arguments) : Evaluated (Option Pattern) :=
  match args.get? "NAME" with
  | none => ⟨none, []⟩
  | some (.text name) =>
    if Text.sameAscii name.toList "SOLID".toList then ⟨none, []⟩
    else match patterns.find? name with
      | some p => ⟨some p, []⟩
      | none => ⟨none, [.fillUnknown name]⟩
  | some t => ⟨none, [.fillNotName t]⟩

def shapeParams (g : Generation) (index : Option Int32) (args : Arguments) :
    List String → Evaluated (NameMap Int32)
  | [] => ⟨.empty, []⟩
  | key :: rest =>
    let first := g.integer index args key 0
    let others := shapeParams g index args rest
    ⟨others.value.set key first.value, first.faults ++ others.faults⟩

/-- The pattern that a `DRAW` names; without a name it asks for the empty name. -/
def stampName (args : Arguments) : String := ((args.get? "NAME").bind Token.text?).getD ""

def draw (patterns : PatternTable) (line : Nat) (index : Option Int32) (shape : Shape)
    (args : Arguments) (g : Generation) : Generation :=
  let params := g.shapeParams index args shape.params
  let g := g.fault line params.faults
  let item : Item :=
    { shape, line
      params := params.value
      matrix := g.pen.matrix
      inverse := g.pen.inverse
      scale := g.pen.scale
      color := g.pen.color
      fill := g.pen.fill }
  if shape = .stamp then
    match patterns.find? (stampName args) with
    | some p =>
      let item := { item with name := some p.key, stamp := some p, isOpaque := p.isOpaque }
      { g with items := g.items.push item }
    | none => g.fault line [.stampUnknown (stampName args)]
  else { g with items := g.items.push item }

def transform (line : Nat) (t : Affine) (g : Generation) : Generation :=
  match g.pen.transform? t with
  | some pen => { g with pen }
  | none => { g with notices := g.notices.push (.singular line) }

def act (patterns : PatternTable) (line : Nat) (index : Option Int32) (a : Action)
    (g : Generation) : Generation :=
  match a with
  | .declare name [] => { g with vars := g.vars.setUser name 0 }
  | .declare name init =>
    let v := Evaluation.expression g.vars index init
    let g := g.fault line v.faults
    { g with vars := g.vars.setUser name v.value }
  | .assign name value =>
    if g.vars.hasUser name then
      let v := Evaluation.expression g.vars index value
      let g := g.fault line v.faults
      { g with vars := g.vars.setUser name v.value }
    else g.fault line [.assignUndeclared name]
  | .color args =>
    let c := chooseColor args
    let g := g.fault line c.faults
    { g with pen := { g.pen with color := c.value } }
  | .fill args =>
    let f := chooseFill patterns args
    let g := g.fault line f.faults
    { g with pen := { g.pen with fill := f.value } }
  | .resetTransforms => { g with pen := g.pen.resetTransforms }
  | .translate args =>
    let dx := g.integer index args "DX" 0
    let dy := g.integer index args "DY" 0
    let g := g.fault line (dx.faults ++ dy.faults)
    g.transform line (.shift (Number.ofInt32 dx.value) (Number.ofInt32 dy.value))
  | .rotate args =>
    let degrees := g.integer index args "DEGREES" 0
    let g := g.fault line degrees.faults
    g.transform line (.rotation (Number.ofInt32 degrees.value))
  | .scale args =>
    let factor := g.integer index args "FACTOR" 1
    let g := g.fault line factor.faults
    { g with pen := { g.pen with scale := Number.ofInt32 (max factor.value 1) } }
  | .draw shape args => g.draw patterns line index shape args

/-- Runs `body` for each iteration from `i` on until none is left or the signal is raised. -/
def iterate (host : Host) (body : Int32 → Generation → Generation) (i : Nat) :
    Nat → Generation → Generation
  | 0, g => g
  | left + 1, g =>
    let g := g.poll host
    if g.signal.raised then g
    else
      let g := body (Int32.ofNat i) g
      let g := if (i + 1) % iterationsPerYield = 0 then g.yield host else g
      iterate host body (i + 1) left g

mutual

def execute (host : Host) (patterns : PatternTable) (index : Option Int32) (c : Command)
    (g : Generation) : Generation :=
  match c with
  | .act line a => g.act patterns line index a
  | .loop line count body =>
    let n := Evaluation.integer g.vars index count
    let g := g.fault line n.faults
    if n.value < 0 then g.fault line [.negativeCount n.value]
    else iterate host (fun i => executeAll host patterns (some i) body) 0
      n.value.toNatClampNeg g
  | .choice line condition yes no =>
    let taken := Evaluation.condition g.vars index condition
    let g := g.fault line taken.faults
    if taken.value then executeAll host patterns index yes g
    else executeAll host patterns index no g

def executeAll (host : Host) (patterns : PatternTable) (index : Option Int32)
    (cs : List Command) (g : Generation) : Generation :=
  match cs with
  | [] => g
  | c :: rest =>
    let g := g.poll host
    if g.signal.raised then g
    else executeAll host patterns index rest (execute host patterns index c g)

end

def runFrom (host : Host) (patterns : PatternTable) (done : Nat) :
    List Command → Generation → Generation
  | [], g => g
  | c :: rest, g =>
    let g := g.poll host
    if g.signal.raised then g
    else
      let g := execute host patterns none c g
      let g := if (done + 1) % commandsPerYield = 0 then g.yield host else g
      runFrom host patterns (done + 1) rest g

/-- Runs a whole script; the last poll tells whether it was left to finish. -/
def run (host : Host) (script : Script) (g : Generation) : Generation :=
  (runFrom host script.patterns 0 script.commands g).poll host

def completed (g : Generation) : Bool := !g.signal.raised

end Generation

end PatternScript
