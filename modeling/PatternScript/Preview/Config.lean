import PatternScript.Json.Value
import PatternScript.Raster.Rendering

/-!
# The configuration of the preview

A configuration is a JSON object, or a list that gives the same fields in their order.
Missing fields keep their defaults and unknown members of an object are stepped over;
each known member may be given once. Sides and zoom are then brought into their ranges.
-/
namespace PatternScript

inductive FileContent
  | missing
  | directory
  | bytes (content : ByteArray)

/-- The text of a file; only a file in UTF-8 has one. -/
def FileContent.text? : FileContent → Option String
  | bytes content => String.fromUTF8? content
  | missing | directory => none

abbrev Files := String → FileContent

structure Config where
  width : Int32 := 200
  height : Int32 := 200
  block : Int32 := Coverage.defaultBlock
  scriptPath : Option String := none
  zoom : Float := 3

namespace Config

inductive Key
  | width
  | height
  | block
  | scriptPath
  | zoom
  deriving DecidableEq, Repr

namespace Key

def all : List Key := [width, height, block, scriptPath, zoom]

def name : Key → String
  | width => "width"
  | height => "height"
  | block => "block_size"
  | scriptPath => "script_path"
  | zoom => "zoom"

def ofName? (name : String) : Option Key := all.find? (·.name = name)

end Key

/-- Brings the sides and the zoom into their ranges, the zoom also to a double that is a single
too. -/
def clamped (c : Config) : Config :=
  { c with
    width := max c.width 1
    height := max c.height 1
    zoom := (Number.least (Number.greatest c.zoom 1) 16).toFloat32.toFloat }

def readField (key : Key) (c : Config) (cs : List Char) :
    Except Json.Fault (Json.Step Config cs) :=
  match key with
  | .width => do
    let (n, after) ← Json.wantInt32 cs
    return ({ c with width := n }, after)
  | .height => do
    let (n, after) ← Json.wantInt32 cs
    return ({ c with height := n }, after)
  | .block => do
    let (n, after) ← Json.wantInt32 cs
    return ({ c with block := n }, after)
  | .scriptPath => do
    let (path, after) ← Json.wantOptionalText cs
    return ({ c with scriptPath := path }, after)
  | .zoom => do
    let (x, after) ← Json.wantFloat cs
    return ({ c with zoom := x }, after)

def readList (first : Bool) (c : Config) (cs : List Char) :
    List Key → Except Json.Fault (Config × List Char)
  | [] =>
    match Json.skipSpace cs with
    | [] => .error .truncated
    | ']' :: rest => .ok (c, rest)
    | _ => .error .malformed
  | key :: keys =>
    match Json.skipSpace cs with
    | [] => .error .truncated
    | ']' :: rest => .ok (c, rest)
    | d :: rest => do
      if !first && d != ',' then throw .malformed
      let start := Json.skipSpace (if first then d :: rest else rest)
      if start.head? = some ']' then throw .malformed
      let (c, after) ← readField key c start
      readList false c after.1 keys

def readObject (first : Bool) (seen : List Key) (c : Config) (cs : List Char) :
    Except Json.Fault (Config × List Char) :=
  match h : Json.skipSpace cs with
  | [] => .error .truncated
  | '}' :: rest => .ok (c, rest)
  | d :: rest => do
    if !first && d != ',' then throw .malformed
    let start : Json.NoLonger cs :=
      if first then .whole cs else ⟨rest, Nat.le_of_lt (Json.length_lt_of_skipSpace h)⟩
    have := start.2
    let (name, ⟨named, _⟩) ← Json.readName true start.1
    let key := Key.ofName? name
    if key.any seen.contains then throw .mismatch
    let ⟨valued, _⟩ ← Json.skipColon named
    match key with
    | some key =>
      let (c, ⟨after, _⟩) ← readField key c valued
      readObject false (key :: seen) c after
    | none =>
      let ⟨after, _⟩ ← Json.skipValue valued
      readObject false seen c after
termination_by cs.length

def decode (text : String) : Except Json.Fault Config := do
  let (c, rest) ← match Json.skipSpace text.toList with
    | '[' :: rest => readList true {} rest Key.all
    | '{' :: rest => readObject true [] {} rest
    | start => throw (Json.misfit start)
  if Json.skipSpace rest = [] then return c else throw .malformed

def parse (text : String) : Except Json.Fault Config := clamped <$> decode text

inductive LoadFault
  | unreadable
  | invalid (fault : Json.Fault)
  deriving DecidableEq

def LoadFault.message : LoadFault → String
  | unreadable => "failed to read"
  | invalid _ => "invalid config at"

/-- Loads a configuration; where there is no file, that is the default one. -/
def load (file : FileContent) : Except LoadFault Config :=
  match file with
  | .missing => .ok {}
  | file =>
    match file.text? with
    | none => .error .unreadable
    | some text =>
      match parse text with
      | .ok c => .ok c
      | .error fault => .error (.invalid fault)

def firstScript (c : Config) (files : Files) : Option (Except LoadFault String) :=
  c.scriptPath.map fun path =>
    match (files path).text? with
    | some text => .ok text
    | none => .error .unreadable

end Config

end PatternScript
