import PatternScript.Run.Generation

/-!
# Sessions

A session holds a script, a surface size and what the host says of the world, and can
generate display lists any number of times. Each generation starts from a new pen and
without variables; the interruption flag and the host's values stay.
-/
namespace PatternScript

structure HostState where
  counter : Int32 := 0
  hour : Int32 := 0
  minute : Int32 := 0
  second : Int32 := 0
  deriving DecidableEq, Inhabited

inductive Progress
  | idle
  | complete
  | interrupted
  deriving DecidableEq, Repr

def Progress.name : Progress → String
  | idle => "idle"
  | complete => "complete"
  | interrupted => "interrupted"

/-- A hook that is called in each yield and interrupts in one of them. It holds on to the
flag that the session had when the hook was installed. -/
structure YieldHook where
  interruptAt : Nat
  connected : Bool := true
  deriving DecidableEq

structure Session where
  script : Script
  width : Int32
  height : Int32
  host : HostState := {}
  last : Generation := {}
  progress : Progress := .idle
  interrupted : Bool := false
  hook : Option YieldHook := none

namespace Session

def environment (s : Session) (vars : Store) : Store :=
  vars.setEnvironment "$WIDTH" s.width
    |>.setEnvironment "$HEIGHT" s.height
    |>.setEnvironment "$HOUR" s.host.hour
    |>.setEnvironment "$MINUTE" s.host.minute
    |>.setEnvironment "$SECOND" s.host.second
    |>.setEnvironment "$COUNTER" s.host.counter

def start (s : Session) : Generation where
  vars := s.environment s.last.vars.clearUser
  signal := { raised := s.interrupted }

def hostOf (s : Session) (atPoll : Nat → Bool) : Host where
  atPoll
  atYield n := s.hook.any fun h => h.connected && h.interruptAt == n

/-- Generates the display list anew, with interruptions before the polls of `atPoll`. -/
def generate (s : Session) (atPoll : Nat → Bool := fun _ => false) : Session :=
  let g := s.start.run (s.hostOf atPoll) s.script
  { s with
    last := g
    progress := if g.completed then .complete else .interrupted
    interrupted := g.signal.raised }

def items (s : Session) : List Item := s.last.items.toList

def errors (s : Session) : List RuntimeError := s.last.errors

def takeItems (s : Session) : List Item × Session :=
  (s.items, { s with last := { s.last with items := #[] } })

def setScript (s : Session) (script : Script) : Session :=
  { s with script, progress := .idle }

def setHost (s : Session) (host : HostState) : Session := { s with host }

def setCounter (s : Session) (counter : Int32) : Session :=
  { s with host := { s.host with counter } }

def setTime (s : Session) (hour minute second : Int32) : Session :=
  { s with host := { s.host with hour, minute, second } }

def requestInterrupt (s : Session) : Session := { s with interrupted := true }

def clearInterrupt (s : Session) : Session := { s with interrupted := false }

/-- Replaces the flag by a new one, which a hook installed earlier does not know. -/
def replaceInterrupt (s : Session) : Session :=
  { s with
    interrupted := false
    hook := s.hook.map fun h => { h with connected := false } }

def setHook (s : Session) (interruptAt : Nat) : Session :=
  { s with hook := some { interruptAt } }

def variableValue? (s : Session) (name : String) : Option Int32 :=
  let upper := Text.upper name.toList
  s.last.vars.get? (String.ofList (if upper.head? = some '$' then upper else '$' :: upper))

end Session

end PatternScript
