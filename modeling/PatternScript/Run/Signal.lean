/-!
# Interruption

A long task asks at fixed points whether it should stop, and now and then yields to its
host. The host may raise the signal before any of the questions or in any of the yields;
once raised it stays so until the task is over.
-/
namespace PatternScript

structure Host where
  /-- Polls are counted from zero. -/
  atPoll : Nat → Bool := fun _ => false
  /-- Yields are counted from one. -/
  atYield : Nat → Bool := fun _ => false

def Host.quiet : Host := {}

structure Signal where
  raised : Bool := false
  polls : Nat := 0
  yields : Nat := 0
  deriving DecidableEq

namespace Signal

def poll (host : Host) (s : Signal) : Signal :=
  { s with raised := s.raised || host.atPoll s.polls, polls := s.polls + 1 }

def yield (host : Host) (s : Signal) : Signal :=
  { s with raised := s.raised || host.atYield (s.yields + 1), yields := s.yields + 1 }

def lowered (s : Signal) : Signal := { s with raised := false }

def raiseIf (raise : Bool) (s : Signal) : Signal := { s with raised := s.raised || raise }

end Signal

end PatternScript
