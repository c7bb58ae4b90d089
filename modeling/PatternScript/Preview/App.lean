import PatternScript.Preview.Shown

/-!
# The preview application

The application keeps a source, the values that the host provides and what was shown last.
Changes of the first two are not shown before the next run.
-/
namespace PatternScript

structure App where
  config : Config
  source : String
  state : HostState := {}
  fallback : Bool := true
  shown : Shown
  stale : Bool := true

namespace App

def firstSource (config : Config) (files : Files) : String :=
  match config.firstScript files with
  | some (.ok text) => text
  | some (.error _) | none => Script.builtinSource

def start (config : Config) (files : Files) : App :=
  let source := firstSource config files
  { config, source, shown := .ofSource source {} config true }

def setSource (a : App) (source : String) : App := { a with source }

def setState (a : App) (state : HostState) : App := { a with state }

def setFallback (a : App) (fallback : Bool) : App := { a with fallback }

def painted (a : App) : App := { a with stale := false }

def rerun (a : App) : App :=
  { a with
    shown := .ofSource a.source a.state a.config a.fallback
    stale := true }

end App

end PatternScript
