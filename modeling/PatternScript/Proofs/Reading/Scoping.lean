import PatternScript.Script.Expression
import PatternScript.Script.Outline

/-!
# Scopes of a command tree

Without their bodies, the commands of a tree in the order of their lines are a list of
headers. In a well-scoped list each header has the form that its reader promises, and uses
only variables that the host provides or that a header before it declares.
-/
namespace PatternScript

def Alternates (ts : List Token) : Prop := Expression.checkAlternation true ts = .ok ()

namespace Action

def tokens : Action → List Token
  | declare _ init => init
  | assign _ value => value
  | color args | fill args | translate args | rotate args | scale args | draw _ args => args.values
  | resetTransforms => []

def Shaped : Action → Prop
  | declare _ init => init = [] ∨ Alternates init
  | assign _ value => Alternates value
  | color args | fill args | translate args | rotate args | scale args | draw _ args =>
    ∀ t ∈ args.values, t.isOperator = false
  | resetTransforms => True

end Action

namespace Command

def tokens : Command → List Token
  | act _ a => a.tokens
  | loop _ count _ => [count]
  | choice _ condition _ _ => condition

def Shaped : Command → Prop
  | act _ a => a.Shaped
  | loop _ count _ => count.isOperand = true
  | choice _ condition _ _ =>
    condition.countP Token.isComparison = 1 ∧
      Alternates (Condition.split condition).1 ∧ Alternates (Condition.split condition).2

def declares : Command → List String
  | act _ (.declare name _) => [name]
  | _ => []

structure Admissible (declared : List String) (c : Command) : Prop where
  shaped : c.Shaped
  known : ∀ v, .var v ∈ c.tokens → isEnvironmentName v.name = true ∨ v.name ∈ declared
  target : ∀ line name value, c = .act line (.assign name value) → name ∈ declared

def names (cs : List Command) : List String := cs.flatMap declares

theorem names_append (cs cs' : List Command) : names (cs ++ cs') = names cs ++ names cs' :=
  List.flatMap_append

theorem names_cons (c : Command) (cs : List Command) : names (c :: cs) = c.declares ++ names cs :=
  List.flatMap_cons

theorem mem_declares_iff {c : Command} {name : String} :
    name ∈ c.declares ↔ ∃ line init, c = .act line (.declare name init) := by
  unfold declares
  split
  next line other init =>
    rw [List.mem_singleton]
    constructor
    · intro h
      subst h
      exact ⟨line, init, rfl⟩
    · intro h
      obtain ⟨_, _, h⟩ := h
      cases h
      rfl
  next hne =>
    constructor
    · intro h
      cases h
    · intro h
      obtain ⟨line, init, rfl⟩ := h
      exact absurd rfl (hne line name init)

theorem mem_names_iff {cs : List Command} {name : String} :
    name ∈ names cs ↔ ∃ line init, .act line (.declare name init) ∈ cs := by
  simp only [names, List.mem_flatMap, mem_declares_iff]
  constructor
  · intro h
    obtain ⟨c, hc, line, init, rfl⟩ := h
    exact ⟨line, init, hc⟩
  · intro h
    obtain ⟨line, init, h⟩ := h
    exact ⟨_, h, line, init, rfl⟩

def WellScoped (declared : List String) : List Command → Prop
  | [] => True
  | c :: rest => c.Admissible declared ∧ WellScoped (declared ++ c.declares) rest

theorem wellScoped_append {declared : List String} {cs cs' : List Command} :
    WellScoped declared (cs ++ cs') ↔
      WellScoped declared cs ∧ WellScoped (declared ++ names cs) cs' := by
  induction cs generalizing declared with
  | nil => simp [WellScoped, names]
  | cons c cs ih =>
    rw [List.cons_append, WellScoped, ih, WellScoped, names_cons, List.append_assoc, and_assoc]

theorem admissible_of_wellScoped {declared : List String} {before after : List Command}
    {c : Command} (h : WellScoped declared (before ++ c :: after)) :
    c.Admissible (declared ++ names before) :=
  (wellScoped_append.1 h).2.1

def header : Command → Command
  | act line a => act line a
  | loop line count _ => loop line count []
  | choice line condition _ _ => choice line condition [] []

def inner : Command → List Command
  | act _ _ => []
  | loop _ _ body => body
  | choice _ _ yes no => yes ++ no

theorem declares_header (c : Command) : c.header.declares = c.declares := by
  cases c <;> rfl

theorem admissible_header {declared : List String} {c : Command} :
    c.header.Admissible declared ↔ c.Admissible declared := by
  cases c with
  | act line a => exact Iff.rfl
  | loop line count body =>
    constructor
    · intro h
      exact ⟨h.shaped, h.known, nofun⟩
    · intro h
      exact ⟨h.shaped, h.known, nofun⟩
  | choice line condition yes no =>
    constructor
    · intro h
      exact ⟨h.shaped, h.known, nofun⟩
    · intro h
      exact ⟨h.shaped, h.known, nofun⟩

section Headers

def headers (cs : List Command) : List Command :=
  (outlineAll 0 .top cs).map fun o => o.command.header

mutual

theorem map_header_outline (c : Command) (d d' : Nat) (p p' : Place) :
    (c.outline d p).map (fun o => o.command.header) =
      (c.outline d' p').map fun o => o.command.header := by
  cases c with
  | act line a => rfl
  | loop line count body =>
    simp only [outline, List.map_cons]
    rw [map_header_outlineAll body (d + 1) (d' + 1) .body .body]
  | choice line condition yes no =>
    simp only [outline, List.map_cons, List.map_append]
    rw [map_header_outlineAll yes (d + 1) (d' + 1) .yes .yes,
      map_header_outlineAll no (d + 1) (d' + 1) .no .no]

theorem map_header_outlineAll (cs : List Command) (d d' : Nat) (p p' : Place) :
    (outlineAll d p cs).map (fun o => o.command.header) =
      (outlineAll d' p' cs).map fun o => o.command.header := by
  cases cs with
  | nil => rfl
  | cons c rest =>
    simp only [outlineAll, List.map_append]
    rw [map_header_outline c d d' p p', map_header_outlineAll rest d d' p p']

end

theorem headers_append (cs cs' : List Command) :
    headers (cs ++ cs') = headers cs ++ headers cs' := by
  unfold headers
  induction cs with
  | nil => rfl
  | cons c cs ih =>
    simp only [List.cons_append, outlineAll, List.map_append, List.append_assoc]
    rw [ih]

theorem headers_cons (c : Command) (rest : List Command) :
    headers (c :: rest) = c.header :: (headers c.inner ++ headers rest) := by
  rw [← List.singleton_append, headers_append, ← List.cons_append]
  congr 1
  cases c with
  | act line a => rfl
  | loop line count body =>
    simp only [headers, outlineAll, outline, List.append_nil, List.map_cons]
    exact congrArg _ (map_header_outlineAll body 1 0 .body .top)
  | choice line condition yes no =>
    simp only [inner, headers_append]
    simp only [headers, outlineAll, outline, List.append_nil, List.map_cons, List.map_append]
    rw [map_header_outlineAll yes 1 0 .yes .top, map_header_outlineAll no 1 0 .no .top]

theorem headers_singleton (c : Command) : headers [c] = c.header :: headers c.inner := by
  rw [headers_cons]
  exact congrArg _ (List.append_nil _)

theorem header_mem_headers {c : Command} {cs : List Command} (h : c ∈ cs) :
    c.header ∈ headers cs := by
  obtain ⟨before, after, rfl⟩ := List.append_of_mem h
  rw [headers_append, headers_cons]
  exact List.mem_append_right _ List.mem_cons_self

end Headers

/-- Whether a command occurs in a tree, within certain blocks, of which the innermost comes
first. -/
inductive Occurs (cs : List Command) : List Command → Command → Prop where
  | top {c : Command} : c ∈ cs → Occurs cs [] c
  | inside {blocks : List Command} {b c : Command} :
      Occurs cs blocks b → c ∈ b.inner → Occurs cs (b :: blocks) c

namespace Occurs

variable {cs cs' blocks : List Command} {c b : Command}

theorem mono (h : Occurs cs blocks c) (hsub : ∀ c ∈ cs, c ∈ cs') : Occurs cs' blocks c := by
  induction h with
  | top hc => exact .top (hsub _ hc)
  | inside _ hc ih => exact .inside ih hc

theorem under (h : Occurs b.inner blocks c) (hb : b ∈ cs) : Occurs cs (blocks ++ [b]) c := by
  induction h with
  | top hc => exact .inside (.top hb) hc
  | inside _ hc ih => exact .inside ih hc

end Occurs

section Members

variable {c' : Command}

mutual

theorem occurs_of_mem_inner (c : Command) (h : c' ∈ headers c.inner) :
    ∃ blocks b, Occurs c.inner blocks b ∧ b.header = c' := by
  cases c with
  | act line a => cases h
  | loop line count body => exact occurs_of_mem_headers body h
  | choice line condition yes no =>
    rw [inner, headers_append, List.mem_append] at h
    rcases h with h | h
    · obtain ⟨blocks, b, hocc, hb⟩ := occurs_of_mem_headers yes h
      exact ⟨blocks, b, hocc.mono fun _ => List.mem_append_left no, hb⟩
    · obtain ⟨blocks, b, hocc, hb⟩ := occurs_of_mem_headers no h
      exact ⟨blocks, b, hocc.mono fun _ => List.mem_append_right yes, hb⟩

theorem occurs_of_mem_headers (cs : List Command) (h : c' ∈ headers cs) :
    ∃ blocks b, Occurs cs blocks b ∧ b.header = c' := by
  cases cs with
  | nil => cases h
  | cons c rest =>
    rw [headers_cons, List.mem_cons, List.mem_append] at h
    rcases h with rfl | h | h
    · exact ⟨[], c, .top List.mem_cons_self, rfl⟩
    · obtain ⟨blocks, b, hocc, hb⟩ := occurs_of_mem_inner c h
      exact ⟨blocks ++ [c], b, hocc.under List.mem_cons_self, hb⟩
    · obtain ⟨blocks, b, hocc, hb⟩ := occurs_of_mem_headers rest h
      exact ⟨blocks, b, hocc.mono fun _ => List.mem_cons_of_mem c, hb⟩

end

end Members

theorem occurs_declare {cs : List Command} {name : String} (h : name ∈ names (headers cs)) :
    ∃ blocks line init, Occurs cs blocks (.act line (.declare name init)) := by
  obtain ⟨line, init, hmem⟩ := mem_names_iff.1 h
  obtain ⟨blocks, b, hocc, hb⟩ := occurs_of_mem_headers cs hmem
  cases b with
  | act line' a =>
    cases hb
    exact ⟨blocks, _, _, hocc⟩
  | loop line' count body => cases hb
  | choice line' condition yes no => cases hb

end Command

end PatternScript
