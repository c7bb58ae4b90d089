import PatternScript.Proofs.LetterCase.Texts
import PatternScript.Proofs.Reading.Patterns
import PatternScript.Proofs.Running.Faults

/-!
# Patterns that are used by their names

A pattern stands in the table of its script under its name in upper case, and a command that
names a pattern looks it up in the same way. So whatever a definition was accepted for can be
drawn and filled with in any case of its letters, but for one name that means no pattern when a
fill is chosen.
-/
namespace PatternScript

theorem Pattern.keyOf_eq_of_sameAscii {name name' : String}
    (h : Text.sameAscii name.toList name'.toList = true) : keyOf name = keyOf name' := by
  rw [keyOf, ← Text.upper_fold, Text.fold_eq_of_sameAscii h, Text.upper_fold, keyOf]

theorem PatternTable.Proper.find?_of_sameAscii {t : PatternTable} (h : t.Proper) {key : String}
    {p : Pattern} (hp : t.get? key = some p) {name : String}
    (hname : Text.sameAscii name.toList p.name.toList = true) : t.find? name = some p := by
  rw [PatternTable.find?, Pattern.keyOf_eq_of_sameAscii hname, ← Pattern.key, h.key_eq key p hp, hp]

def Text.IsSolid (name : String) : Prop := sameAscii name.toList "SOLID".toList = true

instance (name : String) : Decidable (Text.IsSolid name) := inferInstanceAs (Decidable (_ = true))

theorem Text.isSolid_of_sameAscii {name name' : String}
    (h : sameAscii name.toList name'.toList = true) : IsSolid name ↔ IsSolid name' := by
  rw [IsSolid, IsSolid, ← sameAscii_fold, fold_eq_of_sameAscii h, sameAscii_fold]

namespace Generation

variable {g : Generation} {patterns : PatternTable} {args : Arguments} {name : String}
  {p : Pattern} {index : Option Int32} {line : Nat}

theorem fault_nil (line : Nat) (g : Generation) : g.fault line [] = g := by
  rw [fault, List.map_nil, Array.appendList_nil]

theorem chooseFill_of_solid (hargs : args.get? "NAME" = some (.text name))
    (hsolid : Text.IsSolid name) : chooseFill patterns args = ⟨none, []⟩ := by
  rw [chooseFill, hargs]
  exact if_pos hsolid

theorem chooseFill_of_find? (hargs : args.get? "NAME" = some (.text name))
    (hsolid : ¬ Text.IsSolid name) (hfind : patterns.find? name = some p) :
    chooseFill patterns args = ⟨some p, []⟩ := by
  rw [chooseFill, hargs]
  refine (if_neg hsolid).trans ?_
  rw [hfind]

theorem act_fill {fill : Option Pattern} (h : chooseFill patterns args = ⟨fill, []⟩) :
    g.act patterns line index (.fill args) = { g with pen := { g.pen with fill } } := by
  rw [act, h]
  dsimp only
  rw [fault_nil]

theorem act_stamp (hfaults : (g.shapeParams index args Shape.stamp.params).faults = [])
    (hargs : args.get? "NAME" = some (.text name)) (hfind : patterns.find? name = some p) :
    ∃ item : Item, g.act patterns line index (.draw .stamp args) =
        { g with items := g.items.push item } ∧
      item.shape = .stamp ∧ item.line = line ∧ item.name = some p.key ∧ item.stamp = some p := by
  have hname : stampName args = name := by
    rw [stampName, hargs]
    rfl
  rw [act, draw, hname, hfaults]
  dsimp only
  rw [if_pos rfl, hfind, fault_nil]
  exact ⟨_, rfl, rfl, rfl, rfl, rfl⟩

end Generation

namespace Script

variable {source name : String} {script : Script} {key : String} {p : Pattern} {args : Arguments}

/-- A pattern of a script that was read answers to its name in any case of the ASCII letters, in
every state of a run. A `FILL` makes it the fill and a `DRAW` adds an item that holds it, without
a fault and without changing anything else; but a `FILL` with a pattern named `SOLID` makes the
fill solid. -/
theorem patterns_answer_to_their_names (hcompile : compile source = .ok script)
    (hp : script.patterns.get? key = some p) (hargs : args.get? "NAME" = some (.text name))
    (hname : Text.sameAscii name.toList p.name.toList = true) (host : Host)
    (index : Option Int32) (line : Nat) (g : Generation) :
    g.execute host script.patterns index (.act line (.fill args)) =
        { g with pen := { g.pen with fill := if Text.IsSolid p.name then none else some p } } ∧
      ((∀ key ∈ Shape.stamp.params, (g.integer index args key 0).faults = []) →
        ∃ item : Item, g.execute host script.patterns index (.act line (.draw .stamp args)) =
            { g with items := g.items.push item } ∧
          item.shape = .stamp ∧ item.line = line ∧ item.name = some p.key ∧
          item.stamp = some p) := by
  have hfind := (proper_of_compile hcompile).find?_of_sameAscii hp hname
  have hsolid := Text.isSolid_of_sameAscii hname
  rw [Generation.execute, Generation.execute]
  refine ⟨?_, fun hparams => ?_⟩
  · refine Generation.act_fill ?_
    split
    next h => exact Generation.chooseFill_of_solid hargs (hsolid.2 h)
    next h => exact Generation.chooseFill_of_find? hargs (mt hsolid.1 h) hfind
  · refine Generation.act_stamp ?_ hargs hfind
    rw [Generation.faults_shapeParams]
    exact List.flatMap_eq_nil_iff.2 hparams

theorem exists_of_compile (h : (compile source).toOption.bind
    (fun script => script.patterns.get? key) = some p) :
    ∃ script, compile source = .ok script ∧ script.patterns.get? key = some p := by
  cases hcompile : compile source with
  | error errors =>
    rw [hcompile] at h
    cases h
  | ok script =>
    rw [hcompile] at h
    exact ⟨script, rfl, h⟩

/-- The name begins with a letter whose capital is an S, but not up to the case of ASCII letters. -/
theorem patterns_answer_to_their_names_of_long_s :
    let source := "DEFINE PATTERN NAME=\"ſolid\" WIDTH=1 HEIGHT=1 DATA=\"1\""
    let p : Pattern := ⟨"ſolid", 1, 1, #[1]⟩
    let args : Arguments := (NameMap.empty.set "NAME" (.text "ſOLiD")).set "X" (.int 7)
    ∃ script, compile source = .ok script ∧ script.patterns.get? "SOLID" = some p ∧
      Generation.execute .quiet script.patterns none (.act 2 (.fill args)) {} =
        { pen := { fill := some p } } ∧
      ∃ item : Item, Generation.execute .quiet script.patterns none (.act 2 (.draw .stamp args)) {} =
          { items := #[item] } ∧ item.stamp = some p := by
  intro source p args
  obtain ⟨script, hcompile, hread⟩ : ∃ script, compile source = .ok script ∧
      script.patterns.get? "SOLID" = some p :=
    exists_of_compile (by decide +kernel)
  have hargs : args.get? "NAME" = some (.text "ſOLiD") := rfl
  obtain ⟨hfill, hdraw⟩ := patterns_answer_to_their_names hcompile hread hargs
    (by decide +kernel) .quiet none 2 {}
  obtain ⟨item, hitem, -, -, -, hstamp⟩ := hdraw (by decide +kernel)
  rw [if_neg (by decide)] at hfill
  exact ⟨script, hcompile, hread, hfill, item, hitem, hstamp⟩

/-- A pattern may be named `SOLID`, and a `FILL` with that name does not make it the fill. -/
theorem solid_pattern_is_no_fill :
    ¬ ∀ source script key p (args : Arguments) name host index line (g : Generation),
      compile source = .ok script → script.patterns.get? key = some p →
      args.get? "NAME" = some (.text name) →
      Text.sameAscii name.toList p.name.toList = true →
      (g.execute host script.patterns index (.act line (.fill args))).errors = g.errors ∧
        (g.execute host script.patterns index (.act line (.fill args))).pen.fill = some p := by
  intro h
  obtain ⟨script, hcompile, hread⟩ : ∃ script,
      compile "DEFINE PATTERN NAME=\"solid\" WIDTH=1 HEIGHT=1 DATA=\"1\"" = .ok script ∧
        script.patterns.get? "SOLID" = some ⟨"solid", 1, 1, #[1]⟩ :=
    exists_of_compile (by decide +kernel)
  have hargs : (NameMap.empty.set "NAME" (.text "solid") : Arguments).get? "NAME" =
      some (.text "solid") := rfl
  obtain ⟨-, hfill⟩ := h _ script "SOLID" _ _ "solid" .quiet none 2 {} hcompile hread hargs
    (by decide)
  rw [Generation.execute, Generation.act_fill (Generation.chooseFill_of_solid hargs (by decide))]
    at hfill
  cases hfill

end Script

end PatternScript
