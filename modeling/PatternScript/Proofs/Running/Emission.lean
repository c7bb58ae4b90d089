import Mathlib.Data.List.DropRight
import PatternScript.Proofs.Reading.Patterns
import PatternScript.Proofs.Running.StaticChecks
import PatternScript.Proofs.Running.Traces
import PatternScript.Proofs.Doubles.Whole

/-!
# What a drawing command leaves

Each item stems from one visit of a drawing command. It holds that command's parameters and
the pen of the moment: the product of the maps that were made since the pen was last reset,
without those that would have made it singular, a scale of at least one, and a fill from the
script's table.
-/
namespace PatternScript

open Command (Occurs names)

namespace Affine

def product (ts : List Affine) : Affine := ts.foldl mul identity

def keep (kept : List Affine) (t : Affine) : List Affine :=
  if ((product kept).mul t).invert?.isSome then kept ++ [t] else kept

def kept (ts : List Affine) : List Affine := ts.foldl keep []

theorem product_concat (ts : List Affine) (t : Affine) :
    product (ts ++ [t]) = (product ts).mul t := by
  rw [product, List.foldl_append]
  rfl

theorem kept_concat (ts : List Affine) (t : Affine) : kept (ts ++ [t]) = keep (kept ts) t := by
  rw [kept, List.foldl_append]
  rfl

end Affine

/-- The map by which a visit moves what is drawn after it. -/
def Visit.move? (v : Visit) : Option Affine :=
  match v.command with
  | .act _ (.translate args) =>
    some (.shift (Number.ofInt32 (v.before.integer v.index args "DX" 0).value)
      (Number.ofInt32 (v.before.integer v.index args "DY" 0).value))
  | .act _ (.rotate args) =>
    some (.rotation (Number.ofInt32 (v.before.integer v.index args "DEGREES" 0).value))
  | _ => none

def Visit.resets (v : Visit) : Bool :=
  match v.command with
  | .act _ .resetTransforms => true
  | _ => false

/-- The maps of some visits, from the last one on that resets the transformations. -/
def Visit.moves (vs : List Visit) : List Affine := (vs.rtakeWhile (!·.resets)).filterMap move?

section Moves

variable {vs : List Visit} {v : Visit}

theorem Visit.moves_concat_of_resets (h : v.resets = true) : moves (vs ++ [v]) = [] := by
  rw [moves, List.rtakeWhile_concat_neg _ _ _ (by simp [h])]
  rfl

theorem Visit.moves_concat_of_move {t : Affine} (h : v.resets = false) (hmove : v.move? = some t) :
    moves (vs ++ [v]) = moves vs ++ [t] := by
  rw [moves, List.rtakeWhile_concat_pos _ _ _ (by simp [h]), List.filterMap_append, moves]
  simp [hmove]

theorem Visit.moves_concat_of_idle (h : v.resets = false) (hmove : v.move? = none) :
    moves (vs ++ [v]) = moves vs := by
  rw [moves, List.rtakeWhile_concat_pos _ _ _ (by simp [h]), List.filterMap_append, moves]
  simp [hmove]

end Moves

/-- The pen of a run whose moves since the last reset are `moves`. -/
structure Pen.Reflects (patterns : PatternTable) (moves : List Affine) (pen : Pen) : Prop where
  matrix_eq : pen.matrix = Affine.product (Affine.kept moves)
  inverse : if Affine.kept moves = [] then pen.inverse = .identity
    else (Affine.product (Affine.kept moves)).invert? = some pen.inverse
  one_le_scale : 1 ≤ pen.scale
  fill_mem : ∀ p, pen.fill = some p → patterns.get? p.key = some p

namespace Pen

variable {patterns : PatternTable} {moves : List Affine} {pen pen' : Pen}

theorem reflects_start (patterns : PatternTable) : Reflects patterns [] {} where
  matrix_eq := rfl
  inverse := rfl
  one_le_scale := Number.one_le_one
  fill_mem := nofun

theorem Reflects.reset (h : pen.Reflects patterns moves) :
    pen.resetTransforms.Reflects patterns [] where
  matrix_eq := rfl
  inverse := rfl
  one_le_scale := Number.one_le_one
  fill_mem := h.fill_mem

theorem Reflects.move (h : pen.Reflects patterns moves) (t : Affine) :
    ((pen.transform? t).getD pen).Reflects patterns (moves ++ [t]) := by
  have hmatrix := h.matrix_eq
  rw [transform?]
  cases hinvert : (pen.matrix.mul t).invert? with
  | none =>
    have hkept : Affine.kept (moves ++ [t]) = Affine.kept moves := by
      rw [Affine.kept_concat, Affine.keep, ← hmatrix, hinvert]
      rfl
    exact ⟨hkept ▸ hmatrix, hkept ▸ h.inverse, h.one_le_scale, h.fill_mem⟩
  | some inverse =>
    have hkept : Affine.kept (moves ++ [t]) = Affine.kept moves ++ [t] := by
      rw [Affine.kept_concat, Affine.keep, ← hmatrix, hinvert]
      rfl
    have hproduct : pen.matrix.mul t = Affine.product (Affine.kept (moves ++ [t])) := by
      rw [hkept, Affine.product_concat, hmatrix]
    refine ⟨hproduct, ?_, h.one_le_scale, h.fill_mem⟩
    rw [if_neg (by simp [hkept]), ← hproduct]
    exact hinvert

end Pen

namespace NameMap

variable {α : Type}

theorem mem_names_iff {m : NameMap α} {name : String} :
    name ∈ m.names ↔ m.contains name = true := by
  simp only [names, contains, get?, List.lookup_isSome_iff, List.mem_map, beq_iff_eq]
  constructor
  · rintro ⟨e, he, rfl⟩
    exact ⟨e, he, rfl⟩
  · rintro ⟨e, he, rfl⟩
    exact ⟨e, he, rfl⟩

theorem nodup_names (m : NameMap α) : m.names.Nodup :=
  List.pairwise_map.2 (m.sorted.imp fun hlt => Std.ne_of_lt hlt)

end NameMap

namespace Generation

variable {patterns : PatternTable} {index : Option Int32} {g : Generation} {vs : List Visit}

theorem contains_shapeParams (args : Arguments) (keys : List String) (name : String) :
    (g.shapeParams index args keys).value.contains name = true ↔ name ∈ keys := by
  induction keys with
  | nil => simp [shapeParams, NameMap.contains]
  | cons key rest ih =>
    rw [shapeParams, NameMap.contains, NameMap.get?_set, List.mem_cons, ← ih, NameMap.contains]
    split
    next h => simp [h]
    next h => simp [h]

theorem names_shapeParams_perm (index : Option Int32) (args : Arguments) (shape : Shape)
    (g : Generation) : (g.shapeParams index args shape.params).value.names.Perm shape.params := by
  refine (List.perm_ext_iff_of_nodup (NameMap.nodup_names _) ?_).2 fun name => ?_
  · cases shape <;> decide
  · rw [NameMap.mem_names_iff, contains_shapeParams]

theorem exists_of_chooseFill {args : Arguments} {p : Pattern}
    (h : (chooseFill patterns args).value = some p) : ∃ name, patterns.find? name = some p := by
  rw [chooseFill] at h
  split at h
  next => cases h
  next name _ =>
    split at h
    next => cases h
    next =>
      split at h
      next q hfind =>
        cases h
        exact ⟨name, hfind⟩
      next => cases h
  next => cases h

theorem pen_transform (line : Nat) (t : Affine) (g : Generation) :
    (g.transform line t).pen = (g.pen.transform? t).getD g.pen := by
  rw [transform]
  split
  next h => rw [h]; rfl
  next h => rw [h]; rfl

theorem pen_draw (line : Nat) (shape : Shape) (args : Arguments) (g : Generation) :
    (g.draw patterns line index shape args).pen = g.pen := by
  rw [draw]
  dsimp only
  split
  · split <;> rfl
  · rfl

theorem reflects_apply (htable : patterns.Proper) {v : Visit} (hv : v.before.still = g)
    (h : g.pen.Reflects patterns (Visit.moves vs)) :
    (v.apply patterns g).pen.Reflects patterns (Visit.moves (vs ++ [v])) := by
  subst hv
  obtain ⟨blocks, c, index, before⟩ := v
  cases c with
  | loop | choice =>
    rw [Visit.moves_concat_of_idle rfl rfl]
    exact h
  | act line a =>
    cases a with
    | resetTransforms =>
      rw [Visit.moves_concat_of_resets rfl]
      exact h.reset
    | translate args | rotate args =>
      rw [Visit.moves_concat_of_move rfl rfl, Visit.apply, Command.enter, act, pen_transform]
      exact h.move _
    | declare name init =>
      rw [Visit.moves_concat_of_idle rfl rfl]
      cases init <;> exact h
    | assign name value =>
      rw [Visit.moves_concat_of_idle rfl rfl, Visit.apply, Command.enter, act]
      dsimp only
      split <;> exact h
    | color args =>
      rw [Visit.moves_concat_of_idle rfl rfl]
      exact ⟨h.matrix_eq, h.inverse, h.one_le_scale, h.fill_mem⟩
    | fill args =>
      rw [Visit.moves_concat_of_idle rfl rfl]
      refine ⟨h.matrix_eq, h.inverse, h.one_le_scale, ?_⟩
      intro p hp
      obtain ⟨name, hfind⟩ := exists_of_chooseFill hp
      exact (htable.find? hfind).1
    | scale args =>
      rw [Visit.moves_concat_of_idle rfl rfl]
      refine ⟨h.matrix_eq, h.inverse, ?_, h.fill_mem⟩
      refine Number.one_le_ofInt32 (Words.le_iff.2 ?_)
      rw [Words.toInt_max]
      exact Int.le_max_right _ _
    | draw shape args =>
      rw [Visit.moves_concat_of_idle rfl rfl, Visit.apply, Command.enter, act, pen_draw]
      exact h

theorem reflects_foldl (htable : patterns.Proper) (htraces : Traces patterns g vs)
    (h : g.pen.Reflects patterns []) :
    (vs.foldl (Visit.apply patterns) g).pen.Reflects patterns (Visit.moves vs) := by
  induction vs using List.reverseRecOn with
  | nil => exact h
  | append_singleton vs v ih =>
    rw [List.foldl_append]
    exact reflects_apply htable (still_before_of_traces htraces) (ih (traces_append.1 htraces).1)

end Generation

structure Item.DrawnBy (patterns : PatternTable) (pen : Pen) (item : Item) : Prop where
  params_perm : item.params.names.Perm item.shape.params
  matrix_eq : item.matrix = pen.matrix
  inverse_eq : item.inverse = pen.inverse
  scale_eq : item.scale = pen.scale
  fill_eq : item.fill = pen.fill
  of_stamp : item.shape = .stamp → ∃ name p, patterns.find? name = some p ∧
    item.stamp = some p ∧ item.name = some p.key ∧ item.isOpaque = p.isOpaque
  of_other : item.shape ≠ .stamp →
    item.stamp = none ∧ item.name = none ∧ item.isOpaque = item.shape.isOpaque

namespace Generation

variable {patterns : PatternTable} {index : Option Int32} {g : Generation} {vs : List Visit}

theorem items_draw (patterns : PatternTable) (line : Nat) (index : Option Int32) (shape : Shape)
    (args : Arguments) (g : Generation) :
    (g.draw patterns line index shape args).items = g.items ∨
      ∃ item, (g.draw patterns line index shape args).items = g.items.push item ∧
        item.line = line ∧ item.shape = shape ∧ item.DrawnBy patterns g.pen := by
  have hparams := names_shapeParams_perm index args shape g
  rw [draw]
  dsimp only
  split
  next hstamp =>
    split
    next p hfind =>
      refine .inr ⟨_, rfl, rfl, rfl, hparams, rfl, rfl, rfl, rfl, ?_, ?_⟩
      · intro _
        exact ⟨_, p, hfind, rfl, rfl, rfl⟩
      · intro hother
        exact absurd hstamp hother
    next => exact .inl rfl
  next hother =>
    refine .inr ⟨_, rfl, rfl, rfl, hparams, rfl, rfl, rfl, rfl, ?_, ?_⟩
    · intro hstamp
      exact absurd hstamp hother
    · intro _
      exact ⟨rfl, rfl, rfl⟩

theorem items_apply (patterns : PatternTable) (v : Visit) (g : Generation) :
    (v.apply patterns g).items = g.items ∨
      ∃ item, (v.apply patterns g).items = g.items.push item ∧
        (∃ args, v.command = .act item.line (.draw item.shape args)) ∧
          item.DrawnBy patterns g.pen := by
  obtain ⟨blocks, c, index, before⟩ := v
  cases c with
  | loop | choice => exact .inl rfl
  | act line a =>
    cases a with
    | draw shape args =>
      rcases items_draw patterns line index shape args g with
        hsame | ⟨item, hpush, rfl, rfl, hdrawn⟩
      · exact .inl hsame
      · exact .inr ⟨item, hpush, ⟨args, rfl⟩, hdrawn⟩
    | translate args | rotate args =>
      refine .inl ?_
      rw [Visit.apply, Command.enter, act, items_transform]
      rfl
    | declare name init => cases init <;> exact .inl rfl
    | assign name value =>
      rw [Visit.apply, Command.enter, act]
      dsimp only
      split <;> exact .inl rfl
    | color | fill | resetTransforms | scale => exact .inl rfl

theorem mem_items_foldl {item : Item} (h : item ∈ (vs.foldl (Visit.apply patterns) g).items) :
    item ∈ g.items ∨ ∃ before v after, vs = before ++ v :: after ∧
      (∃ args, v.command = .act item.line (.draw item.shape args)) ∧
        item.DrawnBy patterns (before.foldl (Visit.apply patterns) g).pen := by
  induction vs using List.reverseRecOn with
  | nil => exact .inl h
  | append_singleton vs v ih =>
    have hearlier (hmem : item ∈ (vs.foldl (Visit.apply patterns) g).items) :
        item ∈ g.items ∨ ∃ before w after, vs ++ [v] = before ++ w :: after ∧
          (∃ args, w.command = .act item.line (.draw item.shape args)) ∧
            item.DrawnBy patterns (before.foldl (Visit.apply patterns) g).pen := by
      refine (ih hmem).imp_right ?_
      rintro ⟨before, w, after, rfl, hw⟩
      exact ⟨before, w, after ++ [v], by rw [List.append_assoc, List.cons_append], hw⟩
    rw [List.foldl_append] at h
    rcases items_apply patterns v (vs.foldl (Visit.apply patterns) g) with
      hsame | ⟨drawn, hpush, hv⟩
    · exact hearlier (hsame ▸ h)
    · rcases Array.mem_push.1 (hpush ▸ h) with hmem | rfl
      · exact hearlier hmem
      · exact .inr ⟨vs, v, [], rfl, hv⟩

end Generation

/-- An item that the visit `v` of a run leaves, when `before` are the visits before it. -/
structure Item.Emitted (script : Script) (before : List Visit) (v : Visit) (item : Item) :
    Prop where
  command : ∃ args, v.command = .act item.line (.draw item.shape args)
  occurs : Occurs script.commands v.blocks v.command
  params_perm : item.params.names.Perm item.shape.params
  stamp_iff : item.stamp.isSome = true ↔ item.shape = .stamp
  name_eq : item.name = item.stamp.map Pattern.key
  stamp_mem : ∀ p, item.stamp = some p → script.patterns.get? p.key = some p
  fill_mem : ∀ p, item.fill = some p → script.patterns.get? p.key = some p
  one_le_scale : 1 ≤ item.scale
  matrix_eq : item.matrix = Affine.product (Affine.kept (Visit.moves before))
  inverse : if Affine.kept (Visit.moves before) = [] then item.inverse = .identity
    else (Affine.product (Affine.kept (Visit.moves before))).invert? = some item.inverse
  opaque_iff : item.isOpaque = true ↔
    item.shape ∈ [.pixel, .fillPixel, .fillRect, .fillCircle] ∨
      item.shape = .stamp ∧ ∃ p, item.stamp = some p ∧
        ∀ i < p.width * p.height, p.cells[i]? = some 1

theorem Shape.isOpaque_iff (shape : Shape) :
    shape.isOpaque = true ↔ shape ∈ [.pixel, .fillPixel, .fillRect, .fillCircle] := by
  cases shape <;> decide

theorem Item.emitted_of_drawnBy {script : Script} {before : List Visit} {v : Visit} {item : Item}
    {pen : Pen} (htable : script.patterns.Proper)
    (hcommand : ∃ args, v.command = .act item.line (.draw item.shape args))
    (hoccurs : Occurs script.commands v.blocks v.command)
    (hpen : pen.Reflects script.patterns (Visit.moves before))
    (h : item.DrawnBy script.patterns pen) : item.Emitted script before v := by
  by_cases hshape : item.shape = .stamp
  · obtain ⟨name, p, hfind, hstamp, hname, hcovers⟩ := h.of_stamp hshape
    obtain ⟨hmem, hfilled⟩ := htable.find? hfind
    exact {
      command := hcommand
      occurs := hoccurs
      params_perm := h.params_perm
      stamp_iff := by simp [hstamp, hshape]
      name_eq := by rw [hname, hstamp]; rfl
      stamp_mem := by
        intro q hq
        cases hstamp.symm.trans hq
        exact hmem
      fill_mem := h.fill_eq ▸ hpen.fill_mem
      one_le_scale := h.scale_eq ▸ hpen.one_le_scale
      matrix_eq := h.matrix_eq.trans hpen.matrix_eq
      inverse := h.inverse_eq ▸ hpen.inverse
      opaque_iff := by
        rw [hcovers, Pattern.isOpaque_iff hfilled, hshape, hstamp]
        simp }
  · obtain ⟨hstamp, hname, hcovers⟩ := h.of_other hshape
    exact {
      command := hcommand
      occurs := hoccurs
      params_perm := h.params_perm
      stamp_iff := by simp [hstamp, hshape]
      name_eq := by rw [hname, hstamp]; rfl
      stamp_mem := by
        intro q hq
        cases hstamp.symm.trans hq
      fill_mem := h.fill_eq ▸ hpen.fill_mem
      one_le_scale := h.scale_eq ▸ hpen.one_le_scale
      matrix_eq := h.matrix_eq.trans hpen.matrix_eq
      inverse := h.inverse_eq ▸ hpen.inverse
      opaque_iff := by simp [hcovers, Shape.isOpaque_iff, hshape] }

namespace Session

/-- Every item of a display list, be the generation interrupted or not, is left by one visit of
a drawing command of the script, with the transformations, the scale and the fill that the
visits before it amount to. -/
theorem items_are_emitted {source : String} {script : Script}
    (hcompile : Script.compile source = .ok script) (s : Session) (hs : s.script = script)
    (atPoll : Nat → Bool) :
    ∀ item ∈ (s.generate atPoll).items, ∃ before v after,
      s.visits atPoll = before ++ v :: after ∧ item.Emitted script before v := by
  subst hs
  intro item hitem
  have htable := Script.proper_of_compile hcompile
  have htraces := s.traces_visits atPoll
  rw [items_eq_still, still_generate, Array.mem_toList_iff] at hitem
  rcases Generation.mem_items_foldl hitem with
    hstart | ⟨before, v, after, hvisits, hcommand, hdrawn⟩
  · exact absurd hstart (Array.not_mem_empty item)
  · have hv : v ∈ s.visits atPoll := hvisits ▸ List.mem_append_right _ List.mem_cons_self
    refine ⟨before, v, after, hvisits, ?_⟩
    obtain ⟨front, top, back, -, hplaced⟩ := s.exists_placed hv
    rw [hvisits, Generation.traces_append] at htraces
    exact Item.emitted_of_drawnBy htable hcommand hplaced.occurs
      (Generation.reflects_foldl htable htraces.1 (Pen.reflects_start _)) hdrawn

theorem items_are_emitted_of_stamp :
    let source := "DEFINE PATTERN NAME=\"p\" WIDTH=1 HEIGHT=1 DATA=\"1\"\nTRANSLATE DX=3 DY=4\n" ++
      "SCALE FACTOR=2\nFILL NAME=p\nDRAW NAME=P X=1 Y=2\nRESET_TRANSFORMS\nLINE X1=5\n"
    ∃ script, Script.compile source = .ok script ∧
      ({ script, width := 4, height := 4 } : Session).generate.items.map
        (fun item => (item.line, item.name, item.isOpaque, item.matrix.tx.toBits)) =
        [(5, some "P", true, 0x4008000000000000), (7, none, false, 0)] ∧
      ∀ item ∈ ({ script, width := 4, height := 4 } : Session).generate.items,
        ∃ before v after, ({ script, width := 4, height := 4 } : Session).visits (fun _ => false) =
          before ++ v :: after ∧ item.Emitted script before v := by
  intro source
  have hrun : (Script.compile source).toOption.map (fun script =>
      ({ script, width := 4, height := 4 } : Session).generate.items.map
        fun item => (item.line, item.name, item.isOpaque, item.matrix.tx.toBits)) =
      some [(5, some "P", true, 0x4008000000000000), (7, none, false, 0)] := by
    decide +kernel
  cases hcompile : Script.compile source with
  | error errors =>
    rw [hcompile] at hrun
    cases hrun
  | ok script =>
    rw [hcompile] at hrun
    exact ⟨script, rfl, Option.some.inj hrun,
      items_are_emitted hcompile { script, width := 4, height := 4 } rfl _⟩

end Session

end PatternScript
