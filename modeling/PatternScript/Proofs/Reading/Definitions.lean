import PatternScript.Proofs.Reading.Patterns
import PatternScript.Proofs.Reading.Rejections

/-!
# Which definitions count

A definition is accepted or refused, and only an accepted one gets into the pattern table. It is
accepted only if its name is free, so for each name the table holds the pattern of the first
definition that was accepted, and all other definitions of that name are errors. One whose
argument list cannot be read says no name, and is refused for what is wrong with the list.
-/
namespace PatternScript

namespace Definition

/-- The key of the pattern that a definition names, if its arguments can be read. -/
def key? (args : List Char) : Option String :=
  match (afterKeyword? args).map Arguments.parse with
  | some (.ok fields) =>
    match fields.get? "NAME" with
    | some (.text name) => some (Pattern.keyOf name)
    | _ => none
  | _ => none

def digit (c : Char) : UInt8 := if c == '1' then 1 else 0

structure Fields.Describes (f : Fields) (p : Pattern) : Prop where
  name_eq : p.name = f.name
  width_eq : (p.width : Int) = f.width.toInt
  height_eq : (p.height : Int) = f.height.toInt
  binary : ∀ c ∈ f.data, c = '0' ∨ c = '1'
  /-- The first digits, or all of them and zeros. -/
  cells_eq : p.cells.toList =
    (f.data.map digit ++ List.replicate (p.width * p.height) 0).take (p.width * p.height)

/-- Why a definition may be refused. If its arguments can be read and give a name, a field is
missing or else the pattern is at fault; if they cannot be read, that is the cause. -/
structure Refusal (args : List Char) (cause : ParseCause) : Prop where
  of_key : (key? args).isSome →
    cause.code = if (readFields args).isOk then .pattern else .missingArgument
  of_list : ∀ rest fault, afterKeyword? args = some rest → Arguments.parse rest = .error fault →
    cause = fault

/-- Among some definitions, each with its line, the one with the fields `f` on the line `line` is
the only one for `key` that is not refused. Those after it are refused since the name is taken, or
for another fault of the pattern, unless one of their fields is missing. -/
structure Accepted (definitions : List (Nat × List Char)) (errors : List ParseError)
    (key : String) (line : Nat) (f : Fields) : Prop where
  given : ∃ args, (line, args) ∈ definitions ∧ readFields args = .ok f
  named : Pattern.keyOf f.name = key
  accepted : ∀ e ∈ errors, e.line ≠ line
  refused : ∀ d ∈ definitions, key? d.2 = some key → d.1 ≠ line →
    ∃ e ∈ errors, e.line = d.1 ∧
      (line < d.1 → e.code = if (readFields d.2).isOk then .pattern else .missingArgument)

variable {args : List Char} {f : Fields} {cause : ParseCause} {key : String}

theorem Fields.Describes.cell_binary {p : Pattern} (h : f.Describes p) :
    ∀ cell ∈ p.cells.toList, cell = 0 ∨ cell = 1 := by
  intro cell hcell
  rw [h.cells_eq] at hcell
  rcases List.mem_append.1 (List.mem_of_mem_take hcell) with hdigit | hfill
  · obtain ⟨c, -, rfl⟩ := List.mem_map.1 hdigit
    rw [digit]
    split
    · exact .inr rfl
    · exact .inl rfl
  · exact .inl (List.eq_of_mem_replicate hfill)

theorem key?_of_readFields (h : readFields args = .ok f) :
    key? args = some (Pattern.keyOf f.name) := by
  rw [readFields] at h
  rw [key?]
  cases hrest : afterKeyword? args with
  | none => simp [hrest, throw, throwThe, MonadExceptOf.throw] at h
  | some rest =>
    rw [hrest] at h
    obtain ⟨fields, hfields, h⟩ := bind_eq_ok.1 h
    obtain ⟨name, hname, h⟩ := bind_eq_ok.1 h
    obtain ⟨-, h⟩ := throw_unless_eq_ok.1 h
    obtain ⟨width, -, h⟩ := bind_eq_ok.1 h
    obtain ⟨height, -, h⟩ := bind_eq_ok.1 h
    obtain ⟨data, -, h⟩ := bind_eq_ok.1 h
    cases h
    rw [text] at hname
    split at hname
    next hget =>
      cases hname
      simp [hfields, hget]
    next => cases hname

theorem code_of_readFields (h : readFields args = .error cause) (hkey : key? args = some key) :
    cause.code = .missingArgument := by
  rw [readFields] at h
  rw [key?] at hkey
  cases hrest : afterKeyword? args with
  | none => simp [hrest] at hkey
  | some rest =>
    rw [hrest] at h hkey
    rcases bind_eq_error.1 h with hfields | ⟨fields, -, h⟩
    · simp [hfields] at hkey
    rcases bind_eq_error.1 h with hname | ⟨name, -, h⟩
    · exact code_of_text hname
    rcases throw_unless_eq_error.1 h with ⟨-, rfl⟩ | ⟨-, h⟩
    · rfl
    rcases bind_eq_error.1 h with hwidth | ⟨width, -, h⟩
    · exact code_of_size hwidth
    rcases bind_eq_error.1 h with hheight | ⟨height, -, h⟩
    · exact code_of_size hheight
    rcases bind_eq_error.1 h with hdata | ⟨data, -, h⟩
    · exact code_of_text hdata
    · cases h

theorem cells_toList (data : List Char) (count : Nat) :
    (cells data count).toList = (data.map digit ++ List.replicate count 0).take count := by
  have hfill : count - min count data.length = count - data.length := by omega
  rw [cells, List.take_append, List.take_replicate, ← List.map_take]
  simp only [List.length_map, List.length_take, hfill, Nat.sub_le, Nat.min_eq_left]
  rfl

theorem cellCount_le {f : Fields} (h : sizeFault? f = none) :
    (pattern f).width * (pattern f).height ≤ Pattern.cellLimit := by
  rw [sizeFault?] at h
  split at h
  · cases h
  · dsimp only at h
    split at h
    · cases h
    · next hfits => exact Nat.le_of_not_lt hfits

theorem of_contentFault {table : PatternTable} (h : contentFault? table f = none) :
    (∀ c ∈ f.data, c = '0' ∨ c = '1') ∧ table.find? f.name = none ∧
      table.size < Pattern.tableLimit := by
  rw [contentFault?] at h
  split at h
  · cases h
  · split at h
    · cases h
    · split at h
      · cases h
      · next hdata hname hsize =>
        refine ⟨?_, by simpa using hname, Nat.lt_of_not_le hsize⟩
        simpa [Decidable.imp_iff_not_or] using hdata

theorem toNatClampNeg_of_pos {n : Int32} (h : 0 < n.toNatClampNeg) :
    (n.toNatClampNeg : Int) = n.toInt :=
  Int.toNat_of_nonneg (Int.le_of_lt (Int.lt_toNat.1 h))

theorem Accepted.concat {definitions : List (Nat × List Char)} {errors : List ParseError}
    {start : Nat} (h : Accepted definitions errors key start f) {d : Nat × List Char}
    (hd : key? d.2 = some key → ∃ e ∈ errors, e.line = d.1 ∧
      (start < d.1 → e.code = if (readFields d.2).isOk then .pattern else .missingArgument)) :
    Accepted (definitions ++ [d]) errors key start f where
  given := let ⟨args, hmem, hread⟩ := h.given
    ⟨args, List.mem_append_left _ hmem, hread⟩
  named := h.named
  accepted := h.accepted
  refused d' hd' hkey hne := by
    rcases List.mem_append.1 hd' with hd' | hd'
    · exact h.refused d' hd' hkey hne
    · cases List.mem_singleton.1 hd'
      exact hd hkey

theorem describes_pattern {table : PatternTable} (hsize : sizeFault? f = none)
    (hcontent : contentFault? table f = none) : f.Describes (pattern f) where
  name_eq := rfl
  width_eq := toNatClampNeg_of_pos (filled_pattern hsize).width_pos
  height_eq := toNatClampNeg_of_pos (filled_pattern hsize).height_pos
  binary := (of_contentFault hcontent).1
  cells_eq := cells_toList _ _

theorem read_accepted {table : PatternTable} (hfields : readFields args = .ok f)
    (hsize : sizeFault? f = none) (hcontent : contentFault? table f = none) :
    read table args =
      (sizeRemarks f ++ dataRemarks f, .ok (table.set (pattern f).key (pattern f))) := by
  have hfree : table.contains (pattern f).key = false :=
    Option.isSome_eq_false_iff.2 (Option.isNone_iff_eq_none.2 (of_contentFault hcontent).2.1)
  rw [read, hfields]
  simp only [hsize, hcontent, PatternTable.add?, hfree]
  rfl

theorem readFields_of_unread {rest : List Char} (hrest : afterKeyword? args = some rest)
    (hparse : Arguments.parse rest = .error cause) : readFields args = .error cause := by
  rw [readFields, hrest]
  exact bind_eq_error.2 (.inl hparse)

theorem refusal_of_readFields (h : readFields args = .error cause) : Refusal args cause where
  of_key hkey := by
    obtain ⟨key, hkey⟩ := Option.isSome_iff_exists.1 hkey
    rw [h]
    exact code_of_readFields h hkey
  of_list _ _ hrest hparse := Except.error.inj (h.symm.trans (readFields_of_unread hrest hparse))

theorem refusal_of_fault (hfields : readFields args = .ok f) (hcode : cause.code = .pattern) :
    Refusal args cause where
  of_key _ := by
    rw [hfields]
    exact hcode
  of_list _ _ hrest hparse := nomatch hfields.symm.trans (readFields_of_unread hrest hparse)

theorem read_refuses_or_adds (table : PatternTable) (args : List Char) :
    (∃ remarks cause, read table args = (remarks, .error cause) ∧ Refusal args cause) ∨
    ∃ remarks f, readFields args = .ok f ∧ sizeFault? f = none ∧ contentFault? table f = none ∧
      read table args = (remarks, .ok (table.set (pattern f).key (pattern f))) := by
  cases hfields : readFields args with
  | error cause =>
    exact .inl ⟨[], cause, by rw [read, hfields], refusal_of_readFields hfields⟩
  | ok f =>
    cases hsize : sizeFault? f with
    | some cause =>
      exact .inl ⟨[], cause, by simp only [read, hfields, hsize],
        refusal_of_fault hfields (code_of_sizeFault hsize)⟩
    | none =>
      cases hcontent : contentFault? table f with
      | some cause =>
        exact .inl ⟨sizeRemarks f, cause, by simp only [read, hfields, hsize, hcontent],
          refusal_of_fault hfields (code_of_contentFault hcontent)⟩
      | none => exact .inr ⟨_, f, rfl, hsize, hcontent, read_accepted hfields hsize hcontent⟩

end Definition

namespace Text

def definition? (text : List Char) : Option (List Char) :=
  (statement? text).bind fun s => if s.1 = "DEFINE" then some s.2 else none

def definitionsFrom (line : Nat) : List (List Char) → List (Nat × List Char)
  | [] => []
  | text :: rest => ((definition? text).map (line, ·)).toList ++ definitionsFrom (line + 1) rest

end Text

/-- The definitions of a source, whether they are accepted or not. -/
def Script.definitions (source : String) : List (Nat × List Char) :=
  Text.definitionsFrom 1 (Text.lines source.toList)

namespace NameMap

theorem length_setEntry_le {α : Type} (name : String) (value : α) (es : List (String × α)) :
    (setEntry name value es).length ≤ es.length + 1 := by
  fun_induction setEntry name value es with
  | case1 => simp
  | case2 => simp
  | case3 => simp
  | case4 e rest hlt hne ih => simpa using ih

theorem size_set_le {α : Type} (m : NameMap α) (name : String) (value : α) :
    (m.set name value).size ≤ m.size + 1 :=
  length_setEntry_le name value m.entries

end NameMap

namespace Reading

variable {r r' : Reading} {line : Nat} {past : List (Nat × List Char)} {args : List Char}

structure Records (line : Nat) (r r' : Reading) : Prop where
  stay : r.errors.toList ⊆ r'.errors.toList
  new : ∀ e ∈ r'.errors.toList, e ∈ r.errors.toList ∨ e.line = line

theorem records_of_errors (h : r'.errors = r.errors ∨
    ∃ cause, r'.errors = r.errors.push ⟨line, cause⟩) : Records line r r' := by
  rcases h with heq | ⟨cause, heq⟩
  · refine ⟨?_, ?_⟩
    · rw [heq]
      exact List.Subset.refl _
    · rw [heq]
      exact fun e he => .inl he
  · refine ⟨?_, ?_⟩
    · rw [heq, Array.toList_push]
      exact List.subset_append_left _ _
    · rw [heq, Array.toList_push]
      intro e he
      refine (List.mem_append.1 he).imp_right fun he => ?_
      rw [List.mem_singleton.1 he]

theorem Records.lt_succ (h : Records line r r') (hlt : ∀ e ∈ r.errors.toList, e.line < line) :
    ∀ e ∈ r'.errors.toList, e.line < line + 1 := by
  intro e he
  rcases h.new e he with he | heq
  · exact Nat.lt_succ_of_lt (hlt e he)
  · exact heq ▸ Nat.lt_succ_self line

theorem Records.accepted {key : String} {start : Nat} {f : Definition.Fields}
    (h : Records line r r') (hearlier : ∀ d ∈ past, d.1 < line)
    (haccepted : Definition.Accepted past r.errors.toList key start f) :
    Definition.Accepted past r'.errors.toList key start f where
  given := haccepted.given
  named := haccepted.named
  accepted e he := by
    obtain ⟨args, hmem, -⟩ := haccepted.given
    rcases h.new e he with he | heq
    · exact haccepted.accepted e he
    · exact heq ▸ (Nat.ne_of_lt (hearlier _ hmem)).symm
  refused d hd hkey hne :=
    let ⟨e, he, hcode⟩ := haccepted.refused d hd hkey hne
    ⟨e, h.stay he, hcode⟩

/-- What is known before the line `line` is read, when `past` are the definitions on the lines
before it. -/
structure Catalogs (past : List (Nat × List Char)) (line : Nat) (r : Reading) : Prop where
  earlier : ∀ d ∈ past, d.1 < line
  recorded : ∀ e ∈ r.errors.toList, e.line < line
  size_le : r.patterns.size ≤ Pattern.tableLimit
  entries : ∀ key p, r.patterns.get? key = some p →
    p.width * p.height ≤ Pattern.cellLimit ∧
      ∃ start f, Definition.Accepted past r.errors.toList key start f ∧ f.Describes p
  kept : ∀ d ∈ past, (∀ e ∈ r.errors.toList, e.line ≠ d.1) →
    ∃ key p, Definition.key? d.2 = some key ∧ r.patterns.get? key = some p
  unread : ∀ d ∈ past, ∀ rest cause, Definition.afterKeyword? d.2 = some rest →
    Arguments.parse rest = .error cause → ⟨d.1, cause⟩ ∈ r.errors.toList

theorem catalogs_empty : ({} : Reading).Catalogs [] 1 :=
  ⟨nofun, nofun, Nat.zero_le _, nofun, nofun, nofun⟩

theorem Catalogs.skip (h : r.Catalogs past line) (hpatterns : r'.patterns = r.patterns)
    (hrecords : Records line r r') : r'.Catalogs past (line + 1) where
  earlier d hd := Nat.lt_succ_of_lt (h.earlier d hd)
  recorded := hrecords.lt_succ h.recorded
  size_le := hpatterns ▸ h.size_le
  entries key p hp := by
    obtain ⟨hlimit, start, f, haccepted, hdescribes⟩ := h.entries key p (hpatterns ▸ hp)
    exact ⟨hlimit, start, f, hrecords.accepted h.earlier haccepted, hdescribes⟩
  kept d hd hfree := by
    rw [hpatterns]
    exact h.kept d hd fun e he => hfree e (hrecords.stay he)
  unread d hd rest cause hrest hparse := hrecords.stay (h.unread d hd rest cause hrest hparse)

theorem Catalogs.refuse (h : r.Catalogs past line) (hpatterns : r'.patterns = r.patterns)
    {cause : ParseCause} (herrors : r'.errors = r.errors.push ⟨line, cause⟩)
    (hrefusal : Definition.Refusal args cause) :
    r'.Catalogs (past ++ [(line, args)]) (line + 1) := by
  have hskip := h.skip hpatterns (records_of_errors (.inr ⟨cause, herrors⟩))
  have hhere : ⟨line, cause⟩ ∈ r'.errors.toList := by simp [herrors]
  refine ⟨?earlier, hskip.recorded, hskip.size_le, ?entries, ?kept, ?unread⟩
  case earlier => simpa [or_imp, forall_and] using hskip.earlier
  case entries =>
    intro key p hp
    obtain ⟨hlimit, start, f, haccepted, hdescribes⟩ := hskip.entries key p hp
    refine ⟨hlimit, start, f, haccepted.concat fun hkey => ?_, hdescribes⟩
    exact ⟨_, hhere, rfl, fun _ => hrefusal.of_key (Option.isSome_of_eq_some hkey)⟩
  case kept =>
    intro d hd hfree
    rcases List.mem_append.1 hd with hd | hd
    · exact hskip.kept d hd hfree
    · cases List.mem_singleton.1 hd
      exact absurd rfl (hfree _ hhere)
  case unread =>
    intro d hd rest fault hrest hparse
    rcases List.mem_append.1 hd with hd | hd
    · exact hskip.unread d hd rest fault hrest hparse
    · cases List.mem_singleton.1 hd
      exact hrefusal.of_list rest fault hrest hparse ▸ hhere

theorem Catalogs.accepted (h : r.Catalogs past line) {f : Definition.Fields}
    (hfields : Definition.readFields args = .ok f)
    (hfree : r.patterns.get? (Pattern.keyOf f.name) = none) :
    Definition.Accepted (past ++ [(line, args)]) r.errors.toList (Pattern.keyOf f.name) line f where
  given := ⟨args, List.mem_append_right _ (List.mem_singleton_self _), hfields⟩
  named := rfl
  accepted e he := Nat.ne_of_lt (h.recorded e he)
  refused d hd hkey hne := by
    rcases List.mem_append.1 hd with hd | hd
    · -- One that was not refused would have taken the name.
      by_contra hnone
      obtain ⟨key, p, hkey', hp⟩ := h.kept d hd fun e he hat =>
        hnone ⟨e, he, hat, fun hlt => absurd (h.earlier d hd) (Nat.lt_asymm hlt)⟩
      cases hkey.symm.trans hkey'
      exact Option.some_ne_none p (hp.symm.trans hfree)
    · cases List.mem_singleton.1 hd
      exact absurd rfl hne

theorem Catalogs.add (h : r.Catalogs past line) {f : Definition.Fields}
    (hfields : Definition.readFields args = .ok f) (hsize : Definition.sizeFault? f = none)
    (hcontent : Definition.contentFault? r.patterns f = none) (herrors : r'.errors = r.errors)
    (hpatterns : r'.patterns = r.patterns.set (Definition.pattern f).key (Definition.pattern f)) :
    r'.Catalogs (past ++ [(line, args)]) (line + 1) := by
  obtain ⟨-, hfree, hroom⟩ := Definition.of_contentFault hcontent
  have hkey : Definition.key? args = some (Pattern.keyOf f.name) :=
    Definition.key?_of_readFields hfields
  have hget (key : String) : r'.patterns.get? key =
      if key = Pattern.keyOf f.name then some (Definition.pattern f)
      else r.patterns.get? key := by
    rw [hpatterns]
    exact NameMap.get?_set _ _ _ _
  refine ⟨?earlier, ?recorded, ?size, ?entries, ?kept, ?unread⟩
  case earlier =>
    intro d hd
    rcases List.mem_append.1 hd with hd | hd
    · exact Nat.lt_succ_of_lt (h.earlier d hd)
    · cases List.mem_singleton.1 hd
      exact Nat.lt_succ_self line
  case recorded => exact fun e he => Nat.lt_succ_of_lt (h.recorded e (herrors ▸ he))
  case size => exact hpatterns ▸ (NameMap.size_set_le _ _ _).trans hroom
  case entries =>
    intro key p hp
    rw [herrors]
    rw [hget] at hp
    split at hp
    next hnew =>
      cases hp
      subst hnew
      exact ⟨Definition.cellCount_le hsize, line, f, h.accepted hfields hfree,
        Definition.describes_pattern hsize hcontent⟩
    next hold =>
      obtain ⟨hlimit, start, f', haccepted, hdescribes⟩ := h.entries key p hp
      refine ⟨hlimit, start, f', haccepted.concat fun hkey' => ?_, hdescribes⟩
      exact absurd (Option.some_inj.1 (hkey'.symm.trans hkey)) hold
  case kept =>
    intro d hd hunrefused
    rw [herrors] at hunrefused
    rcases List.mem_append.1 hd with hd | hd
    · obtain ⟨key, p, hkey', hp⟩ := h.kept d hd hunrefused
      refine ⟨key, p, hkey', ?_⟩
      rw [hget, if_neg, hp]
      rintro rfl
      exact Option.some_ne_none p (hp.symm.trans hfree)
    · cases List.mem_singleton.1 hd
      exact ⟨_, Definition.pattern f, hkey, (hget _).trans (if_pos rfl)⟩
  case unread =>
    intro d hd rest cause hrest hparse
    rw [herrors]
    rcases List.mem_append.1 hd with hd | hd
    · exact h.unread d hd rest cause hrest hparse
    · cases List.mem_singleton.1 hd
      cases hfields.symm.trans (Definition.readFields_of_unread hrest hparse)

theorem Catalogs.define (h : r.Catalogs past line) (args : List Char) :
    (r.define line args).Catalogs (past ++ [(line, args)]) (line + 1) := by
  rw [Reading.define]
  rcases Definition.read_refuses_or_adds r.patterns args with
    ⟨remarks, cause, hread, hrefusal⟩ | ⟨remarks, f, hfields, hsize, hcontent, hread⟩
  · rw [hread]
    exact h.refuse rfl rfl hrefusal
  · rw [hread]
    exact h.add hfields hsize hcontent rfl rfl

theorem Catalogs.readLine (h : r.Catalogs past line) (text : List Char) :
    (r.readLine line text).Catalogs (past ++ ((Text.definition? text).map (line, ·)).toList)
      (line + 1) := by
  have hrecords : Records line r (r.readLine line text) :=
    records_of_errors (r.errors_readLine line text)
  rw [readLine_eq] at hrecords ⊢
  rw [Text.definition?]
  cases hsaid : Text.statement? text with
  | none =>
    rw [hsaid] at hrecords
    simpa using h.skip rfl hrecords
  | some s =>
    obtain ⟨keyword, args⟩ := s
    rw [hsaid] at hrecords
    by_cases hkeyword : keyword = "DEFINE"
    · subst hkeyword
      exact h.define args
    · simpa [hkeyword] using
        h.skip (patterns_of_outcome (outcome_readCommand r line keyword args) hkeyword) hrecords

theorem Catalogs.readLines {texts : List (List Char)} (h : r.Catalogs past line) :
    (r.readLines line texts).Catalogs (past ++ Text.definitionsFrom line texts)
      (line + texts.length) := by
  induction texts generalizing r line past with
  | nil =>
    rw [Text.definitionsFrom, List.append_nil]
    exact h
  | cons text rest ih =>
    rw [Reading.readLines, List.length_cons, Nat.add_comm rest.length, ← Nat.add_assoc,
      Text.definitionsFrom, ← List.append_assoc]
    exact ih (h.readLine text)

end Reading

namespace Script

/-- Whatever becomes of a source, its pattern table has at most sixteen patterns. Each stands
under its name in upper case, has a size and as many cells as that, which are zeros and ones: the
first digits of its data, or all of them and zeros. It is the pattern of the first definition of
its name that was accepted, the later ones being refused, and no definition that was accepted is
missing. A definition of which the argument list cannot be read is refused for what is wrong with
the list. -/
theorem patterns_of_first_definitions (source : String) :
    (Reading.ofSource source).patterns.size ≤ 16 ∧
    (∀ key p, (Reading.ofSource source).patterns.get? key = some p →
      p.key = key ∧ p.Filled ∧ p.width * p.height ≤ 65536 ∧
      (∀ cell ∈ p.cells.toList, cell = 0 ∨ cell = 1) ∧
      ∃ line f, f.Describes p ∧
        Definition.Accepted (definitions source) (lineErrors source) key line f) ∧
    (∀ d ∈ definitions source, (∀ e ∈ lineErrors source, e.line ≠ d.1) →
      ∃ key p, Definition.key? d.2 = some key ∧
        (Reading.ofSource source).patterns.get? key = some p) ∧
    ∀ d ∈ definitions source, ∀ rest cause, Definition.afterKeyword? d.2 = some rest →
      Arguments.parse rest = .error cause → ⟨d.1, cause⟩ ∈ lineErrors source ∧
        (cause.code = .malformedArguments ∨ cause.code = .integerLiteral ∨
          cause.code = .variableName) := by
  have hcatalogs : (Reading.readLines {} 1 (Text.lines source.toList)).Catalogs
      (definitions source) _ := Reading.catalogs_empty.readLines
  have hproper : (Reading.readLines {} 1 (Text.lines source.toList)).patterns.Proper :=
    Reading.proper_readLines PatternTable.proper_empty 1 _
  refine ⟨hcatalogs.size_le, fun key p hp => ?_, hcatalogs.kept, fun d hd rest cause hrest hparse =>
    ⟨hcatalogs.unread d hd rest cause hrest hparse, ?_⟩⟩
  · obtain ⟨hlimit, line, f, haccepted, hdescribes⟩ := hcatalogs.entries key p hp
    exact ⟨hproper.key_eq key p hp, hproper.filled key p hp, hlimit, hdescribes.cell_binary,
      line, f, hdescribes, haccepted⟩
  · have hcode : cause.code.isOfList = true := Arguments.fails_readInto .empty rest cause hparse
    simpa [ParseCode.isOfList, or_assoc] using hcode

/-- Later definitions of an accepted name that are refused for other reasons than their pattern: a
field is missing, a word is out of range or no name, or a key comes twice. -/
def laterDefinitions : String :=
  "DEFINE PATTERN NAME=\"p\" WIDTH=1 HEIGHT=1 DATA=\"1\"\n" ++
    "DEFINE PATTERN NAME=\"P\" WIDTH=1 HEIGHT=1\n" ++
    "DEFINE PATTERN NAME=\"P\" WIDTH=99999999999 HEIGHT=1 DATA=\"1\"\n" ++
    "DEFINE PATTERN NAME=\"P\" WIDTH=$1 HEIGHT=1 DATA=\"1\"\n" ++
    "DEFINE PATTERN NAME=\"P\" NAME=\"P\" WIDTH=1 HEIGHT=1 DATA=\"1\""

theorem later_definitions_are_refused_otherwise :
    (¬ ∀ source : String, ∀ d ∈ definitions source, ∀ d' ∈ definitions source,
      (∀ e ∈ lineErrors source, e.line ≠ d.1) → d.1 < d'.1 →
      Definition.key? d.2 = Definition.key? d'.2 →
        ∃ e ∈ lineErrors source, e.line = d'.1 ∧ e.code = .pattern) ∧
    (lineErrors laterDefinitions).map (fun e => (e.line, e.code.label)) =
      [(2, "P003"), (3, "P004"), (4, "P008"), (5, "P002")] := by
  refine ⟨fun h => ?_, by decide +kernel⟩
  have hlast := h ("DEFINE PATTERN NAME=\"p\" WIDTH=1 HEIGHT=1 DATA=\"1\"\n" ++
    "DEFINE PATTERN NAME=\"P\" WIDTH=1 HEIGHT=1")
  revert hlast
  decide +kernel

end Script

end PatternScript
