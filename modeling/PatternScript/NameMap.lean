/-!
# Maps from names

A finite map whose entries stand in the order of their names, so that reading it out
is reproducible. Setting a name keeps every other entry as it was.
-/
namespace PatternScript

universe u

structure NameMap (α : Type u) where
  entries : List (String × α)
  sorted : entries.Pairwise (fun a b => a.1 < b.1) := by exact .nil

namespace NameMap

variable {α : Type u}

def setEntry (name : String) (value : α) : List (String × α) → List (String × α)
  | [] => [(name, value)]
  | e :: rest =>
    if name < e.1 then (name, value) :: e :: rest
    else if name = e.1 then (name, value) :: rest
    else e :: setEntry name value rest

theorem mem_setEntry {name : String} {value : α} {e : String × α} {es : List (String × α)}
    (h : e ∈ setEntry name value es) : e = (name, value) ∨ e ∈ es := by
  fun_induction setEntry name value es with
  | case1 => simpa using h
  | case2 => simpa using h
  | case3 => grind
  | case4 => grind

theorem sorted_setEntry {name : String} {value : α} {es : List (String × α)}
    (h : es.Pairwise (fun a b => a.1 < b.1)) :
    (setEntry name value es).Pairwise (fun a b => a.1 < b.1) := by
  fun_induction setEntry name value es with
  | case1 => simp
  | case2 e rest hlt =>
    have hrest := (List.pairwise_cons.1 h).1
    refine List.pairwise_cons.2 ⟨fun b hb => ?_, h⟩
    rcases List.mem_cons.1 hb with rfl | hb
    · exact hlt
    · exact String.lt_trans hlt (hrest b hb)
  | case3 e rest hlt heq =>
    obtain ⟨hrest, htail⟩ := List.pairwise_cons.1 h
    exact List.pairwise_cons.2 ⟨fun b hb => heq ▸ hrest b hb, htail⟩
  | case4 e rest hlt hne ih =>
    obtain ⟨hrest, htail⟩ := List.pairwise_cons.1 h
    refine List.pairwise_cons.2 ⟨fun b hb => ?_, ih htail⟩
    rcases mem_setEntry hb with rfl | hb
    · exact Std.lt_of_le_of_ne (Std.not_lt.1 hlt) (Ne.symm hne)
    · exact hrest b hb

def empty : NameMap α := { entries := [] }

instance : Inhabited (NameMap α) := ⟨empty⟩

def get? (m : NameMap α) (name : String) : Option α := m.entries.lookup name

def contains (m : NameMap α) (name : String) : Bool := (m.get? name).isSome

def set (m : NameMap α) (name : String) (value : α) : NameMap α :=
  ⟨setEntry name value m.entries, sorted_setEntry m.sorted⟩

def size (m : NameMap α) : Nat := m.entries.length

def names (m : NameMap α) : List String := m.entries.map (·.1)

def values (m : NameMap α) : List α := m.entries.map (·.2)

def isEmpty (m : NameMap α) : Bool := m.entries.isEmpty

theorem eq_of_entries {m m' : NameMap α} (h : m.entries = m'.entries) : m = m' := by
  cases m
  cases m'
  cases h
  rfl

theorem lookup_setEntry (name other : String) (value : α) (es : List (String × α)) :
    (setEntry name value es).lookup other =
      if other = name then some value else es.lookup other := by
  fun_induction setEntry name value es <;> grind

@[simp] theorem get?_set (m : NameMap α) (name other : String) (value : α) :
    (m.set name value).get? other = if other = name then some value else m.get? other :=
  lookup_setEntry name other value m.entries

@[simp] theorem get?_empty (name : String) : (empty : NameMap α).get? name = none := rfl

end NameMap

end PatternScript
