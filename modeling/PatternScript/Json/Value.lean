import PatternScript.Json.Number
import PatternScript.Text.Basic

/-!
# Values in JSON

Values are read as what is wanted in their place, or stepped over. A value of another kind
is read to its end before it is refused, so that a fault in its own text comes first; only
lists and objects are refused at once.
-/
namespace PatternScript.Json

inductive Bracket
  | list
  | object
  deriving DecidableEq, Repr

def Bracket.close : Bracket → Char
  | list => ']'
  | object => '}'

def misfit (cs : List Char) : Fault :=
  let read : Except Fault Unit := match cs with
    | [] => .error .truncated
    | 'n' :: rest => (readLetters ['u', 'l', 'l'] rest).map fun _ => ()
    | 't' :: rest => (readLetters ['r', 'u', 'e'] rest).map fun _ => ()
    | 'f' :: rest => (readLetters ['a', 'l', 's', 'e'] rest).map fun _ => ()
    | '"' :: rest => (readText true [] rest).map fun _ => ()
    | '-' :: rest => (Number.read false rest).map fun _ => ()
    | '[' :: _ | '{' :: _ => .ok ()
    | c :: _ => if c.isDigit then (Number.read true cs).map fun _ => () else .error .malformed
  match read with
  | .ok () => .mismatch
  | .error fault => fault

def wantText (cs : List Char) : Except Fault (Step String cs) :=
  match h : skipSpace cs with
  | '"' :: rest => do
    let (text, after) ← readText true [] rest
    return (text, ⟨after.1, Nat.lt_trans after.2 (length_lt_of_skipSpace h)⟩)
  | start => .error (misfit start)

def wantOptionalText (cs : List Char) : Except Fault (Step (Option String) cs) :=
  match h : skipSpace cs with
  | 'n' :: rest =>
    match hr : readLetters ['u', 'l', 'l'] rest with
    | .ok after =>
      .ok (none, ⟨after, Nat.lt_of_le_of_lt (length_readLetters_le hr) (length_lt_of_skipSpace h)⟩)
    | .error fault => .error fault
  | _ => do
    let (text, after) ← wantText cs
    return (some text, after)

def wantNumber (cs : List Char) : Except Fault (Step Number cs) :=
  match h : skipSpace cs with
  | [] => .error .truncated
  | c :: rest =>
    if c = '-' then
      match hr : Number.read false rest with
      | .ok (n, after) =>
        .ok (n, ⟨after, Nat.lt_trans (Number.length_read_lt hr) (length_lt_of_skipSpace h)⟩)
      | .error fault => .error fault
    else if c.isDigit then
      match hr : Number.read true (c :: rest) with
      | .ok (n, after) =>
        .ok (n, ⟨after, Nat.lt_of_lt_of_le (h ▸ Number.length_read_lt hr) (length_skipSpace_le cs)⟩)
      | .error fault => .error fault
    else .error (misfit (c :: rest))

def Number.int32? : Number → Option Int32
  | natural n => Text.int32? n
  | negative n => Text.int32? (-(n : Int))
  | double _ => none

def Number.float : Number → Float
  | natural n => Float.ofNat n
  | negative n => -Float.ofNat n
  | double x => x

def wantInt32 (cs : List Char) : Except Fault (Step Int32 cs) := do
  let (n, after) ← wantNumber cs
  match n.int32? with
  | some i => return (i, after)
  | none => throw .mismatch

def wantFloat (cs : List Char) : Except Fault (Step Float cs) := do
  let (n, after) ← wantNumber cs
  return (n.float, after)

def readName (paired : Bool) (cs : List Char) : Except Fault (Step String cs) :=
  match h : skipSpace cs with
  | [] => .error .truncated
  | '"' :: rest => do
    let (name, after) ← readText paired [] rest
    return (name, ⟨after.1, Nat.lt_trans after.2 (length_lt_of_skipSpace h)⟩)
  | _ => .error .malformed

def skipColon (cs : List Char) : Except Fault (Shorter cs) :=
  match h : skipSpace cs with
  | [] => .error .truncated
  | ':' :: rest => .ok ⟨rest, length_lt_of_skipSpace h⟩
  | _ => .error .malformed

def skipScalar (c : Char) (rest : List Char) : Except Fault (List Char) :=
  match c with
  | 'n' => readLetters ['u', 'l', 'l'] rest
  | 't' => readLetters ['r', 'u', 'e'] rest
  | 'f' => readLetters ['a', 'l', 's', 'e'] rest
  | '"' => (readText false [] rest).map (·.2.1)
  | '-' => Number.skip rest
  | c => if c.isDigit then Number.skip (c :: rest) else .error .malformed

theorem length_skipScalar_le {c : Char} {rest after : List Char}
    (h : skipScalar c rest = .ok after) : after.length ≤ rest.length := by
  unfold skipScalar at h
  split at h
  · exact length_readLetters_le h
  · exact length_readLetters_le h
  · exact length_readLetters_le h
  · obtain ⟨step, _, hs⟩ := bind_eq_ok.1 (show (readText false [] rest >>= fun s => .ok s.2.1) = _
      by rw [← h]; cases readText false [] rest <;> rfl)
    cases hs
    exact Nat.le_of_lt step.2.2
  · exact Nat.le_of_lt (Number.length_skip_lt h)
  · split at h
    · exact Nat.le_of_lt_succ (Number.length_skip_lt h)
    · cases h

mutual

def skipValue (cs : List Char) : Except Fault (Shorter cs) :=
  match h : skipSpace cs with
  | [] => .error .truncated
  | c :: rest =>
    have shorter := length_lt_of_skipSpace h
    if c = '[' then do
      let after ← skipMembers .list rest
      return ⟨after.1, Nat.lt_trans after.2 shorter⟩
    else if c = '{' then do
      let after ← skipMembers .object rest
      return ⟨after.1, Nat.lt_trans after.2 shorter⟩
    else
      match hs : skipScalar c rest with
      | .ok after => .ok ⟨after, Nat.lt_of_le_of_lt (length_skipScalar_le hs) shorter⟩
      | .error fault => .error fault
termination_by 3 * cs.length
decreasing_by all_goals omega

def skipMembers (b : Bracket) (cs : List Char) : Except Fault (Shorter cs) :=
  match h : skipSpace cs with
  | [] => .error .truncated
  | c :: rest =>
    if c = b.close then .ok ⟨rest, length_lt_of_skipSpace h⟩ else skipFrom b cs
termination_by 3 * cs.length + 2
decreasing_by all_goals omega

def skipFrom (b : Bracket) (cs : List Char) : Except Fault (Shorter cs) := do
  let start : NoLonger cs ← match b with
    | .list => pure (.whole cs)
    | .object => do
      let (_, named) ← readName false cs
      let colon ← skipColon named.1
      pure ⟨colon.1, Nat.le_of_lt (Nat.lt_trans colon.2 named.2)⟩
  have bound := start.2
  let value ← skipValue start.1
  have shorter := Nat.lt_of_lt_of_le value.2 bound
  let after ← skipAfter b value.1
  return ⟨after.1, Nat.lt_trans after.2 shorter⟩
termination_by 3 * cs.length + 1
decreasing_by all_goals omega

def skipAfter (b : Bracket) (cs : List Char) : Except Fault (Shorter cs) :=
  match h : skipSpace cs with
  | [] => .error .truncated
  | c :: rest =>
    have shorter := length_lt_of_skipSpace h
    if c = b.close then .ok ⟨rest, shorter⟩
    else if c = ',' then do
      let after ← skipFrom b rest
      return ⟨after.1, Nat.lt_trans after.2 shorter⟩
    else .error .malformed
termination_by 3 * cs.length
decreasing_by all_goals omega

end

end PatternScript.Json
