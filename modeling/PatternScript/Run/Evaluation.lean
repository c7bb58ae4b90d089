import PatternScript.NameMap
import PatternScript.Run.RuntimeError

/-!
# Variables, and the value of expressions and conditions

Values from the host stand beside the variables of the script, and the host's values are
found first. Arithmetic is that of words of 32 bits with a sign: sums, differences and
products wrap around, quotients are cut toward zero. Products bind tighter than sums and
everything groups to the left. First every operand is read, then the products are folded,
then the sums; a fault makes its part zero and evaluation goes on.
-/
namespace PatternScript

structure Store where
  environment : NameMap Int32 := .empty
  user : NameMap Int32 := .empty

namespace Store

def get? (s : Store) (name : String) : Option Int32 :=
  s.environment.get? name <|> s.user.get? name

def setEnvironment (s : Store) (name : String) (value : Int32) : Store :=
  { s with environment := s.environment.set name value }

def setUser (s : Store) (name : String) (value : Int32) : Store :=
  { s with user := s.user.set name value }

def hasUser (s : Store) (name : String) : Bool := s.user.contains name

def clearUser (s : Store) : Store := { s with user := .empty }

end Store

/-- A value, with the faults met on the way to it in their order. -/
structure Evaluated (α : Type) where
  value : α
  faults : List RuntimeCause := []

namespace Evaluation

def readVariable (store : Store) (index : Option Int32) (v : VarRef) : Evaluated Int32 :=
  let read : Evaluated Int32 :=
    if v.name = indexName then
      match index with
      | some i => ⟨i, []⟩
      | none => ⟨0, [.indexOutsideLoop]⟩
    else match store.get? v.name with
      | some n => ⟨n, []⟩
      | none => ⟨0, [.undefined v.name]⟩
  if v.negated then { read with value := -read.value } else read

def operand? (store : Store) (index : Option Int32) : Token → Option (Evaluated Int32)
  | .int n => some ⟨n, []⟩
  | .var v => some (readVariable store index v)
  | .text _ | .op _ | .compare _ => none

def integer (store : Store) (index : Option Int32) (t : Token) : Evaluated Int32 :=
  (operand? store index t).getD ⟨0, [.notInteger t]⟩

def apply (a : Int32) (o : Arithmetic) (b : Int32) : Evaluated Int32 :=
  match o with
  | .add => ⟨a + b, []⟩
  | .sub => ⟨a - b, []⟩
  | .mul => ⟨a * b, []⟩
  | .div => if b = 0 then ⟨0, [.divisionByZero]⟩ else ⟨a / b, []⟩
  | .mod => if b = 0 then ⟨0, [.moduloByZero]⟩ else ⟨a % b, []⟩

abbrev Chain := List (Arithmetic × Int32)

def readChain (store : Store) (index : Option Int32) : List Token → Evaluated (Option Chain)
  | [] => ⟨some [], []⟩
  | [.op _] => ⟨none, [.endsWithOperator]⟩
  | .op o :: t :: rest =>
    match operand? store index t with
    | some b =>
      let tail := readChain store index rest
      ⟨tail.value.map ((o, b.value) :: ·), b.faults ++ tail.faults⟩
    | none => ⟨none, [.malformedNear t]⟩
  | t :: _ => ⟨none, [.malformedNear t]⟩

def foldProducts (a : Int32) : Chain → Evaluated (Int32 × Chain)
  | [] => ⟨(a, []), []⟩
  | (o, b) :: rest =>
    if o.bindsTight then
      let product := apply a o b
      let tail := foldProducts product.value rest
      ⟨tail.value, product.faults ++ tail.faults⟩
    else
      let tail := foldProducts b rest
      ⟨(a, (o, tail.value.1) :: tail.value.2), tail.faults⟩

def foldSums (a : Int32) : Chain → Evaluated Int32
  | [] => ⟨a, []⟩
  | (o, b) :: rest =>
    let sum := apply a o b
    let tail := foldSums sum.value rest
    ⟨tail.value, sum.faults ++ tail.faults⟩

def chainValue (a : Int32) (chain : Chain) : Evaluated Int32 :=
  let products := foldProducts a chain
  let sums := foldSums products.value.1 products.value.2
  ⟨sums.value, products.faults ++ sums.faults⟩

def expression (store : Store) (index : Option Int32) : List Token → Evaluated Int32
  | [] => ⟨0, [.emptyExpression]⟩
  | t :: rest =>
    match operand? store index t with
    | none => ⟨0, [.malformedNear t]⟩
    | some first =>
      let read := readChain store index rest
      match read.value with
      | none => ⟨0, first.faults ++ read.faults⟩
      | some chain =>
        let total := chainValue first.value chain
        ⟨total.value, first.faults ++ read.faults ++ total.faults⟩

def condition (store : Store) (index : Option Int32) (ts : List Token) : Evaluated Bool :=
  match ts.filter Token.isComparison with
  | [.compare rel] =>
    let lhs := expression store index (ts.takeWhile (!·.isComparison))
    let rhs := expression store index ((ts.dropWhile (!·.isComparison)).drop 1)
    ⟨rel.holds lhs.value rhs.value, lhs.faults ++ rhs.faults⟩
  | found => ⟨false, [.comparisonCount found.length]⟩

end Evaluation

end PatternScript
