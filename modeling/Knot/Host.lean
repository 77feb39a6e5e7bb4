import Knot.Operator.Apply
import Knot.Run
import Knot.Value.Method

/-!
# The host

A tree calls functions of the host, and methods of the values that the host provides. What these do is
left open, as a `Host`: evaluation takes one as given. `Host.listed` is one that runs, with the functions
that `HostAction` lists and the methods of `Value.callMethod`.

A listed function takes any number of arguments but refuses a number that it is not made for. It
may report to the journal, fail, or make a new function; it calls no other function.
-/

namespace Knot

/-- What the functions of the host do, and what the methods of its values give. -/
class Host where
  run : HostFunction → List Boxed → Run Boxed
  method : Value → String → List Value → Except Fault MethodResult

/-! ## Listed functions -/

/-- A value times itself: host integers exactly, scalars in their own type. -/
def Value.square : Value → Except Fault Value
  | .bool b => .ok (.int (bitOf b))
  | .int v => .ok (.int (v * v))
  | .float x => .ok (.float (x.mul x))
  | .scalar (.bool b) => .ok (.scalar (.bool b))
  | .scalar (.int t w) => .ok (.scalar (.wrapped t (w.toInt * w.toInt)))
  | .scalar (.float p x) => .ok (.scalar (.float p (x.mul x)))
  | .none | .text _ | .list _ | .host _ | .closure _ | .compiled _ | .object _ _
  | .method _ _ _ _ => .error .wrongKind

/-- The square root of a value read as a double. -/
def Value.squareRoot (v : Value) : Except Fault Value := do
  let x ← v.toDouble
  match x.sqrt? with
  | some y => pure (.float y)
  | Option.none => throw .badValue

/-- Half of a value read as a double. -/
def Value.half (v : Value) : Except Fault Value := do
  let x ← v.toDouble
  pure (.float (x.div (.ofInt 2)))

/-- The sum of several values read as integers. -/
def Value.total : List Boxed → Except Fault Int
  | [] => .ok 0
  | v :: vs => do
    let n ← v.value.toInt
    let rest ← Value.total vs
    pure (n + rest)

namespace HostAction

/-- A function of one argument. -/
def onOne (f : Boxed → Run Boxed) : List Boxed → Run Boxed
  | [x] => f x
  | _ => Run.fail .wrongKind

/-- The function that takes what is still missing of a list; the list when nothing is. -/
def collect (collected : List Boxed) : Nat → Run Boxed
  | 0 => Run.box (.list (collected.map fun v => v.value))
  | n + 1 => Run.newFunction (.collector collected (n + 1))

/-- Reports values, all of which have to have a written form. -/
def reportAll (args : List Boxed) : Run Unit :=
  if args.all fun a => a.value.writable then Run.record (.reported args) else Run.fail .badValue

/-- Takes an action on arguments. -/
def run : HostAction → List Boxed → Run Boxed
  | report, args => do
    reportAll args
    pure Boxed.none
  | tap, args => args |> onOne fun x => do
    reportAll [x]
    pure x
  | sum, args => Run.boxResult ((Value.total args).map Value.int)
  | parity, args => args |> onOne fun x => Run.boxResult (x.value.toInt.map fun n => .int (n % 2))
  | fail, _ => Run.fail .hostFailure
  | sqrt, args => args |> onOne fun x => Run.boxResult x.value.squareRoot
  | half, args => args |> onOne fun x => Run.boxResult x.value.half
  | big, _ => pure ⟨.int (2 ^ (70 : Nat)), 0⟩
  | text, _ => pure ⟨.text "abc", 0⟩
  | absent, _ => pure Boxed.none
  | verum, args => if args.isEmpty then Run.box (.bool true) else Run.fail .wrongKind
  | identity, args => args |> onOne fun x => pure x
  | pack, args => collect args 0
  | curriedPack n, args => args |> onOne fun x => collect [x] (n - 1)
  | double, args => args |> onOne fun x => Run.boxResult (BinaryOp.add.apply x.value x.value)
  | integer, args => args |> onOne fun x => Run.boxResult (x.value.toInt.map Value.int)
  | square, args => args |> onOne fun x => Run.boxResult x.value.square
  | notCallable, _ => Run.fail .wrongKind

end HostAction

/-- The host that has the listed functions. -/
instance Host.listed : Host where
  run f args := f.action.run args
  method := Value.callMethod

end Knot
