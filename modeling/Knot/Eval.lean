import Knot.Expr.Obstacle
import Knot.Host
import Knot.Split

/-!
# Evaluation

`Expr.eval` evaluates a tree in a frame, by recursion on the tree. What host functions do is a
parameter, a `Host`, and so are how a function is called and how a unary operator is applied, an
`Interpreter`. `Run.callBy` supplies the calls,
by recursion on the fuel, so that fuel bounds how deep calls nest, how often a loop turns and how
many jumps a block catches; `Run.call` applies the operators as they are.

Operands, arguments and steps are evaluated from left to right. A jump is caught by the block
that directly holds the label, which goes on behind the label with the value of the jump, or by
a loop: its break label ends it, its continue label starts the next turn. A function does not
let a jump out.
-/

namespace Knot

/-! ## Blocks and loops -/

/-- A step of a block, with the number of its label if it is one. -/
structure Step where
  label : Option Nat
  run : Run Boxed

namespace Step

/-- The steps one after another. The value is that of the last one, or `v` if there is none. -/
def runAll : List Step → Boxed → Run Boxed
  | [], v => pure v
  | s :: rest, _ => do
    let v ← s.run
    runAll rest v

/-- The steps behind the last label of a number. -/
def after? (target : Nat) : List Step → Option (List Step)
  | [] => none
  | s :: rest =>
    match after? target rest with
    | some found => some found
    | none => if s.label = some target then some rest else none

/-- The steps `rest` of a block, and after each jump to one of the labels of the block the steps
behind that label. -/
def runFrom (all : List Step) : Nat → List Step → Boxed → Run Boxed
  | 0, _, _ => Run.exhausted
  | fuel + 1, rest, v => fun m =>
    match runAll rest v m with
    | (.jump target w, m) =>
      match after? target all with
      | some behind => runFrom all fuel behind w m
      | none => (.jump target w, m)
    | ended => ended

/-- A block of steps. -/
def runBlock (fuel : Nat) (steps : List Step) : Run Boxed := runFrom steps fuel steps Boxed.none

end Step

/-- A loop over a body, which only a jump, a fault or the fuel ends. -/
def Run.loop (body : Run Boxed) (breakLabel continueLabel : Option Nat) : Nat → Run Boxed
  | 0 => Run.exhausted
  | fuel + 1 => fun m =>
    match body m with
    | (.value _, m) => Run.loop body breakLabel continueLabel fuel m
    | (.jump target v, m) =>
      if breakLabel = some target then (.value v, m)
      else if continueLabel = some target then Run.loop body breakLabel continueLabel fuel m
      else (.jump target v, m)
    | ended => ended

namespace Run

/-- A run that does not let a jump out. -/
def sealed (x : Run Boxed) : Run Boxed := fun m =>
  match x m with
  | (.jump _ _, m) => (.fault (.unsupported .escapingJump), m)
  | ended => ended

/-! ## Parts of nodes -/

/-- A unary operator on a value, whatever the static type of its operand is. A conversion to the
type that the value has already keeps its box. -/
def applyUnary (op : UnaryOp) (_source target : StaticType) (v : Boxed) : Run Boxed :=
  if op.isConversion && target.keeps v.value then pure v else boxResult (op.apply v.value target)

/-- A binary operator on two values. -/
def applyBinary (op : BinaryOp) (a b : Boxed) : Run Boxed := boxResult (op.apply a.value b.value)

/-- A truth value in a box. -/
def truth (b : Bool) : Run Boxed := box (.scalar (.bool b))

/-- The frame in which the steps of a block run: a new one if the block declares variables. -/
def blockFrame (frame : FrameId) (locals : List Parameter) : Run FrameId :=
  if locals.isEmpty then pure frame
  else openFrame (some frame) (locals.map fun p => (p.uid, Boxed.none))

/-- A closure over a frame. -/
def closure (context : Context) (frame : FrameId) (parameters : List Expr) (body : Expr) :
    Run Boxed :=
  match parameters.mapM Expr.parameter? with
  | some ps => newFunction (.closure (ps.map fun p => p.uid) body frame context)
  | none => fail .noMember

end Run

/-! ## Trees -/

/-- How a function is called. -/
abbrev Caller := Boxed → List Boxed → Run Boxed

/-- How a unary operator is applied to a value, given the static types of its operand and of its
result. -/
abbrev Applier := UnaryOp → StaticType → StaticType → Boxed → Run Boxed

/-- What the evaluation of a tree leaves open. -/
structure Interpreter where
  call : Caller
  unary : Applier

/-- The cache of a cached call. -/
def Context.cacheFor (context : Context) (own : Option CacheId) : CacheId :=
  (own.or context.cache).getD Machine.defaultCache

/-- The number of the label that an expression is. -/
def Expr.labelUid? : Expr → Option Nat
  | .label l _ _ => some l.uid
  | _ => none

section

variable [Host]

namespace Expr

mutual

/-- Evaluates a tree in a frame. -/
def eval (i : Interpreter) (fuel : Nat) (context : Context) (frame : FrameId) : Expr → Run Boxed
  | constant v _ => pure v
  | parameter p => Run.lookup frame p
  | unary op a t => do
    let v ← eval i fuel context frame a
    i.unary op a.type t v
  | binary op a b _ =>
    match op with
    | .assign =>
      match a with
      | parameter p => do
        let v ← eval i fuel context frame b
        Run.assign frame p v
        pure v
      | _ => Run.fail .noMember
    | .andAlso => do
      let v ← eval i fuel context frame a
      if v.value.truthy then do
        let w ← eval i fuel context frame b
        Run.truth w.value.truthy
      else Run.truth false
    | .orElse => do
      let v ← eval i fuel context frame a
      if v.value.truthy then Run.truth true
      else do
        let w ← eval i fuel context frame b
        Run.truth w.value.truthy
    | op => do
      let v ← eval i fuel context frame a
      let w ← eval i fuel context frame b
      Run.applyBinary op v w
  | conditional a b c _ => do
    let v ← eval i fuel context frame a
    if v.value.truthy then eval i fuel context frame b else eval i fuel context frame c
  | invoke f args _ => do
    let function ← eval i fuel context frame f
    let values ← evalAll i fuel context frame args
    i.call function values
  | member a name _ => do
    let v ← eval i fuel context frame a
    Run.member v name
  | hostCall f args t => do
    let values ← evalAll i fuel context frame args
    let v ← Host.run f values
    Run.coerce t v
  | block vs es _ => do
    let inner ← Run.blockFrame frame vs
    Step.runBlock fuel (steps i fuel context inner es)
  | label _ d _ => evalOption i fuel context frame d
  | goto _ l v _ => do
    let w ← evalOption i fuel context frame v
    Run.jump l.uid w
  | loop a b c _ =>
    Run.loop (eval i fuel context frame a) (b.map fun l => l.uid) (c.map fun l => l.uid) fuel
  | lambda ps a _ => Run.closure context frame ps a
  | cached f a _ cache => do
    let function ← eval i fuel context frame f
    let v ← eval i fuel context frame a
    Run.lookupOrCompute (context.cacheFor cache) function v (i.call function [v])
  | parallel op a b _ pool => do
    let left ← deferred i fuel context frame a
    let right ← deferred i fuel context frame b
    Run.splitBinary op left right (pool.or context.pool)
  | strange v t => Run.fail (.unsupported (.evaluating (kind (strange v t))))
  | bare t => Run.fail (.unsupported (.evaluating (kind (bare t))))

/-- Evaluates several trees. -/
def evalAll (i : Interpreter) (fuel : Nat) (context : Context) (frame : FrameId) :
    List Expr → Run (List Boxed)
  | [] => pure []
  | e :: es => do
    let v ← eval i fuel context frame e
    let vs ← evalAll i fuel context frame es
    pure (v :: vs)

/-- Evaluates a tree that may be absent. -/
def evalOption (i : Interpreter) (fuel : Nat) (context : Context) (frame : FrameId) :
    Option Expr → Run Boxed
  | none => pure Boxed.none
  | some e => eval i fuel context frame e

/-- The steps of a block. -/
def steps (i : Interpreter) (fuel : Nat) (context : Context) (frame : FrameId) :
    List Expr → List Step
  | [] => []
  | e :: es =>
    ⟨e.labelUid?, eval i fuel context frame e⟩ :: steps i fuel context frame es

/-- Evaluates the function and the arguments of a call, and leaves the call itself to be run. -/
def deferred (i : Interpreter) (fuel : Nat) (context : Context) (frame : FrameId) :
    Expr → Run (Run Boxed)
  | invoke f args _ => do
    let function ← eval i fuel context frame f
    let values ← evalAll i fuel context frame args
    pure (i.call function values)
  | cached f a _ cache => do
    let function ← eval i fuel context frame f
    let v ← eval i fuel context frame a
    pure (Run.lookupOrCompute (context.cacheFor cache) function v (i.call function [v]))
  | e => Run.fail (.unsupported (.deferring e.kind))

end

end Expr

/-! ## Calls -/

namespace Run

/-- The arguments of a pure function, coerced to the types of its parameters. -/
def coerceAll : List StaticType → List Boxed → Run (List Boxed)
  | t :: ts, v :: vs => do
    let v ← coerce t v
    let vs ← coerceAll ts vs
    pure (v :: vs)
  | _, _ => pure []

/-- Asks for the nesting of calls that the settings demand. -/
def askNesting : Run Unit := fun m => lift m.settings.askNesting m

/-- A new pure function around another function. -/
def wrap (name : String) (params : List StaticType) (result : StaticType)
    (caching threading : Bool) (inner : Boxed) : Run Boxed := do
  let id ← addFunction (.wrapper inner)
  pure ⟨.compiled ⟨id, name, params, result, caching, threading⟩, 0⟩

/-- The result of a pure function: a function is wrapped again, so that its arguments are
coerced as well. -/
def wrapResult (f : PureFunction) (v : Boxed) : Run Boxed :=
  match f.result with
  | .func params result =>
    if v.value.isCallable then wrap f.name params result f.caching f.threading v else pure v
  | _ => pure v

/-- A call of a function, given how its body is evaluated. -/
def apply (i : Interpreter) (fuel : Nat) (c : Callable) (args : List Boxed) : Run Boxed :=
  match c with
  | .closure ps body frame context =>
    if args.length = ps.length then do
      let inner ← openFrame (some frame) (ps.zip args)
      sealed (body.eval i fuel context inner)
    else fail (.argumentCount ps.length args.length)
  | .collector collected missing =>
    args |> HostAction.onOne fun x => HostAction.collect (collected ++ [x]) (missing - 1)
  | .thunk result => if args.isEmpty then pure result else fail .wrongKind
  | .wrapper inner => i.call inner args

/-- A call of a pure function. -/
def applyPure (call : Caller) (f : PureFunction) (args : List Boxed) : Run Boxed :=
  if args.length = f.params.length then do
    let values ← coerceAll f.params args
    askNesting
    match ← callable f.id with
    | .wrapper inner => do
      let v ← call inner values
      let shown ← read fun m => m.current f
      wrapResult shown v
    | _ => fail .wrongKind
  else do
    let shown ← read fun m => m.current f
    fail (.functionArguments shown.name f.params.length args.length)

/-- Calls a function, then its result, and so on, on one list of arguments after another. -/
def callAll (call : Caller) : Boxed → List (List Boxed) → Run Boxed
  | v, [] => pure v
  | v, args :: rest => do
    let w ← call v args
    callAll call w rest

/-- A call of a method. What a compiled function offers applies it to one argument after another;
any function offers to be called. -/
def applyMethod (call : Caller) (owner : Boxed) (name : String) (args : List Boxed) : Run Boxed :=
  match owner.value, name with
  | .compiled _, "fi" => callAll call owner (args.map fun a => [a])
  | v, name =>
    if v.isCallable && name = "__call__" then call owner args
    else do
      match ← lift (Host.method v name (args.map fun a => a.value)) with
      | .itself => pure owner
      | .value w => box w

/-- Calls a function, given how unary operators are applied. Calls nest at most as deep as the
fuel. -/
def callBy (unary : Applier) : Nat → Caller
  | 0, _, _ => exhausted
  | fuel + 1, function, args =>
    match function.value with
    | .host f => Host.run f args
    | .closure id => do
      let c ← callable id
      apply ⟨callBy unary fuel, unary⟩ fuel c args
    | .compiled f => applyPure (callBy unary fuel) f args
    | .method owner identity _ name => applyMethod (callBy unary fuel) ⟨owner, identity⟩ name args
    | _ => fail .wrongKind

/-- Calls a function. -/
def call : Nat → Caller := callBy applyUnary

/-- Evaluates a tree in a frame, given how unary operators are applied. -/
def evalBy (unary : Applier) (fuel : Nat) (context : Context) (frame : FrameId) (e : Expr) :
    Run Boxed := e.eval ⟨callBy unary fuel, unary⟩ fuel context frame

/-- Evaluates a tree in a frame. -/
def eval (fuel : Nat) (context : Context) (frame : FrameId) (e : Expr) : Run Boxed :=
  evalBy applyUnary fuel context frame e

/-- Evaluates a tree in a new frame at the root, unless something stands in the way of it. -/
def evaluate (fuel : Nat) (context : Context) (e : Expr) : Run Boxed :=
  match e.obstacle? with
  | some f => fail f
  | none => do
    let frame ← openFrame none []
    eval fuel context frame e

/-- Calls a function, then its result, and so on. -/
def callChain (fuel : Nat) : Boxed → List (List Boxed) → Run Boxed := callAll (call fuel)

end Run

end

end Knot
