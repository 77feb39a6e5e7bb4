import Knot.Eval
import Knot.Expr.Build
import Knot.Reduce
import Knot.Substitution

/-!
# Definitions

A definition is a function of one parameter, which stands for the function being defined, whose
body is a function of one parameter:

`(self) => (x) => body`

`Run.build` makes a callable of it. A fresh variable takes the place of `self`, the inner
function is put through a substitution, and the tree

`{ var self'; self' = (x) => body'; (x) => self'(x) }`

is reduced and evaluated once. So the variable is bound to one closure, which every recursive
call uses and by which a memo cache knows the function.
-/

namespace Knot

/-- A definition taken apart. -/
structure Definition where
  /-- The parameter that stands for the function being defined. -/
  self : Parameter
  /-- The parameter of the function. -/
  argument : Expr
  /-- The function. -/
  function : Expr
  /-- The types of the parameters of the function. -/
  params : List StaticType
  /-- The type of the result of the function. -/
  result : StaticType

/-- The ways to compile a definition. -/
structure CompileOptions where
  /-- Keep the results of calls of one argument. -/
  caching : Bool
  /-- Split operations on two calls. -/
  threading : Bool
  /-- Refuse impure member reads. -/
  purity : Bool
  cache : Option CacheId
  pool : Option PoolId

/-- Nothing but the function itself. -/
def CompileOptions.plain : CompileOptions := ⟨false, false, false, none, none⟩

/-- A compiled definition. -/
structure Compilation where
  function : Boxed
  tree : Expr

namespace Definition

/-- The only one of several expressions. -/
def only? : List Expr → Option Expr
  | [e] => some e
  | _ => none

/-- The parameter and the body of a function of one parameter. -/
def single? : Expr → Option (Expr × Expr)
  | .lambda ps body _ => (only? ps).map fun p => (p, body)
  | _ => none

/-- The parts of a definition, if it has the shape of one and its own parameter has the type of
the function. -/
def ofExpr (e : Expr) : Except Fault Definition :=
  match single? e with
  | none => Build.refuse .definitionShape
  | some (self, function) =>
    match single? function with
    | none => Build.refuse .definitionBody
    | some (argument, _) =>
      match function.type with
      | .func params result =>
        if self.type = .func params result then
          match self.parameter? with
          | some p => .ok ⟨p, argument, function, params, result⟩
          | none => .error .noMember
        else Build.refuse (.definitionSelf self.type function.type)
      | t => Build.refuse (.definitionSelf self.type t)

/-- The substitution that puts the variable `bound` in the place of a definition's parameter. -/
def substitution (d : Definition) (bound : Parameter) (options : CompileOptions)
    (allowImpure : Bool) : Substitution where
  placeholder := .parameter d.self
  replacement := .parameter bound
  caching := options.caching
  threading := options.threading
  purity := options.purity
  allowImpure := allowImpure
  cache := options.cache
  pool := options.pool

/-- The tree that binds `bound` to the function and yields a function that calls it, and what the
substitution did. -/
def assemble (d : Definition) (bound : Parameter) (options : CompileOptions) (allowImpure : Bool) :
    Except Fault (Expr × Tally SubstitutionCount) := do
  let r := d.substitution bound options allowImpure
  let (body, tally) ← d.function.substitute r
  let direct ← Build.invoke (.parameter bound) [d.argument]
  let (call, tally) ← direct.substituteFrom r tally
  let binding ← Build.assign (.parameter bound) body
  let entry ← Build.lambda [d.argument] call
  pure (Build.block [bound] [binding, entry] none, tally)

/-- The message about a compilation that came to its end. -/
def report (d : Definition) (options : CompileOptions) (substitutions : Tally SubstitutionCount)
    (reduction : Tally ReduceCount) : String :=
  "Compiled " ++ d.self.name ++
    ": caching=" ++ truthText options.caching ++
    " threading=" ++ truthText options.threading ++
    " rewrites=" ++ substitutions.text SubstitutionCount.name ++
    " reduction=" ++ reduction.text ReduceCount.name

end Definition

namespace Run

variable [Host]

/-- Reduces a tree as often as the settings allow. -/
def reduce (e : Expr) : Run Expr.Reduction := do
  let limit ← read fun m => m.settings.maxReductionPasses
  let passes ← lift (Settings.repetitions limit)
  let reduction := e.reduce passes
  if reduction.settled then pure reduction
  else do
    let text ← lift limit.shown
    log ("Reduction stopped after " ++ text ++ " passes without a fixed point")
    pure reduction

/-- Compiles a definition to a function, and gives the tree it was evaluated from. -/
def compile (fuel : Nat) (d : Definition) (options : CompileOptions) : Run Compilation := do
  let uid ← freshUid
  let bound : Parameter := ⟨d.self.name, d.self.type, uid⟩
  let allowImpure ← read fun m => m.settings.allowImpure.truthy
  let (tree, substitutions) ← lift (d.assemble bound options allowImpure)
  let reduction ← reduce tree
  let function ← evaluate fuel ⟨options.cache, options.pool⟩ reduction.result
  log (d.report options substitutions reduction.tally)
  let text ← lift reduction.result.format
  log ("  " ++ text)
  pure ⟨function, reduction.result⟩

/-- A pure function from a definition. Where results are to be kept and no cache is named, it
is the default cache that keeps them. -/
def build (fuel : Nat) (definition : Expr) (caching threading : Bool) (cache : Option CacheId)
    (pool : Option PoolId) : Run Compilation := do
  let cache := if caching then some (cache.getD Machine.defaultCache) else cache
  let d ← lift (Definition.ofExpr definition)
  let compiled ← compile fuel d ⟨caching, threading, true, cache, pool⟩
  let function ← wrap d.self.name d.params d.result caching threading compiled.function
  pure ⟨function, compiled.tree⟩

/-- The plain recursive closure of a definition: nothing is kept, split or refused. -/
def recursiveClosure (fuel : Nat) (definition : Expr) : Run Boxed := do
  let d ← lift (Definition.ofExpr definition)
  let compiled ← compile fuel d .plain
  pure compiled.function

/-- A pure function without parameters that yields the value of a tree, evaluated once. -/
def buildConstant (fuel : Nat) (e : Expr) : Run Compilation := do
  let v ← evaluate fuel .empty e
  let inner ← newFunction (.thunk v)
  let function ← wrap "constant" [] e.type false false inner
  pure ⟨function, e⟩

/-! ## Curried functions -/

/-- Applies a curried function to one argument after another. -/
def applyCurried (fuel : Nat) (function : Boxed) (args : List Boxed) : Run Boxed :=
  callChain fuel function (args.map fun a => [a])

/-- The same for a given number of arguments. -/
def applyExactly (fuel count : Nat) (function : Boxed) (args : List Boxed) : Run Boxed :=
  if args.length = count then applyCurried fuel function args else fail .wrongKind

/-- The same for a function that offers it as a member. -/
def applyMember (fuel : Nat) (function : Boxed) (args : List Boxed) : Run Boxed := do
  let method ← member function "fi"
  call fuel method args

end Run

end Knot
