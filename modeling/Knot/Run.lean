import Knot.Machine
import Knot.Value.Member

/-!
# Runs

A run takes a machine to an outcome and a changed machine. It ends in a value, in a fault, in a
jump that nobody has caught so far, or not at all within the fuel that it was given. The steps
from which runs are composed are here; each touches one part of the machine.
-/

namespace Knot

/-- How a run ends. -/
inductive Outcome (α : Type) where
  | value (a : α)
  | fault (f : Fault)
  /-- A jump to a label, with the value that it takes along. -/
  | jump (target : Nat) (v : Boxed)
  /-- The fuel did not suffice. -/
  | exhausted

namespace Outcome

/-- The outcome of two runs that both took place. What ended the left one early counts first. -/
def both {α β : Type} : Outcome α → Outcome β → Outcome (α × β)
  | exhausted, _ => exhausted
  | _, exhausted => exhausted
  | fault f, _ => fault f
  | jump t v, _ => jump t v
  | value _, fault f => fault f
  | value _, jump t v => jump t v
  | value a, value b => value (a, b)

end Outcome

/-- A computation on a machine. -/
def Run (α : Type) := Machine → Outcome α × Machine

namespace Run

/-- The run that ends in a value at once. -/
@[inline] protected def pure {α : Type} (a : α) : Run α := fun m => (.value a, m)

/-- One run after another; the second takes place only if the first ends in a value. -/
@[inline] protected def bind {α β : Type} (x : Run α) (f : α → Run β) : Run β := fun m =>
  match x m with
  | (.value a, m) => f a m
  | (.fault e, m) => (.fault e, m)
  | (.jump t v, m) => (.jump t v, m)
  | (.exhausted, m) => (.exhausted, m)

@[inline] instance : Monad Run where
  pure := Run.pure
  bind := Run.bind

/-- The run that fails. -/
@[inline] def fail {α : Type} (f : Fault) : Run α := fun m => (.fault f, m)

/-- The run that jumps. -/
@[inline] def jump {α : Type} (target : Nat) (v : Boxed) : Run α := fun m => (.jump target v, m)

/-- The run that has no fuel. -/
@[inline] def exhausted {α : Type} : Run α := fun m => (.exhausted, m)

/-- A result or a fault as a run that changes nothing. -/
def lift {α : Type} (x : Except Fault α) : Run α := fun m =>
  match x with
  | .ok a => (.value a, m)
  | .error f => (.fault f, m)

/-- What a function reads off the machine. -/
@[inline] def read {α : Type} (f : Machine → α) : Run α := fun m => (.value (f m), m)

/-- A change of the machine. -/
@[inline] def update (f : Machine → Machine) : Run Unit := fun m => (.value (), f m)

/-- A change of the machine that yields a value. -/
@[inline] def step {α : Type} (f : Machine → α × Machine) : Run α := fun m =>
  let (a, m) := f m
  (.value a, m)

/-! ## Boxes -/

/-- A value in a new box. -/
def box (v : Value) : Run Boxed := fun m =>
  (.value ⟨v, m.nextIdentity⟩, { m with nextIdentity := m.nextIdentity + 1 })

/-- A result in a new box, or the fault. -/
def boxResult (x : Except Fault Value) : Run Boxed := fun m =>
  match x with
  | .ok v => box v m
  | .error f => (.fault f, m)

/-- A value coerced to a static type. A value that is of the type already keeps its box. -/
def coerce (t : StaticType) (v : Boxed) : Run Boxed :=
  if t.keeps v.value then Run.pure v else boxResult (t.coerce v.value)

/-! ## Variables -/

/-- The value of a variable. -/
def lookup (frame : FrameId) (p : Parameter) : Run Boxed := fun m =>
  match m.frames.lookup frame p.uid with
  | some v => (.value v, m)
  | none => (.fault (.unsupported (.unbound p.name)), m)

/-- Gives a variable a new value. -/
def assign (frame : FrameId) (p : Parameter) (v : Boxed) : Run Unit := fun m =>
  match m.frames.assign frame p.uid v with
  | some frames => (.value (), { m with frames := frames })
  | none => (.fault (.unsupported (.undeclared p.name)), m)

/-- Opens a frame. -/
def openFrame (parent : Option FrameId) (bindings : List (Nat × Boxed)) : Run FrameId := fun m =>
  let (f, frames) := m.frames.push parent bindings
  (.value f, { m with frames := frames })

/-- Takes the number of a new variable or label. -/
def freshUid : Run Nat := fun m => (.value m.nextUid, { m with nextUid := m.nextUid + 1 })

/-! ## Functions and objects -/

/-- Adds a function, and gives its place. -/
def addFunction (c : Callable) : Run Nat := fun m =>
  (.value m.functions.size, { m with functions := m.functions.push c })

/-- A new function as a value. -/
def newFunction (c : Callable) : Run Boxed := do
  let id ← addFunction c
  pure ⟨.closure id, 0⟩

/-- What a function does. -/
def callable (id : Nat) : Run Callable := fun m =>
  match m.functions[id]? with
  | some c => (.value c, m)
  | none => (.fault .wrongKind, m)

/-- Adds an object with members. Of several members of one name the last one counts. -/
def newObject (name : String) (members : List (String × Boxed)) : Run Boxed := fun m =>
  let known := members.foldl (fun known v => Machine.setMember v.1 v.2 known) []
  (.value ⟨.object m.objects.size name, 0⟩, { m with objects := m.objects.push known })

/-- Gives an object or a function a value under a name. -/
def assignMember (owner : Boxed) (name : String) (v : Boxed) : Run Unit := fun m =>
  match m.give? owner name v with
  | some m => (.value (), m)
  | none => (.fault .noMember, m)

/-- The name that a function goes by. -/
def functionName : Callable → String
  | .closure _ _ _ _ => "closure"
  | .collector _ _ | .thunk _ | .wrapper _ => "<lambda>"

/-- What only the table of functions tells about one: its name, or the function behind it. -/
def functionMember (owner : Value) (name : String) : Run Boxed :=
  match owner, name with
  | .closure id, "__name__" => do
    let c ← callable id
    box (.text (functionName c))
  | .compiled f, "_fn" => do
    match ← callable f.id with
    | .wrapper inner => pure inner
    | _ => fail .noMember
  | _, _ => fail .noMember

/-- A member of a value: what it was given, or what a value of its kind offers. -/
def member (owner : Boxed) (name : String) : Run Boxed := do
  match ← read fun m => m.given? owner name with
  | some v => pure v
  | none =>
    match owner.value.member? name with
    | some .itself => pure owner
    | some (.value v) => box v
    | some (.method sort) => box (.method owner.value owner.identity sort name)
    | some .foreign => fail .wrongKind
    | none => functionMember owner.value name

/-! ## Journals -/

/-- Records an event. -/
def record (e : Event) : Run Unit := update fun m => { m with journal := m.journal.push e }

/-- Logs a message. -/
def log (message : String) : Run Unit := update fun m => m.logged message

/-! ## Caches -/

/-- A step of a cache that may fail. A cache that fails is not changed. -/
def onCache {α : Type} (c : CacheId) (f : MemoCache → Except Fault (α × MemoCache)) :
    Run α := fun m =>
  match f (m.cache c) with
  | .ok (a, cache) => (.value a, m.setCache c cache)
  | .error e => (.fault e, m)

/-- The result for a function and an argument: the one that is kept, or else the one that
`compute` brings. -/
def lookupOrCompute (c : CacheId) (function argument : Boxed) (compute : Run Boxed) :
    Run Boxed := do
  match ← onCache c fun cache => cache.start function argument with
  | .bypassed => compute
  | .hit result => pure result
  | .pending ticket =>
    let result ← compute
    onCache c fun cache => cache.finish ticket result

/-- Forgets all results of a cache. -/
def resetCache (c : CacheId) : Run Unit := do
  update fun m => m.setCache c (m.cache c).reset
  log "Memo cache reset"

/-! ## Settings -/

/-- A change of the machine that may be a fault and takes place all the same. -/
def attempt (f : Machine → Except Fault Unit × Machine) : Run Unit := fun m =>
  match f m with
  | (.ok (), m) => (.value (), m)
  | (.error e, m) => (.fault e, m)

/-- Changes settings by name. -/
def configure (changes : List (String × Value)) : Run Unit :=
  attempt fun m => m.configure changes

/-- Goes back to the settings to begin with. -/
def resetSettings : Run Unit := attempt Machine.resetSettings

end Run

end Knot
