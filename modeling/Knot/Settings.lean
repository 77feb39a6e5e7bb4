import Knot.Value.Equality

/-!
# Settings

The tunables of a process. `Settings.configure` changes several at once, and nothing when one
of the names is unknown. A setting takes any value; what it makes of one of the wrong kind shows
where the setting is used.
-/

namespace Knot

/-- The names of the settings. -/
inductive Setting where
  | allowImpure | maxWorkers | maxReductionPasses | recursionLimit | enableLogging
deriving DecidableEq, Repr

namespace Setting

/-- The settings in order. -/
def all : List Setting :=
  [allowImpure, maxWorkers, maxReductionPasses, recursionLimit, enableLogging]

/-- The written name of a setting. -/
def name : Setting → String
  | allowImpure => "allow_impure_without_caching"
  | maxWorkers => "max_workers"
  | maxReductionPasses => "max_reduction_passes"
  | recursionLimit => "recursion_limit"
  | enableLogging => "enable_logging"

/-- The setting of a written name. -/
def ofName? (s : String) : Option Setting := all.find? fun k => k.name = s

end Setting

/-- The values of the settings. -/
structure Settings where
  /-- Whether impure member reads are tolerated where no results are kept. -/
  allowImpure : Value
  /-- The size of the default worker pool; the number of processors if it counts as false. -/
  maxWorkers : Value
  /-- How many passes a reduction may take. -/
  maxReductionPasses : Value
  /-- How deep calls may nest while a pure function runs; no demand if it counts as false. -/
  recursionLimit : Value
  enableLogging : Value

namespace Settings

/-- The settings to begin with. -/
def default : Settings := ⟨.bool false, .none, .int 32, .int 10000, .bool false⟩

/-- The settings with one changed. -/
def set (s : Settings) (k : Setting) (v : Value) : Settings :=
  match k with
  | .allowImpure => { s with allowImpure := v }
  | .maxWorkers => { s with maxWorkers := v }
  | .maxReductionPasses => { s with maxReductionPasses := v }
  | .recursionLimit => { s with recursionLimit := v }
  | .enableLogging => { s with enableLogging := v }

/-- The value of a setting. -/
def get (s : Settings) : Setting → Value
  | .allowImpure => s.allowImpure
  | .maxWorkers => s.maxWorkers
  | .maxReductionPasses => s.maxReductionPasses
  | .recursionLimit => s.recursionLimit
  | .enableLogging => s.enableLogging

/-- After a setting is changed it has the new value, and the others keep theirs. -/
theorem get_set (s : Settings) (k l : Setting) (v : Value) :
    (s.set k v).get l = if l = k then v else s.get l := by
  cases k <;> cases l <;> rfl

/-- The settings of several names, all of which have to be known. -/
def resolve : List (String × Value) → Except Fault (List (Setting × Value))
  | [] => .ok []
  | (name, v) :: rest =>
    match Setting.ofName? name with
    | none => .error (.unknownSetting name)
    | some k => (resolve rest).map fun known => (k, v) :: known

/-- The settings with several changed, one after the other. -/
def setAll (s : Settings) (changes : List (Setting × Value)) : Settings :=
  changes.foldl (fun s c => s.set c.1 c.2) s

/-- The settings with several changed by name. -/
def configure (s : Settings) (changes : List (String × Value)) : Except Fault Settings :=
  (resolve changes).map s.setAll

/-- The size of the default worker pool, where it is set. -/
def chosenWorkers? (s : Settings) : Option Value :=
  if s.maxWorkers.truthy then some s.maxWorkers else none

/-- The size of the default worker pool on a machine of so many processors. -/
def resolvedWorkers (s : Settings) (processors : Nat) : Value :=
  s.chosenWorkers?.getD (.int (max 1 processors : Nat))

/-- The number of times that a value can count. -/
def repetitions : Value → Except Fault Int
  | .int v => .ok v
  | .bool b => .ok (bitOf b)
  | .scalar (.int _ w) => .ok w.toInt
  | _ => .error .wrongKind

/-- A depth that calls may nest to without being asked for. -/
def grantedDepth : Int := 10000

/-- Depths from here on cannot be asked for. -/
def depthBound : Int := 2 ^ (31 : Nat)

/-- Asks for a depth of so many calls. -/
def askDepth (v : Int) : Except Fault Unit :=
  if depthBound ≤ v then .error .tooLarge else .ok ()

/-- Asks for the nesting of calls that the settings demand. A value that is no whole number can be
compared with the depth granted anyway, but not be asked for. -/
def askNesting (s : Settings) : Except Fault Unit :=
  if s.recursionLimit.truthy then
    match s.recursionLimit with
    | .bool _ | .scalar (.bool _) => .ok ()
    | .int v => askDepth v
    | .scalar (.int _ w) => askDepth w.toInt
    | limit => do
      if ← Comparison.gt.onPlain limit (.int grantedDepth) then throw .wrongKind
  else .ok ()

end Settings

end Knot
