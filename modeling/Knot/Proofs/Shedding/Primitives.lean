import Knot.Proofs.Apart
import Knot.Proofs.Shedding.Probes

/-!
# Runs that compare with themselves

Most runs do not look at the table of functions and leave it as it is (`Run.Ignores`). Such a run
compares with itself on machines that are alike (`Probe.Sim.of_ignores`), and so do the few that add a
function, or read of a function what shedding nodes leaves the same.
-/

namespace Knot

/-! ## Runs apart from functions -/

/-- The run neither looks at the table of functions nor changes it. -/
def Run.Ignores {α : Type} (x : Run α) : Prop :=
  ∀ m functions, x { m with functions := functions } =
    ((x m).1, { (x m).2 with functions := functions })

namespace Run.Ignores

variable {α : Type}

theorem of_apart {x : Run α} (apart : x.Apart) : x.Ignores := by
  intro m functions
  have same : (x m).2.frames = m.frames := apart.frames m
  refine (apart m m.frames functions).trans ?_
  rw [← same]

theorem lookup (frame : FrameId) (p : Parameter) : Ignores (Run.lookup frame p) := by
  intro m functions
  unfold Run.lookup
  cases m.frames.lookup frame p.uid <;> rfl

theorem assign (frame : FrameId) (p : Parameter) (v : Boxed) : Ignores (Run.assign frame p v) := by
  intro m functions
  unfold Run.assign
  cases m.frames.assign frame p.uid v <;> rfl

theorem blockFrame (frame : FrameId) (locals : List Parameter) :
    Ignores (Run.blockFrame frame locals) := by
  unfold Run.blockFrame
  split <;> exact fun _ _ => rfl

end Run.Ignores

namespace Probe.Sim

variable {α β : Type} {d : Direction}

/-- A run apart from functions compares with itself. -/
theorem of_ignores {x : Run α} (ignores : x.Ignores) : Sim d (fun _ => x) fun _ => x := by
  rintro m _ ⟨functions⟩
  -- the run leaves the table that it finds
  have kept : (x m).2 = { (x m).2 with functions := m.functions } :=
    congrArg Prod.snd (ignores m m.functions)
  right
  refine ⟨(x m).1, (x m).2, fun _ => rfl, .inr ⟨_, fun _ => ignores m _, ?_⟩⟩
  generalize (x m).2 = after at kept ⊢
  rw [kept]
  exact .mk functions

theorem of_apart {x : Run α} (apart : x.Apart) : Sim d (fun _ => x) fun _ => x :=
  of_ignores (.of_apart apart)

/-! ## Functions -/

/-- A function that is looked up is alike on both machines. -/
theorem callable_bind {id : Nat} {f g : Option Machine → Callable → Run β}
    (second : ∀ c c', c.Alike d c' → Sim d (fun halt => f halt c) fun halt => g halt c') :
    Sim d (fun halt => Run.callable id >>= f halt) fun halt => Run.callable id >>= g halt := by
  intro m m' alike
  have whole := alike
  obtain ⟨functions⟩ := alike
  rename_i table
  cases found : m.functions[id]? with
  | none =>
    have inside : table.size ≤ id := by
      rw [functions.size]
      exact Array.getElem?_eq_none_iff.1 found
    have absent : table[id]? = none := Array.getElem?_eq_none inside
    exact (fail .wrongKind m _ whole).of_eq (fun halt => Run.bind_of_fault (Run.callable_of_none found))
      fun halt => Run.bind_of_fault (Run.callable_of_none absent)
  | some c =>
    have inside : id < table.size := by
      rw [functions.size]
      exact (Array.getElem?_eq_some_iff.1 found).1
    have found' : table[id]? = some table[id] := Array.getElem?_eq_getElem inside
    exact (second c table[id] (functions.at_place id c _ found found') m _ whole).of_eq
      (fun halt => Run.bind_of_value (Run.callable_of_some found))
      fun halt => Run.bind_of_value (Run.callable_of_some found')

/-- A function that is added goes to the same place. -/
theorem addFunction {c c' : Callable} (alike : c.Alike d c') :
    Sim d (fun _ => Run.addFunction c) fun _ => Run.addFunction c' := by
  rintro m _ ⟨functions⟩
  rename_i table
  right
  refine ⟨.value m.functions.size, { m with functions := m.functions.push c }, fun _ => rfl, .inr
    ⟨{ m with functions := table.push c' }, fun _ => ?_, ?_⟩⟩
  · show (Outcome.value table.size, _) = _
    rw [functions.size]
  · have pushed : FunctionsAlike d (m.functions.push c) (table.push c') := by
      refine ⟨by simp [functions.size], fun id e e' found found' => ?_⟩
      rw [Array.getElem?_push] at found found'
      rw [functions.size] at found'
      by_cases last : id = m.functions.size
      · rw [if_pos last] at found found'
        cases found
        cases found'
        exact alike
      · rw [if_neg last] at found found'
        exact functions.at_place id e e' found found'
    exact .mk pushed

theorem newFunction {c c' : Callable} (alike : c.Alike d c') :
    Sim d (fun _ => Run.newFunction c) fun _ => Run.newFunction c' :=
  bind (addFunction alike) fun _ => pure _

/-- A closure over a body that sheds nodes. -/
theorem closure {context : Context} {frame : FrameId} {ps : List Expr} {body body' : Expr}
    (bodies : d.Sheds body body') :
    Sim d (fun _ => Run.closure context frame ps body) fun _ =>
      Run.closure context frame ps body' := by
  unfold Run.closure
  split
  · exact newFunction (.closure bodies)
  · exact fail _

/-- What shedding leaves the same of a function can be told. -/
theorem functionMember (owner : Value) (name : String) :
    Sim d (fun _ => Run.functionMember owner name) fun _ => Run.functionMember owner name := by
  unfold Run.functionMember
  split
  · refine callable_bind fun c c' alike => ?_
    have same : Run.functionName c = Run.functionName c' := by
      cases alike <;> rfl
    rw [same]
    exact of_ignores fun _ _ => rfl
  · refine callable_bind fun c c' alike => ?_
    cases alike with
    | same c =>
      cases c with
      | wrapper inner => exact pure inner
      | _ => exact fail _
    | closure => exact fail _
  · exact fail _

theorem member (owner : Boxed) (name : String) :
    Sim d (fun _ => Run.member owner name) fun _ => Run.member owner name := by
  unfold Run.member
  refine bind (of_apart (.read fun _ _ _ => rfl)) fun given => ?_
  split
  · exact pure _
  · split
    · exact pure _
    · exact of_ignores fun _ _ => rfl
    · exact of_ignores fun _ _ => rfl
    · exact fail _
    · exact functionMember _ _

/-- A run of a host function compares with itself. -/
theorem of_apart_or_collects {x : Run Boxed} (h : x.ApartOrCollects) :
    Sim d (fun _ => x) fun _ => x := by
  rcases h with apart | ⟨collected, n, rfl⟩
  · exact of_apart apart
  · exact newFunction (.same _)

theorem wrapResult (f : PureFunction) (v : Boxed) :
    Sim d (fun _ => Run.wrapResult f v) fun _ => Run.wrapResult f v := by
  unfold Run.wrapResult
  split
  · split
    · exact bind (addFunction (.same _)) fun _ => pure _
    · exact pure _
  · exact pure _

/-! ## Caches -/

/-- The answer of a cache, or what is computed. -/
theorem lookupOrCompute {c : CacheId} {function argument : Boxed} {x y : Probe Boxed}
    (compute : Sim d x y) :
    Sim d (fun halt => Run.lookupOrCompute c function argument (x halt)) fun halt =>
      Run.lookupOrCompute c function argument (y halt) := by
  unfold Run.lookupOrCompute
  refine bind (of_apart (.onCache _ _)) fun begun => ?_
  cases begun with
  | bypassed => exact compute
  | hit result => exact pure result
  | pending ticket => exact bind compute fun _ => of_apart (.onCache _ _)

/-! ## Splits -/

/-- Two runs after which slots are given back. -/
theorem releasing {x y : Probe α} {p : PoolId} {slots : Value} (h : Sim d x y) :
    Sim d (fun halt => Run.releasing p slots (x halt)) fun halt => Run.releasing p slots (y halt) := by
  simp only [Run.releasing_eq_onward]
  exact onward h fun o _ => bind (of_apart (.tryPool _ _)) fun _ => done o

/-- Two runs that both take place. -/
theorem both {x y : Probe α} {x' y' : Probe β} {rightFirst : Bool} (left : Sim d x y)
    (right : Sim d x' y') :
    Sim d (fun halt => Run.both rightFirst (x halt) (x' halt)) fun halt =>
      Run.both rightFirst (y halt) (y' halt) := by
  simp only [Run.both_eq_onward]
  cases rightFirst with
  | true => exact onward right fun b _ => onward left fun a _ => done _
  | false => exact onward left fun a _ => onward right fun b _ => done _

/-- An operator on two operands that may be evaluated side by side. -/
theorem splitBinary {op : BinaryOp} {x y x' y' : Probe Boxed} {pool : Option PoolId}
    (left : Sim d x y) (right : Sim d x' y') :
    Sim d (fun halt => Run.splitBinary op (x halt) (x' halt) pool) fun halt =>
      Run.splitBinary op (y halt) (y' halt) pool := by
  unfold Run.splitBinary
  split
  · refine bind ?_ fun ab => of_apart (.boxResult _)
    unfold Run.operands
    refine bind (of_apart (.resolvePool pool)) fun p => ?_
    refine bind (of_apart (.reserve p _)) fun reserved => ?_
    split
    · unfold Run.split
      refine bind (of_apart (.read fun _ _ _ => rfl)) fun rightFirst => ?_
      refine bind (of_ignores fun _ _ => rfl) fun _ => releasing ?_
      exact bind (of_apart (.tryPool _ _)) fun _ => both left right
    · unfold Run.sequential
      refine bind (of_ignores fun _ _ => rfl) fun _ => ?_
      exact bind left fun a => bind right fun b => pure (a, b)
  · exact fail _

end Probe.Sim

end Knot
