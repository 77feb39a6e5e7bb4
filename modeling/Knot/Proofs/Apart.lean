import Knot.Proofs.Evaluation
import Knot.Proofs.Hosts

/-!
# Runs apart from frames and functions

Most steps of an evaluation neither look at the frames and the table of functions nor change them
(`Run.Apart`): what they do is about boxes, caches, pools and settings. So two machines that differ in
frames and functions only are no different to them. A host is apart if each of its functions is such a run, or
makes a function that waits for more arguments (`Host.IsApart`); the listed host is.
-/

namespace Knot

namespace Run

/-- The run neither looks at the frames and the functions nor changes them. -/
def Apart {α : Type} (x : Run α) : Prop :=
  ∀ m frames functions, x { m with frames := frames, functions := functions } =
    ((x m).1, { (x m).2 with frames := frames, functions := functions })

namespace Apart

variable {α β : Type}

theorem frames {x : Run α} (h : x.Apart) (m : Machine) : (x m).2.frames = m.frames :=
  congrArg (fun r : Outcome α × Machine => r.2.frames) (h m m.frames m.functions)

theorem functions {x : Run α} (h : x.Apart) (m : Machine) : (x m).2.functions = m.functions :=
  congrArg (fun r : Outcome α × Machine => r.2.functions) (h m m.frames m.functions)

theorem of_pure (a : α) : Apart (pure a) := fun _ _ _ => rfl

theorem fail (f : Fault) : Apart (Run.fail f : Run α) := fun _ _ _ => rfl

theorem bind {x : Run α} {f : α → Run β} (first : x.Apart) (second : ∀ a, (f a).Apart) :
    Apart (x >>= f) := by
  intro m frames functions
  show Run.bind x f _ = ((Run.bind x f m).1, { (Run.bind x f m).2 with frames, functions })
  unfold Run.bind
  rw [first m frames functions]
  rcases x m with ⟨outcome, after⟩
  cases outcome with
  | value a => exact second a after frames functions
  | fault | jump | exhausted => rfl

theorem ite {c : Prop} [Decidable c] {x y : Run α} (left : x.Apart) (right : y.Apart) :
    Apart (if c then x else y) := by
  split
  · exact left
  · exact right

theorem read {f : Machine → α}
    (same : ∀ m frames functions, f { m with frames := frames, functions := functions } = f m) :
    Apart (Run.read f) := by
  intro m frames functions
  show (Outcome.value (f _), _) = _
  rw [same]
  rfl

theorem box (v : Value) : Apart (Run.box v) := fun _ _ _ => rfl

theorem truth (b : Bool) : Apart (Run.truth b) := box _

theorem lift (x : Except Fault α) : Apart (Run.lift x) := by
  intro m frames functions
  cases x <;> rfl

theorem boxResult (x : Except Fault Value) : Apart (Run.boxResult x) := by
  intro m frames functions
  cases x <;> rfl

theorem coerce (t : StaticType) (v : Boxed) : Apart (Run.coerce t v) :=
  .ite (of_pure v) (boxResult _)

theorem coerceAll (types : List StaticType) (vs : List Boxed) : Apart (Run.coerceAll types vs) := by
  induction types generalizing vs with
  | nil => exact of_pure []
  | cons t types ih =>
    cases vs with
    | nil => exact of_pure []
    | cons v vs => exact (coerce t v).bind fun _ => (ih vs).bind fun _ => of_pure _

theorem applyUnary (op : UnaryOp) (source target : StaticType) (v : Boxed) :
    Apart (Run.applyUnary op source target v) := .ite (of_pure v) (boxResult _)

theorem applyBinary (op : BinaryOp) (a b : Boxed) : Apart (Run.applyBinary op a b) := boxResult _

theorem onCache (c : CacheId) (f : MemoCache → Except Fault (α × MemoCache)) :
    Apart (Run.onCache c f) := by
  intro m frames functions
  have same : { m with frames := frames, functions := functions }.cache c = m.cache c := rfl
  unfold Run.onCache
  rw [same]
  cases f (m.cache c) <;> rfl

theorem tryPool (p : PoolId) (f : WorkerPool → Except Fault WorkerPool) :
    Apart (Run.tryPool p f) := by
  intro m frames functions
  have same : { m with frames := frames, functions := functions }.pool p = m.pool p := rfl
  unfold Run.tryPool
  rw [same]
  cases f (m.pool p) <;> rfl

theorem onPool (p : PoolId) (f : WorkerPool → WorkerPool) : Apart (Run.onPool p f) :=
  fun _ _ _ => rfl

theorem reserve (p : PoolId) (slots : Value) : Apart (Run.reserve p slots) := by
  intro m frames functions
  have same : { m with frames := frames, functions := functions }.pool p = m.pool p := rfl
  unfold Run.reserve
  rw [same]
  rcases (m.pool p).reserve? slots with _ | ⟨_ | _⟩ <;> rfl

theorem resolvePool (pool : Option PoolId) : Apart (Run.resolvePool pool) := by
  intro m frames functions
  cases pool with
  | some p => rfl
  | none =>
    unfold Run.resolvePool Run.step Machine.ensureDefaultPool
    cases known : m.defaultPool with
    | some p => simp only [known]
    | none => simp only [known, Machine.newPool, Machine.poolSize, Machine.logged, Machine.pool]

theorem askNesting : Apart Run.askNesting := fun m frames functions =>
  lift m.settings.askNesting m frames functions

theorem reportAll (args : List Boxed) : Apart (HostAction.reportAll args) :=
  .ite (fun _ _ _ => rfl) (fail _)

end Apart

/-- A run that is apart from frames and functions, or makes a function that waits for more arguments. -/
def ApartOrCollects (x : Run Boxed) : Prop :=
  x.Apart ∨ ∃ collected n, x = Run.newFunction (.collector collected n)

/-- A function that waits for more arguments does no more than that when it is called. -/
theorem ApartOrCollects.collector (collected : List Boxed) (missing : Nat) (args : List Boxed) :
    ApartOrCollects (args |> HostAction.onOne fun x => HostAction.collect (collected ++ [x]) missing) :=
  HostAction.collector_of (.inl (.fail _)) (fun v => .inl (.box v))
    (fun collected n => .inr ⟨collected, n, rfl⟩) collected missing args

end Run

/-! ## Hosts -/

/-- A host whose functions are apart from frames and functions, or make one that waits for more arguments. -/
class Host.IsApart [Host] : Prop where
  run : ∀ f args, (Host.run f args).ApartOrCollects

instance Host.listed_isApart : Host.IsApart where
  run f args := f.action.run_of (fun v => .inl (.of_pure v)) (fun fault _ => .inl (.fail fault))
    (fun x _ => .inl (.boxResult x))
    (fun args v => .inl ((Run.Apart.reportAll args).bind fun _ => .of_pure v))
    (fun collected n => .inr ⟨collected, n, rfl⟩) args

end Knot
