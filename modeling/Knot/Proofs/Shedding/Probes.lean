import Knot.Proofs.Evaluation
import Knot.Proofs.Shedding.Relation

/-!
# Comparing runs

A conversion to the static type that its operand has already is idle, unless it meets a value that is
not of that type: then it is a check or a change that the evaluation would lose with it. Whether this
happens in a run is found out by a probe (`Probe`): the run with such conversions replaced by a halt.
A probe halts (`Probe.Halts`) or settles on one outcome whatever it would halt with
(`Probe.Settles`).

`Probe.Sim` compares two probes on machines that differ in the bodies of closures only, where the one
body sheds nodes of the other. If the fuller of the two does not halt, the first one settles, and unless
it runs out of fuel, the second one settles on the same outcome. The judgement passes through every way
to compose runs, by way of `Run.onward`.
-/

namespace Knot

/-! ## Halting at a conversion -/

/-- Whether a conversion that looks idle would change or check a value. -/
def UnaryOp.isStale (op : UnaryOp) (source target : StaticType) (v : Boxed) : Bool :=
  op.isConversion && (source = target && !target.keeps v.value)

namespace Run

/-- Unary operators as they are, except that a stale conversion halts: as out of fuel, on the machine
given. -/
def halting (halt : Option Machine) : Applier := fun op source target v =>
  match halt with
  | none => applyUnary op source target v
  | some h => if op.isStale source target v then fun _ => (.exhausted, h)
    else applyUnary op source target v

theorem halting_of_stale {op : UnaryOp} {source target : StaticType} {v : Boxed}
    (stale : op.isStale source target v = true) (h : Machine) :
    halting (some h) op source target v = fun _ => (.exhausted, h) := if_pos stale

theorem halting_of_not_stale {op : UnaryOp} {source target : StaticType} {v : Boxed}
    (fine : op.isStale source target v = false) (halt : Option Machine) :
    halting halt op source target v = applyUnary op source target v := by
  cases halt with
  | none => rfl
  | some h => exact if_neg (by rw [fine]; exact Bool.false_ne_true)

end Run

/-! ## Probes -/

/-- A run that halts on a machine, if one is given. -/
abbrev Probe (α : Type) := Option Machine → Run α

namespace Probe

variable {α : Type}

/-- On the machine the probe halts. -/
def Halts (x : Probe α) (m : Machine) : Prop := ∀ h, x (some h) m = (.exhausted, h)

/-- On the machine the probe ends in one way, whatever it would halt with. -/
def Settles (x : Probe α) (m : Machine) (r : Outcome α × Machine) : Prop := ∀ halt, x halt m = r

end Probe

/-! ## Directions -/

/-- Whether the first of two things sheds nodes and the second is what is left, or the other way
round. -/
inductive Direction where
  | shedding | restoring

namespace Direction

/-- The first of two things in one direction, and the second in the other. -/
def pick {α : Type} (d : Direction) (x y : α) : α :=
  match d with
  | shedding => x
  | restoring => y

/-- The fuller of two trees sheds nodes, and the other one is left. -/
def Sheds (d : Direction) (e f : Expr) : Prop :=
  match d with
  | shedding => Knot.Sheds e f
  | restoring => Knot.Sheds f e

theorem sheds_refl (d : Direction) (e : Expr) : d.Sheds e e := by
  cases d <;> exact Knot.Sheds.refl e

end Direction

/-! ## Machines that are alike -/

/-- Two functions that are the same but for nodes shed in the body of a closure. -/
inductive Callable.Alike (d : Direction) : Callable → Callable → Prop
  | same (c) : Alike d c c
  | closure {ps body body' frame context} (bodies : d.Sheds body body') :
      Alike d (.closure ps body frame context) (.closure ps body' frame context)

/-- Two tables of functions that are alike, one by one. -/
structure FunctionsAlike (d : Direction) (functions functions' : Array Callable) : Prop where
  size : functions'.size = functions.size
  at_place : ∀ (id : Nat) (c c' : Callable), functions[id]? = some c → functions'[id]? = some c' →
    c.Alike d c'

/-- Two machines that are the same but for nodes shed in the bodies of closures. -/
inductive Machine.Alike (d : Direction) (m : Machine) : Machine → Prop
  | mk {functions'} (functions : FunctionsAlike d m.functions functions') :
      Alike d m { m with functions := functions' }

theorem Machine.Alike.refl (d : Direction) (m : Machine) : m.Alike d m := by
  have functions : FunctionsAlike d m.functions m.functions := by
    refine ⟨rfl, fun id c c' found found' => ?_⟩
    rw [found] at found'
    cases found'
    exact .same c
  exact .mk functions

namespace Probe

variable {α β : Type} {d : Direction}

/-- The comparison of two probes, each on a machine. -/
def Meets (d : Direction) (x y : Probe α) (m m' : Machine) : Prop :=
  (d.pick x y).Halts (d.pick m m') ∨
    ∃ o after, x.Settles m (o, after) ∧
      (o = .exhausted ∨ ∃ after', y.Settles m' (o, after') ∧ after.Alike d after')

/-- The comparison of two probes on machines that are alike. -/
def Sim (d : Direction) (x y : Probe α) : Prop := ∀ m m', m.Alike d m' → Meets d x y m m'

/-- The comparison is about what the probes do on the two machines only. -/
theorem Meets.of_eq {x x' y y' : Probe α} {m m' n n' : Machine} (h : Meets d x y m m')
    (first : ∀ halt, x' halt n = x halt m) (second : ∀ halt, y' halt n' = y halt m') :
    Meets d x' y' n n' := by
  rcases h with halts | ⟨o, after, settled, rest⟩
  · left
    cases d with
    | shedding => exact fun h => (first (some h)).trans (halts h)
    | restoring => exact fun h => (second (some h)).trans (halts h)
  · right
    refine ⟨o, after, fun halt => (first halt).trans (settled halt), ?_⟩
    rcases rest with out | ⟨after', settled', alike⟩
    · exact .inl out
    · exact .inr ⟨after', fun halt => (second halt).trans (settled' halt), alike⟩

namespace Sim

/-! ## Composed runs -/

/-- Two runs that are followed by others. -/
theorem onward {x y : Probe α} {f g : Option Machine → Outcome α → Run β} (first : Sim d x y)
    (second : ∀ o, o ≠ .exhausted → Sim d (fun halt => f halt o) fun halt => g halt o) :
    Sim d (fun halt => (x halt).onward (f halt)) fun halt => (y halt).onward (g halt) := by
  intro m m' alike
  rcases first m m' alike with halts | ⟨o, after, settled, rest⟩
  · left
    cases d <;> exact fun h => Run.onward_of_exhausted (halts h)
  -- a probe that has run out does so whatever follows; otherwise both go on with one outcome
  · by_cases out : o = .exhausted
    · right
      subst out
      exact ⟨.exhausted, after, fun halt => Run.onward_of_exhausted (settled halt), .inl rfl⟩
    · obtain ⟨after', settled', alike'⟩ := rest.resolve_left out
      exact (second o out after after' alike').of_eq
        (fun halt => Run.onward_of_ended (settled halt) out)
        (fun halt => Run.onward_of_ended (settled' halt) out)

/-- A run out of fuel compares with any other. -/
theorem exhausted (y : Probe α) : Sim d (fun _ => Run.exhausted) y := fun _ _ _ =>
  .inr ⟨.exhausted, _, fun _ => rfl, .inl rfl⟩

/-- An outcome at once. -/
theorem done (o : Outcome α) : Sim d (fun _ => Run.done o) fun _ => Run.done o := fun _ _ alike =>
  .inr ⟨o, _, fun _ => rfl, .inr ⟨_, fun _ => rfl, alike⟩⟩

theorem pure (a : α) : Sim d (fun _ => Pure.pure a) fun _ => Pure.pure a := done (.value a)

theorem fail (f : Fault) : Sim (α := α) d (fun _ => Run.fail f) fun _ => Run.fail f := done (.fault f)

theorem jump (target : Nat) (v : Boxed) :
    Sim (α := α) d (fun _ => Run.jump target v) fun _ => Run.jump target v := done (.jump target v)

/-- One run after another. -/
theorem bind {x y : Probe α} {f g : Option Machine → α → Run β} (first : Sim d x y)
    (second : ∀ a, Sim d (fun halt => f halt a) fun halt => g halt a) :
    Sim d (fun halt => x halt >>= f halt) fun halt => y halt >>= g halt := by
  simp only [Run.bind_eq_onward]
  refine onward first fun o _ => ?_
  cases o with
  | value a => exact second a
  | fault e => exact fail e
  | jump target v => exact jump target v
  | exhausted => exact exhausted _

/-- A run that lets no jump out. -/
theorem sealed {x y : Probe Boxed} (h : Sim d x y) :
    Sim d (fun halt => (x halt).sealed) fun halt => (y halt).sealed := by
  simp only [Run.sealed_eq_onward]
  refine onward h fun o _ => ?_
  cases o with
  | jump target v => exact fail _
  | _ => exact done _

end Sim

end Probe

end Knot
