import Knot.Eval

/-!
# Reached machines

A machine leads to another by calls, of whatever functions, and by steps of other kinds in between
(`Machine.LeadsTo`). What calls and these steps keep holds of every machine that is reached
(`Machine.LeadsTo.keeps`), so an invariant is proved for one call and for one other step.
-/

namespace Knot.Machine

variable [Host] {R S : Machine → Machine → Prop} {m m' m'' : Machine}

/-- A machine leads to another by calls and by other steps. A call that runs out of fuel stands for one that is
still going on. -/
inductive LeadsTo (R : Machine → Machine → Prop) (m : Machine) : Machine → Prop
  | start : LeadsTo R m m
  | call {m' : Machine} (before : LeadsTo R m m') (fuel : Nat) (f : Boxed) (args : List Boxed) :
      LeadsTo R m (Run.call fuel f args m').2
  | other {m' m'' : Machine} (before : LeadsTo R m m') (step : R m' m'') : LeadsTo R m m''

namespace LeadsTo

theorem keeps {I : Machine → Prop} (h : m.LeadsTo R m') (holds : I m)
    (call : ∀ m fuel f args, I m → I (Run.call fuel f args m).2)
    (other : ∀ m m', R m m' → I m → I m') : I m' := by
  induction h with
  | start => exact holds
  | call _ fuel f args ih => exact call _ fuel f args ih
  | other _ step ih => exact other _ _ step ih

theorem trans (first : m.LeadsTo R m') (second : m'.LeadsTo R m'') : m.LeadsTo R m'' :=
  second.keeps first (fun _ fuel f args before => before.call fuel f args)
    fun _ _ step before => before.other step

/-- More steps may be allowed for. -/
theorem mono (h : m.LeadsTo R m') (more : ∀ m m', R m m' → S m m') : m.LeadsTo S m' :=
  h.keeps .start (fun _ fuel f args before => before.call fuel f args)
    fun _ _ step before => before.other (more _ _ step)

/-- Calls of a function, of its result, and so on, are calls. -/
theorem callChain (h : m.LeadsTo R m') (fuel : Nat) (f : Boxed) (chain : List (List Boxed)) :
    m.LeadsTo R (Run.callChain fuel f chain m').2 := by
  induction chain generalizing f m' with
  | nil => exact h
  | cons args chain ih =>
    have called := h.call fuel f args
    show m.LeadsTo R (Run.bind (Run.call fuel f args) _ m').2
    unfold Run.bind
    generalize Run.call fuel f args m' = ended at called ⊢
    obtain ⟨o, m₁⟩ := ended
    cases o with
    | value w => exact ih called w
    | fault | jump | exhausted => exact called

end LeadsTo

end Knot.Machine
