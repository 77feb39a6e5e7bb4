import Knot.Proofs.Jumps.Faults

/-!
# Listed host functions

What a listed function does is one of five things: it returns a value that there is, it fails, it brings a
result in a new box, it reports to the journal, or it makes a function that waits for more arguments. So a
property of such runs is one of all listed functions (`HostAction.run_of`), and a law of hosts that asks for
it holds of the listed host.
-/

namespace Knot.HostAction

variable {J : Run Boxed → Prop}

theorem onOne_of (failed : J (Run.fail .wrongKind)) {f : Boxed → Run Boxed} (one : ∀ x, J (f x))
    (args : List Boxed) : J (onOne f args) := by
  unfold onOne
  split
  · exact one _
  · exact failed

theorem collect_of (boxed : ∀ v, J (Run.box v))
    (waiting : ∀ collected n, J (Run.newFunction (.collector collected n)))
    (collected : List Boxed) (missing : Nat) : J (collect collected missing) := by
  cases missing with
  | zero => exact boxed _
  | succ n => exact waiting collected (n + 1)

/-- What a function does that waits for more arguments. -/
theorem collector_of (failed : J (Run.fail .wrongKind)) (boxed : ∀ v, J (Run.box v))
    (waiting : ∀ collected n, J (Run.newFunction (.collector collected n)))
    (collected : List Boxed) (missing : Nat) (args : List Boxed) :
    J (args |> onOne fun x => collect (collected ++ [x]) missing) :=
  onOne_of failed (fun _ => collect_of boxed waiting _ _) args

/-- What holds of the things that a listed function does holds of each listed function. -/
theorem run_of (returned : ∀ v : Boxed, J (pure v))
    (failed : ∀ f, (∀ u, f ≠ .unsupported u) → J (Run.fail f))
    (result : ∀ x, Supported x → J (Run.boxResult x))
    (reported : ∀ args v, J (do reportAll args; pure v))
    (waiting : ∀ collected n, J (Run.newFunction (.collector collected n)))
    (action : HostAction) (args : List Boxed) : J (action.run args) := by
  have onOne {f : Boxed → Run Boxed} (one : ∀ x, J (f x)) : J (onOne f args) :=
    onOne_of (failed _ (by rintro u ⟨⟩)) one args
  have collect := collect_of (fun v => result (.ok v) (supported_ok v)) waiting
  cases action with
  | report => exact reported args _
  | tap => exact onOne fun x => reported [x] x
  | sum => exact result _ (supported_map.2 (supported_total args))
  | parity => exact onOne fun x => result _ (by simp)
  | integer => exact onOne fun x => result _ (by simp)
  | sqrt => exact onOne fun x => result _ (supported_squareRoot x.value)
  | half => exact onOne fun x => result _ (supported_half x.value)
  | square => exact onOne fun x => result _ (supported_square x.value)
  | double => exact onOne fun x => result _ (supported_apply .add x.value x.value)
  | fail => exact failed _ (by rintro u ⟨⟩)
  | notCallable => exact failed _ (by rintro u ⟨⟩)
  | big => exact returned _
  | text => exact returned _
  | absent => exact returned _
  | verum =>
    -- it refuses any argument
    rw [run]
    split
    · exact result (.ok (.bool true)) (supported_ok _)
    · exact failed _ (by rintro u ⟨⟩)
  | identity => exact onOne fun x => returned x
  | pack => exact collect args 0
  | curriedPack n => exact onOne fun x => collect [x] (n - 1)

end Knot.HostAction
