import Knot.Proofs.Curried.Calls

/-!
# One argument after another

`CurriedDefinition.chain` is what a function answers that is applied to one argument, its result to the next
one, and so on. A pure function coerces each argument first, to the domain of the variable that awaits it
(`CurriedDefinition.onCoerced`). Since an application that awaits more than one argument always answers, it
does not matter when the arguments are coerced: the chain with coercions is the chain on the coerced
arguments, or the first coercion that fails (`CurriedDefinition.chain_onCoerced`).

A run that calls a function and its results in turn follows the chain, if each call does
(`Store.runs_chain`).
-/

namespace Knot

/-! ## Answers in a row -/

namespace Partial

theorem andThen_congr {x : Partial} {f g : Value → Partial} (same : ∀ v, x = some (.ok v) → f v = g v) :
    x.andThen f = x.andThen g := by
  rcases x with - | (e | v)
  · rfl
  · rfl
  · exact same v rfl

theorem andThen_pure (x : Partial) : x.andThen value = x := by
  rcases x with - | (e | v) <;> rfl

/-- What a function answers that is applied to one argument after another. -/
def chain (apply : Value → Value → Partial) : Value → List Value → Partial
  | g, [] => .value g
  | g, v :: vs => (apply g v).andThen fun h => chain apply h vs

theorem chain_settles {apply : Nat → Value → Value → Partial} {all : Value → Value → Partial}
    (settles : ∀ g v, Settles (fun n => apply n g v) (all g v)) (vs : List Value) :
    ∀ g, Settles (fun n => chain (apply n) g vs) (chain all g vs) := by
  induction vs with
  | nil => exact fun g => .const _
  | cons v vs ih => exact fun g => (settles g v).andThen fun h _ => ih h

/-- Approximations that settle do so also when they are taken later. -/
theorem Settles.shift {s : Nat → Partial} {x : Partial} (h : Settles s x) {f : Nat → Nat}
    (grows : ∀ n, n ≤ f n + 2) : Settles (fun n => s (f n)) x := by
  obtain ⟨n, settled⟩ := h
  exact ⟨n + 2, fun k deep => settled _ (by have := grows k; omega)⟩

end Partial

namespace CurriedDefinition

variable {d : CurriedDefinition}

/-! ## Coerced arguments -/

/-- The variable that a function awaits an argument for. -/
def awaits? (d : CurriedDefinition) : Value → Option WholeVariable
  | .list args => d.inputs[args.length]?
  | _ => none

/-- An application to an argument that is yet to be coerced. -/
def onCoerced (d : CurriedDefinition) (apply : Value → Value → Partial) (g v : Value) : Partial :=
  match d.awaits? g with
  | some x =>
    match x.domain.coerce v with
    | .ok a => apply g a
    | .error e => some (.error e)
  | none => apply g v

/-- An application coerces its argument to the domain of the variable that awaits it. -/
theorem onCoerced_eq (apply : Value → Value → Partial) {args : List Value} {x : WholeVariable}
    {rest : List WholeVariable} (takes : Takes d.inputs args (x :: rest)) (v : Value) :
    d.onCoerced apply (.list args) v =
      match x.domain.coerce v with
      | .ok a => apply (.list args) a
      | .error e => some (.error e) := by
  obtain ⟨taken, split, counted⟩ := takes.split
  have awaits : d.awaits? (.list args) = some x := by
    unfold awaits?
    simp [split, ← counted]
  unfold onCoerced
  rw [awaits]

theorem onCoerced_below {apply more : Value → Value → Partial}
    (below : ∀ g v, (apply g v).Below (more g v)) (g v : Value) :
    (d.onCoerced apply g v).Below (d.onCoerced more g v) := by
  unfold onCoerced
  split
  · split
    · exact below _ _
    · exact .refl _
  · exact below _ _

theorem onCoerced_settles {apply : Nat → Value → Value → Partial} {all : Value → Value → Partial}
    (settles : ∀ g v, Partial.Settles (fun n => apply n g v) (all g v)) (g v : Value) :
    Partial.Settles (fun n => d.onCoerced (apply n) g v) (d.onCoerced all g v) := by
  unfold onCoerced
  split
  · split
    · exact settles _ _
    · exact .const _
  · exact settles _ _

/-- What a call of a pure function answers with some fuel: nothing without fuel, and else what the wrapped
function answers on the coerced argument. -/
def callApprox (d : CurriedDefinition) : Nat → Value → Value → Partial
  | 0, _, _ => none
  | n + 1, g, v => d.onCoerced (d.approx (n - 1)) g v

theorem callApprox_below (n : Nat) (g v : Value) :
    (d.callApprox n g v).Below (d.onCoerced d.limit g v) := by
  cases n with
  | zero => exact .of_none _
  | succ n => exact onCoerced_below (approx_below_limit (n - 1)) g v

theorem callApprox_settles (g v : Value) :
    Partial.Settles (fun n => d.callApprox n g v) (d.onCoerced d.limit g v) := by
  obtain ⟨n, settled⟩ := onCoerced_settles d.approx_settles g v
  refine ⟨n + 2, fun k deep => ?_⟩
  obtain ⟨k, rfl⟩ := Nat.exists_eq_succ_of_ne_zero (show k ≠ 0 by omega)
  exact settled (k - 1) (by omega)

/-- Arguments coerced to the domains of the variables that await them; what comes after these is left as it
is. -/
def coerceInputs : List WholeVariable → List Value → Except Fault (List Value)
  | x :: xs, v :: vs => do
    let a ← x.domain.coerce v
    let as ← coerceInputs xs vs
    pure (a :: as)
  | _, vs => pure vs

/-- Arguments that are of the domains of the variables that await them. -/
def Admits : List WholeVariable → List Value → Prop
  | x :: xs, v :: vs => v.hasType x.domain = true ∧ Admits xs vs
  | _, _ => True

/-- Coerced arguments are of these domains, and there are as many as before. -/
theorem coerceInputs_admits {xs : List WholeVariable} {vs as : List Value}
    (coerced : coerceInputs xs vs = .ok as) : Admits xs as ∧ as.length = vs.length := by
  induction xs generalizing vs as with
  | nil =>
    cases coerced
    exact ⟨by unfold Admits; trivial, rfl⟩
  | cons x xs ih =>
    cases vs with
    | nil =>
      cases coerced
      exact ⟨trivial, rfl⟩
    | cons v vs =>
      obtain ⟨a, first, others⟩ := Except.bind_eq_ok.1 coerced
      obtain ⟨later, rest, same⟩ := Except.bind_eq_ok.1 others
      cases same
      obtain ⟨admits, counted⟩ := ih rest
      exact ⟨⟨ValueType.coerce_hasType first, admits⟩, by simp [counted]⟩

/-- A scalar cannot be applied. -/
theorem limit_scalar (s : Scalar) (v : Value) : d.limit (.scalar s) v = some (.error .wrongKind) := by
  rw [limit_eq]
  rfl

theorem chain_onCoerced_scalar (s : Scalar) (vs : List Value) :
    Partial.chain (d.onCoerced d.limit) (.scalar s) vs = Partial.chain d.limit (.scalar s) vs := by
  cases vs with
  | nil => rfl
  | cons v vs =>
    have same : d.onCoerced d.limit (.scalar s) v = d.limit (.scalar s) v := rfl
    unfold Partial.chain
    rw [same, limit_scalar]
    rfl

/-- An application that awaits more than one argument answers by the application to one more. -/
theorem limit_of_more {args : List Value} {x y : WholeVariable} {rest : List WholeVariable}
    (takes : Takes d.inputs args (x :: y :: rest)) (v : Value) :
    d.limit (.list args) v = .value (.list (args ++ [v])) := by
  rw [limit_eq, applied_of_more _ takes]

/-- The chain that coerces each argument when its turn comes is the chain on the coerced arguments, or the
first coercion that fails. -/
theorem chain_onCoerced {args : List Value} {rest : List WholeVariable}
    (takes : Takes d.inputs args rest) (more : rest ≠ []) (vs : List Value) :
    Partial.chain (d.onCoerced d.limit) (.list args) vs =
      match coerceInputs rest vs with
      | .ok as => Partial.chain d.limit (.list args) as
      | .error e => some (.error e) := by
  -- a coercion that fails does so before the body is asked, since applications to fewer arguments answer
  induction vs generalizing args rest with
  | nil =>
    cases rest with
    | nil => exact absurd rfl more
    | cons x rest => rfl
  | cons v vs ih =>
    cases rest with
    | nil => exact absurd rfl more
    | cons x rest =>
      have first := onCoerced_eq d.limit takes v
      cases coerced : x.domain.coerce v with
      | error e =>
        rw [coerced] at first
        simp only [Partial.chain, first, coerceInputs, coerced, bind, Except.bind,
          Partial.andThen_error]
      | ok a =>
        rw [coerced] at first
        have typed : a.hasType x.domain = true := ValueType.coerce_hasType coerced
        simp only [Partial.chain, first, coerceInputs, coerced, bind, Except.bind]
        cases rest with
        | nil =>
          -- after the last argument nothing is coerced, and there is nothing to apply
          refine Partial.andThen_congr fun w answer => ?_
          have ofType : w.hasType d.codomain = true := limit_typed args x [] a w takes typed answer
          obtain ⟨s, rfl, -⟩ := Value.hasType_iff.1 ofType
          exact chain_onCoerced_scalar s vs
        | cons y rest =>
          rw [limit_of_more takes]
          have later := ih (takes.one typed) (List.cons_ne_nil y rest)
          rw [Partial.andThen_value, later]
          cases coerceInputs (y :: rest) vs with
          | ok as =>
            show _ = (d.limit (.list args) a).andThen _
            rw [limit_of_more takes, Partial.andThen_value]
          | error e => rfl

/-! ## Arguments in two parts -/

/-- The chain of an application is the chain of the function on the arguments of the application and the
further ones. -/
theorem chain_append {args : List Value} {rest : List WholeVariable} (takes : Takes d.inputs args rest)
    (more : rest ≠ []) (as : List Value) :
    Partial.chain d.limit (.list []) (args ++ as) = Partial.chain d.limit (.list args) as := by
  induction takes generalizing as with
  | none => rfl
  | @one args x rest v before typed ih =>
    obtain ⟨y, others, rfl⟩ := List.exists_cons_of_ne_nil more
    rw [List.append_assoc, List.singleton_append, ih (List.cons_ne_nil x _)]
    show (d.limit (.list args) v).andThen _ = _
    rw [limit_of_more before, Partial.andThen_value]

theorem admits_append {args : List Value} {rest : List WholeVariable} (takes : Takes d.inputs args rest)
    {as : List Value} (admits : Admits rest as) : Admits d.inputs (args ++ as) := by
  induction takes generalizing as with
  | none => exact admits
  | one before typed ih =>
    rw [List.append_assoc, List.singleton_append]
    exact ih ⟨typed, admits⟩

/-- On fewer arguments than are awaited the chain answers by the application to these as well. -/
theorem chain_of_fewer {args : List Value} {rest : List WholeVariable} (takes : Takes d.inputs args rest)
    {as : List Value} (admits : Admits rest as) (fewer : as.length < rest.length) :
    Partial.chain d.limit (.list args) as = .value (.list (args ++ as)) ∧
      Takes d.inputs (args ++ as) (rest.drop as.length) := by
  induction as generalizing args rest with
  | nil =>
    rw [List.append_nil]
    exact ⟨rfl, takes⟩
  | cons v vs ih =>
    cases rest with
    | nil => cases fewer
    | cons x rest =>
      obtain ⟨typed, admits⟩ := admits
      have later : vs.length < rest.length := by simpa using fewer
      obtain ⟨y, rest, rfl⟩ := List.exists_cons_of_length_pos (Nat.zero_lt_of_lt later)
      have both := ih (takes.one typed) admits later
      rw [List.append_assoc, List.singleton_append] at both
      refine ⟨?_, both.2⟩
      show (d.limit (.list args) v).andThen _ = _
      rw [limit_of_more takes, Partial.andThen_value, both.1]

/-- On all the arguments that are awaited, or more, it answers by no function. -/
theorem chain_of_all {args : List Value} {rest : List WholeVariable} (takes : Takes d.inputs args rest)
    (more : rest ≠ []) {as : List Value} (admits : Admits rest as) (all : rest.length ≤ as.length)
    (before : List Value) : Partial.chain d.limit (.list args) as ≠ some (.ok (.list before)) := by
  induction as generalizing args rest with
  | nil => exact absurd (List.length_eq_zero_iff.1 (Nat.le_zero.1 all)) more
  | cons v vs ih =>
    obtain ⟨x, rest, rfl⟩ := List.exists_cons_of_ne_nil more
    obtain ⟨typed, admits⟩ := admits
    intro answer
    obtain ⟨w, first, last⟩ := Partial.andThen_eq_ok.1 answer
    cases rest with
    | nil =>
      -- a scalar comes back, and nothing can be made of it
      have ofType : w.hasType d.codomain = true := limit_typed args x [] v w takes typed first
      obtain ⟨s, rfl, -⟩ := Value.hasType_iff.1 ofType
      cases vs with
      | nil => cases last
      | cons u us =>
        rw [Partial.chain, limit_scalar] at last
        cases last
    | cons y rest =>
      rw [limit_of_more takes] at first
      cases first
      exact ih (takes.one typed) (List.cons_ne_nil y rest) admits (by simpa using all) last

/-- What a function can be applied to without a coercion: if it awaits arguments, the first ones are of the
domains of its variables. -/
def Fits (d : CurriedDefinition) (g : Value) (vs : List Value) : Prop :=
  ∀ args, g = .list args → ∃ rest, Takes d.inputs args rest ∧ rest ≠ [] ∧ Admits rest vs

/-- A function fits the one argument that it awaits. -/
theorem fits_one {args : List Value} {x : WholeVariable} {rest : List WholeVariable}
    (takes : Takes d.inputs args (x :: rest)) {v : Value} (typed : v.hasType x.domain = true) :
    d.Fits (.list args) [v] := by
  intro before same
  cases same
  refine ⟨x :: rest, takes, List.cons_ne_nil x rest, typed, ?_⟩
  cases rest <;> trivial

/-- It stays so along a chain. -/
theorem Fits.step {g v h : Value} {vs : List Value} (fits : d.Fits g (v :: vs))
    (answer : d.limit g v = some (.ok h)) : d.Fits h vs := by
  rintro args rfl
  cases g with
  | list before =>
    obtain ⟨rest, takes, more, admits⟩ := fits before rfl
    obtain ⟨x, rest, rfl⟩ := List.exists_cons_of_ne_nil more
    obtain ⟨typed, admits⟩ := admits
    have suits := limit_typed before x rest v _ takes typed answer
    cases rest with
    | nil => cases suits
    | cons y rest =>
      obtain ⟨after, same, takes'⟩ := suits
      cases same
      exact ⟨y :: rest, takes', List.cons_ne_nil y rest, admits⟩
  | _ =>
    rw [limit_eq] at answer
    cases answer

end CurriedDefinition

/-! ## Runs -/

namespace Store

variable {o : CompileOptions} {σ : Store o} {m : Machine} {reading : Reading o}

/-- Calls in a row follow the chain if each of them follows its answer. -/
theorem runs_chain {limit approx : Value → Value → Partial} (fits : Value → List Value → Prop)
    {call : Caller} (below : ∀ g v, (approx g v).Below (limit g v))
    (step : ∀ {σ : Store o} {m : Machine} {f argument : Boxed} {d : Value} {vs : List Value}, σ.Holds m →
      reading σ m f.value d → fits d (argument.value :: vs) →
      σ.Runs (Follows reading (limit d argument.value) (approx d argument.value)) (call f [argument]) m)
    (goes : ∀ {g v h vs}, fits g (v :: vs) → limit g v = some (.ok h) → fits h vs) (args : List Boxed) :
    ∀ {σ : Store o} {m : Machine} {f : Boxed} {d : Value}, σ.Holds m → reading σ m f.value d →
      fits d (args.map fun a => a.value) →
      σ.Runs (Follows reading (.chain limit d (args.map fun a => a.value))
        (.chain approx d (args.map fun a => a.value)))
        (Run.callAll call f (args.map fun a => [a])) m := by
  induction args with
  | nil => exact fun holds reads _ => runs_pure holds reads
  | cons a args ih =>
    intro σ m f d holds reads suits
    exact (step holds reads suits).andThen (below d a.value) fun v h τ m' known reads' _ holds' _ =>
      ih holds' reads' (goes suits known)

end Store

end Knot
