import Knot.Proofs.Evaluation
import Mathlib.Data.List.Forall2
import Mathlib.Data.Set.Basic

/-!
# Courses

What the evaluation of a self-contained tree comes to, without a machine. A function stands for its
parameters, its body and the scope that it was made in (`Sense`), and a computation takes a course: it ends
in some way, if at all, and on the way functions of one parameter are given arguments (`Course`).
`Expr.course` is the course that a tree takes in a scope, and `Recursion.call` that of a call with calls
nested to some depth.

A split evaluates both of its operands, and operands one after the other stop at a fault of the first, so a
course depends on the free slots. But two courses of one tree that both end, and not in a fault, end alike,
however deep calls may nest and however many slots are free (`Expr.course_agree`, `Recursion.call_agree`).
-/

namespace Knot

/-! ## Senses -/

/-- What a value stands for: for itself, for a function, or for the function that is being defined, whose
scope has it in it. -/
inductive Sense where
  | plain (v : Value)
  | function (parameters : List Nat) (body : Expr) (scope : Nat → Option Sense)
  | itself

/-- What the variables stand for, by their numbers. -/
abbrev Scope := Nat → Option Sense

/-- What operators see of a value. They do not tell closures apart. -/
def Value.anonymous : Value → Value
  | .closure _ => .closure 0
  | v => v

/-- What they see of what a value stands for. -/
def Sense.shown : Sense → Value
  | .plain v => v
  | .function _ _ _ | .itself => .closure 0

/-- The scope with more variables; of several bindings of a variable the last one counts. -/
def Scope.bind (scope : Scope) (bindings : List (Nat × Sense)) : Scope :=
  bindings.foldl (fun s b u => if u = b.1 then some b.2 else s u) scope

/-! ## Courses -/

/-- How a computation ends. -/
inductive Ending (α : Type) where
  | value (a : α)
  | fault
  /-- A jump to a label, with what it takes along. -/
  | jump (target : Nat) (s : Sense)

/-- The end of two computations that both took place. What ended the left one early counts first. -/
def Ending.both {α β : Type} : Ending α → Ending β → Ending (α × β)
  | fault, _ => fault
  | jump t s, _ => jump t s
  | value _, fault => fault
  | value _, jump t s => jump t s
  | value a, value b => value (a, b)

/-- The course of a computation: how it ends, if it does, and which arguments have been given to functions of
one parameter on the way. -/
def Course (α : Type) := Option (Ending α × Set (Nat × Value))

namespace Course

variable {α β : Type}

/-- Without an end. -/
def endless : Course α := none

/-- At its end. -/
def done (e : Ending α) : Course α := some (e, ∅)

/-- After arguments have been given. -/
def after (given : Set (Nat × Value)) (c : Course α) : Course α :=
  Option.map (fun x => (x.1, given ∪ x.2)) c

/-- A course, and after its end another one, which depends on how it ended. -/
def onward (c : Course α) (f : Ending α → Course β) : Course β :=
  match c with
  | none => none
  | some (e, given) => (f e).after given

/-- What follows on a value. -/
def onValue (f : α → Course β) : Ending α → Course β
  | .value a => f a
  | .fault => done .fault
  | .jump target s => done (.jump target s)

instance : Monad Course where
  pure a := done (.value a)
  bind c f := c.onward (onValue f)

theorem after_empty (c : Course α) : c.after ∅ = c := by
  rcases c with - | ⟨e, given⟩
  · rfl
  · show some (e, ∅ ∪ given) = some (e, given)
    rw [Set.empty_union]

theorem after_after (given rest : Set (Nat × Value)) (c : Course α) :
    (c.after rest).after given = c.after (given ∪ rest) := by
  rcases c with - | ⟨e, last⟩
  · rfl
  · show some (e, given ∪ (rest ∪ last)) = some (e, given ∪ rest ∪ last)
    rw [Set.union_assoc]

theorem onward_onward {γ : Type} (c : Course α) (f : Ending α → Course β) (g : Ending β → Course γ) :
    (c.onward f).onward g = c.onward fun e => (f e).onward g := by
  rcases c with - | ⟨e, given⟩
  · rfl
  · show ((f e).after given).onward g = ((f e).onward g).after given
    rcases f e with - | ⟨e', rest⟩
    · rfl
    · exact (after_after given rest (g e')).symm

/-- Courses compose as they should. -/
instance : LawfulMonad Course :=
  LawfulMonad.mk' Course
    (fun c => by
      rcases c with - | ⟨e, given⟩
      · rfl
      · cases e <;> exact congrArg (fun all => some (_, all)) (Set.union_empty given))
    (fun a f => after_empty (f a))
    (fun c f g => by
      show (c.onward (onValue f)).onward (onValue g) = c.onward (onValue fun a => f a >>= g)
      rw [onward_onward]
      refine congrArg c.onward (funext fun e => ?_)
      cases e with
      | value a => rfl
      | fault => exact after_empty _
      | jump target s => exact after_empty _)

/-! ## Parts of nodes -/

/-- The course of a result. -/
def ofResult : Except Fault Value → Course Sense
  | .ok v => pure (.plain v)
  | .error _ => done .fault

/-- The course of a truth value. -/
def truth (b : Bool) : Course Sense := pure (.plain (.scalar (.bool b)))

/-- The course of a variable. -/
def lookup (scope : Scope) (p : Parameter) : Course Sense :=
  match scope p.uid with
  | some s => pure s
  | none => done .fault

/-- The course of a unary operator. -/
def unary (op : UnaryOp) (target : StaticType) (s : Sense) : Course Sense :=
  if op.isConversion && target.keeps s.shown then pure s else ofResult (op.apply s.shown target)

/-- The course of a function. -/
def function (scope : Scope) (parameters : List Expr) (body : Expr) : Course Sense :=
  match parameters.mapM Expr.parameter? with
  | some ps => pure (.function (ps.map fun p => p.uid) body scope)
  | none => done .fault

/-- A course that no jump leaves. -/
def sealed (c : Course Sense) : Course Sense :=
  c.onward fun
    | .jump _ _ => done .fault
    | e => done e

/-- Two courses that are both taken, whatever becomes of the first. -/
def both (left : Course α) (right : Course β) : Course (α × β) :=
  left.onward fun e => right.onward fun e' => done (e.both e')

/-- Two courses of which the second is taken after a value of the first. -/
def inTurn (left : Course α) (right : Course β) : Course (α × β) := do
  let a ← left
  let b ← right
  pure (a, b)

/-- The operands of a split, given the free slots. -/
def operands (slots : Int) (left right : Int → Course Sense) : Course (Sense × Sense) :=
  if 2 < slots then both (left (slots - 2)) (right (slots - 2))
  else inTurn (left slots) (right slots)

/-- An operator on two operands that may be evaluated side by side. -/
def splitBinary (op : BinaryOp) (slots : Int) (left right : Int → Course Sense) : Course Sense :=
  if op.splittable then do
    let (s, s') ← operands slots left right
    ofResult (op.apply s.shown s'.shown)
  else done .fault

/-! ## Blocks and loops -/

/-- A step of a block, with the number of its label if it is one. -/
structure Leg where
  label : Option Nat
  course : Course Sense

namespace Leg

/-- The steps one after another, as in `Step.runAll`. -/
def all : List Leg → Sense → Course Sense
  | [], s => pure s
  | leg :: rest, _ => do
    let s ← leg.course
    all rest s

/-- The steps behind the last label of a number. -/
def after? (target : Nat) : List Leg → Option (List Leg)
  | [] => none
  | leg :: rest =>
    match after? target rest with
    | some found => some found
    | none => if leg.label = some target then some rest else none

/-- The steps `rest` of a block, as in `Step.runFrom`. -/
def blockFrom (legs : List Leg) : Nat → List Leg → Sense → Course Sense
  | 0, _, _ => endless
  | fuel + 1, rest, s => (all rest s).onward fun
    | .jump target s =>
      match after? target legs with
      | some behind => blockFrom legs fuel behind s
      | none => done (.jump target s)
    | e => done e

end Leg

/-- A loop, as in `Run.loop`. -/
def loop (turn : Course Sense) (breakLabel continueLabel : Option Nat) : Nat → Course Sense
  | 0 => endless
  | fuel + 1 => turn.onward fun
    | .value _ => loop turn breakLabel continueLabel fuel
    | .jump target s =>
      if breakLabel = some target then pure s
      else if continueLabel = some target then loop turn breakLabel continueLabel fuel
      else done (.jump target s)
    | .fault => done .fault

end Course

/-! ## Trees -/

/-- The courses of calls, given the free slots. -/
abbrev CallCourse := Int → Sense → List Sense → Course Sense

/-- The scope of the steps of a block. -/
def Scope.locals (scope : Scope) (vs : List Parameter) : Scope :=
  scope.bind (vs.map fun p => (p.uid, .plain .none))

namespace Expr

mutual

/-- The course of a self-contained tree without cached calls. -/
def course (calls : CallCourse) (fuel : Nat) (slots : Int) (scope : Scope) : Expr → Course Sense
  | constant v _ => pure (.plain v.value)
  | parameter p => Course.lookup scope p
  | unary op a t => do
    let s ← a.course calls fuel slots scope
    Course.unary op t s
  | binary op a b _ =>
    match op with
    | .assign => Course.endless
    | .andAlso => do
      let s ← a.course calls fuel slots scope
      if s.shown.truthy then do
        let s' ← b.course calls fuel slots scope
        Course.truth s'.shown.truthy
      else Course.truth false
    | .orElse => do
      let s ← a.course calls fuel slots scope
      if s.shown.truthy then Course.truth true
      else do
        let s' ← b.course calls fuel slots scope
        Course.truth s'.shown.truthy
    | op => do
      let s ← a.course calls fuel slots scope
      let s' ← b.course calls fuel slots scope
      Course.ofResult (op.apply s.shown s'.shown)
  | conditional a b c _ => do
    let s ← a.course calls fuel slots scope
    if s.shown.truthy then b.course calls fuel slots scope else c.course calls fuel slots scope
  | invoke f args _ => do
    let s ← f.course calls fuel slots scope
    let ss ← courses calls fuel slots scope args
    calls slots s ss
  | block vs es _ =>
    let legs := legs calls fuel slots (scope.locals vs) es
    Course.Leg.blockFrom legs fuel legs (.plain .none)
  | label _ d _ => courseOption calls fuel slots scope d
  | goto _ l v _ => do
    let s ← courseOption calls fuel slots scope v
    Course.done (.jump l.uid s)
  | loop a b c _ =>
    Course.loop (a.course calls fuel slots scope) (b.map fun l => l.uid) (c.map fun l => l.uid) fuel
  | lambda ps a _ => Course.function scope ps a
  | parallel op a b _ _ => do
    let call ← a.deferredCourse calls fuel slots scope
    let call' ← b.deferredCourse calls fuel slots scope
    Course.splitBinary op slots (fun n => calls n call.1 call.2) fun n => calls n call'.1 call'.2
  | strange _ _ | bare _ => Course.done .fault
  | member _ _ _ | hostCall _ _ _ | cached _ _ _ _ => Course.endless

/-- The courses of several trees. -/
def courses (calls : CallCourse) (fuel : Nat) (slots : Int) (scope : Scope) :
    List Expr → Course (List Sense)
  | [] => pure []
  | e :: es => do
    let s ← e.course calls fuel slots scope
    let ss ← courses calls fuel slots scope es
    pure (s :: ss)

/-- The course of a tree that may be absent. -/
def courseOption (calls : CallCourse) (fuel : Nat) (slots : Int) (scope : Scope) :
    Option Expr → Course Sense
  | none => pure (.plain .none)
  | some e => e.course calls fuel slots scope

/-- The steps of a block. -/
def legs (calls : CallCourse) (fuel : Nat) (slots : Int) (scope : Scope) :
    List Expr → List Course.Leg
  | [] => []
  | e :: es => ⟨e.labelUid?, e.course calls fuel slots scope⟩ :: legs calls fuel slots scope es

/-- The course of the parts of a call, up to the call itself. -/
def deferredCourse (calls : CallCourse) (fuel : Nat) (slots : Int) (scope : Scope) :
    Expr → Course (Sense × List Sense)
  | invoke f args _ => do
    let s ← f.course calls fuel slots scope
    let ss ← courses calls fuel slots scope args
    pure (s, ss)
  | _ => Course.done .fault

end

/-- An operator that evaluates both of its operands evaluates the left one first. -/
theorem course_binary_of_strict {op : BinaryOp} (other : op ≠ .assign) (strict : op.isShortCircuit = false)
    (calls : CallCourse) (fuel : Nat) (slots : Int) (scope : Scope) (a b : Expr) (t : StaticType) :
    (binary op a b t).course calls fuel slots scope = (do
      let s ← a.course calls fuel slots scope
      let s' ← b.course calls fuel slots scope
      Course.ofResult (op.apply s.shown s'.shown)) := by
  cases op <;> first | rfl | contradiction

/-- The course of a single tree among several. -/
theorem courses_singleton (calls : CallCourse) (fuel : Nat) (slots : Int) (scope : Scope) (e : Expr) :
    courses calls fuel slots scope [e] = (do
      let s ← e.course calls fuel slots scope
      pure [s]) := by
  simp only [courses, pure_bind]

theorem legs_eq_map (calls : CallCourse) (fuel : Nat) (slots : Int) (scope : Scope) (es : List Expr) :
    legs calls fuel slots scope es =
      es.map fun e => ⟨e.labelUid?, e.course calls fuel slots scope⟩ := by
  induction es with
  | nil => rw [legs, List.map_nil]
  | cons e es ih => rw [legs, ih, List.map_cons]

end Expr

/-! ## Calls -/

/-- A function of one argument that is defined by recursion: its body sees the function itself. -/
structure Recursion where
  /-- The number of the variable that stands for the function. -/
  name : Nat
  argument : Nat
  body : Expr

namespace Recursion

variable (d : Recursion)

/-- The scope of the function. -/
def scope : Scope := fun u => if u = d.name then some .itself else none

/-- The parameters, the body and the scope of a function. -/
def parts? : Sense → Option (List Nat × Expr × Scope)
  | .plain _ => none
  | .function ps body scope => some (ps, body, scope)
  | .itself => some ([d.argument], d.body, d.scope)

/-- The argument that is given to a function of one parameter, unless it is a function. -/
def given : List Nat → List Sense → Set (Nat × Value)
  | [u], [.plain v] => {(u, v)}
  | _, _ => ∅

/-- The course of a call, when calls nest at most so deep. -/
def call : Nat → CallCourse
  | 0, _, _, _ => Course.endless
  | n + 1, slots, s, args =>
    match d.parts? s with
    | some (ps, body, scope) =>
      if args.length = ps.length then
        ((body.course (call n) n slots (scope.bind (ps.zip args))).sealed).after (given ps args)
      else Course.done .fault
    | none => Course.done .fault

end Recursion

/-! ## How courses agree -/

namespace Course

variable {α β : Type}

/-- Two courses end alike, where both end, and the first one not in a fault. -/
def Agree (c c' : Course α) : Prop :=
  ∀ e given e' given', c = some (e, given) → c' = some (e', given') → e ≠ .fault → e' = e

theorem eq_some_of_after {given all : Set (Nat × Value)} {c : Course α} {e : Ending α}
    (ended : c.after given = some (e, all)) : ∃ rest, c = some (e, rest) ∧ all = given ∪ rest := by
  obtain ⟨⟨e', rest⟩, found, same⟩ := Option.map_eq_some_iff.1 ended
  cases same
  exact ⟨rest, found, rfl⟩

/-- A course in two parts that ends. -/
theorem eq_some_of_onward {c : Course α} {f : Ending α → Course β} {e : Ending β}
    {all : Set (Nat × Value)} (ended : c.onward f = some (e, all)) :
    ∃ e₁ given rest, c = some (e₁, given) ∧ f e₁ = some (e, rest) ∧ all = given ∪ rest := by
  unfold onward at ended
  split at ended
  next => cases ended
  next e₁ given =>
    obtain ⟨rest, found, same⟩ := eq_some_of_after ended
    exact ⟨e₁, given, rest, rfl, found, same⟩

theorem onward_eq_some {c : Course α} {f : Ending α → Course β} {e₁ : Ending α} {e : Ending β}
    {given rest : Set (Nat × Value)} (first : c = some (e₁, given)) (second : f e₁ = some (e, rest)) :
    c.onward f = some (e, given ∪ rest) := by
  subst first
  show (f e₁).after given = _
  rw [second]
  rfl

namespace Agree

theorem refl (c : Course α) : Agree c c := by
  intro e given e' given' first second _
  cases first.symm.trans second
  rfl

theorem endless_left (c : Course α) : Agree endless c := by
  intro e given e' given' impossible
  cases impossible

theorem endless_right (c : Course α) : Agree c endless := by
  intro e given e' given' _ impossible
  cases impossible

/-- Courses that a fault ends agree, if they agree up to it. -/
theorem onward {c c' : Course α} {f f' : Ending α → Course β} (first : Agree c c')
    (stops : ∀ e given, f .fault = some (e, given) → e = .fault)
    (second : ∀ e, Agree (f e) (f' e)) : Agree (c.onward f) (c'.onward f') := by
  intro e given e' given' ended ended' lasting
  obtain ⟨e₁, given₁, rest, found, continued, -⟩ := eq_some_of_onward ended
  obtain ⟨e₂, given₂, rest', found', continued', -⟩ := eq_some_of_onward ended'
  by_cases fault : e₁ = .fault
  · -- The courses need not agree beyond a fault, but neither is there anything to say then.
    subst fault
    exact absurd (stops e rest continued) lasting
  · obtain rfl := first e₁ given₁ e₂ given₂ found found' fault
    exact second _ e rest e' rest' continued continued' lasting

theorem stops_done {e : Ending α} {given : Set (Nat × Value)}
    (ended : (done .fault : Course α) = some (e, given)) : e = .fault := by
  cases ended
  rfl

theorem bind {c c' : Course α} {f f' : α → Course β} (first : Agree c c')
    (second : ∀ a, Agree (f a) (f' a)) : Agree (c >>= f) (c' >>= f') := by
  refine onward first (fun _ _ => stops_done) fun e => ?_
  cases e with
  | value a => exact second a
  | fault | jump => exact refl _

theorem ite {p : Prop} [Decidable p] {c c' d d' : Course α} (left : Agree c c') (right : Agree d d') :
    Agree (if p then c else d) (if p then c' else d') := by
  split
  · exact left
  · exact right

theorem after {c c' : Course α} (h : Agree c c') (given given' : Set (Nat × Value)) :
    Agree (c.after given) (c'.after given') := by
  intro e all e' all' ended ended' lasting
  obtain ⟨rest, found, -⟩ := eq_some_of_after ended
  obtain ⟨rest', found', -⟩ := eq_some_of_after ended'
  exact h e rest e' rest' found found' lasting

theorem sealed {c c' : Course Sense} (h : Agree c c') : Agree c.sealed c'.sealed := by
  refine onward h (fun _ _ => stops_done) fun e => ?_
  cases e <;> exact refl _

/-! ## Operands -/

/-- Courses that can end in one way only agree. -/
theorem of_only {c c' : Course α} {e₀ : Ending α} (only : ∀ e given, c = some (e, given) → e = e₀)
    (only' : ∀ e given, c' = some (e, given) → e = e₀) : Agree c c' := by
  intro e given e' given' ended ended' _
  rw [only e given ended, only' e' given' ended']

end Agree

/-- What follows on the end of a left operand: the right one, in any case or after a value only. -/
def second (always : Bool) (right : Course β) : Ending α → Course (α × β)
  | .value a => right.onward fun e => done ((Ending.value a).both e)
  | .fault => if always then right.onward fun _ => done .fault else done .fault
  | .jump t s => if always then right.onward fun _ => done (.jump t s) else done (.jump t s)

theorem both_eq (left : Course α) (right : Course β) : both left right = left.onward (second true right) := by
  refine congrArg left.onward (funext fun e => ?_)
  cases e <;> rfl

theorem inTurn_eq (left : Course α) (right : Course β) :
    inTurn left right = left.onward (second false right) := by
  refine congrArg left.onward (funext fun e => ?_)
  cases e with
  | value a =>
    refine congrArg right.onward (funext fun e' => ?_)
    cases e' <;> rfl
  | fault | jump => rfl

/-- What ends in one way, whatever comes before. -/
theorem eq_of_onward_done {c : Course β} {e₀ e : Ending α} {given : Set (Nat × Value)}
    (ended : (c.onward fun _ => done e₀) = some (e, given)) : e = e₀ := by
  obtain ⟨e₁, first, rest, -, last, -⟩ := eq_some_of_onward ended
  cases last
  rfl

theorem eq_of_second {always : Bool} {right : Course β} {stop : Ending α} {e₀ e : Ending (α × β)}
    {given : Set (Nat × Value)}
    (early : stop = .fault ∧ e₀ = .fault ∨ ∃ t s, stop = .jump t s ∧ e₀ = .jump t s)
    (ended : second always right stop = some (e, given)) : e = e₀ := by
  rcases early with ⟨rfl, rfl⟩ | ⟨t, s, rfl, rfl⟩ <;>
  · cases always with
    | true => exact eq_of_onward_done ended
    | false =>
      cases ended
      rfl

namespace Agree

theorem second {right right' : Course β} (h : Agree right right') (always always' : Bool) (e : Ending α) :
    Agree (Course.second always right e) (Course.second always' right' e) := by
  cases e with
  | value a =>
    refine onward h (fun _ _ => stops_done) fun e => ?_
    exact refl _
  | fault =>
    exact of_only (fun _ _ => eq_of_second (.inl ⟨rfl, rfl⟩)) fun _ _ => eq_of_second (.inl ⟨rfl, rfl⟩)
  | jump t s =>
    exact of_only (fun _ _ => eq_of_second (.inr ⟨t, s, rfl, rfl⟩))
      fun _ _ => eq_of_second (.inr ⟨t, s, rfl, rfl⟩)

/-- Two operands come to the same, whether both are taken or one after the other. -/
theorem operands {left left' right right' : Int → Course Sense} (first : ∀ n n', Agree (left n) (left' n'))
    (last : ∀ n n', Agree (right n) (right' n')) (slots slots' : Int) :
    Agree (Course.operands slots left right) (Course.operands slots' left' right') := by
  have each : ∀ (always always' : Bool) (n n' : Int),
      Agree ((left n).onward (Course.second always (right n)))
        ((left' n').onward (Course.second always' (right' n'))) := fun always always' n n' =>
    onward (first n n') (fun _ _ => eq_of_second (.inl ⟨rfl, rfl⟩)) fun e =>
      second (last n n') always always' e
  unfold Course.operands
  simp only [both_eq, inTurn_eq]
  -- Four cases, as there may be slots to spare for either course.
  split
  · split
    · exact each _ _ _ _
    · exact each _ _ _ _
  · split
    · exact each _ _ _ _
    · exact each _ _ _ _

theorem splitBinary {op : BinaryOp} {left left' right right' : Int → Course Sense}
    (first : ∀ n n', Agree (left n) (left' n')) (last : ∀ n n', Agree (right n) (right' n'))
    (slots slots' : Int) :
    Agree (Course.splitBinary op slots left right) (Course.splitBinary op slots' left' right') :=
  ite ((operands first last slots slots').bind fun _ => refl _) (refl _)

/-! ## Blocks and loops -/

/-- Two steps of a block under one label, the courses of which agree. -/
def Legs (leg leg' : Leg) : Prop := leg.label = leg'.label ∧ Agree leg.course leg'.course

theorem all {legs legs' : List Leg} (h : List.Forall₂ Legs legs legs') (s : Sense) :
    Agree (Leg.all legs s) (Leg.all legs' s) := by
  induction h generalizing s with
  | nil => exact refl _
  | cons first _ ih => exact first.2.bind fun s' => ih s'

/-- The same steps are behind a label. -/
theorem after? {legs legs' : List Leg} (h : List.Forall₂ Legs legs legs') (target : Nat) :
    Option.Rel (List.Forall₂ Legs) (Leg.after? target legs) (Leg.after? target legs') := by
  induction h with
  | nil => exact .none
  | cons first rest ih =>
    unfold Leg.after?
    rw [first.1]
    revert ih
    generalize Leg.after? target _ = found, Leg.after? target _ = found'
    intro ih
    cases ih with
    | some behind => exact .some behind
    | none =>
      simp only
      split
      · exact .some rest
      · exact .none

theorem blockFrom {legs legs' : List Leg} (whole : List.Forall₂ Legs legs legs') (fuel : Nat) :
    ∀ (fuel' : Nat) {rest rest' : List Leg} (s : Sense), List.Forall₂ Legs rest rest' →
      Agree (Leg.blockFrom legs fuel rest s) (Leg.blockFrom legs' fuel' rest' s) := by
  induction fuel with
  | zero => exact fun _ _ _ _ _ => endless_left _
  | succ fuel ih =>
    intro fuel' rest rest' s h
    -- Each jump inside of the block takes one of the fuel of both courses.
    cases fuel' with
    | zero => exact endless_right _
    | succ fuel' =>
      refine onward (all h s) (fun _ _ => stops_done) fun e => ?_
      cases e with
      | value | fault => exact refl _
      | jump target s' =>
        have behind := after? whole target
        simp only
        revert behind
        generalize Leg.after? target _ = found, Leg.after? target _ = found'
        intro behind
        cases behind with
        | none => exact refl _
        | some behind => exact ih fuel' s' behind

theorem loop {turn turn' : Course Sense} (h : Agree turn turn') (breakLabel continueLabel : Option Nat)
    (fuel : Nat) : ∀ fuel', Agree (Course.loop turn breakLabel continueLabel fuel)
      (Course.loop turn' breakLabel continueLabel fuel') := by
  induction fuel with
  | zero => exact fun _ => endless_left _
  | succ fuel ih =>
    intro fuel'
    cases fuel' with
    | zero => exact endless_right _
    | succ fuel' =>
      refine onward h (fun _ _ => stops_done) fun e => ?_
      cases e with
      | value => exact ih fuel'
      | jump target s => exact ite (refl _) (ite (ih fuel') (refl _))
      | fault => exact refl _

end Agree

end Course

/-! ## How trees agree -/

namespace Expr

open Course (Agree)

section

variable {calls calls' : CallCourse} (fuel fuel' : Nat) (slots slots' : Int)

mutual

/-- Two courses of one tree agree, if those of calls do. -/
theorem course_agree (agree : ∀ n n' s ss, Agree (calls n s ss) (calls' n' s ss)) (scope : Scope) :
    ∀ e : Expr, Agree (e.course calls fuel slots scope) (e.course calls' fuel' slots' scope)
  | constant _ _ | parameter _ | lambda _ _ _ | strange _ _ | bare _ => .refl _
  | unary op a t => (course_agree agree scope a).bind fun _ => .refl _
  | binary op a b t => by
    have left := course_agree agree scope a
    have right := course_agree agree scope b
    by_cases assignment : op = .assign
    · subst assignment
      -- an assignment has no course that ends, whatever the calls
      exact .endless_left _
    · cases strict : op.isShortCircuit with
      | false =>
        rw [course_binary_of_strict assignment strict, course_binary_of_strict assignment strict]
        exact left.bind fun s => right.bind fun s' => .refl _
      | true =>
        cases op with
        | andAlso => exact left.bind fun s => .ite (right.bind fun s' => .refl _) (.refl _)
        | orElse => exact left.bind fun s => .ite (.refl _) (right.bind fun s' => .refl _)
        | _ => cases strict
  | conditional a b c _ =>
    (course_agree agree scope a).bind fun _ =>
      .ite (course_agree agree scope b) (course_agree agree scope c)
  | invoke f args _ =>
    (course_agree agree scope f).bind fun s =>
      (courses_agree agree scope args).bind fun ss => agree _ _ s ss
  | block vs es _ =>
    have legs := legs_agree agree (scope.locals vs) es
    .blockFrom legs fuel fuel' (.plain .none) legs
  | label _ d _ => courseOption_agree agree scope d
  | goto _ _ v _ => (courseOption_agree agree scope v).bind fun _ => .refl _
  | loop a _ _ _ => (course_agree agree scope a).loop _ _ fuel fuel'
  | parallel _ a b _ _ =>
    (deferredCourse_agree agree scope a).bind fun _ => (deferredCourse_agree agree scope b).bind fun _ =>
      .splitBinary (fun n n' => agree n n' _ _) (fun n n' => agree n n' _ _) slots slots'
  | member _ _ _ | hostCall _ _ _ | cached _ _ _ _ => .endless_left _

theorem courses_agree (agree : ∀ n n' s ss, Agree (calls n s ss) (calls' n' s ss)) (scope : Scope) :
    ∀ es : List Expr, Agree (courses calls fuel slots scope es) (courses calls' fuel' slots' scope es)
  | [] => .refl _
  | e :: es =>
    (course_agree agree scope e).bind fun _ => (courses_agree agree scope es).bind fun _ => .refl _

theorem courseOption_agree (agree : ∀ n n' s ss, Agree (calls n s ss) (calls' n' s ss)) (scope : Scope) :
    ∀ d : Option Expr,
      Agree (courseOption calls fuel slots scope d) (courseOption calls' fuel' slots' scope d)
  | none => .refl _
  | some e => course_agree agree scope e

theorem legs_agree (agree : ∀ n n' s ss, Agree (calls n s ss) (calls' n' s ss)) (scope : Scope) :
    ∀ es : List Expr,
      List.Forall₂ Agree.Legs (legs calls fuel slots scope es) (legs calls' fuel' slots' scope es)
  | [] => .nil
  | e :: es => .cons ⟨rfl, course_agree agree scope e⟩ (legs_agree agree scope es)

theorem deferredCourse_agree (agree : ∀ n n' s ss, Agree (calls n s ss) (calls' n' s ss)) (scope : Scope) :
    ∀ e : Expr, Agree (e.deferredCourse calls fuel slots scope) (e.deferredCourse calls' fuel' slots' scope)
  | invoke f args _ =>
    (course_agree agree scope f).bind fun _ => (courses_agree agree scope args).bind fun _ => .refl _
  | constant _ _ | parameter _ | unary _ _ _ | binary _ _ _ _ | conditional _ _ _ _ | member _ _ _
  | hostCall _ _ _ | block _ _ _ | label _ _ _ | goto _ _ _ _ | loop _ _ _ _ | lambda _ _ _
  | cached _ _ _ _ | parallel _ _ _ _ _ | strange _ _ | bare _ => .refl _

end

end

end Expr

namespace Recursion

variable (d : Recursion)

/-- Two courses of one call agree, however deep calls nest in them and however many slots are free. -/
theorem call_agree (n : Nat) : ∀ n' slots slots' s ss,
    Course.Agree (d.call n slots s ss) (d.call n' slots' s ss) := by
  induction n with
  | zero => exact fun n' slots slots' s ss => .endless_left _
  | succ n ih =>
    intro n' slots slots' s ss
    cases n' with
    | zero => exact .endless_right _
    | succ n' =>
      unfold call
      cases d.parts? s with
      | none => exact .refl _
      | some parts =>
        -- The depth that is left bounds the calls inside and the jumps alike.
        obtain ⟨ps, body, scope⟩ := parts
        simp only
        refine .ite (.after (.sealed ?_) _ _) (.refl _)
        exact Expr.course_agree n n' slots slots' (fun m m' s ss => ih n' m m' s ss) _ body

/-! ## Calls that end -/

variable {d} {n : Nat} {slots : Int} {s : Sense} {ss : List Sense} {given : Set (Nat × Value)}

/-- No jump leaves a function. -/
theorem call_ne_jump {t : Nat} {s' : Sense} : d.call n slots s ss ≠ some (.jump t s', given) := by
  intro ended
  cases n with
  | zero => cases ended
  | succ n =>
    unfold call at ended
    split at ended
    next ps body scope _ =>
      split at ended
      next =>
        obtain ⟨rest, sealed, -⟩ := Course.eq_some_of_after ended
        obtain ⟨e, first, last, -, stopped, -⟩ := Course.eq_some_of_onward sealed
        cases e <;> cases stopped
      next => cases ended
    next => cases ended

/-- A call on one argument that ends in a value is one of a function of one parameter. -/
theorem parts_of_call {a r : Sense} (ended : d.call n slots s [a] = some (.value r, given)) :
    ∃ p body scope, d.parts? s = some ([p], body, scope) := by
  cases n with
  | zero => cases ended
  | succ n =>
    unfold call at ended
    split at ended
    next ps body scope parts =>
      split at ended
      next counted =>
        obtain ⟨p, rfl⟩ := List.length_eq_one_iff.1 counted.symm
        exact ⟨p, body, scope, parts⟩
      next => cases ended
    next => cases ended

/-- Its parameter has been given the argument, if that is no function. -/
theorem mem_given_of_call {p : Nat} {body : Expr} {scope : Scope} {v : Value} {e : Ending Sense}
    (parts : d.parts? s = some ([p], body, scope))
    (ended : d.call n slots s [.plain v] = some (e, given)) : (p, v) ∈ given := by
  cases n with
  | zero => cases ended
  | succ n =>
    unfold call at ended
    rw [parts] at ended
    simp only [List.length_singleton, if_true] at ended
    obtain ⟨rest, -, rfl⟩ := Course.eq_some_of_after ended
    exact .inl rfl

end Recursion

end Knot
