import Knot.Proofs.Binding.Runs
import Knot.Proofs.Transparency.Lookups
import Knot.Proofs.Transparency.Splits

/-!
# Evaluation along a course

A tree that a regime admits follows its course, by induction on the tree (`Regime.Interprets.eval`), if calls
follow theirs; and they do, by induction on how deep they nest (`Regime.interprets_call`).
-/

namespace Knot

/-! ## Operators -/

namespace Value

theorem truthy_anonymous (v : Value) : v.anonymous.truthy = v.truthy := by
  cases v <;> rfl

theorem hasType_anonymous (v : Value) (t : ValueType) : v.anonymous.hasType t = v.hasType t := by
  cases v <;> rfl

end Value

theorem StaticType.keeps_anonymous (t : StaticType) (v : Value) : t.keeps v.anonymous = t.keeps v := by
  cases t <;> first | rfl | exact v.hasType_anonymous _

/-- A binary operator does not tell closures apart. -/
theorem BinaryOp.apply_anonymous (op : BinaryOp) (v w : Value) :
    op.apply v.anonymous w.anonymous = op.apply v w := by
  cases w with
  | closure i =>
    cases v with
    | scalar s =>
      show op.apply (.scalar s) (.closure 0) = op.apply (.scalar s) (.closure i)
      cases op <;> cases s <;> rfl
    | _ => rfl
  | _ => cases v <;> rfl

/-- Its result is no function. -/
theorem BinaryOp.apply_inert {op : BinaryOp} {v w u : Value} (done : op.apply v w = .ok u) :
    u.isCallable = false := by
  obtain ⟨s, -, rest⟩ := Except.bind_eq_ok.1 done
  obtain ⟨x, -, same⟩ := Except.bind_eq_ok.1 rest
  cases same
  rfl

section

variable {op : UnaryOp} {t : StaticType} {v : Value} (other : (op.isConversion && t.keeps v) = false)
include other

/-- A unary operator does not tell closures apart, unless it yields its operand. -/
theorem UnaryOp.apply_anonymous : op.apply v.anonymous t = op.apply v t := by
  cases v with
  | closure i => cases op <;> cases t <;> first | rfl | cases other
  | _ => rfl

/-- Its result is no function then. -/
theorem UnaryOp.apply_inert {w : Value} (done : op.apply v t = .ok w) : w.isCallable = false := by
  have scalar : ∀ {x : Except Fault Scalar}, (x >>= fun s => pure (.scalar s)) = Except.ok w →
      w.isCallable = false := by
    intro x h
    obtain ⟨s, -, same⟩ := Except.bind_eq_ok.1 h
    cases same
    rfl
  -- a conversion leaves alone only what has the type already, and otherwise makes a scalar
  have converted : ∀ checked, t.keeps v = false → v.convert t checked = .ok w → w.isCallable = false := by
    intro checked strange h
    cases t with
    | value t =>
      have apart : v.hasType t = false := strange
      unfold Value.convert at h
      simp only [apart, Bool.false_eq_true, if_false] at h
      cases t with
      | bool => cases h; rfl
      | float p =>
        obtain ⟨x, -, same⟩ := Except.bind_eq_ok.1 h
        cases same
        rfl
      | int i =>
        obtain ⟨s, -, rest⟩ := Except.bind_eq_ok.1 h
        exact scalar rest
    | _ => cases strange
  cases op with
  | convert => exact converted false other done
  | convertChecked => exact converted true other done
  | not | negate | negateChecked =>
    obtain ⟨s, -, rest⟩ := Except.bind_eq_ok.1 done
    exact scalar rest

end

namespace Regime

variable {r : Regime} {σ τ : Glossary} {slots : Int} {m m' : Machine}

/-! ## Parts of nodes -/

namespace Follows

/-- A result in a new box. -/
theorem boxResult (holds : r.Holds σ slots m) {x : Except Fault Value}
    (inert : ∀ v, x = .ok v → v.isCallable = false) :
    r.Follows Values σ slots (Course.ofResult x) (Run.boxResult x) m := by
  cases x with
  | ok v =>
    have retains := Machine.Retains.box m (m.nextIdentity + 1)
    exact of_eq rfl (holds.later retains rfl rfl rfl) retains (.value (.plain (inert v rfl)))
  | error f => exact fault holds f

theorem truth (holds : r.Holds σ slots m) (b : Bool) :
    r.Follows Values σ slots (Course.truth b) (Run.truth b) m :=
  boxResult (x := .ok (.scalar (.bool b))) holds fun v same => by cases same; rfl

theorem lookup {scope : Scope} {frame : Nat} (holds : r.Holds σ slots m) (shows : σ.Shows scope frame m)
    (p : Parameter) : r.Follows Values σ slots (Course.lookup scope p) (Run.lookup frame p) m := by
  have shown := shows.shown p.uid
  unfold Course.lookup
  generalize known : scope p.uid = s, found : m.frames.lookup frame p.uid = b at shown
  cases shown with
  | @some b s denotes => exact of_eq (Run.lookup_of_some found) holds (.refl m) (.value denotes)
  | none => exact of_eq (Run.lookup_of_none found) holds (.refl m) (.fault _)

theorem unary (holds : r.Holds σ slots m) (op : UnaryOp) (source target : StaticType) {v : Boxed} {s : Sense}
    (denotes : σ.Denotes v.value s) :
    r.Follows Values σ slots (Course.unary op target s) (Run.applyUnary op source target v) m := by
  unfold Course.unary Run.applyUnary
  rw [← denotes.anonymous, target.keeps_anonymous]
  refine ite (fun _ => of_pure holds denotes) fun other => ?_
  rw [Bool.not_eq_true] at other
  rw [UnaryOp.apply_anonymous other]
  exact boxResult holds fun w done => UnaryOp.apply_inert other done

theorem binary (holds : r.Holds σ slots m) (op : BinaryOp) {v w : Boxed} {s s' : Sense}
    (left : σ.Denotes v.value s) (right : σ.Denotes w.value s') :
    r.Follows Values σ slots (Course.ofResult (op.apply s.shown s'.shown))
      (Run.boxResult (op.apply v.value w.value)) m := by
  rw [← left.anonymous, ← right.anonymous, op.apply_anonymous]
  exact boxResult holds fun u done => BinaryOp.apply_inert done

/-- A split operation on two calls that are still to run. -/
theorem splitBinary (on : r.threading = true) (holds : r.Holds σ slots m) (op : BinaryOp)
    {c c' : Int → Course Sense} {left right : Run Boxed} (first : r.Awaits σ m c left)
    (second : r.Awaits σ m c' right) :
    r.Follows Values σ slots (Course.splitBinary op slots c c')
      (Run.splitBinary op left right r.context.pool) m := by
  unfold Course.splitBinary Run.splitBinary
  refine ite (fun _ => ?_) fun _ => fault holds _
  refine bind (operands on holds first second) fun τ m' vs ss more holds' retains pair => ?_
  exact binary holds' op pair.1 pair.2

/-! ## Frames and functions -/

/-- A variable and its value, in a machine and in a scope. -/
def Binds (σ : Glossary) (b : Nat × Boxed) (b' : Nat × Sense) : Prop :=
  b.1 = b'.1 ∧ σ.Denotes b.2.value b'.2

/-- A frame shows what it binds before what is shown around it. -/
theorem rel_bind {bindings : List (Nat × Boxed)} {senses : List (Nat × Sense)}
    (related : List.Forall₂ (Binds σ) bindings senses) {outer : Nat → Option Boxed} :
    ∀ (frame : Frame) (scope : Scope),
      (∀ u, Option.Rel (fun b s => σ.Denotes b.value s) ((frame.get? u).or (outer u)) (scope u)) →
      ∀ u, Option.Rel (fun b s => σ.Denotes b.value s)
        (((bindings.foldl (fun f b => f.set b.1 b.2) frame).get? u).or (outer u))
        (scope.bind senses u) := by
  induction related with
  | nil => exact fun _ _ shown => shown
  | @cons b b' _ _ first _ ih =>
    intro frame scope shown
    refine ih (frame.set b.1 b.2) (fun u => if u = b'.1 then some b'.2 else scope u) fun u => ?_
    rw [Frame.get?_set, first.1]
    by_cases same : u = b'.1
    · rw [if_pos same, if_pos same]
      exact .some first.2
    · rw [if_neg same, if_neg same]
      exact shown u

/-- A frame in a frame, and what is done in it. -/
theorem openFrame_bind {β : Type} {α : Type} {R : Glossary → Machine → α → β → Prop} {scope : Scope}
    {frame : Nat} (holds : r.Holds σ slots m) (shows : σ.Shows scope frame m)
    {bindings : List (Nat × Boxed)} {senses : List (Nat × Sense)}
    (related : List.Forall₂ (Binds σ) bindings senses) {c : Course β} {f : FrameId → Run α}
    (second : ∀ m' inner, r.Holds σ slots m' → m.Retains m' → σ.Shows (scope.bind senses) inner m' →
      r.since ≤ inner → m'.frames.get? inner = some (Frame.ofBindings (some frame) bindings) →
      r.Follows R σ slots c (f inner) m') :
    r.Follows R σ slots c (Run.openFrame (some frame) bindings >>= f) m := by
  have retains := Machine.Retains.push m (some frame) bindings
  have here : (m.frames.push (some frame) bindings).2.get? m.frames.frames.size =
      some (Frame.ofBindings (some frame) bindings) := by
    rw [Frames.get?_push, if_pos rfl]
    simp only [Frames.existing, Option.filter, shows.inside, decide_true, if_true]
  have shown : σ.Shows (scope.bind senses) m.frames.frames.size
      { m with frames := (m.frames.push (some frame) bindings).2 } := by
    refine ⟨Frames.lt_size_of_get? here, fun u => ?_⟩
    rw [Frames.lookup_push_new shows.inside]
    exact rel_bind related ⟨[], some frame⟩ scope shows.shown u
  refine (second _ m.frames.frames.size (holds.later retains rfl rfl rfl) retains shown holds.since
    here).of_later (.refl σ) retains ?_
  exact Run.bind_of_value rfl

/-- The frame of a block, and what is done in it. -/
theorem blockFrame_bind {β : Type} {α : Type} {R : Glossary → Machine → α → β → Prop} {scope : Scope}
    {frame : Nat} (holds : r.Holds σ slots m) (shows : σ.Shows scope frame m) (locals : List Parameter)
    {c : Course β} {f : FrameId → Run α}
    (second : ∀ m' inner, r.Holds σ slots m' → m.Retains m' → σ.Shows (scope.locals locals) inner m' →
      r.Follows R σ slots c (f inner) m') :
    r.Follows R σ slots c (Run.blockFrame frame locals >>= f) m := by
  unfold Run.blockFrame
  cases locals with
  | nil => exact second m frame holds (.refl m) shows
  | cons p ps =>
    have absent : List.Forall₂ (Binds σ) ((p :: ps).map fun p => (p.uid, Boxed.none))
        ((p :: ps).map fun p => (p.uid, .plain .none)) := by
      rw [List.forall₂_map_left_iff, List.forall₂_map_right_iff, List.forall₂_same]
      exact fun q _ => ⟨rfl, .plain rfl⟩
    exact openFrame_bind holds shows absent fun m' inner holds' retains shown _ _ =>
      second m' inner holds' retains shown

/-- A closure stands for a function over the scope of its frame. -/
theorem closure {scope : Scope} {frame : Nat} (holds : r.Holds σ slots m) (shows : σ.Shows scope frame m)
    (ps : List Expr) {body : Expr} (admitted : r.Admits body) :
    r.Follows Values σ slots (Course.function scope (ps.map Expr.uncached) body.uncached)
      (Run.closure r.context frame ps body) m := by
  have same : (ps.map Expr.uncached).mapM Expr.parameter? = ps.mapM Expr.parameter? := by
    rw [List.mapM_map]
    exact congrArg (fun f => List.mapM f ps) (funext Expr.parameter?_uncached)
  unfold Course.function Run.closure
  rw [same]
  cases ps.mapM Expr.parameter? with
  | none => exact fault holds _
  | some xs =>
    -- The new function is put down under its number, which has stood for nothing so far.
    let s : Sense := .function (xs.map fun p => p.uid) body.uncached scope
    have more := Glossary.extends_add holds.free s
    have retains := Machine.Retains.addFunction m
      (.closure (xs.map fun p => p.uid) body frame r.context)
    have placed : r.Placed (σ.add m.functions.size s) m.functions.size s { m with
        functions := m.functions.push (.closure (xs.map fun p => p.uid) body frame r.context) } :=
      ⟨_, _, scope, body, frame, rfl, by simp, rfl, admitted, shows.later more retains⟩
    have denotes : (σ.add m.functions.size s).Denotes (.closure m.functions.size) s :=
      .closure (if_pos rfl) rfl
    intro _
    exact ⟨.value s, ∅, _, rfl, more, holds.addFunction placed, retains, .value denotes,
      fun _ b impossible => impossible.elim⟩

end Follows

/-! ## Trees -/

/-- Calls that follow their courses, with calls nested at most so deep. -/
structure Interprets (r : Regime) (n : Nat) (i : Interpreter) : Prop where
  calls : ∀ {σ slots m} {f : Boxed} {s : Sense} {vs : List Boxed} {ss : List Sense}, r.Holds σ slots m →
    σ.Denotes f.value s → Lists σ m vs ss →
      r.Follows Values σ slots (r.recursion.call n slots s ss) (i.call f vs) m
  unary : i.unary = Run.applyUnary

/-- A tree that follows its course, whatever the frame and the scope. -/
def Evaluates [Host] (r : Regime) (n : Nat) (i : Interpreter) (fuel : Nat) (e : Expr) : Prop :=
  ∀ ⦃σ slots m frame scope⦄, r.Holds σ slots m → σ.Shows scope frame m →
    r.Follows Values σ slots (e.uncached.course (r.recursion.call n) fuel slots scope)
      (e.eval i fuel r.context frame) m

/-- A call that is put off, and the function and the arguments that its course has. -/
inductive Defers (r : Regime) (τ : Glossary) (m : Machine) : Deferred → Sense × List Sense → Prop
  | call {f vs s ss} (callee : τ.Denotes f.value s) (arguments : Lists τ m vs ss) :
      Defers r τ m (.call f vs) (s, ss)
  | cached {f v s s'} (on : r.caching = true) (callee : τ.Denotes f.value s)
      (argument : τ.Denotes v.value s') : Defers r τ m (.cached r.cache f v) (s, [s'])

/-- A call that is put off along its course. -/
def PutsOff [Host] (r : Regime) (n : Nat) (i : Interpreter) (fuel : Nat) (e : Expr) : Prop :=
  ∀ ⦃σ slots m frame scope⦄, r.Holds σ slots m → σ.Shows scope frame m →
    r.Follows r.Defers σ slots (e.uncached.deferredCourse (r.recursion.call n) fuel slots scope)
      (e.putOff i fuel r.context frame) m

variable {n fuel : Nat} {i : Interpreter} {frame : Nat} {scope : Scope}

namespace Evaluates

variable [Host]

theorem evalAll {es : List Expr} (each : ∀ e ∈ es, r.Evaluates n i fuel e) (holds : r.Holds σ slots m)
    (shows : σ.Shows scope frame m) :
    r.Follows Lists σ slots (Expr.courses (r.recursion.call n) fuel slots scope (es.map Expr.uncached))
      (Expr.evalAll i fuel r.context frame es) m := by
  induction es generalizing σ m with
  | nil => exact .of_pure holds .nil
  | cons e es ih =>
    obtain ⟨first, rest⟩ := List.forall_mem_cons.1 each
    refine (first holds shows).bind fun τ m' v s more holds' retains denotes => ?_
    refine (ih rest holds' (shows.later more retains)).bind fun υ m'' vs ss more' holds'' _ denoted => ?_
    exact .of_pure holds'' (.cons (Glossary.Denotes.extend denotes more') denoted)

theorem evalOption {d : Option Expr} (each : ∀ e ∈ d.toList, r.Evaluates n i fuel e)
    (holds : r.Holds σ slots m) (shows : σ.Shows scope frame m) :
    r.Follows Values σ slots
      (Expr.courseOption (r.recursion.call n) fuel slots scope (d.map Expr.uncached))
      (Expr.evalOption i fuel r.context frame d) m := by
  cases d with
  | none => exact .of_pure holds (.plain rfl)
  | some e => exact each e List.mem_cons_self holds shows

theorem runBlock {es : List Expr} (each : ∀ e ∈ es, r.Evaluates n i fuel e) (holds : r.Holds σ slots m)
    (shows : σ.Shows scope frame m) :
    let legs := Expr.legs (r.recursion.call n) fuel slots scope (es.map Expr.uncached)
    r.Follows Values σ slots (Course.Leg.blockFrom legs fuel legs (.plain .none))
      (Step.runBlock fuel (Expr.steps i fuel r.context frame es)) m := by
  have steps : List.Forall₂ (Follows.Steps r σ slots m) (Expr.steps i fuel r.context frame es)
      (Expr.legs (r.recursion.call n) fuel slots scope (es.map Expr.uncached)) := by
    rw [Expr.steps_eq_map, Expr.legs_eq_map, List.map_map, List.forall₂_map_left_iff,
      List.forall₂_map_right_iff, List.forall₂_same]
    intro e member
    refine ⟨e.labelUid?_uncached.symm, fun τ m' more holds' retains => ?_⟩
    exact each e member holds' (shows.later more retains)
  exact Follows.runFrom fuel steps steps holds (.plain rfl)

/-- Where two trees follow their courses one after the other. -/
theorem two {a b : Expr} (left : r.Evaluates n i fuel a) (right : r.Evaluates n i fuel b)
    (holds : r.Holds σ slots m) (shows : σ.Shows scope frame m) {α β : Type}
    {R : Glossary → Machine → α → β → Prop} {c : Sense → Sense → Course β} {f : Boxed → Boxed → Run α}
    (second : ∀ τ m' v w s s', r.Holds τ slots m' → τ.Denotes v.value s → τ.Denotes w.value s' →
      r.Follows R τ slots (c s s') (f v w) m') :
    r.Follows R σ slots
      (do
        let s ← a.uncached.course (r.recursion.call n) fuel slots scope
        let s' ← b.uncached.course (r.recursion.call n) fuel slots scope
        c s s')
      (do
        let v ← a.eval i fuel r.context frame
        let w ← b.eval i fuel r.context frame
        f v w) m := by
  refine (left holds shows).bind fun τ m' v s more holds' retains denotes => ?_
  refine (right holds' (shows.later more retains)).bind fun υ m'' w s' more' holds'' _ denotes' => ?_
  exact second υ m'' v w s s' holds'' (Glossary.Denotes.extend denotes more') denotes'

/-- A truth value in a box. -/
theorem truth_of {a : Expr} (h : r.Evaluates n i fuel a) (holds : r.Holds σ slots m)
    (shows : σ.Shows scope frame m) :
    r.Follows Values σ slots
      (do
        let s ← a.uncached.course (r.recursion.call n) fuel slots scope
        Course.truth s.shown.truthy)
      (do
        let v ← a.eval i fuel r.context frame
        Run.truth v.value.truthy) m := by
  refine (h holds shows).bind fun τ m' v s _ holds' _ denotes => ?_
  rw [← Glossary.Denotes.anonymous denotes, v.value.truthy_anonymous]
  exact .truth holds' _

/-- A choice by a condition. -/
theorem choose {a : Expr} (test : r.Evaluates n i fuel a) (holds : r.Holds σ slots m)
    (shows : σ.Shows scope frame m) {c d : Course Sense} {x y : Run Boxed}
    (left : ∀ τ m', σ.Extends τ → r.Holds τ slots m' → m.Retains m' → r.Follows Values τ slots c x m')
    (right : ∀ τ m', σ.Extends τ → r.Holds τ slots m' → m.Retains m' → r.Follows Values τ slots d y m') :
    r.Follows Values σ slots
      (do
        let s ← a.uncached.course (r.recursion.call n) fuel slots scope
        if s.shown.truthy then c else d)
      (do
        let v ← a.eval i fuel r.context frame
        if v.value.truthy then x else y) m := by
  refine (test holds shows).bind fun τ m' v s more holds' retains denotes => ?_
  rw [← Glossary.Denotes.anonymous denotes, v.value.truthy_anonymous]
  exact .ite (fun _ => left τ m' more holds' retains) fun _ => right τ m' more holds' retains

end Evaluates

namespace Interprets

variable (h : r.Interprets n i)
include h

/-- A call that has been put off may run on any later machine. -/
theorem deferred {call : Deferred} {pair : Sense × List Sense} (d : r.Defers σ m call pair) :
    r.Awaits σ m (fun k => r.recursion.call n k pair.1 pair.2) (call.run i) := by
  intro τ slots m' more holds retains
  cases d with
  | call callee arguments => exact h.calls holds (callee.extend more) (arguments.extend more)
  | cached on callee argument =>
    refine .lookupOrCompute on holds (callee.extend more) (argument.extend more)
      fun υ m'' more' holds' _ => ?_
    have whole := more.trans more'
    exact h.calls holds' (callee.extend whole) (.cons (argument.extend whole) .nil)

omit h in
/-- What is evaluated of a call that is put off. -/
theorem putOff [Host] {e : Expr} (admitted : r.AdmitsNode e)
    (each : ∀ c ∈ e.children, r.Evaluates n i fuel c) :
    r.PutsOff n i fuel e := by
  intro σ slots m frame scope holds shows
  cases e with
  | invoke f args t =>
    have callee : r.Evaluates n i fuel f := each f List.mem_cons_self
    have arguments : ∀ a ∈ args, r.Evaluates n i fuel a :=
      fun a member => each a (List.mem_cons_of_mem _ member)
    rw [Expr.uncached, Expr.uncachedAll_eq]
    refine (callee holds shows).bind fun τ m' v s more holds' retains denotes => ?_
    refine (Evaluates.evalAll arguments holds' (shows.later more retains)).bind
      fun υ m'' vs ss more' holds'' _ denoted => ?_
    exact .of_pure holds'' (.call (Glossary.Denotes.extend denotes more') denoted)
  | cached f a t cache =>
    obtain ⟨on, same⟩ := admitted
    have callee : r.Evaluates n i fuel f := each f List.mem_cons_self
    have argument : r.Evaluates n i fuel a := each a (List.mem_cons_of_mem _ List.mem_cons_self)
    simp only [Expr.uncached, Expr.deferredCourse, Expr.courses_singleton, bind_assoc, pure_bind]
    unfold Expr.putOff
    simp only [same]
    refine callee.two argument holds shows fun υ m'' v w s s' holds'' denotes denotes' => ?_
    exact .of_pure holds'' (.cached on denotes denotes')
  | _ => exact .fault holds _

/-- A node follows its course if its parts do, also where a part is put off. -/
theorem node [Host] {e : Expr} (admitted : r.AdmitsNode e) (parts : ∀ c ∈ e.parts, r.Admits c)
    (each : ∀ c ∈ e.children, r.Evaluates n i fuel c) (later : ∀ c ∈ e.children, r.PutsOff n i fuel c) :
    r.Evaluates n i fuel e := by
  intro σ slots m frame scope holds shows
  -- each case runs the parts one after the other, each on the machine that the one before has left
  cases e with
  | constant v t =>
    have inert : v.value.isCallable = false := by simpa [AdmitsNode, Expr.isSelfContained] using admitted
    exact .of_pure holds (.plain inert)
  | parameter x => exact .lookup holds shows x
  | unary op a t =>
    have operand : r.Evaluates n i fuel a := each a List.mem_cons_self
    unfold Expr.uncached Expr.course Expr.eval
    rw [h.unary]
    exact (operand holds shows).bind fun τ m' v s _ holds' _ denotes => .unary holds' op a.type t denotes
  | binary op a b t =>
    have left : r.Evaluates n i fuel a := each a List.mem_cons_self
    have right : r.Evaluates n i fuel b := each b (List.mem_cons_of_mem _ List.mem_cons_self)
    have other : op ≠ .assign := by simpa [AdmitsNode, Expr.isSelfContained] using admitted
    cases strict : op.isShortCircuit with
    | false =>
      rw [Expr.eval_binary_of_strict _ _ _ _ other strict, Expr.uncached,
        Expr.course_binary_of_strict other strict]
      exact left.two right holds shows fun υ m'' v w s s' holds'' denotes denotes' =>
        .binary holds'' op denotes denotes'
    | true =>
      cases op with
      | andAlso =>
        exact left.choose holds shows
          (fun τ m' more holds' retains => right.truth_of holds' (shows.later more retains))
          fun τ m' _ holds' _ => .truth holds' false
      | orElse =>
        exact left.choose holds shows (fun τ m' _ holds' _ => .truth holds' true)
          fun τ m' more holds' retains => right.truth_of holds' (shows.later more retains)
      | _ => cases strict
  | conditional a b c t =>
    have test : r.Evaluates n i fuel a := each a List.mem_cons_self
    have ifTrue : r.Evaluates n i fuel b := each b (by simp [Expr.children])
    have ifFalse : r.Evaluates n i fuel c := each c (by simp [Expr.children])
    exact test.choose holds shows
      (fun τ m' more holds' retains => ifTrue holds' (shows.later more retains))
      fun τ m' more holds' retains => ifFalse holds' (shows.later more retains)
  | invoke f args t =>
    have callee : r.Evaluates n i fuel f := each f List.mem_cons_self
    have arguments : ∀ a ∈ args, r.Evaluates n i fuel a :=
      fun a member => each a (List.mem_cons_of_mem _ member)
    rw [Expr.uncached, Expr.uncachedAll_eq]
    refine (callee holds shows).bind fun τ m' v s more holds' retains denotes => ?_
    refine (Evaluates.evalAll arguments holds' (shows.later more retains)).bind
      fun υ m'' vs ss more' holds'' _ denoted => ?_
    exact h.calls holds'' (Glossary.Denotes.extend denotes more') denoted
  | cached f a t cache =>
    -- only a regime that caches admits the node, and the course is that of the call alone
    obtain ⟨on, same⟩ := admitted
    have callee : r.Evaluates n i fuel f := each f List.mem_cons_self
    have argument : r.Evaluates n i fuel a := each a (List.mem_cons_of_mem _ List.mem_cons_self)
    simp only [Expr.uncached, Expr.course, Expr.courses_singleton, bind_assoc, pure_bind]
    unfold Expr.eval
    rw [same]
    refine callee.two argument holds shows fun υ m'' v w s s' holds'' denotes denotes' => ?_
    refine .lookupOrCompute on holds'' denotes denotes' fun τ m' more holds' _ => ?_
    exact h.calls holds' (denotes.extend more) (.cons (denotes'.extend more) .nil)
  | block vs es t =>
    rw [Expr.uncached, Expr.uncachedAll_eq]
    exact .blockFrame_bind holds shows vs fun m' inner holds' _ shown => Evaluates.runBlock each holds' shown
  | label l d t =>
    rw [Expr.uncached, Expr.uncachedOption_eq]
    exact Evaluates.evalOption each holds shows
  | goto k l v t =>
    rw [Expr.uncached, Expr.uncachedOption_eq]
    refine (Evaluates.evalOption each holds shows).bind fun τ m' w s _ holds' _ denotes => ?_
    exact .of_eq rfl holds' (.refl m') (.jump l.uid denotes)
  | loop a b c t =>
    have turn : r.Evaluates n i fuel a := each a List.mem_cons_self
    exact .loop _ _ fuel (fun τ m' more holds' retains => turn holds' (shows.later more retains)) holds
  | lambda ps a t =>
    have body : r.Admits a := parts a (by simp [Expr.parts])
    rw [Expr.uncached, Expr.uncachedAll_eq]
    exact .closure holds shows ps body
  | parallel op a b t pool =>
    obtain ⟨on, same⟩ := admitted
    have left : r.PutsOff n i fuel a := later a List.mem_cons_self
    have right : r.PutsOff n i fuel b := later b (List.mem_cons_of_mem _ List.mem_cons_self)
    rw [Expr.eval_parallel, same]
    refine (left holds shows).bind fun τ m' call pair more holds' retains defers => ?_
    refine (right holds' (shows.later more retains)).bind
      fun υ m'' call' pair' more' holds'' retains' defers' => ?_
    exact .splitBinary on holds'' op ((h.deferred defers).later more' retains') (h.deferred defers')
  | strange v t => exact .fault holds _
  | bare t => exact .fault holds _
  -- of these a self-contained tree has none
  | member a name t => exact absurd admitted Bool.false_ne_true
  | hostCall f args t => exact absurd admitted Bool.false_ne_true

/-- A tree that the regime admits follows its course. -/
theorem eval [Host] {e : Expr} (admitted : r.Admits e) : r.Evaluates n i fuel e := by
  -- a split evaluates the parts of the calls that it has for operands, so both are proved together
  suffices both : r.Evaluates n i fuel e ∧ r.PutsOff n i fuel e from both.1
  induction e using Expr.of_children with
  | node e ih =>
    obtain ⟨here, parts⟩ := r.admits_iff.1 admitted
    have each := fun c child => ih c child (parts c (Expr.mem_parts_of_mem_children child))
    exact ⟨h.node here parts (fun c child => (each c child).1) fun c child => (each c child).2,
      putOff here fun c child => (each c child).1⟩

end Interprets

/-! ## Calls -/

/-- The variables of a function and the arguments, in a machine and in a scope. -/
theorem binds_zip (ps : List Nat) {vs : List Boxed} {ss : List Sense} (denoted : Lists σ m vs ss) :
    List.Forall₂ (Follows.Binds σ) (ps.zip vs) (ps.zip ss) := by
  unfold Lists at denoted
  induction denoted generalizing ps with
  | nil =>
    rw [List.zip_nil_right, List.zip_nil_right]
    exact .nil
  | cons first _ ih =>
    cases ps with
    | nil => exact .nil
    | cons p ps => exact .cons ⟨rfl, first⟩ (ih ps)

/-- The frame of a call has the argument that its parameter is given. -/
theorem gave_of_given {ps : List Nat} {vs : List Boxed} {ss : List Sense} {inner : FrameId}
    {parent : Option FrameId} (denoted : Lists σ m vs ss) (new : r.since ≤ inner)
    (here : m'.frames.get? inner = some (Frame.ofBindings parent (ps.zip vs))) {b : Nat × Value}
    (given : b ∈ Recursion.given ps ss) : m'.Gave r.since b := by
  unfold Recursion.given at given
  split at given
  next u v =>
    rcases given with rfl
    obtain - | @⟨box, _, _, _, denotes, rest⟩ := denoted
    cases rest
    exact ⟨inner, new, _, box, here, rfl, denotes.eq_of_plain.1⟩
  next => exact given.elim

/-- Calls follow their courses, by induction on how deep they nest. -/
theorem interprets_call [Host] (r : Regime) (n : Nat) : r.Interprets n ⟨Run.call n, Run.applyUnary⟩ := by
  induction n with
  | zero => exact ⟨fun _ _ _ => .endless rfl, rfl⟩
  | succ n ih =>
    refine ⟨?_, rfl⟩
    intro σ slots m f s vs ss holds callee denoted
    generalize shape : f.value = v at callee
    cases callee with
    | plain inert =>
      have same : Run.call (n + 1) f vs m = (.fault .wrongKind, m) := by
        unfold Run.call Run.callBy
        rw [shape]
        cases v <;> first | rfl | cases inert
      exact .of_eq same holds (.refl m) (.fault _)
    | @closure k _ held _ =>
      -- The glossary knows the frame that the closure was made in, and what the scope of the function is.
      obtain ⟨ps, body, scope, tree, frame, parts, there, rfl, admitted, shows⟩ := holds.placed k s held
      have same : Run.call (n + 1) f vs m =
          Run.apply ⟨Run.call n, Run.applyUnary⟩ n (.closure ps tree frame r.context) vs m :=
        Run.call_of_closure shape there n vs
      refine Follows.of_later ?_ (.refl σ) (.refl m) same
      have counted : vs.length = ss.length := List.Forall₂.length_eq denoted
      rw [Recursion.call, parts, Run.apply, counted]
      refine .ite (fun fits => ?_) fun _ => .fault holds _
      refine .openFrame_bind holds shows (binds_zip ps denoted) fun m' inner holds' retains shown new here => ?_
      refine .after (.sealed (ih.eval admitted holds' shown)) fun _ b given => ?_
      exact gave_of_given denoted new here given

end Regime

end Knot
