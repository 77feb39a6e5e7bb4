import Knot.Proofs.Jumps.Calls
import Knot.Proofs.Transparency.Evaluation

/-!
# Calls from outside

From outside a function is a pure function around a closure, or a closure as it is (`Outer`). A call of it on
arguments, of the result on further arguments, and so on, follows a course as well
(`Regime.Follows.callChain`), and so a sequence of such requests is settled (`Regime.settles_serve`).
-/

namespace Knot

/-! ## Functions from outside -/

/-- What a value stands for outside: for what it stands for inside, or for a pure function around it. -/
inductive Outer where
  | bare (s : Sense)
  | wrapped (params : List StaticType) (result : StaticType) (s : Sense)

def Outer.isFunction : Outer → Bool
  | .bare s => s.isFunction
  | .wrapped _ _ _ => true

/-- What a result of a type stands for: a function is wrapped if it has the type of one. -/
def Outer.ofResult (t : StaticType) (s : Sense) : Outer :=
  match t with
  | .func params result => if s.isFunction then .wrapped params result s else .bare s
  | _ => .bare s

namespace Course

/-- The course of a coercion. -/
def coerce (t : StaticType) (v : Value) : Course Sense :=
  if t.keeps v then pure (.plain v) else ofResult (t.coerce v)

/-- The course of the coercion of the arguments of a pure function. -/
def coerceAll : List StaticType → List Value → Course (List Sense)
  | t :: ts, v :: vs => do
    let s ← coerce t v
    let ss ← coerceAll ts vs
    pure (s :: ss)
  | _, _ => pure []

/-- Goes on if the nesting of calls that is asked for is granted. -/
def granted (asked : Except Fault Unit) : Course Unit :=
  match asked with
  | .ok _ => pure ()
  | .error _ => done .fault

end Course

namespace Recursion

variable (d : Recursion) (asked : Except Fault Unit)

/-- The course of a call from outside. -/
def apply (n : Nat) (slots : Int) : Outer → List Value → Course Outer
  | .bare s, args => do
    let s' ← d.call n slots s (args.map .plain)
    pure (.bare s')
  | .wrapped params result s, args =>
    match n with
    | 0 => Course.endless
    | n + 1 =>
      if args.length = params.length then do
        let ss ← Course.coerceAll params args
        let _ ← Course.granted asked
        let s' ← d.call n slots s ss
        pure (.ofResult result s')
      else Course.done .fault

/-- The course of a call, of a call of the result, and so on. -/
def applyAll (n : Nat) (slots : Int) : Outer → List (List Value) → Course Outer
  | s, [] => pure s
  | s, args :: rest => do
    let s' ← d.apply asked n slots s args
    applyAll n slots s' rest

end Recursion

namespace Regime

variable {r : Regime} {σ τ : Glossary} {slots : Int} {m m' : Machine}

/-- A value as it is seen from outside. -/
inductive Outside (τ : Glossary) (m : Machine) : Boxed → Outer → Prop
  | bare {v s} (denotes : τ.Denotes v.value s) : Outside τ m v (.bare s)
  | wrapped {v inner s} {g : PureFunction} (compiled : v.value = .compiled g)
      (there : m.functions[g.id]? = some (.wrapper inner)) (denotes : τ.Denotes inner.value s) :
      Outside τ m v (.wrapped g.params g.result s)

theorem Outside.later {v : Boxed} {o : Outer} (h : Outside σ m v o) (more : σ.Extends τ)
    (retains : m.Retains m') : Outside τ m' v o := by
  cases h with
  | bare denotes => exact .bare (denotes.extend more)
  | wrapped compiled there denotes =>
    exact .wrapped compiled (retains.functions _ _ there) (denotes.extend more)

theorem Outside.isCallable {v : Boxed} {o : Outer} (h : Outside σ m v o) :
    v.value.isCallable = o.isFunction := by
  cases h with
  | bare denotes => exact denotes.isCallable
  | wrapped compiled =>
    rw [compiled]
    rfl

namespace Follows

theorem coerce (holds : r.Holds σ slots m) (t : StaticType) {v : Boxed} (inert : v.value.isCallable = false) :
    r.Follows Values σ slots (Course.coerce t v.value) (Run.coerce t v) m := by
  unfold Course.coerce Run.coerce
  refine ite (fun _ => of_pure holds (.plain inert)) fun other => boxResult holds fun w coerced => ?_
  cases t with
  | value t =>
    have typed := ValueType.coerce_hasType coerced
    cases w <;> first | rfl | cases typed
  | _ => exact absurd rfl other

theorem coerceAll {args : List Boxed} (inert : ∀ v ∈ args, v.value.isCallable = false) :
    ∀ {σ m} (ts : List StaticType), r.Holds σ slots m →
      r.Follows Lists σ slots (Course.coerceAll ts (args.map fun v => v.value)) (Run.coerceAll ts args) m := by
  induction args with
  | nil =>
    intro σ m ts holds
    cases ts <;> exact of_pure holds .nil
  | cons v vs ih =>
    obtain ⟨first, rest⟩ := List.forall_mem_cons.1 inert
    intro σ m ts holds
    cases ts with
    | nil => exact of_pure holds .nil
    | cons t ts =>
      refine (coerce holds t first).bind fun τ m' w s _ holds' _ denotes => ?_
      refine (ih rest ts holds').bind fun υ m'' ws ss more holds'' _ denoted => ?_
      exact of_pure holds'' (.cons (Glossary.Denotes.extend denotes more) denoted)

/-- A result is wrapped along with what it stands for. -/
theorem wrapResult (holds : r.Holds σ slots m) (g : PureFunction) {v : Boxed} {s : Sense}
    (denotes : σ.Denotes v.value s) :
    r.Follows Outside σ slots (pure (.ofResult g.result s)) (Run.wrapResult g v) m := by
  have bare : r.Follows Outside σ slots (pure (.bare s)) (pure v) m := of_pure holds (.bare denotes)
  obtain ⟨id, name, inputs, type, caching, threading⟩ := g
  cases type with
  | func params result =>
    unfold Run.wrapResult Outer.ofResult
    simp only [denotes.isCallable]
    cases s.isFunction with
    | false => exact bare
    | true =>
      have retains := Machine.Retains.addFunction m (.wrapper v)
      refine of_eq rfl (holds.later retains rfl rfl rfl) retains (.value ?_)
      exact .wrapped (g := ⟨m.functions.size, name, params, result, caching, threading⟩) rfl
        Array.getElem?_push_size denotes
  | _ => exact bare

theorem granted {asked : Except Fault Unit} (nesting : m.settings.askNesting = asked)
    (holds : r.Holds σ slots m) :
    r.Follows (fun _ _ _ _ => True) σ slots (Course.granted asked) Run.askNesting m := by
  have same : Run.askNesting m = Run.lift asked m := by rw [← nesting]; rfl
  refine of_later ?_ (.refl σ) (.refl m) same
  cases asked with
  | ok => exact of_pure holds trivial
  | error f => exact fault holds f

/-- A call of a pure function. -/
theorem applyPure [Host] {asked : Except Fault Unit} (nesting : m.settings.askNesting = asked)
    (holds : r.Holds σ slots m) {g : PureFunction} {inner : Boxed} {s : Sense}
    (there : m.functions[g.id]? = some (.wrapper inner)) (denotes : σ.Denotes inner.value s)
    {args : List Boxed} (inert : ∀ v ∈ args, v.value.isCallable = false) (n : Nat) :
    r.Follows Outside σ slots
      (if args.length = g.params.length then do
        let ss ← Course.coerceAll g.params (args.map fun v => v.value)
        let _ ← Course.granted asked
        let s' ← r.recursion.call n slots s ss
        pure (.ofResult g.result s')
      else Course.done .fault)
      (Run.applyPure (Run.call n) g args) m := by
  unfold Run.applyPure
  refine ite (fun _ => ?_) fun _ => of_eq rfl holds (.refl m) (.fault _)
  refine (coerceAll inert g.params holds).bind fun τ m₁ vs ss more holds₁ retains values => ?_
  have nesting₁ : m₁.settings.askNesting = asked := by rw [retains.settings, nesting]
  refine (granted nesting₁ holds₁).bind fun τ' m₂ _ _ more' holds₂ retains' _ => ?_
  -- the function is still there, and so is what it stands for
  have found := Run.callable_of_some (retains'.functions _ _ (retains.functions _ _ there))
  refine of_later ?_ (.refl τ') (.refl m₂) (Run.bind_of_value found)
  have callee := denotes.extend (more.trans more')
  have arguments : Lists τ' m₂ vs ss := Lists.extend values more'
  refine ((r.interprets_call n).calls holds₂ callee arguments).bind fun υ m₃ v s' _ holds₃ _ result => ?_
  exact (wrapResult holds₃ (m₃.current g) result).of_later (.refl υ) (.refl m₃) (Run.bind_of_value rfl)

/-- A call from outside follows its course. -/
theorem applied [Host] {asked : Except Fault Unit} (nesting : m.settings.askNesting = asked)
    (holds : r.Holds σ slots m) {f : Boxed} {o : Outer} (outside : Outside σ m f o) {args : List Boxed}
    (inert : ∀ v ∈ args, v.value.isCallable = false) (n : Nat) :
    r.Follows Outside σ slots (r.recursion.apply asked n slots o (args.map fun v => v.value))
      (Run.call n f args) m := by
  cases outside with
  | bare denotes =>
    have denoted : Lists σ m args ((args.map fun v => v.value).map .plain) := by
      unfold Lists
      rw [List.map_map, List.forall₂_map_right_iff, List.forall₂_same]
      exact fun v member => .plain (inert v member)
    rw [← bind_pure (Run.call n f args)]
    refine ((r.interprets_call n).calls holds denotes denoted).bind fun τ m' v s _ holds' _ result => ?_
    exact of_pure holds' (.bare result)
  | @wrapped inner s g compiled there denotes =>
    cases n with
    | zero => exact endless rfl
    | succ n =>
      have same : Run.call (n + 1) f args m = Run.applyPure (Run.call n) g args m := by
        unfold Run.call Run.callBy
        rw [compiled]
      have follows := applyPure nesting holds there denotes inert n
      rw [← List.length_map (fun v : Boxed => v.value)] at follows
      exact follows.of_later (.refl σ) (.refl m) same

/-- So do a call, a call of its result, and so on. -/
theorem callChain [Host] {asked : Except Fault Unit} (n : Nat) {chain : List (List Boxed)}
    (inert : ∀ args ∈ chain, ∀ v ∈ args, v.value.isCallable = false) :
    ∀ {σ m f o}, m.settings.askNesting = asked → r.Holds σ slots m → Outside σ m f o →
      r.Follows Outside σ slots
        (r.recursion.applyAll asked n slots o (chain.map fun args => args.map fun v => v.value))
        (Run.callChain n f chain) m := by
  induction chain with
  | nil => exact fun _ holds outside => of_pure holds outside
  | cons args rest ih =>
    obtain ⟨first, others⟩ := List.forall_mem_cons.1 inert
    intro σ m f o nesting holds outside
    refine (applied nesting holds outside first n).bind fun τ m' g o' _ holds' retains outside' => ?_
    exact ih others (by rw [retains.settings, nesting]) holds' outside'

end Follows

end Regime

/-! ## Sequences -/

/-- A call from outside, of the result on further arguments, and so on, with so much fuel. -/
structure Request where
  fuel : Nat
  chain : List (List Boxed)

namespace Request

/-- No argument is a function. -/
def Inert (q : Request) : Prop := ∀ args ∈ q.chain, ∀ v ∈ args, v.value.isCallable = false

def run [Host] (q : Request) (f : Boxed) : Run Boxed := Run.callChain q.fuel f q.chain

/-- The course of a request. -/
def course (q : Request) (d : Recursion) (asked : Except Fault Unit) (slots : Int) (o : Outer) :
    Course Outer :=
  d.applyAll asked q.fuel slots o (q.chain.map fun args => args.map fun v => v.value)

/-- No jump is left. -/
theorem run_ne_jump [Host] [Host.IsQuiet] (q : Request) (f : Boxed) (m : Machine) (target : Nat) (v : Boxed) :
    (q.run f m).1 ≠ .jump target v := by
  intro out
  have among := (Confinement.callAll (Confinement.none.call q.fuel) q.chain f m trivial).1
  have same : Run.callAll (Run.call q.fuel) f q.chain m = q.run f m := rfl
  rw [same, out] at among
  exact among

end Request

/-- One request after another, whatever their outcomes. -/
def Run.serve [Host] (f : Boxed) : List Request → Machine → List (Outcome Boxed) × Machine
  | [], m => ([], m)
  | q :: rest, m =>
    let first := q.run f m
    let others := serve f rest first.2
    (first.1 :: others.1, others.2)

/-- Whether two calls end alike: in one value, in functions, or in faults. -/
inductive Outcome.Resembles : Outcome Boxed → Outcome Boxed → Prop
  | value {v w : Boxed} (same : v.value = w.value) (inert : w.value.isCallable = false) :
      Resembles (.value v) (.value w)
  | function {v w : Boxed} (left : v.value.isCallable = true) (right : w.value.isCallable = true) :
      Resembles (.value v) (.value w)
  | fault (f f' : Fault) : Resembles (.fault f) (.fault f')

namespace Regime

variable {r : Regime} {σ τ : Glossary} {slots : Int} {m m' : Machine}

/-- How a request has been settled in a sequence that has come to a machine. -/
structure Settles (r : Regime) (asked : Except Fault Unit) (slots : Int) (o : Outer) (last : Machine)
    (q : Request) (outcome : Outcome Boxed) : Prop where
  ends : ∃ e given, q.course r.recursion asked slots o = some (e, given) ∧
    (r.caching = false → ∀ b ∈ given, last.Gave r.since b) ∧ ∃ τ m, Matches τ (Outside τ m) e outcome
  caught : ∀ target v, outcome ≠ .jump target v

/-- A sequence of requests is settled if all of their courses are known to end, or all of the requests where
nothing is cached. -/
theorem settles_serve [Host] [Host.IsQuiet] {asked : Except Fault Unit} {f : Boxed} {o : Outer}
    {qs : List Request} (inert : ∀ q ∈ qs, q.Inert) (nesting : m.settings.askNesting = asked)
    (holds : r.Holds σ slots m) (outside : Outside σ m f o)
    (alive : (∀ q ∈ qs, ∃ e given, q.course r.recursion asked slots o = some (e, given) ∧
        given ⊆ r.admitted) ∨
      (r.caching = false ∧ ∀ out ∈ (Run.serve f qs m).1, out ≠ .exhausted)) :
    m.Retains (Run.serve f qs m).2 ∧
      List.Forall₂ (r.Settles asked slots o (Run.serve f qs m).2) qs (Run.serve f qs m).1 := by
  induction qs generalizing σ m with
  | nil => exact ⟨.refl m, .nil⟩
  | cons q qs ih =>
    obtain ⟨first, others⟩ := List.forall_mem_cons.1 inert
    -- What the requests after the first one do is known on the machine that it leaves.
    have aliveFirst : r.Alive (q.course r.recursion asked slots o) (q.run f m).1 :=
      alive.imp (fun known => known q List.mem_cons_self)
        fun ended => ⟨ended.1, ended.2 _ List.mem_cons_self⟩
    obtain ⟨e, given, τ, ended, more, holds', retains, outcome, gave⟩ :=
      Follows.callChain q.fuel first nesting holds outside aliveFirst
    have later := ih others (by rw [retains.settings, nesting]) holds' (outside.later more retains)
      (alive.imp (fun known q inside => known q (List.mem_cons_of_mem _ inside))
        fun ended => ⟨ended.1, fun out inside => ended.2 out (List.mem_cons_of_mem _ inside)⟩)
    refine ⟨retains.trans later.1, .cons ⟨?_, q.run_ne_jump f m⟩ later.2⟩
    exact ⟨e, given, ended, fun off b inside => (gave off b inside).later later.1, τ, _, outcome⟩

/-- Two runs along one course end alike. -/
theorem Matches.resembles {m₁ m₂ : Machine} {e : Ending Outer} {out out' : Outcome Boxed}
    (left : Matches σ (Outside σ m₁) e out) (right : Matches τ (Outside τ m₂) e out')
    (caught : ∀ target v, out ≠ .jump target v) : out.Resembles out' := by
  cases left with
  | fault f =>
    cases right with
    | fault f' => exact .fault f f'
  | jump => exact absurd rfl (caught _ _)
  | @value v o outside =>
    cases right with
    | @value w _ outside' =>
      cases function : o.isFunction with
      | true => exact .function (outside.isCallable.trans function) (outside'.isCallable.trans function)
      | false =>
        -- Only what stands for itself is no function.
        match o, function, outside, outside' with
        | .bare (.plain _), _, .bare denotes, .bare denotes' =>
          obtain ⟨same, inert⟩ := denotes'.eq_of_plain
          exact .value (denotes.eq_of_plain.1.trans same.symm) (by rw [same]; exact inert)

/-- What a sequence without caching gives to functions is in the frames of the machine that it comes to. -/
theorem Settles.given {asked : Except Fault Unit} {o : Outer} {last : Machine} {qs : List Request}
    {outs : List (Outcome Boxed)} (settled : List.Forall₂ (r.Settles asked slots o last) qs outs)
    (off : r.caching = false) :
    ∀ q ∈ qs, ∃ e given, q.course r.recursion asked slots o = some (e, given) ∧
      given ⊆ { b | last.Gave r.since b } := by
  induction settled with
  | nil => exact fun q inside => absurd inside List.not_mem_nil
  | cons first _ ih =>
    refine List.forall_mem_cons.2 ⟨?_, ih⟩
    obtain ⟨e, given, ended, gave, -⟩ := first.ends
    exact ⟨e, given, ended, gave off⟩

/-- Two sequences along the same courses end alike. -/
theorem Settles.resemble {r' : Regime} (same : r'.recursion = r.recursion) {asked : Except Fault Unit}
    {o : Outer} {last last' : Machine} {qs : List Request} {outs outs' : List (Outcome Boxed)}
    (left : List.Forall₂ (r.Settles asked slots o last) qs outs)
    (right : List.Forall₂ (r'.Settles asked slots o last') qs outs') :
    List.Forall₂ Outcome.Resembles outs outs' := by
  induction left generalizing outs' with
  | nil =>
    cases right
    exact .nil
  | cons first _ ih =>
    cases right with
    | cons first' others' =>
      refine .cons ?_ (ih others')
      obtain ⟨e, given, ended, -, σ, m₁, outcome⟩ := first.ends
      obtain ⟨e', given', ended', -, τ, m₂, outcome'⟩ := first'.ends
      rw [same] at ended'
      cases ended.symm.trans ended'
      exact outcome.resembles outcome' first.caught

end Regime

end Knot
