import Knot.Proofs.Isolation.Realms

/-!
# Runs that leave older frames alone

A run in a realm is confined if it leaves a machine of the realm behind and all frames below a bound as
they were (`Run.Confines`). In a clean realm it moreover ends in known values, and if it ends it has given
back all slots of the pools that it took. The judgement passes through the ways to compose runs; each step
that touches the frames or the functions has a rule of its own.
-/

namespace Knot

/-! ## Operators -/

/-- What a binary operator makes of two values is a scalar. -/
theorem BinaryOp.scalar_of_apply {op : BinaryOp} {a b v : Value} (made : op.apply a b = .ok v) :
    ∃ s, v = .scalar s := by
  unfold BinaryOp.apply at made
  obtain ⟨s, -, rest⟩ := Except.bind_eq_ok.1 made
  obtain ⟨r, -, last⟩ := Except.bind_eq_ok.1 rest
  cases last
  exact ⟨r, rfl⟩

/-- So is what a conversion makes of a value that it does not leave alone. -/
theorem Value.scalar_of_convert {v r : Value} {target : StaticType} {checked : Bool}
    (changes : target.keeps v = false) (made : v.convert target checked = .ok r) :
    ∃ s, r = .scalar s := by
  cases target with
  | value t =>
    unfold StaticType.keeps at changes
    simp only [convert, changes, Bool.false_eq_true, if_false] at made
    cases t with
    | bool =>
      cases made
      exact ⟨_, rfl⟩
    | float p =>
      obtain ⟨x, -, last⟩ := Except.bind_eq_ok.1 made
      cases last
      exact ⟨_, rfl⟩
    | int t =>
      obtain ⟨s, -, rest⟩ := Except.bind_eq_ok.1 made
      obtain ⟨result, -, last⟩ := Except.bind_eq_ok.1 rest
      cases last
      exact ⟨_, rfl⟩
  | func | pureFunc | reference | void => cases changes

/-- And what a unary operator makes of a value that it does not leave alone. -/
theorem UnaryOp.scalar_of_apply {op : UnaryOp} {target : StaticType} {v r : Value}
    (changes : (op.isConversion && target.keeps v) = false) (made : op.apply v target = .ok r) :
    ∃ s, r = .scalar s := by
  cases op with
  | convert | convertChecked => exact Value.scalar_of_convert changes made
  | negate | negateChecked | not =>
    obtain ⟨s, -, rest⟩ := Except.bind_eq_ok.1 made
    obtain ⟨result, -, last⟩ := Except.bind_eq_ok.1 rest
    cases last
    exact ⟨_, rfl⟩

/-! ## Results -/

/-- What is asked of the value in which a run ends; a jump takes a known value along. -/
def Realm.Expects {α : Type} (w : Realm) (m : Machine) (Q : α → Prop) : Outcome α → Prop
  | .value a => Q a
  | .jump _ v => w.Knows m v
  | .fault _ | .exhausted => True

/-- What a run that is confined leaves behind. -/
structure Realm.Result {α : Type} (w : Realm) (n : Nat) (Q : Machine → α → Prop) (m : Machine)
    (r : Outcome α × Machine) : Prop where
  later : m.Extends r.2
  holds : w.Holds r.2
  kept : ∀ f < n, r.2.frames.get? f = m.frames.get? f
  expected : w.Expects r.2 (Q r.2) r.1
  slots : w.clean → r.1 ≠ .exhausted → m.Restored w.pools r.2

/-- A run that has changed nothing. -/
theorem Realm.Result.refl {α : Type} {w : Realm} {n : Nat} {Q : Machine → α → Prop} {m : Machine}
    {o : Outcome α} (holds : w.Holds m) (expected : w.Expects m (Q m) o) : w.Result n Q m (o, m) :=
  ⟨.refl m, holds, fun _ _ => rfl, expected, fun _ _ => .refl m⟩

/-- What follows on a run that has ended. -/
theorem Realm.Result.trans {α β : Type} {w : Realm} {n : Nat} {Q : Machine → α → Prop}
    {R : Machine → β → Prop} {m after : Machine} {o : Outcome α} {r : Outcome β × Machine}
    (first : w.Result n Q m (o, after)) (ended : o ≠ .exhausted) (second : w.Result n R after r) :
    w.Result n R m r where
  later := first.later.trans second.later
  holds := second.holds
  kept f below := (second.kept f below).trans (first.kept f below)
  expected := second.expected
  slots clean out := (first.slots clean ended).trans (second.slots clean out)

namespace Run

/-- From a machine of the realm that has what `start` has, to a later one with the same frames below
`n`. -/
def Confines {α : Type} (w : Realm) (n : Nat) (start : Machine) (Q : Machine → α → Prop) (x : Run α) :
    Prop :=
  ∀ m, start.Extends m → w.Holds m → w.Result n Q m (x m)

namespace Confines

variable {α β : Type} {w : Realm} {n : Nat} {start : Machine} {frame : FrameId}
  {Q : Machine → α → Prop} {R : Machine → β → Prop}

/-- A run that does nothing to frames, functions and pools. -/
theorem of_still {x : Run α} (still : ∀ m : Machine, m.Still (x m).2)
    (expected : ∀ m, start.Extends m → w.Holds m → w.Expects (x m).2 (Q (x m).2) (x m).1) :
    Confines w n start Q x := fun m later holds => by
  have same := still m
  refine ⟨.of_eq same.functions same.frames, holds.of_still same, fun f _ => by rw [same.frames],
    expected m later holds, fun _ _ => ?_⟩
  exact .of_eq same.pools same.default same.settings same.processors

theorem of_pure {a : α} (expected : ∀ m, start.Extends m → Q m a) : Confines w n start Q (pure a) :=
  of_still (fun m => .refl m) fun m later _ => expected m later

theorem done {o : Outcome α} (expected : ∀ m, start.Extends m → w.Expects m (Q m) o) :
    Confines w n start Q (Run.done o) :=
  of_still (fun m => .refl m) fun m later _ => expected m later

theorem fail (f : Fault) : Confines w n start Q (Run.fail f) := done (o := .fault f) fun _ _ => trivial

theorem exhausted : Confines w n start Q (Run.exhausted : Run α) :=
  done (o := .exhausted) fun _ _ => trivial

/-- A run that is followed by others. -/
theorem onward {x : Run α} {f : Outcome α → Run β} (first : Confines w n start Q x)
    (second : ∀ next o, start.Extends next → w.Expects next (Q next) o → o ≠ .exhausted →
      Confines w n next R (f o)) : Confines w n start R (x.onward f) := by
  intro m later holds
  have result := first m later holds
  unfold Run.onward
  generalize x m = r at result ⊢
  obtain ⟨o, after⟩ := r
  have follows (ended : o ≠ .exhausted) : w.Result n R m (f o after) :=
    result.trans ended (second after o (later.trans result.later) result.expected ended after (.refl after)
      result.holds)
  cases o with
  | exhausted => exact ⟨result.later, result.holds, result.kept, trivial, fun _ out => absurd rfl out⟩
  | value | fault | jump => exact follows nofun

/-- One run after another. -/
theorem bind {x : Run α} {f : α → Run β} (first : Confines w n start Q x)
    (second : ∀ next a, start.Extends next → Q next a → Confines w n next R (f a)) :
    Confines w n start R (x >>= f) := by
  rw [Run.bind_eq_onward]
  refine onward first fun next o later expected _ => ?_
  cases o with
  | value a => exact second next a later expected
  | fault e => exact fail e
  | jump target v => exact done fun m further => Realm.Knows.later expected further
  | exhausted => exact exhausted

/-- It is enough to start from an earlier machine. -/
theorem later {x : Run α} {next : Machine} (h : Confines w n start Q x) (later : start.Extends next) :
    Confines w n next Q x := fun m further holds => h m (later.trans further) holds

/-- One run after another of which nothing is asked. -/
theorem andThen {x : Run α} {f : α → Run β} (first : Confines w n start Q x)
    (second : ∀ a, Confines w n start R (f a)) : Confines w n start R (x >>= f) :=
  first.bind fun _ a later _ => (second a).later later

theorem ite {c : Prop} [Decidable c] {x y : Run α} (left : Confines w n start Q x)
    (right : Confines w n start Q y) : Confines w n start Q (if c then x else y) := by
  split
  · exact left
  · exact right

theorem sealed {x : Run Boxed} (h : Confines w n start w.Knows x) :
    Confines w n start w.Knows x.sealed := by
  rw [Run.sealed_eq_onward]
  refine onward h fun next o _ expected _ => ?_
  cases o with
  | jump => exact fail _
  | value v => exact done fun m further => Realm.Knows.later expected further
  | fault | exhausted => exact done fun _ _ => trivial

/-! ## Boxes -/

theorem box_scalar (s : Scalar) : Confines w n start w.Knows (Run.box (.scalar s)) :=
  of_still (fun _ => ⟨rfl, rfl, rfl, rfl, rfl, rfl⟩) fun _ _ _ => Realm.knows_of_scalar _ s _

theorem truth (b : Bool) : Confines w n start w.Knows (Run.truth b) := box_scalar _

theorem boxResult {x : Except Fault Value} (scalar : ∀ v, x = .ok v → ∃ s, v = .scalar s) :
    Confines w n start w.Knows (Run.boxResult x) := by
  cases x with
  | error f => exact fail f
  | ok v =>
    obtain ⟨s, rfl⟩ := scalar v rfl
    exact box_scalar s

theorem applyBinary (op : BinaryOp) (a b : Boxed) :
    Confines w n start w.Knows (Run.applyBinary op a b) := boxResult fun _ => BinaryOp.scalar_of_apply

theorem applyUnary (op : UnaryOp) (source target : StaticType) {v : Boxed} (known : w.Knows start v) :
    Confines w n start w.Knows (Run.applyUnary op source target v) := by
  unfold Run.applyUnary
  split
  next => exact of_pure fun m later => known.later later
  next changes => exact boxResult fun r => UnaryOp.scalar_of_apply (Bool.eq_false_iff.2 changes)

/-! ## Frames -/

theorem lookup (x : Parameter) (base : w.frames ≤ frame) :
    Confines w n start w.Knows (Run.lookup frame x) := by
  refine of_still (fun m => ?_) fun m _ holds => ?_
  · unfold Run.lookup
    split <;> exact .refl m
  · unfold Run.lookup
    split
    next v found => exact holds.lookup base found
    next => trivial

/-- An assignment to a variable that is found in a frame from `n` on. -/
theorem assign {x : Parameter} (inside : frame < start.frames.frames.size)
    (own : start.Owns n frame x.uid) {v : Boxed} (known : w.Knows start v) :
    Confines w n start (fun _ _ => True) (Run.assign frame x v) := by
  intro m later holds
  unfold Run.assign
  cases done : m.frames.assign frame x.uid v with
  | none => exact .refl holds trivial
  | some frames =>
    refine ⟨.assign done, holds.assign done (known.later later), fun f below => ?_, trivial,
      fun _ _ => .of_eq rfl rfl rfl rfl⟩
    unfold Frames.assign at done
    obtain ⟨home, found, rfl⟩ := Option.map_eq_some_iff.1 done
    rw [later.home frame inside] at found
    have above : n ≤ home := own home found
    show (m.frames.set home x.uid v).get? f = _
    rw [Frames.get?_set, if_neg (Nat.ne_of_lt (Nat.lt_of_lt_of_le below above))]

/-- A new frame in a frame of the realm, and what is done in it. A variable of the new frame is its own,
and so is what the old frame owned. -/
theorem openFrame_bind {bindings : List (Nat × Boxed)} {f : FrameId → Run β}
    (inside : frame < start.frames.frames.size) (base : w.frames ≤ frame)
    (above : n ≤ start.frames.frames.size) (known : ∀ b ∈ bindings, w.Knows start b.2)
    (second : ∀ next inner, start.Extends next → inner < next.frames.frames.size → w.frames ≤ inner →
      (∀ u, u ∈ bindings.map Prod.fst ∨ start.Owns n frame u → next.Owns n inner u) →
      Confines w n next R (f inner)) :
    Confines w n start R (Run.openFrame (some frame) bindings >>= f) := by
  intro m later holds
  let next : Machine := { m with frames := (m.frames.push (some frame) bindings).2 }
  have grown : m.Extends next := .push m (some frame) bindings
  have there : frame < m.frames.frames.size := Nat.lt_of_lt_of_le inside later.frames
  have new : m.frames.frames.size < next.frames.frames.size := by
    simp [next, Frames.push]
  have old : n ≤ m.frames.frames.size := Nat.le_trans above later.frames
  -- a variable is found in the new frame, or else where it is found from the frame below
  have owns (u : Nat) (either : u ∈ bindings.map Prod.fst ∨ start.Owns n frame u) :
      next.Owns n m.frames.frames.size u := by
    intro home found
    rw [Frames.home?_push_new there] at found
    split at found
    next =>
      cases found
      exact old
    next undeclared =>
      rw [Frame.declares_ofBindings] at undeclared
      rw [later.home frame inside] at found
      exact (either.resolve_left undeclared) home found
  have opened : w.Holds next :=
    holds.push (fun p same => by cases same; exact base) fun b member => (known b member).later later
  have rest := second next m.frames.frames.size (later.trans grown) new
    (Nat.le_trans base (Nat.le_of_lt there)) owns next (.refl next) opened
  have reached : w.Result n (fun _ _ => True) m (.value m.frames.frames.size, next) := by
    refine ⟨grown, opened, fun f below => ?_, trivial, fun _ _ => .of_eq rfl rfl rfl rfl⟩
    show (m.frames.push (some frame) bindings).2.get? f = _
    rw [Frames.get?_push, if_neg (by omega)]
  exact reached.trans (by simp) rest

/-- The frame of a block, and what is done in it. -/
theorem blockFrame_bind {locals : List Parameter} {f : FrameId → Run β}
    (inside : frame < start.frames.frames.size) (base : w.frames ≤ frame)
    (above : n ≤ start.frames.frames.size)
    (second : ∀ next inner, start.Extends next → inner < next.frames.frames.size → w.frames ≤ inner →
      (∀ u, start.Owns n frame u ∨ (∃ x ∈ locals, x.uid = u) → next.Owns n inner u) →
      Confines w n next R (f inner)) :
    Confines w n start R (Run.blockFrame frame locals >>= f) := by
  unfold Run.blockFrame
  split
  next none =>
    refine second start frame (.refl start) inside base fun u either => either.resolve_right ?_
    rw [List.isEmpty_iff.1 none]
    rintro ⟨x, ⟨⟩, -⟩
  next =>
    refine openFrame_bind inside base above (fun b member => ?_)
      fun next inner later new old owns => second next inner later new old fun u either => owns u ?_
    · obtain ⟨x, -, rfl⟩ := List.mem_map.1 member
      exact Realm.knows_none start
    · rcases either with own | ⟨x, member, rfl⟩
      · exact .inr own
      · exact .inl (List.mem_map.2 ⟨(x.uid, Boxed.none), List.mem_map.2 ⟨x, member, rfl⟩, rfl⟩)

/-! ## Functions -/

/-- A function that keeps to its own variables. -/
theorem newFunction {c : Callable} (new : w.Contains start c) :
    Confines w n start w.Knows (Run.newFunction c) := by
  intro m later holds
  have grown : m.Extends { m with functions := m.functions.push c } := .addFunction m c
  refine ⟨grown, holds.addFunction (new.later later), fun _ _ => rfl, ?_,
    fun _ _ => .of_eq rfl rfl rfl rfl⟩
  rintro - id ⟨⟩
  show m.functions.size < (m.functions.push c).size
  simp

/-- A function of the realm that is looked up, and what is done with it. -/
theorem callable_bind {id : Nat} {f : Callable → Run β} (own : w.functions ≤ id)
    (second : ∀ next c, start.Extends next → w.Contains next c → Confines w n next R (f c)) :
    Confines w n start R (Run.callable id >>= f) := by
  intro m later holds
  cases found : m.functions[id]? with
  | none =>
    rw [bind_of_fault (callable_of_none found)]
    exact .refl holds trivial
  | some c =>
    rw [bind_of_value (callable_of_some found)]
    exact second m c later (holds.closures id c own found) m (.refl m) holds

/-! ## Pools -/

/-- A pool that is replaced by one with the same slots. -/
theorem setPool {m : Machine} (holds : w.Holds m) {p : PoolId} {q : WorkerPool}
    (same : q.slots = (m.pool p).slots) :
    w.Result n (fun _ _ => True) m (.value (), m.setPool p q) := by
  have restored : m.Restored w.pools (m.setPool p q) := .setPool same
  refine ⟨.of_eq rfl rfl, holds.of_eq rfl rfl fun clean => ?_, fun _ _ => rfl, trivial,
    fun _ _ => restored⟩
  exact (holds.pools clean).replaced (holds.pools clean) restored.slots

theorem submit (p : PoolId) : Confines w n start (fun _ _ => True) (Run.submit p) := by
  intro m _ holds
  unfold Run.submit Run.tryPool
  cases handed : (m.pool p).submit with
  | error e => exact .refl holds trivial
  | ok q => exact setPool holds (WorkerPool.slots_of_submit handed)

/-- Both of two runs, in either order. -/
theorem both {rightFirst : Bool} {x y : Run Boxed} (left : Confines w n start w.Knows x)
    (right : Confines w n start w.Knows y) :
    Confines w n start (fun _ _ => True) (Run.both rightFirst x y) := by
  have joined {m : Machine} {a b : Outcome Boxed} (first : w.Expects m (w.Knows m) a)
      (second : w.Expects m (w.Knows m) b) : w.Expects m (fun _ => True) (a.both b) := by
    cases a with
    | value | jump => cases b <;> first | exact first | exact second | trivial
    | fault | exhausted => cases b <;> trivial
  have after {m m' : Machine} {a : Outcome Boxed} (expected : w.Expects m (w.Knows m) a)
      (later : m.Extends m') : w.Expects m' (w.Knows m') a := by
    cases a with
    | value | jump => exact Realm.Knows.later expected later
    | fault | exhausted => trivial
  rw [Run.both_eq_onward]
  refine ite ?_ ?_
  · refine onward right fun next b later known _ => ?_
    refine onward (left.later later) fun last a further known' _ => done fun m more => ?_
    exact joined (after known' more) (after known (further.trans more))
  · refine onward left fun next a later known _ => ?_
    refine onward (right.later later) fun last b further known' _ => done fun m more => ?_
    exact joined (after known (further.trans more)) (after known' more)

/-- Outside of a clean realm nothing is asked of the pools. -/
theorem of_apart (unclean : ¬ w.clean) {x : Run α} (apart : x.Apart) (any : ∀ m a, Q m a) :
    Confines w n start Q x := by
  intro m _ holds
  have same : (x m).2.frames = m.frames := apart.frames m
  refine ⟨.of_eq (apart.functions m) same,
    holds.of_eq same (apart.functions m) fun clean => absurd clean unclean, fun f _ => by rw [same], ?_,
    fun clean => absurd clean unclean⟩
  cases (x m).1 with
  | value a => exact any _ a
  | jump => exact fun clean => absurd clean unclean
  | fault | exhausted => trivial

theorem lookupOrCompute (unclean : ¬ w.clean) {c : CacheId} {function argument : Boxed} {x : Run Boxed}
    (compute : Confines w n start w.Knows x) :
    Confines w n start w.Knows (Run.lookupOrCompute c function argument x) := by
  have any (m : Machine) (v : Boxed) : w.Knows m v := fun clean => absurd clean unclean
  unfold Run.lookupOrCompute
  refine (of_apart (Q := fun _ _ => True) unclean (.onCache _ _) fun _ _ => trivial).bind
    fun next begun later _ => ?_
  cases begun with
  | bypassed => exact compute.later later
  | hit result => exact of_pure fun m _ => any m result
  | pending ticket => exact (compute.later later).bind fun _ _ _ _ => of_apart unclean (.onCache _ _) any

/-- The two tasks of a split. -/
theorem tasks {x y : Run Boxed} (p : PoolId) (b : Bool) (left : Confines w n start w.Knows x)
    (right : Confines w n start w.Knows y) :
    Confines w n start (fun _ _ => True) (Run.submit p >>= fun _ => Run.both b x y) :=
  (submit p).bind fun _ _ later _ => both (left.later later) (right.later later)

/-- After a run for which slots of a pool have been taken they are given back. -/
theorem releasing_eq (clean : w.clean) {m : Machine} (holds : w.Holds m) {p : PoolId}
    (placed : m.Meant w.pools m p p) {a : Int} (slots : (m.pool p).available = .int a) {x : Run α}
    (inner : Confines w n m Q x) {o : Outcome α} {after : Machine} (ran : x (m.splitting p a) = (o, after))
    (ended : o ≠ .exhausted) :
    ∃ q, Run.releasing p WorkerPool.splitSlots x (m.splitting p a) = (o, after.setPool p q) ∧
      w.Holds (after.setPool p q) ∧ m.Restored w.pools (after.setPool p q) := by
  have whole := holds.pools clean
  have result := inner (m.splitting p a) (.of_eq rfl rfl) (holds.of_eq rfl rfl fun _ =>
    whole.setPool (n := a - 2) placed.inside rfl)
  rw [ran] at result
  obtain ⟨q, released, restored⟩ := Machine.restored_release placed slots rfl
    (result.holds.pools clean) (result.slots clean ended)
  refine ⟨q, ?_, result.holds.of_eq rfl rfl fun _ => ?_, restored⟩
  · rw [Run.releasing_eq_onward, Run.onward_of_ended ran ended, bind_of_value released]
    rfl
  · exact (result.holds.pools clean).replaced whole restored.slots

/-- A run for which slots of a pool are taken, and after which they are given back. -/
theorem releasing (clean : w.clean) {m : Machine} (holds : w.Holds m) {p : PoolId}
    (placed : m.Meant w.pools m p p) {a : Int} (slots : (m.pool p).available = .int a) {x : Run α}
    (inner : Confines w n m Q x) (lasts : ∀ m v, Q m v → ∀ m', m.Extends m' → Q m' v) :
    w.Result n Q m (Run.releasing p WorkerPool.splitSlots x (m.splitting p a)) := by
  have begun : m.Extends (m.splitting p a) := .of_eq rfl rfl
  have result := inner (m.splitting p a) begun (holds.of_eq rfl rfl fun _ =>
    (holds.pools clean).setPool (n := a - 2) placed.inside rfl)
  rcases ran : x (m.splitting p a) with ⟨o, after⟩
  rw [ran] at result
  have later := begun.trans result.later
  by_cases out : o = .exhausted
  · subst out
    rw [Run.releasing_eq_onward, Run.onward_of_exhausted ran]
    exact ⟨later, result.holds, result.kept, trivial, fun _ absent => absurd rfl absent⟩
  · obtain ⟨q, shape, holds', restored⟩ := releasing_eq clean holds placed slots inner ran out
    rw [shape]
    have last : after.Extends (after.setPool p q) := .of_eq rfl rfl
    refine ⟨later.trans last, holds', result.kept, ?_, fun _ _ => restored⟩
    have expected := result.expected
    cases o with
    | value v => exact lasts _ v expected _ last
    | jump => exact Realm.Knows.later expected last
    | fault | exhausted => trivial

/-- The operands of an operator, side by side or one after the other. -/
theorem operands {x y : Run Boxed} {pool : Option PoolId}
    (named : w.clean → ∀ p, pool = some p → p < w.pools) (left : Confines w n start w.Knows x)
    (right : Confines w n start w.Knows y) :
    Confines w n start (fun _ _ => True) (Run.operands pool x y) := by
  have inTurn : Confines w n start (fun _ _ => True) (x >>= fun a => y >>= fun b => pure (a, b)) :=
    left.bind fun _ _ later _ => (right.later later).bind fun _ _ _ _ => of_pure fun _ _ => trivial
  -- In a clean realm the pools are known to be restored, so the run is compared as a whole; elsewhere
  -- nothing is said about pools and it is taken step by step.
  by_cases clean : w.clean
  · intro m later holds
    obtain ⟨p, m₁, n₁, restored, whole, frames, functions, meant, slots, shape⟩ :=
      Machine.operands_eq (holds.pools clean) (named clean)
    have begun : m.Extends m₁ := .of_eq functions frames
    have holds₁ := holds.of_eq frames functions fun _ => whole
    have reached : w.Result n (fun _ _ => True) m (.value (), m₁) :=
      ⟨begun, holds₁, fun _ _ => by rw [frames], trivial, fun _ _ => restored⟩
    refine reached.trans nofun ?_
    rw [shape]
    split
    · have placed := Machine.Meant.of_meant (.refl m₁) whole whole (named clean) meant meant
      exact releasing clean holds₁ placed slots ((tasks p _ left right).later (later.trans begun))
        fun _ _ _ _ _ => trivial
    · have counted : w.Result n (fun _ _ => True) m₁ (.value (), m₁.inTurn p) := setPool holds₁ rfl
      exact counted.trans nofun (inTurn _ ((later.trans begun).trans counted.later) counted.holds)
  · have still {γ : Type} {z : Run γ} (apart : z.Apart) : Confines w n start (fun _ _ => True) z :=
      of_apart clean apart fun _ _ => trivial
    unfold Run.operands
    refine (still (.resolvePool pool)).andThen fun p => (still (.reserve p _)).andThen fun taken => ?_
    refine ite ?_ ?_
    · unfold Run.split
      refine (still (.read fun _ _ _ => rfl)).andThen fun b => (still (.onPool p _)).andThen fun _ => ?_
      rw [Run.releasing_eq_onward]
      refine (tasks p b left right).onward fun next o later known _ => ?_
      refine (of_apart (Q := fun _ _ => True) clean (.tryPool _ _) fun _ _ => trivial).andThen fun _ => ?_
      exact done fun m further => by
        cases o with
        | value | fault | exhausted => trivial
        | jump => exact Realm.Knows.later known further
    · exact (still (.onPool p _)).andThen fun _ => inTurn

/-- A binary operator on two operands that may be evaluated side by side. -/
theorem splitBinary {op : BinaryOp} {x y : Run Boxed} {pool : Option PoolId}
    (named : w.clean → ∀ p, pool = some p → p < w.pools) (left : Confines w n start w.Knows x)
    (right : Confines w n start w.Knows y) :
    Confines w n start w.Knows (Run.splitBinary op x y pool) := by
  unfold Run.splitBinary
  refine ite ((operands named left right).andThen fun values => ?_) (fail _)
  exact boxResult fun _ => BinaryOp.scalar_of_apply

/-! ## Blocks and loops -/

theorem runAll {steps : List Step} (each : ∀ s ∈ steps, Confines w n start w.Knows s.run) {v : Boxed}
    (known : w.Knows start v) : Confines w n start w.Knows (Step.runAll steps v) := by
  induction steps generalizing v start with
  | nil => exact of_pure fun m later => known.later later
  | cons s rest ih =>
    obtain ⟨first, others⟩ := List.forall_mem_cons.1 each
    exact first.bind fun next a later found =>
      ih (fun s inside => (others s inside).later later) found

theorem runFrom {all : List Step} (fuel : Nat) : ∀ {start : Machine} {rest : List Step} {v : Boxed},
    (∀ s ∈ all, Confines w n start w.Knows s.run) → (∀ s ∈ rest, Confines w n start w.Knows s.run) →
      w.Knows start v → Confines w n start w.Knows (Step.runFrom all fuel rest v) := by
  induction fuel with
  | zero => exact fun _ _ _ => exhausted
  | succ fuel ih =>
    intro start rest v whole each known
    rw [Step.runFrom_succ]
    refine onward (runAll each known) fun next o later expected _ => ?_
    cases o with
    | value a => exact done fun m further => Realm.Knows.later expected further
    | fault | exhausted => exact done fun _ _ => trivial
    | jump target a =>
      simp only
      cases found : Step.after? target all with
      | none => exact done fun m further => Realm.Knows.later expected further
      | some behind =>
        -- the steps behind a label are steps of the block
        obtain ⟨before, s, rfl, -⟩ := Step.after?_eq_some found
        refine ih (fun s inside => (whole s inside).later later) (fun s inside => ?_) expected
        exact (whole s (List.mem_append_right _ (List.mem_cons_of_mem _ inside))).later later

theorem loop {x : Run Boxed} (breakLabel continueLabel : Option Nat) (fuel : Nat) :
    ∀ {start : Machine}, Confines w n start w.Knows x →
      Confines w n start w.Knows (Run.loop x breakLabel continueLabel fuel) := by
  induction fuel with
  | zero => exact fun _ => exhausted
  | succ fuel ih =>
    intro start turn
    rw [Run.loop_succ]
    refine onward turn fun next o later expected _ => ?_
    cases o with
    | value a => exact ih (turn.later later)
    | jump target a =>
      have out : ∀ m, next.Extends m → w.Knows m a := fun m further =>
        Realm.Knows.later expected further
      exact ite (of_pure out) (ite (ih (turn.later later)) (done out))
    | fault | exhausted => exact done fun _ _ => trivial

end Confines

end Run

end Knot
