import Knot.Proofs.Isolation.Links

/-!
# Runs that agree

Two runs agree if from machines that a link joins the one ends as the other does, on machines that a
larger link joins, unless the first one is out of fuel (`Run.Agrees`). The judgement passes through the
ways to compose runs. Two runs that change no frame that there was, such as calls, may moreover take
place in either order (`Run.Agrees.commute`): the link is then put together from what either of them
adds. So the two runs of a split agree whichever comes first.
-/

namespace Knot

namespace Link

/-- Two outcomes are alike if both are values that are related, the same fault, or jumps to one label with
values that are alike. -/
inductive Outcomes {α : Type} (β : Link) (R : α → α → Prop) : Outcome α → Outcome α → Prop
  | value {a b : α} (related : R a b) : β.Outcomes R (.value a) (.value b)
  | fault (f : Fault) : β.Outcomes R (.fault f) (.fault f)
  | jump {v v' : Boxed} (target : Nat) (alike : β.Values v v') :
      β.Outcomes R (.jump target v) (.jump target v')

/-- How two runs from joined machines end, if they agree. -/
structure Ends {α : Type} (β γ : Link) (w : Realm) (R : Link → α → α → Prop) (m m' : Machine)
    (r r' : Outcome α × Machine) : Prop where
  grows : β.Grows γ m m'
  joins : γ.Joins w r.2 r'.2
  size : m.frames.frames.size ≤ r.2.frames.frames.size
  size' : m'.frames.frames.size ≤ r'.2.frames.frames.size
  outcomes : γ.Outcomes (R γ) r.1 r'.1

variable {α β' : Type} {β γ δ : Link} {w : Realm}

theorem Outcomes.ended {R : α → α → Prop} {o o' : Outcome α} (h : β.Outcomes R o o') :
    o ≠ .exhausted ∧ o' ≠ .exhausted := by
  cases h <;> exact ⟨nofun, nofun⟩

theorem Outcomes.later {o o' : Outcome Boxed} (h : β.Outcomes β.Values o o') (within : β.Within γ) :
    γ.Outcomes γ.Values o o' := by
  cases h with
  | value alike => exact .value (alike.later within)
  | fault e => exact .fault e
  | jump target alike => exact .jump target (alike.later within)

/-- The values of two runs that both take place are alike. -/
def Pairs (β : Link) (p q : Boxed × Boxed) : Prop := β.Values p.1 q.1 ∧ β.Values p.2 q.2

/-- What comes of two runs that both take place. -/
theorem Outcomes.both {a a' b b' : Outcome Boxed} (left : β.Outcomes β.Values a a')
    (right : β.Outcomes β.Values b b') : β.Outcomes β.Pairs (a.both b) (a'.both b') := by
  cases left with
  | value alike =>
    cases right with
    | value alike' => exact .value ⟨alike, alike'⟩
    | fault e => exact .fault e
    | jump target alike' => exact .jump target alike'
  | fault e => cases right <;> exact .fault e
  | jump target alike => cases right <;> exact .jump target alike

/-- What follows on two runs that have ended. -/
theorem Ends.trans {R : Link → α → α → Prop} {S : Link → β' → β' → Prop} {m m' next next' : Machine}
    {o o' : Outcome α} {r r' : Outcome β' × Machine} (first : β.Ends γ w R m m' (o, next) (o', next'))
    (second : γ.Ends δ w S next next' r r') : β.Ends δ w S m m' r r' where
  grows := first.grows.trans second.grows first.size first.size'
  joins := second.joins
  size := Nat.le_trans first.size second.size
  size' := Nat.le_trans first.size' second.size'
  outcomes := second.outcomes

end Link

/-- Two runs of which both have ended. -/
theorem Outcome.ended_of_both {α β : Type} {a : Outcome α} {b : Outcome β} (ended : a.both b ≠ .exhausted) :
    a ≠ .exhausted ∧ b ≠ .exhausted := by
  constructor <;> rintro rfl
  · exact ended (by cases b <;> rfl)
  · exact ended (by cases a <;> rfl)

namespace Run

section

variable {α β : Type} {x : Run α} {y : Run β} {m m₁ m₂ : Machine} {a : Outcome α} {b : Outcome β}

theorem both_of_left (ran : x m = (a, m₁)) (ended : a ≠ .exhausted) (ran' : y m₁ = (b, m₂)) :
    both false x y m = (a.both b, m₂) := by
  simp only [both, Bool.false_eq_true, if_false, ran, ran']

theorem both_of_right (ran : y m = (b, m₁)) (ended : b ≠ .exhausted) (ran' : x m₁ = (a, m₂)) :
    both true x y m = (a.both b, m₂) := by
  simp only [both, if_true, ran, ran']

end

/-- Unless the first run is out of fuel, two runs end alike from machines that are joined by `β` or by
more. -/
def Agrees {α : Type} (w : Realm) (β : Link) (R : Link → α → α → Prop) (x y : Run α) : Prop :=
  ∀ γ m m', β.Within γ → γ.Joins w m m' → (x m).1 ≠ .exhausted → ∃ δ, γ.Ends δ w R m m' (x m) (y m')

/-- Two runs that agree, and of which each changes no frame that there was and gives back all slots. -/
structure Steady (w : Realm) (β : Link) (x x' : Run Boxed) : Prop where
  agrees : Agrees w β Link.Values x x'
  left : ∀ {γ m m'}, β.Within γ → γ.Joins w m m' → Confines w m.frames.frames.size m w.Knows x
  right : ∀ {γ m m'}, β.Within γ → γ.Joins w m m' → Confines w m'.frames.frames.size m' w.Knows x'

namespace Agrees

open Link (Values Outcomes Bindings)

variable {α α' : Type} {w : Realm} {β : Link} {R : Link → α → α → Prop} {S : Link → α' → α' → Prop}
  {f g : FrameId}

/-- It is enough to start from a smaller link. -/
theorem later {x y : Run α} {γ : Link} (h : Agrees w β R x y) (within : β.Within γ) :
    Agrees w γ R x y := fun δ m m' larger joins ended => h δ m m' (within.trans larger) joins ended

/-- Two runs that do nothing to frames, functions and pools. -/
theorem of_still {x y : Run α} (still : ∀ m : Machine, m.Still (x m).2)
    (still' : ∀ m : Machine, m.Still (y m).2)
    (alike : ∀ γ m m', β.Within γ → γ.Joins w m m' → (x m).1 ≠ .exhausted →
      γ.Outcomes (R γ) (x m).1 (y m').1) : Agrees w β R x y := by
  intro γ m m' within joins ended
  have same := still m
  have same' := still' m'
  refine ⟨γ, .refl γ m m', ?_, ?_, ?_, alike γ m m' within joins ended⟩
  · refine joins.of_pools same.frames same.functions same'.frames same'.functions
      (joins.left.of_still same) (joins.right.of_still same') (joins.slots.congr ?_ ?_)
    · exact .of_eq same.pools same.default same.settings same.processors
    · exact .of_eq same'.pools same'.default same'.settings same'.processors
  · exact Nat.le_of_eq (by rw [same.frames])
  · exact Nat.le_of_eq (by rw [same'.frames])

theorem done (o o' : Outcome α) (alike : ∀ γ, β.Within γ → γ.Outcomes (R γ) o o') :
    Agrees w β R (Run.done o) (Run.done o') :=
  of_still (fun m => .refl m) (fun m => .refl m) fun γ _ _ within _ _ => alike γ within

theorem of_pure {a b : α} (related : ∀ γ, β.Within γ → R γ a b) : Agrees w β R (pure a) (pure b) :=
  done (.value a) (.value b) fun γ within => .value (related γ within)

theorem fail (e : Fault) : Agrees w β R (Run.fail e) (Run.fail e) :=
  done (.fault e) (.fault e) fun _ _ => .fault e

/-- A run without fuel agrees with any. -/
theorem exhausted {y : Run α} : Agrees w β R Run.exhausted y :=
  fun _ _ _ _ _ ended => absurd rfl ended

/-- What follows on two runs that have ended alike. -/
theorem onward_at {x y : Run α} {F G : Outcome α → Run α'} {γ δ : Link} {m m' : Machine}
    (first : γ.Ends δ w R m m' (x m) (y m'))
    (second : ∀ o o', δ.Outcomes (R δ) o o' → Agrees w δ S (F o) (G o'))
    (ended : (x.onward F m).1 ≠ .exhausted) :
    ∃ ε, γ.Ends ε w S m m' (x.onward F m) (y.onward G m') := by
  rcases left : x m with ⟨o, next⟩
  rcases right : y m' with ⟨o', next'⟩
  rw [left, right] at first
  obtain ⟨out, out'⟩ := first.outcomes.ended
  rw [Run.onward_of_ended left out] at ended ⊢
  rw [Run.onward_of_ended right out']
  obtain ⟨ε, rest⟩ := second o o' first.outcomes δ next next' (.refl δ) first.joins ended
  exact ⟨ε, first.trans rest⟩

/-- Runs that are followed by others. -/
theorem onward {x y : Run α} {F G : Outcome α → Run α'} (first : Agrees w β R x y)
    (second : ∀ γ o o', β.Within γ → γ.Outcomes (R γ) o o' → Agrees w γ S (F o) (G o')) :
    Agrees w β S (x.onward F) (y.onward G) := by
  intro γ m m' within joins ended
  obtain ⟨δ, ends⟩ := first γ m m' within joins fun out =>
    ended (by rw [Run.onward_of_exhausted (Prod.ext out rfl)])
  exact onward_at ends (fun o o' alike => second δ o o' (within.trans ends.grows.toWithin) alike) ended

/-- What follows on two values. -/
theorem onValue {F G : α → Run α'} {γ : Link} {o o' : Outcome α} (alike : γ.Outcomes (R γ) o o')
    (second : ∀ a b, R γ a b → Agrees w γ S (F a) (G b)) :
    Agrees w γ S (Run.onValue F o) (Run.onValue G o') := by
  cases alike with
  | value related => exact second _ _ related
  | fault e => exact fail e
  | jump target alike =>
    exact done (.jump target _) (.jump target _) fun δ larger => .jump target (alike.later larger)

/-- One run after another. -/
theorem bind {x y : Run α} {F G : α → Run α'} (first : Agrees w β R x y)
    (second : ∀ γ a b, β.Within γ → R γ a b → Agrees w γ S (F a) (G b)) :
    Agrees w β S (x >>= F) (y >>= G) := by
  rw [Run.bind_eq_onward, Run.bind_eq_onward]
  exact onward first fun γ o o' within alike => onValue alike fun a b => second γ a b within

theorem ite {b : Bool} {x y x' y' : Run α} (left : Agrees w β R x x') (right : Agrees w β R y y') :
    Agrees w β R (if b then x else y) (if b then x' else y') := by
  cases b
  · exact right
  · exact left

theorem sealed {x y : Run Boxed} (h : Agrees w β Values x y) : Agrees w β Values x.sealed y.sealed := by
  rw [Run.sealed_eq_onward, Run.sealed_eq_onward]
  refine onward h fun γ o o' _ outcomes => ?_
  cases outcomes with
  | value alike =>
    exact done (.value _) (.value _) fun δ larger => .value (alike.later larger)
  | fault e => exact fail e
  | jump => exact fail _

/-! ## Boxes -/

theorem box_scalar (s : Scalar) : Agrees w β Values (Run.box (.scalar s)) (Run.box (.scalar s)) :=
  of_still (fun _ => ⟨rfl, rfl, rfl, rfl, rfl, rfl⟩) (fun _ => ⟨rfl, rfl, rfl, rfl, rfl, rfl⟩)
    fun _ _ _ _ _ _ => .value (.scalar s _ _)

theorem boxResult {r r' : Except Fault Value} (same : r' = r)
    (scalar : ∀ v, r = .ok v → ∃ s, v = .scalar s) :
    Agrees w β Values (Run.boxResult r) (Run.boxResult r') := by
  subst same
  cases r' with
  | error e => exact fail e
  | ok v =>
    obtain ⟨s, rfl⟩ := scalar v rfl
    exact box_scalar s

theorem truth (b : Bool) : Agrees w β Values (Run.truth b) (Run.truth b) := box_scalar _

theorem applyBinary (op : BinaryOp) {a a' b b' : Boxed} (left : β.Values a a') (right : β.Values b b') :
    Agrees w β Values (Run.applyBinary op a b) (Run.applyBinary op a' b') :=
  boxResult (left.applyBinary op right) fun _ => BinaryOp.scalar_of_apply

theorem applyUnary (op : UnaryOp) (source target : StaticType) {v v' : Boxed} (alike : β.Values v v') :
    Agrees w β Values (Run.applyUnary op source target v) (Run.applyUnary op source target v') := by
  unfold Run.applyUnary
  rw [alike.keeps]
  split
  next => exact of_pure fun _ within => alike.later within
  next changes =>
    have changed := Bool.eq_false_iff.2 changes
    exact boxResult (alike.applyUnary changed) fun r => UnaryOp.scalar_of_apply changed

/-! ## Frames -/

theorem lookup (x : Parameter) (linked : β.frames f g) :
    Agrees w β Values (Run.lookup f x) (Run.lookup g x) := by
  have still (f : FrameId) (m : Machine) : m.Still (Run.lookup f x m).2 := by
    unfold Run.lookup
    split <;> exact .refl m
  refine of_still (still f) (still g) fun γ m m' within joins _ => ?_
  have shown := joins.lookup (u := x.uid) (within.frames linked)
  unfold Run.lookup
  cases found : m.frames.lookup f x.uid with
  | none =>
    rw [found] at shown
    rw [shown.of_none]
    exact .fault _
  | some v =>
    rw [found] at shown
    obtain ⟨v', found', alike⟩ := shown.of_some
    rw [found']
    exact .value alike

theorem assign {x : Parameter} {v v' : Boxed} (linked : β.frames f g) (alike : β.Values v v') :
    Agrees w β (fun _ _ _ => True) (Run.assign f x v) (Run.assign g x v') := by
  intro γ m m' within joins _
  have changed := joins.assign (u := x.uid) (within.frames linked) (alike.later within)
  unfold Run.assign
  cases done : m.frames.assign f x.uid v with
  | none =>
    rw [done] at changed
    rw [changed.of_none]
    exact ⟨γ, .refl γ m m', joins, Nat.le_refl _, Nat.le_refl _, .fault _⟩
  | some frames =>
    rw [done] at changed
    obtain ⟨frames', done', after⟩ := changed.of_some
    rw [done']
    exact ⟨γ, .refl γ m m', after, (Machine.Extends.assign done).frames,
      (Machine.Extends.assign done').frames, .value trivial⟩

/-- A new frame, and what is done in it. -/
theorem openFrame_bind {bs cs : List (Nat × Boxed)} {F G : FrameId → Run α} (linked : β.frames f g)
    (alike : List.Forall₂ β.Bindings bs cs)
    (second : ∀ γ inner inner', β.Within γ → γ.frames inner inner' →
      Agrees w γ R (F inner) (G inner')) :
    Agrees w β R (Run.openFrame (some f) bs >>= F) (Run.openFrame (some g) cs >>= G) := by
  intro γ m m' within joins ended
  have opened := joins.push (within.frames linked)
    (alike.imp fun _ _ both => ⟨both.1, both.2.later within⟩)
  have grows := γ.grows_addFrames m m'
  have reached : γ.Ends _ w (fun _ _ _ => True) m m' (Outcome.value m.frames.frames.size, _)
      (.value m'.frames.frames.size, _) :=
    ⟨grows, opened, (Machine.Extends.push m _ _).frames, (Machine.Extends.push m' _ _).frames,
      .value trivial⟩
  obtain ⟨δ, rest⟩ := second _ _ _ (within.trans grows.toWithin) (.inr ⟨rfl, rfl⟩) _ _ _ (.refl _) opened
    ended
  exact ⟨δ, reached.trans rest⟩

/-- The frame of a block, and what is done in it. -/
theorem blockFrame_bind {locals : List Parameter} {F G : FrameId → Run α} (linked : β.frames f g)
    (second : ∀ γ inner inner', β.Within γ → γ.frames inner inner' →
      Agrees w γ R (F inner) (G inner')) :
    Agrees w β R (Run.blockFrame f locals >>= F) (Run.blockFrame g locals >>= G) := by
  unfold Run.blockFrame
  split
  · exact second β f g (.refl β) linked
  · refine openFrame_bind linked ?_ second
    exact List.forall₂_same.2 fun b member => by
      obtain ⟨x, -, rfl⟩ := List.mem_map.1 member
      exact ⟨rfl, .none⟩

/-- A new function that keeps to its own variables. -/
theorem newFunction {ps : List Nat} {body : Expr} {context : Context} (linked : β.frames f g)
    (keeps : w.Keeps ps body context) :
    Agrees w β Values (Run.newFunction (.closure ps body f context))
      (Run.newFunction (.closure ps body g context)) := by
  intro γ m m' within joins _
  have there := within.frames linked
  obtain ⟨base, base'⟩ := joins.base there
  obtain ⟨inside, inside'⟩ := joins.inside there
  have grows := γ.grows_addFunctions m m'
  refine ⟨_, grows, joins.addFunction (.closure there) ⟨_, _, _, _, rfl, keeps, base, inside⟩
    ⟨_, _, _, _, rfl, keeps, base', inside'⟩, Nat.le_refl _, Nat.le_refl _, .value ?_⟩
  exact .closure (.inr ⟨rfl, rfl⟩)

/-! ## Runs in either order -/

/-- Two runs one after the other end as they do in the other order. -/
theorem commute {x x' y y' : Run Boxed} (first : Steady w β x x') (second : Steady w β y y') {γ : Link}
    {m m' : Machine} (within : β.Within γ) (joins : γ.Joins w m m') {a b : Outcome Boxed}
    {m₁ m₂ : Machine} (ran : x m = (a, m₁)) (ended : a ≠ .exhausted) (ran' : y m₁ = (b, m₂))
    (ended' : b ≠ .exhausted) : ∃ δ a' b' m₁' m₂', y' m' = (b', m₁') ∧ x' m₁' = (a', m₂') ∧
      γ.Grows δ m m' ∧ δ.Joins w m₂ m₂' ∧ m.frames.frames.size ≤ m₂.frames.frames.size ∧
      m'.frames.frames.size ≤ m₂'.frames.frames.size ∧ δ.Outcomes δ.Values a a' ∧
      δ.Outcomes δ.Values b b' := by
  have A := first.left within joins m (.refl m) joins.left
  rw [ran] at A
  -- The runs change only what is new, so the machine after the one is still joined to the machine before
  -- the other, and each of the two runs finds its counterpart. The links that come of this are united.
  have joins₁ : γ.Joins w m₁ m' := joins.after_left A ended
  obtain ⟨δ, ends⟩ := second.agrees γ m₁ m' within joins₁ (by rwa [ran'])
  have B := second.left within joins₁ m₁ (.refl m₁) joins₁.left
  have C := second.right within joins m' (.refl m') joins.right
  rw [ran'] at ends B
  rcases ran₁ : y' m' with ⟨b', m₁'⟩
  rw [ran₁] at ends C
  have joins₂ : γ.Joins w m m₁' := joins.after_right C ends.outcomes.ended.2
  obtain ⟨ε, ends'⟩ := first.agrees γ m m₁' within joins₂ (by rwa [ran])
  have D := first.right within joins₂ m₁' (.refl m₁') joins₂.right
  rw [ran] at ends'
  rcases ran₂ : x' m₁' with ⟨a', m₂'⟩
  rw [ran₂] at ends' D
  have inLeft := Link.within_union_left ε δ
  have inRight := Link.within_union_right ε δ
  have joined : (ε.union δ).Joins w m₂ m₂' := .union ends'.joins ends.joins ends'.grows ends.grows B.kept
    D.kept B.later D.later (B.slots joins.clean ended')
  refine ⟨ε.union δ, a', b', m₁', m₂', rfl, ran₂, ⟨ends'.grows.toWithin.trans inLeft, fun pair => ?_⟩,
    joined, ?_, ?_, ?_, ?_⟩
  · rcases pair with pair | pair
    · exact (ends'.grows.new pair).imp_right fun both => ⟨both.1, Nat.le_trans ends.size' both.2⟩
    · exact (ends.grows.new pair).imp_right fun both => ⟨Nat.le_trans ends'.size both.1, both.2⟩
  · exact Nat.le_trans ends'.size ends.size
  · exact Nat.le_trans ends.size' ends'.size'
  · exact ends'.outcomes.later inLeft
  · exact ends.outcomes.later inRight

/-- Both of two runs, in one order and in the same or the other one. -/
theorem both {x x' y y' : Run Boxed} (first : Steady w β x x') (second : Steady w β y y') (b c : Bool) :
    Agrees w β Link.Pairs (Run.both b x y) (Run.both c x' y') := by
  cases b <;> cases c
  case false.false =>
    simp only [Run.both_eq_onward, Bool.false_eq_true, if_false]
    refine onward first.agrees fun γ a a' within alike => ?_
    refine onward (second.agrees.later within) fun δ b b' larger alike' => done _ _ fun ε more => ?_
    exact (alike.later (larger.trans more)).both (alike'.later more)
  case true.true =>
    simp only [Run.both_eq_onward, if_true]
    refine onward second.agrees fun γ b b' within alike' => ?_
    refine onward (first.agrees.later within) fun δ a a' larger alike => done _ _ fun ε more => ?_
    exact (alike.later more).both (alike'.later (larger.trans more))
  -- in different orders: what has run first on one side is the second to run on the other
  case false.true =>
    intro γ m m' within joins ended
    rcases ran : x m with ⟨a, m₁⟩
    have out : a ≠ .exhausted := by
      rintro rfl
      exact ended (by simp only [Run.both, ran, Bool.false_eq_true, if_false])
    rcases ran' : y m₁ with ⟨b, m₂⟩
    rw [Run.both_of_left ran out ran'] at ended ⊢
    obtain ⟨δ, a', b', m₁', m₂', ran₁, ran₂, grows, joined, size, size', alike, alike'⟩ :=
      commute first second within joins ran out ran' (Outcome.ended_of_both ended).2
    rw [Run.both_of_right ran₁ alike'.ended.2 ran₂]
    exact ⟨δ, grows, joined, size, size', alike.both alike'⟩
  case true.false =>
    intro γ m m' within joins ended
    rcases ran : y m with ⟨b, m₁⟩
    have out : b ≠ .exhausted := by
      rintro rfl
      exact ended (by simp only [Run.both, ran, if_true])
    rcases ran' : x m₁ with ⟨a, m₂⟩
    rw [Run.both_of_right ran out ran'] at ended ⊢
    obtain ⟨δ, b', a', m₁', m₂', ran₁, ran₂, grows, joined, size, size', alike', alike⟩ :=
      commute second first within joins ran out ran' (Outcome.ended_of_both ended).1
    rw [Run.both_of_left ran₁ alike.ended.2 ran₂]
    exact ⟨δ, grows, joined, size, size', alike.both alike'⟩

/-! ## Pools -/

/-- A task is handed to pools that are meant alike. -/
theorem submit {γ : Link} {m m' : Machine} (joins : γ.Joins w m m') {p p' : PoolId}
    (placed : Machine.Meant w.pools m m' p p') :
    γ.Ends γ w (fun _ _ _ => True) m m' (Run.submit p m) (Run.submit p' m') := by
  have workers : (m'.pool p').workers = (m.pool p).workers :=
    congrArg Prod.fst (joins.slots.pool placed)
  have alike : ((m'.pool p').submit).map (fun _ => ()) = ((m.pool p).submit).map fun _ => () := by
    unfold WorkerPool.submit
    rw [workers]
    rcases Comparison.le.onPlain (m.pool p).workers (.int 0) with e | ⟨- | -⟩ <;> rfl
  unfold Run.submit Run.tryPool
  cases handed : (m.pool p).submit with
  | error e =>
    cases handed' : (m'.pool p').submit with
    | error e' =>
      rw [handed, handed'] at alike
      cases alike
      exact ⟨.refl γ m m', joins, Nat.le_refl _, Nat.le_refl _, .fault e⟩
    | ok q' =>
      rw [handed, handed'] at alike
      cases alike
  | ok q =>
    cases handed' : (m'.pool p').submit with
    | error e' =>
      rw [handed, handed'] at alike
      cases alike
    | ok q' =>
      have after : γ.Joins w (m.setPool p q) (m'.setPool p' q') :=
        joins.setPool (WorkerPool.slots_of_submit handed) (WorkerPool.slots_of_submit handed')
      exact ⟨.refl γ m m', after, Nat.le_refl _, Nat.le_refl _, .value trivial⟩

/-- The two tasks of a split, in whatever order on each side. -/
theorem tasks {x x' y y' : Run Boxed} (first : Steady w β x x') (second : Steady w β y y') {γ : Link}
    {m m' : Machine} (within : β.Within γ) (joins : γ.Joins w m m') {p p' : PoolId}
    (placed : Machine.Meant w.pools m m' p p') {b c : Bool}
    (ended : ((Run.submit p >>= fun _ => Run.both b x y) m).1 ≠ .exhausted) :
    ∃ δ, γ.Ends δ w Link.Pairs m m' ((Run.submit p >>= fun _ => Run.both b x y) m)
      ((Run.submit p' >>= fun _ => Run.both c x' y') m') := by
  rw [Run.bind_eq_onward] at ended ⊢
  rw [Run.bind_eq_onward]
  have tasks : Agrees w γ Link.Pairs (Run.both b x y) (Run.both c x' y') :=
    (both first second b c).later within
  exact onward_at (submit joins placed) (fun o o' alike =>
    onValue (R := fun _ _ _ => True) alike fun _ _ _ => tasks) ended

/-- The operands of a split that begins, in whatever order on each side. -/
theorem split {x x' y y' : Run Boxed} (first : Steady w β x x') (second : Steady w β y y') {γ : Link}
    {m m' : Machine} (within : β.Within γ) (joins : γ.Joins w m m') {p p' : PoolId}
    (placed : Machine.Meant w.pools m m' p p') {a : Int} (slots : (m.pool p).available = .int a)
    {b c : Bool} (ended : (Run.releasing p WorkerPool.splitSlots (Run.submit p >>= fun _ => Run.both b x y)
      (m.splitting p a)).1 ≠ .exhausted) :
    ∃ δ, γ.Ends δ w Link.Pairs m m'
      (Run.releasing p WorkerPool.splitSlots (Run.submit p >>= fun _ => Run.both b x y) (m.splitting p a))
      (Run.releasing p' WorkerPool.splitSlots (Run.submit p' >>= fun _ => Run.both c x' y')
        (m'.splitting p' a)) := by
  have clean := joins.clean
  have slots' : (m'.pool p').available = .int a :=
    (congrArg Prod.snd (joins.slots.pool placed)).trans slots
  have left := Confines.tasks p b (first.left within joins) (second.left within joins)
  have right := Confines.tasks p' c (first.right within joins) (second.right within joins)
  have inner := tasks (b := b) (c := c) first second within (joins.splitting placed a)
    (placed.setPool _ _)
  rcases ran : (Run.submit p >>= fun _ => Run.both b x y) (m.splitting p a) with ⟨o, after⟩
  rcases ran' : (Run.submit p' >>= fun _ => Run.both c x' y') (m'.splitting p' a) with ⟨o', after'⟩
  have out : o ≠ .exhausted := by
    rintro rfl
    rw [Run.releasing_eq_onward, Run.onward_of_exhausted ran] at ended
    exact ended rfl
  obtain ⟨δ, ends⟩ := inner (by rwa [ran])
  rw [ran, ran'] at ends
  -- on both sides the slots that have been taken are given back
  obtain ⟨q, shape, holds, restored⟩ := Confines.releasing_eq clean joins.left placed.left slots left ran out
  obtain ⟨q', shape', holds', restored'⟩ :=
    Confines.releasing_eq clean joins.right placed.right slots' right ran' ends.outcomes.ended.2
  rw [shape, shape']
  refine ⟨δ, ⟨ends.grows.toWithin, ends.grows.new⟩, ?_, ends.size, ends.size', ends.outcomes⟩
  exact ends.joins.of_pools rfl rfl rfl rfl holds holds'
    (joins.slots.congr restored.slots restored'.slots)

/-- Two runs one after the other. -/
theorem sequence {x x' y y' : Run Boxed} (first : Agrees w β Values x x') (second : Agrees w β Values y y') :
    Agrees w β Link.Pairs (x >>= fun a => y >>= fun b => pure (a, b))
      (x' >>= fun a => y' >>= fun b => pure (a, b)) :=
  first.bind fun _ _ _ within alike => (second.later within).bind fun _ _ _ larger alike' =>
    of_pure fun _ more => ⟨alike.later (larger.trans more), alike'.later more⟩

/-- The operands of an operator. In a split they may come in either order. -/
theorem operands {x x' y y' : Run Boxed} {pool : Option PoolId}
    (named : ∀ p, pool = some p → p < w.pools) (first : Steady w β x x') (second : Steady w β y y') :
    Agrees w β Link.Pairs (Run.operands pool x y) (Run.operands pool x' y') := by
  intro γ m m' within joins ended
  obtain ⟨p, m₁, a, restored, whole, frames, functions, meant, slots, shape⟩ :=
    Machine.operands_eq (joins.left.pools joins.clean) named
  obtain ⟨p', m₁', a', restored', whole', frames', functions', meant', slots', shape'⟩ :=
    Machine.operands_eq (joins.right.pools joins.clean) named
  have same := joins.slots.congr restored.slots restored'.slots
  have placed : Machine.Meant w.pools m₁ m₁' p p' := .of_meant same whole whole' named meant meant'
  have begun : m.Extends m₁ := .of_eq functions frames
  have begun' : m'.Extends m₁' := .of_eq functions' frames'
  have joins₁ : γ.Joins w m₁ m₁' := joins.of_pools frames functions frames' functions'
    (joins.left.of_eq frames functions fun _ => whole) (joins.right.of_eq frames' functions' fun _ => whole')
    same
  have reached : γ.Ends γ w (fun _ _ _ => True) m m' (Outcome.value (), m₁) (.value (), m₁') :=
    ⟨.refl γ m m', joins₁, begun.frames, begun'.frames, .value trivial⟩
  -- so many slots are free on both sides, so both split or neither does
  obtain rfl : a' = a := by
    have free : (m₁'.pool p').available = (m₁.pool p).available := congrArg Prod.snd (same.pool placed)
    rw [slots, slots'] at free
    exact Value.int.inj free
  rw [shape] at ended ⊢
  rw [shape']
  suffices ∃ δ, γ.Ends δ w Link.Pairs m₁ m₁' _ _ from
    this.imp fun δ ends => reached.trans ends
  by_cases enough : 2 < a'
  · rw [if_pos enough] at ended ⊢
    rw [if_pos enough]
    exact split first second within joins₁ placed slots ended
  · rw [if_neg enough] at ended ⊢
    rw [if_neg enough]
    have counted : γ.Joins w (m₁.inTurn p) (m₁'.inTurn p') := joins₁.setPool rfl rfl
    obtain ⟨δ, ends⟩ := (sequence first.agrees second.agrees) γ _ _ within counted ended
    exact ⟨δ, ⟨ends.grows.toWithin, ends.grows.new⟩, ends.joins, ends.size, ends.size', ends.outcomes⟩

/-- A binary operator on two operands that may be evaluated side by side. -/
theorem splitBinary (op : BinaryOp) {x x' y y' : Run Boxed} {pool : Option PoolId}
    (named : ∀ p, pool = some p → p < w.pools) (first : Steady w β x x') (second : Steady w β y y') :
    Agrees w β Values (Run.splitBinary op x y pool) (Run.splitBinary op x' y' pool) := by
  unfold Run.splitBinary
  refine ite ((operands named first second).bind fun γ a b _ alike => ?_) (fail _)
  exact boxResult (alike.1.applyBinary op alike.2) fun _ => BinaryOp.scalar_of_apply

/-! ## Blocks and loops -/

/-- Two steps of one label that agree. -/
def Steps (w : Realm) (β : Link) (s s' : Step) : Prop :=
  s.label = s'.label ∧ Agrees w β Values s.run s'.run

theorem Steps.later {s s' : Step} {γ : Link} (h : Steps w β s s') (within : β.Within γ) :
    Steps w γ s s' := ⟨h.1, h.2.later within⟩

theorem runAll {as bs : List Step} (alike : List.Forall₂ (Steps w β) as bs) {v v' : Boxed}
    (known : β.Values v v') : Agrees w β Values (Step.runAll as v) (Step.runAll bs v') := by
  induction as generalizing bs β v v' with
  | nil =>
    cases alike
    exact of_pure fun γ within => known.later within
  | cons s as ih =>
    cases alike with
    | cons first rest =>
      exact first.2.bind fun γ a b within found =>
        ih (rest.imp fun _ _ both => both.later within) found

theorem runFrom (fuel : Nat) : ∀ {β : Link} {all all' as bs : List Step} {v v' : Boxed},
    List.Forall₂ (Steps w β) all all' → List.Forall₂ (Steps w β) as bs → β.Values v v' →
      Agrees w β Values (Step.runFrom all fuel as v) (Step.runFrom all' fuel bs v') := by
  induction fuel with
  | zero => exact fun _ _ _ => exhausted
  | succ fuel ih =>
    intro β all all' as bs v v' whole each known
    rw [Step.runFrom_succ, Step.runFrom_succ]
    refine onward (runAll each known) fun γ o o' within alike => ?_
    cases alike with
    | value alike => exact of_pure fun δ larger => alike.later larger
    | fault e => exact fail e
    | jump target alike =>
      have whole' := whole.imp fun _ _ both => Steps.later both within
      have behind := Step.after?_forall₂ target (fun both => both.1) whole'
      simp only
      cases found : Step.after? target all with
      | none =>
        rw [found] at behind
        rw [behind.of_none]
        exact done (.jump target _) (.jump target _) fun δ larger =>
          .jump target (alike.later larger)
      | some rest =>
        rw [found] at behind
        obtain ⟨rest', found', same⟩ := behind.of_some
        rw [found']
        exact ih whole' same alike

theorem loop (breakLabel continueLabel : Option Nat) (fuel : Nat) : ∀ {β : Link} {x y : Run Boxed},
    Agrees w β Values x y → Agrees w β Values (Run.loop x breakLabel continueLabel fuel)
      (Run.loop y breakLabel continueLabel fuel) := by
  induction fuel with
  | zero => exact fun _ => exhausted
  | succ fuel ih =>
    intro β x y turn
    rw [Run.loop_succ, Run.loop_succ]
    refine onward turn fun γ o o' within alike => ?_
    cases alike with
    | value => exact ih (turn.later within)
    | fault e => exact fail e
    | jump target alike =>
      have out : Agrees w γ Values (Run.jump target _) (Run.jump target _) :=
        done (.jump target _) (.jump target _) fun δ larger => .jump target (alike.later larger)
      simp only
      split
      · exact of_pure fun δ larger => alike.later larger
      · split
        · exact ih (turn.later within)
        · exact out

end Agrees

end Run

end Knot
