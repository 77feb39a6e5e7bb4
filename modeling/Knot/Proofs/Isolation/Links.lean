import Knot.Proofs.Isolation.Evaluation
import Mathlib.Data.List.Forall2

/-!
# Machines that stand for one another

Two runs in one realm that differ in the order of what they do make the same frames and functions under
other numbers. A link says which frames and which functions of two machines stand for one another
(`Link`). It joins the two machines (`Link.Joins`) if frames that stand for one another show the same
values, functions that stand for one another have the same body, and the pools have the same slots.
Lookups, assignments, new frames and new functions keep that so.
-/

namespace Knot

/-- What holds of each pair of two lists holds of their members. -/
theorem forall_mem_of_forall₂ {α : Type} {R : α → α → Prop} {P Q : α → Prop} {as bs : List α}
    (related : List.Forall₂ R as bs) (each : ∀ {a b}, R a b → P a ∧ Q b) :
    (∀ a ∈ as, P a) ∧ ∀ b ∈ bs, Q b := by
  induction related with
  | nil => exact ⟨List.forall_mem_nil P, List.forall_mem_nil Q⟩
  | cons first _ ih =>
    obtain ⟨left, right⟩ := each first
    exact ⟨List.forall_mem_cons.2 ⟨left, ih.1⟩, List.forall_mem_cons.2 ⟨right, ih.2⟩⟩

/-- Which frames and which functions of two machines stand for one another. -/
structure Link where
  frames : FrameId → FrameId → Prop
  functions : Nat → Nat → Prop

namespace Link

/-- Two values are alike if they are equal, or functions that stand for one another. -/
inductive Values (β : Link) : Boxed → Boxed → Prop
  | plain {v v' : Boxed} (same : v'.value = v.value) (noFunction : ∀ id, v.value ≠ .closure id) :
      β.Values v v'
  | closure {i j a b : Nat} (linked : β.functions i j) : β.Values ⟨.closure i, a⟩ ⟨.closure j, b⟩

/-- Two frames are alike if their parents stand for one another and they show values that are alike. -/
structure Frames (β : Link) (a b : Frame) : Prop where
  parents : Matched β.frames a.parent b.parent
  values : ∀ u, Matched β.Values (a.get? u) (b.get? u)

/-- Two functions are alike if they evaluate one body in frames that stand for one another. -/
inductive Callables (β : Link) : Callable → Callable → Prop
  | closure {ps : List Nat} {body : Expr} {f g : FrameId} {context : Context} (linked : β.frames f g) :
      β.Callables (.closure ps body f context) (.closure ps body g context)

/-- Two machines of a realm that a link joins. What was there before the realm stands for itself. -/
structure Joins (β : Link) (w : Realm) (m m' : Machine) : Prop where
  left : w.Holds m
  right : w.Holds m'
  clean : w.clean
  base : ∀ {i j}, β.frames i j → w.frames ≤ i ∧ w.frames ≤ j
  single : ∀ {i j i' j'}, β.frames i j → β.frames i' j' → (i = i' ↔ j = j')
  frames : ∀ {i j}, β.frames i j →
    ∃ a b, m.frames.get? i = some a ∧ m'.frames.get? j = some b ∧ β.Frames a b
  functions : ∀ {i j}, β.functions i j → (i = j ∧ i < w.functions) ∨ (w.functions ≤ i ∧ w.functions ≤ j ∧
    ∃ c d, m.functions[i]? = some c ∧ m'.functions[j]? = some d ∧ β.Callables c d)
  old : ∀ i < w.functions, β.functions i i
  slots : m.SameSlots w.pools m'

/-- A link that holds at least what another one holds. -/
structure Within (β γ : Link) : Prop where
  frames : ∀ {i j}, β.frames i j → γ.frames i j
  functions : ∀ {i j}, β.functions i j → γ.functions i j

/-- A link to which frames have been added that two machines did not have. -/
structure Grows (β γ : Link) (m m' : Machine) : Prop extends β.Within γ where
  new : ∀ {i j}, γ.frames i j →
    β.frames i j ∨ (m.frames.frames.size ≤ i ∧ m'.frames.frames.size ≤ j)

variable {β γ δ : Link} {w : Realm} {m m' : Machine} {v v' : Boxed}

theorem Within.refl (β : Link) : β.Within β := ⟨id, id⟩

theorem Within.trans (first : β.Within γ) (second : γ.Within δ) : β.Within δ :=
  ⟨fun h => second.frames (first.frames h), fun h => second.functions (first.functions h)⟩

theorem Grows.refl (β : Link) (m m' : Machine) : β.Grows β m m' := ⟨.refl β, .inl⟩

/-- What is added later is new, too. -/
theorem Grows.trans {next next' : Machine} (first : β.Grows γ m m') (second : γ.Grows δ next next')
    (size : m.frames.frames.size ≤ next.frames.frames.size)
    (size' : m'.frames.frames.size ≤ next'.frames.frames.size) : β.Grows δ m m' := by
  refine ⟨first.toWithin.trans second.toWithin, fun linked => ?_⟩
  rcases second.new linked with before | ⟨above, above'⟩
  · exact first.new before
  · exact .inr ⟨Nat.le_trans size above, Nat.le_trans size' above'⟩

/-- A link to which a frame of each machine has been added. -/
def addFrames (β : Link) (i j : FrameId) : Link where
  frames a b := β.frames a b ∨ (a = i ∧ b = j)
  functions := β.functions

/-- A link to which a function of each machine has been added. -/
def addFunctions (β : Link) (i j : Nat) : Link where
  frames := β.frames
  functions a b := β.functions a b ∨ (a = i ∧ b = j)

theorem grows_addFrames (β : Link) (m m' : Machine) :
    β.Grows (β.addFrames m.frames.frames.size m'.frames.frames.size) m m' where
  frames := .inl
  functions := id
  new pair := pair.imp_right fun same => ⟨Nat.le_of_eq same.1.symm, Nat.le_of_eq same.2.symm⟩

theorem grows_addFunctions (β : Link) (m m' : Machine) :
    β.Grows (β.addFunctions m.functions.size m'.functions.size) m m' where
  frames := id
  functions := .inl
  new := .inl

/-! ## Values -/

namespace Values

theorem later (h : β.Values v v') (within : β.Within γ) : γ.Values v v' := by
  cases h with
  | plain same noFunction => exact .plain same noFunction
  | closure linked => exact .closure (within.functions linked)

theorem scalar (s : Scalar) (a b : Nat) : β.Values ⟨.scalar s, a⟩ ⟨.scalar s, b⟩ := .plain rfl nofun

theorem none : β.Values Boxed.none Boxed.none := .plain rfl nofun

/-- Values that are alike are equally true. -/
theorem truthy (h : β.Values v v') : v'.value.truthy = v.value.truthy := by
  cases h with
  | plain same => rw [same]
  | closure => rfl

/-- What is left alone of one is left alone of the other. -/
theorem keeps (h : β.Values v v') (t : StaticType) : t.keeps v'.value = t.keeps v.value := by
  cases h with
  | plain same => rw [same]
  | closure => cases t <;> rfl

end Values

/-- A binary operator does not tell functions apart. -/
theorem Values.applyBinary {a a' b b' : Boxed} (op : BinaryOp) (left : β.Values a a')
    (right : β.Values b b') : op.apply a'.value b'.value = op.apply a.value b.value := by
  have second (v : Value) : op.apply v b'.value = op.apply v b.value := by
    cases right with
    | plain same => rw [same]
    | closure =>
      unfold BinaryOp.apply
      cases v with
      | scalar s =>
        cases s <;> cases op <;> rfl
      | _ => rfl
  rw [second]
  cases left with
  | plain same => rw [same]
  | closure => rfl

/-- Nor does a unary operator that changes its operand. -/
theorem Values.applyUnary {op : UnaryOp} {t : StaticType} (h : β.Values v v')
    (changes : (op.isConversion && t.keeps v.value) = false) :
    op.apply v'.value t = op.apply v.value t := by
  cases h with
  | plain same => rw [same]
  | closure =>
    cases op with
    | convert | convertChecked =>
      cases t with
      | value t => cases t <;> rfl
      | _ => cases changes
    | _ => rfl

/-! ## Frames and functions -/

theorem Frames.later {a b : Frame} (h : β.Frames a b) (within : β.Within γ) : γ.Frames a b where
  parents := h.parents.imp fun _ _ linked => within.frames linked
  values u := (h.values u).imp fun _ _ alike => alike.later within

theorem Callables.later {c d : Callable} (h : β.Callables c d) (within : β.Within γ) :
    γ.Callables c d := by
  cases h with
  | closure linked => exact .closure (within.frames linked)

/-- A variable of two frames that is set to values that are alike. -/
theorem Frames.set {a b : Frame} (h : β.Frames a b) (u : Nat) (alike : β.Values v v') :
    β.Frames (a.set u v) (b.set u v') := by
  refine ⟨h.parents, fun x => ?_⟩
  rw [Frame.get?_set, Frame.get?_set]
  split
  · exact alike
  · exact h.values x

/-- Two bindings of one variable to values that are alike. -/
def Bindings (β : Link) (b c : Nat × Boxed) : Prop := b.1 = c.1 ∧ β.Values b.2 c.2

theorem Frames.ofBindings {p q : Option FrameId} {bs cs : List (Nat × Boxed)}
    (parents : Matched β.frames p q) (alike : List.Forall₂ β.Bindings bs cs) :
    β.Frames (Frame.ofBindings p bs) (Frame.ofBindings q cs) := by
  suffices ∀ a b, β.Frames a b → β.Frames (bs.foldl (fun f b => f.set b.1 b.2) a)
      (cs.foldl (fun f b => f.set b.1 b.2) b) from this _ _ ⟨parents, fun _ => trivial⟩
  induction alike with
  | nil => exact fun a b h => h
  | @cons x y bs cs first _ ih =>
    intro a b h
    rw [List.foldl_cons, List.foldl_cons, ← first.1]
    exact ih _ _ (h.set x.1 first.2)

namespace Joins

variable (h : β.Joins w m m') {f g : FrameId}
include h

theorem inside (linked : β.frames f g) : f < m.frames.frames.size ∧ g < m'.frames.frames.size := by
  obtain ⟨a, b, here, there, -⟩ := h.frames linked
  exact ⟨Frames.lt_size_of_get? here, Frames.lt_size_of_get? there⟩

/-- Functions that stand for one another exist. -/
theorem known (alike : β.Values v v') : m.Has v ∧ m'.Has v' := by
  cases alike with
  | plain same noFunction =>
    exact ⟨fun id names => absurd names (noFunction id), fun id names =>
      absurd (same.symm.trans names) (noFunction id)⟩
  | closure linked =>
    have both (i j : Nat) (linked : β.functions i j) : i < m.functions.size ∧ j < m'.functions.size := by
      rcases h.functions linked with ⟨rfl, before⟩ | ⟨-, -, c, d, here, there, -⟩
      · exact ⟨Nat.lt_of_lt_of_le before h.left.functions, Nat.lt_of_lt_of_le before h.right.functions⟩
      · exact ⟨(Array.getElem?_eq_some_iff.1 here).1, (Array.getElem?_eq_some_iff.1 there).1⟩
    exact ⟨fun id names => by
      cases names
      exact (both _ _ linked).1, fun id names => by
      cases names
      exact (both _ _ linked).2⟩

/-- A variable has its home in frames that stand for one another. -/
theorem home {u : Nat} (linked : β.frames f g) :
    Matched β.frames (m.frames.home? f u) (m'.frames.home? g u) := by
  -- by induction on the frame, whose parent is older
  induction f using Nat.strongRecOn generalizing g with
  | ind f ih =>
    obtain ⟨a, b, here, there, alike⟩ := h.frames linked
    unfold Frames.home? Frames.homeFrom
    rw [here, there]
    simp only
    have declared : b.declares u = a.declares u := (alike.values u).isSome_eq
    rw [declared]
    split
    · exact linked
    · have parents := alike.parents
      cases up : a.parent with
      | none =>
        rw [up] at parents
        rw [parents.of_none]
        trivial
      | some p =>
        rw [up] at parents
        obtain ⟨q, down, above⟩ := parents.of_some
        have below : @LT.lt Nat _ p f := m.frames.older f p a here up
        have below' : @LT.lt Nat _ q g := m'.frames.older g q b there down
        rw [down]
        simp only
        rw [Frames.homeFrom_of_lt below, Frames.homeFrom_of_lt below']
        exact ih p below above

/-- A variable shows values that are alike. -/
theorem lookup {u : Nat} (linked : β.frames f g) :
    Matched β.Values (m.frames.lookup f u) (m'.frames.lookup g u) := by
  have homes := h.home (u := u) linked
  cases place : m.frames.home? f u with
  | none =>
    rw [place] at homes
    have place' := homes.of_none
    simp [Frames.lookup, place, place', Matched]
  | some p =>
    rw [place] at homes
    obtain ⟨q, place', there⟩ := homes.of_some
    obtain ⟨a, b, found, found', alike⟩ := h.frames there
    rw [Frames.lookup_of_home place, Frames.lookup_of_home place', found, found']
    exact alike.values u

/-- Pools that change in both machines so that they have the same slots. -/
theorem of_pools {n n' : Machine} (frames : n.frames = m.frames) (functions : n.functions = m.functions)
    (frames' : n'.frames = m'.frames) (functions' : n'.functions = m'.functions)
    (left : w.Holds n) (right : w.Holds n') (slots : n.SameSlots w.pools n') : β.Joins w n n' where
  left := left
  right := right
  clean := h.clean
  base := h.base
  single := h.single
  frames := by
    rw [frames, frames']
    exact h.frames
  functions := by
    rw [functions, functions']
    exact h.functions
  old := h.old
  slots := slots

/-- Two slots that are taken of pools that are meant alike. -/
theorem splitting {p p' : PoolId} (placed : Machine.Meant w.pools m m' p p') (n : Int) :
    β.Joins w (m.splitting p n) (m'.splitting p' n) := by
  have workers : (m'.pool p').workers = (m.pool p).workers := congrArg Prod.fst (h.slots.pool placed)
  refine h.of_pools rfl rfl rfl rfl (h.left.of_eq rfl rfl fun clean => ?_)
    (h.right.of_eq rfl rfl fun clean => ?_) (h.slots.setPool placed ?_)
  · exact (h.left.pools clean).setPool (n := n - 2) placed.inside rfl
  · exact (h.right.pools clean).setPool (n := n - 2) placed.inside' rfl
  · exact congrArg (fun v => (v, Value.int (n - 2))) workers

/-- Pools that are replaced by ones with the same slots. -/
theorem setPool {p p' : PoolId} {q q' : WorkerPool} (same : q.slots = (m.pool p).slots)
    (same' : q'.slots = (m'.pool p').slots) : β.Joins w (m.setPool p q) (m'.setPool p' q') := by
  have slots : Machine.SameSlots w.pools m (m.setPool p q) := Machine.sameSlots_setPool same
  have slots' : Machine.SameSlots w.pools m' (m'.setPool p' q') := Machine.sameSlots_setPool same'
  refine h.of_pools rfl rfl rfl rfl (h.left.of_eq rfl rfl fun clean => ?_)
    (h.right.of_eq rfl rfl fun clean => ?_) (h.slots.congr slots slots')
  · exact (h.left.pools clean).replaced (h.left.pools clean) slots
  · exact (h.right.pools clean).replaced (h.right.pools clean) slots'

/-- An assignment of values that are alike. -/
theorem assign {u : Nat} (linked : β.frames f g) (alike : β.Values v v') :
    Matched (fun F G => β.Joins w { m with frames := F } { m' with frames := G })
      (m.frames.assign f u v) (m'.frames.assign g u v') := by
  have homes := h.home (u := u) linked
  obtain ⟨known, known'⟩ := h.known alike
  cases place : m.frames.home? f u with
  | none =>
    rw [place] at homes
    have place' := homes.of_none
    simp [Frames.assign, place, place', Matched]
  | some p =>
    rw [place] at homes
    obtain ⟨q, place', there⟩ := homes.of_some
    have done : m.frames.assign f u v = some (m.frames.set p u v) := by simp [Frames.assign, place]
    have done' : m'.frames.assign g u v' = some (m'.frames.set q u v') := by simp [Frames.assign, place']
    rw [done, done']
    refine ⟨h.left.assign done fun _ => known, h.right.assign done' fun _ => known', h.clean, h.base,
      h.single, fun {i j} pair => ?_, h.functions, h.old, ?_⟩
    · obtain ⟨a, b, found, found', same⟩ := h.frames pair
      simp only [Frames.get?_set]
      -- the frames that are set are linked to each other only, by `single`
      by_cases here : i = p
      · have here' : j = q := (h.single pair there).1 here
        subst here here'
        exact ⟨_, _, by rw [if_pos rfl, found, Option.map_some], by rw [if_pos rfl, found', Option.map_some],
          same.set u alike⟩
      · have here' : j ≠ q := fun same => here ((h.single pair there).2 same)
        exact ⟨a, b, by rw [if_neg here, found], by rw [if_neg here', found'], same⟩
    · exact h.slots.congr (.of_eq rfl rfl rfl rfl) (.of_eq rfl rfl rfl rfl)

/-- A new frame in each machine, with bindings that are alike. -/
theorem push {bs cs : List (Nat × Boxed)} (linked : β.frames f g)
    (alike : List.Forall₂ β.Bindings bs cs) :
    (β.addFrames m.frames.frames.size m'.frames.frames.size).Joins w
      { m with frames := (m.frames.push (some f) bs).2 }
      { m' with frames := (m'.frames.push (some g) cs).2 } := by
  have within := β.grows_addFrames m m'
  obtain ⟨below, below'⟩ := h.inside linked
  obtain ⟨base, base'⟩ := h.base linked
  obtain ⟨known, known'⟩ := forall_mem_of_forall₂ alike fun both => h.known both.2
  refine ⟨h.left.push (by rintro p ⟨⟩; exact base) fun b member _ => known b member,
    h.right.push (by rintro p ⟨⟩; exact base') fun b member _ => known' b member, h.clean,
    fun {i j} pair => ?_, fun {i j i' j'} pair pair' => ?_, fun {i j} pair => ?_, fun {i j} pair => ?_,
    h.old, h.slots.congr (.of_eq rfl rfl rfl rfl) (.of_eq rfl rfl rfl rfl)⟩
  · rcases pair with old | ⟨rfl, rfl⟩
    · exact h.base old
    · exact ⟨h.left.frames, h.right.frames⟩
  -- the two new frames are behind all that are linked, so the link stays one to one
  · rcases pair with old | ⟨rfl, rfl⟩ <;> rcases pair' with old' | ⟨rfl, rfl⟩
    · exact h.single old old'
    · exact iff_of_false (Nat.ne_of_lt (h.inside old).1) (Nat.ne_of_lt (h.inside old).2)
    · exact iff_of_false (Nat.ne_of_gt (h.inside old').1) (Nat.ne_of_gt (h.inside old').2)
    · exact iff_of_true rfl rfl
  · simp only [Frames.get?_push]
    rcases pair with old | ⟨rfl, rfl⟩
    · obtain ⟨a, b, found, found', same⟩ := h.frames old
      exact ⟨a, b, by rw [if_neg (Nat.ne_of_lt (h.inside old).1), found],
        by rw [if_neg (Nat.ne_of_lt (h.inside old).2), found'], same.later within.toWithin⟩
    · refine ⟨_, _, if_pos rfl, if_pos rfl, Frames.ofBindings ?_ ?_⟩
      · simp only [Frames.existing, Option.filter, below, below', decide_true, if_true]
        exact within.frames linked
      · exact alike.imp fun b c both => ⟨both.1, both.2.later within.toWithin⟩
  · rcases h.functions pair with before | ⟨above, above', c, d, found, found', same⟩
    · exact .inl before
    · exact .inr ⟨above, above', c, d, found, found', same.later within.toWithin⟩

/-- A new function in each machine, of one body in frames that stand for one another. -/
theorem addFunction {c d : Callable} (alike : β.Callables c d) (left : w.Contains m c)
    (right : w.Contains m' d) :
    (β.addFunctions m.functions.size m'.functions.size).Joins w
      { m with functions := m.functions.push c } { m' with functions := m'.functions.push d } := by
  have within := β.grows_addFunctions m m'
  have later := (Machine.Extends.addFunction m c).functions
  have later' := (Machine.Extends.addFunction m' d).functions
  refine ⟨h.left.addFunction left, h.right.addFunction right, h.clean, h.base, h.single, fun {i j} pair => ?_,
    fun {i j} pair => ?_, fun i before => .inl (h.old i before),
    h.slots.congr (.of_eq rfl rfl rfl rfl) (.of_eq rfl rfl rfl rfl)⟩
  · obtain ⟨a, b, found, found', same⟩ := h.frames pair
    exact ⟨a, b, found, found', same.later within.toWithin⟩
  · rcases pair with old | ⟨rfl, rfl⟩
    · rcases h.functions old with before | ⟨above, above', c, d, found, found', same⟩
      · exact .inl before
      · exact .inr ⟨above, above', c, d, later _ _ found, later' _ _ found', same.later within.toWithin⟩
    · exact .inr ⟨h.left.functions, h.right.functions, c, d, Array.getElem?_push_size,
        Array.getElem?_push_size, alike.later within.toWithin⟩

end Joins

/-! ## Runs in the other order -/

/-- What either of two links holds. -/
def union (β γ : Link) : Link where
  frames i j := β.frames i j ∨ γ.frames i j
  functions i j := β.functions i j ∨ γ.functions i j

theorem within_union_left (β γ : Link) : β.Within (β.union γ) := ⟨.inl, .inl⟩

theorem within_union_right (β γ : Link) : γ.Within (β.union γ) := ⟨.inr, .inr⟩

section

variable {α : Type} {Q : Machine → α → Prop} {r : Outcome α × Machine} (h : β.Joins w m m')
include h

/-- A run that changes no frame that there was leaves a machine that is still joined. -/
theorem Joins.after_left (result : w.Result m.frames.frames.size Q m r) (ended : r.1 ≠ .exhausted) :
    β.Joins w r.2 m' where
  left := result.holds
  right := h.right
  clean := h.clean
  base := h.base
  single := h.single
  frames pair := by
    obtain ⟨a, b, found, found', same⟩ := h.frames pair
    exact ⟨a, b, (result.kept _ (h.inside pair).1).trans found, found', same⟩
  functions pair := by
    rcases h.functions pair with before | ⟨above, above', c, d, found, found', same⟩
    · exact .inl before
    · exact .inr ⟨above, above', c, d, result.later.functions _ _ found, found', same⟩
  old := h.old
  slots := h.slots.congr (result.slots h.clean ended).slots (.refl m')

theorem Joins.after_right (result : w.Result m'.frames.frames.size Q m' r) (ended : r.1 ≠ .exhausted) :
    β.Joins w m r.2 where
  left := h.left
  right := result.holds
  clean := h.clean
  base := h.base
  single := h.single
  frames pair := by
    obtain ⟨a, b, found, found', same⟩ := h.frames pair
    exact ⟨a, b, found, (result.kept _ (h.inside pair).2).trans found', same⟩
  functions pair := by
    rcases h.functions pair with before | ⟨above, above', c, d, found, found', same⟩
    · exact .inl before
    · exact .inr ⟨above, above', c, d, found, result.later.functions _ _ found', same⟩
  old := h.old
  slots := h.slots.congr (.refl m) (result.slots h.clean ended).slots

end

/-- Two runs lead from `m` to `m₂` by way of `m₁` in one order, and from `m'` to `m₂'` by way of `m₁'` in
the other. The first run adds frames from `m` and from `m₁'` on, and the second one from `m₁` and from `m'`
on. What both of them add joins the last machines. -/
theorem Joins.union {m₁ m₁' m₂ m₂' : Machine} (first : γ.Joins w m₁ m₂') (second : δ.Joins w m₂ m₁')
    (grows : β.Grows γ m m₁') (grows' : β.Grows δ m₁ m')
    (kept : ∀ f < m₁.frames.frames.size, m₂.frames.get? f = m₁.frames.get? f)
    (kept' : ∀ f < m₁'.frames.frames.size, m₂'.frames.get? f = m₁'.frames.get? f)
    (later : m₁.Extends m₂) (later' : m₁'.Extends m₂') (restored : m₁.Restored w.pools m₂) :
    (γ.union δ).Joins w m₂ m₂' where
  left := second.left
  right := first.right
  clean := first.clean
  base pair := pair.elim first.base second.base
  single := by
    -- a pair that only the first run has added and one that only the second one has added lie apart
    have apart {i j i' j'} (pair : γ.frames i j) (pair' : δ.frames i' j') : i = i' ↔ j = j' := by
      rcases grows.new pair with both | ⟨-, above⟩
      · exact second.single (grows'.frames both) pair'
      · rcases grows'.new pair' with both | ⟨above', -⟩
        · exact first.single pair (grows.frames both)
        · have below := Nat.lt_of_lt_of_le (first.inside pair).1 above'
          have below' := Nat.lt_of_lt_of_le (second.inside pair').2 above
          exact iff_of_false (Nat.ne_of_lt below) (Nat.ne_of_gt below')
    rintro i j i' j' (pair | pair) (pair' | pair')
    · exact first.single pair pair'
    · exact apart pair pair'
    · rw [eq_comm, apart pair' pair, eq_comm]
    · exact second.single pair pair'
  frames := by
    rintro i j (pair | pair)
    · obtain ⟨a, b, found, found', same⟩ := first.frames pair
      exact ⟨a, b, (kept i (first.inside pair).1).trans found, found', same.later (within_union_left γ δ)⟩
    · obtain ⟨a, b, found, found', same⟩ := second.frames pair
      exact ⟨a, b, found, (kept' j (second.inside pair).2).trans found',
        same.later (within_union_right γ δ)⟩
  functions := by
    rintro i j (pair | pair)
    · rcases first.functions pair with before | ⟨above, above', c, d, found, found', same⟩
      · exact .inl before
      · exact .inr ⟨above, above', c, d, later.functions _ _ found, found',
          same.later (within_union_left γ δ)⟩
    · rcases second.functions pair with before | ⟨above, above', c, d, found, found', same⟩
      · exact .inl before
      · exact .inr ⟨above, above', c, d, found, later'.functions _ _ found',
          same.later (within_union_right γ δ)⟩
  old i before := .inl (first.old i before)
  slots := first.slots.congr restored.slots (.refl m₂')

/-! ## Machines that stand for themselves -/

/-- The link by which the frames of a realm and all functions of a machine stand for themselves. -/
def identity (w : Realm) (m : Machine) : Link where
  frames i j := i = j ∧ w.frames ≤ i ∧ i < m.frames.frames.size
  functions i j := i = j ∧ i < m.functions.size

theorem Values.identity (known : m.Has v) : (identity w m).Values v v := by
  obtain ⟨value, a⟩ := v
  by_cases function : ∃ id, value = .closure id
  · obtain ⟨id, rfl⟩ := function
    exact .closure ⟨rfl, known id rfl⟩
  · exact .plain rfl fun id names => function ⟨id, names⟩

theorem joins_identity (holds : w.Holds m) (clean : w.clean) : (identity w m).Joins w m m where
  left := holds
  right := holds
  clean := clean
  base := by
    rintro i _ ⟨rfl, base, -⟩
    exact ⟨base, base⟩
  single := by
    rintro i _ i' _ ⟨rfl, -⟩ ⟨rfl, -⟩
    exact Iff.rfl
  frames := by
    rintro i _ ⟨rfl, base, inside⟩
    obtain ⟨a, found⟩ : ∃ a, m.frames.get? i = some a := ⟨_, Array.getElem?_eq_getElem inside⟩
    have binds := holds.bound i a base found
    refine ⟨a, a, found, found, ?_, fun u => ?_⟩
    · cases up : a.parent with
      | none => trivial
      | some p =>
        have older : @LT.lt Nat _ p i := m.frames.older i p a found up
        exact ⟨rfl, binds.parent p up, Nat.lt_trans older inside⟩
    · cases value : a.get? u with
      | none => trivial
      | some v => exact .identity (binds.values u v value clean)
  functions := by
    rintro i _ ⟨rfl, inside⟩
    by_cases before : i < w.functions
    · exact .inl ⟨rfl, before⟩
    · have own := Nat.le_of_not_lt before
      obtain ⟨c, found⟩ : ∃ c, m.functions[i]? = some c := ⟨_, Array.getElem?_eq_getElem inside⟩
      -- a function of the realm is a closure, and its frame is in the realm as well
      obtain ⟨ps, body, frame, context, rfl, -, base, there⟩ := holds.closures i c own found
      exact .inr ⟨own, own, _, _, found, found, .closure ⟨rfl, base, there⟩⟩
  old i before := ⟨rfl, Nat.lt_of_lt_of_le before holds.functions⟩
  slots := .refl m

end Link

end Knot
