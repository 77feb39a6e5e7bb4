import Knot.Proofs.Caching.Runs
import Mathlib.Logic.Relation

/-!
# The default pool

The default pool is made when it is first needed, of the size that the settings say at that time, and a change of
the settings drops it, so that the next use makes another one. Whether the size has changed is a question of
equality (`Machine.withSettings`).

So the size of the default pool is that of a value from which the present one has come by changes none of which
was seen (`Machine.Linked`). This holds of the machine at the beginning, work keeps it (`Machine.Linked.keeps`),
and so does a change of settings (`Machine.Linked.withSettings`). Equality of whole numbers is an equivalence, so
with whole numbers for sizes the default pool is of the size that the settings say now (`Machine.Linked.sized`).
`PoolRequest.default_pool_sized` puts this together, for every sequence of requests.
-/

namespace Knot

/-! ## Sizes -/

namespace Value

/-- The whole number that a value is. -/
def count? : Value → Option Int
  | bool b => some (bitOf b)
  | int v => some v
  | scalar (.int _ w) => some w.toInt
  | _ => Option.none

/-- Whether a value is one to set the size of the default pool to: a whole number, or absent. -/
def IsSize (v : Value) : Prop := v = none ∨ ∃ n, v.count? = some n

/-- The size of the default pool on a machine of so many processors if a value is what it is set to. -/
def workers (processors : Nat) (v : Value) : Value :=
  if v.truthy then v else .int (max 1 processors : Nat)

variable {a b : Value} {x y : Int}

theorem count?_eq_some : a.count? = some x ↔
    (∃ b, a = .bool b ∧ x = bitOf b) ∨ a = .int x ∨ ∃ t w, a = .scalar (.int t w) ∧ x = w.toInt := by
  constructor
  · intro counted
    cases a with
    | bool b =>
      cases counted
      exact .inl ⟨b, rfl, rfl⟩
    | int v =>
      cases counted
      exact .inr (.inl rfl)
    | scalar s =>
      cases s with
      | int t w =>
        cases counted
        exact .inr (.inr ⟨t, w, rfl, rfl⟩)
      | _ => cases counted
    | _ => cases counted
  · rintro (⟨b, rfl, rfl⟩ | rfl | ⟨t, w, rfl, rfl⟩) <;> rfl

/-- Whole numbers of all kinds meet exactly. -/
theorem equal_of_count (left : a.count? = some x) (right : b.count? = some y) :
    a.equal b = .ok (decide (x = y)) := by
  have numbers : Comparison.eq.onMeeting (.exact (.ofInt x) (.ofInt y)) = decide (x = y) :=
    Comparison.onMeeting_ofInt .eq x y
  rcases count?_eq_some.1 left with ⟨b, rfl, rfl⟩ | rfl | ⟨t, w, rfl, rfl⟩ <;>
    rcases count?_eq_some.1 right with ⟨b', rfl, rfl⟩ | rfl | ⟨t', w', rfl, rfl⟩ <;>
      exact congrArg Except.ok numbers

/-- Two sizes are equal if they are the same number, or both absent. -/
theorem equal_of_isSize (left : a.IsSize) (right : b.IsSize) :
    a.equal b = .ok (decide (a.count? = b.count?)) := by
  rcases left with rfl | ⟨x, left⟩
  · rcases right with rfl | ⟨y, right⟩
    · rfl
    · rcases count?_eq_some.1 right with ⟨b', rfl, rfl⟩ | rfl | ⟨t', w', rfl, rfl⟩ <;> rfl
  · rcases right with rfl | ⟨y, right⟩
    · rcases count?_eq_some.1 left with ⟨b, rfl, rfl⟩ | rfl | ⟨t, w, rfl, rfl⟩ <;> rfl
    · rw [equal_of_count left right, left, right]
      simp only [Option.some.injEq]

/-- A size counts as true if it is a number other than zero. -/
theorem truthy_of_isSize (size : a.IsSize) : a.truthy = decide (a.count?.getD 0 ≠ 0) := by
  rcases size with rfl | ⟨x, counted⟩
  · rfl
  · rcases count?_eq_some.1 counted with ⟨b, rfl, rfl⟩ | rfl | ⟨t, w, rfl, rfl⟩
    · cases b <;> rfl
    · rfl
    · rfl

theorem workers_isSize (processors : Nat) (size : a.IsSize) : (a.workers processors).IsSize := by
  unfold workers
  split
  · exact size
  · exact .inr ⟨_, rfl⟩

/-- Sizes that are the same number make pools of the same number of workers. -/
theorem count?_workers (processors : Nat) (left : a.IsSize) (right : b.IsSize)
    (same : a.count? = b.count?) :
    (a.workers processors).count? = (b.workers processors).count? := by
  unfold workers
  rw [truthy_of_isSize left, truthy_of_isSize right, same]
  split
  · exact same
  · rfl

end Value

namespace Settings

variable {s s' : Settings}

/-- The size of the default pool depends on one setting. -/
theorem resolvedWorkers_eq (s : Settings) (processors : Nat) :
    s.resolvedWorkers processors = s.maxWorkers.workers processors := by
  unfold resolvedWorkers chosenWorkers? Value.workers
  split <;> rfl

/-- What a setting is set to is among the changes. -/
theorem maxWorkers_setAll (s : Settings) (changes : List (Setting × Value)) :
    (s.setAll changes).maxWorkers = s.maxWorkers ∨
      (Setting.maxWorkers, (s.setAll changes).maxWorkers) ∈ changes := by
  induction changes generalizing s with
  | nil => exact .inl rfl
  | cons c rest ih =>
    obtain ⟨k, v⟩ := c
    rcases ih (s.set k v) with kept | later
    · have first := s.get_set k .maxWorkers v
      by_cases here : Setting.maxWorkers = k
      · subst here
        rw [if_pos rfl] at first
        have set : (s.setAll ((.maxWorkers, v) :: rest)).maxWorkers = v := kept.trans first
        rw [set]
        exact .inr List.mem_cons_self
      · rw [if_neg here] at first
        exact .inl (kept.trans first)
    · exact .inr (List.mem_cons_of_mem _ later)

/-- The settings that are found were named. -/
theorem mem_of_resolve {changes : List (String × Value)} {known : List (Setting × Value)}
    (resolved : resolve changes = .ok known) {k : Setting} {v : Value} (member : (k, v) ∈ known) :
    (k.name, v) ∈ changes := by
  induction changes generalizing known with
  | nil =>
    cases resolved
    cases member
  | cons c rest ih =>
    obtain ⟨name, w⟩ := c
    unfold resolve at resolved
    cases found : Setting.ofName? name with
    | none =>
      rw [found] at resolved
      cases resolved
    | some k' =>
      rw [found] at resolved
      cases later : resolve rest with
      | error f =>
        simp only [later] at resolved
        cases resolved
      | ok others =>
        simp only [later] at resolved
        cases resolved
        rcases List.mem_cons.1 member with here | further
        · cases here
          have same : k.name = name := by simpa using List.find?_some found
          rw [same]
          exact List.mem_cons_self
        · exact List.mem_cons_of_mem _ (ih later further)

/-- A change by names leaves the size of the default pool, or sets it to a value that was named for it. -/
theorem maxWorkers_configure {changes : List (String × Value)} (done : s.configure changes = .ok s') :
    s'.maxWorkers = s.maxWorkers ∨ (Setting.maxWorkers.name, s'.maxWorkers) ∈ changes := by
  unfold configure at done
  cases resolved : resolve changes with
  | error f =>
    rw [resolved] at done
    cases done
  | ok known =>
    rw [resolved] at done
    cases done
    exact (s.maxWorkers_setAll known).imp id (mem_of_resolve resolved)

/-- Changes of known settings can be made. -/
theorem configure_of_known {changes : List (String × Value)}
    (known : ∀ c ∈ changes, Setting.ofName? c.1 ≠ none) (s : Settings) :
    ∃ s', s.configure changes = .ok s' := by
  obtain ⟨resolved, found⟩ : ∃ resolved, resolve changes = .ok resolved := by
    induction changes with
    | nil => exact ⟨[], rfl⟩
    | cons c rest ih =>
      obtain ⟨first, later⟩ := List.forall_mem_cons.1 known
      obtain ⟨k, there⟩ := Option.ne_none_iff_exists'.1 first
      obtain ⟨others, resolved⟩ := ih later
      refine ⟨(k, c.2) :: others, ?_⟩
      unfold resolve
      simp only [there, resolved]
      rfl
  unfold configure
  rw [found]
  exact ⟨_, rfl⟩

/-- The first name that is unknown stands in the way of all changes. -/
theorem configure_of_unknown {changes : List (String × Value)} {name : String}
    (first : (changes.map Prod.fst).find? (fun n => (Setting.ofName? n).isNone) = some name)
    (s : Settings) : s.configure changes = .error (.unknownSetting name) := by
  have resolved : resolve changes = .error (.unknownSetting name) := by
    induction changes with
    | nil => cases first
    | cons c rest ih =>
      obtain ⟨n, v⟩ := c
      unfold resolve
      rw [List.map_cons, List.find?_cons] at first
      cases found : Setting.ofName? n with
      | none =>
        rw [found] at first
        cases first
        rfl
      | some k =>
        rw [found] at first
        simp only [ih first]
        rfl
  unfold configure
  rw [resolved]
  rfl

end Settings

/-! ## Changes that are not seen -/

/-- What the size of the default pool can be set to: nothing, or one of the values that are named for it. -/
def Value.Chosen (named : Value → Prop) (v : Value) : Prop := v = .none ∨ named v

/-- Whether a size is one that can follow on another one without the difference being seen. -/
def Value.Follows (named : Value → Prop) (v w : Value) : Prop := w.Chosen named ∧ w.equal v ≠ .ok false

section

variable {named : Value → Prop} {v w : Value}

theorem Value.Chosen.isSize (whole : ∀ v, named v → v.IsSize) (h : v.Chosen named) : v.IsSize := by
  rcases h with rfl | h
  · exact .inl rfl
  · exact whole v h

/-- Whole numbers stay the same as long as no difference is seen. -/
theorem Value.count?_of_follows (whole : ∀ v, named v → v.IsSize) (first : v.Chosen named)
    (h : Relation.ReflTransGen (Follows named) v w) : w.Chosen named ∧ v.count? = w.count? := by
  induction h with
  | refl => exact ⟨first, rfl⟩
  | tail _ next ih =>
    obtain ⟨set, same⟩ := ih
    obtain ⟨set', unseen⟩ := next
    rw [equal_of_isSize (set'.isSize whole) (set.isSize whole)] at unseen
    refine ⟨set', same.trans ?_⟩
    by_contra differ
    exact unseen (congrArg Except.ok (decide_eq_false fun equal => differ equal.symm))

end

namespace Machine

variable {processors : Nat} {named : Value → Prop} {m m' : Machine}

/-- The default pool is of the size of a value that the present one has come from unseen. -/
structure Linked (processors : Nat) (named : Value → Prop) (m : Machine) : Prop where
  fixed : m.processors = processors
  present : m.settings.maxWorkers.Chosen named
  pool : ∀ p, m.defaultPool = some p → p < m.pools.size ∧
    ∃ v : Value, v.Chosen named ∧ (m.pool p).workers = v.workers processors ∧
      Relation.ReflTransGen (Value.Follows named) v m.settings.maxWorkers

namespace Linked

theorem initial (processors : Nat) (named : Value → Prop) :
    (Machine.initial processors).Linked processors named :=
  ⟨rfl, .inl rfl, by rintro p ⟨⟩⟩

/-- Work keeps the default pool, or makes it of the present size. -/
theorem keeps (h : m.Linked processors named) (kept : m.KeepsPools m') :
    m'.Linked processors named := by
  refine ⟨kept.processors.trans h.fixed, kept.settings ▸ h.present, fun p here => ?_⟩
  rw [kept.settings]
  rcases kept.default with same | ⟨-, q, made, inside, workers⟩
  · obtain ⟨inside, v, set, workers, follows⟩ := h.pool p (same.symm.trans here)
    exact ⟨Nat.lt_of_lt_of_le inside kept.size, v, set, (kept.workers p inside).trans workers, follows⟩
  · rw [made] at here
    cases here
    refine ⟨inside, m.settings.maxWorkers, h.present, ?_, .refl⟩
    rw [workers, Settings.resolvedWorkers_eq, h.fixed]

/-- Without a default pool there is nothing to link. -/
theorem dropDefaultPool (h : m.Linked processors named) : m.dropDefaultPool.Linked processors named :=
  ⟨h.fixed, h.present, by rintro p ⟨⟩⟩

/-- New settings drop the default pool, unless no difference in size is seen. -/
theorem withSettings (h : m.Linked processors named) {s : Settings} (set : s.maxWorkers.Chosen named) :
    (m.withSettings s).2.Linked processors named := by
  have unseen (same : s.maxWorkers.equal m.settings.maxWorkers ≠ .ok false) :
      ({ m with settings := s } : Machine).Linked processors named := by
    refine ⟨h.fixed, set, fun p here => ?_⟩
    obtain ⟨inside, v, first, workers, follows⟩ := h.pool p here
    exact ⟨inside, v, first, workers, follows.tail ⟨set, same⟩⟩
  unfold Machine.withSettings
  cases question : s.maxWorkers.equal m.settings.maxWorkers with
  | error f => exact unseen (by simp [question])
  | ok same =>
    cases same with
    | true => exact unseen (by simp [question])
    | false => exact ⟨h.fixed, set, by rintro p ⟨⟩⟩

/-- Settings by name are new settings, or stay as they are. -/
theorem configure (h : m.Linked processors named) {changes : List (String × Value)}
    (sizes : ∀ v, (Setting.maxWorkers.name, v) ∈ changes → named v) :
    (m.configure changes).2.Linked processors named := by
  unfold Machine.configure
  cases done : m.settings.configure changes with
  | error f => exact h
  | ok s =>
    refine h.withSettings ?_
    rcases Settings.maxWorkers_configure done with kept | changed
    · exact kept ▸ h.present
    · exact .inr (sizes _ changed)

/-- With whole numbers the default pool is of the present size. -/
theorem sized (h : m.Linked processors named) (whole : ∀ v, named v → v.IsSize) {p : PoolId}
    (here : m.defaultPool = some p) :
    (m.pool p).workers.equal (m.settings.resolvedWorkers processors) = .ok true := by
  obtain ⟨-, v, set, workers, follows⟩ := h.pool p here
  obtain ⟨present, same⟩ := Value.count?_of_follows whole set follows
  have left := set.isSize whole
  have right := present.isSize whole
  rw [workers, Settings.resolvedWorkers_eq,
    Value.equal_of_isSize (Value.workers_isSize _ left) (Value.workers_isSize _ right),
    Value.count?_workers processors left right same]
  exact congrArg Except.ok (decide_eq_true rfl)

end Linked

/-- The default pool is the one that is there, or else it is made. -/
theorem exists_defaultPool (m : Machine) : ∃ p, m.ensureDefaultPool.2.defaultPool = some p ∧
    (m.defaultPool = some p ∨ m.defaultPool = none) := by
  unfold ensureDefaultPool
  cases found : m.defaultPool with
  | some p => exact ⟨p, found, .inl rfl⟩
  | none => exact ⟨_, rfl, .inr rfl⟩

/-- New settings come in any case. -/
theorem settings_withSettings (m : Machine) (s : Settings) : (m.withSettings s).2.settings = s := by
  unfold withSettings
  split <;> rfl

/-- Settings of the same size keep the default pool. -/
theorem withSettings_of_equal {s : Settings}
    (same : s.maxWorkers.equal m.settings.maxWorkers = .ok true) :
    m.withSettings s = (.ok (), { m with settings := s }) := by
  unfold withSettings
  simp only [same]

end Machine

/-! ## Requests -/

namespace Run

/-- A change of the machine takes place also if it is a fault. -/
theorem machine_of_attempt (f : Machine → Except Fault Unit × Machine) (m : Machine) :
    (attempt f m).2 = (f m).2 := by
  unfold attempt
  rcases f m with ⟨f | _, after⟩ <;> rfl

/-- Whether a run is composed of work that keeps worker pools, and of changes of the settings and of the default
pool. The sizes that the default pool is set to are among those that are named. -/
inductive Managed (named : Value → Prop) : ∀ {α : Type}, Run α → Prop where
  | keeping {α : Type} {x : Run α} (keeps : ∀ m : Machine, m.KeepsPools (x m).2) : Managed named x
  | configure (changes : List (String × Value))
      (sizes : ∀ v, (Setting.maxWorkers.name, v) ∈ changes → named v) :
      Managed named (Run.configure changes)
  | resetSettings : Managed named Run.resetSettings
  | dropDefaultPool : Managed named (Run.update Machine.dropDefaultPool)
  | onward {α β : Type} {x : Run α} {f : Outcome α → Run β} (first : Managed named x)
      (second : ∀ o, Managed named (f o)) : Managed named (x.onward f)

namespace Managed

variable {named : Value → Prop} {α : Type} {x : Run α}

theorem composes : Composes (Managed named) := ⟨fun h => .keeping fun m => (h m).2, .onward⟩

/-- A step of a cache has nothing to do with pools. -/
theorem onCache (c : CacheId) (f : MemoCache → Except Fault (α × MemoCache)) :
    Managed named (Run.onCache c f) := by
  refine .keeping fun m => ?_
  unfold Run.onCache
  split <;> exact .of_eq rfl rfl rfl rfl

/-- So all that is evaluated or called is managed, splits included. -/
theorem inherited : Inherited (Managed named) := by
  refine ⟨composes, fun {c function argument x} compute => ?_⟩
  refine composes.bind (onCache c _) fun begun => ?_
  cases begun with
  | bypassed => exact compute
  | hit result => exact composes.of_uncached (.of_pure result)
  | pending ticket => exact composes.bind compute fun result => onCache c _

/-- A managed run keeps the default pool linked to the settings. -/
theorem linked (h : Managed named x) {processors : Nat} :
    ∀ {m : Machine}, m.Linked processors named → (x m).2.Linked processors named := by
  -- by the way that the run is composed
  induction h with
  | keeping keeps => exact fun {m} before => before.keeps (keeps m)
  | configure changes sizes =>
    intro m before
    rw [Run.configure, machine_of_attempt]
    exact before.configure sizes
  | resetSettings =>
    intro m before
    rw [Run.resetSettings, machine_of_attempt]
    exact before.withSettings (.inl rfl)
  | dropDefaultPool => exact fun before => before.dropDefaultPool
  | @onward _ _ x f _ _ first second =>
    intro m before
    have step := first before
    unfold Run.onward
    generalize x m = r at step ⊢
    obtain ⟨o, after⟩ := r
    cases o with
    | exhausted => exact step
    | value | fault | jump => exact second _ step

end Managed

end Run

/-- Work that may need the default pool. -/
structure Work (named : Value → Prop) where
  run : Run Boxed
  managed : run.Managed named

namespace Work

variable {named : Value → Prop}

/-- The call of a function. -/
def call [Host] [Host.IsUncached] (fuel : Nat) (function : Boxed) (args : List Boxed) : Work named :=
  ⟨Run.call fuel function args, Run.Managed.inherited.call fuel function args⟩

/-- The evaluation of a tree. -/
def evaluate [Host] [Host.IsUncached] (fuel : Nat) (context : Context) (e : Expr) : Work named :=
  ⟨Run.evaluate fuel context e, Run.Managed.inherited.evaluate fuel context e⟩

/-- A binary operator on two pieces of work, which may be done side by side. -/
def split (op : BinaryOp) (left right : Work named) (pool : Option PoolId) : Work named :=
  ⟨Run.splitBinary op left.run right.run pool,
    Run.Managed.inherited.splitBinary left.managed right.managed⟩

end Work

/-- What can be asked for that has to do with the default pool. The size is set to values that are named for
it. -/
inductive PoolRequest (named : Value → Prop) where
  | configure (changes : List (String × Value))
      (sizes : ∀ v, (Setting.maxWorkers.name, v) ∈ changes → named v)
  | resetSettings
  | defaultPool
  | shutdown
  | work (w : Work named)

namespace PoolRequest

variable {named : Value → Prop}

/-- The machine after a request, however it ended. -/
def next (m : Machine) : PoolRequest named → Machine
  | configure changes _ => (Run.configure changes m).2
  | resetSettings => (Run.resetSettings m).2
  | defaultPool => (Run.resolvePool none m).2
  | shutdown => m.dropDefaultPool
  | work w => (w.run m).2

/-- The machine after some requests. -/
def after (processors : Nat) (requests : List (PoolRequest named)) : Machine :=
  requests.foldl next (.initial processors)

/-- Whether a request is one to change settings. -/
def Resettles : PoolRequest named → Prop
  | configure _ _ | resetSettings => True
  | defaultPool | shutdown | work _ => False

/-- A request keeps the default pool linked to the settings. -/
theorem linked_next {processors : Nat} {m : Machine} (h : m.Linked processors named) (r : PoolRequest named) :
    (next m r).Linked processors named := by
  cases r with
  | configure changes sizes => exact (Run.Managed.configure changes sizes).linked h
  | resetSettings => exact Run.Managed.resetSettings.linked h
  | defaultPool => exact h.keeps (.ensureDefaultPool m)
  | shutdown => exact h.dropDefaultPool
  | work w => exact w.managed.linked h

/-- And so do several requests. -/
theorem linked_foldl {processors : Nat} {m : Machine} (h : m.Linked processors named)
    (requests : List (PoolRequest named)) : (requests.foldl next m).Linked processors named := by
  induction requests generalizing m with
  | nil => exact h
  | cons r rest ih => exact ih (linked_next h r)

/-- A request that leaves the size of the default pool what it is keeps the default pool. -/
theorem kept_next {m : Machine} {r : PoolRequest named} (settles : r.Resettles)
    (same : (next m r).settings.maxWorkers.equal m.settings.maxWorkers = .ok true) :
    (next m r).defaultPool = m.defaultPool ∧ (next m r).pools = m.pools := by
  -- the new settings are the ones compared with, as they come in any case
  have unseen {s : Settings}
      (same : (m.withSettings s).2.settings.maxWorkers.equal m.settings.maxWorkers = .ok true) :
      (m.withSettings s).2.defaultPool = m.defaultPool ∧ (m.withSettings s).2.pools = m.pools := by
    rw [Machine.settings_withSettings] at same
    rw [Machine.withSettings_of_equal same]
    exact ⟨rfl, rfl⟩
  cases r with
  | configure changes sizes =>
    simp only [next, Run.configure, Run.machine_of_attempt] at same ⊢
    unfold Machine.configure at same ⊢
    cases done : m.settings.configure changes with
    | error f => exact ⟨rfl, rfl⟩
    | ok s =>
      rw [done] at same
      exact unseen same
  | resetSettings =>
    simp only [next, Run.resetSettings, Run.machine_of_attempt] at same ⊢
    exact unseen same
  | defaultPool | shutdown | work => cases settles

end PoolRequest

/-- What the default pool has to do with the settings. -/
structure Machine.DefaultPoolSized (processors : Nat) (named : Value → Prop) (m : Machine) : Prop where
  /-- Whatever values sizes are set to, the default pool is of the size of one from which the present one has come
  by changes that were not seen. -/
  linked : ∀ p, m.defaultPool = some p → ∃ v : Value, v.Chosen named ∧
    (m.pool p).workers = v.workers processors ∧
      Relation.ReflTransGen (Value.Follows named) v m.settings.maxWorkers
  /-- With whole numbers for sizes it is of the present size. -/
  sized : (∀ v, named v → v.IsSize) → ∀ p, m.defaultPool = some p →
    p < m.pools.size ∧ (m.pool p).workers.equal (m.settings.resolvedWorkers processors) = .ok true
  /-- When the default pool has been asked for there is one, and it is the one that was there, if any was. -/
  made : ∃ p, (PoolRequest.next m (.defaultPool : PoolRequest named)).defaultPool = some p ∧
    (m.defaultPool = some p ∨ m.defaultPool = none)
  /-- A change of settings that leaves the size equal to what it was keeps the pool, with all that it counts. -/
  kept : ∀ r : PoolRequest named, r.Resettles →
    (r.next m).settings.maxWorkers.equal m.settings.maxWorkers = .ok true →
    (r.next m).defaultPool = m.defaultPool ∧ (r.next m).pools = m.pools
  /-- A whole number that is left as it is is equal to what it was. -/
  itself : (∀ v, named v → v.IsSize) → m.settings.maxWorkers.equal m.settings.maxWorkers = .ok true
  /-- Known settings are changed. -/
  known : ∀ changes : List (String × Value), (∀ c ∈ changes, Setting.ofName? c.1 ≠ none) →
    ∃ s, m.settings.configure changes = .ok s ∧ (Run.configure changes m).2.settings = s
  /-- If a name is unknown, among whatever names, the first such one is the fault, and nothing is changed. -/
  unknown : ∀ changes : List (String × Value), (∃ c ∈ changes, Setting.ofName? c.1 = none) →
    ∃ name, (changes.map Prod.fst).find? (fun n => (Setting.ofName? n).isNone) = some name ∧
      Run.configure changes m = (.fault (.unknownSetting name), m)

/-- After every sequence of requests the default pool is of the size that the settings say. -/
theorem PoolRequest.default_pool_sized (processors : Nat) {named : Value → Prop}
    (requests : List (PoolRequest named)) :
    (after processors requests).DefaultPoolSized processors named := by
  have linked : (after processors requests).Linked processors named :=
    linked_foldl (.initial processors named) requests
  generalize after processors requests = m at linked
  constructor
  case linked => exact fun p here => (linked.pool p here).2
  case sized => exact fun whole p here => ⟨(linked.pool p here).1, linked.sized whole here⟩
  case made => exact m.exists_defaultPool
  -- the default pool is replaced only when the size that is set is another
  case kept => exact fun r settles same => kept_next settles same
  case itself =>
    intro whole
    have size := linked.present.isSize whole
    rw [Value.equal_of_isSize size size]
    exact congrArg Except.ok (decide_eq_true rfl)
  case known =>
    intro changes known
    obtain ⟨s, done⟩ := m.settings.configure_of_known known
    refine ⟨s, done, ?_⟩
    rw [Run.configure, Run.machine_of_attempt, Machine.configure, done]
    exact m.settings_withSettings s
  case unknown =>
    rintro changes ⟨c, member, strange⟩
    obtain ⟨name, first⟩ : ∃ name, (changes.map Prod.fst).find?
        (fun n => (Setting.ofName? n).isNone) = some name := by
      refine Option.isSome_iff_exists.1 (List.find?_isSome.2 ⟨c.1, List.mem_map_of_mem member, ?_⟩)
      rw [strange]
      rfl
    refine ⟨name, first, ?_⟩
    simp only [Run.configure, Run.attempt, Machine.configure, Settings.configure_of_unknown first]

/-- Four workers are asked for, the default pool is used for a sum, and they are asked for again. -/
def fourWorkers : List (PoolRequest Value.IsSize) :=
  let called : Work Value.IsSize := .call 1 ⟨.host ⟨some "ident", .identity⟩, 0⟩ [⟨.int 1, 1⟩]
  let evaluated : Work Value.IsSize := .evaluate 1 .empty (.constant ⟨.int 2, 2⟩ .int64)
  let four (changes : List (String × Value)) (sizes : changes = [("max_workers", .int 4)]) :
      PoolRequest Value.IsSize := .configure changes (by simp [sizes, Value.IsSize, Value.count?])
  [four _ rfl, .work (.split .add called evaluated none), four _ rfl]

/-- Then the default pool is the one that was used, with four workers. -/
theorem PoolRequest.default_pool_sized_fourWorkers :
    (after 8 fourWorkers).DefaultPoolSized 8 Value.IsSize ∧
      (after 8 fourWorkers).defaultPool = some 0 ∧
      ((after 8 fourWorkers).pool 0).workers = .int 4 ∧
      ((after 8 fourWorkers).pool 0).stats.parallel = 1 ∧
      ((after 8 fourWorkers).pool 0).workers.equal
        ((after 8 fourWorkers).settings.resolvedWorkers 8) = .ok true := by
  have sized := default_pool_sized 8 fourWorkers
  have here : (after 8 fourWorkers).defaultPool = some 0 := rfl
  exact ⟨sized, here, rfl, rfl, (sized.sized (fun _ size => size) 0 here).2⟩

end Knot
