import Knot.Proofs.Caching.Counts
import Knot.Proofs.Caching.Runs
import Knot.Proofs.FirstOrder.Sessions

/-!
# What cached calls compute

With a cache and without splits, a call of a first-order definition evaluates the body for each argument at
most once (`Session.computes_once`). Every evaluation of a body opens a frame that gives the variable of the
definition its argument, and nothing else does but the entry, so the frames that a call leaves tell for which
arguments the body was evaluated (`Machine.givenSince`).

What a run has evaluated is a ledger (`Ledger`), and ledgers of runs that follow one another add up. The ledger of
a lookup that has missed is that of the body, and the argument itself. The argument is not in the ledger of the
body: if `n + 1` is the least depth at which the definition answers on it, then all that the body asks for is
answered at the depth `n` (`World.lookup_reckons`), and the argument is not.
-/

namespace Knot

/-! ## Frames and ledgers -/

/-- The value that a frame gives to a variable. -/
def Frame.given? (f : Frame) (x : Parameter) : Option Value := (f.get? x.uid).map fun b => b.value

/-- What the frames that are new since an earlier machine give to a variable, the oldest first. -/
def Machine.givenSince (m m' : Machine) (x : Parameter) : List (Option Value) :=
  (m'.frames.frames.toList.drop m.frames.frames.size).map fun f => f.given? x

namespace Installed

variable {o : CompileOptions}

/-- What the cache keeps for the closure of a definition and an argument. -/
def kept (i : Installed o) (c : CacheId) (m : Machine) (a : Value) : Except Fault (Option Boxed) :=
  (m.cache c).heldIn (m.cache c).current ⟨.closure i.closure, 0⟩ ⟨a, 0⟩

/-- The boxes do not count. -/
theorem kept_eq (i : Installed o) {c : CacheId} {m : Machine} (sane : (m.cache c).Sane)
    {function : Boxed} (argument : Boxed) (closure : function.value = .closure i.closure)
    (typed : argument.value.hasType i.definition.domain = true) :
    i.kept c m argument.value = (m.cache c).heldIn (m.cache c).current function argument := by
  obtain ⟨number, shape, ofType⟩ := Value.hasType_iff.1 typed
  have whole : number.type.isFloat = false := by
    rw [ofType]
    exact i.definition.domain_whole
  unfold kept
  rw [sane.heldIn_congr whole _ ⟨argument.value, 0⟩ argument shape shape]
  exact Generation.held_congr_function _ (f := ⟨.closure i.closure, 0⟩) rfl closure argument

end Installed

/-- What a run has evaluated the body of a definition for: a frame for each argument, none of which had a
result, each of which has one now, and that many misses, stores, and results more. -/
structure Ledger {o : CompileOptions} (i : Installed o) (c : CacheId) (m m' : Machine)
    (evaluated : List Value) : Prop where
  frames : ∃ new, m'.frames.frames.toList = m.frames.frames.toList ++ new ∧
    new.map (fun f => f.given? i.definition.argument) = evaluated.map some
  distinct : evaluated.Nodup
  typed : ∀ b ∈ evaluated, b.hasType i.definition.domain = true
  absent : ∀ b ∈ evaluated, i.kept c m b = .ok none
  present : ∀ b ∈ evaluated, ∃ r, i.kept c m' b = .ok (some r)
  others : ∀ b, b.hasType i.definition.domain = true → b ∉ evaluated → i.kept c m' b = i.kept c m b
  misses : (m'.cache c).stats.misses = (m.cache c).stats.misses + evaluated.length
  stores : (m'.cache c).stats.stores = (m.cache c).stats.stores + evaluated.length
  size : (m'.cache c).size = (m.cache c).size + evaluated.length

namespace Ledger

variable {o : CompileOptions} {i : Installed o} {c : CacheId} {m m' m'' : Machine}
  {evaluated more : List Value}

/-- A run that opens no frame, and holds and counts what was held and counted, has evaluated nothing. -/
theorem of_cache (frames : m'.frames = m.frames)
    (generations : (m'.cache c).generations = (m.cache c).generations)
    (misses : (m'.cache c).stats.misses = (m.cache c).stats.misses)
    (stores : (m'.cache c).stats.stores = (m.cache c).stats.stores) : Ledger i c m m' [] where
  frames := ⟨[], by rw [frames, List.append_nil], rfl⟩
  distinct := List.nodup_nil
  typed := List.forall_mem_nil _
  absent := List.forall_mem_nil _
  present := List.forall_mem_nil _
  others b _ _ := by
    unfold Installed.kept MemoCache.current
    rw [generations]
    exact MemoCache.heldIn_of_eq generations _ _ _
  misses := misses
  stores := stores
  size := by
    unfold MemoCache.size MemoCache.latest MemoCache.current MemoCache.generation
    rw [generations]
    rfl

/-- A run that opens no frame and leaves the caches has evaluated nothing. -/
theorem of_eq (frames : m'.frames = m.frames) (caches : m'.caches = m.caches) : Ledger i c m m' [] := by
  have same := Machine.cache_congr caches c
  exact of_cache frames (by rw [same]) (by rw [same]) (by rw [same])

/-- Two runs one after the other have evaluated what the first one has and what the second one has. -/
theorem trans (first : Ledger i c m m' evaluated) (second : Ledger i c m' m'' more) :
    Ledger i c m m'' (evaluated ++ more) := by
  -- what the first run has evaluated is held, so the second does not evaluate it again
  have apart : ∀ b ∈ evaluated, b ∉ more := by
    intro b before after
    obtain ⟨r, held⟩ := first.present b before
    rw [second.absent b after] at held
    cases held
  obtain ⟨new, frames, given⟩ := first.frames
  obtain ⟨new', frames', given'⟩ := second.frames
  refine ⟨⟨new ++ new', ?_, ?_⟩, ?_, ?_, ?_, ?_, ?_, ?_, ?_, ?_⟩
  · rw [frames', frames, List.append_assoc]
  · rw [List.map_append, List.map_append, given, given']
  · refine List.nodup_append.2 ⟨first.distinct, second.distinct, fun b before b' after same => ?_⟩
    exact apart b before (same ▸ after)
  · intro b inside
    rcases List.mem_append.1 inside with before | after
    · exact first.typed b before
    · exact second.typed b after
  · intro b inside
    rcases List.mem_append.1 inside with before | after
    · exact first.absent b before
    · rw [← first.others b (second.typed b after) fun before => apart b before after]
      exact second.absent b after
  · intro b inside
    rcases List.mem_append.1 inside with before | after
    · rw [second.others b (first.typed b before) (apart b before)]
      exact first.present b before
    · exact second.present b after
  · intro b typed outside
    have neither := not_or.1 (mt List.mem_append.2 outside)
    rw [second.others b typed neither.2, first.others b typed neither.1]
  · rw [second.misses, first.misses, List.length_append, Nat.add_assoc]
  · rw [second.stores, first.stores, List.length_append, Nat.add_assoc]
  · rw [second.size, first.size, List.length_append, Nat.add_assoc]

/-- What a lookup that misses evaluates is what the body evaluates, in the new frame of a call, and the
argument, provided that the body does not evaluate the argument as well. -/
theorem of_lookup {function argument r kept : Boxed} {ticket : Ticket} {begun ended : MemoCache}
    (inside : c < m.caches.size) (sane : (m.cache c).Sane)
    (closure : function.value = .closure i.closure)
    (typed : argument.value.hasType i.definition.domain = true)
    (started : (m.cache c).start function argument = .ok (.pending ticket, begun))
    {opened : Machine} (frames : opened.frames =
      (m.frames.push (some i.frame) [(i.definition.argument.uid, argument)]).2)
    (caches : opened.caches = (m.setCache c begun).caches) (advances : opened.Advances m')
    (inner : Ledger i c opened m' evaluated) (new : argument.value ∉ evaluated)
    (finished : (m'.cache c).finish ticket r = .ok (kept, ended)) :
    Ledger i c m (m'.setCache c ended) (argument.value :: evaluated) := by
  have placed : opened.cache c = begun := by
    rw [Machine.cache_congr caches, Machine.cache_setCache_self inside]
  have replaced : (m'.setCache c ended).cache c = ended := by
    have still : c < m'.caches.size := by
      rw [advances.size, caches]
      simpa [Machine.setCache] using inside
    rw [Machine.cache_setCache_self still]
  have missed := MemoCache.missed_of_start sane.current started
  have grown : begun.Advances (m'.cache c) := placed ▸ advances.cache c
  have start : begun.current = (m.cache c).current := (MemoCache.Step.start started).advances.current
  have current : (m'.cache c).current = (m.cache c).current := grown.current.trans start
  have finish : ended.current = (m.cache c).current :=
    (MemoCache.Step.finish finished).advances.current.trans current
  have sane₁ : (opened.cache c).Sane := placed ▸ sane.step (.start started)
  have sane₂ : (m'.cache c).Sane := sane₁.advances (advances.cache c)
  have sane₃ : ((m'.setCache c ended).cache c).Sane := by
    rw [replaced]
    exact sane₂.step (.finish finished)
  -- what is kept after each of the steps, for any argument
  have before : ∀ b, b.hasType i.definition.domain = true → i.kept c opened b = i.kept c m b := by
    intro b ofType
    rw [i.kept_eq sane₁ ⟨b, 0⟩ closure ofType, i.kept_eq sane ⟨b, 0⟩ closure ofType, placed, start]
    obtain ⟨number, rfl, -⟩ := Value.hasType_iff.1 ofType
    exact missed.held _ _ (MemoCache.keyOf_eq_ok.2 rfl)
  have absent : i.kept c m argument.value = .ok none := (i.kept_eq sane argument closure typed).trans missed.absent
  have unheld : (m'.cache c).heldIn ticket.generation function ticket.argument = .ok none := by
    rw [missed.generation, missed.mine, ← current, ← i.kept_eq sane₂ argument closure typed,
      inner.others _ typed new, before _ typed]
    exact absent
  obtain ⟨rfl, stored⟩ := MemoCache.stored_of_finish (missed.leads.later grown.grows) unheld finished
  have after : i.kept c (m'.setCache c ended) argument.value = .ok (some kept) := by
    rw [i.kept_eq sane₃ argument closure typed, replaced, finish, ← missed.generation, ← missed.mine]
    exact stored.held
  have rest : ∀ b, b.hasType i.definition.domain = true → b ≠ argument.value →
      i.kept c (m'.setCache c ended) b = i.kept c m' b := by
    intro b ofType other
    rw [i.kept_eq sane₃ ⟨b, 0⟩ closure ofType, i.kept_eq sane₂ ⟨b, 0⟩ closure ofType, replaced, finish,
      current, ← missed.generation]
    rw [← missed.mine] at typed other
    exact stored.heldIn_of_ne i.definition.domain_whole typed ofType other
  obtain ⟨opens, grows, given⟩ := inner.frames
  refine ⟨⟨Frame.ofBindings (m.frames.existing (some i.frame)) [(i.definition.argument.uid, argument)] ::
    opens, ?_, ?_⟩, ?_, ?_, ?_, ?_, ?_, ?_, ?_, ?_⟩
  · show m'.frames.frames.toList = _
    rw [grows, frames]
    simp [Frames.push]
  · rw [List.map_cons, List.map_cons, given]
    simp [Frame.given?, Frame.ofBindings]
  · exact List.nodup_cons.2 ⟨new, inner.distinct⟩
  · exact List.forall_mem_cons.2 ⟨typed, inner.typed⟩
  · refine List.forall_mem_cons.2 ⟨absent, fun b member => ?_⟩
    rw [← before b (inner.typed b member)]
    exact inner.absent b member
  · refine List.forall_mem_cons.2 ⟨⟨kept, after⟩, fun b member => ?_⟩
    rw [rest b (inner.typed b member) fun same => new (same ▸ member)]
    exact inner.present b member
  · intro b ofType outside
    obtain ⟨other, outside'⟩ := not_or.1 (mt List.mem_cons.2 outside)
    rw [rest b ofType other, inner.others b ofType outside', before b ofType]
  · have counted : begun.stats.misses = (m.cache c).stats.misses + 1 := by rw [missed.stats]
    rw [replaced, stored.stats, inner.misses, placed, counted, List.length_cons]
    omega
  · have counted : begun.stats.stores = (m.cache c).stats.stores := by rw [missed.stats]
    rw [replaced, stored.stats, inner.stores, placed, counted, List.length_cons, Nat.add_assoc]
  · rw [replaced, stored.size (missed.generation.trans current.symm), inner.size, placed, missed.size,
      List.length_cons, Nat.add_assoc]

end Ledger

/-! ## Bodies -/

namespace Run

variable {m m' : Machine} {v : Boxed}

/-- A result in a new box opens no frame and leaves the caches. -/
theorem value_of_boxResult {x : Except Fault Value} (ended : boxResult x m = (.value v, m')) :
    m'.frames = m.frames ∧ m'.caches = m.caches := by
  cases x with
  | ok w => cases ended; exact ⟨rfl, rfl⟩
  | error f => cases ended

/-- So does an operator. -/
theorem value_of_applyUnary {op : UnaryOp} (source : StaticType) {target : StaticType} {w : Boxed}
    (ended : applyUnary op source target w m = (.value v, m')) :
    m'.frames = m.frames ∧ m'.caches = m.caches := by
  unfold applyUnary at ended
  split at ended
  · cases ended
    exact ⟨rfl, rfl⟩
  · exact value_of_boxResult ended

end Run

namespace World

variable {w : World} {i : Installed w.options} {c : CacheId} {a : Value} {frame : FrameId}
  {m m' m'' : Machine} {j k n : Nat} {e : Expr} {t : ValueType} {u : Value} {v : Boxed}

/-- A body can be evaluated for an argument in a frame. -/
structure Ready (w : World) (i : Installed w.options) (c : CacheId) (a : Value) (frame : FrameId)
    (m : Machine) : Prop where
  holds : w.Holds m
  scope : i.Scope a frame m
  sane : (m.cache c).Sane

/-- What has been evaluated between two machines, and all of it is answered at a depth. -/
def Reckons (w : World) (i : Installed w.options) (c : CacheId) (depth : Nat) (m m' : Machine) : Prop :=
  ∃ evaluated, Ledger i c m m' evaluated ∧ ∀ b ∈ evaluated, i.definition.approx depth b ≠ none

theorem Reckons.of_eq (same : m'.frames = m.frames ∧ m'.caches = m.caches) : w.Reckons i c j m m' :=
  ⟨[], .of_eq same.1 same.2, List.forall_mem_nil _⟩

theorem Reckons.trans (first : w.Reckons i c j m m') (second : w.Reckons i c j m' m'') :
    w.Reckons i c j m m'' := by
  obtain ⟨evaluated, ledger, answered⟩ := first
  obtain ⟨more, ledger', answered'⟩ := second
  exact ⟨evaluated ++ more, ledger.trans ledger', List.forall_mem_append.2 ⟨answered, answered'⟩⟩

/-- The evaluation of a body that ends in a value leaves all that is needed for another one, and the value
is that of the limit, so it is the one that there is at any depth. -/
theorem Ready.eval [Host] [Host.IsUncached] (ready : w.Ready i c a frame m) (member : i ∈ w.members)
    (fits : a.hasType i.definition.domain = true)
    (body : Kernel w.options (i.definition.body.connectsNoCalls = true) i.bound i.definition.argument
      i.definition.domain i.definition.codomain e t)
    (ended : e.eval ⟨Run.call n, Run.applyUnary⟩ n w.options.context frame m = (.value v, m')) :
    w.Ready i c a frame m' ∧ e.meaning i.definition.limit a = some (.ok v.value) ∧
      ∀ {u}, e.meaning (i.definition.approx j) a = some (.ok u) → u = v.value := by
  have interprets : w.Interprets i (w.options.threading = false)
      (w.options.threading = false ∨ i.definition.body.connectsNoCalls = true)
      (i.definition.approx n) ⟨Run.call n, Run.applyUnary⟩ :=
    .of_calls fun function argument m closure typed holds => call_runs member n closure typed holds
  have run := (Evaluates.of_kernel n interprets member fits body).eval m ready.holds ready.scope
  have advances := Run.Advancing.body n w.options.context e frame m
  rw [ended] at advances
  have holds := run.holds
  have later := run.later
  have value := run.outcome
  rw [ended] at holds later value
  have known : e.meaning i.definition.limit a = some (.ok v.value) := value
  refine ⟨⟨holds, ready.scope.later later, ready.sane.advances (advances.cache c)⟩, known, fun deep => ?_⟩
  have limit := (body.meaning_below (i.definition.approx_below_limit j) a).eq_of_some deep
  exact Except.ok.inj (Option.some.inj (limit.symm.trans known))

/-- What is evaluated in a body that is answered at a depth is answered at the depth as well, if that is so
of its calls. By induction on the body. -/
theorem body_reckons [Host] [Host.IsUncached] (member : i ∈ w.members) (named : w.options.cache = some c)
    (caching : w.options.caching = true) (sequential : w.options.threading = false)
    (calls : ∀ {function argument : Boxed} {m : Machine} {v : Boxed} {m' : Machine} {u : Value},
      function.value = .closure i.closure → argument.value.hasType i.definition.domain = true →
      w.Holds m → (m.cache c).Sane → i.definition.approx j argument.value = some (.ok u) →
      Run.lookupOrCompute c function argument (Run.call n function [argument]) m = (.value v, m') →
      w.Reckons i c j m m')
    (fits : a.hasType i.definition.domain = true)
    (body : Kernel w.options (i.definition.body.connectsNoCalls = true) i.bound i.definition.argument
      i.definition.domain i.definition.codomain e t) (ready : w.Ready i c a frame m)
    (deep : e.meaning (i.definition.approx j) a = some (.ok u))
    (ended : e.eval ⟨Run.call n, Run.applyUnary⟩ n w.options.context frame m = (.value v, m')) :
    w.Reckons i c j m m' := by
  -- by induction on the body; that no part runs out below this depth comes from the meaning at this depth
  induction body generalizing m m' u v with
  | constant => cases ended; exact .of_eq ⟨rfl, rfl⟩
  | argument =>
    obtain ⟨-, rfl⟩ := Run.value_of_lookup ended
    exact .of_eq ⟨rfl, rfl⟩
  | @conversion op e s t operand _ ih | @unary op e t operand _ _ _ ih =>
    obtain ⟨b, m₁, first, applied⟩ := Run.value_of_bind ended
    obtain ⟨u', deep', -⟩ := Partial.andThen_eq_ok.1 deep
    exact (ih ready deep' first).trans (.of_eq (Run.value_of_applyUnary e.type applied))
  | @binary op _ _ _ _ _ left right other _ first second =>
    obtain ⟨u', ofLeft, further⟩ := Partial.andThen_eq_ok.1 deep
    cases connective : op.isShortCircuit with
    | true =>
      rw [Expr.eval_binary_of_shortCircuit connective] at ended
      obtain ⟨b, m₁, evaluated, ended⟩ := Run.value_of_bind ended
      obtain ⟨ready', -, same⟩ := ready.eval member fits left evaluated
      obtain rfl := same ofLeft
      refine (first ready ofLeft evaluated).trans ?_
      cases decided : op.decided? b.value with
      | some d =>
        simp only [decided] at ended
        exact .of_eq (Run.value_of_boxResult (x := .ok (.scalar (.bool d))) ended)
      | none =>
        simp only [decided] at ended further
        obtain ⟨b', m₂, evaluated', ended⟩ := Run.value_of_bind ended
        obtain ⟨u', ofRight, -⟩ := Partial.andThen_eq_ok.1 further
        exact (second ready' ofRight evaluated').trans
          (.of_eq (Run.value_of_boxResult (x := .ok (.scalar (.bool b'.value.truthy))) ended))
    | false =>
      rw [Expr.eval_binary_of_strict _ _ _ _ other connective] at ended
      obtain ⟨b, m₁, evaluated, ended⟩ := Run.value_of_bind ended
      obtain ⟨b', m₂, evaluated', ended⟩ := Run.value_of_bind ended
      obtain ⟨ready', -, -⟩ := ready.eval (j := j) member fits left evaluated
      obtain ⟨u₁, u₂, -, ofRight, -⟩ := BinaryOp.join_eq_ok_of_strict connective deep
      exact (first ready ofLeft evaluated).trans
        ((second ready' ofRight evaluated').trans (.of_eq (Run.value_of_boxResult ended)))
  | conditional test left right tested first second =>
    obtain ⟨b, m₁, evaluated, ended⟩ := Run.value_of_bind ended
    obtain ⟨u', ofTest, chosen⟩ := Partial.andThen_eq_ok.1 deep
    obtain ⟨ready', -, same⟩ := ready.eval member fits test evaluated
    -- the machine takes the branch that the meaning at this depth takes
    obtain rfl := same ofTest
    refine (tested ready ofTest evaluated).trans ?_
    split at ended
    next truth =>
      rw [if_pos truth] at chosen
      exact first ready' chosen ended
    next truth =>
      rw [if_neg truth] at chosen
      exact second ready' chosen ended
  | invoke _ uncached =>
    rw [caching] at uncached
    cases uncached
  | cached operand _ ih =>
    obtain ⟨function, m₁, found, calling⟩ := Run.value_of_bind ended
    obtain ⟨shown, rfl⟩ := Run.value_of_lookup found
    obtain ⟨b, m₂, evaluated, looked⟩ := Run.value_of_bind calling
    obtain ⟨u', given, deep'⟩ := Partial.andThen_eq_ok.1 deep
    obtain ⟨ready', limit, same⟩ := ready.eval member fits operand evaluated
    obtain rfl := same given
    -- what is called is the function that is defined, under its own name
    obtain ⟨-, box, bound, closure⟩ := ready.scope.bound
    obtain rfl : box = function := Option.some.inj (bound.symm.trans shown)
    have typed := operand.meaning_typed i.definition.limit_typed fits limit
    rw [named] at looked
    exact (ih ready given evaluated).trans (calls closure typed ready'.holds ready'.sane deep' looked)
  | parallel _ _ _ _ threading =>
    rw [sequential] at threading
    cases threading

/-! ## Lookups -/

/-- The frame of a call of a member is ready for its body. -/
theorem Holds.ready (h : w.Holds m) (member : i ∈ w.members) (sane : (m.cache c).Sane) (argument : Boxed) :
    w.Ready i c argument.value m.frames.frames.size
      { m with frames := (m.frames.push (some i.frame) [(i.definition.argument.uid, argument)]).2 } :=
  ⟨h.later (.push m _ _) rfl rfl, w.scope_of_push h member argument, sane⟩

/-- A lookup for a member finds a result, and evaluates nothing, or misses, and stores what is computed. -/
theorem lookup_cases (h : w.Holds m) (member : i ∈ w.members) (named : w.options.cache = some c)
    (caching : w.options.caching = true) {function argument : Boxed}
    (closure : function.value = .closure i.closure)
    (typed : argument.value.hasType i.definition.domain = true) {compute : Run Boxed}
    (ended : Run.lookupOrCompute c function argument compute m = (.value v, m')) :
    Ledger i c m m' [] ∨ ∃ ticket begun r m₂ stored, c < m.caches.size ∧
      (m.cache c).start function argument = .ok (.pending ticket, begun) ∧ w.Holds (m.setCache c begun) ∧
      compute (m.setCache c begun) = (.value r, m₂) ∧
      (m₂.cache c).finish ticket r = .ok (v, stored) ∧ m' = m₂.setCache c stored := by
  obtain ⟨d, named', inside, sound⟩ := h.cache caching
  obtain rfl : c = d := Option.some.inj (named.symm.trans named')
  obtain ⟨first, begun, expected, sound', grows, found⟩ :=
    MemoCache.start_sound sound (w.question h member closure typed)
  obtain ⟨begins, m₁, started, rest⟩ := Run.value_of_bind ended
  obtain ⟨begun', start, rfl⟩ := Run.value_of_onCache started
  cases expected.symm.trans start
  -- a hit counts as one and leaves the rest as it is
  rcases found with ⟨r, rfl, -⟩ | ⟨ticket, rfl, -, -⟩
  · cases rest
    refine .inl ?_
    have replaced : (m.setCache c begun).cache c = begun := by
      rw [Machine.cache_setCache_self inside]
    have hit := MemoCache.start_hit start
    exact .of_cache rfl (by rw [replaced, hit]; rfl) (by rw [replaced, hit]; rfl)
      (by rw [replaced, hit]; rfl)
  · obtain ⟨r, m₂, computed, finishing⟩ := Run.value_of_bind rest
    obtain ⟨stored, finish, rfl⟩ := Run.value_of_onCache finishing
    exact .inr ⟨ticket, begun, r, m₂, stored, inside, start, h.setCache inside grows sound', computed, finish,
      rfl⟩

end World

/-- There is a least depth at which a definition answers. -/
theorem FirstOrderDefinition.exists_least_depth (d : FirstOrderDefinition) {k : Nat} {a : Value}
    {r : Except Fault Value} (answer : d.approx k a = some r) :
    ∃ j < k, d.approx j a = none ∧ d.approx (j + 1) a = some r := by
  induction k with
  | zero => cases answer
  | succ k ih =>
    cases earlier : d.approx k a with
    | none => exact ⟨k, Nat.lt_succ_self k, earlier, answer⟩
    | some r' =>
      obtain rfl := d.approx_unique earlier answer
      obtain ⟨j, less, before, after⟩ := ih earlier
      exact ⟨j, Nat.lt_succ_of_lt less, before, after⟩

namespace World

variable {w : World} {i : Installed w.options} {c : CacheId} {m m' : Machine} {k n : Nat} {u : Value}
  {v : Boxed}

/-- What a lookup evaluates is answered at every depth at which its argument is. By induction on the fuel. -/
theorem lookup_reckons [Host] [Host.IsUncached] (member : i ∈ w.members) (named : w.options.cache = some c)
    (caching : w.options.caching = true) (sequential : w.options.threading = false)
    {function argument : Boxed} (closure : function.value = .closure i.closure)
    (typed : argument.value.hasType i.definition.domain = true) (h : w.Holds m) (sane : (m.cache c).Sane)
    (deep : i.definition.approx k argument.value = some (.ok u))
    (ended : Run.lookupOrCompute c function argument (Run.call n function [argument]) m = (.value v, m')) :
    w.Reckons i c k m m' := by
  induction n generalizing function argument m k u v m' with
  | zero =>
    rcases w.lookup_cases h member named caching closure typed ended with
      nothing | ⟨_, _, _, _, _, _, _, _, computed, _⟩
    · exact ⟨[], nothing, List.forall_mem_nil _⟩
    · cases computed
  | succ n ih =>
    rcases w.lookup_cases h member named caching closure typed ended with
      nothing | ⟨ticket, begun, r, m₂, stored, inside, start, h', computed, finish, rfl⟩
    · exact ⟨[], nothing, List.forall_mem_nil _⟩
    · let opened : Machine := { m.setCache c begun with
        frames := (m.frames.push (some i.frame) [(i.definition.argument.uid, argument)]).2 }
      rw [Run.call_closure closure (h'.installed i member).function] at computed
      have evaluated : i.body.eval ⟨Run.call n, Run.applyUnary⟩ n w.options.context m.frames.frames.size
          opened = (.value r, m₂) := Run.value_of_sealed computed
      have advances : opened.Advances m₂ := by
        have moved := Run.Advancing.body n w.options.context i.body m.frames.frames.size opened
        rwa [evaluated] at moved
      have sane' : ((m.setCache c begun).cache c).Sane := by
        rw [Machine.cache_setCache_self inside]
        exact sane.step (.start start)
      -- the least depth at which the argument is answered is one more than what the body needs
      obtain ⟨j, less, before, after⟩ := i.definition.exists_least_depth deep
      have meaning : i.body.meaning (i.definition.approx j) argument.value = some (.ok u) :=
        (i.meaning _ (i.definition.approx_typed j) _ typed).trans after
      obtain ⟨inner, ledger, answered⟩ := w.body_reckons member named caching sequential ih typed i.kernel
        (h'.ready member sane' argument) meaning evaluated
      have new : argument.value ∉ inner := fun again => answered _ again before
      have frames : opened.frames =
        (m.frames.push (some i.frame) [(i.definition.argument.uid, argument)]).2 := rfl
      refine ⟨_, .of_lookup inside sane closure typed start frames rfl advances ledger new finish, ?_⟩
      refine List.forall_mem_cons.2 ⟨by rw [deep]; simp, fun b member => ?_⟩
      intro silent
      rcases i.definition.approx_below (Nat.le_of_lt less) b with none_yet | same
      · exact answered b member none_yet
      · exact answered b member (same.trans silent)

end World

/-! ## Sessions -/

/-- What a call has made of a cache that has evaluated the body of a function for some arguments: each of them
once, none had a result before and each has one after, and that many misses, stores, and results are new. -/
structure Machine.Computed (m : Machine) (c : CacheId) (function : Boxed) (evaluated : List Value)
    (m' : Machine) : Prop where
  distinct : evaluated.Nodup
  before : ∀ b ∈ evaluated, ∀ identity, (m.cache c).contains function ⟨b, identity⟩ = .ok false
  after : ∀ b ∈ evaluated, ∀ identity, (m'.cache c).contains function ⟨b, identity⟩ = .ok true
  misses : (m'.cache c).stats.misses = (m.cache c).stats.misses + evaluated.length
  stores : (m'.cache c).stats.stores = (m.cache c).stats.stores + evaluated.length
  size : (m'.cache c).size = (m.cache c).size + evaluated.length

/-- Whether the cache contains a result is whether one is kept. -/
theorem Installed.contains_eq {o : CompileOptions} (i : Installed o) {c : CacheId} {m : Machine}
    (sane : (m.cache c).Sane) {function : Boxed} (argument : Boxed)
    (closure : function.value = .closure i.closure)
    (typed : argument.value.hasType i.definition.domain = true) :
    (m.cache c).contains function argument =
      (i.kept c m argument.value).map fun found => found.isSome := by
  unfold MemoCache.contains
  rw [MemoCache.peek_eq_heldIn, i.kept_eq sane argument closure typed]

namespace Session

variable {o : CompileOptions} {compiled : List (FirstOrderDefinition × Boxed)} {m : Machine}

/-- In every state of a session all keys of the cache are the keys of their boxes. -/
theorem sane [Host] [Host.IsUncached] (session : Session o compiled m) (caching : o.caching = true) :
    (m.cache (o.cache.getD Machine.defaultCache)).Sane := by
  induction session with
  | start nesting cache pool =>
    unfold Machine.cache
    rw [cache caching]
    exact .empty
  | @build compiled m m' d fuel c _ fresh built ih =>
    have advances := Run.Advancing.build fuel d.tree o.caching o.threading o.cache o.pool m
    rw [built] at advances
    exact ih.advances (advances.cache _)
  | @call compiled m d f _ known fuel args ih =>
    exact ih.advances ((Run.Advancing.call fuel f args m).cache _)
  | @reset compiled m before _ ih =>
    -- what is reset is the cache of the options, which the session has from the start
    obtain ⟨members, h⟩ := before.backed
    obtain ⟨c, named, inside, -⟩ := h.holds.cache caching
    obtain rfl : c = o.cache.getD Machine.defaultCache :=
      Option.some.inj (named.symm.trans (CompileOptions.cache_resolved caching))
    have replaced : (Run.resetCache (o.cache.getD Machine.defaultCache) m).2.cache
        (o.cache.getD Machine.defaultCache) = (m.cache (o.cache.getD Machine.defaultCache)).reset :=
      Machine.cache_setCache_self inside _
    rw [replaced]
    exact ih.reset
  | share _ _ _ _ _ ih => exact ih

/-- Each argument is computed at most once. In every state of a session with a cache and without splits, a
call that returns has opened a frame for the coerced argument, which is that of the entry, and then one for
each argument for which the body was evaluated; and these are distinct, had no result before, have one now,
and are as many as there are new misses, stores, and results. -/
theorem computes_once [Host] [Host.IsUncached] (session : Session o compiled m) (caching : o.caching = true)
    (sequential : o.threading = false) {d : FirstOrderDefinition} {f : Boxed} (known : (d, f) ∈ compiled)
    {fuel : Nat} {argument v : Boxed} {m' : Machine}
    (ended : Run.call fuel f [argument] m = (.value v, m')) :
    ∃ function a evaluated, m.recursive? f = some function ∧ d.domain.coerce argument.value = .ok a ∧
      m.givenSince m' d.argument = (a :: evaluated).map some ∧
      m.Computed (o.cache.getD Machine.defaultCache) function evaluated m' := by
  have sane := session.sane caching
  obtain ⟨members, h⟩ := session.backed
  obtain ⟨i, member, rfl, wrapped⟩ := h.member d f known
  let w : World := ⟨o.resolved, members⟩
  obtain ⟨function, recursive, closure⟩ := recursive?_of_wrapped (w := w) h.holds member wrapped
  obtain ⟨g, inner, id, shape, params, result, there, inside, entry⟩ := wrapped
  cases fuel with
  | zero => cases ended
  | succ n =>
    rcases Run.call_wrapper shape params there h.nesting n argument with
      ⟨e, -, failed⟩ | ⟨b, identity, coerced, going⟩
    · rw [failed] at ended
      cases ended
    · rw [going] at ended
      obtain ⟨r, m₁, called, ended⟩ := Run.value_of_bind ended
      obtain ⟨shown, m₂, read, last⟩ := Run.value_of_bind ended
      cases read
      -- no function comes back that would have to be wrapped
      have plain : Run.wrapResult (m₁.current g) r = pure r := by
        have same : (m₁.current g).result = .value i.definition.codomain := result
        unfold Run.wrapResult
        rw [same]
      rw [plain] at last
      cases last
      cases n with
      | zero => cases called
      | succ n =>
        let boxed : Machine := { m with nextIdentity := identity }
        have holds : w.Holds boxed := h.holds.later (.box m identity) rfl rfl
        have typed : b.value.hasType i.definition.domain = true := ValueType.coerce_hasType coerced
        have kernel := i.definition.kernel_entry o.resolved (i.definition.body.connectsNoCalls = true) i.bound
        have ready := holds.ready (c := o.cache.getD Machine.defaultCache) member sane b
        rw [Run.call_closure inside (m := boxed) entry] at called
        have evaluated := Run.value_of_sealed called
        obtain ⟨finally_, limit, -⟩ := ready.eval (j := 0) member typed kernel evaluated
        rw [i.definition.meaning_entry] at limit
        obtain ⟨k, deep⟩ := i.definition.limit_eq_some_iff.1 limit
        have meaning := (i.definition.meaning_entry o.resolved i.bound (i.definition.approx k) b.value).trans
          deep
        have named : w.options.cache = some (o.cache.getD Machine.defaultCache) :=
          CompileOptions.cache_resolved caching
        obtain ⟨inner, ledger, -⟩ := w.body_reckons member named caching sequential
          (fun same ofType there' sane' answer looked =>
            w.lookup_reckons member named caching sequential same ofType there' sane' answer looked)
          typed kernel ready meaning evaluated
        obtain ⟨new, grows, given⟩ := ledger.frames
        refine ⟨function, b.value, inner, recursive, coerced, ?_, ledger.distinct, ?_, ?_, ledger.misses,
          ledger.stores, ledger.size⟩
        · unfold Machine.givenSince
          rw [grows]
          simp [Frames.push, Frame.given?, Frame.ofBindings, boxed]
          exact given
        · intro x inside n
          rw [i.contains_eq sane ⟨x, n⟩ closure (ledger.typed x inside)]
          have absent : i.kept _ m x = .ok none := ledger.absent x inside
          rw [absent]
          rfl
        · intro x inside n
          obtain ⟨result, present⟩ := ledger.present x inside
          rw [i.contains_eq finally_.sane ⟨x, n⟩ closure (ledger.typed x inside), present]
          rfl

/-- The seventh Fibonacci number, after a call and a reset, is computed from each of the numbers from zero to
seven once. -/
theorem computes_once_fibonacci :
    ∃ f m v m' function a evaluated,
      Session ⟨true, false, true, some 0, none⟩ [(Fibonacci.definition, f)] m ∧
      Run.call 20 f [⟨.int 7, 0⟩] m = (.value v, m') ∧ m.recursive? f = some function ∧
      ValueType.int32.coerce (.int 7) = .ok a ∧
      m.givenSince m' Fibonacci.argument = (a :: evaluated).map some ∧
      m.Computed 0 function evaluated m' := by
  let o : CompileOptions := ⟨true, false, true, some 0, none⟩
  have start : Session o [] fibonacciMachine := .start rfl (fun _ => rfl) nofun
  let run : Run Boxed := do
    let c ← Run.build 2 Fibonacci.definition.tree true false (some 0) none
    let _ ← Run.call 5 c.function [⟨.int 1, 0⟩]
    Run.resetCache 0
    Run.call 20 c.function [⟨.int 7, 0⟩]
  obtain ⟨v, m', ended⟩ : ∃ v m', run fibonacciMachine = (.value v, m') :=
    Run.value_of_isValue (by decide +kernel)
  obtain ⟨c, built, build, ended⟩ := Run.value_of_bind ended
  obtain ⟨first, called, call, ended⟩ := Run.value_of_bind ended
  obtain ⟨⟨⟩, again, reset, ended⟩ := Run.value_of_bind ended
  have session : Session o [(Fibonacci.definition, c.function)] built := .build start (by decide) build
  have later : Session o [(Fibonacci.definition, c.function)] called := by
    have next := Session.call session List.mem_cons_self 5 [⟨.int 1, 0⟩]
    rwa [call] at next
  have last : Session o [(Fibonacci.definition, c.function)] again := by
    have next : Session o [(Fibonacci.definition, c.function)] (Run.resetCache 0 called).2 :=
      Session.reset later rfl
    rwa [reset] at next
  obtain ⟨function, a, evaluated, recursive, coerced, given, computed⟩ :=
    computes_once last rfl rfl List.mem_cons_self ended
  exact ⟨c.function, again, v, m', function, a, evaluated, last, ended, recursive, coerced, given, computed⟩

end Session

end Knot
