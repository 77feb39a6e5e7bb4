import Knot.Proofs.Transparency.Regimes

/-!
# Cached calls

A lookup follows the course of the call that it is for (`Regime.Follows.lookupOrCompute`). A closure can be
compared with any function that has a table, and an argument that is admitted with any admitted argument of
the same parameter; so what is found is a result of the same function for the same argument, and since courses
agree it is what the call comes to.
-/

namespace Knot

/-! ## Keys of functions -/

namespace Key

variable {stored sought : Key}

/-- What is a function is equal to functions only. -/
theorem isCallable_of_meets (met : stored.meets sought = .ok true) :
    stored.box.value.isCallable = sought.box.value.isCallable := by
  unfold meets at met
  split at met
  next same =>
    unfold Boxed.same at same
    cases shape : stored.box.value <;> cases shape' : sought.box.value <;> simp_all [Value.isCallable]
  next =>
    split at met
    next =>
      cases shape : stored.box.value <;> cases shape' : sought.box.value <;>
        simp_all [Value.isCallable, Value.equal, Value.equalNumbers, Value.number?]
    next => cases met

/-- What is at the place of a key meets it. -/
theorem meets_of_place? {α : Type} {entries : List (Key × α)} {p : Nat}
    (found : sought.place? entries = .ok (some p)) :
    ∃ e, entries[p]? = some e ∧ e.1.meets sought = .ok true := by
  induction entries generalizing p with
  | nil => cases found
  | cons head rest ih =>
    obtain ⟨stored, a⟩ := head
    rcases place?_cons_eq_some.1 found with ⟨met, rfl⟩ | ⟨-, q, later, rfl⟩
    · exact ⟨(stored, a), rfl, met⟩
    · exact ih later

end Key

/-! ## Steps that keep tables faithful -/

namespace MemoCache

variable {answers : Value → Key → Value → Prop} {c c' : MemoCache}

theorem Faithful.of_eq (h : c.Faithful answers) (same : c'.generations = c.generations) :
    c'.Faithful answers := by
  refine ⟨by rw [same]; exact h.begun, fun n => ?_⟩
  have generation : c'.generation n = c.generation n := by
    unfold MemoCache.generation
    rw [same]
  rw [generation]
  exact h.entries n

/-- A change of one generation. -/
theorem Faithful.modify (h : c.Faithful answers) {n : Nat} (inside : n < c.generations.size)
    {f : Generation → Generation}
    (kept : ∀ t ∈ (f (c.generation n)).tables, ∀ e ∈ t.2, answers t.1.box.value e.1 e.2.value) :
    (c.modify n f).Faithful answers := by
  refine ⟨by simpa [MemoCache.modify] using h.begun, fun k => ?_⟩
  rw [generation_modify inside]
  split
  · exact kept
  · exact h.entries k

theorem Faithful.current_lt (h : c.Faithful answers) : c.current < c.generations.size := by
  have begun := h.begun
  unfold current
  omega

/-- The first step of a lookup adds at most an empty table. -/
theorem Faithful.start (h : c.Faithful answers) {function argument : Boxed} {begun : Begun}
    (started : c.start function argument = .ok (begun, c')) : c'.Faithful answers := by
  rcases start_cases started with ⟨-, same⟩ | ⟨v, -, same, -⟩ | ⟨place, -, same, -⟩ | ⟨k, -, -, -, same⟩
  · exact h.of_eq same
  · exact h.of_eq same
  · exact h.of_eq same
  · refine (h.modify h.current_lt fun t member => ?_).of_eq same
    rcases List.mem_append.1 member with old | new
    · exact h.entries _ t old
    · rw [List.mem_singleton.1 new]
      exact List.forall_mem_nil _

/-- The second step adds at most an answer. -/
theorem Faithful.finish (h : c.Faithful answers) {t : Ticket} {function r kept : Boxed}
    (leads : c.Leads t function) (finished : c.finish t r = .ok (kept, c'))
    (answer : ∀ table a, (c.generation t.generation).tables[t.place]? = some table →
      keyOf t.argument = .ok a → answers table.1.box.value a r.value) : c'.Faithful answers := by
  obtain ⟨a, key, ⟨-, same⟩ | ⟨-, -, same⟩⟩ := finish_cases finished
  · exact h.of_eq same
  · refine (h.modify leads.inside.2 fun table member => ?_).of_eq same
    obtain ⟨place, there⟩ := List.mem_iff_getElem?.1 member
    unfold Generation.insert at there
    rw [List.getElem?_modify] at there
    split at there
    next here =>
      subst here
      obtain ⟨old, found, rfl⟩ := Option.map_eq_some_iff.1 there
      intro e inside
      -- the table of the ticket gets one entry more, at its end
      rcases List.mem_append.1 inside with before | new
      · exact h.entries _ old (List.mem_of_getElem? found) e before
      · rw [List.mem_singleton.1 new]
        exact answer old a found key
    next =>
      rw [id_map'] at there
      exact h.entries _ table (List.mem_of_getElem? there)

end MemoCache

namespace Regime

variable {r : Regime} {σ τ : Glossary} {slots : Int} {m : Machine}

/-! ## Questions -/

/-- A closure of the glossary is called on an argument, and the course of the call ends in `e`. -/
structure Asks (r : Regime) (σ : Glossary) (function argument : Boxed) (i : Nat) (s s' : Sense)
    (e : Ending Sense) : Prop where
  caching : r.caching = true
  closure : function.value = .closure i
  held : σ i = some s
  argument : σ.Denotes argument.value s'
  ends : ∃ n slots given, r.recursion.call n slots s [s'] = some (e, given) ∧ given ⊆ r.admitted

namespace Asks

variable {function argument : Boxed} {i : Nat} {s s' : Sense} {e : Ending Sense}

theorem extend (h : r.Asks σ function argument i s s' e) (more : σ.Extends τ) :
    r.Asks τ function argument i s s' e :=
  ⟨h.caching, h.closure, more _ _ h.held, h.argument.extend more, h.ends⟩

theorem functionKey (h : r.Asks σ function argument i s s' e) :
    MemoCache.keyOf function = .ok ⟨.function i, function⟩ := by
  refine MemoCache.keyOf_eq_ok.2 ?_
  unfold Boxed.key?
  rw [h.closure]
  rfl

/-- The argument of a call that ends in a value is a key. -/
theorem argumentKey {v : Sense} (h : r.Asks σ function argument i s s' (.value v)) :
    ∃ a, MemoCache.keyOf argument = .ok a := by
  obtain ⟨n, slots, given, ended, admitted⟩ := h.ends
  have digest : ∃ d, argument.value.digest? = some d := by
    have denotes := h.argument
    generalize argument.value = w at denotes
    cases denotes with
    | closure => exact ⟨_, rfl⟩
    | plain =>
      obtain ⟨p, body, scope, parts⟩ := Recursion.parts_of_call ended
      have given := admitted (Recursion.mem_given_of_call parts ended)
      obtain ⟨d, -, known, -⟩ := r.discerned h.caching p w w given given
      exact ⟨d, known⟩
  obtain ⟨d, known⟩ := digest
  refine ⟨⟨d, argument⟩, MemoCache.keyOf_eq_ok.2 ?_⟩
  unfold Boxed.key?
  rw [known]
  rfl

/-- The argument can be compared with one for which a result is kept. -/
theorem agrees (h : r.Asks σ function argument i s s' e) {a k : Key} {v : Value}
    (key : MemoCache.keyOf argument = .ok a) (answer : r.Answers σ s k v) : a.Agrees k := by
  obtain ⟨n, slots, given, ended, admitted⟩ := h.ends
  obtain ⟨digest, p, body, scope, parts, n', slots', s'', given', d, -, stored, -, expected⟩ := answer
  obtain ⟨d', known, rfl⟩ := Option.map_eq_some_iff.1 (MemoCache.keyOf_eq_ok.1 key)
  have sought := h.argument
  obtain ⟨digest', ⟨w, j⟩⟩ := k
  obtain ⟨u, l⟩ := argument
  simp only at digest stored known sought
  cases sought with
  | closure => exact Key.agrees_of_closure rfl
  | plain =>
    cases stored with
    | closure => exact Key.agrees_of_stored_closure rfl
    | plain =>
      have given := admitted (Recursion.mem_given_of_call parts ended)
      obtain ⟨x, y, known', known'', agree⟩ := r.discerned h.caching p w u (expected w rfl) given
      cases digest.symm.trans known'
      cases known.symm.trans known''
      exact agree j l

/-- A result that is kept for the argument is what the call comes to. -/
theorem result (h : r.Asks σ function argument i s s' e) {k : Key} {v : Value}
    (same : k.box.value = argument.value) (answer : r.Answers σ s k v) :
    ∃ d, e = .value d ∧ σ.Denotes v d := by
  obtain ⟨n, slots, given, ended, -⟩ := h.ends
  obtain ⟨-, p, body, scope, -, n', slots', s'', given', d, ended', stored, result, -⟩ := answer
  rw [same] at stored
  obtain rfl := h.argument.unique stored
  have agree := r.recursion.call_agree n' n slots' slots s [s''] _ _ _ _ ended' ended (by simp)
  exact ⟨d, agree, result⟩

variable {c : MemoCache}

/-- The table of the closure. -/
theorem table (h : r.Asks σ function argument i s s' e) {g : Generation} {place : Nat}
    (placed : g.place? ⟨.function i, function⟩ = .ok (some place)) :
    ∃ t, g.tables[place]? = some t ∧ t.1.box.value = .closure i := by
  obtain ⟨t, there, met⟩ := Key.meets_of_place? placed
  have agree : Key.Agrees ⟨.function i, function⟩ t.1 := Key.agrees_of_closure h.closure
  obtain ⟨met', question, equal⟩ := agree
  cases met.symm.trans question
  exact ⟨t, there, (equal rfl).trans h.closure⟩

/-- What is found in it is what the call comes to. -/
theorem find (h : r.Asks σ function argument i s s' e) (faithful : c.Faithful (r.Kept σ m)) {n place : Nat}
    (placed : (c.generation n).place? ⟨.function i, function⟩ = .ok (some place)) {a : Key}
    (key : MemoCache.keyOf argument = .ok a) :
    ∃ found, (c.generation n).get? place a = .ok found ∧
      ∀ v, found = some v → ∃ d, e = .value d ∧ σ.Denotes v.value d := by
  obtain ⟨t, there, owner⟩ := h.table placed
  have answers : ∀ x ∈ t.2, r.Answers σ s x.1 x.2.value := fun x inside =>
    ((faithful.entries n t (List.mem_of_getElem? there) x inside).2 i owner).2 s h.held
  have agree : ∀ x ∈ t.2, a.Agrees x.1 := fun x inside => h.agrees key (answers x inside)
  obtain ⟨found, looked, entry⟩ := Key.find?_agrees agree
  refine ⟨found, ?_, fun v same => ?_⟩
  · unfold Generation.get? Generation.table
    rw [there]
    exact looked
  · obtain ⟨k, inside, value⟩ := entry v same
    obtain ⟨d, known, rfl⟩ := Option.map_eq_some_iff.1 (MemoCache.keyOf_eq_ok.1 key)
    exact h.result value (answers _ inside)

/-- A lookup for a call that ends in a value begins without a fault. -/
theorem start_ok {v : Sense} (h : r.Asks σ function argument i s s' (.value v))
    (faithful : c.Faithful (r.Kept σ m)) : ∃ begun c', c.start function argument = .ok (begun, c') := by
  obtain ⟨a, key⟩ := h.argumentKey
  unfold MemoCache.start
  split
  · exact ⟨_, _, rfl⟩
  · have agree : ∀ x ∈ c.latest.tables, Key.Agrees ⟨.function i, function⟩ x.1 :=
      fun x _ => Key.agrees_of_closure h.closure
    obtain ⟨place?, looked, -⟩ := Key.place?_agrees agree
    have looked : c.latest.place? ⟨.function i, function⟩ = .ok place? := looked
    simp only [h.functionKey, bind, Except.bind, looked]
    cases place? with
    | none => exact ⟨_, _, rfl⟩
    | some place =>
      obtain ⟨found, got, -⟩ := h.find faithful looked key
      have got : c.latest.get? place a = .ok found := got
      simp only [key, got]
      cases found with
      | none => exact ⟨_, _, rfl⟩
      | some v => exact ⟨_, _, rfl⟩

/-- It ends with what the call comes to, and keeps the tables faithful. -/
theorem finish {v : Sense} (h : r.Asks σ function argument i s s' (.value v))
    (faithful : c.Faithful (r.Kept σ m)) (there : i < m.functions.size) {t : Ticket}
    (mine : t.argument = argument) (leads : c.Leads t function) {w : Boxed} (brought : σ.Denotes w.value v) :
    ∃ kept c', c.finish t w = .ok (kept, c') ∧ c'.Faithful (r.Kept σ m) ∧ σ.Denotes kept.value v := by
  obtain ⟨a, key⟩ := h.argumentKey
  obtain ⟨k, functionKey, placed⟩ := id leads
  cases h.functionKey.symm.trans functionKey
  obtain ⟨found, got, known⟩ := h.find faithful placed key
  have ended : ∃ kept c', c.finish t w = .ok (kept, c') ∧ σ.Denotes kept.value v := by
    unfold MemoCache.finish
    simp only [mine, key, bind, Except.bind, got]
    cases found with
    | none => exact ⟨w, _, rfl, brought⟩
    | some old =>
      obtain ⟨d, same, denotes⟩ := known old rfl
      cases same
      exact ⟨old, _, rfl, denotes⟩
  obtain ⟨kept, c', finished, denotes⟩ := ended
  refine ⟨kept, c', finished, faithful.finish leads finished fun table b found' key' => ?_, denotes⟩
  -- the result is brought for the closure, to whose table the ticket leads
  rw [mine] at key'
  cases key.symm.trans key'
  obtain ⟨table', found'', owner⟩ := h.table placed
  cases found''.symm.trans found'
  refine ⟨by rw [owner]; rfl, fun j closure => ?_⟩
  cases owner.symm.trans closure
  refine ⟨there, fun s'' held => ?_⟩
  cases h.held.symm.trans held
  obtain ⟨n, slots, given, ended, admitted⟩ := h.ends
  obtain ⟨p, body, scope, parts⟩ := Recursion.parts_of_call ended
  obtain ⟨d, digest, rfl⟩ := Option.map_eq_some_iff.1 (MemoCache.keyOf_eq_ok.1 key)
  refine ⟨digest, p, body, scope, parts, n, slots, s', given, v, ended, h.argument, brought, ?_⟩
  rintro u rfl
  exact admitted (Recursion.mem_given_of_call parts ended)

end Asks

/-! ## Lookups -/

namespace Follows

variable {function argument : Boxed} {s s' : Sense} {n : Nat}

/-- What is found at the beginning of a lookup is what the call comes to. -/
theorem hit (on : r.caching = true) (holds : r.Holds σ slots m) (callee : σ.Denotes function.value s)
    (denotes : σ.Denotes argument.value s') {e : Ending Sense} {given : Set (Nat × Value)}
    (ended : r.recursion.call n slots s [s'] = some (e, given)) (admitted : given ⊆ r.admitted)
    {v : Boxed} {cache : MemoCache}
    (started : (m.cache r.cache).start function argument = .ok (.hit v, cache)) :
    ∃ d, e = .value d ∧ σ.Denotes v.value d := by
  obtain ⟨-, faithful⟩ := holds.cache on
  have held := MemoCache.start_returns started
  rw [MemoCache.heldIn] at held
  obtain ⟨f, place, a, functionKey, placed, argumentKey, found⟩ := Generation.held_eq_some.1 held
  have still := faithful.start started
  obtain ⟨t, there, met⟩ := Key.meets_of_place? placed
  -- a table that holds something is that of a function
  have callable : function.value.isCallable = true := by
    unfold Generation.get? Generation.table at found
    rw [there] at found
    have kept : t.2 ≠ [] := fun empty => by
      rw [Option.map_some, Option.getD_some, empty] at found
      cases found
    obtain ⟨x, inside⟩ := List.exists_mem_of_ne_nil _ kept
    have owner := (still.entries _ t (List.mem_of_getElem? there) x inside).1
    rw [Key.isCallable_of_meets met] at owner
    obtain ⟨d, -, rfl⟩ := Option.map_eq_some_iff.1 (MemoCache.keyOf_eq_ok.1 functionKey)
    exact owner
  obtain ⟨i, closure, known⟩ : ∃ i, function.value = .closure i ∧ σ i = some s := by
    generalize function.value = w at callee callable
    cases callee with
    | plain inert => exact absurd callable (by rw [inert]; simp)
    | closure known => exact ⟨_, rfl, known⟩
  have asks : r.Asks σ function argument i s s' e :=
    ⟨on, closure, known, denotes, n, slots, given, ended, admitted⟩
  cases asks.functionKey.symm.trans functionKey
  obtain ⟨found', got, result⟩ := asks.find still placed argumentKey
  cases got.symm.trans found
  exact result v rfl

/-- A call that comes to a value is a question that the cache can answer. -/
theorem exists_asks (on : r.caching = true) (callee : σ.Denotes function.value s)
    (denotes : σ.Denotes argument.value s') {v : Sense} {given : Set (Nat × Value)}
    (ended : r.recursion.call n slots s [s'] = some (.value v, given)) (admitted : given ⊆ r.admitted) :
    ∃ i, r.Asks σ function argument i s s' (.value v) := by
  obtain ⟨p, body, scope, parts⟩ := Recursion.parts_of_call ended
  generalize shape : function.value = w at callee
  cases callee with
  | plain => cases parts
  | closure held => exact ⟨_, on, shape, held, denotes, n, slots, given, ended, admitted⟩

/-- A cached call that has to compute arrives where the call does, and keeps the value that it comes to. -/
theorem missed (on : r.caching = true) (holds : r.Holds σ slots m) (callee : σ.Denotes function.value s)
    (denotes : σ.Denotes argument.value s') {e : Ending Sense} {given : Set (Nat × Value)}
    (ended : r.recursion.call n slots s [s'] = some (e, given)) (admitted : given ⊆ r.admitted)
    {ticket : Ticket} {cache : MemoCache}
    (started : (m.cache r.cache).start function argument = .ok (.pending ticket, cache)) {compute : Run Boxed}
    (computed : r.Follows Values σ slots (r.recursion.call n slots s [s']) compute
      (m.setCache r.cache cache)) :
    ∃ τ, r.Arrives Values σ τ slots m e given (Run.lookupOrCompute r.cache function argument compute m) := by
  obtain ⟨inside, faithful⟩ := holds.cache on
  have retains := Machine.Retains.setCache inside (MemoCache.start_extends started)
  have off {p : Prop} (off : r.caching = false) : p := by
    rw [on] at off
    cases off
  obtain ⟨e', given', τ, ended', more, holds', retains', outcome, -⟩ :=
    computed (.inl ⟨e, given, ended, admitted⟩)
  cases ended.symm.trans ended'
  have shape : Run.lookupOrCompute r.cache function argument compute m =
      Run.bind compute _ (m.setCache r.cache cache) := Run.lookupOrCompute_of_pending started compute
  rcases reached : compute (m.setCache r.cache cache) with ⟨o, m'⟩
  rw [reached] at holds' retains' outcome
  rw [Run.bind, reached] at shape
  refine ⟨τ, ?_⟩
  cases outcome with
  | fault f =>
    rw [shape]
    exact ⟨more, holds', retains.trans retains', .fault f, off⟩
  | jump => exact absurd ended Recursion.call_ne_jump
  | @value w v brought =>
    obtain ⟨i, asks⟩ := exists_asks on callee denotes ended admitted
    obtain ⟨-, mine, leads⟩ := MemoCache.start_leads faithful.current_lt started
    obtain ⟨inside', faithful'⟩ := holds'.cache on
    -- the ticket is still good, however the tables have grown while the result was computed
    have still : (m'.cache r.cache).Leads ticket function := by
      refine leads.later ?_
      have later := retains'.caches r.cache
      rwa [Machine.cache_setCache_self inside] at later
    have asks := asks.extend more
    obtain ⟨kept, cache', finished, faithful'', result⟩ :=
      asks.finish faithful' (holds'.placed i s asks.held).inside mine still brought
    have last := Run.onCache_eq (m := m') (c := r.cache)
      (f := fun cache => cache.finish ticket w) finished
    have grows' := MemoCache.finish_extends still finished
    rw [shape]
    simp only [last]
    exact ⟨more, holds'.setCache inside' grows' faithful'',
      (retains.trans retains').trans (.setCache inside' grows'), .value result, off⟩

/-- A cached call follows the course of the call. -/
theorem lookupOrCompute (on : r.caching = true) (holds : r.Holds σ slots m)
    (callee : σ.Denotes function.value s) (denotes : σ.Denotes argument.value s') {compute : Run Boxed}
    (computed : ∀ τ m', σ.Extends τ → r.Holds τ slots m' → m.Retains m' →
      r.Follows Values τ slots (r.recursion.call n slots s [s']) compute m') :
    r.Follows Values σ slots (r.recursion.call n slots s [s'])
      (Run.lookupOrCompute r.cache function argument compute) m := by
  intro alive
  obtain ⟨inside, faithful⟩ := holds.cache on
  have off {p : Prop} (off : r.caching = false) : p := by
    rw [on] at off
    cases off
  have known : ∃ e given, r.recursion.call n slots s [s'] = some (e, given) ∧ given ⊆ r.admitted := by
    rcases alive with known | ⟨uncached, -⟩
    · exact known
    · exact off uncached
  obtain ⟨e, given, ended, admitted⟩ := known
  cases started : (m.cache r.cache).start function argument with
  | error f =>
    -- a call that comes to a value is a question that the cache can answer
    cases e with
    | value v =>
      obtain ⟨i, asks⟩ := exists_asks on callee denotes ended admitted
      obtain ⟨begun, cache, begins⟩ := asks.start_ok faithful
      cases started.symm.trans begins
    | jump => exact absurd ended Recursion.call_ne_jump
    | fault =>
      refine ⟨.fault, given, σ, ended, ?_⟩
      rw [Run.lookupOrCompute_of_refused started]
      exact ⟨.refl σ, holds, .refl m, .fault f, off⟩
  | ok begins =>
    obtain ⟨begun, cache⟩ := begins
    have grows := MemoCache.start_extends started
    have holds' := holds.setCache inside grows (faithful.start started)
    have retains := Machine.Retains.setCache inside grows
    cases begun with
    | bypassed =>
      have passes := Run.lookupOrCompute_of_bypassed started compute
      exact (computed σ _ (.refl σ) holds' retains).of_later (.refl σ) retains passes alive
    | hit v =>
      obtain ⟨d, rfl, result⟩ := hit on holds callee denotes ended admitted started
      refine ⟨.value d, given, σ, ended, ?_⟩
      rw [Run.lookupOrCompute_of_hit started]
      exact ⟨.refl σ, holds', retains, .value result, off⟩
    | pending ticket =>
      obtain ⟨τ, arrives⟩ := missed on holds callee denotes ended admitted started
        (computed σ _ (.refl σ) holds' retains)
      exact ⟨e, given, τ, ended, arrives⟩

end Follows

end Regime

end Knot
