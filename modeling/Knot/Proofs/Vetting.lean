import Knot.Proofs.Typing

/-!
# What a substitution refuses

With purity, a substitution looks at each member read before it goes on to the owner. It passes through a
tree node by node, each before its parts, and so it fails at the first node, in that order, that the rule
of purity refuses, wherever that node stands; no other node of a built tree is a fault, and a tree without
such a read is gone through to the end (`Substitution.vets_visit`). Its members are those of the
result, of the same types, so what has been admitted stays admitted (`Built.substitute_vets`).
-/

namespace Knot

open Knot.Expr

namespace PurityRule

/-- What the rule does not admit: a member, itself no pure function, of an owner that is no value, where
results are kept or impure reads are not tolerated. -/
theorem admits_eq_false_iff (rule : PurityRule) (owner member : StaticType) :
    rule.admits owner member = false ↔ owner.isValue = false ∧ isPureFunction member = false ∧
      (rule.caching = true ∨ rule.allowImpure = false) := by
  unfold admits
  cases owner.isValue <;> cases isPureFunction member <;> cases rule.caching <;>
    cases rule.allowImpure <;> decide

end PurityRule

namespace Substitution

variable {r : Substitution} {p : Parameter}

/-! ## Refusals -/

/-- The fault of a node, if the substitution refuses it. -/
def refusal? (r : Substitution) : Expr → Option Fault
  | .member a n t =>
    if r.purity && !r.rule.admits a.type t then some (.impureMember n a.type) else none
  | _ => none

theorem refusal?_member (a : Expr) (n : String) (t : StaticType) :
    r.refusal? (.member a n t) =
      if r.purity && !r.rule.admits a.type t then some (.impureMember n a.type) else none := rfl

/-- A refused node is a member read that is impure. -/
theorem refusal?_eq_some_iff {e : Expr} {f : Fault} :
    r.refusal? e = some f ↔ r.purity = true ∧ ∃ a n t, e = .member a n t ∧
      r.rule.admits a.type t = false ∧ f = .impureMember n a.type := by
  cases e with
  | member a n t =>
    simp only [refusal?_member, Option.ite_none_right_eq_some, Bool.and_eq_true, Bool.not_eq_true',
      Option.some.injEq]
    constructor
    · rintro ⟨⟨purity, impure⟩, rfl⟩
      exact ⟨purity, a, n, t, rfl, impure, rfl⟩
    · rintro ⟨purity, a, n, t, ⟨⟩, impure, rfl⟩
      exact ⟨⟨purity, impure⟩, rfl⟩
  | _ => simp [refusal?]

/-- The first fault among the nodes of a tree. -/
def refusalIn? (r : Substitution) (e : Expr) : Option Fault := e.nodes.findSome? r.refusal?

/-- On a tree without marks no other node is a fault. -/
theorem faultIn?_of_ordinary {e : Expr} (ordinary : e.Ordinary) : r.faultIn? e = r.refusalIn? e := by
  have each : ∀ x ∈ e.nodes, r.fault? x = r.refusal? x := by
    intro x inside
    have here := ordinary x inside
    cases x with
    | cached | parallel | strange | bare => cases here
    | _ => rfl
  unfold faultIn? refusalIn?
  generalize e.nodes = nodes at each
  induction nodes with
  | nil => rfl
  | cons x nodes ih =>
    obtain ⟨here, rest⟩ := List.forall_mem_cons.1 each
    rw [List.findSome?_cons, List.findSome?_cons, here, ih rest]

/-! ## Visits -/

/-- A computation that fails with a certain fault, or ends in a result if there is none. -/
def Vets {α : Type} (x : Counting α) : Option Fault → Prop
  | some f => ∀ tally, x tally = .error f
  | none => ∀ tally, ∃ result, x tally = .ok result

/-- A substitution for a variable fails with the first refusal among the nodes of the tree, and gives a
result if there is none. -/
theorem vets_visit (placeholder : r.placeholder = .parameter p) (e : Expr) (ordinary : e.Ordinary) :
    Vets (r.visit e) (r.refusalIn? e) := by
  have goes := goes_visit placeholder e
  rw [faultIn?_of_ordinary ordinary] at goes
  cases refused : r.refusalIn? e with
  | some f =>
    rw [refused] at goes
    exact goes
  | none =>
    rw [refused] at goes
    intro tally
    obtain ⟨tally', done, -⟩ := goes tally
    exact ⟨_, done⟩

/-! ## Reads that are refused -/

/-- A member read that purity refuses: the owner is of no value type, the member is of no type of a pure
function, and results are kept or impure reads are not tolerated. -/
def Forbids (r : Substitution) : Expr → Prop
  | .member a _ t => a.type.isValue = false ∧ PurityRule.isPureFunction t = false ∧
    (r.caching = true ∨ r.allowImpure = false)
  | _ => False

theorem refusal?_eq_none_iff (purity : r.purity = true) {e : Expr} :
    r.refusal? e = none ↔ ¬ r.Forbids e := by
  cases e with
  | member a n t =>
    have forbids : r.Forbids (.member a n t) ↔ r.rule.admits a.type t = false :=
      (r.rule.admits_eq_false_iff a.type t).symm
    rw [refusal?_member, forbids, purity]
    cases r.rule.admits a.type t <;> simp
  | _ => exact iff_of_true rfl id

/-- Whether a read is refused does not change when its tree is substituted in. -/
theorem forbids_marked {q : Parameter} (placeholder : r.placeholder = .parameter p)
    (replacement : r.replacement = .parameter q) (same : q.type = p.type) {e : Expr} :
    r.Forbids (e.marked r) ↔ r.Forbids e := by
  rcases marked_cases replacement e with plain | ⟨x, rfl, -, marked⟩ | ⟨f, a, t, rfl, marked⟩ |
    ⟨op, a, b, t, rfl, -, marked⟩
  · rw [plain]
    cases e with
    | member a n t =>
      show (a.marked r).type.isValue = false ∧ _ ↔ a.type.isValue = false ∧ _
      rw [(stands_marked placeholder replacement same a).type]
    | _ => exact Iff.rfl
  · rw [marked]
    exact Iff.rfl
  · rw [marked]
    exact Iff.rfl
  · rw [marked]
    exact Iff.rfl

end Substitution

/-- What comes of a substitution with purity: it is refused if there is a forbidden read anywhere in the
tree, and else it gives a tree without one. -/
structure Expr.Vetted (e : Expr) (r : Substitution) : Prop where
  refused : (∃ name owner, e.substitute r = .error (.impureMember name owner)) ↔
    ∃ x ∈ e.nodes, r.Forbids x
  /-- The fault is about the first of them. -/
  first : ∀ f, e.substitute r = .error f ↔ e.nodes.findSome? r.refusal? = some f
  passed : (¬ ∃ x ∈ e.nodes, r.Forbids x) → ∃ result tally, e.substitute r = .ok (result, tally) ∧
    ∀ x ∈ result.nodes, ¬ r.Forbids x

/-- A substitution of a variable for a variable of the same type, with purity and any choice of the rest,
refuses exactly the built trees with a forbidden read, and leaves none in the others. -/
theorem Built.substitute_vets {e : Expr} (built : Built e) {p q : Parameter} {r : Substitution}
    (placeholder : r.placeholder = .parameter p) (replacement : r.replacement = .parameter q)
    (same : q.type = p.type) (purity : r.purity = true) : e.Vetted r := by
  have vets := Substitution.vets_visit placeholder e built.ordinary
  have clean : r.refusalIn? e = none ↔ ¬ ∃ x ∈ e.nodes, r.Forbids x := by
    unfold Substitution.refusalIn?
    rw [List.findSome?_eq_none_iff]
    simp only [Substitution.refusal?_eq_none_iff purity, not_exists, not_and]
  -- the substitution starts a visit with nothing counted, and fails just as the visit does
  have fault (f : Fault) : e.substitute r = .error f ↔ r.refusalIn? e = some f := by
    cases found : r.refusalIn? e with
    | some g =>
      rw [found] at vets
      have failed : e.substitute r = .error g := vets _
      rw [failed, Except.error.injEq, Option.some.injEq]
    | none =>
      rw [found] at vets
      obtain ⟨result, done⟩ := vets .empty
      have ended : e.substitute r = .ok result := done
      rw [ended]
      exact iff_of_false nofun nofun
  constructor
  case refused =>
    constructor
    · rintro ⟨name, owner, failed⟩
      by_contra none
      rw [fault, clean.2 none] at failed
      cases failed
    · intro some
      obtain ⟨f, found⟩ := Option.ne_none_iff_exists'.1 fun none => clean.1 none some
      obtain ⟨x, -, refused⟩ := List.exists_of_findSome?_eq_some found
      obtain ⟨-, a, n, t, -, -, rfl⟩ := Substitution.refusal?_eq_some_iff.1 refused
      exact ⟨n, a.type, (fault _).2 found⟩
  case first => exact fault
  case passed =>
    intro none
    rw [clean.2 none] at vets
    obtain ⟨⟨result, tally⟩, done⟩ := vets .empty
    have marked := Substitution.only_visit placeholder done
    refine ⟨result, tally, done, fun x inside forbidden => none ?_⟩
    rw [marked, nodes_marked replacement] at inside
    obtain ⟨y, member, rfl⟩ := List.mem_map.1 inside
    exact ⟨y, member, (Substitution.forbids_marked placeholder replacement same).1 forbidden⟩

namespace Reading

/-- An account, whose rate may change, and a call of that rate. -/
def account : Parameter := ⟨"a", .reference "Account", 4⟩

def rateCall : Expr :=
  .invoke (.member (.parameter account) "rate" (.func [.value .int32] (.value .int32)))
    [.parameter Recursive.argument] (.value .int32)

/-- The sum of a call of a function that is not known yet and of one of the rate. -/
def sum : Expr :=
  .binary .add (.invoke (.parameter Recursive.self) [.parameter Recursive.argument] (.value .int32)) rateCall
    (.value .int32)

/-- The substitution with caching, threading and purity. -/
def substitution : Substitution :=
  ⟨.parameter Recursive.self, .parameter Recursive.bound, true, true, true, true, none, none⟩

end Reading

/-- The read of the rate is found where it stands, in the callee of an operand that is to be split. -/
theorem Built.substitute_vets_readingSum :
    Built Reading.sum ∧ Recursive.self.type = Recursive.bound.type ∧ Reading.substitution.purity = true ∧
      Reading.sum.Vetted Reading.substitution ∧
      ∃ name owner, Reading.sum.substitute Reading.substitution = .error (.impureMember name owner) := by
  have first : Built (.invoke (.parameter Recursive.self) [.parameter Recursive.argument] (.value .int32)) :=
    .invoke (.parameter Recursive.self) (List.forall_mem_singleton.2 (.parameter Recursive.argument)) rfl
  have rate := Built.member (.parameter Reading.account) "rate" (.func [.value .int32] (.value .int32))
  have second : Built Reading.rateCall :=
    .invoke rate (List.forall_mem_singleton.2 (.parameter Recursive.argument)) rfl
  have built : Built Reading.sum := @Built.binary .add _ _ _ first second rfl
  have vetted := @Built.substitute_vets _ built _ _ Reading.substitution rfl rfl rfl rfl
  have read : Expr.member (.parameter Reading.account) "rate" (.func [.value .int32] (.value .int32)) ∈
      Reading.sum.nodes := @mem_nodes_of_at? [1, 0] _ _ rfl
  exact ⟨built, rfl, rfl, vetted, vetted.refused.2 ⟨_, read, rfl, rfl, .inl rfl⟩⟩

end Knot
