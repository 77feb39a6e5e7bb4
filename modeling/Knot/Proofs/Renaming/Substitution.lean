import Knot.Proofs.Renaming.Evaluation

/-!
# Substitutions of a variable for a variable

A substitution of a variable `q` that does not occur in a tree for a variable `p` renames `p`: the tree
that it gives does with `q` what the tree does with `p`, and `p` is gone from it
(`Built.substitute_renames`). This is so only if no block declares `p`: a substitution renames the
parameters of a lambda together with their uses, but of a variable that a block declares it renames the
uses only (`substitute_of_declared`).
-/

namespace Knot

/-- Whether the frames of all closures exist. -/
def Machine.Placed (m : Machine) : Prop :=
  ∀ ps body frame context, Callable.closure ps body frame context ∈ m.functions →
    frame < m.frames.frames.size

/-- Evaluates a tree in a new frame that binds a variable to a value, besides others. -/
def Run.evalWith [Host] (fuel : Nat) (context : Context) (parent : Option FrameId)
    (bindings : List (Nat × Boxed)) (x : Parameter) (v : Boxed) (e : Expr) : Run Boxed := do
  let frame ← Run.openFrame parent (bindings ++ [(x.uid, v)])
  Run.eval fuel context frame e

/-! ## Where nothing has been renamed yet -/

/-- The variable `p` goes by its old name in all frames of a heap. -/
def Frames.oldNames (h : Frames) (p : Parameter) : Array Parameter := Array.replicate h.frames.size p

theorem Frames.oldNames_eq_some {h : Frames} {p n : Parameter} {g : FrameId} :
    (h.oldNames p)[g]? = some n ↔ g < h.frames.size ∧ n = p := by
  unfold oldNames
  rw [Array.getElem?_replicate]
  split
  next inside => simp [inside, eq_comm]
  next outside => simp [outside]

/-- A heap corresponds to itself. -/
theorem Frames.renamed_self (h : Frames) (p : Parameter) : Renamed p (h.oldNames p) h h := by
  have all : (h.oldNames p).size = h.frames.size := Array.size_replicate
  constructor
  case size => exact all.symm
  case size' => exact all.symm
  case at_place =>
    intro g n f f' known found found'
    obtain ⟨-, rfl⟩ := oldNames_eq_some.1 known
    rw [found] at found'
    cases found'
    exact ⟨rfl, fun u _ => by rw [Parameter.renamedUid_self]⟩
  case outward =>
    intro g n f a known found up
    obtain ⟨inside, rfl⟩ := oldNames_eq_some.1 known
    have older : a < g := h.older g a f found up
    exact .inl (oldNames_eq_some.2 ⟨Nat.lt_trans older inside, rfl⟩)
  case outermost =>
    intro g n f known _ _
    exact .inl (oldNames_eq_some.1 known).2

/-- The functions of a machine correspond to themselves. -/
theorem Machine.Placed.functions {m : Machine} (placed : m.Placed) (p : Parameter) :
    FunctionsRenamed p (m.frames.oldNames p) m.functions m.functions := by
  refine ⟨rfl, fun id c c' found found' => ?_⟩
  rw [found] at found'
  cases found'
  have inside : c ∈ m.functions := Array.mem_of_getElem? found
  cases c with
  | closure ps body frame context =>
    have known : (m.frames.oldNames p)[frame]? = some p :=
      Frames.oldNames_eq_some.2 ⟨placed ps body frame context inside, rfl⟩
    have same : Callable.Renamed p (m.frames.oldNames p) (.closure ps body frame context)
        (.closure (ps.map (Parameter.renamedUid p p)) (body.renamed p p) frame context) :=
      .closure known (fun u _ => Parameter.free_self p u) (body.renames_self p)
    have uids : ps.map (Parameter.renamedUid p p) = ps :=
      (List.map_congr_left fun u _ => Parameter.renamedUid_self p u).trans (List.map_id ps)
    rwa [uids, body.renamed_self p] at same
  | collector collected missing => exact .collector collected missing
  | thunk result => exact .thunk result
  | wrapper inner => exact .wrapper inner

/-! ## Substitutions -/

/-- The evaluation of a tree with `p` bound to a value, and that of the tree with `p` renamed to `n` with
`n` bound to the value. -/
theorem Expr.Renames.evalWith [Host] [Host.IsApart] {e : Expr} {p n : Parameter} (renames : e.Renames p n)
    (other : n ≠ p) {m : Machine} (placed : m.Placed) (fuel : Nat) (context : Context)
    (parent : Option FrameId) (bindings : List (Nat × Boxed)) (v : Boxed) :
    ∃ names, (Run.evalWith fuel context parent bindings n v (e.renamed p n) m).1 =
        (Run.evalWith fuel context parent bindings p v e m).1 ∧
      (Run.evalWith fuel context parent bindings p v e m).2.Renamed p names
        (Run.evalWith fuel context parent bindings n v (e.renamed p n) m).2 := by
  have declared (around : Option FrameId) :
      (Frame.ofBindings around (bindings ++ [(p.uid, v)])).declares p.uid = true := by
    unfold Frame.declares
    rw [Frame.get?_ofBindings_append, if_pos rfl]
    rfl
  have old : ∀ a, m.frames.existing parent = some a → (m.frames.oldNames p)[a]? = some p :=
    fun a found => Frames.oldNames_eq_some.2 ⟨Frames.lt_of_existing found, rfl⟩
  have opened := (m.frames.renamed_self p).push (.bound other (m.frames.existing parent) bindings v)
    (fun a found => .inr ⟨old a found, declared _⟩) fun _ => .inr (declared _)
  have machines : ({ m with frames := (m.frames.push parent (bindings ++ [(p.uid, v)])).2 } :
      Machine).Renamed p ((m.frames.oldNames p).push n)
        { m with frames := (m.frames.push parent (bindings ++ [(n.uid, v)])).2 } :=
    .mk opened ((placed.functions p).grown (.push _ n))
  have inner : ((m.frames.oldNames p).push n)[m.frames.frames.size]? = some n := by
    have size : (m.frames.oldNames p).size = m.frames.frames.size := Array.size_replicate
    rw [Array.getElem?_push, if_pos size.symm]
  obtain ⟨names, -, same, rest⟩ :=
    Run.Mirrors.evalTree inner renames fuel context _ (.refl _) _ _ machines
  exact ⟨names, same, rest⟩

/-- A substitution of a variable `q` for a variable `p` is not refused on a built tree. If `q` does not
occur in the tree, no variable but `p` has the number of `p`, and no block declares `p`, then `p` is gone
from the result, and with `q` bound to a value the result ends as the tree does with `p` bound to it, after
the same reports. -/
theorem Built.substitute_renames [Host] [Host.IsApart] {e : Expr} (built : Built e) {p q : Parameter}
    (apart : q.uid ≠ p.uid) (fresh : ∀ x ∈ e.vars, x.uid ≠ q.uid)
    (alone : ∀ x ∈ e.vars, x.uid = p.uid → x = p)
    (undeclared : ∀ vs es t, .block vs es t ∈ e.nodes → p ∉ vs) :
    ∃ f tally, e.substitute (.plain (.parameter p) (.parameter q)) = .ok (f, tally) ∧ p ∉ f.vars ∧
      ∀ fuel context parent bindings v (m : Machine), m.Placed →
        (Run.evalWith fuel context parent bindings q v f m).1 =
          (Run.evalWith fuel context parent bindings p v e m).1 ∧
        (Run.evalWith fuel context parent bindings q v f m).2.journal =
          (Run.evalWith fuel context parent bindings p v e m).2.journal := by
  have other : q ≠ p := fun same => apart (congrArg Parameter.uid same)
  obtain ⟨tally, done, -⟩ :=
    @Substitution.does_visit (.plain (.parameter p) (.parameter q)) p rfl rfl e built.ordinary .empty
  refine ⟨e.renamed p q, tally, done, Expr.not_mem_vars_renamed other undeclared, ?_⟩
  intro fuel context parent bindings v m placed
  have renames := Expr.renames_of_vars fresh alone undeclared
  obtain ⟨names, same, rest⟩ := renames.evalWith other placed fuel context parent bindings v
  refine ⟨same, ?_⟩
  generalize (Run.evalWith fuel context parent bindings q v (e.renamed p q) m).2 = after at rest ⊢
  obtain ⟨frames, functions⟩ := rest
  rfl

namespace Renaming

/-- Two variables, and numbers of 32 bits. -/
def p : Parameter := ⟨"p", .value .int32, 1⟩
def q : Parameter := ⟨"q", .value .int32, 2⟩
def word (n : Int) : Value := .scalar (.wrapped ⟨true, .w32⟩ n)

/-- A function that doubles its argument, called with a variable of the name of its parameter. -/
def doubled : Expr :=
  .invoke (.lambda [.parameter p] (.binary .add (.parameter p) (.parameter p)
    (.value .int32)) (.func [.value .int32] (.value .int32))) [.parameter p] (.value .int32)

end Renaming

open Renaming in
/-- The function has the new variable for its parameter, and doubles as before. -/
theorem Built.substitute_renames_doubled :
    Built doubled ∧ ∃ f tally,
      doubled.substitute (.plain (.parameter p) (.parameter q)) = .ok (f, tally) ∧
      p ∉ f.vars ∧
      (Run.evalWith 3 .empty none [] q ⟨word 7, 0⟩ f (.initial 1)).1 =
        .value ⟨word 14, 1⟩ := by
  have built : Built doubled := by
    have sum : Built (.binary .add (.parameter p) (.parameter p) (.value .int32)) :=
      @Built.binary .add _ _ _ (.parameter p) (.parameter p) rfl
    have function : Built (.lambda [.parameter p] (.binary .add (.parameter p)
        (.parameter p) (.value .int32)) (.func [.value .int32] (.value .int32))) :=
      @Built.lambda [.parameter p] _ _ sum rfl
    exact .invoke function (List.forall_mem_singleton.2 (.parameter p)) rfl
  have vars : doubled.vars = [p, p, p, p] := by
    simp [Expr.vars, doubled, Expr.nodes_eq, Expr.parts, Expr.children]
  have only : ∀ x ∈ doubled.vars, x = p := by
    simp [vars]
  have noBlock : ∀ vs es t, .block vs es t ∈ doubled.nodes → p ∉ vs := by
    simp [doubled, Expr.nodes_eq, Expr.parts, Expr.children]
  have placed : (Machine.initial 1).Placed := by
    simp [Machine.Placed, Machine.initial]
  obtain ⟨f, tally, done, gone, same⟩ := built.substitute_renames (p := p) (q := q)
    (by decide) (fun x occurs => only x occurs ▸ by decide) (fun x occurs _ => only x occurs) noBlock
  have value : (Run.evalWith 3 .empty none [] p ⟨word 7, 0⟩ doubled (.initial 1)).1 =
      .value ⟨word 14, 1⟩ := rfl
  exact ⟨built, f, tally, done, gone, (same 3 .empty none [] _ (.initial 1) placed).1.trans value⟩

open Renaming in
/-- A variable that a block declares and assigns to, and after the block the variable of that name. -/
def Renaming.shadowing : Expr :=
  .block [] [.block [p] [.binary .assign (.parameter p)
    (.constant ⟨word 1, 0⟩ (.value .int32)) (.value .int32)] (.value .int32),
    .parameter p] (.value .int32)

open Renaming in
/-- The block still declares the old variable and assigns to the new one, which is not its own. -/
theorem substitute_of_declared :
    Built shadowing ∧ (∀ x ∈ shadowing.vars, x = p) ∧ ∃ f tally,
      shadowing.substitute (.plain (.parameter p) (.parameter q)) = .ok (f, tally) ∧
      p ∈ f.vars ∧
      (Run.evalWith 3 .empty none [] p ⟨word 7, 0⟩ shadowing (.initial 1)).1 =
        .value ⟨word 7, 0⟩ ∧
      (Run.evalWith 3 .empty none [] q ⟨word 7, 0⟩ f (.initial 1)).1 =
        .value ⟨word 1, 0⟩ := by
  have built : Built shadowing := by
    have one : Built (.constant ⟨word 1, 0⟩ (.value .int32)) :=
      @Built.constant ⟨.int 1, 0⟩ (some (.value .int32)) _ rfl
    have assignment : Built (.binary .assign (.parameter p)
        (.constant ⟨word 1, 0⟩ (.value .int32)) (.value .int32)) :=
      @Built.binary .assign _ _ _ (.parameter p) one rfl
    have inner := Built.block [p] (List.forall_mem_singleton.2 assignment) none
    exact .block [] (List.forall_mem_cons.2 ⟨inner, List.forall_mem_singleton.2 (.parameter p)⟩)
      none
  have only : ∀ x ∈ shadowing.vars, x = p := by
    simp [Expr.vars, shadowing, Expr.nodes_eq, Expr.parts, Expr.children]
  obtain ⟨tally, done, -⟩ :=
    @Substitution.does_visit (.plain (.parameter p) (.parameter q)) p rfl rfl shadowing
      built.ordinary .empty
  have declares : .block [p] [.binary .assign (.parameter q)
      (.constant ⟨word 1, 0⟩ (.value .int32)) (.value .int32)] (.value .int32) ∈
        (shadowing.renamed p q).nodes := by
    simp [shadowing, Parameter.renamed, Expr.nodes_eq, Expr.parts, Expr.children]
  have left : p ∈ (shadowing.renamed p q).vars :=
    Expr.mem_vars_iff.2 (.inr ⟨_, _, _, declares, List.mem_cons_self⟩)
  exact ⟨built, only, _, tally, done, left, rfl, rfl⟩

end Knot
