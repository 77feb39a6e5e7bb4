import Knot.Proofs.Marks
import Mathlib.Data.List.Flatten

/-!
# Trees with a variable renamed

A substitution of one variable for another, without marks, renames the variable wherever it stands as an
expression (`Expr.renamed`). It renames the variable everywhere if no block declares it, since the
variables that a block declares are no expressions (`Expr.not_mem_vars_renamed`).
-/

namespace Knot

/-! ## Variables -/

namespace Parameter

/-- A variable after `p` has been renamed to `n`. -/
def renamed (x p n : Parameter) : Parameter := if x = p then n else x

/-- The number of a variable after `p` has been renamed to `n`. -/
def renamedUid (p n : Parameter) (uid : Nat) : Nat := if uid = p.uid then n.uid else uid

/-- Whether a number is not that of the new name of `p`, if it has one. -/
def Free (p n : Parameter) (uid : Nat) : Prop := n ≠ p → uid ≠ n.uid

/-- Whether a variable is none but `p` under its number, and not the new name of `p`. -/
def Fits (x p n : Parameter) : Prop := n ≠ p → x.uid ≠ n.uid ∧ (x.uid = p.uid → x = p)

variable {p n x : Parameter} {u v : Nat}

@[simp] theorem renamedUid_self (p : Parameter) (u : Nat) : renamedUid p p u = u := by
  unfold renamedUid
  split
  next same => exact same.symm
  next => rfl

theorem renamedUid_of_ne (other : u ≠ p.uid) : renamedUid p n u = u := if_neg other

theorem free_self (p : Parameter) (u : Nat) : Free p p u := fun other => absurd rfl other

theorem Fits.free (h : x.Fits p n) : Free p n x.uid := fun other => (h other).1

/-- Different numbers stay different. -/
theorem renamedUid_inj (hu : Free p n u) (hv : Free p n v) :
    renamedUid p n u = renamedUid p n v ↔ u = v := by
  by_cases same : n = p
  · subst same
    simp
  · have hu := hu same
    have hv := hv same
    unfold renamedUid
    split <;> split <;> constructor <;> intro h <;> omega

theorem Fits.renamed_uid (h : x.Fits p n) : (x.renamed p n).uid = renamedUid p n x.uid := by
  unfold renamed renamedUid
  by_cases same : x = p
  · subst same
    simp
  · rw [if_neg same]
    split
    next number =>
      -- only `p` itself has its number, unless it is not renamed at all
      by_cases kept : n = p
      · rw [kept, number]
      · exact absurd ((h kept).2 number) same
    next => rfl

end Parameter

namespace Expr

/-! ## Renaming -/

/-- The tree after a substitution of the variable `n` for the variable `p` that marks nothing. -/
def renamed (p n : Parameter) (e : Expr) : Expr := e.marked (.plain (.parameter p) (.parameter n))

section

variable (p n : Parameter)

theorem renamed_constant (v : Boxed) (t : StaticType) :
    (constant v t).renamed p n = constant v t := rfl

theorem renamed_parameter (x : Parameter) :
    (parameter x).renamed p n = parameter (x.renamed p n) := by
  unfold renamed Parameter.renamed
  rw [marked]
  by_cases same : x = p
  · subst same
    have found : (Substitution.plain (parameter x) (parameter n)).placeholder.parameter? = some x := rfl
    rw [if_pos found, if_pos rfl]
    rfl
  · have other : ¬ (Substitution.plain (parameter p) (parameter n)).placeholder.parameter? = some x :=
      fun found => same (Option.some.inj found).symm
    rw [if_neg other, if_neg same]

theorem renamed_unary (op : UnaryOp) (a : Expr) (t : StaticType) :
    (unary op a t).renamed p n = unary op (a.renamed p n) t := rfl

theorem renamed_binary (op : BinaryOp) (a b : Expr) (t : StaticType) :
    (binary op a b t).renamed p n = binary op (a.renamed p n) (b.renamed p n) t := rfl

theorem renamed_conditional (a b c : Expr) (t : StaticType) :
    (conditional a b c t).renamed p n =
      conditional (a.renamed p n) (b.renamed p n) (c.renamed p n) t := rfl

theorem renamed_invoke (f : Expr) (args : List Expr) (t : StaticType) :
    (invoke f args t).renamed p n = invoke (f.renamed p n) (args.map (renamed p n)) t := by
  by_cases single : args.length = 1
  · obtain ⟨a, rfl⟩ := List.length_eq_one_iff.1 single
    rfl
  · exact marked_invoke_other f single t

theorem renamed_member (a : Expr) (name : String) (t : StaticType) :
    (member a name t).renamed p n = member (a.renamed p n) name t := rfl

theorem renamed_hostCall (f : HostFunction) (args : List Expr) (t : StaticType) :
    (hostCall f args t).renamed p n = hostCall f (args.map (renamed p n)) t :=
  congrArg (hostCall f · t) (markedAll_eq args)

theorem renamed_block (vs : List Parameter) (es : List Expr) (t : StaticType) :
    (block vs es t).renamed p n = block vs (es.map (renamed p n)) t :=
  congrArg (block vs · t) (markedAll_eq es)

theorem renamed_label (l : LabelTarget) (d : Option Expr) (t : StaticType) :
    (label l d t).renamed p n = label l (d.map (renamed p n)) t :=
  congrArg (label l · t) (markedOption_eq d)

theorem renamed_goto (k : GotoKind) (l : LabelTarget) (v : Option Expr) (t : StaticType) :
    (goto k l v t).renamed p n = goto k l (v.map (renamed p n)) t :=
  congrArg (goto k l · t) (markedOption_eq v)

theorem renamed_loop (a : Expr) (b c : Option LabelTarget) (t : StaticType) :
    (loop a b c t).renamed p n = loop (a.renamed p n) b c t := rfl

theorem renamed_lambda (ps : List Expr) (a : Expr) (t : StaticType) :
    (lambda ps a t).renamed p n = lambda (ps.map (renamed p n)) (a.renamed p n) t :=
  congrArg (lambda · (a.renamed p n) t) (markedAll_eq ps)

theorem renamed_cached (f a : Expr) (t : StaticType) (c : Option CacheId) :
    (cached f a t c).renamed p n = cached (f.renamed p n) (a.renamed p n) t c := rfl

theorem renamed_parallel (op : BinaryOp) (a b : Expr) (t : StaticType) (pool : Option PoolId) :
    (parallel op a b t pool).renamed p n =
      parallel op (a.renamed p n) (b.renamed p n) t pool := rfl

end

attribute [simp] renamed_constant renamed_parameter renamed_unary renamed_binary renamed_conditional
  renamed_invoke renamed_member renamed_hostCall renamed_block renamed_label renamed_goto renamed_loop
  renamed_lambda renamed_cached renamed_parallel

variable {p n : Parameter}

@[simp] theorem parameter?_renamed (e : Expr) :
    (e.renamed p n).parameter? = e.parameter?.map fun x => x.renamed p n := by
  cases e with
  | parameter x =>
    rw [renamed_parameter]
    rfl
  | invoke f args t =>
    rw [renamed_invoke]
    rfl
  | _ => rfl

@[simp] theorem labelUid?_renamed (e : Expr) : (e.renamed p n).labelUid? = e.labelUid? := by
  cases e with
  | parameter x =>
    rw [renamed_parameter]
    rfl
  | invoke f args t =>
    rw [renamed_invoke]
    rfl
  | _ => rfl

@[simp] theorem kind_renamed (e : Expr) : (e.renamed p n).kind = e.kind := by
  cases e with
  | parameter x =>
    rw [renamed_parameter]
    rfl
  | invoke f args t =>
    rw [renamed_invoke]
    rfl
  | _ => rfl

/-- A tree in which `p` keeps its name is the same tree. -/
theorem renamed_self (p : Parameter) (e : Expr) : e.renamed p p = e := by
  induction e using of_parts with
  | node e ih =>
    -- arguments, steps and parameters come in lists, default values as options
    have all : ∀ es : List Expr, (∀ c ∈ es, c ∈ e.parts) → es.map (renamed p p) = es := by
      intro es inside
      have each : es.map (renamed p p) = es.map id :=
        List.map_congr_left fun c member => ih c (inside c member)
      rw [each, List.map_id]
    have one : ∀ d : Option Expr, (∀ c ∈ d.toList, c ∈ e.parts) → d.map (renamed p p) = d := by
      intro d inside
      cases d with
      | none => rfl
      | some c => exact congrArg some (ih c (inside c List.mem_cons_self))
    cases e with
    | constant | strange | bare => rfl
    | parameter x =>
      rw [renamed_parameter, Parameter.renamed]
      split
      next same => rw [same]
      next => rfl
    | unary op a t => rw [renamed_unary, ih a List.mem_cons_self]
    | binary op a b t | parallel op a b t pool =>
      have left := ih a List.mem_cons_self
      have right := ih b (List.mem_cons_of_mem _ List.mem_cons_self)
      simp only [renamed_binary, renamed_parallel, left, right]
    | conditional a b c t =>
      have test := ih a List.mem_cons_self
      have ifTrue := ih b (by simp [parts, children])
      have ifFalse := ih c (by simp [parts, children])
      rw [renamed_conditional, test, ifTrue, ifFalse]
    | invoke f args t =>
      have callee := ih f List.mem_cons_self
      rw [renamed_invoke, callee, all args fun c member => List.mem_cons_of_mem _ member]
    | member a name t => rw [renamed_member, ih a List.mem_cons_self]
    | hostCall f args t => rw [renamed_hostCall, all args fun c member => member]
    | block vs es t => rw [renamed_block, all es fun c member => member]
    | label l d t => rw [renamed_label, one d fun c member => member]
    | goto k l v t => rw [renamed_goto, one v fun c member => member]
    | loop a b c t => rw [renamed_loop, ih a List.mem_cons_self]
    | lambda ps a t =>
      have body := ih a (List.mem_append_right _ List.mem_cons_self)
      rw [renamed_lambda, body, all ps fun c member => List.mem_append_left _ member]
    | cached f a t c =>
      have callee := ih f List.mem_cons_self
      have argument := ih a (List.mem_cons_of_mem _ List.mem_cons_self)
      rw [renamed_cached, callee, argument]

/-! ## Names that can be changed -/

/-- Whether the variables at a node allow for renaming `p` to `n`: none of them is `n` or shares the
number of `p`, and no block declares `p`. -/
def Fits (p n : Parameter) : Expr → Prop
  | parameter x => x.Fits p n
  | block vs _ _ => n ≠ p → ∀ x ∈ vs, x.uid ≠ n.uid ∧ x.uid ≠ p.uid
  | _ => True

/-- Whether the variables of a tree allow for renaming `p` to `n`. -/
def Renames (p n : Parameter) (e : Expr) : Prop := ∀ x ∈ e.nodes, x.Fits p n

theorem Renames.fits {e : Expr} (h : e.Renames p n) : e.Fits p n := h e e.mem_nodes_self

theorem Renames.part {e : Expr} (h : e.Renames p n) : ∀ c ∈ e.parts, c.Renames p n := by
  intro c part x inside
  refine h x ?_
  rw [nodes_eq]
  exact List.mem_cons_of_mem _ (List.mem_flatMap.2 ⟨c, part, inside⟩)

/-- Every tree allows for a variable to keep its name. -/
theorem renames_self (p : Parameter) (e : Expr) : e.Renames p p := by
  intro x _
  cases x with
  | parameter y => exact fun other => absurd rfl other
  | block vs es t => exact fun other => absurd rfl other
  | _ => trivial

/-! ## Occurrences -/

/-- The variables that occur in a tree, as expressions, as parameters of a lambda or as variables of a
block. -/
def vars (e : Expr) : List Parameter :=
  e.nodes.flatMap fun
    | parameter x => [x]
    | block vs _ _ => vs
    | _ => []

theorem mem_vars_iff {e : Expr} {x : Parameter} :
    x ∈ e.vars ↔ parameter x ∈ e.nodes ∨ ∃ vs es t, block vs es t ∈ e.nodes ∧ x ∈ vs := by
  unfold vars
  rw [List.mem_flatMap]
  constructor
  · rintro ⟨y, inside, here⟩
    cases y with
    | parameter z => exact .inl (List.mem_singleton.1 here ▸ inside)
    | block vs es t => exact .inr ⟨vs, es, t, inside, here⟩
    | _ => cases here
  · rintro (inside | ⟨vs, es, t, inside, declared⟩)
    · exact ⟨_, inside, List.mem_cons_self⟩
    · exact ⟨_, inside, declared⟩

/-- What occurs in a tree occurs in every tree that has its nodes. -/
theorem mem_vars_of_nodes {e f : Expr} (within : ∀ y ∈ f.nodes, y ∈ e.nodes) :
    ∀ x ∈ f.vars, x ∈ e.vars := by
  intro x occurs
  obtain ⟨y, inside, here⟩ := List.mem_flatMap.1 occurs
  exact List.mem_flatMap.2 ⟨y, within y inside, here⟩

/-- A tree in which `n` does not occur, in which only `p` has the number of `p`, and in which no block
declares `p`, allows for renaming `p` to `n`. -/
theorem renames_of_vars {e : Expr} (fresh : ∀ x ∈ e.vars, x.uid ≠ n.uid)
    (alone : ∀ x ∈ e.vars, x.uid = p.uid → x = p)
    (undeclared : ∀ vs es t, block vs es t ∈ e.nodes → p ∉ vs) : e.Renames p n := by
  intro x inside
  cases x with
  | parameter y =>
    have occurs : y ∈ e.vars := mem_vars_iff.2 (.inl inside)
    exact fun _ => ⟨fresh y occurs, alone y occurs⟩
  | block vs es t =>
    intro _ y declared
    have occurs : y ∈ e.vars := mem_vars_iff.2 (.inr ⟨vs, es, t, inside, declared⟩)
    refine ⟨fresh y occurs, fun same => undeclared vs es t inside ?_⟩
    exact alone y occurs same ▸ declared
  | _ => trivial

/-- The old name is gone from a tree in which no block declares it. -/
theorem not_mem_vars_renamed {e : Expr} (apart : n ≠ p)
    (undeclared : ∀ vs es t, block vs es t ∈ e.nodes → p ∉ vs) : p ∉ (e.renamed p n).vars := by
  rw [mem_vars_iff, renamed, nodes_marked rfl]
  rintro (inside | ⟨vs, es, t, inside, declared⟩)
  · obtain ⟨y, -, same⟩ := List.mem_map.1 inside
    have shape := congrArg parameter? same
    rw [show y.marked (.plain (parameter p) (parameter n)) = y.renamed p n from rfl,
      parameter?_renamed] at shape
    obtain ⟨z, -, named⟩ := Option.map_eq_some_iff.1 shape
    unfold Parameter.renamed at named
    split at named
    next => exact apart named
    next other => exact other named
  · obtain ⟨y, member, same⟩ := List.mem_map.1 inside
    change y.renamed p n = _ at same
    cases y with
    | block ws fs s =>
      rw [renamed_block] at same
      cases same
      exact undeclared _ _ _ member declared
    | parameter y =>
      rw [renamed_parameter] at same
      cases same
    | invoke f args s =>
      rw [renamed_invoke] at same
      cases same
    | _ => cases same

end Expr

end Knot
