import Knot.Proofs.Marks

/-!
# Well-typed trees

A node is checked if its builder admits its parts and gives it the type that it has; a tree is well
typed if all its nodes are (`Expr.WellTyped`). The trees that the builders give are the well-typed
trees without marks (`built_iff`). What a builder says depends on the types of the parts, and on which
of them are variables where it asks for one (`Expr.Stands`), so a substitution of a variable for another
of its type and the passes of a reduction leave a tree well typed, and with the type it had.
-/

namespace Knot

/-! ## What a builder asks of the parts -/

namespace Build

open Knot.Expr

theorem unary_eq_ok {op : UnaryOp} {a : Expr} {t : StaticType} :
    unary op a (some t) = .ok (.unary op a t) ↔
      if op.isConversion then t.isValue = true → ∃ s, a.type = .value s
      else ∃ s, t = .value s ∧ a.type = .value s ∧ (op = .not → s.isFloat = false) ∧
        (op ≠ .not → s.isBool = false) := by
  constructor
  · intro built
    rcases unary_ok built with ⟨u, conversion, given, -, operand⟩ | ⟨s, other, node, rest⟩
    · cases given
      rwa [if_pos conversion]
    · cases node
      rw [if_neg (by rw [other]; decide)]
      exact ⟨s, rfl, rest⟩
  · intro checked
    unfold unary
    split at checked
    next conversion =>
      rw [if_pos conversion]
      dsimp only
      split
      next valued =>
        obtain ⟨s, typed⟩ := checked valued
        rw [operandType_eq_ok.2 typed]
        rfl
      next => rfl
    next other =>
      obtain ⟨s, rfl, typed, whole, number⟩ := checked
      rw [if_neg other, operandType_eq_ok.2 typed]
      show ite _ _ _ = _
      by_cases complement : op = .not
      · simp [complement, whole complement, pure, Except.pure]
      · simp [complement, number complement, pure, Except.pure]

theorem binary_eq_ok {op : BinaryOp} {a b : Expr} {t : StaticType} :
    binary op a b = .ok (.binary op a b t) ↔
      if op = .assign then ∃ p, a = .parameter p ∧ p.type.assignable b.type = true ∧ t = p.type
      else ∃ s u r, a.type = .value s ∧ b.type = .value u ∧ binaryType op s u = .ok r ∧
        t = .value r := by
  by_cases assignment : op = .assign
  · rw [binary, if_pos assignment, if_pos assignment]
    constructor
    · intro built
      obtain ⟨p, rfl, fits, node⟩ := assign_ok built
      cases node
      exact ⟨p, rfl, fits, rfl⟩
    · rintro ⟨p, rfl, fits, rfl⟩
      rw [assign, if_pos fits, assignment]
  · rw [if_neg assignment]
    constructor
    · intro built
      obtain ⟨s, u, r, left, right, admitted, node⟩ := binary_ok assignment built
      cases node
      exact ⟨s, u, r, left, right, admitted, rfl⟩
    · rintro ⟨s, u, r, left, right, admitted, rfl⟩
      rw [binary, if_neg assignment, operandType_eq_ok.2 left, operandType_eq_ok.2 right]
      simp only [bind, Except.bind, admitted]
      rfl

theorem condition_eq_ok {test a b : Expr} {t : StaticType} :
    condition test a b (some t) = .ok (.conditional test a b t) ↔
      test.type = .bool ∧ (t ≠ .void → t.assignable a.type = true ∧ t.assignable b.type = true) := by
  constructor
  · intro built
    obtain ⟨truth, u, node, fits⟩ := condition_ok built
    cases node
    exact ⟨truth, fits⟩
  · rintro ⟨truth, fits⟩
    rw [condition, if_neg (not_not.2 truth), if_pos]
    by_cases nothing : t = .void
    · simp [nothing]
    · simp [fits nothing]

theorem invoke_eq_ok {f : Expr} {args : List Expr} {t : StaticType} :
    invoke f args = .ok (.invoke f args t) ↔
      ∃ params, (f.type = .func params t ∨ f.type = .pureFunc params t) ∧
        args.length = params.length ∧ misfit? params args = none := by
  constructor
  · intro built
    obtain ⟨params, result, callable, counted, fits, node⟩ := invoke_ok built
    cases node
    exact ⟨params, callable, counted, fits⟩
  · rintro ⟨params, callable | callable, counted, fits⟩ <;>
      · rw [invoke, callable]
        dsimp only
        rw [if_neg (not_not.2 counted), fits]

theorem label_eq_ok {l : LabelTarget} {d : Option Expr} {t : StaticType} :
    label l d = .ok (.label l d t) ↔
      t = l.type ∧ (d = none → l.type = .void) ∧
        ∀ a, d = some a → l.type.assignable a.type = true := by
  constructor
  · intro built
    obtain ⟨node, rest⟩ := label_ok built
    cases node
    exact ⟨rfl, rest⟩
  · rintro ⟨rfl, empty, fits⟩
    cases d with
    | none => rw [label, if_pos (empty rfl), empty rfl]
    | some a => rw [label, if_pos (fits a rfl)]

theorem goto_eq_ok {kind : GotoKind} {l : LabelTarget} {v : Option Expr} {t : StaticType} :
    goto kind l v t = .ok (.goto kind l v t) ↔
      (v = none → l.type = .void) ∧ ∀ a, v = some a → l.type.assignable a.type = true := by
  constructor
  · intro built
    exact (goto_ok built).2
  · rintro ⟨empty, fits⟩
    cases v with
    | none => rw [goto, if_pos (empty rfl)]
    | some a => rw [goto, if_pos (fits a rfl)]

theorem lambda_eq_ok {ps : List Expr} {a : Expr} {t : StaticType} :
    lambda ps a = .ok (.lambda ps a t) ↔
      t = .func (ps.map Expr.type) a.type ∧ ∀ p ∈ ps, ∃ q, p = .parameter q := by
  constructor
  · intro built
    obtain ⟨node, named⟩ := lambda_ok built
    cases node
    exact ⟨rfl, named⟩
  · rintro ⟨rfl, named⟩
    have clear : notParameter? ps = none := List.find?_eq_none.2 fun p member => by
      obtain ⟨q, rfl⟩ := named p member
      simp [parameter?]
    rw [lambda, clear]

end Build

namespace Expr

/-! ## Parts that can stand in for others -/

/-- Whether `b` can stand in the place of `a`: it has the same type, and is a variable if `a` is. -/
structure Stands (a b : Expr) : Prop where
  type : b.type = a.type
  named : a.parameter?.isSome = true → b.parameter?.isSome = true

theorem Stands.parameter {p : Parameter} {b : Expr} (fits : (Expr.parameter p).Stands b) :
    ∃ q, b = .parameter q ∧ q.type = p.type := by
  have named := fits.named rfl
  have typed := fits.type
  cases b with
  | parameter q => exact ⟨q, rfl, typed⟩
  | _ => cases named

/-- The arguments of a call are checked by their types. -/
theorem misfit?_map {f : Expr → Expr} : ∀ {params : List StaticType} {args : List Expr},
    (∀ a ∈ args, a.Stands (f a)) → Build.misfit? params (args.map f) = Build.misfit? params args
  | [], args, _ => by cases args <;> rfl
  | _ :: _, [], _ => rfl
  | t :: ts, a :: args, fits => by
    obtain ⟨first, rest⟩ := List.forall_mem_cons.1 fits
    rw [List.map_cons, Build.misfit?, Build.misfit?, first.type, misfit?_map rest]

/-! ## Checked nodes -/

/-- Whether a node passes the checks of its builder and has the type that the builder gives it. A cached
call is typed like a call of one argument, and a split operation like an operation. No builder gives a node from outside. -/
def Checked : Expr → Prop
  | constant v t => ∃ w, Build.constant w (some t) = .ok (constant v t)
  | parameter _ => True
  | unary op a t => Build.unary op a (some t) = .ok (unary op a t)
  | binary op a b t | parallel op a b t _ => Build.binary op a b = .ok (binary op a b t)
  | conditional test a b t => Build.condition test a b (some t) = .ok (conditional test a b t)
  | invoke f args t => Build.invoke f args = .ok (invoke f args t)
  | cached f a t _ => Build.invoke f [a] = .ok (invoke f [a] t)
  | member a n t => Build.member a n t = member a n t
  | hostCall f args t => Build.hostCall f args t = hostCall f args t
  | block vs es t => Build.block vs es (some t) = block vs es t
  | label l d t => Build.label l d = .ok (label l d t)
  | goto kind l v t => Build.goto kind l v t = .ok (goto kind l v t)
  | loop a b c t => Build.loop a b c = loop a b c t
  | lambda ps a t => Build.lambda ps a = .ok (lambda ps a t)
  | strange _ _ | bare _ => False

/-- The same node with `f` applied to each part. -/
def mapParts (f : Expr → Expr) : Expr → Expr
  | lambda ps a t => lambda (ps.map f) (f a) t
  | e => e.mapChildren f

/-- A node stays checked when its parts are replaced by others that fit. -/
theorem Checked.mapParts {f : Expr → Expr} {e : Expr} (checked : e.Checked)
    (fits : ∀ c ∈ e.parts, c.Stands (f c)) : (e.mapParts f).Checked := by
  -- what a builder asks of a node, it asks of the types of the parts, and of what is a parameter
  cases e with
  | constant | parameter | strange | bare | member | hostCall | block => first | exact checked | rfl
  | unary op a t =>
    have operand := fits a List.mem_cons_self
    rw [Checked, Build.unary_eq_ok] at checked
    show Build.unary op (f a) (some t) = .ok (unary op (f a) t)
    rwa [Build.unary_eq_ok, operand.type]
  | binary op a b t | parallel op a b t p =>
    have left := fits a List.mem_cons_self
    have right := fits b (List.mem_cons_of_mem _ List.mem_cons_self)
    rw [Checked, Build.binary_eq_ok] at checked
    show Build.binary op (f a) (f b) = .ok (binary op (f a) (f b) t)
    rw [Build.binary_eq_ok, left.type, right.type]
    split at checked
    -- an assignment asks for a parameter as its target, and that stays one
    next assignment =>
      obtain ⟨p, rfl, known, rfl⟩ := checked
      obtain ⟨q, same, typed⟩ := left.parameter
      rw [if_pos assignment, same]
      exact ⟨q, rfl, by rwa [typed], typed.symm⟩
    next assignment => rwa [if_neg assignment]
  | conditional test a b t =>
    have tested := fits test List.mem_cons_self
    have ifTrue := fits a (by simp [Expr.parts, children])
    have ifFalse := fits b (by simp [Expr.parts, children])
    rw [Checked, Build.condition_eq_ok] at checked
    show Build.condition (f test) (f a) (f b) (some t) = .ok (conditional (f test) (f a) (f b) t)
    rwa [Build.condition_eq_ok, tested.type, ifTrue.type, ifFalse.type]
  | invoke g args t =>
    have callee := fits g List.mem_cons_self
    have arguments := fun a member => fits a (List.mem_cons_of_mem g member)
    rw [Checked, Build.invoke_eq_ok] at checked
    show Build.invoke (f g) (args.map f) = .ok (invoke (f g) (args.map f) t)
    rw [Build.invoke_eq_ok, callee.type, List.length_map]
    simpa only [misfit?_map arguments] using checked
  | cached g a t c =>
    have callee := fits g List.mem_cons_self
    have arguments : ∀ x ∈ [a], x.Stands (f x) := fun x member => fits x (List.mem_cons_of_mem g member)
    rw [Checked, Build.invoke_eq_ok] at checked
    show Build.invoke (f g) ([a].map f) = .ok (invoke (f g) ([a].map f) t)
    rw [Build.invoke_eq_ok, callee.type, List.length_map]
    simpa only [misfit?_map arguments] using checked
  | label l d t =>
    rw [Checked, Build.label_eq_ok] at checked
    show Build.label l (d.map f) = .ok (label l (d.map f) t)
    rw [Build.label_eq_ok]
    cases d with
    | none => exact checked
    | some a =>
      have default := fits a List.mem_cons_self
      simpa [default.type] using checked
  | goto kind l v t =>
    rw [Checked, Build.goto_eq_ok] at checked
    show Build.goto kind l (v.map f) t = .ok (goto kind l (v.map f) t)
    rw [Build.goto_eq_ok]
    cases v with
    | none => exact checked
    | some a =>
      have value := fits a List.mem_cons_self
      simpa [value.type] using checked
  | loop a b c t =>
    cases checked
    rfl
  | lambda ps a t =>
    have bound : ∀ p ∈ ps, p.Stands (f p) := fun p member => fits p (List.mem_append_left _ member)
    have body := fits a (List.mem_append_right _ List.mem_cons_self)
    rw [Checked, Build.lambda_eq_ok] at checked
    obtain ⟨typed, named⟩ := checked
    show Build.lambda (ps.map f) (f a) = .ok (lambda (ps.map f) (f a) t)
    rw [Build.lambda_eq_ok, body.type, List.map_map]
    refine ⟨?_, fun p member => ?_⟩
    · rw [typed, List.map_congr_left fun p member => ((bound p member).type).symm]
      rfl
    · obtain ⟨p', inside, rfl⟩ := List.mem_map.1 member
      obtain ⟨q, rfl⟩ := named p' inside
      obtain ⟨q', same, -⟩ := (bound _ inside).parameter
      exact ⟨q', same⟩

/-! ## Well-typed trees -/

/-- Whether all nodes of a tree are checked. -/
def WellTyped (e : Expr) : Prop := ∀ x ∈ e.nodes, x.Checked

theorem wellTyped_iff {e : Expr} : e.WellTyped ↔ e.Checked ∧ ∀ c ∈ e.parts, c.WellTyped :=
  forall_mem_nodes_iff

end Expr

/-- The builders give well-typed trees. -/
theorem Built.wellTyped {e : Expr} (built : Built e) : e.WellTyped := by
  induction built with
  | constant built =>
    obtain ⟨w, coerced, rfl⟩ := Build.constant_eq_ok.1 built
    exact Expr.wellTyped_iff.2 ⟨⟨_, built⟩, List.forall_mem_nil _⟩
  | parameter p => exact Expr.wellTyped_iff.2 ⟨trivial, List.forall_mem_nil _⟩
  | unary _ built operand =>
    rcases Build.unary_ok built with ⟨t, -, rfl, rfl, -⟩ | ⟨s, other, rfl, rest⟩
    · exact Expr.wellTyped_iff.2 ⟨built, List.forall_mem_singleton.2 operand⟩
    -- another operator than a conversion may be built without its type, which is then that of the operand
    · refine Expr.wellTyped_iff.2 ⟨?_, List.forall_mem_singleton.2 operand⟩
      rw [Expr.Checked, Build.unary_eq_ok, if_neg (by rw [other]; decide)]
      exact ⟨s, rfl, rest⟩
  | @binary op a b e _ _ built left right =>
    have both : ∀ c ∈ [a, b], c.WellTyped :=
      List.forall_mem_cons.2 ⟨left, List.forall_mem_singleton.2 right⟩
    by_cases assignment : op = .assign
    · subst assignment
      obtain ⟨p, rfl, -, rfl⟩ := Build.assign_ok built
      exact Expr.wellTyped_iff.2 ⟨built, both⟩
    · obtain ⟨s, t, r, -, -, -, rfl⟩ := Build.binary_ok assignment built
      exact Expr.wellTyped_iff.2 ⟨built, both⟩
  | condition _ _ _ built tested ifTrue ifFalse =>
    obtain ⟨truth, t, rfl, fits⟩ := Build.condition_ok built
    have branches := List.forall_mem_cons.2 ⟨ifTrue, List.forall_mem_singleton.2 ifFalse⟩
    exact Expr.wellTyped_iff.2
      ⟨Build.condition_eq_ok.2 ⟨truth, fits⟩, List.forall_mem_cons.2 ⟨tested, branches⟩⟩
  | invoke _ _ built callee arguments =>
    obtain ⟨params, result, -, -, -, rfl⟩ := Build.invoke_ok built
    exact Expr.wellTyped_iff.2 ⟨built, List.forall_mem_cons.2 ⟨callee, arguments⟩⟩
  | member _ name type owner => exact Expr.wellTyped_iff.2 ⟨rfl, List.forall_mem_singleton.2 owner⟩
  | hostCall f _ type arguments => exact Expr.wellTyped_iff.2 ⟨rfl, arguments⟩
  | block vs _ type steps => exact Expr.wellTyped_iff.2 ⟨rfl, steps⟩
  | label _ built default =>
    obtain ⟨rfl, -⟩ := Build.label_ok built
    exact Expr.wellTyped_iff.2 ⟨built, fun c member => default c (Option.mem_toList.1 member)⟩
  | goto _ built value =>
    obtain ⟨rfl, -⟩ := Build.goto_ok built
    exact Expr.wellTyped_iff.2 ⟨built, fun c member => value c (Option.mem_toList.1 member)⟩
  | loop _ _ _ body => exact Expr.wellTyped_iff.2 ⟨rfl, List.forall_mem_singleton.2 body⟩
  | @lambda ps a e _ built body =>
    obtain ⟨rfl, parameters⟩ := Build.lambda_ok built
    refine Expr.wellTyped_iff.2 ⟨built, fun c member => ?_⟩
    rcases List.mem_append.1 member with bound | last
    · obtain ⟨q, rfl⟩ := parameters c bound
      exact Expr.wellTyped_iff.2 ⟨trivial, List.forall_mem_nil _⟩
    · rw [List.mem_singleton.1 last]
      exact body

/-- A well-typed tree without marks is one that the builders give. -/
theorem Expr.WellTyped.built {e : Expr} (typed : e.WellTyped) (ordinary : e.Ordinary) : Built e := by
  induction e using Expr.of_parts with
  | node e ih =>
    obtain ⟨checked, parts⟩ := Expr.wellTyped_iff.1 typed
    obtain ⟨here, rest⟩ := Expr.ordinary_iff.1 ordinary
    have below : ∀ c ∈ e.parts, Built c := fun c part => ih c part (parts c part) (rest c part)
    clear ih typed parts ordinary rest
    cases e with
    -- no builder makes these
    | cached | parallel | strange | bare => cases here
    | constant v t =>
      obtain ⟨w, built⟩ := checked
      exact .constant built
    | parameter p => exact .parameter p
    | unary op a t => exact .unary (below a List.mem_cons_self) checked
    | binary op a b t =>
      exact .binary (below a List.mem_cons_self) (below b (by simp [Expr.parts, Expr.children])) checked
    | conditional test a b t =>
      exact .condition (below test List.mem_cons_self) (below a (by simp [Expr.parts, Expr.children]))
        (below b (by simp [Expr.parts, Expr.children])) checked
    | invoke f args t =>
      exact .invoke (below f List.mem_cons_self) (fun a member => below a (List.mem_cons_of_mem f member))
        checked
    | member a n t => exact .member (below a List.mem_cons_self) n t
    | hostCall f args t => exact .hostCall f below t
    | block vs es t => exact .block vs below (some t)
    | label l d t =>
      exact .label (fun a given => below a (Option.mem_toList.2 given)) checked
    | goto kind l v t =>
      exact .goto (fun a given => below a (Option.mem_toList.2 given)) checked
    | loop a b c t => exact checked ▸ .loop (below a List.mem_cons_self) b c
    | lambda ps a t =>
      exact .lambda (below a (List.mem_append_right _ List.mem_cons_self)) checked

/-- The trees that the builders give are the well-typed trees without marks. -/
theorem built_iff {e : Expr} : Built e ↔ e.WellTyped ∧ e.Ordinary :=
  ⟨fun built => ⟨built.wellTyped, built.ordinary⟩, fun both => both.1.built both.2⟩

namespace Expr

/-! ## Substitution -/

section

variable {r : Substitution} {p q : Parameter}

/-- What a substitution of a variable for another makes of a node: the node over its marked parts, the
other variable, a cached call, or a split. -/
theorem marked_cases (replacement : r.replacement = .parameter q) (e : Expr) :
    e.marked r = e.mapParts (marked r) ∨
    (∃ x, e = parameter x ∧ r.placeholder.parameter? = some x ∧ e.marked r = parameter q) ∨
    (∃ f a t, e = invoke f [a] t ∧ e.marked r = cached (f.marked r) (a.marked r) t r.cache) ∨
    (∃ op a b t, e = binary op a b t ∧ e.isSplit = true ∧
      e.marked r = parallel op (a.marked r) (b.marked r) t r.pool) := by
  cases e with
  | parameter x =>
    rw [marked, replacement]
    split
    next found => exact .inr (.inl ⟨x, rfl, found, rfl⟩)
    next => exact .inl rfl
  | binary op a b t =>
    rw [marked]
    split
    next chosen =>
      exact .inr (.inr (.inr ⟨op, a, b, t, rfl, (Bool.and_eq_true_iff.1 chosen).2, rfl⟩))
    next => exact .inl rfl
  | invoke f args t =>
    by_cases single : args.length = 1
    · obtain ⟨a, rfl⟩ := List.length_eq_one_iff.1 single
      rw [marked]
      split
      next => exact .inr (.inr (.inl ⟨f, a, t, rfl, rfl⟩))
      next => exact .inl rfl
    · exact .inl (marked_invoke_other f single t)
  | hostCall | block | lambda => exact .inl (by simp only [marked, markedAll_eq]; rfl)
  | label | goto => exact .inl (by simp only [marked, markedOption_eq]; rfl)
  | _ => exact .inl rfl

theorem type_mapParts (f : Expr → Expr) (e : Expr) : (e.mapParts f).type = e.type := by
  cases e <;> rfl

/-- A substitution of a variable for another of its type keeps the type of a tree, and a variable
stays a variable. -/
theorem stands_marked (placeholder : r.placeholder = .parameter p)
    (replacement : r.replacement = .parameter q) (same : q.type = p.type) (e : Expr) :
    e.Stands (e.marked r) := by
  rcases marked_cases replacement e with plain | ⟨x, rfl, found, marked⟩ | ⟨f, a, t, rfl, marked⟩ |
    ⟨op, a, b, t, rfl, -, marked⟩
  · rw [plain]
    refine ⟨type_mapParts _ e, fun named => ?_⟩
    cases e with
    | parameter x => exact named
    | _ => cases named
  · rw [placeholder] at found
    cases found
    rw [marked]
    exact ⟨same, fun _ => rfl⟩
  · rw [marked]
    exact ⟨rfl, id⟩
  · rw [marked]
    exact ⟨rfl, id⟩

/-- A mark changes nothing in what is checked of a node. -/
theorem Checked.marked (replacement : r.replacement = .parameter q) {e : Expr}
    (checked : (e.mapParts (marked r)).Checked) : (e.marked r).Checked := by
  rcases marked_cases replacement e with plain | ⟨x, rfl, found, marked⟩ | ⟨f, a, t, rfl, marked⟩ |
    ⟨op, a, b, t, rfl, -, marked⟩
  · rwa [plain]
  · rw [marked]
    trivial
  · rw [marked]
    exact checked
  · rw [marked]
    exact checked

/-- A substitution of a variable for another of its type leaves a tree well typed. -/
theorem WellTyped.marked (placeholder : r.placeholder = .parameter p)
    (replacement : r.replacement = .parameter q) (same : q.type = p.type) {e : Expr}
    (typed : e.WellTyped) : (e.marked r).WellTyped := by
  intro x inside
  rw [nodes_marked replacement] at inside
  obtain ⟨y, member, rfl⟩ := List.mem_map.1 inside
  have checked := (typed y member).mapParts fun c _ => stands_marked placeholder replacement same c
  exact checked.marked replacement

end

/-! ## Passes -/

section

variable {P : Expr → Prop} {e : Expr}

/-- What holds of all nodes of the expressions of a block holds of those of the flattened block. -/
theorem all_splice {outer : StaticType} {es : List Expr} (all : ∀ e ∈ es, ∀ x ∈ e.nodes, P x) :
    ∀ e ∈ splice outer es, ∀ x ∈ e.nodes, P x := by
  intro c inside
  rcases mem_splice inside with old | ⟨inner, t, member, within, -⟩
  · exact all c old
  · exact (forall_mem_nodes_iff.1 (all _ member)).2 c within

/-- What holds of all nodes of a tree, and of any block, holds of all nodes when a rule is applied. -/
theorem all_rooted (block : ∀ vs es t, P (.block vs es t)) (all : ∀ x ∈ e.nodes, P x) :
    ∀ x ∈ e.rooted.nodes, P x := by
  have parts := forall_mem_nodes_iff.1 all
  rcases rooted_eq_or e with same | child | ⟨vs, es, t, rfl, flat⟩
  · rwa [same]
  · exact parts.2 _ (mem_parts_of_mem_children child)
  · rw [flat]
    exact forall_mem_nodes_iff.2 ⟨block vs _ t, all_splice parts.2⟩

/-- What holds of all nodes of a tree, of any block, and of a node over the passed children whenever it
holds of the node, holds of all nodes after a pass. -/
theorem all_passed (block : ∀ vs es t, P (.block vs es t))
    (rebuilt : ∀ e, P e → P (e.mapChildren passed)) (all : ∀ x ∈ e.nodes, P x) :
    ∀ x ∈ e.passed.nodes, P x := by
  induction e using of_children with
  | node e ih =>
    obtain ⟨here, parts⟩ := forall_mem_nodes_iff.1 all
    rw [passed_eq]
    refine all_rooted block (forall_mem_nodes_iff.2 ⟨rebuilt e here, fun c inside => ?_⟩)
    have children : ∀ c ∈ (e.mapChildren passed).children, ∀ x ∈ c.nodes, P x := by
      rw [children_mapChildren]
      intro c inside
      obtain ⟨d, child, rfl⟩ := List.mem_map.1 inside
      exact ih d child (parts d (mem_parts_of_mem_children child))
    cases e with
    | lambda ps a t =>
      -- the parameters are not gone through
      rcases List.mem_append.1 inside with bound | last
      · exact parts c (List.mem_append_left _ bound)
      · exact children c last
    | _ => exact children c inside

/-- So does it after any number of passes. -/
theorem all_iterate_passed (block : ∀ vs es t, P (.block vs es t))
    (rebuilt : ∀ e, P e → P (e.mapChildren passed)) (k : Nat) (all : ∀ x ∈ e.nodes, P x) :
    ∀ x ∈ (passed^[k] e).nodes, P x := by
  induction k generalizing e with
  | zero => exact all
  | succ k ih => exact ih (all_passed block rebuilt all)

end

theorem passed_parameter (p : Parameter) : (parameter p).passed = parameter p := rfl

/-- A pass keeps the type of a tree, and a variable stays a variable. -/
theorem stands_passed (e : Expr) : e.Stands e.passed := by
  refine ⟨type_passed e, fun named => ?_⟩
  cases e with
  | parameter p => exact named
  | _ => cases named

/-- A node stays checked when a pass goes through its children. -/
theorem Checked.passed {e : Expr} (checked : e.Checked) : (e.mapChildren passed).Checked := by
  have mapped := checked.mapParts fun c _ => stands_passed c
  cases e with
  | lambda ps a t =>
    -- a pass does not go through the parameters, and they are variables
    have same : ps.map Expr.passed = ps := by
      refine (List.map_congr_left fun p member => ?_).trans (List.map_id ps)
      obtain ⟨q, rfl⟩ := (Build.lambda_eq_ok.1 checked).2 p member
      exact passed_parameter q
    rw [Expr.mapParts, same] at mapped
    exact mapped
  | _ => exact mapped

/-- A tree stays well typed in any number of passes, and keeps its type. -/
theorem WellTyped.iterate_passed {e : Expr} (typed : e.WellTyped) (k : Nat) :
    (Expr.passed^[k] e).WellTyped ∧ (Expr.passed^[k] e).type = e.type := by
  refine ⟨all_iterate_passed (fun _ _ _ => rfl) (fun _ checked => checked.passed) k typed, ?_⟩
  clear typed
  induction k generalizing e with
  | zero => rfl
  | succ k ih => rw [Function.iterate_succ_apply, ih, type_passed]

/-- So does a reduction. -/
theorem WellTyped.reduce {e : Expr} (typed : e.WellTyped) (maxPasses : Int) :
    (e.reduce maxPasses).result.WellTyped ∧ (e.reduce maxPasses).result.type = e.type := by
  obtain ⟨k, result⟩ := reduce_eq_iterate e maxPasses
  rw [result]
  exact typed.iterate_passed k

/-- When a variable is put in the place of another of its type in a well-typed tree, with any options and
on top of any counts, the result is well typed and has the type of the tree, and so is it after any
number of passes. -/
theorem WellTyped.substitute_reduce {e : Expr} (typed : e.WellTyped) {r : Substitution}
    {p q : Parameter} (placeholder : r.placeholder = .parameter p)
    (replacement : r.replacement = .parameter q) (same : q.type = p.type)
    {tally tally' : Tally SubstitutionCount} {t : Expr}
    (done : e.substituteFrom r tally = .ok (t, tally')) :
    t.WellTyped ∧ t.type = e.type ∧ ∀ maxPasses : Int,
      (t.reduce maxPasses).result.WellTyped ∧ (t.reduce maxPasses).result.type = t.type := by
  obtain rfl : t = e.marked r := Substitution.only_visit placeholder done
  have result := typed.marked placeholder replacement same
  exact ⟨result, (stands_marked placeholder replacement same e).type, result.reduce⟩

/-- A call of a function that is not known yet, converted to the type that it has. -/
def idleCall : Expr :=
  .unary .convert (.invoke (.parameter Recursive.self) [.parameter Recursive.argument] (.value .int32))
    (.value .int32)

/-- The call gets cached when the function becomes known, and the conversion is dropped. -/
theorem WellTyped.substitute_reduce_idleCall :
    idleCall.WellTyped ∧ ∃ t tally, idleCall.substituteFrom Recursive.marking .empty = .ok (t, tally) ∧
      t.WellTyped ∧ t.type = idleCall.type ∧ ∀ maxPasses : Int,
        (t.reduce maxPasses).result.WellTyped ∧ (t.reduce maxPasses).result.type = t.type := by
  have call : Built (.invoke (.parameter Recursive.self) [.parameter Recursive.argument] (.value .int32)) :=
    .invoke (.parameter Recursive.self) (List.forall_mem_singleton.2 (.parameter Recursive.argument)) rfl
  have typed : idleCall.WellTyped :=
    (@Built.unary .convert _ (some (.value .int32)) idleCall call rfl).wellTyped
  have done : idleCall.substituteFrom Recursive.marking .empty = .ok (idleCall.marked Recursive.marking, _) := rfl
  exact ⟨typed, _, _, done,
    typed.substitute_reduce (p := Recursive.self) (q := Recursive.bound) rfl rfl rfl done⟩

end Expr

end Knot
