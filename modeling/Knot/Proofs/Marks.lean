import Knot.Proofs.Obstacles
import Knot.Proofs.Visits
import Mathlib.Algebra.GroupWithZero.Nat
import Mathlib.Data.List.Basic

/-!
# What a substitution marks

A substitution of one variable for another makes each node of the result from the node at the same
place of the tree (`Expr.marked`, `Expr.at?_marked`): other variables stay, and a call or an
operation may get a mark. So the marks can be erased again, and what is counted can be read off the
nodes of either tree (`Built.substitute_marks`).

What comes of a substitution is said once, for all trees (`Substitution.goes_visit`): it fails with the
first fault among the nodes, or else gives the marked tree and counts the nodes it is about.
-/

namespace Knot

namespace Expr

/-! ## Parts, nodes and places -/

/-- What a node is made of, in the order in which a substitution goes through it: its children, and
the parameters of a lambda before its body. The variables of a block are not expressions. -/
def parts : Expr → List Expr
  | lambda ps a _ => ps ++ [a]
  | e => e.children

/-- The children of a node are parts of it. -/
theorem mem_parts_of_mem_children {e c : Expr} (child : c ∈ e.children) : c ∈ e.parts := by
  cases e with
  | lambda ps a t => exact List.mem_append_right ps child
  | _ => exact child

theorem sizeOf_lt_of_mem_parts {e c : Expr} (part : c ∈ e.parts) : sizeOf c < sizeOf e := by
  cases e with
  | lambda ps a t =>
    rcases List.mem_append.1 part with inside | last
    · have less : sizeOf c < sizeOf ps := List.sizeOf_lt_of_mem inside
      simp only [lambda.sizeOf_spec]
      omega
    · rw [List.mem_singleton.1 last, lambda.sizeOf_spec]
      omega
  | _ => exact sizeOf_lt_of_mem_children part

/-- What passes from the parts of a node to the node holds of all trees. -/
theorem of_parts {P : Expr → Prop} (node : ∀ e : Expr, (∀ c ∈ e.parts, P c) → P e) (e : Expr) :
    P e :=
  node e fun c _ => of_parts node c
termination_by sizeOf e
decreasing_by exact sizeOf_lt_of_mem_parts ‹_›

/-- All nodes of a tree, each before its parts. -/
def nodes (e : Expr) : List Expr := e :: e.parts.attach.flatMap fun c => c.1.nodes
termination_by sizeOf e
decreasing_by exact sizeOf_lt_of_mem_parts c.2

theorem nodes_eq (e : Expr) : e.nodes = e :: e.parts.flatMap nodes := by
  rw [nodes, List.flatMap_subtype (g := nodes) fun _ _ => rfl, List.unattach_attach]

/-- What holds of all nodes of a tree holds of the tree, and of all nodes of its parts. -/
theorem forall_mem_nodes_iff {P : Expr → Prop} {e : Expr} :
    (∀ x ∈ e.nodes, P x) ↔ P e ∧ ∀ c ∈ e.parts, ∀ x ∈ c.nodes, P x := by
  rw [nodes_eq, List.forall_mem_cons, List.forall_mem_flatMap]

theorem mem_nodes_self (e : Expr) : e ∈ e.nodes := by
  rw [nodes_eq]
  exact List.mem_cons_self

/-- The nodes of a part are nodes of the tree. -/
theorem mem_nodes_of_part {e c x : Expr} (part : c ∈ e.parts) (inside : x ∈ c.nodes) : x ∈ e.nodes := by
  rw [nodes_eq]
  exact List.mem_cons_of_mem _ (List.mem_flatMap.2 ⟨c, part, inside⟩)

/-- The node at a place, given by which part to go to on the way down from the root. -/
def at? (e : Expr) : List Nat → Option Expr
  | [] => some e
  | i :: path => (e.parts[i]?).bind fun c => c.at? path

/-- The node at a place is one of the nodes. -/
theorem mem_nodes_of_at? {path : List Nat} : ∀ {e x : Expr}, e.at? path = some x → x ∈ e.nodes := by
  induction path with
  | nil =>
    rintro e x ⟨⟩
    exact e.mem_nodes_self
  | cons i path ih =>
    intro e x found
    obtain ⟨c, part, below⟩ := Option.bind_eq_some_iff.1 found
    exact mem_nodes_of_part (List.mem_of_getElem? part) (ih below)

/-! ## Marks -/

def isCached : Expr → Bool
  | cached _ _ _ _ => true
  | _ => false

def isParallel : Expr → Bool
  | parallel _ _ _ _ _ => true
  | _ => false

/-- A call of one argument. -/
def isSingleCall : Expr → Bool
  | invoke _ [_] _ => true
  | _ => false

/-- A call with arguments and a result of value types. -/
def isValueCall : Expr → Bool
  | invoke _ args t => callThreadable args t
  | _ => false

theorem isInvoke_of_isValueCall {e : Expr} (h : e.isValueCall = true) : e.isInvoke = true := by
  cases e with
  | invoke => rfl
  | _ => cases h

/-- An operation that may be split between two calls. -/
def isSplit : Expr → Bool
  | binary op a b _ => op.splittable && a.isValueCall && b.isValueCall
  | _ => false

theorem isParallel_iff {e : Expr} :
    e.isParallel = true ↔ ∃ op a b t pool, e = parallel op a b t pool := by
  cases e <;> simp [isParallel]

theorem isSplit_iff {e : Expr} :
    e.isSplit = true ↔ ∃ op a b t, e = binary op a b t ∧ op.splittable = true ∧
      a.isValueCall = true ∧ b.isValueCall = true := by
  cases e <;> simp [isSplit, and_assoc]

/-- A node that a substitution can go through. -/
def isOrdinary : Expr → Bool
  | cached _ _ _ _ | parallel _ _ _ _ _ | strange _ _ | bare _ => false
  | _ => true

/-- A tree that a substitution can go through. -/
def Ordinary (e : Expr) : Prop := ∀ x ∈ e.nodes, x.isOrdinary = true

/-- Such a tree has such a root, and its parts are such trees. -/
theorem ordinary_iff {e : Expr} :
    e.Ordinary ↔ e.isOrdinary = true ∧ ∀ c ∈ e.parts, c.Ordinary := forall_mem_nodes_iff

mutual

/-- A tree without its marks: a cached call is a call, a split operation an operation. -/
def erase : Expr → Expr
  | constant v t => constant v t
  | parameter p => parameter p
  | unary op a t => unary op a.erase t
  | binary op a b t | parallel op a b t _ => binary op a.erase b.erase t
  | conditional a b c t => conditional a.erase b.erase c.erase t
  | invoke f args t => invoke f.erase (eraseAll args) t
  | cached f a t _ => invoke f.erase [a.erase] t
  | member a n t => member a.erase n t
  | hostCall f args t => hostCall f (eraseAll args) t
  | block vs es t => block vs (eraseAll es) t
  | label l d t => label l (eraseOption d) t
  | goto k l v t => goto k l (eraseOption v) t
  | loop a b c t => loop a.erase b c t
  | lambda ps a t => lambda (eraseAll ps) a.erase t
  | strange v t => strange v t
  | bare t => bare t

def eraseAll : List Expr → List Expr
  | [] => []
  | e :: es => e.erase :: eraseAll es

def eraseOption : Option Expr → Option Expr
  | none => none
  | some e => some e.erase

end

attribute [simp] erase

theorem eraseAll_eq (es : List Expr) : eraseAll es = es.map erase := by
  induction es with
  | nil => rfl
  | cons e es ih => rw [eraseAll, ih, List.map_cons]

mutual

/-- What a substitution makes of a tree that it can go through. -/
def marked (r : Substitution) : Expr → Expr
  | constant v t => constant v t
  | parameter p => if r.placeholder.parameter? = some p then r.replacement else parameter p
  | unary op a t => unary op (a.marked r) t
  | binary op a b t =>
    if r.threading && (binary op a b t).isSplit then parallel op (a.marked r) (b.marked r) t r.pool
    else binary op (a.marked r) (b.marked r) t
  | conditional a b c t => conditional (a.marked r) (b.marked r) (c.marked r) t
  | invoke f [a] t =>
    if r.caching then cached (f.marked r) (a.marked r) t r.cache
    else invoke (f.marked r) [a.marked r] t
  | invoke f args t => invoke (f.marked r) (markedAll r args) t
  | member a n t => member (a.marked r) n t
  | hostCall f args t => hostCall f (markedAll r args) t
  | block vs es t => block vs (markedAll r es) t
  | label l d t => label l (markedOption r d) t
  | goto k l v t => goto k l (markedOption r v) t
  | loop a b c t => loop (a.marked r) b c t
  | lambda ps a t => lambda (markedAll r ps) (a.marked r) t
  | cached f a t c => cached (f.marked r) (a.marked r) t c
  | parallel op a b t p => parallel op (a.marked r) (b.marked r) t p
  | strange v t => strange v t
  | bare t => bare t

def markedAll (r : Substitution) : List Expr → List Expr
  | [] => []
  | e :: es => e.marked r :: markedAll r es

def markedOption (r : Substitution) : Option Expr → Option Expr
  | none => none
  | some e => some (e.marked r)

end

attribute [simp] marked

section

variable {r : Substitution}

theorem markedAll_eq (es : List Expr) : markedAll r es = es.map (marked r) := by
  induction es with
  | nil => rfl
  | cons e es ih => rw [markedAll, ih, List.map_cons]

theorem markedOption_eq (d : Option Expr) : markedOption r d = d.map (marked r) := by
  cases d <;> rfl

/-- A call of no or of several arguments gets no mark. -/
theorem marked_invoke_other (f : Expr) {args : List Expr} (several : args.length ≠ 1)
    (t : StaticType) :
    (invoke f args t).marked r = invoke (f.marked r) (args.map (marked r)) t := by
  rw [marked, markedAll_eq]
  rintro a rfl
  exact several rfl

/-- The parts of a marked node are its marked parts. -/
theorem parts_marked {q : Parameter} (replacement : r.replacement = .parameter q) (e : Expr) :
    (e.marked r).parts = e.parts.map (marked r) := by
  cases e with
  | parameter p =>
    rw [marked, replacement]
    split <;> rfl
  | binary op a b t =>
    rw [marked]
    split <;> rfl
  | invoke f args t =>
    by_cases single : args.length = 1
    · obtain ⟨a, rfl⟩ := List.length_eq_one_iff.1 single
      rw [marked]
      split <;> rfl
    · rw [marked_invoke_other f single]
      rfl
  | hostCall f args t => simp only [marked, markedAll_eq, parts, children]
  | block vs es t => simp only [marked, markedAll_eq, parts, children]
  | label l d t => cases d <;> rfl
  | goto k l v t => cases v <;> rfl
  | lambda ps a t =>
    simp only [marked, markedAll_eq, parts, List.map_append, List.map_cons, List.map_nil]
  | _ => rfl

/-- The node at a place of the result is made from the node at that place of the tree. -/
theorem at?_marked {q : Parameter} (replacement : r.replacement = .parameter q) (path : List Nat) :
    ∀ e : Expr, (e.marked r).at? path = (e.at? path).map (marked r) := by
  induction path with
  | nil => exact fun e => rfl
  | cons i path ih =>
    intro e
    rw [at?, at?, parts_marked replacement, List.getElem?_map]
    cases e.parts[i]? with
    | none => rfl
    | some c => exact ih c

theorem nodes_marked {q : Parameter} (replacement : r.replacement = .parameter q) (e : Expr) :
    (e.marked r).nodes = e.nodes.map (marked r) := by
  induction e using of_parts with
  | node e ih =>
    rw [nodes_eq, nodes_eq, parts_marked replacement, List.map_cons, List.map_flatMap,
      List.flatMap_map]
    exact congrArg _ (List.flatMap_congr ih)

/-! ## The mark of a node -/

theorem isCached_marked {q : Parameter} (replacement : r.replacement = .parameter q) {e : Expr}
    (ordinary : e.isOrdinary = true) : (e.marked r).isCached = (r.caching && e.isSingleCall) := by
  cases e with
  | parameter p =>
    rw [marked, replacement]
    split <;> simp [isCached, isSingleCall]
  | binary op a b t =>
    rw [marked]
    split <;> simp [isCached, isSingleCall]
  | invoke f args t =>
    by_cases single : args.length = 1
    · obtain ⟨a, rfl⟩ := List.length_eq_one_iff.1 single
      rw [marked]
      split <;> simp_all [isCached, isSingleCall]
    · rw [marked_invoke_other f single]
      match args, single with
      | [], _ | _ :: _ :: _, _ => simp [isCached, isSingleCall]
  | cached | parallel | strange | bare => cases ordinary
  | _ => simp [marked, isCached, isSingleCall]

theorem isParallel_marked {q : Parameter} (replacement : r.replacement = .parameter q) {e : Expr}
    (ordinary : e.isOrdinary = true) : (e.marked r).isParallel = (r.threading && e.isSplit) := by
  cases e with
  | parameter p =>
    rw [marked, replacement]
    split <;> simp [isParallel, isSplit]
  | binary op a b t =>
    rw [marked]
    split <;> simp_all [isParallel]
  | invoke f args t =>
    by_cases single : args.length = 1
    · obtain ⟨a, rfl⟩ := List.length_eq_one_iff.1 single
      rw [marked]
      split <;> simp [isParallel, isSplit]
    · rw [marked_invoke_other f single]
      simp [isParallel, isSplit]
  | cached | parallel | strange | bare => cases ordinary
  | _ => simp [marked, isParallel, isSplit]

/-- With caching, every call of one argument gets its mark. -/
theorem isSingleCall_marked {q : Parameter} (replacement : r.replacement = .parameter q)
    (caching : r.caching = true) (e : Expr) : (e.marked r).isSingleCall = false := by
  cases e with
  | parameter p =>
    rw [marked, replacement]
    split <;> rfl
  | binary op a b t =>
    rw [marked]
    split <;> rfl
  | invoke f args t =>
    by_cases single : args.length = 1
    · obtain ⟨a, rfl⟩ := List.length_eq_one_iff.1 single
      rw [marked, if_pos caching]
      rfl
    · rw [marked_invoke_other f single]
      match args, single with
      | [], _ | _ :: _ :: _, _ => rfl
  | _ => rfl

/-- Without its marks, the result is that of the substitution that marks nothing. -/
theorem erase_marked {p q : Parameter} (placeholder : r.placeholder = .parameter p)
    (replacement : r.replacement = .parameter q) (e : Expr) (ordinary : e.Ordinary) :
    (e.marked r).erase = e.marked (.plain (.parameter p) (.parameter q)) := by
  induction e using of_parts with
  | node e ih =>
    obtain ⟨here, parts⟩ := ordinary_iff.1 ordinary
    have below : ∀ c ∈ e.parts,
        (c.marked r).erase = c.marked (.plain (.parameter p) (.parameter q)) :=
      fun c part => ih c part (parts c part)
    -- parts come in lists and options as well
    have all : ∀ es : List Expr, (∀ c ∈ es, c ∈ e.parts) → eraseAll (markedAll r es) =
        markedAll (.plain (.parameter p) (.parameter q)) es := by
      intro es inside
      rw [eraseAll_eq, markedAll_eq, markedAll_eq, List.map_map]
      exact List.map_congr_left fun c member => below c (inside c member)
    have one : ∀ d : Option Expr, (∀ c ∈ d.toList, c ∈ e.parts) → eraseOption (markedOption r d) =
        markedOption (.plain (.parameter p) (.parameter q)) d := by
      intro d inside
      cases d with
      | none => rfl
      | some c => exact congrArg some (below c (inside c (Option.mem_toList.2 rfl)))
    clear ih ordinary parts
    cases e with
    | constant | cached | parallel | strange | bare => first | rfl | cases here
    | parameter x =>
      rw [marked, marked, placeholder, replacement]
      change Expr.erase (if some p = some x then _ else _) = if some p = some x then _ else _
      split <;> rfl
    | binary op a b t =>
      have left := below a List.mem_cons_self
      have right := below b (List.mem_cons_of_mem _ List.mem_cons_self)
      have erased : (Expr.binary op (a.marked r) (b.marked r) t).erase =
          (Expr.binary op a b t).marked (.plain (.parameter p) (.parameter q)) := by
        rw [erase, left, right]
        rfl
      rw [marked]
      -- whether the node becomes a split or stays as it is, the erasure is the same
      split <;> exact erased
    | invoke f args t =>
      have callee := below f List.mem_cons_self
      have arguments := all args fun c member => List.mem_cons_of_mem _ member
      by_cases single : args.length = 1
      · obtain ⟨a, rfl⟩ := List.length_eq_one_iff.1 single
        have erased : (Expr.invoke (f.marked r) [a.marked r] t).erase =
            (Expr.invoke f [a] t).marked (.plain (.parameter p) (.parameter q)) := by
          rw [erase, callee]
          exact congrArg (Expr.invoke _ · t) arguments
        rw [marked]
        split <;> exact erased
      · rw [marked_invoke_other f single, marked_invoke_other f single, erase, callee,
          ← markedAll_eq, arguments, markedAll_eq]
    | unary op a t => simp only [marked, erase, below a List.mem_cons_self]
    | conditional a b c t =>
      have test := below a List.mem_cons_self
      have ifTrue := below b (by simp [Expr.parts, children])
      have ifFalse := below c (by simp [Expr.parts, children])
      simp only [marked, erase, test, ifTrue, ifFalse]
    | member a n t => simp only [marked, erase, below a List.mem_cons_self]
    | hostCall f args t => simp only [marked, erase, all args fun c member => member]
    | block vs es t => simp only [marked, erase, all es fun c member => member]
    | label l d t => simp only [marked, erase, one d fun c member => member]
    | goto k l v t => simp only [marked, erase, one v fun c member => member]
    | loop a b c t => simp only [marked, erase, below a List.mem_cons_self]
    | lambda ps a t =>
      have bound := all ps fun c member => List.mem_append_left _ member
      have body := below a (List.mem_append_right _ List.mem_cons_self)
      simp only [marked, erase, bound, body]

end

end Expr

/-! ## Counting -/

namespace Substitution

/-- A computation that is not refused, gives a certain result, and raises each count by so much. -/
def Does {α : Type} (x : Counting α) (a : α) (raised : SubstitutionCount → Nat) : Prop :=
  ∀ tally, ∃ tally', x tally = .ok (a, tally') ∧ ∀ k, tally'.count k = tally.count k + raised k

namespace Does

variable {α β : Type}

theorem of_pure (a : α) : Does (pure a) a fun _ => 0 := fun tally => ⟨tally, rfl, fun _ => rfl⟩

theorem bind {x : Counting α} {a : α} {m : SubstitutionCount → Nat} {g : α → Counting β} {b : β}
    {n : SubstitutionCount → Nat} (first : Does x a m) (second : Does (g a) b n) :
    Does (x >>= g) b fun k => m k + n k := by
  intro tally
  obtain ⟨tally', done, counted⟩ := first tally
  obtain ⟨tally'', ended, recounted⟩ := second tally'
  refine ⟨tally'', ?_, fun k => by rw [recounted, counted, Nat.add_assoc]⟩
  simp only [Bind.bind, StateT.bind, Except.bind, done]
  exact ended

theorem count (k : SubstitutionCount) :
    Does (Substitution.count k) () fun l => if l = k then 1 else 0 :=
  fun tally => ⟨tally.raise k, rfl, fun l => tally.count_raise k l⟩

end Does

/-- Whether a node raises a count, in a substitution for the variable `p`. -/
def counts (r : Substitution) (p : Parameter) (e : Expr) : SubstitutionCount → Bool
  | .substitutions => e.parameter? = some p
  | .cachedInvocations => r.caching && e.isSingleCall
  | .parallelBinaries => r.threading && e.isSplit

/-- How many nodes of a tree raise a count. -/
def countIn (r : Substitution) (p : Parameter) (e : Expr) (k : SubstitutionCount) : Nat :=
  e.nodes.countP fun x => r.counts p x k

/-- How many nodes of several trees raise a count. -/
def countAmong (r : Substitution) (p : Parameter) (es : List Expr) (k : SubstitutionCount) : Nat :=
  (es.map fun e => r.countIn p e k).sum

section

variable {r : Substitution} {p : Parameter}

/-- A count over a tree is the root's share and that of its parts. -/
theorem countIn_eq (e : Expr) (k : SubstitutionCount) :
    r.countIn p e k = (if r.counts p e k then 1 else 0) + r.countAmong p e.parts k := by
  unfold countIn countAmong countIn
  rw [Expr.nodes_eq, List.countP_cons, List.countP_flatMap, Nat.add_comm]
  rfl

theorem countAmong_cons (e : Expr) (es : List Expr) (k : SubstitutionCount) :
    r.countAmong p (e :: es) k = r.countIn p e k + r.countAmong p es k := by
  simp [countAmong]

theorem countAmong_nil (k : SubstitutionCount) : r.countAmong p [] k = 0 := rfl

theorem countAmong_append (es fs : List Expr) (k : SubstitutionCount) :
    r.countAmong p (es ++ fs) k = r.countAmong p es k + r.countAmong p fs k := by
  simp [countAmong]

/-- The candidates for a split are the operations that may be split between two calls. -/
theorem splits_eq (op : BinaryOp) (a b : Expr) (t : StaticType) :
    r.splits op a b = (r.threading && (Expr.binary op a b t).isSplit) := by
  cases a <;> cases b <;>
    simp [splits, Expr.isInvoke, Expr.isSplit, Expr.isValueCall, Expr.splitThreadable,
      Expr.sideThreadable, Bool.and_assoc]

/-- A call stays a call, with a mark or without. -/
theorem isCall_marked {e : Expr} (call : e.isInvoke = true) : (e.marked r).isCall = true := by
  cases e with
  | invoke f args t =>
    by_cases single : args.length = 1
    · obtain ⟨a, rfl⟩ := List.length_eq_one_iff.1 single
      rw [Expr.marked]
      split <;> rfl
    · rw [Expr.marked_invoke_other f single]
      rfl
  | _ => cases call

end

/-! ## Faults -/

/-- The fault of a node by itself: a node that has a mark or is no expression is not gone through, and with
purity a member read has to be admitted. -/
def fault? (r : Substitution) (e : Expr) : Option Fault :=
  match e with
  | .member a n t => if r.purity && !r.rule.admits a.type t then some (.impureMember n a.type) else none
  | .cached _ _ _ _ | .parallel _ _ _ _ _ | .strange _ _ | .bare _ =>
    some (.unsupported (.substituting e.kind))
  | _ => none

/-- The first fault among the nodes of a tree. -/
def faultIn? (r : Substitution) (e : Expr) : Option Fault := e.nodes.findSome? r.fault?

/-- The first fault among the nodes of several trees. -/
def faultAmong? (r : Substitution) (es : List Expr) : Option Fault :=
  es.foldr (fun e rest => (r.faultIn? e).or rest) none

section

variable {r : Substitution} {p : Parameter}

theorem fault?_member (a : Expr) (n : String) (t : StaticType) :
    r.fault? (.member a n t) =
      if r.purity && !r.rule.admits a.type t then some (.impureMember n a.type) else none := rfl

theorem faultAmong?_append (es fs : List Expr) :
    r.faultAmong? (es ++ fs) = (r.faultAmong? es).or (r.faultAmong? fs) := by
  induction es with
  | nil => rfl
  | cons e es ih =>
    show (r.faultIn? e).or (r.faultAmong? (es ++ fs)) = _
    rw [ih, ← Option.or_assoc]
    rfl

/-- The first fault of a tree is that of the root, or else the first one of its parts. -/
theorem faultIn?_eq (e : Expr) : r.faultIn? e = (r.fault? e).or (r.faultAmong? e.parts) := by
  have among (es : List Expr) : (es.flatMap Expr.nodes).findSome? r.fault? = r.faultAmong? es := by
    induction es with
    | nil => rfl
    | cons c es ih =>
      rw [List.flatMap_cons, List.findSome?_append, ih]
      rfl
  rw [faultIn?, Expr.nodes_eq, List.findSome?_cons, among]
  cases r.fault? e <;> rfl

end

/-! ## Visits -/

/-- What a computation comes to: it fails with a certain fault, or gives a certain result and raises each count
by so much. -/
def Goes {α : Type} (x : Counting α) (refused : Option Fault) (a : α) (raised : SubstitutionCount → Nat) :
    Prop :=
  match refused with
  | some f => ∀ tally, x tally = .error f
  | none => Does x a raised

namespace Goes

variable {α β : Type} {x : Counting α} {a : α} {m : SubstitutionCount → Nat} {refused : Option Fault}

theorem of_pure (a : α) : Goes (pure a) none a fun _ => 0 := Does.of_pure a

theorem count (k : SubstitutionCount) :
    Goes (Substitution.count k) none () fun l => if l = k then 1 else 0 := Does.count k

/-- The second part is come to if the first one is not refused. -/
theorem bind {g : α → Counting β} {b : β} {n : SubstitutionCount → Nat} {after : Option Fault}
    (first : Goes x refused a m) (second : Goes (g a) after b n) :
    Goes (x >>= g) (refused.or after) b fun k => m k + n k := by
  cases refused with
  | some f =>
    intro tally
    show (x tally >>= _) = _
    rw [first tally]
    rfl
  | none =>
    cases after with
    | some f =>
      intro tally
      obtain ⟨tally', done, -⟩ := first tally
      show (x tally >>= _) = _
      rw [done]
      exact second tally'
    | none => exact Does.bind first second

/-- What follows without a fault of its own does not matter for the fault. -/
theorem andThen {g : α → Counting β} {b : β} {n : SubstitutionCount → Nat} (first : Goes x refused a m)
    (second : Goes (g a) none b n) : Goes (x >>= g) refused b fun k => m k + n k := by
  have both := first.bind second
  rwa [Option.or_none] at both

theorem congr {n : SubstitutionCount → Nat} (h : Goes x refused a m) (same : ∀ k, m k = n k) :
    Goes x refused a n := by
  rwa [← funext same]

variable {r : Substitution} {p : Parameter}

/-- What comes of a node, by itself and by its parts. -/
theorem node {x : Counting Expr} {e a : Expr} (h : Goes x ((r.fault? e).or (r.faultAmong? e.parts)) a m)
    (counted : ∀ k, m k = (if r.counts p e k then 1 else 0) + r.countAmong p e.parts k) :
    Goes x (r.faultIn? e) a (r.countIn p e) := by
  rw [faultIn?_eq]
  exact h.congr fun k => by rw [countIn_eq, counted]

/-- What comes of a node that raises no count by itself. -/
theorem quiet {x : Counting Expr} {e a : Expr} (h : Goes x ((r.fault? e).or (r.faultAmong? e.parts)) a m)
    (other : e.parameter? = none) (call : e.isSingleCall = false) (operation : e.isSplit = false)
    (counted : ∀ k, m k = r.countAmong p e.parts k) : Goes x (r.faultIn? e) a (r.countIn p e) := by
  refine h.node fun k => ?_
  have uncounted : r.counts p e k = false := by
    cases k <;> simp [counts, other, call, operation]
  rw [counted, uncounted, if_neg Bool.false_ne_true, Nat.zero_add]

end Goes

section

variable {r : Substitution} {p : Parameter}

theorem goes_visitAll {es : List Expr}
    (each : ∀ e ∈ es, Goes (r.visit e) (r.faultIn? e) (e.marked r) (r.countIn p e)) :
    Goes (r.visitAll es) (r.faultAmong? es) (es.map (Expr.marked r)) (r.countAmong p es) := by
  induction es with
  | nil =>
    rw [visitAll]
    exact .of_pure []
  | cons e es ih =>
    obtain ⟨first, rest⟩ := List.forall_mem_cons.1 each
    rw [visitAll]
    refine Goes.congr (first.bind ((ih rest).andThen (.of_pure _))) fun k => ?_
    rw [countAmong_cons, Nat.add_zero]

theorem goes_visitOption {d : Option Expr}
    (each : ∀ e ∈ d.toList, Goes (r.visit e) (r.faultIn? e) (e.marked r) (r.countIn p e)) :
    Goes (r.visitOption d) (r.faultAmong? d.toList) (d.map (Expr.marked r)) (r.countAmong p d.toList) := by
  cases d with
  | none =>
    rw [visitOption]
    exact .of_pure none
  | some e =>
    rw [visitOption]
    exact (each e List.mem_cons_self).bind (.of_pure _)

/-- A member read is checked before its owner is gone through. -/
theorem goes_checkMember (a : Expr) (n : String) (t : StaticType) :
    Goes (r.checkMember a n t) (r.fault? (.member a n t)) () fun _ => 0 := by
  rw [fault?_member, checkMember, PurityRule.check]
  cases r.purity with
  | false => exact .of_pure ()
  | true =>
    cases r.rule.admits a.type t with
    | false => exact fun _ => rfl
    | true => exact .of_pure ()

/-- A split is no fault: the operands of a candidate are calls still. -/
theorem goes_visit_binary (placeholder : r.placeholder = .parameter p) {op : BinaryOp} {a b : Expr}
    {t : StaticType} (left : Goes (r.visit a) (r.faultIn? a) (a.marked r) (r.countIn p a))
    (right : Goes (r.visit b) (r.faultIn? b) (b.marked r) (r.countIn p b)) :
    Goes (r.visit (.binary op a b t)) (r.faultIn? (.binary op a b t)) ((Expr.binary op a b t).marked r)
      (r.countIn p (.binary op a b t)) := by
  rw [visit_binary placeholder, splits_eq op a b t, Expr.marked]
  have parts (k : SubstitutionCount) : r.countAmong p (Expr.binary op a b t).parts k =
      r.countIn p a k + r.countIn p b k := by
    simp only [Expr.parts, Expr.children, countAmong_cons, countAmong_nil, Nat.add_zero]
  cases chosen : r.threading && (Expr.binary op a b t).isSplit with
  | true =>
    -- operands that are calls are so after the visit, so the split is made and not given up
    have calls : (a.marked r).isCall = true ∧ (b.marked r).isCall = true := by
      have candidate : r.splits op a b = true := (splits_eq op a b t).trans chosen
      simp only [splits, Bool.and_eq_true] at candidate
      exact ⟨isCall_marked candidate.1.1.2, isCall_marked candidate.1.2⟩
    have last : Goes (r.split op (a.marked r) (b.marked r) t) none
        (.parallel op (a.marked r) (b.marked r) t r.pool)
        (fun k => if k = .parallelBinaries then 1 else 0) := by
      rw [split, if_pos (Bool.and_eq_true_iff.2 calls)]
      exact Goes.congr ((Goes.count .parallelBinaries).bind (.of_pure _)) fun k => rfl
    refine Goes.node (left.bind (right.bind last)) fun k => ?_
    rw [parts]
    cases k <;> simp [counts, Expr.parameter?, Expr.isSingleCall, chosen]
    omega
  | false =>
    refine Goes.node (left.bind (right.bind (.of_pure _))) fun k => ?_
    rw [parts]
    cases k <;> simp [counts, Expr.parameter?, Expr.isSingleCall, chosen]

theorem goes_visit_invoke (placeholder : r.placeholder = .parameter p) {f : Expr} {args : List Expr}
    {t : StaticType} (callee : Goes (r.visit f) (r.faultIn? f) (f.marked r) (r.countIn p f))
    (arguments : ∀ a ∈ args, Goes (r.visit a) (r.faultIn? a) (a.marked r) (r.countIn p a)) :
    Goes (r.visit (.invoke f args t)) (r.faultIn? (.invoke f args t)) ((Expr.invoke f args t).marked r)
      (r.countIn p (.invoke f args t)) := by
  by_cases single : args.length = 1
  · obtain ⟨a, rfl⟩ := List.length_eq_one_iff.1 single
    have argument := arguments a List.mem_cons_self
    rw [visit_invoke placeholder, Expr.marked]
    have parts (k : SubstitutionCount) : r.countAmong p (Expr.invoke f [a] t).parts k =
        r.countIn p f k + r.countIn p a k := by
      simp only [Expr.parts, Expr.children, countAmong_cons, countAmong_nil, Nat.add_zero]
    cases caching : r.caching with
    | true =>
      refine Goes.node ((Goes.count .cachedInvocations).bind (callee.bind (argument.bind
        (.of_pure _)))) fun k => ?_
      rw [parts]
      cases k <;> simp [counts, Expr.parameter?, Expr.isSingleCall, Expr.isSplit, caching]
    | false =>
      refine Goes.node (callee.bind (argument.bind (.of_pure _))) fun k => ?_
      rw [parts]
      cases k <;> simp [counts, Expr.parameter?, Expr.isSingleCall, Expr.isSplit, caching]
  -- a call of several arguments, or of none, is never marked
  · rw [visit_invoke_other placeholder f single, Expr.marked_invoke_other f single]
    refine Goes.quiet (callee.bind ((goes_visitAll arguments).andThen (.of_pure _))) rfl ?_ rfl
      fun k => ?_
    · rcases args with _ | ⟨a, _ | ⟨b, more⟩⟩
      · rfl
      · exact absurd rfl single
      · rfl
    · simp only [Expr.parts, Expr.children, countAmong_cons, Nat.add_zero]

/-- What comes of a substitution for a variable: it fails with the first fault among the nodes of the tree, or
gives the marked tree and counts the nodes it is about. -/
theorem goes_visit (placeholder : r.placeholder = .parameter p) (e : Expr) :
    Goes (r.visit e) (r.faultIn? e) (e.marked r) (r.countIn p e) := by
  induction e using Expr.of_parts with
  | node e below =>
    cases e with
    | cached | parallel | strange | bare =>
      rw [faultIn?_eq]
      intro tally
      show (r.isPlaceholder _ >>= _) tally = _
      rw [isPlaceholder_other placeholder rfl]
      rfl
    | constant v t =>
      rw [visit_constant placeholder]
      exact Goes.quiet (.of_pure _) rfl rfl rfl fun k => rfl
    | parameter x =>
      rw [Expr.marked, placeholder]
      by_cases same : x = p
      · subst same
        have found : (Expr.parameter x).parameter? = some x := rfl
        rw [visit_placeholder placeholder, if_pos found]
        refine Goes.node ((Goes.count .substitutions).bind (.of_pure _)) fun k => ?_
        cases k <;> simp [counts, Expr.parameter?, Expr.isSingleCall, Expr.isSplit, Expr.parts,
          Expr.children, countAmong_nil]
      · have other : ¬ (Expr.parameter p).parameter? = some x := fun found =>
          same (Option.some.inj found).symm
        rw [visit_parameter placeholder same, if_neg other]
        refine Goes.node (.of_pure _) fun k => ?_
        cases k <;> simp [counts, Expr.parameter?, Expr.isSingleCall, Expr.isSplit, Expr.parts,
          Expr.children, countAmong_nil, same]
    | unary op a t =>
      rw [visit_unary placeholder]
      have operand := below a List.mem_cons_self
      exact Goes.quiet (operand.bind (.of_pure _)) rfl rfl rfl fun k => rfl
    | binary op a b t =>
      exact goes_visit_binary placeholder (below a List.mem_cons_self)
        (below b (List.mem_cons_of_mem _ List.mem_cons_self))
    | conditional a b c t =>
      rw [visit_conditional placeholder]
      have test := below a List.mem_cons_self
      have ifTrue := below b (by simp [Expr.parts, Expr.children])
      have ifFalse := below c (by simp [Expr.parts, Expr.children])
      exact Goes.quiet (test.bind (ifTrue.bind (ifFalse.bind (.of_pure _)))) rfl rfl rfl
        fun k => rfl
    | invoke f args t =>
      exact goes_visit_invoke placeholder (below f List.mem_cons_self)
        fun a member => below a (List.mem_cons_of_mem _ member)
    | member a n t =>
      rw [visit_member placeholder]
      have owner := below a List.mem_cons_self
      exact Goes.quiet ((goes_checkMember a n t).bind (owner.bind (.of_pure _))) rfl rfl rfl
        fun k => Nat.zero_add _
    | hostCall f args t =>
      rw [visit_hostCall placeholder, Expr.marked, Expr.markedAll_eq]
      exact Goes.quiet ((goes_visitAll below).andThen (.of_pure _)) rfl rfl rfl fun k => rfl
    | block vs es t =>
      rw [visit_block placeholder, Expr.marked, Expr.markedAll_eq]
      exact Goes.quiet ((goes_visitAll below).andThen (.of_pure _)) rfl rfl rfl fun k => rfl
    | label l d t =>
      rw [visit_label placeholder, Expr.marked, Expr.markedOption_eq]
      exact Goes.quiet ((goes_visitOption below).andThen (.of_pure _)) rfl rfl rfl fun k => rfl
    | goto kind l v t =>
      rw [visit_goto placeholder, Expr.marked, Expr.markedOption_eq]
      exact Goes.quiet ((goes_visitOption below).andThen (.of_pure _)) rfl rfl rfl fun k => rfl
    | loop a b c t =>
      rw [visit_loop placeholder]
      have body := below a List.mem_cons_self
      exact Goes.quiet (body.bind (.of_pure _)) rfl rfl rfl fun k => rfl
    | lambda ps a t =>
      rw [visit_lambda placeholder, Expr.marked, Expr.markedAll_eq]
      have bound := goes_visitAll fun c member => below c (List.mem_append_left _ member)
      have body := below a (List.mem_append_right _ List.mem_cons_self)
      -- the parameters are visited before the body, and so may be the first to fail
      refine Goes.quiet (m := fun k => r.countAmong p ps k + (r.countIn p a k + 0)) ?_ rfl rfl rfl
        fun k => ?_
      · show Goes _ (r.faultAmong? (ps ++ [a])) _ _
        rw [faultAmong?_append]
        exact bound.bind (body.bind (.of_pure _))
      · simp only [Expr.parts, countAmong_append, countAmong_cons, countAmong_nil, Nat.add_zero]

/-- Whatever a substitution for a variable asks of a tree, the tree that it gives is the marked one. -/
theorem only_visit (placeholder : r.placeholder = .parameter p) {e t : Expr} {tally tally' : Tally SubstitutionCount}
    (done : r.visit e tally = .ok (t, tally')) : t = e.marked r := by
  have goes := goes_visit placeholder e
  cases fault : r.faultIn? e with
  | some f =>
    rw [fault] at goes
    cases (goes tally).symm.trans done
  | none =>
    rw [fault] at goes
    obtain ⟨_, ended, -⟩ := goes tally
    cases ended.symm.trans done
    rfl

/-- Whether a substitution lets a node pass: with purity, a member read has to be admitted. -/
def Admits (r : Substitution) : Expr → Prop
  | .member a _ t => r.purity = true → r.rule.admits a.type t = true
  | _ => True

/-- Without purity every node passes. -/
theorem admits_of_lenient (lenient : r.purity = false) (e : Expr) : r.Admits e := by
  cases e with
  | member a n t => exact fun purity => absurd (lenient.symm.trans purity) (by decide)
  | _ => trivial

/-- A node without a mark that passes is no fault. -/
theorem fault?_eq_none {e : Expr} (ordinary : e.isOrdinary = true) (passes : r.Admits e) :
    r.fault? e = none := by
  cases e with
  | cached | parallel | strange | bare => cases ordinary
  | member a n t =>
    unfold fault?
    refine if_neg fun refused => ?_
    rw [Bool.and_eq_true, Bool.not_eq_true'] at refused
    rw [passes refused.1] at refused
    cases refused.2
  | _ => rfl

/-- A substitution for a variable that lets all nodes pass gives the marked tree and counts the nodes it
is about. -/
theorem does_visit_of_admits (placeholder : r.placeholder = .parameter p) (e : Expr)
    (ordinary : e.Ordinary) (admitted : ∀ x ∈ e.nodes, r.Admits x) :
    Does (r.visit e) (e.marked r) (r.countIn p e) := by
  have goes := goes_visit placeholder e
  have sound : r.faultIn? e = none := List.findSome?_eq_none_iff.2 fun x inside =>
    fault?_eq_none (ordinary x inside) (admitted x inside)
  rwa [sound] at goes

/-- A substitution for a variable that does not ask for purity gives the marked tree. -/
theorem does_visit (placeholder : r.placeholder = .parameter p) (lenient : r.purity = false)
    (e : Expr) (ordinary : e.Ordinary) : Does (r.visit e) (e.marked r) (r.countIn p e) :=
  does_visit_of_admits placeholder e ordinary fun x _ => admits_of_lenient lenient x

end

end Substitution

/-! ## Built trees -/

/-- The builders put in no marks. -/
theorem Built.ordinary {e : Expr} (h : Built e) : e.Ordinary := by
  induction h with
  | constant built =>
    obtain ⟨w, -, rfl⟩ := Build.constant_eq_ok.1 built
    exact Expr.ordinary_iff.2 ⟨rfl, List.forall_mem_nil _⟩
  | parameter p => exact Expr.ordinary_iff.2 ⟨rfl, List.forall_mem_nil _⟩
  | unary _ built operand =>
    rcases Build.unary_ok built with ⟨t, -, -, rfl, -⟩ | ⟨s, -, rfl, -⟩
    · exact Expr.ordinary_iff.2 ⟨rfl, List.forall_mem_singleton.2 operand⟩
    · exact Expr.ordinary_iff.2 ⟨rfl, List.forall_mem_singleton.2 operand⟩
  | @binary op a b e _ _ built left right =>
    have both : ∀ c ∈ [a, b], c.Ordinary :=
      List.forall_mem_cons.2 ⟨left, List.forall_mem_singleton.2 right⟩
    by_cases assignment : op = .assign
    · rw [Build.binary, if_pos assignment] at built
      obtain ⟨p, rfl, -, rfl⟩ := Build.assign_ok built
      exact Expr.ordinary_iff.2 ⟨rfl, both⟩
    · obtain ⟨s, t, r, -, -, -, rfl⟩ := Build.binary_ok assignment built
      exact Expr.ordinary_iff.2 ⟨rfl, both⟩
  | condition _ _ _ built tested ifTrue ifFalse =>
    obtain ⟨-, t, rfl, -⟩ := Build.condition_ok built
    have branches := List.forall_mem_cons.2 ⟨ifTrue, List.forall_mem_singleton.2 ifFalse⟩
    exact Expr.ordinary_iff.2 ⟨rfl, List.forall_mem_cons.2 ⟨tested, branches⟩⟩
  | invoke _ _ built callee arguments =>
    obtain ⟨params, result, -, -, -, rfl⟩ := Build.invoke_ok built
    exact Expr.ordinary_iff.2 ⟨rfl, List.forall_mem_cons.2 ⟨callee, arguments⟩⟩
  | member _ name type owner => exact Expr.ordinary_iff.2 ⟨rfl, List.forall_mem_singleton.2 owner⟩
  | hostCall f _ type arguments => exact Expr.ordinary_iff.2 ⟨rfl, arguments⟩
  | block vs _ type steps => exact Expr.ordinary_iff.2 ⟨rfl, steps⟩
  | label _ built default =>
    obtain ⟨rfl, -⟩ := Build.label_ok built
    exact Expr.ordinary_iff.2 ⟨rfl, fun c member => default c (Option.mem_toList.1 member)⟩
  | goto _ built value =>
    obtain ⟨rfl, -⟩ := Build.goto_ok built
    exact Expr.ordinary_iff.2 ⟨rfl, fun c member => value c (Option.mem_toList.1 member)⟩
  | loop _ _ _ body => exact Expr.ordinary_iff.2 ⟨rfl, List.forall_mem_singleton.2 body⟩
  | @lambda ps a e _ built body =>
    obtain ⟨rfl, parameters⟩ := Build.lambda_ok built
    refine Expr.ordinary_iff.2 ⟨rfl, fun c member => ?_⟩
    rcases List.mem_append.1 member with bound | last
    · obtain ⟨q, rfl⟩ := parameters c bound
      exact Expr.ordinary_iff.2 ⟨rfl, List.forall_mem_nil _⟩
    · rw [List.mem_singleton.1 last]
      exact body

/-- That a substitution for the variable `p` does no more to a tree `e` than the one that marks
nothing does, apart from its marks, and counts what it does. -/
structure Expr.MarksOnly (r : Substitution) (p : Parameter) (e marked plain : Expr)
    (tally : Tally SubstitutionCount) : Prop where
  /-- Without the marks, the two results are the same tree. -/
  erased : marked.erase = plain
  /-- With caching, no call of one argument is left. -/
  noSingleCall : r.caching = true → ∀ x ∈ marked.nodes, x.isSingleCall = false
  cachedInvocations : tally.count .cachedInvocations = marked.nodes.countP isCached
  /-- The splits are, place by place, the operations of the tree whose operator can be split and
  whose operands are calls with arguments and results of value types; without threading there are
  none. -/
  splits : ∀ path, (∃ op a b t pool, marked.at? path = some (.parallel op a b t pool)) ↔
    r.threading = true ∧ ∃ op a b t, e.at? path = some (.binary op a b t) ∧
      op.splittable = true ∧ a.isValueCall = true ∧ b.isValueCall = true
  parallelBinaries : tally.count .parallelBinaries = marked.nodes.countP isParallel
  /-- They are as many as the operations of the tree that are to be split. -/
  splitsCounted : tally.count .parallelBinaries = e.nodes.countP fun x => r.threading && x.isSplit
  /-- Every occurrence of the placeholder is counted, as a parameter of a lambda too. -/
  substitutions : tally.count .substitutions = e.nodes.countP fun x => x.parameter? = some p

/-- A substitution of a variable for a variable, with any choice of marks and purity not asked for,
is not refused on a built tree, and only marks what the substitution without marks gives. -/
theorem Built.substitute_marks {e : Expr} (built : Built e) {p q : Parameter} {r : Substitution}
    (placeholder : r.placeholder = .parameter p) (replacement : r.replacement = .parameter q)
    (lenient : r.purity = false) :
    ∃ marked tally plain tally',
      e.substitute r = .ok (marked, tally) ∧
      e.substitute (.plain (.parameter p) (.parameter q)) = .ok (plain, tally') ∧
      Expr.MarksOnly r p e marked plain tally := by
  have ordinary := built.ordinary
  obtain ⟨tally, done, counted⟩ := Substitution.does_visit placeholder lenient e ordinary .empty
  obtain ⟨tally', done', -⟩ :=
    @Substitution.does_visit (.plain (.parameter p) (.parameter q)) p rfl rfl e ordinary .empty
  -- the tally starts empty, so it ends with what the tree is counted to have
  have count (k : SubstitutionCount) : tally.count k = e.nodes.countP fun x => r.counts p x k := by
    rw [counted, Tally.count_empty, Nat.zero_add, Substitution.countIn]
  refine ⟨_, tally, _, tally', done, done', ?_⟩
  constructor
  case erased => exact Expr.erase_marked placeholder replacement e ordinary
  case noSingleCall =>
    intro caching x inside
    -- each node of the result is the mark of one of the tree
    rw [Expr.nodes_marked replacement] at inside
    obtain ⟨y, -, rfl⟩ := List.mem_map.1 inside
    exact Expr.isSingleCall_marked replacement caching y
  case cachedInvocations =>
    rw [count, Expr.nodes_marked replacement, List.countP_map]
    exact List.countP_congr fun x inside => by
      simp [Substitution.counts, Expr.isCached_marked replacement (ordinary x inside)]
  case splitsCounted => exact count .parallelBinaries
  case parallelBinaries =>
    rw [count, Expr.nodes_marked replacement, List.countP_map]
    exact List.countP_congr fun x inside => by
      simp [Substitution.counts, Expr.isParallel_marked replacement (ordinary x inside)]
  case substitutions => exact count .substitutions
  case splits =>
    intro path
    rw [Expr.at?_marked replacement]
    cases found : e.at? path with
    | none => simp
    | some x =>
      have mark := Expr.isParallel_marked replacement (ordinary x (Expr.mem_nodes_of_at? found))
      have both : (x.marked r).isParallel = true ↔ r.threading = true ∧ x.isSplit = true := by
        rw [mark, Bool.and_eq_true]
      simp only [Option.map_some, Option.some.injEq]
      rw [← Expr.isParallel_iff, ← Expr.isSplit_iff]
      exact both

namespace Recursive

/-- A function that is defined, its argument, and the variable that the function becomes. -/
def self : Parameter := ⟨"f", .func [.value .int32] (.value .int32), 1⟩
def argument : Parameter := ⟨"n", .value .int32, 2⟩
def bound : Parameter := ⟨"f", .func [.value .int32] (.value .int32), 3⟩

/-- The substitution of the variable for the function, with caching and threading. -/
def marking : Substitution := ⟨.parameter self, .parameter bound, true, true, false, false, none, none⟩

end Recursive

/-- The sum of two calls of a function that is not known yet. -/
def twoCalls : Expr :=
  let call := Expr.invoke (.parameter Recursive.self) [.parameter Recursive.argument] (.value .int32)
  .binary .add call call (.value .int32)

/-- With caching and threading, both calls of a sum get cached and the sum is split between them. -/
theorem Built.substitute_marks_twoCalls :
    Built twoCalls ∧ ∃ marked tally plain tally',
      twoCalls.substitute Recursive.marking = .ok (marked, tally) ∧
      twoCalls.substitute (.plain (.parameter Recursive.self) (.parameter Recursive.bound)) =
        .ok (plain, tally') ∧
      Expr.MarksOnly Recursive.marking Recursive.self twoCalls marked plain tally := by
  have call : Built (.invoke (.parameter Recursive.self) [.parameter Recursive.argument] (.value .int32)) :=
    .invoke (.parameter Recursive.self) (List.forall_mem_singleton.2 (.parameter Recursive.argument)) rfl
  have built : Built twoCalls := @Built.binary .add _ _ _ call call rfl
  exact ⟨built, @Built.substitute_marks _ built _ _ Recursive.marking rfl rfl rfl⟩

end Knot
