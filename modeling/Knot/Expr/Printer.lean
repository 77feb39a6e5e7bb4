import Knot.Expr
import Knot.Fault
import Knot.Value.Text

/-!
# Expressions as text

`Expr.format` writes a tree compactly, for logs: operators between their operands, blocks in
braces, marked nodes behind `memo` or `par`. It needs a name for every parameter of a lambda and
fails on a tree whose lambda has lost one. `Expr.written` is the full form of a node with the
names of its parts.
-/

namespace Knot

/-- The name of a jump target in a formatted expression. -/
def LabelTarget.plain (l : LabelTarget) : String :=
  (if l.name = "" then "L" else l.name) ++ toString l.uid

namespace Expr

/-- The name that a node goes by among the parameters of a lambda. -/
def name? : Expr → Option String
  | parameter p => some p.name
  | member _ n _ => some n
  | _ => none

/-- The names of the parameters of a lambda. -/
def parameterNames (parameters : List Expr) : Except Fault (List String) :=
  parameters.mapM fun p => match p.name? with
    | some n => .ok n
    | none => .error .noMember

/-- The declarations of a block's variables. -/
def declarations (locals : List Parameter) : String :=
  String.join (locals.map fun v => "var " ++ v.name ++ "; ")

/-! ## The compact form -/

mutual

/-- The compact form of a tree. -/
def format : Expr → Except Fault String
  | constant v _ | strange v _ => v.value.plain
  | parameter p => .ok p.name
  | unary op a t => do
    let a ← a.format
    if op.isConversion then pure ("(" ++ t.text ++ ")" ++ a)
    else pure ((if op = .not then "!" else "-") ++ a)
  | binary op a b _ => do
    let a ← a.format
    let b ← b.format
    pure ("(" ++ a ++ " " ++ op.symbol ++ " " ++ b ++ ")")
  | parallel op a b _ _ => do
    let a ← a.format
    let b ← b.format
    pure ("par (" ++ a ++ " " ++ op.symbol ++ " " ++ b ++ ")")
  | conditional a b c _ => do
    let a ← a.format
    let b ← b.format
    let c ← c.format
    pure ("(" ++ a ++ " ? " ++ b ++ " : " ++ c ++ ")")
  | invoke f args _ => do
    let args ← formatAll args
    let f ← f.format
    pure (f ++ "(" ++ ", ".intercalate args ++ ")")
  | cached f a _ _ => do
    let f ← f.format
    let a ← a.format
    pure ("memo " ++ f ++ "(" ++ a ++ ")")
  | member a n _ => do
    let a ← a.format
    pure (a ++ "." ++ n)
  | hostCall f args _ => do
    let args ← formatAll args
    pure (f.shownName ++ "(" ++ ", ".intercalate args ++ ")")
  | block vs es _ => do
    let es ← formatAll es
    pure ("\x7b " ++ declarations vs ++ "; ".intercalate es ++ " \x7d")
  | loop a _ _ _ => do
    let a ← a.format
    pure ("loop " ++ a)
  | label l d _ => do
    let d ← formatOption d
    pure (l.plain ++ ":" ++ d)
  | goto k l v _ => do
    let v ← formatOption v
    pure (k.word ++ " " ++ l.plain ++ v)
  | lambda ps a _ => do
    let ps ← parameterNames ps
    let a ← a.format
    pure ("(" ++ ", ".intercalate ps ++ ") => " ++ a)
  | bare t => .ok ("Bare(type=" ++ t.text ++ ")")

/-- The compact forms of several trees. -/
def formatAll : List Expr → Except Fault (List String)
  | [] => .ok []
  | e :: es => do
    let first ← e.format
    let rest ← formatAll es
    pure (first :: rest)

/-- The compact form of a tree behind a space, or nothing. -/
def formatOption : Option Expr → Except Fault String
  | none => .ok ""
  | some e => do
    let text ← e.format
    pure (" " ++ text)

end

/-! ## The full form -/

/-- A node's name with its fields. -/
def fields (name : String) (parts : List (String × String)) : String :=
  name ++ "(" ++ ", ".intercalate (parts.map fun (field, text) => field ++ "=" ++ text) ++ ")"

/-- A sequence in parentheses; one element has a comma of its own. -/
def sequence : List String → String
  | [one] => "(" ++ one ++ ",)"
  | many => "(" ++ ", ".intercalate many ++ ")"

/-- A member of a numbered family of names. -/
def choice (family name : String) (number : Nat) : String :=
  "<" ++ family ++ "." ++ name ++ ": " ++ toString number ++ ">"

/-- The full form of a binary operation, marked or not. -/
def binaryFields (name : String) (op : BinaryOp) (left right : String) (t : StaticType) : String :=
  fields name [("op", choice "BinaryOp" op.name op.number), ("left", left), ("right", right),
    ("type", t.text)]

end Expr

/-- The full form of a variable. -/
def Parameter.written (p : Parameter) : String :=
  "Parameter(" ++ p.name ++ "#" ++ toString p.uid ++ ": " ++ p.type.text ++ ")"

/-- The full form of a jump target. -/
def LabelTarget.written (l : LabelTarget) : String :=
  Expr.fields "LabelTarget"
    [("name", quoted l.name), ("type", l.type.text), ("uid", toString l.uid)]

/-- The full form of a jump target that may be absent. -/
def LabelTarget.writtenOption : Option LabelTarget → String
  | none => "None"
  | some l => l.written

namespace Expr

mutual

/-- The full form of a node. -/
def written : Expr → Except Fault String
  | constant v t => do
    let v ← v.value.written
    pure (fields "Constant" [("value", v), ("type", t.text)])
  | strange v t => do
    let v ← v.value.written
    pure (fields "Strange" [("value", v), ("type", t.text)])
  | bare t => .ok (fields "Bare" [("type", t.text)])
  | parameter p => .ok p.written
  | unary op a t => do
    let a ← a.written
    pure (fields "Unary" [("op", choice "UnaryOp" op.name op.number), ("operand", a),
      ("type", t.text)])
  | binary op a b t => do
    let a ← a.written
    let b ← b.written
    pure (binaryFields "Binary" op a b t)
  | parallel op a b t _ => do
    let a ← a.written
    let b ← b.written
    pure (binaryFields "ParallelBinary" op a b t)
  | conditional a b c t => do
    let a ← a.written
    let b ← b.written
    let c ← c.written
    pure (fields "Conditional" [("test", a), ("if_true", b), ("if_false", c), ("type", t.text)])
  | invoke f args t => do
    let f ← f.written
    let args ← writtenAll args
    pure (fields "Invoke" [("callee", f), ("arguments", sequence args), ("type", t.text)])
  | cached f a t _ => do
    let f ← f.written
    let a ← a.written
    pure (fields "CacheLookup" [("callee", f), ("argument", a), ("type", t.text)])
  | member a n t => do
    let a ← a.written
    pure (fields "Member" [("obj", a), ("name", quoted n), ("type", t.text)])
  | hostCall f args t => do
    let f ← (Value.host f).written
    let args ← writtenAll args
    pure (fields "HostCall" [("function", f), ("arguments", sequence args), ("type", t.text)])
  | block vs es t => do
    let es ← writtenAll es
    pure (fields "Block" [("variables", sequence (vs.map Parameter.written)),
      ("expressions", sequence es), ("type", t.text)])
  | label l d t => do
    let d ← writtenOption d
    pure (fields "Label" [("target", l.written), ("default", d), ("type", t.text)])
  | goto k l v t => do
    let v ← writtenOption v
    pure (fields "Goto" [("kind", choice "GotoKind" k.name k.number), ("target", l.written),
      ("value", v), ("type", t.text)])
  | loop a b c t => do
    let a ← a.written
    pure (fields "Loop" [("body", a), ("break_label", LabelTarget.writtenOption b),
      ("continue_label", LabelTarget.writtenOption c), ("type", t.text)])
  | lambda ps a t => do
    let ps ← writtenAll ps
    let a ← a.written
    pure (fields "Lambda" [("parameters", sequence ps), ("body", a), ("type", t.text)])

/-- The full forms of several nodes. -/
def writtenAll : List Expr → Except Fault (List String)
  | [] => .ok []
  | e :: es => do
    let first ← e.written
    let rest ← writtenAll es
    pure (first :: rest)

/-- The full form of a node that may be absent. -/
def writtenOption : Option Expr → Except Fault String
  | none => .ok "None"
  | some e => e.written

end

end Expr

end Knot
