import RustyPenguin.Foundation.Act

/-!
# Programs and values of TernaryJS

The syntax trees the parser builds, the values programs compute, and the operations on values.
Numbers are the machine's floating point numbers; they enter as a type with the operations the
interpreter uses, about which nothing is assumed. All comparisons go through one three-way
comparison.
-/

set_option autoImplicit false

namespace RustyPenguin.Tjs

/-- Floating point numbers, as far as the interpreter uses them. -/
class Num64 (F : Type) where
  neg : F → F
  add : F → F → F
  sub : F → F → F
  mul : F → F → F
  div : F → F → F
  trunc : F → F
  lt : F → F → Bool
  eq : F → F → Bool
  isNan : F → Bool
  ofNat : Nat → F
  /-- Truncated, and cut to 64 signed bits. -/
  toInt64 : F → Int
  fmtNum : F → String

inductive UnOp where
  | neg
  | not
  deriving DecidableEq

inductive BinOp where
  | add
  | sub
  | mul
  | div
  | mod
  | lt
  | le
  | gt
  | ge
  | eqLoose
  | neLoose
  | eqStrict
  | neStrict
  deriving DecidableEq

inductive LogicOp where
  | and
  | or
  deriving DecidableEq

inductive Expr (F : Type) where
  | num (n : F)
  | str (s : String)
  | bool (b : Bool)
  | null
  | ident (name : String)
  | array (items : List (Expr F))
  | index (base idx : Expr F)
  | unary (op : UnOp) (x : Expr F)
  | bin (op : BinOp) (l r : Expr F)
  | logic (op : LogicOp) (l r : Expr F)
  | assign (target val : Expr F)
  | call (callee : Expr F) (args : List (Expr F))
  | member (base : Expr F) (name : String)

inductive Stmt (F : Type) where
  | expr (e : Expr F)
  | decl (name : String) (init : Option (Expr F))
  | block (b : List (Stmt F))
  | ifElse (c : Expr F) (thn : Stmt F) (els : Option (Stmt F))
  | whileLoop (c : Expr F) (body : Stmt F)
  | forLoop (init : Option (Stmt F)) (cond : Option (Expr F)) (step : Option (Stmt F))
      (body : Stmt F)
  | func (name : String) (params : List String) (body : List (Stmt F))
  | ret (e : Option (Expr F))

structure FnDef (F : Type) where
  params : List String
  body : List (Stmt F)

inductive Value (F : Type) where
  | num (n : F)
  | str (s : String)
  | bool (b : Bool)
  | null
  | array (items : List (Value F))
  | func (d : FnDef F)

/-- How a statement ends. -/
inductive Flow (F : Type) where
  | normal
  | ret (v : Value F)

variable {F : Type} [Num64 F]

namespace Value

def truthy : Value F → Bool
  | .num n => !Num64.eq n (Num64.ofNat 0) && !Num64.isNan n
  | .str s => !s.isEmpty
  | .bool b => b
  | .null => false
  | .array _ => true
  | .func _ => true

omit [Num64 F] in
def typeTag : Value F → Nat
  | .num _ => 0
  | .str _ => 1
  | .bool _ => 2
  | .null => 3
  | .array _ => 4
  | .func _ => 5

mutual

def display : Value F → String
  | .num n => Num64.fmtNum n
  | .str s => s
  | .bool b => if b then "true" else "false"
  | .null => "null"
  | .array items => displayItems items
  | .func _ => "[function]"

/-- With commas between. -/
def displayItems : List (Value F) → String
  | [] => ""
  | [v] => v.display
  | v :: w :: rest => v.display ++ "," ++ displayItems (w :: rest)

end

end Value

/-- The three-way comparison: minus one, zero or one. -/
def cmp3 : Value F → Value F → Except String Int
  | .num x, .num y => .ok (if Num64.lt x y then -1 else if Num64.lt y x then 1 else 0)
  | .str x, .str y => .ok (if x < y then -1 else if y < x then 1 else 0)
  | .bool x, .bool y => .ok ((if x then 1 else 0) - (if y then 1 else 0))
  | .null, .null => .ok 0
  | _, _ => .error "tjs: cannot compare values of different types"

/-- Compared as equal, where a failed comparison is not. -/
def isZero : Except String Int → Bool
  | .ok c => c == 0
  | .error _ => false

def eqLoose (a b : Value F) : Bool :=
  if a.typeTag = b.typeTag then isZero (cmp3 a b)
  else
    match a, b with
    | .num x, .bool y => Num64.eq x (Num64.ofNat (if y then 1 else 0))
    | .bool y, .num x => Num64.eq x (Num64.ofNat (if y then 1 else 0))
    | _, _ => false

def eqStrict (a b : Value F) : Bool := a.typeTag = b.typeTag && isZero (cmp3 a b)

def arith (op : F → F → F) : Value F → Value F → Except String (Value F)
  | .num a, .num b => .ok (.num (op a b))
  | _, _ => .error "tjs: arithmetic on non-numbers"

def binop (op : BinOp) (l r : Value F) : Except String (Value F) :=
  match op with
  | .add =>
    match l, r with
    | .num a, .num b => .ok (.num (Num64.add a b))
    | .str _, _ => .ok (.str (l.display ++ r.display))
    | _, .str _ => .ok (.str (l.display ++ r.display))
    | _, _ => .error "tjs: '+' on incompatible types"
  | .sub => arith Num64.sub l r
  | .mul => arith Num64.mul l r
  | .div => arith Num64.div l r
  | .mod => arith (fun a b => Num64.sub a (Num64.mul b (Num64.trunc (Num64.div a b)))) l r
  | .lt => (cmp3 l r).map fun c => .bool (c < 0)
  | .le => (cmp3 l r).map fun c => .bool (c ≤ 0)
  | .gt => (cmp3 l r).map fun c => .bool (c > 0)
  | .ge => (cmp3 l r).map fun c => .bool (c ≥ 0)
  | .eqLoose => .ok (.bool (eqLoose l r))
  | .neLoose => .ok (.bool (!eqLoose l r))
  | .eqStrict => .ok (.bool (eqStrict l r))
  | .neStrict => .ok (.bool (!eqStrict l r))

def unop (op : UnOp) (v : Value F) : Except String (Value F) :=
  match op with
  | .neg =>
    match v with
    | .num n => .ok (.num (Num64.neg n))
    | _ => .error "tjs: unary '-' on non-number"
  | .not => .ok (.bool (!v.truthy))

/-- The element at an index, and null outside. -/
def indexValue : Value F → Value F → Except String (Value F)
  | .array a, .num n =>
    let k := Num64.toInt64 n
    .ok (if k < 0 then .null else (a[k.toNat]?).getD .null)
  | .str s, .num n =>
    let k := Num64.toInt64 n
    .ok (if k < 0 then .null else ((s.toList[k.toNat]?).map fun c => .str c.toString).getD .null)
  | _, _ => .error "tjs: invalid index operation"

def memberValue (v : Value F) (name : String) : Except String (Value F) :=
  match v with
  | .array a => if name = "length" then .ok (.num (Num64.ofNat a.length)) else noMember name
  | .str s => if name = "length" then .ok (.num (Num64.ofNat s.length)) else noMember name
  | _ => noMember name
where
  noMember (name : String) : Except String (Value F) :=
    .error ("tjs: no member '" ++ name ++ "' on value")

/-- An array with the element at an index replaced, and nulls up to it. -/
def setItem (items : List (Value F)) (k : Nat) (v : Value F) : List (Value F) :=
  (items ++ List.replicate (k + 1 - items.length) Value.null).set k v

end RustyPenguin.Tjs
