import RustyPenguin.Tjs.Value

/-!
# The interpreter

A tree walk over statements and expressions. Every statement and every expression takes a tick
of the step budget before anything else, and so does every turn of a loop; when the budget is
used up the tick is an error. A function is called in a fresh scope on top of the scopes of its
caller.

The walk is over fuel, one unit for each level of statements and expressions within each other
and for each turn of a loop. Without fuel it comes to no end. The scopes are a parameter: what
the walk needs of them is `ScopeOps`.
-/

set_option autoImplicit false

namespace RustyPenguin.Tjs

/-- A stack of scopes. An operation that has no answer comes to no end. -/
class ScopeOps (E V : Type) where
  push : E → E
  pop : E → E
  declare : E → String → V → Option E
  get : E → String → Option (Option V)
  set : E → String → V → Option (Option E)

structure Interp (E : Type) where
  env : E
  out : List String
  steps : Nat
  maxSteps : Nat

/-- A piece of the walk. -/
abbrev Eval (E α : Type) : Type := Act (Interp E) String α

variable {F E α : Type} [Num64 F] [ScopeOps E (Value F)]

def stepLimit : String := "tjs: step limit exceeded (possible infinite loop)"

def tick : Eval E Unit := fun s =>
  let s := { s with steps := s.steps + 1 }
  if s.steps > s.maxSteps then some (.error stepLimit, s) else some (.ok (), s)

/-- A result of an operation on values. -/
def lift (r : Except String α) : Eval E α := fun s => some (r, s)

def declare (name : String) (v : Value F) : Eval E Unit := fun s =>
  (ScopeOps.declare s.env name v).map fun env => (.ok (), { s with env := env })

def getVar (name : String) : Eval E (Option (Value F)) := fun s =>
  (ScopeOps.get s.env name).map fun v? => (.ok v?, s)

def setVar (name : String) (v : Value F) : Eval E Unit := fun s =>
  (ScopeOps.set s.env name v).map fun env? =>
    match env? with
    | some env => (.ok (), { s with env := env })
    | none => (.error ("tjs: assignment to undeclared '" ++ name ++ "'"), s)

def print (line : String) : Eval E Unit := fun s =>
  some (.ok (), { s with out := s.out ++ [line] })

variable (F) in
/-- In a scope of its own, dropped whatever the result. -/
def inScope (x : Eval E α) : Eval E α := fun s =>
  (x { s with env := ScopeOps.push (Value F) s.env }).map fun (r, s') =>
    (r, { s' with env := ScopeOps.pop (Value F) s'.env })

/-- The function declarations among statements, declared before anything else. -/
def hoist : List (Stmt F) → Eval E Unit
  | [] => pure ()
  | .func name params body :: rest => do
    declare name (.func ⟨params, body⟩)
    hoist rest
  | _ :: rest => hoist rest

/-- Statements one after the other, up to a return. -/
def runAll (run : Stmt F → Eval E (Flow F)) : List (Stmt F) → Eval E (Flow F)
  | [] => pure .normal
  | s :: rest => do
    match ← run s with
    | .ret v => pure (.ret v)
    | .normal => runAll run rest

def execBlock (run : Stmt F → Eval E (Flow F)) (b : List (Stmt F)) : Eval E (Flow F) := do
  hoist b
  runAll run b

def evalAll (eval : Expr F → Eval E (Value F)) : List (Expr F) → Eval E (List (Value F))
  | [] => pure []
  | e :: rest => do
    let v ← eval e
    let vs ← evalAll eval rest
    pure (v :: vs)

/-- The turns of a while loop. -/
def whileTurns (cond : Eval E (Value F)) (body : Eval E (Flow F)) : Nat → Eval E (Flow F)
  | 0 => .stuck
  | turns + 1 => do
    let c ← cond
    if c.truthy then
      tick
      match ← body with
      | .ret v => pure (.ret v)
      | .normal => whileTurns cond body turns
    else pure .normal

/-- The turns of a for loop. -/
def forTurns (cond : Eval E Bool) (body : Eval E (Flow F)) (step : Eval E Unit) :
    Nat → Eval E (Flow F)
  | 0 => .stuck
  | turns + 1 => do
    tick
    let go ← cond
    if go then
      match ← body with
      | .ret v => pure (.ret v)
      | .normal =>
        step
        forTurns cond body step turns
    else pure .normal

/-- The parameters, each with its argument or null. -/
def declareParams : List String → List (Value F) → Eval E Unit
  | [], _ => pure ()
  | p :: params, argv => do
    declare p (argv.head?.getD .null)
    declareParams params argv.tail

/-- A function called with the values of its arguments: a new call frame on top. -/
def callFunction (run : Stmt F → Eval E (Flow F)) (d : FnDef F) (argv : List (Value F)) :
    Eval E (Value F) := do
  let flow ← inScope F (do
    declareParams d.params argv
    execBlock run d.body)
  match flow with
  | .ret v => pure v
  | .normal => pure .null

/-- The special form of `console.log`, `console.error` and `console.warn`. -/
def isConsole : Expr F → Bool
  | .member (.ident o) m => o == "console" && (m == "log" || m == "error" || m == "warn")
  | _ => false

def evalCall (run : Stmt F → Eval E (Flow F)) (eval : Expr F → Eval E (Value F)) (callee : Expr F)
    (args : List (Expr F)) : Eval E (Value F) :=
  if isConsole callee then do
    let parts ← evalAll eval args
    print (String.intercalate " " (parts.map Value.display))
    pure .null
  else do
    let f ← eval callee
    match f with
    | .func d =>
      let argv ← evalAll eval args
      callFunction run d argv
    | _ => .fail "tjs: attempt to call a non-function"

/-- An element of a named array replaced. -/
def assignIndex (eval : Expr F → Eval E (Value F)) (base idx : Expr F) (v : Value F) :
    Eval E (Value F) :=
  match base with
  | .ident iname => do
    let i ← eval idx
    match i with
    | .num n =>
      let arr ← getVar iname
      match arr with
      | some (.array items) =>
        if Num64.toInt64 n < 0 then .fail "tjs: negative array index"
        else do
          setVar iname (.array (setItem items (Num64.toInt64 n).toNat v))
          pure v
      | _ => .fail "tjs: index-assign to non-array"
    | _ => .fail "tjs: array index must be a number"
  | _ => .fail "tjs: unsupported assignment target"

def assign (eval : Expr F → Eval E (Value F)) (target : Expr F) (v : Value F) :
    Eval E (Value F) :=
  match target with
  | .ident name => do
    setVar name v
    pure v
  | .index base idx => assignIndex eval base idx v
  | _ => .fail "tjs: invalid assignment target"

/-- What an expression does after its tick. -/
def exprStep (run : Stmt F → Eval E (Flow F)) (eval : Expr F → Eval E (Value F)) :
    Expr F → Eval E (Value F)
  | .num n => pure (.num n)
  | .str s => pure (.str s)
  | .bool b => pure (.bool b)
  | .null => pure .null
  | .ident name => do
    let v? ← getVar name
    match v? with
    | some v => pure v
    | none => .fail ("tjs: undefined variable '" ++ name ++ "'")
  | .array items => do
    let vs ← evalAll eval items
    pure (.array vs)
  | .index base idx => do
    let b ← eval base
    let i ← eval idx
    lift (indexValue b i)
  | .member base name => do
    let b ← eval base
    lift (memberValue b name)
  | .unary op x => do
    let v ← eval x
    lift (unop op v)
  | .logic op l r => do
    let lv ← eval l
    match op with
    | .and => if lv.truthy then eval r else pure lv
    | .or => if lv.truthy then pure lv else eval r
  | .bin op l r => do
    let lv ← eval l
    let rv ← eval r
    lift (binop op lv rv)
  | .assign target val => do
    let v ← eval val
    assign eval target v
  | .call callee args => evalCall run eval callee args

/-- The value of an expression that may be missing. -/
def evalOr (eval : Expr F → Eval E (Value F)) (e? : Option (Expr F)) : Eval E (Value F) :=
  match e? with
  | some e => eval e
  | none => pure .null

/-- A statement that may be missing, whose return is not looked at. -/
def execOpt (run : Stmt F → Eval E (Flow F)) (s? : Option (Stmt F)) : Eval E Unit :=
  match s? with
  | some s => do
    let _ ← run s
    pure ()
  | none => pure ()

def execFor (turns : Nat) (run : Stmt F → Eval E (Flow F)) (eval : Expr F → Eval E (Value F))
    (init : Option (Stmt F)) (cond : Option (Expr F)) (step : Option (Stmt F)) (body : Stmt F) :
    Eval E (Flow F) := do
  execOpt run init
  let go : Eval E Bool :=
    match cond with
    | some c => do
      let v ← eval c
      pure v.truthy
    | none => pure true
  forTurns go (run body) (execOpt run step) turns

/-- What a statement does after its tick. -/
def stmtStep (turns : Nat) (run : Stmt F → Eval E (Flow F)) (eval : Expr F → Eval E (Value F)) :
    Stmt F → Eval E (Flow F)
  | .expr e => do
    let _ ← eval e
    pure .normal
  | .decl name init => do
    let v ← evalOr eval init
    declare name v
    pure .normal
  | .block b => inScope F (execBlock run b)
  | .ifElse c thn els => do
    let v ← eval c
    if v.truthy then run thn
    else
      match els with
      | some e => run e
      | none => pure .normal
  | .whileLoop c body => whileTurns (eval c) (run body) turns
  | .forLoop init cond step body => inScope F (execFor turns run eval init cond step body)
  | .func name params body => do
    declare name (.func ⟨params, body⟩)
    pure .normal
  | .ret e => do
    let v ← evalOr eval e
    pure (.ret v)

mutual

def exec : Nat → Stmt F → Eval E (Flow F)
  | 0, _ => .stuck
  | fuel + 1, s => do
    tick
    stmtStep fuel (exec fuel) (evalExpr fuel) s

def evalExpr : Nat → Expr F → Eval E (Value F)
  | 0, _ => .stuck
  | fuel + 1, e => do
    tick
    exprStep (exec fuel) (evalExpr fuel) e

end

/-- A program: its functions are declared first, and a return at the top ends it. -/
def run (fuel : Nat) (prog : List (Stmt F)) : Eval E Unit := do
  hoist prog
  let _ ← runAll (exec fuel) prog
  pure ()

end RustyPenguin.Tjs
