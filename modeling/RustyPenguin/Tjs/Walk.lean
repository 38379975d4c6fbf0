import RustyPenguin.Tjs.Interp

/-!
# What holds of a whole walk

A property of pieces of the walk, or a relation between the pieces of two walks over different
scopes, holds of the whole when it holds of the basic pieces and is kept by doing one piece after
another and by opening a scope. Statements may declare names in the scope they stand in and
expressions may not, so there are two properties, one for each, and the one of expressions is the
stronger.

`Walk` collects what has to be shown; `Walk.stmtStep` and `Walk.exprStep` are one level of the
walk, and `Walk.whole` is the walk, for properties that also hold of a piece that comes to no end.
-/

set_option autoImplicit false

namespace RustyPenguin.Tjs

variable {F E E' : Type} [Num64 F] [ScopeOps E (Value F)] [ScopeOps E' (Value F)]

variable (F) in
/-- A property `C` of statements and `D` of expressions that the walk keeps. -/
structure Walk (C D : ∀ {α : Type}, Eval E α → Eval E' α → Prop) : Prop where
  weaken : ∀ {α : Type} {x : Eval E α} {y : Eval E' α}, D x y → C x y
  value : ∀ {α : Type} (a : α), D (pure a : Eval E α) (pure a)
  lift : ∀ {α : Type} (r : Except String α), D (lift r : Eval E α) (lift r)
  bindC : ∀ {α β : Type} {x : Eval E α} {y : Eval E' α} {f : α → Eval E β} {g : α → Eval E' β},
    C x y → (∀ a, C (f a) (g a)) → C (x >>= f) (y >>= g)
  bindD : ∀ {α β : Type} {x : Eval E α} {y : Eval E' α} {f : α → Eval E β} {g : α → Eval E' β},
    D x y → (∀ a, D (f a) (g a)) → D (x >>= f) (y >>= g)
  tick : D (tick : Eval E Unit) tick
  print : ∀ line, D (print line : Eval E Unit) (print line)
  getVar : ∀ name, D (getVar name : Eval E (Option (Value F))) (getVar name)
  setVar : ∀ name (v : Value F), D (setVar name v : Eval E Unit) (setVar name v)
  declare : ∀ name (v : Value F), C (declare name v : Eval E Unit) (declare name v)
  scope : ∀ {α : Type} {x : Eval E α} {y : Eval E' α}, C x y → D (inScope F x) (inScope F y)

namespace Walk

variable {C D : ∀ {α : Type}, Eval E α → Eval E' α → Prop}

omit [Num64 F] in
theorem failure (walk : Walk F C D) {α : Type} (e : String) :
    D (.fail e : Eval E α) (.fail e) := walk.lift (.error e)

/-! ## Lists of pieces -/

omit [Num64 F] in
theorem hoist (walk : Walk F C D) (b : List (Stmt F)) : C (hoist b : Eval E Unit) (hoist b) := by
  induction b with
  | nil => exact walk.weaken (walk.value ())
  | cons s rest ih =>
    cases s with
    | func name params body => exact walk.bindC (walk.declare name _) fun _ => ih
    | expr e => exact ih
    | decl name init => exact ih
    | block b => exact ih
    | ifElse c thn els => exact ih
    | whileLoop c body => exact ih
    | forLoop init cond step body => exact ih
    | ret e => exact ih

section Level

variable {run : Stmt F → Eval E (Flow F)} {run' : Stmt F → Eval E' (Flow F)}
  {eval : Expr F → Eval E (Value F)} {eval' : Expr F → Eval E' (Value F)}

omit [Num64 F] in
theorem runAll (walk : Walk F C D) (stmts : ∀ s, C (run s) (run' s)) (b : List (Stmt F)) :
    C (runAll run b) (runAll run' b) := by
  induction b with
  | nil => exact walk.weaken (walk.value _)
  | cons s rest ih =>
    refine walk.bindC (stmts s) fun flow => ?_
    cases flow with
    | normal => exact ih
    | ret v => exact walk.weaken (walk.value _)

omit [Num64 F] in
theorem execBlock (walk : Walk F C D) (stmts : ∀ s, C (run s) (run' s)) (b : List (Stmt F)) :
    C (execBlock run b) (execBlock run' b) :=
  walk.bindC (walk.hoist b) fun _ => walk.runAll stmts b

omit [Num64 F] in
theorem evalAll (walk : Walk F C D) (exprs : ∀ e, D (eval e) (eval' e)) (es : List (Expr F)) :
    D (evalAll eval es) (evalAll eval' es) := by
  induction es with
  | nil => exact walk.value _
  | cons e rest ih =>
    refine walk.bindD (exprs e) fun v => ?_
    exact walk.bindD ih fun vs => walk.value _

omit [Num64 F] in
theorem declareParams (walk : Walk F C D) (params : List String) :
    ∀ argv : List (Value F), C (declareParams params argv : Eval E Unit) (declareParams params argv) := by
  induction params with
  | nil => intro argv; exact walk.weaken (walk.value ())
  | cons p params ih =>
    intro argv
    exact walk.bindC (walk.declare p _) fun _ => ih argv.tail

/-! ## Calls and assignments -/

omit [Num64 F] in
theorem callFunction (walk : Walk F C D) (stmts : ∀ s, C (run s) (run' s)) (d : FnDef F)
    (argv : List (Value F)) : D (callFunction run d argv) (callFunction run' d argv) := by
  have frame : C (do Tjs.declareParams d.params argv; Tjs.execBlock run d.body)
      (do Tjs.declareParams d.params argv; Tjs.execBlock run' d.body) :=
    walk.bindC (walk.declareParams d.params argv) fun _ => walk.execBlock stmts d.body
  refine walk.bindD (walk.scope frame) fun flow => ?_
  cases flow with
  | normal => exact walk.value _
  | ret v => exact walk.value _

theorem evalCall (walk : Walk F C D) (stmts : ∀ s, C (run s) (run' s))
    (exprs : ∀ e, D (eval e) (eval' e)) (callee : Expr F) (args : List (Expr F)) :
    D (evalCall run eval callee args) (evalCall run' eval' callee args) := by
  rw [Tjs.evalCall, Tjs.evalCall]
  by_cases console : isConsole callee = true
  · rw [if_pos console, if_pos console]
    refine walk.bindD (walk.evalAll exprs args) fun parts => ?_
    exact walk.bindD (walk.print _) fun _ => walk.value _
  · rw [if_neg console, if_neg console]
    refine walk.bindD (exprs callee) fun f => ?_
    cases f with
    | func d =>
      refine walk.bindD (walk.evalAll exprs args) fun argv => ?_
      exact walk.callFunction stmts d argv
    | num n => exact walk.failure _
    | str s => exact walk.failure _
    | bool b => exact walk.failure _
    | null => exact walk.failure _
    | array items => exact walk.failure _

theorem assignIndex (walk : Walk F C D) (exprs : ∀ e, D (eval e) (eval' e)) (base idx : Expr F)
    (v : Value F) : D (assignIndex eval base idx v) (assignIndex eval' base idx v) := by
  cases base with
  | ident iname =>
    refine walk.bindD (exprs idx) fun i => ?_
    cases i with
    | num n =>
      refine walk.bindD (walk.getVar iname) fun arr => ?_
      rcases arr with _ | arr
      · exact walk.failure _
      · cases arr with
        | array items =>
          simp only
          split
          · exact walk.failure _
          · exact walk.bindD (walk.setVar iname _) fun _ => walk.value v
        | num n => exact walk.failure _
        | str s => exact walk.failure _
        | bool b => exact walk.failure _
        | null => exact walk.failure _
        | func d => exact walk.failure _
    | str s => exact walk.failure _
    | bool b => exact walk.failure _
    | null => exact walk.failure _
    | array items => exact walk.failure _
    | func d => exact walk.failure _
  | num n => exact walk.failure _
  | str s => exact walk.failure _
  | bool b => exact walk.failure _
  | null => exact walk.failure _
  | array items => exact walk.failure _
  | index base idx => exact walk.failure _
  | unary op x => exact walk.failure _
  | bin op l r => exact walk.failure _
  | logic op l r => exact walk.failure _
  | assign target val => exact walk.failure _
  | call callee args => exact walk.failure _
  | member base name => exact walk.failure _

theorem assign (walk : Walk F C D) (exprs : ∀ e, D (eval e) (eval' e)) (target : Expr F)
    (v : Value F) : D (assign eval target v) (assign eval' target v) := by
  cases target with
  | ident name => exact walk.bindD (walk.setVar name v) fun _ => walk.value v
  | index base idx => exact walk.assignIndex exprs base idx v
  | num n => exact walk.failure _
  | str s => exact walk.failure _
  | bool b => exact walk.failure _
  | null => exact walk.failure _
  | array items => exact walk.failure _
  | unary op x => exact walk.failure _
  | bin op l r => exact walk.failure _
  | logic op l r => exact walk.failure _
  | assign target val => exact walk.failure _
  | call callee args => exact walk.failure _
  | member base name => exact walk.failure _

/-! ## One level -/

/-- **One level of an expression.** -/
theorem exprStep (walk : Walk F C D) (stmts : ∀ s, C (run s) (run' s))
    (exprs : ∀ e, D (eval e) (eval' e)) (e : Expr F) :
    D (exprStep run eval e) (exprStep run' eval' e) := by
  cases e with
  | num n => exact walk.value _
  | str s => exact walk.value _
  | bool b => exact walk.value _
  | null => exact walk.value _
  | ident name =>
    refine walk.bindD (walk.getVar name) fun v? => ?_
    cases v? with
    | some v => exact walk.value _
    | none => exact walk.failure _
  | array items => exact walk.bindD (walk.evalAll exprs items) fun vs => walk.value _
  | index base idx =>
    refine walk.bindD (exprs base) fun b => ?_
    exact walk.bindD (exprs idx) fun i => walk.lift _
  | unary op x => exact walk.bindD (exprs x) fun v => walk.lift _
  | bin op l r =>
    refine walk.bindD (exprs l) fun lv => ?_
    exact walk.bindD (exprs r) fun rv => walk.lift _
  | logic op l r =>
    refine walk.bindD (exprs l) fun lv => ?_
    cases op with
    | and =>
      simp only
      split
      · exact exprs r
      · exact walk.value _
    | or =>
      simp only
      split
      · exact walk.value _
      · exact exprs r
  | assign target val => exact walk.bindD (exprs val) fun v => walk.assign exprs target v
  | call callee args => exact walk.evalCall stmts exprs callee args
  | member base name => exact walk.bindD (exprs base) fun b => walk.lift _

omit [Num64 F] in
theorem evalOr (walk : Walk F C D) (exprs : ∀ e, D (eval e) (eval' e)) (e? : Option (Expr F)) :
    D (evalOr eval e?) (evalOr eval' e?) := by
  cases e? with
  | some e => exact exprs e
  | none => exact walk.value _

omit [Num64 F] in
theorem execOpt (walk : Walk F C D) (stmts : ∀ s, C (run s) (run' s)) (s? : Option (Stmt F)) :
    C (execOpt run s?) (execOpt run' s?) := by
  cases s? with
  | some s => exact walk.bindC (stmts s) fun _ => walk.weaken (walk.value ())
  | none => exact walk.weaken (walk.value ())

/-- **One level of a statement**, given its loops. -/
theorem stmtStep (walk : Walk F C D) {turns turns' : Nat} (stmts : ∀ s, C (run s) (run' s))
    (exprs : ∀ e, D (eval e) (eval' e))
    (whiles : ∀ c body, C (whileTurns (eval c) (run body) turns)
      (whileTurns (eval' c) (run' body) turns'))
    (fors : ∀ {go : Eval E Bool} {go' : Eval E' Bool} step body, D go go' →
      C (forTurns go (run body) (Tjs.execOpt run step) turns)
        (forTurns go' (run' body) (Tjs.execOpt run' step) turns')) (s : Stmt F) :
    C (stmtStep turns run eval s) (stmtStep turns' run' eval' s) := by
  cases s with
  | expr e => exact walk.bindC (walk.weaken (exprs e)) fun _ => walk.weaken (walk.value _)
  | decl name init =>
    refine walk.bindC (walk.weaken (walk.evalOr exprs init)) fun v => ?_
    exact walk.bindC (walk.declare name v) fun _ => walk.weaken (walk.value _)
  | block b => exact walk.weaken (walk.scope (walk.execBlock stmts b))
  | ifElse c thn els =>
    refine walk.bindC (walk.weaken (exprs c)) fun v => ?_
    split
    · exact stmts thn
    · cases els with
      | some e => exact stmts e
      | none => exact walk.weaken (walk.value _)
  | whileLoop c body => exact whiles c body
  | forLoop init cond step body =>
    refine walk.weaken (walk.scope (walk.bindC (walk.execOpt stmts init) fun _ => fors step body ?_))
    cases cond with
    | some c => exact walk.bindD (exprs c) fun v => walk.value _
    | none => exact walk.value _
  | func name params body =>
    exact walk.bindC (walk.declare name _) fun _ => walk.weaken (walk.value _)
  | ret e => exact walk.bindC (walk.weaken (walk.evalOr exprs e)) fun v => walk.weaken (walk.value _)

end Level

/-! ## The whole walk -/

section Whole

variable {cond : Eval E (Value F)} {cond' : Eval E' (Value F)} {body : Eval E (Flow F)}
  {body' : Eval E' (Flow F)}

theorem whileTurns (walk : Walk F C D) (stuck : ∀ {α : Type}, C (.stuck : Eval E α) .stuck)
    (cs : D cond cond') (bs : C body body') (turns : Nat) :
    C (whileTurns cond body turns) (whileTurns cond' body' turns) := by
  induction turns with
  | zero => exact stuck
  | succ turns ih =>
    refine walk.bindC (walk.weaken cs) fun c => ?_
    split
    · refine walk.bindC (walk.weaken walk.tick) fun _ => walk.bindC bs fun flow => ?_
      cases flow with
      | normal => exact ih
      | ret v => exact walk.weaken (walk.value _)
    · exact walk.weaken (walk.value _)

omit [Num64 F] in
theorem forTurns (walk : Walk F C D) (stuck : ∀ {α : Type}, C (.stuck : Eval E α) .stuck)
    {go : Eval E Bool} {go' : Eval E' Bool} {step : Eval E Unit} {step' : Eval E' Unit}
    (gs : D go go') (bs : C body body') (ss : C step step') (turns : Nat) :
    C (forTurns go body step turns) (forTurns go' body' step' turns) := by
  induction turns with
  | zero => exact stuck
  | succ turns ih =>
    refine walk.bindC (walk.weaken walk.tick) fun _ => walk.bindC (walk.weaken gs) fun b => ?_
    split
    · refine walk.bindC bs fun flow => ?_
      cases flow with
      | normal => exact walk.bindC ss fun _ => ih
      | ret v => exact walk.weaken (walk.value _)
    · exact walk.weaken (walk.value _)

/-- **The walk has the property** at every fuel, when a piece without an end has it. -/
theorem whole (walk : Walk F C D) (stuckC : ∀ {α : Type}, C (.stuck : Eval E α) .stuck)
    (stuckD : ∀ {α : Type}, D (.stuck : Eval E α) .stuck) (fuel : Nat) :
    (∀ s : Stmt F, C (exec fuel s : Eval E (Flow F)) (exec fuel s)) ∧
      ∀ e : Expr F, D (evalExpr fuel e : Eval E (Value F)) (evalExpr fuel e) := by
  induction fuel with
  | zero => exact ⟨fun _ => stuckC, fun _ => stuckD⟩
  | succ fuel ih =>
    obtain ⟨stmts, exprs⟩ := ih
    constructor
    · intro s
      refine walk.bindC (walk.weaken walk.tick) fun _ => walk.stmtStep stmts exprs ?_ ?_ s
      · intro c body
        exact walk.whileTurns stuckC (exprs c) (stmts body) fuel
      · intro go go' step body gs
        exact walk.forTurns stuckC gs (stmts body) (walk.execOpt stmts step) fuel
    · intro e
      exact walk.bindD walk.tick fun _ => walk.exprStep stmts exprs e

theorem program (walk : Walk F C D) {n n' : Nat}
    (stmts : ∀ s : Stmt F, C (exec n s : Eval E (Flow F)) (exec n' s)) (prog : List (Stmt F)) :
    C (run n prog : Eval E Unit) (run n' prog) := by
  refine walk.bindC (walk.hoist prog) fun _ => ?_
  exact walk.bindC (walk.runAll stmts prog) fun _ => walk.weaken (walk.value ())

end Whole

end Walk

end RustyPenguin.Tjs
