import RustyPenguin.Tjs.Walk

/-!
# Scopes

The environment is a stack of scopes, the innermost first. A name is declared in the innermost
scope, and looked up and assigned in the innermost scope that has it, whoever opened that scope.

The walk leaves the stack as deep as it was, whatever the result, and changes it by assignments
to declared names alone, and, for a statement, by declarations in the scope it stands in.
-/

set_option autoImplicit false

namespace RustyPenguin.Tjs

variable {V : Type}

/-- The names declared in a scope, with their values. -/
abbrev Scope (V : Type) : Type := List (String × V)

namespace Scope

def find (name : String) : Scope V → Option V
  | [] => none
  | (n, v) :: rest => if n = name then some v else find name rest

/-- The value of a declared name replaced. -/
def put (name : String) (v : V) : Scope V → Option (Scope V)
  | [] => none
  | (n, w) :: rest => if n = name then some ((n, v) :: rest) else (put name v rest).map ((n, w) :: ·)

/-- Declared again is overwritten. -/
def declare (name : String) (v : V) (sc : Scope V) : Scope V :=
  match put name v sc with
  | some sc' => sc'
  | none => sc ++ [(name, v)]

end Scope

/-- Lookup in a stack of scopes. -/
def lookup (name : String) : List (Scope V) → Option V
  | [] => none
  | sc :: rest =>
    match sc.find name with
    | some v => some v
    | none => lookup name rest

/-- Assignment in a stack of scopes. -/
def update (name : String) (v : V) : List (Scope V) → Option (List (Scope V))
  | [] => none
  | sc :: rest =>
    match sc.put name v with
    | some sc' => some (sc' :: rest)
    | none => (update name v rest).map (sc :: ·)

structure Env (V : Type) where
  scopes : List (Scope V)

namespace Env

/-- One empty scope. -/
def new : Env V where
  scopes := [[]]

def push (env : Env V) : Env V where
  scopes := [] :: env.scopes

def pop (env : Env V) : Env V where
  scopes := env.scopes.tail

/-- Without a scope there is no place for a name. -/
def declare (env : Env V) (name : String) (v : V) : Option (Env V) :=
  match env.scopes with
  | [] => none
  | top :: rest => some ⟨top.declare name v :: rest⟩

def get (env : Env V) (name : String) : Option V := lookup name env.scopes

def set (env : Env V) (name : String) (v : V) : Option (Env V) :=
  (update name v env.scopes).map fun scopes => ⟨scopes⟩

def depth (env : Env V) : Nat := env.scopes.length

end Env

instance : ScopeOps (Env V) V where
  push := Env.push
  pop := Env.pop
  declare := Env.declare
  get env name := some (env.get name)
  set env name v := some (env.set name v)

/-! ## What the walk may do to the scopes -/

/-- An assignment to a declared name. -/
def Assigns (env env' : Env V) : Prop := ∃ name v, env.set name v = some env'

/-- A declaration in the innermost scope. -/
def Declares (env env' : Env V) : Prop := ∃ name v, env.declare name v = some env'

/-- Changed by assignments to declared names. -/
abbrev Assigned : Env V → Env V → Prop := Relation.ReflTransGen Assigns

/-- Changed by assignments to declared names and declarations in the innermost scope. -/
abbrev Edited : Env V → Env V → Prop :=
  Relation.ReflTransGen fun env env' => Assigns env env' ∨ Declares env env'

theorem length_update {name : String} {v : V} {scs scs' : List (Scope V)}
    (done : update name v scs = some scs') : scs'.length = scs.length := by
  induction scs generalizing scs' with
  | nil => cases done
  | cons sc rest ih =>
    rw [update] at done
    split at done
    · cases done
      rfl
    · obtain ⟨rest', later, rfl⟩ := Option.map_eq_some_iff.mp done
      exact congrArg Nat.succ (ih later)

theorem Assigns.depth {env env' : Env V} (assigns : Assigns env env') : env'.depth = env.depth := by
  obtain ⟨name, v, done⟩ := assigns
  obtain ⟨scs, updated, rfl⟩ := Option.map_eq_some_iff.mp done
  exact length_update updated

theorem Declares.depth {env env' : Env V} (declares : Declares env env') :
    env'.depth = env.depth := by
  obtain ⟨name, v, done⟩ := declares
  rw [Env.declare] at done
  rw [Env.depth, Env.depth]
  split at done
  · cases done
  · rename_i top rest same
    cases done
    rw [same]
    rfl

theorem Edited.depth {env env' : Env V} (edited : Edited env env') : env'.depth = env.depth := by
  induction edited with
  | refl => rfl
  | tail _ step ih =>
    rcases step with assigns | declares
    · exact assigns.depth.trans ih
    · exact declares.depth.trans ih

theorem Assigned.edited {env env' : Env V} (assigned : Assigned env env') : Edited env env' := by
  induction assigned with
  | refl => exact .refl
  | tail _ step ih => exact ih.tail (.inl step)

theorem Assigned.depth {env env' : Env V} (assigned : Assigned env env') :
    env'.depth = env.depth := assigned.edited.depth

/-- What is done on top of a scope that is dropped again assigns to the scopes below. -/
theorem Edited.below {sc : Scope V} {rest : List (Scope V)} {env' : Env V}
    (edited : Edited ⟨sc :: rest⟩ env') :
    ∃ sc' rest', env' = ⟨sc' :: rest'⟩ ∧ Assigned ⟨rest⟩ ⟨rest'⟩ := by
  induction edited with
  | refl => exact ⟨sc, rest, rfl, .refl⟩
  | tail _ step ih =>
    obtain ⟨top, below, rfl, assigned⟩ := ih
    rcases step with ⟨name, v, done⟩ | ⟨name, v, done⟩
    · obtain ⟨scs, updated, rfl⟩ := Option.map_eq_some_iff.mp done
      rw [update] at updated
      split at updated
      · cases updated
        exact ⟨_, below, rfl, assigned⟩
      · obtain ⟨below', later, rfl⟩ := Option.map_eq_some_iff.mp updated
        refine ⟨top, below', rfl, assigned.tail ⟨name, v, ?_⟩⟩
        exact congrArg (Option.map _) later
    · cases done
      exact ⟨_, below, rfl, assigned⟩

theorem Edited.pop {env env' : Env V} (edited : Edited env.push env') : Assigned env env'.pop := by
  obtain ⟨sc, rest, rfl, assigned⟩ := edited.below
  exact assigned

/-! ## The walk -/

variable {F : Type} [Num64 F]

/-- The budget stands, the count of steps does not fall, and the scopes are changed as `R` says. -/
def Kept (R : Env (Value F) → Env (Value F) → Prop) (s s' : Interp (Env (Value F))) : Prop :=
  s'.maxSteps = s.maxSteps ∧ s.steps ≤ s'.steps ∧ R s.env s'.env

variable {R : Env (Value F) → Env (Value F) → Prop}

omit [Num64 F] in
theorem Kept.refl (reflR : ∀ env, R env env) (s : Interp (Env (Value F))) : Kept R s s :=
  ⟨rfl, Nat.le_refl _, reflR s.env⟩

omit [Num64 F] in
theorem Kept.trans (transR : ∀ a b c, R a b → R b c → R a c) (a b c : Interp (Env (Value F)))
    (first : Kept R a b) (second : Kept R b c) : Kept R a c :=
  ⟨second.1.trans first.1, Nat.le_trans first.2.1 second.2.1, transR _ _ _ first.2.2 second.2.2⟩

omit [Num64 F] in
/-- A piece that leaves the scopes alone. -/
theorem keeps_of_env {α : Type} (reflR : ∀ env, R env env) {x : Eval (Env (Value F)) α}
    (same : ∀ s r s', x s = some (r, s') →
      s'.env = s.env ∧ s'.maxSteps = s.maxSteps ∧ s.steps ≤ s'.steps) : x.Keeps (Kept R) := by
  intro s r s' ends
  obtain ⟨env, budget, steps⟩ := same s r s' ends
  exact ⟨budget, steps, env ▸ reflR s.env⟩

omit [Num64 F] in
theorem tick_spec {s s' : Interp (Env (Value F))} {r : Except String Unit}
    (ends : tick s = some (r, s')) :
    s'.env = s.env ∧ s'.maxSteps = s.maxSteps ∧ s'.steps = s.steps + 1 ∧
      (r = .ok () ↔ s.steps + 1 ≤ s.maxSteps) := by
  rw [tick] at ends
  split at ends
  · rename_i above
    cases ends
    exact ⟨rfl, rfl, rfl, fun none => (nomatch none), fun fits => absurd above (Nat.not_lt.mpr fits)⟩
  · rename_i fits
    cases ends
    exact ⟨rfl, rfl, rfl, fun _ => Nat.not_lt.mp fits, fun _ => rfl⟩

omit [Num64 F] in
theorem keeps_setVar (name : String) (v : Value F) :
    (setVar name v : Eval (Env (Value F)) Unit).Keeps (Kept Assigned) := by
  intro s r s' ends
  obtain ⟨env?, set, same⟩ := Option.map_eq_some_iff.mp ends
  cases env? with
  | none =>
    cases same
    exact Kept.refl (fun _ => .refl) s
  | some env =>
    cases same
    exact ⟨rfl, Nat.le_refl _, .single ⟨name, v, Option.some.inj set⟩⟩

omit [Num64 F] in
theorem keeps_declare (name : String) (v : Value F) :
    (declare name v : Eval (Env (Value F)) Unit).Keeps (Kept Edited) := by
  intro s r s' ends
  obtain ⟨env, declared, same⟩ := Option.map_eq_some_iff.mp ends
  cases same
  exact ⟨rfl, Nat.le_refl _, .single (.inr ⟨name, v, declared⟩)⟩

omit [Num64 F] in
theorem keeps_inScope {α : Type} {x : Eval (Env (Value F)) α} (keeps : x.Keeps (Kept Edited)) :
    (inScope F x).Keeps (Kept Assigned) := by
  intro s r s' ends
  obtain ⟨⟨r', m⟩, inner, same⟩ := Option.map_eq_some_iff.mp ends
  cases same
  obtain ⟨budget, steps, edited⟩ := keeps _ _ _ inner
  exact ⟨budget, steps, Edited.pop edited⟩

omit [Num64 F] in
/-- **The walk keeps the scopes**: expressions assign, statements assign and declare. -/
theorem keeps_walk : Walk F (fun {_} (x : Eval (Env (Value F)) _) (_ : Eval (Env (Value F)) _) =>
    x.Keeps (Kept Edited)) fun x _ => x.Keeps (Kept Assigned) where
  weaken keeps := keeps.mono fun _ _ kept => ⟨kept.1, kept.2.1, Assigned.edited kept.2.2⟩
  value a := Act.Keeps.ret (Kept.refl fun _ => .refl) a
  lift r := keeps_of_env (fun _ => .refl) fun s r' s' ends => by
    cases ends
    exact ⟨rfl, rfl, Nat.le_refl _⟩
  bindC first next := first.bind (Kept.trans fun _ _ _ => Relation.ReflTransGen.trans) next
  bindD first next := first.bind (Kept.trans fun _ _ _ => Relation.ReflTransGen.trans) next
  tick := keeps_of_env (fun _ => .refl) fun s r s' ends => by
    obtain ⟨env, budget, steps, _⟩ := tick_spec ends
    exact ⟨env, budget, by omega⟩
  print line := keeps_of_env (fun _ => .refl) fun s r s' ends => by
    cases ends
    exact ⟨rfl, rfl, Nat.le_refl _⟩
  getVar name := keeps_of_env (fun _ => .refl) fun s r s' ends => by
    obtain ⟨v?, _, same⟩ := Option.map_eq_some_iff.mp ends
    cases same
    exact ⟨rfl, rfl, Nat.le_refl _⟩
  setVar := keeps_setVar
  declare := keeps_declare
  scope := keeps_inScope

theorem keeps_exec (fuel : Nat) :
    (∀ s : Stmt F, (exec fuel s : Eval (Env (Value F)) (Flow F)).Keeps (Kept Edited)) ∧
      ∀ e : Expr F, (evalExpr fuel e : Eval (Env (Value F)) (Value F)).Keeps (Kept Assigned) :=
  keeps_walk.whole Act.Keeps.stuck Act.Keeps.stuck fuel

section Loops

variable {cond : Eval (Env (Value F)) (Value F)} {body : Eval (Env (Value F)) (Flow F)}

theorem keeps_whileTurns (cs : cond.Keeps (Kept Assigned)) (bs : body.Keeps (Kept Edited))
    (turns : Nat) : (whileTurns cond body turns).Keeps (Kept Edited) :=
  @Walk.whileTurns F _ _ _ _ _ _ _ cond cond body body keeps_walk Act.Keeps.stuck cs bs turns

omit [Num64 F] in
theorem keeps_forTurns {go : Eval (Env (Value F)) Bool} {step : Eval (Env (Value F)) Unit}
    (gs : go.Keeps (Kept Assigned)) (bs : body.Keeps (Kept Edited)) (ss : step.Keeps (Kept Edited))
    (turns : Nat) : (forTurns go body step turns).Keeps (Kept Edited) :=
  @Walk.forTurns F _ _ _ _ _ _ body body keeps_walk Act.Keeps.stuck go go step step gs bs ss turns

end Loops

/-- **Scope balance.** Whatever the result, a statement, an expression or a call leaves the stack
of scopes as deep as it was. An expression or a call has changed it by assignments to declared
names alone, and a statement besides by declarations in the scope it stands in. -/
theorem scope_balance (fuel : Nat) (st : Interp (Env (Value F))) :
    (∀ (s : Stmt F) r st', exec fuel s st = some (r, st') →
      st'.env.depth = st.env.depth ∧ Edited st.env st'.env) ∧
    (∀ (e : Expr F) r st', evalExpr fuel e st = some (r, st') →
      st'.env.depth = st.env.depth ∧ Assigned st.env st'.env) ∧
    ∀ (callee : Expr F) args r st',
      evalCall (exec fuel) (evalExpr fuel) callee args st = some (r, st') →
        st'.env.depth = st.env.depth ∧ Assigned st.env st'.env := by
  obtain ⟨stmts, exprs⟩ := keeps_exec (F := F) fuel
  refine ⟨?_, ?_, ?_⟩
  · intro s r st' ends
    have edited := (stmts s st r st' ends).2.2
    exact ⟨edited.depth, edited⟩
  · intro e r st' ends
    have assigned := (exprs e st r st' ends).2.2
    exact ⟨assigned.depth, assigned⟩
  · intro callee args r st' ends
    have calls := @Walk.evalCall F _ _ _ _ _ _ _ (exec fuel) (exec fuel) (evalExpr fuel)
      (evalExpr fuel) keeps_walk stmts exprs callee args
    have assigned := (calls st r st' ends).2.2
    exact ⟨assigned.depth, assigned⟩

end RustyPenguin.Tjs
