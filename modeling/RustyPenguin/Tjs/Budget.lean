import RustyPenguin.Tjs.Scopes

/-!
# The step budget

Each level of the walk and each turn of a loop takes a tick before it goes on, and the tick that
exceeds the budget is an error that ends everything around it. So with as much fuel as there are
ticks left the walk ends (`ends_exec`), within the budget or with that error, and more fuel does
not change how (`more_exec`).
-/

set_option autoImplicit false

namespace RustyPenguin.Tjs

variable {F : Type} [Num64 F]

/-- The budget is not exceeded, no more than `n` ticks are left, and there is a scope. -/
structure Left (n : Nat) (s : Interp (Env (Value F))) : Prop where
  within : s.steps ≤ s.maxSteps
  few : s.maxSteps < s.steps + n
  scope : s.env.depth ≠ 0

/-- The budget is not exceeded but by the tick that says so. -/
def Spent (e : String) (s : Interp (Env (Value F))) : Prop :=
  s.steps ≤ s.maxSteps ∨ (s.steps = s.maxSteps + 1 ∧ e = stepLimit)

/-- A piece ends when `n` ticks are left. -/
abbrev EndsWith (n : Nat) {α : Type} (x : Eval (Env (Value F)) α) : Prop := x.Ends (Left n) Spent

variable {n : Nat} {α : Type}

omit [Num64 F] in
theorem Left.of_kept {R : Env (Value F) → Env (Value F) → Prop} {s s' : Interp (Env (Value F))}
    (left : Left n s) (kept : Kept R s s') (within : s'.steps ≤ s'.maxSteps)
    (depth : s'.env.depth = s.env.depth) : Left n s' := by
  obtain ⟨budget, steps, _⟩ := kept
  have few := left.few
  exact ⟨within, by omega, depth ▸ left.scope⟩

omit [Num64 F] in
/-- A tick ends, with one more step counted. -/
theorem tick_ends {s : Interp (Env (Value F))} (left : Left (n + 1) s) :
    (tick : Eval (Env (Value F)) Unit).EndsAt
      (fun s' => Left n s' ∧ s'.steps = s.steps + 1 ∧ s'.maxSteps = s.maxSteps) Spent s := by
  have few := left.few
  have within := left.within
  by_cases above : s.steps + 1 > s.maxSteps
  · refine .inr ⟨stepLimit, _, if_pos above, .inr ⟨?_, rfl⟩⟩
    simp only
    omega
  · refine .inl ⟨(), _, if_neg above, ⟨?_, ?_, left.scope⟩, rfl, rfl⟩
    · exact Nat.not_lt.mp above
    · simp only
      omega

omit [Num64 F] in
theorem ends_tick : EndsWith n (tick : Eval (Env (Value F)) Unit) := by
  intro s left
  have few := left.few
  have within := left.within
  by_cases above : s.steps + 1 > s.maxSteps
  · refine .inr ⟨stepLimit, _, if_pos above, .inr ⟨?_, rfl⟩⟩
    simp only
    omega
  · refine .inl ⟨(), _, if_neg above, Nat.not_lt.mp above, ?_, left.scope⟩
    simp only
    omega

omit [Num64 F] in
/-- A piece ends when `n` ticks are left, and keeps the scopes. -/
theorem ends_walk (n : Nat) : Walk F
    (fun {_} (x : Eval (Env (Value F)) _) (_ : Eval (Env (Value F)) _) =>
      EndsWith n x ∧ x.Keeps (Kept Edited))
    fun x _ => EndsWith n x ∧ x.Keeps (Kept Assigned) where
  weaken both := ⟨both.1, keeps_walk.weaken (y := .stuck) both.2⟩
  value a := ⟨Act.Ends.ret a, keeps_walk.value a⟩
  lift r := by
    refine ⟨?_, keeps_walk.lift r⟩
    intro s left
    cases r with
    | ok a => exact .inl ⟨a, s, rfl, left⟩
    | error e => exact .inr ⟨e, s, rfl, .inl left.within⟩
  bindC first next :=
    ⟨first.1.bind fun a => (next a).1, first.2.bind (Kept.trans fun _ _ _ => .trans) fun a => (next a).2⟩
  bindD first next :=
    ⟨first.1.bind fun a => (next a).1, first.2.bind (Kept.trans fun _ _ _ => .trans) fun a => (next a).2⟩
  tick := ⟨ends_tick, keeps_walk.tick⟩
  print line := ⟨fun s left => .inl ⟨(), _, rfl, left.within, left.few, left.scope⟩,
    keeps_walk.print line⟩
  getVar name := ⟨fun s left => .inl ⟨_, s, rfl, left⟩, keeps_walk.getVar name⟩
  setVar name v := by
    refine ⟨?_, keeps_setVar name v⟩
    intro s left
    cases set : s.env.set name v with
    | none =>
      exact .inr ⟨_, s, congrArg (Option.map _) (congrArg some set), .inl left.within⟩
    | some env =>
      refine .inl ⟨(), { s with env := env }, congrArg (Option.map _) (congrArg some set), ?_⟩
      have same : env.depth = s.env.depth := Assigns.depth ⟨name, v, set⟩
      exact ⟨left.within, left.few, same ▸ left.scope⟩
  declare name v := by
    refine ⟨?_, keeps_declare name v⟩
    intro s left
    cases scopes : s.env.scopes with
    | nil =>
      have empty : s.env.depth = 0 := congrArg List.length scopes
      exact absurd empty left.scope
    | cons top rest =>
      have declared : s.env.declare name v = some ⟨top.declare name v :: rest⟩ := by
        rw [Env.declare, scopes]
      refine .inl ⟨(), _, congrArg (Option.map _) declared, left.within, left.few, ?_⟩
      exact Nat.succ_ne_zero _
  scope both := by
    refine ⟨?_, keeps_inScope both.2⟩
    intro s left
    have inner : Left n { s with env := s.env.push } :=
      ⟨left.within, left.few, Nat.succ_ne_zero _⟩
    rcases both.1 _ inner with ⟨a, s', went, left'⟩ | ⟨e, s', failed, spent⟩
    · have kept := keeps_inScope both.2 s (.ok a) _ (congrArg (Option.map _) went)
      refine .inl ⟨a, _, congrArg (Option.map _) went, left.of_kept kept left'.within ?_⟩
      exact kept.2.2.depth
    · exact .inr ⟨e, _, congrArg (Option.map _) failed, spent⟩

/-! ## Loops -/

variable {cond : Eval (Env (Value F)) (Value F)} {body : Eval (Env (Value F)) (Flow F)}

/-- A while loop ends: each turn takes a tick. -/
theorem ends_whileTurns (cs : EndsWith n cond ∧ cond.Keeps (Kept Assigned))
    (bs : EndsWith n body ∧ body.Keeps (Kept Edited)) (turns : Nat) :
    ∀ s, Left n s → s.maxSteps < s.steps + turns →
      (whileTurns cond body turns).EndsAt (Left n) Spent s := by
  induction turns with
  | zero =>
    intro s left few
    exact absurd few (Nat.not_lt.mpr left.within)
  | succ turns ih =>
    intro s left few
    refine (cs.1 s left).bind fun c m wentC leftC => ?_
    have keptC := cs.2 s _ m wentC
    split
    · refine (ends_tick m leftC).bind fun _ m' wentT leftT => ?_
      have counted := tick_spec wentT
      refine (bs.1 m' leftT).bind fun flow m'' wentB leftB => ?_
      have keptB := bs.2 m' _ m'' wentB
      cases flow with
      | ret v => exact Act.EndsAt.ret leftB _
      | normal =>
        refine ih m'' leftB ?_
        have stepsC := keptC.2.1
        have stepsB := keptB.2.1
        have budgetB := keptB.1
        have budgetC := keptC.1
        omega
    · exact Act.EndsAt.ret leftC _

omit [Num64 F] in
/-- A for loop ends: each turn takes a tick. -/
theorem ends_forTurns {go : Eval (Env (Value F)) Bool} {step : Eval (Env (Value F)) Unit}
    (gs : EndsWith n go ∧ go.Keeps (Kept Assigned))
    (bs : EndsWith n body ∧ body.Keeps (Kept Edited))
    (ss : EndsWith n step ∧ step.Keeps (Kept Edited)) (turns : Nat) :
    ∀ s, Left n s → s.maxSteps < s.steps + turns →
      (forTurns go body step turns).EndsAt (Left n) Spent s := by
  induction turns with
  | zero =>
    intro s left few
    exact absurd few (Nat.not_lt.mpr left.within)
  | succ turns ih =>
    intro s left few
    refine (ends_tick s left).bind fun _ m wentT leftT => ?_
    have counted := tick_spec wentT
    refine (gs.1 m leftT).bind fun b m' wentG leftG => ?_
    have keptG := gs.2 m _ m' wentG
    split
    · refine (bs.1 m' leftG).bind fun flow m'' wentB leftB => ?_
      have keptB := bs.2 m' _ m'' wentB
      cases flow with
      | ret v => exact Act.EndsAt.ret leftB _
      | normal =>
        refine (ss.1 m'' leftB).bind fun _ m''' wentS leftS => ?_
        have keptS := ss.2 m'' _ m''' wentS
        refine ih m''' leftS ?_
        have stepsG := keptG.2.1
        have stepsB := keptB.2.1
        have stepsS := keptS.2.1
        have budgetG := keptG.1
        have budgetB := keptB.1
        have budgetS := keptS.1
        omega
    · exact Act.EndsAt.ret leftG _

/-! ## The walk -/

omit [Num64 F] in
/-- One level more, behind a tick. -/
theorem ends_level {x : Eval (Env (Value F)) α} (level : EndsWith n x) :
    EndsWith (n + 1) (do tick; x) := by
  intro s left
  refine (tick_ends left).bind fun _ m _ leftT => (level m leftT.1).mono fun s' left' => ?_
  exact ⟨left'.within, Nat.lt_succ_of_lt left'.few, left'.scope⟩

/-- **The walk ends** when it has fuel for the ticks that are left. -/
theorem ends_exec (n : Nat) :
    (∀ s : Stmt F, EndsWith n (exec n s : Eval (Env (Value F)) (Flow F))) ∧
      ∀ e : Expr F, EndsWith n (evalExpr n e : Eval (Env (Value F)) (Value F)) := by
  induction n with
  | zero =>
    constructor
    · intro s st left
      exact absurd left.few (Nat.not_lt.mpr left.within)
    · intro e st left
      exact absurd left.few (Nat.not_lt.mpr left.within)
  | succ n ih =>
    obtain ⟨keepsS, keepsE⟩ := keeps_exec (F := F) n
    have stmts := fun s => And.intro (ih.1 s) (keepsS s)
    have exprs := fun e => And.intro (ih.2 e) (keepsE e)
    constructor
    · intro s
      refine ends_level ?_
      refine (@Walk.stmtStep F _ _ _ _ _ _ _ (exec n) (exec n) (evalExpr n) (evalExpr n)
        (ends_walk n) n n stmts exprs ?_ ?_ s).1
      · intro c b
        refine ⟨fun st left => ends_whileTurns (exprs c) (stmts b) n st left left.few, ?_⟩
        exact keeps_whileTurns (keepsE c) (keepsS b) n
      · intro go go' step b gs
        have ss := @Walk.execOpt F _ _ _ _ _ _ (exec n) (exec n) (ends_walk n) stmts step
        refine ⟨fun st left => ends_forTurns gs (stmts b) ss n st left left.few, ?_⟩
        exact keeps_forTurns gs.2 (keepsS b) ss.2 n
    · intro e
      exact ends_level (@Walk.exprStep F _ _ _ _ _ _ _ (exec n) (exec n) (evalExpr n) (evalExpr n)
        (ends_walk n) stmts exprs e).1

/-! ## More fuel -/

section More

variable {E : Type} [ScopeOps E (Value F)]

omit [Num64 F] [ScopeOps E (Value F)] in
theorem follows_refl (x : Eval E α) : x.Follows Eq x := by
  rintro s _ r s' rfl ends
  exact ⟨s', ends, rfl⟩

omit [Num64 F] in
/-- Ending in the same way. -/
theorem more_walk : Walk F (fun {_} (x y : Eval E _) => x.Follows Eq y)
    fun x y => x.Follows Eq y where
  weaken follows := follows
  value a := follows_refl _
  lift r := follows_refl _
  bindC first next := first.bind next
  bindD first next := first.bind next
  tick := follows_refl _
  print line := follows_refl _
  getVar name := follows_refl _
  setVar name v := follows_refl _
  declare name v := follows_refl _
  scope follows := by
    rintro s _ r s' rfl ends
    obtain ⟨⟨r', m⟩, inner, same⟩ := Option.map_eq_some_iff.mp ends
    obtain ⟨m', inner', rfl⟩ := follows _ _ _ _ rfl inner
    exact ⟨s', (congrArg (Option.map _) inner').trans (congrArg some same), rfl⟩

omit [ScopeOps E (Value F)] in
theorem more_whileTurns {cond cond' : Eval E (Value F)} {body body' : Eval E (Flow F)}
    (cs : cond.Follows Eq cond') (bs : body.Follows Eq body') (turns : Nat) :
    (whileTurns cond body turns).Follows Eq (whileTurns cond' body' (turns + 1)) := by
  induction turns with
  | zero => exact Act.Follows.stuck
  | succ turns ih =>
    refine cs.bind fun c => ?_
    split
    · refine (follows_refl _).bind fun _ => bs.bind fun flow => ?_
      cases flow with
      | normal => exact ih
      | ret v => exact follows_refl _
    · exact follows_refl _

omit [Num64 F] [ScopeOps E (Value F)] in
theorem more_forTurns {go go' : Eval E Bool} {body body' : Eval E (Flow F)}
    {step step' : Eval E Unit} (gs : go.Follows Eq go') (bs : body.Follows Eq body')
    (ss : step.Follows Eq step') (turns : Nat) :
    (forTurns go body step turns).Follows Eq (forTurns go' body' step' (turns + 1)) := by
  induction turns with
  | zero => exact Act.Follows.stuck
  | succ turns ih =>
    refine (follows_refl _).bind fun _ => gs.bind fun b => ?_
    split
    · refine bs.bind fun flow => ?_
      cases flow with
      | normal => exact ss.bind fun _ => ih
      | ret v => exact follows_refl _
    · exact follows_refl _

theorem more_exec (n : Nat) :
    (∀ s : Stmt F, (exec n s : Eval E (Flow F)).Follows Eq (exec (n + 1) s)) ∧
      ∀ e : Expr F, (evalExpr n e : Eval E (Value F)).Follows Eq (evalExpr (n + 1) e) := by
  induction n with
  | zero => exact ⟨fun _ => Act.Follows.stuck, fun _ => Act.Follows.stuck⟩
  | succ n ih =>
    obtain ⟨stmts, exprs⟩ := ih
    constructor
    · intro s
      refine (follows_refl tick).bind fun _ => more_walk.stmtStep stmts exprs ?_ ?_ s
      · intro c b
        exact more_whileTurns (exprs c) (stmts b) n
      · intro go go' step b gs
        exact more_forTurns gs (stmts b) (more_walk.execOpt stmts step) n
    · intro e
      exact (follows_refl tick).bind fun _ => more_walk.exprStep stmts exprs e

/-- **More fuel changes nothing** about a program that ends. -/
theorem more_run (prog : List (Stmt F)) (n extra : Nat) :
    (run n prog : Eval E Unit).Follows Eq (run (n + extra) prog) := by
  induction extra with
  | zero => exact follows_refl _
  | succ extra ih =>
    have one : (run (n + extra) prog : Eval E Unit).Follows Eq (run (n + extra + 1) prog) :=
      more_walk.program (more_exec (n + extra)).1 prog
    rintro s _ r s' rfl ends
    obtain ⟨m, ends', rfl⟩ := ih s s r s' rfl ends
    exact one s s r s' rfl ends'

end More

/-- The interpreter before a program. -/
def Interp.start (maxSteps : Nat) : Interp (Env (Value F)) where
  env := Env.new
  out := []
  steps := 0
  maxSteps := maxSteps

/-- **Every program ends within its budget.** With fuel for each tick of the budget, and with any
more, a program comes to one and the same end, after as many ticks as the budget has or with the
tick that exceeds it, and then with the error that says so. -/
theorem ends_within_budget (prog : List (Stmt F)) (maxSteps : Nat) :
    ∃ (r : Except String Unit) (st : Interp (Env (Value F))),
      (∀ extra, run (maxSteps + 1 + extra) prog (Interp.start maxSteps) = some (r, st)) ∧
      st.maxSteps = maxSteps ∧ st.steps ≤ maxSteps + 1 ∧
      (st.steps = maxSteps + 1 → r = .error stepLimit) := by
  have walk := ends_walk (F := F) (maxSteps + 1)
  have stmts : ∀ s : Stmt F,
      EndsWith (maxSteps + 1) (exec (maxSteps + 1) s : Eval (Env (Value F)) (Flow F)) ∧
        (exec (maxSteps + 1) s : Eval (Env (Value F)) (Flow F)).Keeps (Kept Edited) := fun s =>
    ⟨(ends_exec (maxSteps + 1)).1 s, (keeps_exec (maxSteps + 1)).1 s⟩
  have whole := @Walk.program F _ _ _ _ _ _ _ walk (maxSteps + 1) (maxSteps + 1) stmts prog
  have left : Left (maxSteps + 1) (Interp.start maxSteps : Interp (Env (Value F))) :=
    ⟨Nat.zero_le _, by simp only [Interp.start]; omega, Nat.succ_ne_zero _⟩
  obtain ⟨r, st, ends, accounted⟩ : ∃ (r : Except String Unit) (st : Interp (Env (Value F))),
      run (maxSteps + 1) prog (Interp.start maxSteps) = some (r, st) ∧ (st.steps ≤ st.maxSteps ∨ (st.steps = st.maxSteps + 1 ∧ r = .error stepLimit)) := by
    rcases whole.1 _ left with ⟨a, st, ends, after⟩ | ⟨e, st, ends, spent⟩
    · exact ⟨_, st, ends, .inl after.within⟩
    · refine ⟨_, st, ends, ?_⟩
      rcases spent with within | ⟨above, rfl⟩
      · exact .inl within
      · exact .inr ⟨above, rfl⟩
  have budget : st.maxSteps = maxSteps := (whole.2 _ _ _ ends).1
  rw [budget] at accounted
  refine ⟨r, st, fun extra => ?_, budget, by omega, ?_⟩
  · obtain ⟨st', more, rfl⟩ := more_run prog (maxSteps + 1) extra _ _ r st rfl ends
    exact more
  · intro above
    rcases accounted with within | ⟨_, limit⟩
    · omega
    · exact limit

end RustyPenguin.Tjs
