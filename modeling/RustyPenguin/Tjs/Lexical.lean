import RustyPenguin.Tjs.Budget

/-!
# Functions and the locals of their callers

Functions are said to see globals and their own parameters. A call opens its scope on top of
the scopes of the caller, and lookup and assignment go through the whole stack, so a name that
a function neither declares nor has as a parameter is found among the caller's locals first.

A `Fence` is what a function is said to see: the scopes opened by the call and the globals, with
the names that callers have as locals. Over a fence a name that would be found behind it has no
answer. When a call comes to its end over the fence it comes to the same end over any locals
with those names, and leaves them alone.
-/

set_option autoImplicit false

namespace RustyPenguin.Tjs

variable {V : Type}

/-- The names declared in a stack of scopes. -/
def declared (scs : List (Scope V)) : List String := (scs.map fun sc => sc.map Prod.fst).flatten

theorem declared_append (front back : List (Scope V)) :
    declared (front ++ back) = declared front ++ declared back := by
  rw [declared, List.map_append, List.flatten_append]
  rfl

/-- The scopes of a call, the globals, and the names behind the fence. -/
structure Fence (V : Type) where
  own : List (Scope V)
  names : List String
  globals : Scope V

namespace Fence

def declare (f : Fence V) (name : String) (v : V) : Option (Fence V) :=
  match f.own with
  | [] => none
  | top :: rest => some { f with own := top.declare name v :: rest }

def get (f : Fence V) (name : String) : Option (Option V) :=
  match lookup name f.own with
  | some v => some (some v)
  | none => if name ∈ f.names then none else some (f.globals.find name)

def set (f : Fence V) (name : String) (v : V) : Option (Option (Fence V)) :=
  match update name v f.own with
  | some own => some (some { f with own := own })
  | none =>
    if name ∈ f.names then none
    else some ((f.globals.put name v).map fun globals => { f with globals := globals })

end Fence

instance : ScopeOps (Fence V) V where
  push f := { f with own := [] :: f.own }
  pop f := { f with own := f.own.tail }
  declare := Fence.declare
  get := Fence.get
  set := Fence.set

/-! ## Scopes with a fence in them -/

theorem lookup_append (name : String) (front back : List (Scope V)) :
    lookup name (front ++ back) =
      match lookup name front with
      | some v => some v
      | none => lookup name back := by
  induction front with
  | nil => rfl
  | cons sc front ih =>
    rw [List.cons_append, lookup, lookup, ih]
    cases sc.find name with
    | some v => rfl
    | none => rfl

theorem update_append (name : String) (v : V) (front back : List (Scope V)) :
    update name v (front ++ back) =
      match update name v front with
      | some front' => some (front' ++ back)
      | none => (update name v back).map (front ++ ·) := by
  induction front with
  | nil =>
    rw [List.nil_append, update]
    simp only [List.nil_append, Option.map_id']
  | cons sc front ih =>
    rw [List.cons_append, update, update, ih]
    cases sc.put name v with
    | some sc' => rfl
    | none =>
      cases update name v front with
      | some front' => rfl
      | none =>
        cases update name v back with
        | some back' => rfl
        | none => rfl

theorem find_eq_none {name : String} {sc : Scope V} (absent : name ∉ sc.map Prod.fst) :
    sc.find name = none := by
  induction sc with
  | nil => rfl
  | cons entry sc ih =>
    obtain ⟨n, v⟩ := entry
    rw [List.map_cons, List.mem_cons, not_or] at absent
    rw [Scope.find, if_neg (Ne.symm absent.1)]
    exact ih absent.2

theorem put_eq_none {name : String} {v : V} {sc : Scope V} (absent : name ∉ sc.map Prod.fst) :
    sc.put name v = none := by
  induction sc with
  | nil => rfl
  | cons entry sc ih =>
    obtain ⟨n, w⟩ := entry
    rw [List.map_cons, List.mem_cons, not_or] at absent
    rw [Scope.put, if_neg (Ne.symm absent.1), ih absent.2]
    rfl

theorem lookup_eq_none {name : String} {scs : List (Scope V)} (absent : name ∉ declared scs) :
    lookup name scs = none := by
  induction scs with
  | nil => rfl
  | cons sc scs ih =>
    rw [declared, List.map_cons, List.flatten_cons, List.mem_append, not_or] at absent
    rw [lookup, find_eq_none absent.1]
    exact ih absent.2

theorem update_eq_none {name : String} {v : V} {scs : List (Scope V)}
    (absent : name ∉ declared scs) : update name v scs = none := by
  induction scs with
  | nil => rfl
  | cons sc scs ih =>
    rw [declared, List.map_cons, List.flatten_cons, List.mem_append, not_or] at absent
    rw [update, put_eq_none absent.1, ih absent.2]
    rfl

/-- A stack of scopes with locals behind the fence. -/
structure Over (locals : List (Scope V)) (f : Fence V) (env : Env V) : Prop where
  scopes : env.scopes = f.own ++ (locals ++ [f.globals])
  names : ∀ name ∈ declared locals, name ∈ f.names

variable {locals : List (Scope V)} {f f' : Fence V} {env : Env V}

/-- What a lookup over the fence answers, the lookup in the whole stack answers. -/
theorem Over.get (above : Over locals f env) {name : String} {v? : Option V}
    (answers : f.get name = some v?) : env.get name = v? := by
  rw [Env.get, above.scopes, lookup_append]
  rw [Fence.get] at answers
  split at answers
  · rename_i v inOwn
    cases answers
    rfl
  · rename_i notOwn
    split at answers
    · cases answers
    · rename_i free
      cases answers
      rw [lookup_append, lookup_eq_none fun isLocal => free (above.names name isLocal)]
      simp only [lookup]
      cases f.globals.find name with
      | some v => rfl
      | none => rfl

theorem Over.declare (above : Over locals f env) {name : String} {v : V}
    (answers : f.declare name v = some f') :
    ∃ env', env.declare name v = some env' ∧ Over locals f' env' := by
  rw [Fence.declare] at answers
  split at answers
  · cases answers
  · rename_i top rest same
    cases answers
    refine ⟨⟨top.declare name v :: (rest ++ (locals ++ [f.globals]))⟩, ?_, rfl, above.names⟩
    rw [Env.declare, above.scopes, same]
    rfl

theorem Over.set (above : Over locals f env) {name : String} {v : V} {f? : Option (Fence V)}
    (answers : f.set name v = some f?) :
    match f? with
    | none => env.set name v = none
    | some f' => ∃ env', env.set name v = some env' ∧ Over locals f' env' := by
  rw [Fence.set] at answers
  split at answers
  · rename_i own inOwn
    cases answers
    refine ⟨⟨own ++ (locals ++ [f.globals])⟩, ?_, rfl, above.names⟩
    rw [Env.set, above.scopes, update_append, inOwn]
    rfl
  · rename_i notOwn
    split at answers
    · cases answers
    · rename_i free
      have absent := fun isLocal => free (above.names name isLocal)
      have whole : env.set name v = (f.globals.put name v).map fun globals =>
          ⟨f.own ++ (locals ++ [globals])⟩ := by
        rw [Env.set, above.scopes, update_append, notOwn]
        simp only
        rw [update_append, update_eq_none absent, update]
        cases f.globals.put name v with
        | some globals => rfl
        | none => rfl
      cases put : f.globals.put name v with
      | none =>
        rw [put] at answers whole
        cases answers
        exact whole
      | some globals =>
        rw [put] at answers whole
        cases answers
        exact ⟨_, whole, rfl, above.names⟩

theorem Fence.length_declare {name : String} {v : V} (answers : f.declare name v = some f') :
    f'.own.length = f.own.length := by
  rw [Fence.declare] at answers
  split at answers
  · cases answers
  · rename_i top rest same
    cases answers
    rw [same]
    rfl

theorem Fence.length_set {name : String} {v : V} (answers : f.set name v = some (some f')) :
    f'.own.length = f.own.length := by
  rw [Fence.set] at answers
  split at answers
  · rename_i own inOwn
    cases answers
    exact length_update inOwn
  · split at answers
    · cases answers
    · obtain ⟨globals, _, rfl⟩ := Option.map_eq_some_iff.mp (Option.some.inj answers)
      rfl

/-! ## The walk over the fence -/

variable {F : Type} [Num64 F]

/-- A caller at the time of a call: its locals, what it has printed, the ticks it has taken and
its budget. -/
structure Caller (F : Type) where
  locals : List (Scope (Value F))
  out : List String
  steps : Nat
  maxSteps : Nat

/-- The caller's interpreter when the call has printed `out` and taken `steps` ticks. -/
def Caller.interp (c : Caller F) (globals : Scope (Value F)) (out : List String) (steps : Nat) :
    Interp (Env (Value F)) where
  env := ⟨c.locals ++ [globals]⟩
  out := c.out ++ out
  steps := c.steps + steps
  maxSteps := c.maxSteps

/-- The step limit is reached after `left` ticks only if the caller has no more left. -/
def Caller.Held (c : Caller F) (left : Nat) (e : String) : Prop :=
  e = stepLimit → c.steps + left = c.maxSteps

/-- An interpreter over the fence with `left` ticks, and one that was at `c` when the call was
made. -/
structure Beside (c : Caller F) (left : Nat) (s : Interp (Fence (Value F)))
    (t : Interp (Env (Value F))) : Prop where
  above : Over c.locals s.env t.env
  out : t.out = c.out ++ s.out
  steps : t.steps = c.steps + s.steps
  left : s.maxSteps = left
  budget : t.maxSteps = c.maxSteps

/-- As many scopes of the call afterwards. -/
def SameOwn (s s' : Interp (Fence (Value F))) : Prop :=
  s'.env.own.length = s.env.own.length

omit [Num64 F] in
theorem SameOwn.refl (s : Interp (Fence (Value F))) : SameOwn s s := Eq.refl _

omit [Num64 F] in
theorem SameOwn.trans (a b c : Interp (Fence (Value F))) (first : SameOwn a b)
    (second : SameOwn b c) : SameOwn a c := Eq.trans second first

variable {c : Caller F} {left : Nat}

omit [Num64 F] in
theorem follows_tick (room : c.steps + left ≤ c.maxSteps) :
    (tick : Eval (Fence (Value F)) Unit).FollowsOn (c.Held left) (Beside c left) tick := by
  intro s t r s' beside ends accepted
  have steps := beside.steps
  have budget := beside.budget
  have same := beside.left
  rw [tick] at ends
  split at ends
  · rename_i above
    cases ends
    have no_more : c.steps + left = c.maxSteps := accepted stepLimit rfl rfl
    have reached : t.steps + 1 > t.maxSteps := by
      simp only at above
      omega
    refine ⟨{ t with steps := t.steps + 1 }, if_pos reached, beside.above, beside.out, ?_, same,
      budget⟩
    exact congrArg Nat.succ steps
  · rename_i fits
    cases ends
    have fits' : ¬ t.steps + 1 > t.maxSteps := by
      simp only at fits
      omega
    refine ⟨{ t with steps := t.steps + 1 }, if_neg fits', beside.above, beside.out, ?_, same,
      budget⟩
    exact congrArg Nat.succ steps

omit [Num64 F] in
theorem follows_getVar (name : String) :
    (getVar name : Eval (Fence (Value F)) (Option (Value F))).Follows (Beside c left)
      (getVar name) := by
  intro s t r s' beside ends
  obtain ⟨v?, answers, same⟩ := Option.map_eq_some_iff.mp ends
  cases same
  have value := beside.above.get answers
  exact ⟨t, congrArg (Option.map _) (congrArg some value), beside⟩

omit [Num64 F] in
theorem follows_setVar (name : String) (v : Value F) :
    (setVar name v : Eval (Fence (Value F)) Unit).Follows (Beside c left) (setVar name v) := by
  intro s t r s' beside ends
  obtain ⟨f?, answers, same⟩ := Option.map_eq_some_iff.mp ends
  have whole := beside.above.set answers
  cases f? with
  | none =>
    cases same
    exact ⟨t, congrArg (Option.map _) (congrArg some whole), beside⟩
  | some f' =>
    cases same
    obtain ⟨env', set, above⟩ := whole
    exact ⟨{ t with env := env' }, congrArg (Option.map _) (congrArg some set), above,
      beside.out, beside.steps, beside.left, beside.budget⟩

omit [Num64 F] in
theorem follows_declare (name : String) (v : Value F) :
    (declare name v : Eval (Fence (Value F)) Unit).Follows (Beside c left) (declare name v) := by
  intro s t r s' beside ends
  obtain ⟨f', answers, same⟩ := Option.map_eq_some_iff.mp ends
  cases same
  obtain ⟨env', declared, above⟩ := beside.above.declare answers
  exact ⟨{ t with env := env' }, congrArg (Option.map _) declared, above, beside.out,
    beside.steps, beside.left, beside.budget⟩

omit [Num64 F] in
theorem follows_inScope {α : Type} {x : Eval (Fence (Value F)) α} {y : Eval (Env (Value F)) α}
    (follows : x.FollowsOn (c.Held left) (Beside c left) y) (keeps : x.Keeps SameOwn) :
    (inScope F x).FollowsOn (c.Held left) (Beside c left) (inScope F y) := by
  intro s t r s' beside ends accepted
  obtain ⟨⟨r', m⟩, inner, same⟩ := Option.map_eq_some_iff.mp ends
  cases same
  have pushed : Over c.locals (ScopeOps.push (Value F) s.env) t.env.push := by
    refine ⟨?_, beside.above.names⟩
    rw [Env.push, beside.above.scopes]
    rfl
  obtain ⟨n, inner', beside'⟩ := follows { s with env := ScopeOps.push (Value F) s.env }
    { t with env := t.env.push } _ _
    ⟨pushed, beside.out, beside.steps, beside.left, beside.budget⟩ inner accepted
  have kept : m.env.own.length = s.env.own.length + 1 := keeps _ _ _ inner
  have opened : m.env.own ≠ [] := by
    intro empty
    rw [empty] at kept
    cases kept
  refine ⟨{ n with env := n.env.pop }, congrArg (Option.map _) inner', ⟨?_, beside'.above.names⟩,
    beside'.out, beside'.steps, beside'.left, beside'.budget⟩
  rw [Env.pop, beside'.above.scopes]
  exact List.tail_append_of_ne_nil opened

omit [Num64 F] in
theorem sameOwn_inScope {α : Type} {x : Eval (Fence (Value F)) α} (keeps : x.Keeps SameOwn) :
    (inScope F x).Keeps SameOwn := by
  intro s r s' ends
  obtain ⟨⟨r', m⟩, inner, same⟩ := Option.map_eq_some_iff.mp ends
  cases same
  have kept : m.env.own.length = s.env.own.length + 1 := keeps _ _ _ inner
  have popped : m.env.own.tail.length = m.env.own.length - 1 := List.length_tail
  rw [kept] at popped
  exact popped

omit [Num64 F] in
/-- **The walk over the fence** is followed by the walk over the whole stack. -/
theorem lexical_walk (room : c.steps + left ≤ c.maxSteps) : Walk F
    (fun {_} (x : Eval (Fence (Value F)) _) (y : Eval (Env (Value F)) _) =>
      x.FollowsOn (c.Held left) (Beside c left) y ∧ x.Keeps SameOwn)
    fun x y => x.FollowsOn (c.Held left) (Beside c left) y ∧ x.Keeps SameOwn where
  weaken both := both
  value a := ⟨(Act.Follows.ret a).on, Act.Keeps.ret SameOwn.refl a⟩
  lift r := by
    constructor
    · intro s t r' s' beside ends _
      cases ends
      exact ⟨t, rfl, beside⟩
    · intro s r' s' ends
      cases ends
      exact SameOwn.refl s
  bindC first next := ⟨first.1.bind fun a => (next a).1,
    first.2.bind SameOwn.trans fun a => (next a).2⟩
  bindD first next := ⟨first.1.bind fun a => (next a).1,
    first.2.bind SameOwn.trans fun a => (next a).2⟩
  tick := by
    refine ⟨follows_tick room, ?_⟩
    intro s r s' ends
    rw [tick] at ends
    split at ends
    · cases ends
      exact SameOwn.refl s
    · cases ends
      exact SameOwn.refl s
  print line := by
    constructor
    · intro s t r s' beside ends _
      cases ends
      refine ⟨_, rfl, beside.above, ?_, beside.steps, beside.left, beside.budget⟩
      simp only [beside.out, List.append_assoc]
    · intro s r s' ends
      cases ends
      exact SameOwn.refl s
  getVar name := by
    refine ⟨(follows_getVar name).on, ?_⟩
    intro s r s' ends
    obtain ⟨v?, _, same⟩ := Option.map_eq_some_iff.mp ends
    cases same
    exact SameOwn.refl s
  setVar name v := by
    refine ⟨(follows_setVar name v).on, ?_⟩
    intro s r s' ends
    obtain ⟨f?, answers, same⟩ := Option.map_eq_some_iff.mp ends
    cases f? with
    | none =>
      cases same
      exact SameOwn.refl s
    | some f' =>
      cases same
      exact Fence.length_set answers
  declare name v := by
    refine ⟨(follows_declare name v).on, ?_⟩
    intro s r s' ends
    obtain ⟨f', answers, same⟩ := Option.map_eq_some_iff.mp ends
    cases same
    exact Fence.length_declare answers
  scope both := ⟨follows_inScope both.1 both.2, sameOwn_inScope both.2⟩

/-! ## Calls -/

/-- With `left` ticks, the call comes to an end without looking up or assigning, beyond its own
scopes, a name among `names`. -/
def EndsFenced (fuel left : Nat) (d : FnDef F) (argv : List (Value F)) (globals : Scope (Value F))
    (names : List String) (r : Except String (Value F)) (s' : Interp (Fence (Value F))) : Prop :=
  callFunction (exec fuel) d argv ⟨(⟨[], names, globals⟩ : Fence (Value F)), [], 0, left⟩ =
    some (r, s')

/-- A call that ends over the fence ends the same way for a caller whose locals are behind it. -/
theorem call_follows {fuel : Nat} {d : FnDef F} {argv : List (Value F)} {globals : Scope (Value F)}
    {names : List String} {r : Except String (Value F)} {s' : Interp (Fence (Value F))}
    (ends : EndsFenced fuel left d argv globals names r s')
    (behind : ∀ name ∈ declared c.locals, name ∈ names) (room : c.steps + left ≤ c.maxSteps)
    (held : r = .error stepLimit → c.steps + left = c.maxSteps) :
    callFunction (exec fuel) d argv (c.interp globals [] 0) =
      some (r, c.interp s'.env.globals s'.out s'.steps) := by
  have walk : Walk F _ _ := lexical_walk room
  have stuck : ∀ {α : Type}, (Act.stuck : Eval (Fence (Value F)) α).FollowsOn (c.Held left)
      (Beside c left) (Act.stuck : Eval (Env (Value F)) α) ∧
      (Act.stuck : Eval (Fence (Value F)) α).Keeps SameOwn :=
    ⟨Act.Follows.stuck.on, Act.Keeps.stuck⟩
  have stmts := (walk.whole stuck stuck fuel).1
  obtain ⟨follows, keeps⟩ := @Walk.callFunction F _ _ _ _ _ _ _ _ walk stmts d argv
  obtain ⟨t', ends', beside⟩ := follows _ (c.interp globals [] 0) r s'
    ⟨⟨rfl, behind⟩, rfl, rfl, rfl, rfl⟩ ends fun e same limit => held (limit ▸ same)
  have own : s'.env.own = [] := List.eq_nil_of_length_eq_zero (keeps _ _ _ ends)
  have scopes := beside.above.scopes
  rw [own, List.nil_append] at scopes
  obtain ⟨⟨scs⟩, out', steps', max'⟩ := t'
  cases scopes
  cases beside.out
  cases beside.steps
  cases beside.budget
  exact ends'

/-- **A call does not depend on the locals of its caller** when no name it looks up or assigns
is found among them. If a call comes to its end with the names of both callers' locals fenced off,
in no more ticks than either has left, it comes to the same end for both: with the same value, the
same lines printed, as many ticks and the same globals, and it leaves the locals of both alone. -/
theorem call_noninterference (fuel left : Nat) (d : FnDef F) (argv : List (Value F))
    (globals : Scope (Value F)) (c₁ c₂ : Caller F) (r : Except String (Value F))
    (s' : Interp (Fence (Value F)))
    (fenced : EndsFenced fuel left d argv globals (declared (c₁.locals ++ c₂.locals)) r s')
    (room₁ : c₁.steps + left ≤ c₁.maxSteps) (room₂ : c₂.steps + left ≤ c₂.maxSteps)
    (limit : r = .error stepLimit →
      c₁.steps + left = c₁.maxSteps ∧ c₂.steps + left = c₂.maxSteps) :
    ∃ (globals' : Scope (Value F)) (out' : List String) (steps' : Nat),
      callFunction (exec fuel) d argv (c₁.interp globals [] 0) =
          some (r, c₁.interp globals' out' steps') ∧
        callFunction (exec fuel) d argv (c₂.interp globals [] 0) =
          some (r, c₂.interp globals' out' steps') := by
  refine ⟨s'.env.globals, s'.out, s'.steps, ?_, ?_⟩
  · refine call_follows fenced ?_ room₁ fun reached => (limit reached).1
    intro name isLocal
    rw [declared_append]
    exact List.mem_append_left _ isLocal
  · refine call_follows fenced ?_ room₂ fun reached => (limit reached).2
    intro name isLocal
    rw [declared_append]
    exact List.mem_append_right _ isLocal

/-- Whole numbers, on which floating point numbers are exact while they are small. -/
instance : Num64 Int where
  neg a := -a
  add a b := a + b
  sub a b := a - b
  mul a b := a * b
  div := Int.tdiv
  trunc a := a
  lt a b := decide (a < b)
  eq a b := decide (a = b)
  isNan _ := false
  ofNat n := n
  toInt64 a := a
  fmtNum a := toString a

/-- A caller with one local. -/
def callerWith (name : String) (v : Value Int) : Caller Int where
  locals := [[(name, v)]]
  out := []
  steps := 0
  maxSteps := 10

/-- A function that returns `x`. -/
def returnsX (params : List String) : FnDef Int where
  params := params
  body := [.ret (some (.ident "x"))]

/-- A function that returns its parameter, called by two callers whose locals have another name. -/
theorem call_noninterference_sample : ∃ (globals' : Scope (Value Int)) (out' : List String)
    (steps' : Nat),
    callFunction (exec 10) (returnsX ["x"]) [.bool true]
        ((callerWith "y" (.num 1)).interp [] [] 0) =
        some (.ok (.bool true), (callerWith "y" (.num 1)).interp globals' out' steps') ∧
      callFunction (exec 10) (returnsX ["x"]) [.bool true]
        ((callerWith "y" (.num 2)).interp [] [] 0) =
        some (.ok (.bool true), (callerWith "y" (.num 2)).interp globals' out' steps') :=
  call_noninterference 10 10 (returnsX ["x"]) [.bool true] []
    (callerWith "y" (.num 1)) (callerWith "y" (.num 2)) (.ok (.bool true))
    ⟨⟨[], ["y", "y"], []⟩, [], 2, 10⟩ rfl (by decide) (by decide) fun none => (nomatch none)

/-- `function f() { return x; }` called where the caller's local `x` is 1, and where it is 2. -/
theorem sees_locals_of_caller :
    ((callFunction (exec 10) (returnsX []) []
        ((callerWith "x" (.num 1)).interp [] [] 0)).map Prod.fst) = some (.ok (.num 1)) ∧
      ((callFunction (exec 10) (returnsX []) []
        ((callerWith "x" (.num 2)).interp [] [] 0)).map Prod.fst) = some (.ok (.num 2)) :=
  ⟨rfl, rfl⟩

end RustyPenguin.Tjs
