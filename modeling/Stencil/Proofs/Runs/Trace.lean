import Stencil.Proofs.Names.Rewrites
import Stencil.Script.Function

/-!
# Runs — what a run appends

A script adds to a variable with `x += e`.  The trace of a run lists the texts that it adds to one
variable, in the order in which the additions are done.  While the right side of an addition is
computed others can be done, by the functions that it calls; these are marked as `enclosed`.

The trace functions follow the functions of the evaluator, one by one, and take the stores in
between from it: `after` goes on where a run has a result.

* `Definition.trace`: the trace of a call from outside, with the returns of its body.
* `written`: the texts of the additions that no other one encloses, put together.
-/

namespace Stencil.Script

/-- An addition to a variable: what is added as text, and whether it is done while the right side of
another one is computed. -/
structure Append where
  chunk : String
  enclosed : Bool
  deriving DecidableEq, Repr

/-- What is recorded of the run of a body: its additions, and the `return` that it is left by, with
the name that is returned if it is one. -/
inductive Event where
  | append (a : Append)
  | returned (name : Option String)
  deriving DecidableEq, Repr

/-- An addition as done on the right side of another one. -/
def Append.enclose (a : Append) : Append :=
  { a with enclosed := true }

/-- The addition of an event. -/
def Event.append? : Event → Option Append
  | .append a => some a
  | .returned _ => none

/-- The additions among events. -/
def appended (events : List Event) : List Append :=
  events.filterMap Event.append?

/-- What additions leave in a variable that was empty. -/
def written : List Append → String
  | [] => ""
  | a :: rest => if a.enclosed then written rest else a.chunk ++ written rest

/-- What is recorded after a run, if it has a result. -/
def after {α γ : Type} (m : Run α) (s : Store) (next : α → Store → List γ) : List γ :=
  match m s with
  | .ok a t => next a t
  | .error _ _ => []

/-- Whether an assignment with an operator adds to a variable. -/
def Place.isAppend (name : String) (op : BinaryOp) : Place → Bool
  | .name word => word == name && op == .add
  | .property _ _ => false

namespace Trace
variable (name : String)

mutual

/-- The additions of an expression. -/
def eval : (steps : Nat) → Expr → Env → Store → List Append
  | 0, _, _, _ => []
  | n + 1, .array items, env, s => evalAll n items env s
  | n + 1, .object fields, env, s => evalFields n fields env s
  | n + 1, .member object _, env, s => eval n object env s
  | n + 1, .index object key, env, s =>
    eval n object env s ++ after (Script.eval n object env) s fun _ s => eval n key env s
  | n + 1, .call callee arguments, env, s => evalCall n callee arguments env s
  | n + 1, .unary _ operand, env, s => eval n operand env s
  | n + 1, .update _ _ target, env, s => evalPlace n target env s
  | n + 1, .binary _ left right, env, s =>
    eval n left env s ++ after (Script.eval n left env) s fun _ s => eval n right env s
  | n + 1, .logical op left right, env, s =>
    eval n left env s ++ after (Script.eval n left env) s fun v s =>
      if op.keepsLeft v then [] else eval n right env s
  | n + 1, .conditional test yes no, env, s =>
    eval n test env s ++ after (Script.eval n test env) s fun v s =>
      if v.truthy then eval n yes env s else eval n no env s
  | n + 1, .assign none target value, env, s =>
    evalPlace n target env s ++ after (Script.evalPlace n target env) s fun _ s =>
      eval n value env s
  | n + 1, .assign (some op) target value, env, s =>
    evalPlace n target env s ++ after (Script.evalPlace n target env) s fun place s =>
      after (place.read env) s fun _ s =>
        if place.isAppend name op then
          (eval n value env s).map .enclose ++ after (Script.eval n value env) s fun v s =>
            [⟨s.text (s.primitive v), false⟩]
        else eval n value env s
  | _ + 1, _, _, _ => []

/-- The additions of several expressions. -/
def evalAll : (steps : Nat) → List Expr → Env → Store → List Append
  | 0, _, _, _ => []
  | _ + 1, [], _, _ => []
  | n + 1, e :: rest, env, s =>
    eval n e env s ++ after (Script.eval n e env) s fun _ s => evalAll n rest env s

/-- The additions of the values of fields. -/
def evalFields : (steps : Nat) → List (String × Expr) → Env → Store → List Append
  | 0, _, _, _ => []
  | _ + 1, [], _, _ => []
  | n + 1, (_, e) :: rest, env, s =>
    eval n e env s ++ after (Script.eval n e env) s fun _ s => evalFields n rest env s

/-- The additions of the parts of an assignment target. -/
def evalPlace : (steps : Nat) → Expr → Env → Store → List Append
  | 0, _, _, _ => []
  | n + 1, .member object _, env, s => eval n object env s
  | n + 1, .index object key, env, s =>
    eval n object env s ++ after (Script.eval n object env) s fun _ s => eval n key env s
  | _ + 1, _, _, _ => []

/-- The additions of a call with what it calls. -/
def evalCall : (steps : Nat) → Expr → List Expr → Env → Store → List Append
  | 0, _, _, _, _ => []
  | n + 1, .member object key, arguments, env, s =>
    eval n object env s ++ after (Script.eval n object env) s fun receiver s =>
      evalAll n arguments env s ++ after (Script.evalAll n arguments env) s fun values s =>
        callMethod n receiver key values s
  | n + 1, .index object key, arguments, env, s =>
    eval n object env s ++ after (Script.eval n object env) s fun receiver s =>
      eval n key env s ++ after (Script.eval n key env) s fun k s =>
        -- the key is made a name before the arguments are computed
        let own := s.key k
        evalAll n arguments env s ++ after (Script.evalAll n arguments env) s fun values s =>
          callMethod n receiver own values s
  | n + 1, callee, arguments, env, s =>
    eval n callee env s ++ after (Script.eval n callee env) s fun f s =>
      evalAll n arguments env s ++ after (Script.evalAll n arguments env) s fun values s =>
        call n f values s

/-- The additions of a method. -/
def callMethod : (steps : Nat) → Value → String → List Value → Store → List Append
  | 0, _, _, _, _ => []
  | n + 1, receiver, method, arguments, s =>
    match Method.of? receiver method with
    | some (.visit a _) => visit n (argument arguments 0) receiver (s.entries (.array a)) s
    | some _ => []
    | none => after (getProperty receiver method) s fun f s => call n f arguments s

/-- The additions of calls with each value and its key. -/
def visit : (steps : Nat) → Value → Value → List (Value × Value) → Store → List Append
  | 0, _, _, _, _ => []
  | _ + 1, _, _, [], _ => []
  | n + 1, f, whole, (v, key) :: rest, s =>
    call n f [v, key, whole] s ++ after (Script.call n f [v, key, whole]) s fun _ s =>
      visit n f whole rest s

/-- The additions of a call. -/
def call : (steps : Nat) → Value → List Value → Store → List Append
  | 0, _, _, _ => []
  | n + 1, f, arguments, s =>
    match f with
    | .function r =>
      match s.callable r with
      | .closure definition env => appended (invoke n definition env arguments s)
      | .native .each =>
        visit n (argument arguments 1) (argument arguments 0) (s.entries (argument arguments 0)) s
      | .native .map =>
        visit n (argument arguments 1) (argument arguments 0) (s.entries (argument arguments 0)) s
      | .native (.plain _) => []
    | _ => []

/-- What is recorded of the body of a function. -/
def invoke : (steps : Nat) → Definition → Env → List Value → Store → List Event
  | 0, _, _, _, _ => []
  | n + 1, definition, env, arguments, s =>
    if maxCallDepth ≤ s.depth then []
    else after (enter definition env arguments) s fun inner s =>
      execAll n definition.body inner { s with depth := s.depth + 1 }

/-- What is recorded of a statement. -/
def exec : (steps : Nat) → Stmt → Env → Store → List Event
  | 0, _, _, _ => []
  | n + 1, .expr e, env, s => (eval n e env s).map .append
  | n + 1, .declare kind bindings, env, s => (execBindings n kind bindings env s).map .append
  | n + 1, .block body, env, s =>
    after (newScope false env) s fun inner s => execAll n body inner s
  | n + 1, .branch test yes no, env, s =>
    (eval n test env s).map .append ++ after (Script.eval n test env) s fun v s =>
      if v.truthy then exec n yes env s
      else
        match no with
        | some stmt => exec n stmt env s
        | none => []
  | n + 1, .loop init test update body, env, s =>
    after (newScope false env) s fun inner s =>
      match init with
      | some stmt =>
        -- the first part of a loop does not leave the body, however it ends
        (appended (exec n stmt inner s)).map .append ++ after (Script.exec n stmt inner) s
          fun _ s => execLoop n test update body inner s
      | none => execLoop n test update body inner s
  | n + 1, .forIn binding subject body, env, s =>
    (eval n subject env s).map .append ++ after (Script.eval n subject env) s fun v s =>
      execEach n binding (s.loopKeys v) body env s
  | n + 1, .forOf binding subject body, env, s =>
    (eval n subject env s).map .append ++ after (Script.eval n subject env) s fun v s =>
      after (loopItems v) s fun items s => execEach n binding items body env s
  | n + 1, .whileLoop test body, env, s => execLoop n (some test) none body env s
  | _ + 1, .return none, _, _ => [.returned none]
  | n + 1, .return (some e), env, s =>
    (eval n e env s).map .append ++ after (Script.eval n e env) s fun _ _ => [.returned e.name?]
  | _ + 1, _, _, _ => []

/-- What is recorded of statements one after the other. -/
def execAll : (steps : Nat) → List Stmt → Env → Store → List Event
  | 0, _, _, _ => []
  | _ + 1, [], _, _ => []
  | n + 1, stmt :: rest, env, s =>
    exec n stmt env s ++ after (Script.exec n stmt env) s fun completion s =>
      match completion with
      | .normal => execAll n rest env s
      | _ => []

/-- The additions of the values of a declaration. -/
def execBindings : (steps : Nat) → DeclKind → List (String × Option Expr) → Env → Store →
    List Append
  | 0, _, _, _, _ => []
  | _ + 1, _, [], _, _ => []
  | n + 1, kind, (own, none) :: rest, env, s =>
    after (bindDeclared kind own none env) s fun _ s => execBindings n kind rest env s
  | n + 1, kind, (own, some e) :: rest, env, s =>
    eval n e env s ++ after (Script.eval n e env) s fun v s =>
      after (bindDeclared kind own (some v) env) s fun _ s => execBindings n kind rest env s

/-- What is recorded of the rounds of a loop. -/
def execLoop : (steps : Nat) → Option Expr → Option Expr → Stmt → Env → Store → List Event
  | 0, _, _, _, _, _ => []
  | n + 1, test, update, body, env, s =>
    (evalTest n test env s).map .append ++ after (Script.evalTest n test env) s fun goesOn s =>
      if goesOn then
        exec n body env s ++ after (Script.exec n body env) s fun completion s =>
          match completion with
          | .break => []
          | .return _ => []
          | _ =>
            (evalUpdate n update env s).map .append ++ after (Script.evalUpdate n update env) s
              fun _ s => execLoop n test update body env s
      else []

/-- The additions of the test of a loop. -/
def evalTest : (steps : Nat) → Option Expr → Env → Store → List Append
  | 0, _, _, _ => []
  | _ + 1, none, _, _ => []
  | n + 1, some e, env, s => eval n e env s

/-- The additions of the update of a loop. -/
def evalUpdate : (steps : Nat) → Option Expr → Env → Store → List Append
  | 0, _, _, _ => []
  | _ + 1, none, _, _ => []
  | n + 1, some e, env, s => eval n e env s

/-- What is recorded of a body that is carried out once for each item. -/
def execEach : (steps : Nat) → LoopBinding → List Value → Stmt → Env → Store → List Event
  | 0, _, _, _, _, _ => []
  | _ + 1, _, [], _, _, _ => []
  | n + 1, binding, item :: rest, body, env, s =>
    after (bindRound binding item env) s fun inner s =>
      exec n body inner s ++ after (Script.exec n body inner) s fun completion s =>
        match completion with
        | .break => []
        | .return _ => []
        | _ => execEach n binding rest body env s

end

end Trace

/-- What a call from outside records of one variable. -/
def Definition.trace (definition : Definition) (name : String) (steps : Nat)
    (data : Json.Document) : List Event :=
  after (importDocument data) Store.initial fun v s =>
    Trace.invoke name steps definition globalEnv [v, helper] s

/-! ### Laws -/

section
variable {α γ δ : Type} {m : Run α} {s t : Store}

theorem after_ok {a : α} (h : m s = .ok a t) (next : α → Store → List γ) :
    after m s next = next a t := by
  rw [after, h]

@[simp] theorem after_nil : (after m s fun _ _ => ([] : List γ)) = [] := by
  rw [after]
  split <;> rfl

theorem filterMap_after (f : γ → Option δ) (next : α → Store → List γ) :
    (after m s next).filterMap f = after m s fun a t => (next a t).filterMap f := by
  rw [after, after]
  split <;> rfl

@[simp] theorem appended_append (l l' : List Event) :
    appended (l ++ l') = appended l ++ appended l' :=
  List.filterMap_append

@[simp] theorem appended_map (l : List Append) : appended (l.map .append) = l := by
  rw [appended, List.filterMap_map]
  exact List.filterMap_some

theorem appended_after (next : α → Store → List Event) :
    appended (after m s next) = after m s fun a t => appended (next a t) :=
  filterMap_after _ next

theorem not_returned_map (l : List Append) (name : Option String) :
    .returned name ∉ l.map Event.append := by
  intro h
  obtain ⟨a, -, ha⟩ := List.mem_map.mp h
  cases ha

@[simp] theorem written_append (l l' : List Append) :
    written (l ++ l') = written l ++ written l' := by
  induction l with
  | nil => exact String.empty_append.symm
  | cons a l ih =>
      rw [List.cons_append, written, written, ih]
      split
      · rfl
      · exact String.append_assoc.symm

@[simp] theorem written_enclosed (l : List Append) : written (l.map .enclose) = "" := by
  induction l with
  | nil => rfl
  | cons a l ih => exact ih

end

end Stencil.Script
