import Mathlib.Logic.Relation
import Stylesheet.Proofs.Operation.Failure
import Stylesheet.Proofs.Reduction.Outcome

/-!
# Failures of a reduction

**Theorem (`Value.reduce_error_placed`).** Every error of a reduction has a place, in every
environment. The error of a function that has a place of its own comes out as the function gave it,
from however deep a call.

A reduction goes from a value to those it is made of, and stops at the first error. So there are
two things to say.

* *Where it goes* (`Value.Step`): to the left operand, and to the right one if the left one does not
  decide; in a list, a map, a template or a call, to a member whose predecessors have all been
  reduced.
* *What it can find there* (`Value.Raises`): a name without a value, an operator that fails, a
  duplicate key, a call whose function fails, a diagnostic.

An error comes from what is stepped to, unchanged, or is raised at the value itself
(`Value.reduce_eq_error`). By induction the errors of a reduction are those that are raised where it
gets to (`Value.reduce_eq_error_iff_raises`), and each of these is placed where it is raised. Only
there is a place given to an error: nothing on the way out looks at it.
-/

namespace Stylesheet

variable {ε α β : Type}

/-! ## First failures -/

/-- The error of a computation without a result. -/
def failure? : Except ε α → Option ε
  | .ok _ => none
  | .error e => some e

theorem failure?_eq_some {x : Except ε α} {e : ε} : failure? x = some e ↔ x = .error e := by
  cases x <;> simp [failure?]

theorem failure?_eq_none {x : Except ε α} : failure? x = none ↔ ∃ a, x = .ok a := by
  cases x <;> simp [failure?]

/-- A computation in two steps fails like the first one, or else like the second one. -/
theorem failure?_bind {x : Except ε α} {f : α → Except ε β} {next : Option ε}
    (h : ∀ a, failure? (f a) = next) : failure? (x >>= f) = (failure? x).or next := by
  cases x with
  | ok a => exact h a
  | error e => rfl

theorem failure?_bind_ok (x : Except ε α) (f : α → β) :
    failure? (x >>= fun a => .ok (f a)) = failure? x := by
  cases x <;> rfl

theorem bind_eq_error {x : Except ε α} {f : α → Except ε β} {e : ε} :
    (x >>= f) = .error e ↔ x = .error e ∨ ∃ a, x = .ok a ∧ f a = .error e := by
  cases x with
  | ok a =>
    constructor
    · exact fun h => .inr ⟨a, rfl, h⟩
    · rintro (h | ⟨a', ha, h⟩)
      · cases h
      · obtain rfl := Except.ok.inj ha
        exact h
  | error e' =>
    show Except.error e' = .error e ↔ _
    simp

/-- `and` and `or` do not fail. -/
theorem Operand.Fails.isLogical_eq [Hasher] {operand : Operand} {left right : Value} {span : Span}
    {e : EvalError} (h : operand.Fails span left right e) : operand.op.isLogical = false := by
  by_contra hop
  obtain ⟨w, hw⟩ := exists_applyBare_of_logical (by simpa using hop) left right span
  obtain ⟨e', he', -⟩ := apply_eq_error.1 h.apply_eq
  rw [hw] at he'
  cases he'

/-! ## Calls -/

/-- The error of a diagnostic, at its place. -/
def Diagnostic.errorAt (d : Diagnostic) (span : Span) : EvalError :=
  (EvalError.custom d.message).placed span

/-- How a call fails whose arguments are reduced, and with which error. -/
inductive Call.Fails (env : Environment) (c : Call Value) (arguments : List (Argument Value)) :
    EvalError → Prop
  /-- The function fails. Its error is placed at the call if it has no place. -/
  | returned {e : EvalError} (hasks : c.AsksByName)
      (h : env.call? c.name arguments c.span = some (.error e)) :
      Fails env c arguments (e.orAt c.span)
  /-- The function returns an error as its result. -/
  | reported {d : Diagnostic} (hasks : c.AsksByName)
      (h : env.call? c.name arguments c.span = some (.ok (.diagnostic d)))
      (hseverity : d.severity = .error) : Fails env c arguments (d.errorAt c.span)
  /-- The host function returns an error as its result. -/
  | hosted {f : Native} {d : Diagnostic} (hcallee : c.callee = .native f)
      (h : env.host f (arguments.map Argument.value) c.span = .diagnostic d)
      (hseverity : d.severity = .error) : Fails env c arguments (d.errorAt c.span)
  /-- The environment does not know the function. Only a name alone would be plain CSS then. -/
  | unknown (hasks : c.AsksByName) (hcallee : c.callee ≠ .named)
      (h : env.call? c.name arguments c.span = none) :
      Fails env c arguments (EvalError.placed { cause := .undefinedFunction c.name } c.span)

namespace Value

section Errors

variable [Hasher] {env : Environment} {v x : Value} {vs : List Value} {e : EvalError}

/-- The first error among values that are reduced one after the other. -/
def firstFailure? (env : Environment) (vs : List Value) : Option EvalError :=
  vs.findSome? fun v => failure? (reduce env v)

theorem firstFailure?_eq_some : firstFailure? env vs = some e ↔
    ∃ before x after, vs = before ++ x :: after ∧ (∀ y ∈ before, ∃ w, reduce env y = .ok w) ∧
      reduce env x = .error e := by
  unfold firstFailure?
  rw [List.findSome?_eq_some_iff]
  simp only [failure?_eq_some, failure?_eq_none, and_comm (a := reduce env _ = _)]

theorem failure?_reduce (v : Value) : failure? (reduce env v) = firstFailure? env [v] := by
  cases h : reduce env v <;> simp [firstFailure?, failure?, h]

theorem firstFailure?_append (vs ws : List Value) :
    firstFailure? env (vs ++ ws) = (firstFailure? env vs).or (firstFailure? env ws) :=
  List.findSome?_append

/-- If what is done with each member fails like the values in it, what is done with all of them
fails like all the values. -/
theorem failure?_mapM {f : α → Except EvalError β} {values : α → List Value}
    (h : ∀ a, failure? (f a) = firstFailure? env (values a)) (as : List α) :
    failure? (as.mapM f) = firstFailure? env (as.flatMap values) := by
  induction as with
  | nil => rfl
  | cons a as ih =>
    have hrest : ∀ b, failure? (as.mapM f >>= fun bs => pure (b :: bs)) =
        firstFailure? env (as.flatMap values) := fun b => (failure?_bind_ok _ _).trans ih
    rw [List.mapM_cons, failure?_bind hrest, List.flatMap_cons, firstFailure?_append, h]

theorem failure?_reduceFragments (fs : List (Fragment Value)) :
    failure? (reduceFragments env fs) = firstFailure? env (fs.flatMap Fragment.parts) := by
  induction fs with
  | nil => rfl
  | cons f fs ih =>
    have hrest : ∀ s : String, failure? (reduceFragments env fs >>= fun rest => .ok (s ++ rest)) =
        firstFailure? env (fs.flatMap Fragment.parts) := fun s => (failure?_bind_ok _ _).trans ih
    cases f with
    | text s => exact hrest s
    | hole v =>
      rw [reduceFragments, failure?_bind fun w : Value => hrest w.interpolated, failure?_reduce,
        List.flatMap_cons, firstFailure?_append]
      rfl

theorem failure?_reduceArguments (as : List (Argument Value)) :
    failure? (reduceArguments env as) = firstFailure? env (as.map Argument.value) := by
  induction as with
  | nil => rfl
  | cons a as ih =>
    have hrest : ∀ w : Value, failure? (reduceArguments env as >>= fun rest =>
        .ok ({ a with value := w } :: rest)) = firstFailure? env (as.map Argument.value) :=
      fun w => (failure?_bind_ok _ _).trans ih
    rw [reduceArguments, failure?_bind hrest, failure?_reduce, ← firstFailure?_append]
    rfl

theorem failure?_reduceKeyword (k : String × Value) :
    failure? (reduceKeyword env k) = firstFailure? env [k.2] := by
  rw [reduceKeyword, failure?_bind_ok, failure?_reduce]

theorem failure?_reduceEntry (p : Value × Value) :
    failure? (reduceEntry env p) = firstFailure? env [p.1, p.2] := by
  have hvalue : ∀ key : Value, failure? (reduce env p.2 >>= fun value => .ok (key, value)) =
      firstFailure? env [p.2] := fun key => by rw [failure?_bind_ok, failure?_reduce]
  rw [reduceEntry, failure?_bind hvalue, failure?_reduce, ← firstFailure?_append]
  rfl

theorem failure?_reduceEntries (es : List (Value × Value)) :
    failure? (reduceEntries env es) = firstFailure? env (es.flatMap fun p => [p.1, p.2]) := by
  rw [reduceEntries_eq]
  exact failure?_mapM failure?_reduceEntry es

theorem failure?_reduce_list (l : ListOf Value) :
    failure? (reduce env (.list l)) = firstFailure? env l.parts := by
  have hitems : failure? (l.items.mapM (reduce env)) = firstFailure? env l.items := by
    rw [failure?_mapM failure?_reduce, List.flatMap_singleton']
  have hkeywords : ∀ items, failure? (l.countedKeywords.mapM (reduceKeyword env) >>= fun keywords =>
      .ok (rebuildList l items keywords)) =
        firstFailure? env (l.countedKeywords.map Prod.snd) := fun items => by
    rw [failure?_bind_ok, failure?_mapM failure?_reduceKeyword, ← List.map_eq_flatMap]
  rw [reduce_list, failure?_bind hkeywords, hitems, ← firstFailure?_append]
  rfl

/-! ## Steps -/

/-- The values that are reduced one after the other when a value is. The operands of an operation
are not among them, as the left one may decide. -/
def members : Value → List Value
  | .template t => t.parts
  | .list l => l.parts
  | .map m => m.entries.flatMap fun e => [e.1, e.2]
  | .call c => c.parts
  | _ => []

/-- The reduction of one value goes on to another one that it is made of. -/
inductive Step (env : Environment) : Value → Value → Prop
  /-- To the left operand in any case. -/
  | left (e : Operation Value) : Step env (.operation e) e.left
  /-- To the right operand if the left one does not decide. -/
  | right {e : Operation Value} {left : Value} (hleft : reduce env e.left = .ok left)
      (hopen : e.operand.op.isDecidedBy left = false) : Step env (.operation e) e.right
  /-- To a member once the members before it are reduced. -/
  | member {v x : Value} {before after : List Value} (hmembers : v.members = before ++ x :: after)
      (hbefore : ∀ y ∈ before, ∃ w, reduce env y = .ok w) : Step env v x

omit [Hasher] in
theorem mem_parts_of_mem_members (h : x ∈ v.members) : x ∈ v.parts := by
  cases v with
  | map m =>
    obtain ⟨e, he, hx⟩ := List.mem_flatMap.1 h
    simp only [List.mem_cons, List.not_mem_nil, or_false] at hx
    rcases hx with rfl | rfl
    · exact MapOf.key_mem_parts he
    · exact MapOf.value_mem_parts he
  | template t | list l | call c => exact h
  | _ => cases h

theorem Step.mem_parts (h : Step env v x) : x ∈ v.parts := by
  cases h with
  | left e => exact e.left_mem_parts
  | right => exact Operation.right_mem_parts _
  | member hmembers => exact mem_parts_of_mem_members (by simp [hmembers])

/-- Values that are not operations are stepped into in the order of their members. -/
theorem firstFailure?_members (hv : ∀ o, v ≠ .operation o) :
    firstFailure? env v.members = some e ↔ ∃ x, Step env v x ∧ reduce env x = .error e := by
  rw [firstFailure?_eq_some]
  constructor
  · rintro ⟨before, x, after, hmembers, hbefore, hx⟩
    exact ⟨x, .member hmembers hbefore, hx⟩
  · rintro ⟨x, hstep, hx⟩
    cases hstep with
    | left o | right => exact absurd rfl (hv _)
    | member hmembers hbefore => exact ⟨_, x, _, hmembers, hbefore, hx⟩

/-! ## What is raised -/

/-- The errors that arise at a value itself, and not at one that it is made of. -/
inductive Raises (env : Environment) : Value → EvalError → Prop
  | unbound {x : Variable} (h : env.lookup? x.name = none) :
      Raises env (.variable x) (EvalError.placed { cause := .undefinedVariable x.name } x.span)
  | operator {o : Operation Value} {left right : Value} {e : EvalError}
      (hleft : reduce env o.left = .ok left) (hright : reduce env o.right = .ok right)
      (htext : o.isInterpolated = false) (h : o.operand.Fails o.span left right e) :
      Raises env (.operation o) e
  | duplicate {m : MapOf Value} {pairs : List (Value × Value)} {key : Value}
      (hpairs : List.Forall₂ (EntryReduces env) m.entries pairs)
      (h : m.duplicate?.or (MapOf.ofPairs m.span pairs).duplicate? = some key) :
      Raises env (.map m) (EvalError.placed { cause := .duplicateKey key.inspect } m.span)
  | call {c : Call Value} {arguments : List (Argument Value)} {e : EvalError}
      (harguments : reduceArguments env c.arguments = .ok arguments)
      (h : c.Fails env arguments e) : Raises env (.call c) e
  | diagnostic {d : Diagnostic} (hseverity : d.severity = .error) :
      Raises env (.diagnostic d) (d.errorAt d.span)

/-- What is raised has a place. -/
theorem Raises.span?_isSome (h : Raises env v e) : e.span?.isSome = true := by
  cases h with
  | unbound | duplicate | diagnostic => rfl
  | operator _ _ _ h => rw [h.span?_eq]; rfl
  | call _ h => cases h <;> rfl

omit [Hasher] in
theorem settle_eq_error {span : Span} : settle v span = .error e ↔
    ∃ d, v = .diagnostic d ∧ d.severity = .error ∧ d.errorAt span = e := by
  cases v with
  | diagnostic d => cases h : d.severity <;> simp [settle, h, Diagnostic.errorAt]
  | _ => simp [settle]

omit [Hasher] in
/-- **A call fails exactly as its table says.** -/
theorem finishCall_eq_error {c : Call Value} {arguments : List (Argument Value)} :
    finishCall env c arguments = .error e ↔ c.Fails env arguments e := by
  constructor
  · intro h
    by_cases hasks : c.AsksByName
    · cases hanswer : env.call? c.name arguments c.span with
      | none =>
        rcases finishCall_of_no_answer hasks hanswer with ⟨-, htext⟩ | ⟨hcallee, hunknown⟩
        · rw [htext] at h
          cases h
        · obtain rfl := Except.error.inj (hunknown.symm.trans h)
          exact .unknown hasks hcallee hanswer
      | some answer =>
        rw [finishCall_of_answer hasks hanswer] at h
        cases answer with
        | error e' =>
          obtain rfl := Except.error.inj h
          exact .returned hasks hanswer
        | ok v =>
          obtain ⟨d, rfl, hseverity, rfl⟩ := settle_eq_error.1 h
          exact .reported hasks hanswer hseverity
    · rcases finishCall_of_not_asksByName hasks arguments with htext | ⟨f, hcallee, hfinish⟩
      · rw [htext] at h
        cases h
      · obtain ⟨d, hhost, hseverity, rfl⟩ := settle_eq_error.1 (hfinish.symm.trans h)
        exact .hosted hcallee hhost hseverity
  · intro h
    cases h with
    | returned hasks h => rw [finishCall_of_answer hasks h]; rfl
    | reported hasks h hseverity =>
      rw [finishCall_of_answer hasks h]
      exact settle_eq_error.2 ⟨_, rfl, hseverity, rfl⟩
    | hosted hcallee h hseverity =>
      rw [finishCall, hcallee]
      exact settle_eq_error.2 ⟨_, h, hseverity, rfl⟩
    | unknown hasks hcallee h =>
      exact ((finishCall_of_no_answer hasks h).resolve_left fun htext => hcallee htext.1).2

/-- Two numbers with a slash between them do not fail. -/
theorem not_fails_of_isKeptSlash {o : Operation Value} {left right : Value}
    (hkept : isKeptSlash o left right = true) : ¬ o.operand.Fails o.span left right e := by
  obtain ⟨a, b, rfl, rfl, hop, -⟩ := finishOperation_of_isKeptSlash hkept
  have hdiv : o.operand.op = Arithmetic.div.operator := hop
  intro h
  have happly := h.apply_eq
  rw [Operand.apply_numbers hdiv, Arithmetic.onNumbers_eq_error] at happly
  exact Bool.false_ne_true happly.1

/-- An operation whose operands are reduced fails like its operator, unless it is text. -/
theorem finishOperation_eq_error {o : Operation Value} {left right : Value} :
    finishOperation o left right = .error e ↔
      o.isInterpolated = false ∧ o.operand.Fails o.span left right e := by
  by_cases hkept : isKeptSlash o left right = true
  · obtain ⟨a, b, -, -, -, hslash⟩ := finishOperation_of_isKeptSlash hkept
    rw [hslash]
    exact ⟨nofun, fun h => absurd h.2 (not_fails_of_isKeptSlash hkept)⟩
  · rw [finishOperation, if_neg hkept, Operation.apply]
    cases hinterpolated : o.isInterpolated with
    | false => simpa using ⟨Operand.fails_of_apply, Operand.Fails.apply_eq⟩
    | true =>
      refine ⟨fun h => ?_, fun h => absurd h.1 (by simp)⟩
      split at h
      · cases h
      · next hop =>
        have hlogical : o.operand.op.isLogical = true := by simpa using hop
        exact absurd (Operand.fails_of_apply h).isLogical_eq (by simp [hlogical])

/-! ## One step -/

/-- What is raised at an operation arises once both operands are reduced. -/
theorem reduce_operation_eq_error {o : Operation Value} :
    reduce env (.operation o) = .error e ↔
      (∃ x, Step env (.operation o) x ∧ reduce env x = .error e) ∨ Raises env (.operation o) e := by
  rw [reduce]
  constructor
  · intro h
    rcases bind_eq_error.1 h with hleft | ⟨left, hleft, h⟩
    · exact .inl ⟨o.left, .left o, hleft⟩
    · split at h
      · cases h
      · next hopen =>
        rcases bind_eq_error.1 h with hright | ⟨right, hright, h⟩
        · exact .inl ⟨o.right, .right hleft (by simpa using hopen), hright⟩
        · obtain ⟨htext, hfails⟩ := finishOperation_eq_error.1 h
          exact .inr (.operator hleft hright htext hfails)
  · rintro (⟨x, hstep, hx⟩ | hraises)
    · cases hstep with
      | left => rw [hx]; rfl
      | right hleft hopen =>
        rw [hleft]
        show (if o.operand.op.isDecidedBy _ then _ else _) = _
        rw [hopen, if_neg Bool.false_ne_true, hx]
        rfl
      | member hmembers => exact absurd hmembers (by simp [members])
    · cases hraises with
      | operator hleft hright htext h =>
        rw [← reduce, reduce_operation_of_not_isLogical h.isLogical_eq hleft hright]
        exact finishOperation_eq_error.2 ⟨htext, h⟩

/-- A value whose members are reduced first fails like the first of them that fails, or else like
what is done with all of them. -/
theorem reduce_eq_error_of_members {x : Except EvalError α} {f : α → Except EvalError Value}
    (hv : ∀ o, v ≠ .operation o) (hreduce : reduce env v = x >>= f)
    (hmembers : failure? x = firstFailure? env v.members)
    (hraises : (∃ a, x = .ok a ∧ f a = .error e) ↔ Raises env v e) :
    reduce env v = .error e ↔ (∃ x, Step env v x ∧ reduce env x = .error e) ∨ Raises env v e := by
  rw [hreduce, bind_eq_error, hraises, ← failure?_eq_some, hmembers, firstFailure?_members hv]

/-- A value without members can only fail at itself. -/
theorem reduce_eq_error_of_no_members (hv : ∀ o, v ≠ .operation o) (hmembers : v.members = [])
    (hraises : reduce env v = .error e ↔ Raises env v e) :
    reduce env v = .error e ↔ (∃ x, Step env v x ∧ reduce env x = .error e) ∨ Raises env v e := by
  have hnone : ¬ ∃ x, Step env v x ∧ reduce env x = .error e := by
    rw [← firstFailure?_members hv, hmembers]
    exact nofun
  rw [or_iff_right hnone, hraises]

theorem rebuildMap_eq_error {m : MapOf Value} {pairs : List (Value × Value)} :
    rebuildMap m pairs = .error e ↔
      ∃ key, m.duplicate?.or (MapOf.ofPairs m.span pairs).duplicate? = some key ∧
        EvalError.placed { cause := .duplicateKey key.inspect } m.span = e := by
  unfold rebuildMap
  cases h : m.duplicate?.or (MapOf.ofPairs m.span pairs).duplicate? <;> simp [h]

/-- **An error comes from a value that is stepped to, or is raised at the value itself.** -/
theorem reduce_eq_error : reduce env v = .error e ↔
    (∃ x, Step env v x ∧ reduce env x = .error e) ∨ Raises env v e := by
  cases v with
  | operation o => exact reduce_operation_eq_error
  | template t =>
    refine reduce_eq_error_of_members (by simp) rfl (failure?_reduceFragments _) ⟨?_, nofun⟩
    rintro ⟨text, -, h⟩
    cases h
  | list l =>
    have hreduce : reduce env (.list l) = reduce env (.list l) >>= .ok := (bind_pure _).symm
    refine reduce_eq_error_of_members (by simp) hreduce (failure?_reduce_list l) ⟨?_, nofun⟩
    rintro ⟨w, -, h⟩
    cases h
  | map m =>
    refine reduce_eq_error_of_members (by simp) rfl (failure?_reduceEntries _) ⟨?_, ?_⟩
    · rintro ⟨pairs, hpairs, h⟩
      obtain ⟨key, hkey, rfl⟩ := rebuildMap_eq_error.1 h
      exact .duplicate (reduceEntries_eq_ok.1 hpairs) hkey
    · intro hraises
      cases hraises with
      | duplicate hpairs hkey =>
        exact ⟨_, reduceEntries_eq_ok.2 hpairs, rebuildMap_eq_error.2 ⟨_, hkey, rfl⟩⟩
  | call c =>
    refine reduce_eq_error_of_members (by simp) rfl (failure?_reduceArguments _) ⟨?_, ?_⟩
    · rintro ⟨arguments, harguments, h⟩
      exact .call harguments (finishCall_eq_error.1 h)
    · intro hraises
      cases hraises with
      | call harguments h => exact ⟨_, harguments, finishCall_eq_error.2 h⟩
  | «variable» x =>
    refine reduce_eq_error_of_no_members (by simp) rfl ⟨fun h => ?_, fun hraises => ?_⟩
    · unfold reduce at h
      split at h
      · cases h
      · next hvalue =>
        obtain rfl := Except.error.inj h
        exact .unbound hvalue
    · cases hraises with
      | unbound h => rw [reduce, h]
  | diagnostic d =>
    refine reduce_eq_error_of_no_members (by simp) rfl ⟨fun h => ?_, fun hraises => ?_⟩
    · obtain ⟨d', hd, hseverity, rfl⟩ := settle_eq_error.1 h
      cases hd
      exact .diagnostic hseverity
    · cases hraises with
      | diagnostic h => exact settle_eq_error.2 ⟨d, rfl, h, rfl⟩
  | _ =>
    refine reduce_eq_error_of_no_members (by simp) rfl ⟨fun h => ?_, fun hraises => ?_⟩
    · cases h
    · cases hraises

/-! ## Runs -/

/-- The reduction of `v` gets to `x`, in any number of steps. -/
abbrev Reaches (env : Environment) : Value → Value → Prop := Relation.ReflTransGen (Step env)

/-- **The errors of a reduction are those that are raised where it gets to.** -/
theorem reduce_eq_error_iff_raises :
    reduce env v = .error e ↔ ∃ x, Reaches env v x ∧ Raises env x e := by
  constructor
  · induction v using Value.induction with
    | step v ih =>
      intro h
      rcases reduce_eq_error.1 h with ⟨x, hstep, hx⟩ | hraises
      · obtain ⟨y, hreaches, hy⟩ := ih x hstep.mem_parts hx
        exact ⟨y, .head hstep hreaches, hy⟩
      · exact ⟨v, .refl, hraises⟩
  · rintro ⟨x, hreaches, hraises⟩
    induction hreaches using Relation.ReflTransGen.head_induction_on with
    | refl => exact reduce_eq_error.2 (.inr hraises)
    | head hstep _ ih => exact reduce_eq_error.2 (.inl ⟨_, hstep, ih⟩)

/-- **Every error has a place, and the error of a function keeps the place it has.** Wherever the
reduction gets to a call whose function fails, and gives a place, the result is that very error. -/
theorem reduce_error_placed (env : Environment) (v : Value) :
    (∀ e, reduce env v = .error e → e.span?.isSome = true) ∧
    ∀ (c : Call Value) (arguments : List (Argument Value)) (e : EvalError),
      Reaches env v (.call c) → c.AsksByName →
      reduceArguments env c.arguments = .ok arguments →
      env.call? c.name arguments c.span = some (.error e) → e.span?.isSome = true →
      reduce env v = .error e := by
  constructor
  · intro e h
    obtain ⟨x, -, hraises⟩ := reduce_eq_error_iff_raises.1 h
    exact hraises.span?_isSome
  · intro c arguments e hreaches hasks harguments hanswer hspan
    obtain ⟨place, hplace⟩ := Option.isSome_iff_exists.1 hspan
    refine reduce_eq_error_iff_raises.2 ⟨.call c, hreaches, .call harguments ?_⟩
    have hreturned := Call.Fails.returned hasks hanswer
    rwa [EvalError.orAt_of_span? hplace] at hreturned

end Errors

/-- An environment in which the function `own` fails at a place, and every other one at none. -/
def failing : Environment where
  lookup? _ := none
  call? name _ _ :=
    if name = "own" then
      some (.error { cause := .custom "no size", span? := some (.point ⟨2⟩ 5),
                     notes := [{ message := "in the function" }] })
    else some (.error (.custom "no size"))
  host _ _ span := .null span

/-- A call without arguments. -/
def callOf (name : String) : Call Value := { name, arguments := [], span := .point ⟨1⟩ 3 }

/-- A list of `null` and of a map, in whose value the sum of a number and of a call over `v` is
interpolated. -/
def buried (v : Value) : Value :=
  .commaList .nowhere [.null .nowhere, .map {
    entries := [(.text .nowhere "a", .template {
      fragments := [.text "x", .hole (.operation {
        operand := ⟨.add, true, true⟩
        left := .number (.plain .nowhere 1)
        right := .call { name := "own", arguments := [{ value := v }], span := .nowhere }
        span := .nowhere })]
      span := .nowhere })]
    span := .nowhere }]

theorem reaches_buried [Hasher] (env : Environment) (v : Value) : Reaches env (buried v) v := by
  have hsecond : ∀ {u y x : Value} {after : List Value}, u.members = y :: x :: after →
      reduce env y = .ok y → Step env u x := fun {u y x after} hmembers hy =>
    @Step.member _ env u x [y] after hmembers fun z hz => ⟨y, List.mem_singleton.1 hz ▸ hy⟩
  have hfirst : ∀ {u x : Value} {after : List Value}, u.members = x :: after → Step env u x :=
    fun {u x after} hmembers => @Step.member _ env u x [] after hmembers nofun
  exact .head (hsecond rfl rfl) (.head (hsecond rfl rfl) (.head (hfirst rfl)
    (.head (.right rfl rfl) (.head (hfirst rfl) .refl))))

/-- The error of a function comes out as it is, and gets the place of the call if it has none. -/
theorem reduce_error_placed_buried :
    (∃ e, failing.call? "own" [] (.point ⟨1⟩ 3) = some (.error e) ∧ e.notes.length = 1 ∧
      e.span? = some (.point ⟨2⟩ 5) ∧
      reduce failing (buried (.call (callOf "own"))) = .error e) ∧
    ∃ e, failing.call? "other" [] (.point ⟨1⟩ 3) = some (.error e) ∧ e.span? = none ∧
      reduce failing (buried (.call (callOf "other"))) = .error (e.placed (.point ⟨1⟩ 3)) ∧
      (e.placed (.point ⟨1⟩ 3)).span?.isSome = true := by
  have hown := (reduce_error_placed failing (buried (.call (callOf "own")))).2 (callOf "own") [] _
    (reaches_buried failing _) ⟨rfl, nofun⟩ rfl rfl rfl
  have hother : reduce failing (buried (.call (callOf "other"))) =
      .error ((EvalError.custom "no size").placed (.point ⟨1⟩ 3)) := rfl
  have hplaced := (reduce_error_placed failing (buried (.call (callOf "other")))).1 _ hother
  exact ⟨⟨_, rfl, rfl, rfl, hown⟩, _, rfl, rfl, hother, hplaced⟩

end Value

end Stylesheet
