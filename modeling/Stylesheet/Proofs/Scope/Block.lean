import Mathlib.Data.List.Induction
import Mathlib.Data.List.Infix
import Stylesheet.Scope

/-!
# Blocks in a scope

**Theorem (`Scope.block_restores`).** A block is entered, runs, and is left. If it leaves every
block that it enters and no other (`Scope.Balanced`), the depth is what it was, and so is every
variable, save one that no frame above the global one binds and that the block defined globally.
The functions it registered stay. In every run, also one that leaves more blocks than it entered,
the global frame keeps what was put into it.

The invariant of a run inside a block (`Scope.Inside`) is that the frames around the block stand
unchanged below those of the block, of which there is always at least one. So a definition in the
innermost frame never reaches a frame around the block or the global one. One step keeps the
invariant as long as no more blocks are left than were entered (`Scope.Inside.step`), and leaving
the block uncovers the frames around it.
-/

namespace Stylesheet

/-- What is found after a put: the new value under its key, and everything else as before. -/
theorem Entries.find?_put {κ β : Type} [BEq κ] [LawfulBEq κ] (key name : κ) (value : β)
    (entries : List (κ × β)) :
    find? (· == name) (put (· == key) key value entries) =
      if key == name then some value else find? (· == name) entries := by
  induction entries with
  | nil => by_cases h : key == name <;> simp [put, find?, h]
  | cons e rest ih =>
    unfold put
    by_cases he : e.1 == key
    · obtain rfl := eq_of_beq he
      by_cases h : e.1 == name <;> simp [find?, h]
    · rw [if_neg he]
      unfold find? at ih ⊢
      by_cases hname : e.1 == name
      · have hkey : (key == name) = false := by
          rw [← eq_of_beq hname, Bool.eq_false_iff]
          exact fun h => he (beq_iff_eq.2 (eq_of_beq h).symm)
        simp [hname, hkey]
      · simp only [List.find?_cons, Bool.eq_false_iff.2 hname, ih]

namespace Scope

/-! ## Runs -/

/-- What can be done to a scope. -/
inductive Step where
  | push
  | pop
  | define (name : String) (v : Value)
  | defineGlobal (name : String) (v : Value)
  | defineFunction (f : Native)

namespace Step

/-- Whether the step enters a block. -/
def isPush : Step → Bool
  | .push => true
  | _ => false

/-- Whether the step leaves a block. -/
def isPop : Step → Bool
  | .pop => true
  | _ => false

/-- The depth after the step. No step goes below the global frame. -/
def depthAfter (depth : Nat) : Step → Nat
  | .push => depth + 1
  | .pop => max 1 (depth - 1)
  | _ => depth

/-- The value of a name that the step defines globally. -/
def global? (name : String) : Step → Option Value
  | .defineGlobal n v => if n == name then some v else none
  | _ => none

/-- The value of a name that the step puts into the global frame: one that it defines globally, or
one that it defines where no block has been entered. -/
def written? (depth : Nat) (name : String) : Step → Option Value
  | .define n v => if depth = 1 ∧ n = name then some v else none
  | step => step.global? name

/-- The function of a name that the step registers. -/
def function? (name : String) : Step → Option Native
  | .defineFunction f => if f.name == name then some f else none
  | _ => none

end Step

/-- The scope after one step. -/
def step (s : Scope) : Step → Scope
  | .push => s.push
  | .pop => s.pop
  | .define name v => s.define name v
  | .defineGlobal name v => s.defineGlobal name v
  | .defineFunction f => s.defineFunction f

/-- The scope after some steps. -/
def run (s : Scope) (steps : List Step) : Scope := steps.foldl step s

/-- The last of the results that steps give. -/
def last? {α : Type} (f : Step → Option α) (steps : List Step) : Option α :=
  (steps.filterMap f).getLast?

/-- The value of a name that steps leave in the global frame, if they put one there. -/
def lastWritten? (name : String) : Nat → List Step → Option Value
  | _, [] => none
  | depth, step :: steps =>
    (lastWritten? name (step.depthAfter depth) steps).or (step.written? depth name)

/-- Steps that leave every block they enter and no other. -/
structure Balanced (steps : List Step) : Prop where
  ahead : ∀ p, p <+: steps → p.countP Step.isPop ≤ p.countP Step.isPush
  total : steps.countP Step.isPop = steps.countP Step.isPush

variable {s t : Scope} {steps : List Step}

theorem run_concat (s : Scope) (steps : List Step) (last : Step) :
    s.run (steps ++ [last]) = (s.run steps).step last := by
  rw [run, List.foldl_append]
  rfl

theorem last?_concat {α : Type} (f : Step → Option α) (steps : List Step) (last : Step) :
    last? f (steps ++ [last]) = (f last).or (last? f steps) := by
  unfold last?
  rw [List.filterMap_append, List.getLast?_append]
  cases h : f last <;> simp [h]

/-! ## One step -/

theorem bound?_bind (name n : String) (v : Value) (frame : Frame) :
    bound? name (bind n v frame) = if n == name then some v else bound? name frame :=
  Entries.find?_put n name v frame

theorem depth_step (s : Scope) (step : Step) :
    (s.step step).depth = step.depthAfter s.depth := by
  cases step with
  | pop =>
    show s.locals.tail.length + 1 = max 1 (s.locals.length + 1 - 1)
    rw [List.length_tail]
    omega
  | define name v =>
    show (s.define name v).depth = s.depth
    unfold Scope.define
    cases hlocals : s.locals with
    | nil => rfl
    | cons frame outer => simp [depth, hlocals]
  | push | defineGlobal name v | defineFunction f => rfl

theorem bound?_globals_step (s : Scope) (step : Step) (name : String) :
    bound? name (s.step step).globals =
      (step.written? s.depth name).or (bound? name s.globals) := by
  cases step with
  | define n v =>
    show bound? name (s.define n v).globals = _
    unfold Scope.define
    cases hlocals : s.locals with
    | nil =>
      show bound? name (bind n v s.globals) = _
      rw [bound?_bind]
      by_cases h : n = name <;> simp [Step.written?, depth, hlocals, h]
    | cons frame outer => simp [Step.written?, depth, hlocals]
  | defineGlobal n v =>
    show bound? name (bind n v s.globals) = _
    rw [bound?_bind]
    by_cases h : n = name <;> simp [Step.written?, Step.global?, h]
  | push | pop | defineFunction f => rfl

theorem function?_step (s : Scope) (step : Step) (name : String) :
    (s.step step).function? name = (step.function? name).or (s.function? name) := by
  cases step with
  | defineFunction f =>
    show Entries.find? (· == name) (Entries.put (· == f.name) f.name f s.functions) = _
    rw [Entries.find?_put]
    by_cases h : f.name = name <;> simp [Step.function?, Scope.function?, h]
  | define n v =>
    show (s.define n v).function? name = _
    unfold Scope.define
    cases s.locals <;> rfl
  | push | pop | defineGlobal n v => rfl

/-! ## Every run -/

theorem depth_run (s : Scope) (steps : List Step) :
    (s.run steps).depth = steps.foldl Step.depthAfter s.depth := by
  induction steps generalizing s with
  | nil => rfl
  | cons step steps ih =>
    show ((s.step step).run steps).depth = _
    rw [ih, depth_step]
    rfl

theorem bound?_globals_run (s : Scope) (steps : List Step) (name : String) :
    bound? name (s.run steps).globals =
      (lastWritten? name s.depth steps).or (bound? name s.globals) := by
  induction steps generalizing s with
  | nil => rfl
  | cons step steps ih =>
    show bound? name ((s.step step).run steps).globals = _
    rw [ih, depth_step, bound?_globals_step, ← Option.or_assoc]
    rfl

theorem function?_run (s : Scope) (steps : List Step) (name : String) :
    (s.run steps).function? name =
      (last? (Step.function? name) steps).or (s.function? name) := by
  induction steps using List.reverseRecOn with
  | nil => rfl
  | append_singleton steps last ih =>
    rw [run_concat, function?_step, ih, last?_concat, Option.or_assoc]

/-- Leaving blocks again and again uncovers the global frame, and nothing more. -/
theorem run_replicate_pop (s : Scope) (n : Nat) :
    s.run (List.replicate n .pop) = { s with locals := s.locals.drop n } := by
  induction n generalizing s with
  | zero => rfl
  | succ n ih =>
    show s.pop.run (List.replicate n .pop) = _
    rw [ih]
    show ({ s with locals := s.locals.tail.drop n } : Scope) = _
    rw [List.drop_tail]

/-! ## Inside a block -/

/-- A scope inside a block that was entered in `s` and has run `steps`: the frames of `s` stand
below those of the block, and global definitions have been made. -/
structure Inside (s : Scope) (steps : List Step) (t : Scope) : Prop where
  outer : s.locals <:+ t.locals
  height : t.locals.length + steps.countP Step.isPop =
    s.locals.length + 1 + steps.countP Step.isPush
  globals : ∀ name, bound? name t.globals =
    (last? (Step.global? name) steps).or (bound? name s.globals)

theorem countP_concat (p : Step → Bool) (steps : List Step) (last : Step) :
    (steps ++ [last]).countP p = steps.countP p + (p last).toNat := by
  rw [List.countP_append, List.countP_singleton]
  cases p last <;> rfl

theorem suffix_tail {α : Type} {as bs : List α} (h : as <:+ bs) (hlt : as.length < bs.length) :
    as <:+ bs.tail := by
  cases bs with
  | nil => exact h
  | cons b bs =>
    rcases List.suffix_cons_iff.1 h with rfl | h
    · exact absurd hlt (Nat.lt_irrefl _)
    · exact h

namespace Inside

theorem start (s : Scope) : Inside s [] s.push where
  outer := List.suffix_cons _ _
  height := rfl
  globals _ := rfl

/-- What is asked of the scope after one more step. -/
theorem concat {u : Scope} {last : Step} (h : Inside s steps t) (houter : s.locals <:+ u.locals)
    (hheight : u.locals.length + last.isPop.toNat = t.locals.length + last.isPush.toNat)
    (hglobals : ∀ name,
      bound? name u.globals = (last.global? name).or (bound? name t.globals)) :
    Inside s (steps ++ [last]) u where
  outer := houter
  height := by
    have hbefore := h.height
    rw [countP_concat, countP_concat]
    omega
  globals name := by rw [last?_concat, Option.or_assoc, ← h.globals, hglobals]

/-- One more step, with no more blocks left than entered. -/
theorem step (h : Inside s steps t) (last : Step)
    (hahead : (steps ++ [last]).countP Step.isPop ≤ (steps ++ [last]).countP Step.isPush) :
    Inside s (steps ++ [last]) (t.step last) := by
  have hheight := h.height
  rw [countP_concat, countP_concat] at hahead
  -- The block has a frame of its own before the step, and two where the step leaves a block.
  cases last with
  | push => exact h.concat (h.outer.trans (List.suffix_cons _ _)) rfl fun _ => rfl
  | pop =>
    change _ + 1 ≤ _ + 0 at hahead
    have hlt : s.locals.length + 1 < t.locals.length := by omega
    refine h.concat (suffix_tail h.outer (by omega)) ?_ fun _ => rfl
    show t.locals.tail.length + 1 = t.locals.length
    rw [List.length_tail]
    omega
  | define n v =>
    change _ + 0 ≤ _ + 0 at hahead
    have hlt : s.locals.length < t.locals.length := by omega
    have hrest := suffix_tail h.outer hlt
    show Inside s _ (t.define n v)
    unfold Scope.define
    cases hlocals : t.locals with
    | nil => simp [hlocals] at hlt
    | cons frame outer =>
      rw [hlocals] at hrest
      refine h.concat (hrest.trans (List.suffix_cons _ _)) ?_ fun _ => rfl
      rw [hlocals]
      rfl
  | defineGlobal n v => exact h.concat h.outer rfl fun name => bound?_globals_step t _ name
  | defineFunction f => exact h.concat h.outer rfl fun _ => rfl

/-- A run that at no point has left more blocks than it entered. -/
theorem run (s : Scope)
    (hahead : ∀ p, p <+: steps → p.countP Step.isPop ≤ p.countP Step.isPush) :
    Inside s steps (s.push.run steps) := by
  induction steps using List.reverseRecOn with
  | nil => exact start s
  | append_singleton steps last ih =>
    rw [run_concat]
    have hbefore : Inside s steps (s.push.run steps) :=
      ih fun p hp => hahead p (hp.trans (List.prefix_append _ _))
    exact hbefore.step last (hahead _ (List.prefix_refl _))

end Inside

/-! ## Blocks -/

/-- The value of a variable in the innermost frame above the global one that binds it. -/
def local? (s : Scope) (name : String) : Option Value := s.locals.findSome? (bound? name)

/-- A block leaves behind the frames around it, its global definitions, and its functions. -/
theorem Balanced.run_block (h : Balanced steps) (s : Scope) :
    (s.run (.push :: steps ++ [.pop])).locals = s.locals ∧
      ∀ name, bound? name (s.run (.push :: steps ++ [.pop])).globals =
        (last? (Step.global? name) steps).or (bound? name s.globals) := by
  have hinside : Inside s steps (s.push.run steps) := .run s h.ahead
  have hlength : (s.push.run steps).locals.length = s.locals.length + 1 := by
    have hheight := hinside.height
    rw [h.total] at hheight
    omega
  have hrun : s.run (.push :: steps ++ [.pop]) = (s.push.run steps).pop :=
    run_concat s (.push :: steps) .pop
  rw [hrun]
  refine ⟨(List.IsSuffix.eq_of_length (suffix_tail hinside.outer (by omega)) ?_).symm,
    hinside.globals⟩
  rw [List.length_tail, hlength]
  rfl

/-- **A block restores the scope.** Its definitions are gone when it is left, except global ones of
names that no frame around the block binds, of which the last is found, and the functions it
registered, of which the last of each name is found. Over every run the depth is that of the blocks
entered and not left, and at least one; the global frame binds a name to what was last put there;
and whoever leaves all blocks, however often, finds exactly what the global frame binds. -/
theorem block_restores (s : Scope) :
    (∀ block, Balanced block →
      let after := s.run (.push :: block ++ [.pop])
      after.depth = s.depth ∧
        (∀ name, after.lookup? name =
          if (s.local? name).isSome then s.lookup? name
          else (last? (Step.global? name) block).or (s.lookup? name)) ∧
        ∀ name, after.function? name =
          (last? (Step.function? name) block).or (s.function? name)) ∧
    ∀ steps,
      let after := s.run steps
      1 ≤ after.depth ∧ after.depth = steps.foldl Step.depthAfter s.depth ∧
        (∀ name, bound? name after.globals =
          (lastWritten? name s.depth steps).or (bound? name s.globals)) ∧
        ∀ n, after.depth ≤ n + 1 →
          (after.run (List.replicate n .pop)).depth = 1 ∧
            ∀ name, (after.run (List.replicate n .pop)).lookup? name =
              bound? name after.globals := by
  refine ⟨fun block h => ?block, fun steps => ?run⟩
  case block =>
    obtain ⟨hlocals, hglobals⟩ := h.run_block s
    refine ⟨congrArg (·.length + 1) hlocals, fun name => ?_, fun name => ?_⟩
    · show ((s.run _).locals.findSome? (bound? name)).or _ = _
      rw [hlocals, hglobals]
      unfold local? lookup?
      cases s.locals.findSome? (bound? name) <;> rfl
    · rw [function?_run, List.cons_append]
      show (last? _ (block ++ [.pop])).or _ = _
      rw [last?_concat]
      rfl
  case run =>
    refine ⟨depth_pos _, depth_run s steps, bound?_globals_run s steps, fun n hn => ?_⟩
    have hnone : (s.run steps).locals.drop n = [] :=
      List.drop_eq_nil_of_le (Nat.le_of_succ_le_succ hn)
    rw [run_replicate_pop, hnone]
    exact ⟨rfl, fun name => rfl⟩

/-- A value that is a word. -/
def word (text : String) : Value := .text .nowhere text

/-- A variable of the global frame, and one of a block. -/
def globalAndLocal : Scope :=
  run {} [.define "outer" (word "a"), .push, .define "inner" (word "b")]

/-- A block in which both variables are defined again, from a block inside it. -/
def redefining : List Step :=
  [.define "inner" (word "c"), .push, .define "outer" (word "d"),
    .defineGlobal "outer" (word "e"), .defineGlobal "inner" (word "f"), .pop,
    .defineFunction ⟨"echo", 0⟩, .defineFunction ⟨"echo", 1⟩]

theorem balanced_redefining : Balanced redefining where
  ahead := by
    have hall : ∀ p ∈ redefining.inits, p.countP Step.isPop ≤ p.countP Step.isPush := by decide
    exact fun p hp => hall p ((List.mem_inits p _).2 hp)
  total := by decide

/-- The block leaves the local variable, the last global definition of the other, and the last
function. -/
theorem block_restores_redefining :
    Balanced redefining ∧
      let after := globalAndLocal.run (.push :: redefining ++ [.pop])
      after.depth = 2 ∧ after.lookup? "inner" = some (word "b") ∧
        after.lookup? "outer" = some (word "e") ∧ after.function? "echo" = some ⟨"echo", 1⟩ := by
  obtain ⟨hdepth, hlookup, hfunction⟩ :=
    (block_restores globalAndLocal).1 redefining balanced_redefining
  exact ⟨balanced_redefining, hdepth, hlookup "inner", hlookup "outer", hfunction "echo"⟩

end Scope

end Stylesheet
