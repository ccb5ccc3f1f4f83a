import Stylesheet.Proofs.Reduction.Outcome

/-!
# What a reduction asks of its environment

**Theorem (`Value.reduce_eq_of_agreeAt`).** Two environments that answer alike at every variable and
every call that stands in a value (`Environment.AgreeAt`) give it the same result, or the same
error. Nothing else of an environment can be seen in a result: no name that the value does not
mention, and no function that its calls do not go to.

The proof follows two runs over one value. By induction they agree on the parts, and so on the
lists of parts, where the same part is the first to fail (`mapM_congr`). What is done with reduced
parts asks nothing, except at a call, and there both environments are asked for one name with one
list of arguments (`Value.finishCall_congr`). Parts that are never reached, such as an operand
after the other has decided, need no care: the runs agree on them as well.
-/

namespace Stylesheet

/-- Two environments answer alike what the topmost node of a value asks: a variable asks for its
value, and a call for the result of its function, with any arguments and at any place. A call of a
function of plain CSS asks nothing. -/
def Environment.AgreeAt (env env' : Environment) : Value → Prop
  | .variable x => env.lookup? x.name = env'.lookup? x.name
  | .call c =>
    match c.callee with
    | .native f => ∀ arguments span, env.host f arguments span = env'.host f arguments span
    | _ => c.isCss = false → ∀ arguments span,
        env.call? c.name arguments span = env'.call? c.name arguments span
  | _ => True

theorem mapM_congr {ε α β : Type} {f g : α → Except ε β} {as : List α} (h : ∀ a ∈ as, f a = g a) :
    as.mapM f = as.mapM g := by
  induction as with
  | nil => rfl
  | cons a as ih =>
    rw [List.mapM_cons, List.mapM_cons, h a List.mem_cons_self,
      ih fun b hb => h b (List.mem_cons_of_mem a hb)]

namespace Value

section Answers

variable [Hasher] {env env' : Environment} {v : Value}

/-! ## Lists of parts -/

theorem reduceKeyword_congr {e : String × Value} (h : reduce env e.2 = reduce env' e.2) :
    reduceKeyword env e = reduceKeyword env' e := by
  rw [reduceKeyword, reduceKeyword, h]

theorem reduceEntry_congr {e : Value × Value} (hkey : reduce env e.1 = reduce env' e.1)
    (hval : reduce env e.2 = reduce env' e.2) : reduceEntry env e = reduceEntry env' e := by
  rw [reduceEntry, reduceEntry, hkey, hval]

theorem reduceArguments_congr {as : List (Argument Value)}
    (h : ∀ a ∈ as, reduce env a.value = reduce env' a.value) :
    reduceArguments env as = reduceArguments env' as := by
  induction as with
  | nil => rfl
  | cons a as ih =>
    rw [reduceArguments, reduceArguments, h a List.mem_cons_self,
      ih fun b hb => h b (List.mem_cons_of_mem a hb)]

theorem reduceFragments_congr {fs : List (Fragment Value)}
    (h : ∀ f ∈ fs, ∀ x ∈ f.parts, reduce env x = reduce env' x) :
    reduceFragments env fs = reduceFragments env' fs := by
  induction fs with
  | nil => rfl
  | cons f fs ih =>
    have hrest := ih fun g hg => h g (List.mem_cons_of_mem f hg)
    cases f with
    | text s => rw [reduceFragments, reduceFragments, hrest]
    | hole x =>
      rw [reduceFragments, reduceFragments, h _ List.mem_cons_self x (Fragment.hole_mem_parts x),
        hrest]

theorem reduce_list_congr {l : ListOf Value} (h : ∀ x ∈ l.parts, reduce env x = reduce env' x) :
    reduce env (.list l) = reduce env' (.list l) := by
  have hitems : l.items.mapM (reduce env) = l.items.mapM (reduce env') :=
    mapM_congr fun x hx => h x (ListOf.item_mem_parts hx)
  have hkeywords : l.countedKeywords.mapM (reduceKeyword env) =
      l.countedKeywords.mapM (reduceKeyword env') :=
    mapM_congr fun e he => reduceKeyword_congr (h e.2 (ListOf.keyword_mem_parts he))
  rw [reduce_list, reduce_list, hitems, hkeywords]

theorem reduce_map_congr {m : MapOf Value} (h : ∀ x ∈ m.parts, reduce env x = reduce env' x) :
    reduce env (.map m) = reduce env' (.map m) := by
  have hentries : m.entries.mapM (reduceEntry env) = m.entries.mapM (reduceEntry env') :=
    mapM_congr fun e he =>
      reduceEntry_congr (h e.1 (MapOf.key_mem_parts he)) (h e.2 (MapOf.value_mem_parts he))
  rw [reduce, reduce, reduceEntries_eq, reduceEntries_eq, hentries]

/-! ## Operations and calls -/

theorem reduce_operation_congr {e : Operation Value}
    (h : ∀ x ∈ e.parts, reduce env x = reduce env' x) :
    reduce env (.operation e) = reduce env' (.operation e) := by
  rw [reduce, reduce, h e.left e.left_mem_parts, h e.right e.right_mem_parts]

omit [Hasher] in
/-- With its arguments reduced, a call asks for its function only. -/
theorem finishCall_congr {c : Call Value} (h : env.AgreeAt env' (.call c))
    (arguments : List (Argument Value)) :
    finishCall env c arguments = finishCall env' c arguments := by
  unfold Environment.AgreeAt at h
  unfold finishCall
  cases hcallee : c.callee with
  | native f =>
    simp only [hcallee] at h ⊢
    rw [h]
  | named | function f =>
    simp only [hcallee] at h ⊢
    cases hcss : c.isCss with
    | true => rfl
    | false => rw [h hcss]

/-! ## Values -/

/-- **Environments that agree at what stands in a value reduce it alike**, to the same value or
with the same error. -/
theorem reduce_eq_of_agreeAt (h : v.Each (env.AgreeAt env')) : reduce env v = reduce env' v := by
  induction v using Value.induction with
  | step v ih =>
    have hparts : ∀ x ∈ v.parts, reduce env x = reduce env' x := fun x hx => ih x hx (h.part x hx)
    have hhere : env.AgreeAt env' v := h.here
    cases v with
    | «variable» x =>
      have hvalue : env.lookup? x.name = env'.lookup? x.name := hhere
      rw [reduce, reduce, hvalue]
    | operation e => exact reduce_operation_congr hparts
    | template t =>
      have hfragments : reduceFragments env t.fragments = reduceFragments env' t.fragments :=
        reduceFragments_congr fun f hf x hx => hparts x (Template.mem_parts hf hx)
      rw [reduce, reduce, hfragments]
    | call c =>
      have harguments : reduceArguments env c.arguments = reduceArguments env' c.arguments :=
        reduceArguments_congr fun a ha => hparts a.value (Call.argument_mem_parts ha)
      rw [reduce, reduce, harguments]
      exact bind_congr fun arguments => finishCall_congr hhere arguments
    | list l => exact reduce_list_congr hparts
    | map m => exact reduce_map_congr hparts
    | _ => rfl

end Answers

/-- An environment with one variable and one function, and with the same value for everything
else. -/
def sizeAndEcho (other : Value) : Environment where
  lookup? name := if name = "size" then some (.number (.ofText .nowhere 12 "px")) else some other
  call? name arguments span :=
    if name = "echo" then some (.ok (.commaList span (arguments.map Argument.value)))
    else some (.ok other)
  host _ _ _ := other

/-- A map of one pair: a text with the variable in it, and a call of the function with it. -/
def sizedEcho : Value :=
  .map {
    entries := [
      (.template { fragments := [.text "a", .hole (.variable ⟨"size", .nowhere⟩)],
                   span := .nowhere },
        .call { name := "echo", arguments := [{ value := .variable ⟨"size", .nowhere⟩ }],
                span := .nowhere })]
    span := .nowhere }

theorem agreeAt_sizedEcho (other other' : Value) :
    sizedEcho.Each ((sizeAndEcho other).AgreeAt (sizeAndEcho other')) := by
  have hsize : Each ((sizeAndEcho other).AgreeAt (sizeAndEcho other'))
      (.variable ⟨"size", .nowhere⟩) := .intro rfl fun _ hx => by cases hx
  refine .intro trivial ?_
  show ∀ x ∈ [_, _], Each _ x
  simp only [List.forall_mem_cons, List.not_mem_nil, false_implies, implies_true, and_true]
  exact ⟨.intro trivial fun x hx => List.mem_singleton.1 hx ▸ hsize,
    .intro (fun _ _ _ => rfl) fun x hx => List.mem_singleton.1 hx ▸ hsize⟩

/-- Two environments that differ in every other name reduce the map alike. -/
theorem reduce_eq_of_agreeAt_sizedEcho :
    sizedEcho.Each ((sizeAndEcho (.null .nowhere)).AgreeAt (sizeAndEcho (.bool true .nowhere))) ∧
      (sizeAndEcho (.null .nowhere)).lookup? "width" ≠
        (sizeAndEcho (.bool true .nowhere)).lookup? "width" ∧
      (reduce (sizeAndEcho (.null .nowhere)) sizedEcho).isOk = true ∧
      reduce (sizeAndEcho (.null .nowhere)) sizedEcho =
        reduce (sizeAndEcho (.bool true .nowhere)) sizedEcho := by
  refine ⟨agreeAt_sizedEcho _ _, ?_, rfl, reduce_eq_of_agreeAt (agreeAt_sizedEcho _ _)⟩
  intro h
  cases Option.some.inj h

end Value

end Stylesheet
