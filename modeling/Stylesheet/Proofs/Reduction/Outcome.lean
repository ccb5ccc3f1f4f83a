import Mathlib.Data.List.Forall2
import Stylesheet.Proofs.Digest.Layer
import Stylesheet.Reduction

/-!
# What a reduction can give

**Theorem (`Value.outcome_of_reduce`).** A value reduces to one of a few things: to itself if it is
plain, to a new plain value, to what a variable or a function stands for, to a reduced operand, to a
slash between two numbers, or to a list or map of reduced members (`Value.Outcome`). What holds of
every result of a reduction is proved over these cases.

Lists and maps are reduced member by member, from the left, and the first member without a result
decides. So their results are described by relating members place by place
(`Value.reduce_list_eq_ok`, `Value.reduce_map_eq_ok`).
-/

namespace Stylesheet

variable {ε α β : Type}

/-! ## Results of computations that can fail -/

theorem bind_eq_ok {x : Except ε α} {f : α → Except ε β} {b : β} :
    (x >>= f) = .ok b ↔ ∃ a, x = .ok a ∧ f a = .ok b := by
  cases x with
  | ok a => exact ⟨fun h => ⟨a, rfl, h⟩, fun ⟨a', ha, h⟩ => by cases ha; exact h⟩
  | error e => exact ⟨nofun, nofun⟩

theorem map_eq_ok {x : Except ε α} {f : α → β} {b : β} (h : x.map f = .ok b) :
    ∃ a, x = .ok a ∧ f a = b := by
  cases x with
  | ok a => exact ⟨a, rfl, Except.ok.inj h⟩
  | error e => cases h

/-- A list has results where each of its members has one. -/
theorem mapM_eq_ok {f : α → Except ε β} {as : List α} {bs : List β} :
    as.mapM f = .ok bs ↔ List.Forall₂ (fun a b => f a = .ok b) as bs := by
  induction as generalizing bs with
  | nil =>
    rw [List.mapM_nil, List.forall₂_nil_left_iff]
    exact ⟨fun h => (Except.ok.inj h).symm, fun h => congrArg Except.ok h.symm⟩
  | cons a as ih =>
    rw [List.mapM_cons, bind_eq_ok]
    constructor
    · rintro ⟨b, hb, h⟩
      obtain ⟨rest, hrest, h⟩ := bind_eq_ok.1 h
      obtain rfl := Except.ok.inj h
      exact .cons hb (ih.1 hrest)
    · rintro (_ | ⟨hb, hrest⟩)
      exact ⟨_, hb, bind_eq_ok.2 ⟨_, ih.2 hrest, rfl⟩⟩

/-- Whether the function of a call is one that the environment is asked for by its name. -/
def Call.AsksByName (c : Call Value) : Prop := c.isCss = false ∧ ∀ f, c.callee ≠ .native f

/-- The list that is rebuilt from reduced members. -/
def ListOf.rebuilt (l : ListOf Value) (items : List Value) (keywords : List (String × Value)) :
    ListOf Value :=
  { items, separator := l.separator, bracketed := l.bracketed, arglist := l.arglist, keywords,
    span := l.span }

namespace Value

variable {env : Environment} {v w : Value}

/-! ## Plain values -/

/-- Values without parts that reduction leaves as they are. -/
inductive Plain : Value → Prop
  | number (n : Number) : Plain (.number n)
  | color (c : Color) : Plain (.color c)
  | string (s : StringValue) : Plain (.string s)
  | bool (b : Bool) (span : Span) : Plain (.bool b span)
  | null (span : Span) : Plain (.null span)
  | parent (span : Span) : Plain (.parent span)
  | function (f : FunctionRef) : Plain (.function f)

theorem Plain.parts_eq (h : v.Plain) : v.parts = [] := by cases h <;> rfl

/-- Plain values that operators and calls make anew: they carry no digest, and a colour among them
is in no cell. -/
structure Fresh (v : Value) : Prop where
  plain : v.Plain
  memo : v.node.memo = none
  cell : ∀ c, v = .color c → c.cell = 0

/-! ## Results of calls -/

theorem settle_eq_ok {span : Span} (h : settle v span = .ok w) :
    w.Fresh ∨ v = w ∧ ∀ d, w ≠ .diagnostic d := by
  cases v with
  | diagnostic d =>
    unfold settle at h
    cases hseverity : d.severity with
    | error => simp [hseverity] at h
    | warning =>
      simp only [hseverity] at h
      obtain rfl := Except.ok.inj h
      exact .inl ⟨.null span, rfl, nofun⟩
  | _ =>
    obtain rfl := Except.ok.inj h
    exact .inr ⟨rfl, nofun⟩

theorem fresh_plainCall (name : String) (arguments : List (Argument Value)) (span : Span) :
    (plainCall name arguments span).Fresh := ⟨.string _, rfl, nofun⟩

theorem finishCall_of_not_asksByName {c : Call Value} (hasks : ¬ c.AsksByName)
    (arguments : List (Argument Value)) :
    finishCall env c arguments = .ok (plainCall c.name arguments c.span) ∨
      ∃ f, c.callee = .native f ∧ finishCall env c arguments =
        settle (env.host f (arguments.map Argument.value) c.span) c.span := by
  unfold finishCall
  cases hcallee : c.callee with
  | native f => exact .inr ⟨f, rfl, rfl⟩
  | named => exact absurd ⟨by simp [Call.isCss, hcallee], by simp [hcallee]⟩ hasks
  | function f =>
    cases hcss : c.isCss with
    | true => exact .inl rfl
    | false => exact absurd ⟨hcss, by simp [hcallee]⟩ hasks

/-- The error of a function that is asked for by its name is placed at the call, unless it has a
place. -/
theorem finishCall_of_answer {c : Call Value} {arguments : List (Argument Value)}
    {answer : Except EvalError Value} (hasks : c.AsksByName)
    (h : env.call? c.name arguments c.span = some answer) : finishCall env c arguments =
      (answer.mapError fun e => e.orAt c.span) >>= fun v => settle v c.span := by
  obtain ⟨hcss, hnative⟩ := hasks
  unfold finishCall
  cases hcallee : c.callee with
  | native f => exact absurd hcallee (hnative f)
  | named | function f =>
    simp only [hcss, h, Bool.false_eq_true, if_false]
    cases answer <;> rfl

/-- A name alone is plain CSS if the environment does not know it. -/
theorem finishCall_of_no_answer {c : Call Value} {arguments : List (Argument Value)}
    (hasks : c.AsksByName) (h : env.call? c.name arguments c.span = none) :
    c.callee = .named ∧ finishCall env c arguments = .ok (plainCall c.name arguments c.span) ∨
      c.callee ≠ .named ∧ finishCall env c arguments =
        .error (EvalError.placed { cause := .undefinedFunction c.name } c.span) := by
  obtain ⟨hcss, hnative⟩ := hasks
  unfold finishCall
  cases hcallee : c.callee with
  | native f => exact absurd hcallee (hnative f)
  | named | function f => simp [hcss, h]

/-! ## Results of operators -/

theorem fresh_onNumbers {op : Arithmetic} {a b : Number} {span : Span}
    (h : op.onNumbers a b span = .ok w) : w.Fresh := by
  unfold Arithmetic.onNumbers at h
  split at h
  · cases h
    exact ⟨.number _, rfl, nofun⟩
  · cases h

theorem fresh_onChannels (op : Arithmetic) (a b : Rgb Double) (alpha : Double) (span : Span) :
    (op.onChannels a b alpha span).Fresh :=
  ⟨.color _, rfl, fun _ hc => Value.color.inj hc ▸ rfl⟩

theorem fresh_onColors {op : Arithmetic} {a b : Color} {span : Span}
    (h : op.onColors? a b span = some w) : w.Fresh := by
  unfold Arithmetic.onColors? at h
  dsimp only at h
  split_ifs at h
  cases h
  exact fresh_onChannels _ _ _ _ _

theorem fresh_onColorNumber {op : Arithmetic} {c : Color} {n : Double} {span : Span}
    (h : op.onColorNumber? c n span = some w) : w.Fresh := by
  unfold Arithmetic.onColorNumber? at h
  dsimp only at h
  split_ifs at h
  cases h
  exact fresh_onChannels _ _ _ _ _

theorem fresh_onOthers {op : Arithmetic} {operand : Operand} {left right : Value} {span : Span}
    (h : op.onOthers operand left right span = .ok w) : w.Fresh := by
  unfold Arithmetic.onOthers Arithmetic.onTexts at h
  split_ifs at h
  cases op <;> cases h <;> exact ⟨.string _, rfl, nofun⟩

theorem fresh_apply {op : Arithmetic} {operand : Operand} {left right : Value} {span : Span}
    (h : op.apply operand left right span = .ok w) : w.Fresh := by
  unfold Arithmetic.apply at h
  split at h
  · exact fresh_onNumbers h
  · split at h
    · next hcolor =>
      cases h
      exact fresh_onColors hcolor
    · cases h
  · split at h
    · next hcolor =>
      cases h
      exact fresh_onColorNumber hcolor
    · cases h
  · split_ifs at h
    · cases h
      exact fresh_onChannels _ _ _ _ _
    · exact fresh_onOthers h
  · exact fresh_onOthers h

/-- Only `and` and `or` can do without their right operand. -/
theorem not_isDecidedBy {op : Operator} (h : op.isLogical = false) (left : Value) :
    op.isDecidedBy left = false := by
  cases op <;> first | rfl | cases h

/-- A division of numbers that stays as it is. -/
def slash (e : Operation Value) (a b : Number) : Value :=
  .operation { operand := e.operand, left := .number (a.setDelayed true),
               right := .number (b.setDelayed true), delayed := true, span := e.span }

theorem rebuildList_eq {l : ListOf Value} {items : List Value} {keywords : List (String × Value)}
    (h : l.arglist = false → keywords = []) :
    rebuildList l items keywords = .list (l.rebuilt items keywords) := by
  unfold rebuildList ListOf.rebuilt
  cases harglist : l.arglist with
  | true => rfl
  | false => rw [h harglist]; rfl

variable [Hasher]

/-! ## Lists and maps -/

theorem Plain.reduce_eq (h : v.Plain) : reduce env v = .ok v := by cases h <;> rfl

/-- One keyword with its value reduced. -/
def reduceKeyword (env : Environment) (e : String × Value) : Except EvalError (String × Value) := do
  let value ← reduce env e.2
  .ok (e.1, value)

/-- One pair with its key and its value reduced. -/
def reduceEntry (env : Environment) (e : Value × Value) : Except EvalError (Value × Value) := do
  let key ← reduce env e.1
  let value ← reduce env e.2
  .ok (key, value)

theorem reduceItems_eq (vs : List Value) : reduceItems env vs = vs.mapM (reduce env) := by
  induction vs with
  | nil => rfl
  | cons v vs ih =>
    rw [reduceItems, ih, List.mapM_cons]
    rfl

theorem reduceKeywords_eq (ks : List (String × Value)) :
    reduceKeywords env ks = ks.mapM (reduceKeyword env) := by
  induction ks with
  | nil => rfl
  | cons e ks ih =>
    rw [reduceKeywords, ih, List.mapM_cons, reduceKeyword, bind_assoc]
    rfl

theorem reduceEntries_eq (es : List (Value × Value)) :
    reduceEntries env es = es.mapM (reduceEntry env) := by
  induction es with
  | nil => rfl
  | cons e es ih =>
    rw [reduceEntries, ih, List.mapM_cons, reduceEntry, bind_assoc]
    simp only [bind_assoc]
    rfl

/-- A keyword reduces to one of the same name. -/
def KeywordReduces (env : Environment) (e f : String × Value) : Prop :=
  f.1 = e.1 ∧ reduce env e.2 = .ok f.2

/-- A pair reduces by key and value. -/
def EntryReduces (env : Environment) (e f : Value × Value) : Prop :=
  reduce env e.1 = .ok f.1 ∧ reduce env e.2 = .ok f.2

theorem reduceKeyword_eq_ok {e f : String × Value} :
    reduceKeyword env e = .ok f ↔ KeywordReduces env e f := by
  unfold reduceKeyword KeywordReduces
  rw [bind_eq_ok]
  constructor
  · rintro ⟨value, hvalue, h⟩
    obtain rfl := Except.ok.inj h
    exact ⟨rfl, hvalue⟩
  · rintro ⟨hname, hvalue⟩
    exact ⟨f.2, hvalue, congrArg Except.ok (Prod.ext hname.symm rfl)⟩

theorem reduceEntry_eq_ok {e f : Value × Value} :
    reduceEntry env e = .ok f ↔ EntryReduces env e f := by
  unfold reduceEntry EntryReduces
  simp only [bind_eq_ok]
  constructor
  · rintro ⟨key, hkey, value, hvalue, h⟩
    obtain rfl := Except.ok.inj h
    exact ⟨hkey, hvalue⟩
  · rintro ⟨hkey, hvalue⟩
    exact ⟨f.1, hkey, f.2, hvalue, rfl⟩

theorem reduceEntries_eq_ok {es pairs : List (Value × Value)} :
    reduceEntries env es = .ok pairs ↔ List.Forall₂ (EntryReduces env) es pairs := by
  rw [reduceEntries_eq, mapM_eq_ok]
  simp only [reduceEntry_eq_ok]

theorem reduce_list (l : ListOf Value) : reduce env (.list l) = (do
    let items ← l.items.mapM (reduce env)
    let keywords ← l.countedKeywords.mapM (reduceKeyword env)
    .ok (rebuildList l items keywords)) := by
  rw [reduce, reduceItems_eq]
  refine bind_congr fun items => ?_
  unfold ListOf.countedKeywords
  split
  · rw [reduceKeywords_eq]
  · rfl

/-- A list reduces to the list of its reduced items and keywords. -/
theorem reduce_list_eq_ok {l : ListOf Value} : reduce env (.list l) = .ok w ↔
    ∃ items keywords, List.Forall₂ (fun x y => reduce env x = .ok y) l.items items ∧
      List.Forall₂ (KeywordReduces env) l.countedKeywords keywords ∧
      w = .list (l.rebuilt items keywords) := by
  have hnone : ∀ keywords, List.Forall₂ (KeywordReduces env) l.countedKeywords keywords →
      l.arglist = false → keywords = [] := fun keywords h harglist => by
    rw [ListOf.countedKeywords, if_neg (by simp [harglist])] at h
    exact List.forall₂_nil_left_iff.1 h
  rw [reduce_list]
  simp only [bind_eq_ok, mapM_eq_ok, reduceKeyword_eq_ok]
  constructor
  · rintro ⟨items, hitems, keywords, hkeywords, h⟩
    rw [rebuildList_eq (hnone keywords hkeywords)] at h
    exact ⟨items, keywords, hitems, hkeywords, (Except.ok.inj h).symm⟩
  · rintro ⟨items, keywords, hitems, hkeywords, rfl⟩
    exact ⟨items, hitems, keywords, hkeywords, by rw [rebuildList_eq (hnone keywords hkeywords)]⟩

/-- A map reduces to the map of its reduced pairs, unless a key was or becomes a duplicate. -/
theorem reduce_map_eq_ok {m : MapOf Value} : reduce env (.map m) = .ok w ↔
    ∃ pairs, List.Forall₂ (EntryReduces env) m.entries pairs ∧ m.duplicate? = none ∧
      (MapOf.ofPairs m.span pairs).duplicate? = none ∧ w = .map (MapOf.ofPairs m.span pairs) := by
  rw [reduce]
  simp only [bind_eq_ok, reduceEntries_eq_ok]
  refine exists_congr fun pairs => and_congr_right fun _ => ?_
  unfold rebuildMap
  cases hwritten : m.duplicate? with
  | some key => simp
  | none =>
    cases hreduced : (MapOf.ofPairs m.span pairs).duplicate? with
    | some key => simp [hreduced]
    | none => simp [hreduced, eq_comm]

/-! ## Outcomes -/

/-- What `v` can reduce to. -/
inductive Outcome (env : Environment) : Value → Value → Prop
  | self {v : Value} (h : v.Plain) : Outcome env v v
  | fresh {v w : Value} (h : w.Fresh) : Outcome env v w
  | variable {x : Variable} {w : Value} (h : env.lookup? x.name = some w) :
      Outcome env (.variable x) w
  | returned {v w : Value} {name : String} {arguments : List (Argument Value)} {span : Span}
      (h : env.call? name arguments span = some (.ok w)) (hw : ∀ d, w ≠ .diagnostic d) :
      Outcome env v w
  | hosted {v w : Value} {f : Native} {arguments : List Value} {span : Span}
      (h : env.host f arguments span = w) (hw : ∀ d, w ≠ .diagnostic d) : Outcome env v w
  | operand {e : Operation Value} {x w : Value} (hx : x ∈ e.parts) (h : reduce env x = .ok w) :
      Outcome env (.operation e) w
  | slash {e : Operation Value} {a b : Number} (hop : e.operand.op = .div)
      (hleft : reduce env e.left = .ok (.number a))
      (hright : reduce env e.right = .ok (.number b)) : Outcome env (.operation e) (slash e a b)
  | list {l : ListOf Value} {items : List Value} {keywords : List (String × Value)}
      (hitems : List.Forall₂ (fun x y => reduce env x = .ok y) l.items items)
      (hkeywords : List.Forall₂ (KeywordReduces env) l.countedKeywords keywords) :
      Outcome env (.list l) (.list (l.rebuilt items keywords))
  | map {m : MapOf Value} {pairs : List (Value × Value)}
      (hpairs : List.Forall₂ (EntryReduces env) m.entries pairs)
      (hdup : (MapOf.ofPairs m.span pairs).duplicate? = none) :
      Outcome env (.map m) (.map (MapOf.ofPairs m.span pairs))

/-- A call gives text, or what a function returned. -/
theorem outcome_of_finishCall {c : Call Value} {arguments : List (Argument Value)}
    (h : finishCall env c arguments = .ok w) : Outcome env v w := by
  have hplain : finishCall env c arguments = .ok (plainCall c.name arguments c.span) →
      Outcome env v w := fun htext => by
    obtain rfl := Except.ok.inj (htext.symm.trans h)
    exact .fresh (fresh_plainCall _ _ _)
  by_cases hasks : c.AsksByName
  · cases hanswer : env.call? c.name arguments c.span with
    | none =>
      rcases finishCall_of_no_answer hasks hanswer with ⟨-, htext⟩ | ⟨-, herror⟩
      · exact hplain htext
      · rw [herror] at h
        cases h
    | some answer =>
      rw [finishCall_of_answer hasks hanswer] at h
      cases answer with
      | error e => cases h
      | ok u =>
        rcases settle_eq_ok h with hsettled | ⟨rfl, hw⟩
        · exact .fresh hsettled
        · exact .returned hanswer hw
  · rcases finishCall_of_not_asksByName hasks arguments with htext | ⟨f, -, hfinish⟩
    · exact hplain htext
    · rcases settle_eq_ok (hfinish.symm.trans h) with hsettled | ⟨hhost, hw⟩
      · exact .fresh hsettled
      · exact .hosted hhost hw

/-! ## Operations -/

/-- An operator gives one of its operands or a new plain value. -/
theorem operand_or_fresh_of_apply {operand : Operand} {left right : Value} {span : Span}
    (h : operand.apply left right span = .ok w) : w = left ∨ w = right ∨ w.Fresh := by
  have hbare : operand.applyBare left right span = .ok w := by
    unfold Operand.apply at h
    cases hbare : operand.applyBare left right span with
    | error e => rw [hbare] at h; cases h
    | ok v => rw [hbare] at h; exact h
  have hbool : ∀ {x : Except EvalError Bool} {f : Bool → Bool},
      x.map (fun b => Value.bool (f b) span) = .ok w → w = left ∨ w = right ∨ w.Fresh := by
    intro x f h
    obtain ⟨b, -, rfl⟩ := map_eq_ok h
    exact .inr (.inr ⟨.bool _ span, rfl, nofun⟩)
  unfold Operand.applyBare at hbare
  cases hop : operand.op <;> simp only [hop] at hbare
  case and =>
    cases hbare
    split
    · exact .inl rfl
    · exact .inr (.inl rfl)
  case or =>
    cases hbare
    split
    · exact .inl rfl
    · exact .inr (.inl rfl)
  case ne => exact hbool (f := fun b => !b) hbare
  case eq | gt | ge | lt | le => exact hbool (f := id) hbare
  all_goals exact .inr (.inr (fresh_apply hbare))

theorem operand_or_fresh {e : Operation Value} {left right : Value}
    (h : e.apply left right = .ok w) : w = left ∨ w = right ∨ w.Fresh := by
  unfold Operation.apply at h
  split_ifs at h
  · cases h
    exact .inr (.inr ⟨.string _, rfl, nofun⟩)
  · exact operand_or_fresh_of_apply h

/-- Every other operation is finished once its operands are reduced. -/
theorem reduce_operation_of_not_isLogical {e : Operation Value} {left right : Value}
    (hop : e.operand.op.isLogical = false) (hleft : reduce env e.left = .ok left)
    (hright : reduce env e.right = .ok right) :
    reduce env (.operation e) = finishOperation e left right := by
  rw [reduce, hleft]
  show (if e.operand.op.isDecidedBy left then _ else _) = _
  rw [not_isDecidedBy hop, if_neg Bool.false_ne_true, hright]
  rfl

/-- A kept slash is a division of two numbers. -/
theorem finishOperation_of_isKeptSlash {e : Operation Value} {left right : Value}
    (h : isKeptSlash e left right = true) : ∃ a b, left = .number a ∧ right = .number b ∧
      e.operand.op = .div ∧ finishOperation e left right = .ok (slash e a b) := by
  have hkept := h
  simp only [isKeptSlash, Bool.and_eq_true, beq_iff_eq] at h
  obtain ⟨⟨⟨-, hop⟩, hleft⟩, hright⟩ := h
  cases left <;> cases hleft
  cases right <;> cases hright
  exact ⟨_, _, rfl, rfl, hop, if_pos hkept⟩

/-- A finished operation is one of its operands, a new plain value, or a kept slash. -/
theorem outcome_of_finishOperation {e : Operation Value} {left right : Value}
    (hleft : reduce env e.left = .ok left) (hright : reduce env e.right = .ok right)
    (h : finishOperation e left right = .ok w) : Outcome env (.operation e) w := by
  by_cases hkept : isKeptSlash e left right = true
  · obtain ⟨a, b, rfl, rfl, hop, hslash⟩ := finishOperation_of_isKeptSlash hkept
    obtain rfl := Except.ok.inj (hslash.symm.trans h)
    exact .slash hop hleft hright
  · rw [finishOperation, if_neg hkept] at h
    rcases operand_or_fresh h with rfl | rfl | hfresh
    · exact .operand e.left_mem_parts hleft
    · exact .operand e.right_mem_parts hright
    · exact .fresh hfresh

/-- **What a value reduces to is one of its outcomes.** -/
theorem outcome_of_reduce (h : reduce env v = .ok w) : Outcome env v w := by
  cases v with
  | «variable» x =>
    unfold reduce at h
    split at h
    · next hvalue =>
      obtain rfl := Except.ok.inj h
      exact .variable hvalue
    · cases h
  | operation e =>
    rw [reduce, bind_eq_ok] at h
    obtain ⟨left, hleft, h⟩ := h
    split at h
    · obtain rfl := Except.ok.inj h
      exact .operand e.left_mem_parts hleft
    · obtain ⟨right, hright, h⟩ := bind_eq_ok.1 h
      exact outcome_of_finishOperation hleft hright h
  | template t =>
    obtain ⟨text, -, h⟩ := bind_eq_ok.1 h
    obtain rfl := Except.ok.inj h
    exact .fresh ⟨.string _, rfl, nofun⟩
  | call c =>
    obtain ⟨arguments, -, h⟩ := bind_eq_ok.1 h
    exact outcome_of_finishCall h
  | list l =>
    obtain ⟨items, keywords, hitems, hkeywords, rfl⟩ := reduce_list_eq_ok.1 h
    exact .list hitems hkeywords
  | map m =>
    obtain ⟨pairs, hpairs, -, hdup, rfl⟩ := reduce_map_eq_ok.1 h
    exact .map hpairs hdup
  | diagnostic d =>
    rcases settle_eq_ok h with hfresh | ⟨rfl, hw⟩
    · exact .fresh hfresh
    · exact absurd rfl (hw d)
  | number n => cases h; exact .self (.number n)
  | color c => cases h; exact .self (.color c)
  | string s => cases h; exact .self (.string s)
  | bool b span => cases h; exact .self (.bool b span)
  | null span => cases h; exact .self (.null span)
  | parent span => cases h; exact .self (.parent span)
  | function f => cases h; exact .self (.function f)

end Value

end Stylesheet
