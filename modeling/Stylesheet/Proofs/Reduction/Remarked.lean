import Stylesheet.Proofs.Operation.Unmarked
import Stylesheet.Proofs.Reduction.NormalForm

/-!
# Marks matter to division only

**Theorem (`Value.Remarked.indistinguishable`).** Marking a value as delayed or not delayed, as a
whole or anywhere inside another one (`Value.Remarked`), changes neither what it equals nor its
digest nor any text of it. And if it holds no division and no call, it does not change what becomes
of it either: in every environment both reduce with one error, or to equal values that print the
same CSS.

Both are about what is left without the marks, which is one value for both
(`Value.Remarked.unmarked_eq`). Equality, digests and texts read that alone. Reduction passes marks
on, so what it gives is compared without them: **the result of the value without marks is that of
the value, up to marks (`Value.reduce_unmarked`)**. The induction goes over the value, and each
layer has one law, that what is done with reduced parts commutes with taking their marks away. Two
layers have no such law. A marked division of two numbers is kept as it stands, and a call shows the
marks of its arguments to a function, which may do with them what it likes.
-/

namespace Stylesheet

/-! ## Computations up to a view of their results -/

section Views

variable {ε α β γ δ : Type}

/-- Two computations whose results show the same to `k` can go on alike. -/
theorem bind_eq_of_map_eq {x y : Except ε α} {f g : α → Except ε β} {k : α → γ}
    (hxy : x.map k = y.map k) (hfg : ∀ a b, k a = k b → f a = g b) : (x >>= f) = (y >>= g) := by
  cases x with
  | error e =>
    cases y with
    | error e' => exact congrArg Except.error (Except.error.inj hxy)
    | ok b => cases hxy
  | ok a =>
    cases y with
    | error e => cases hxy
    | ok b => exact hfg a b (Except.ok.inj hxy)

theorem map_bind {x : Except ε α} {f : α → Except ε β} {l : β → δ} :
    (x >>= f).map l = x >>= fun a => (f a).map l := by
  cases x <;> rfl

theorem map_bind_congr {x y : Except ε α} {f g : α → Except ε β} {k : α → γ} {l : β → δ}
    (hxy : x.map k = y.map k) (hfg : ∀ a b, k a = k b → (f a).map l = (g b).map l) :
    (x >>= f).map l = (y >>= g).map l := by
  rw [map_bind, map_bind]
  exact bind_eq_of_map_eq hxy hfg

theorem map_mapM_congr {f : α → Except ε β} {r : α → α} {k : β → γ} {as : List α}
    (h : ∀ a ∈ as, (f (r a)).map k = (f a).map k) :
    ((as.map r).mapM f).map (List.map k) = (as.mapM f).map (List.map k) := by
  induction as with
  | nil => rfl
  | cons a as ih =>
    have hrest := ih fun b hb => h b (List.mem_cons_of_mem a hb)
    rw [List.map_cons, List.mapM_cons, List.mapM_cons]
    refine map_bind_congr (h a List.mem_cons_self) fun b b' hb => ?_
    refine map_bind_congr hrest fun bs bs' hbs => ?_
    exact congrArg Except.ok (congrArg₂ List.cons hb hbs)

end Views

/-! ## Rebuilt maps -/

namespace MapOf

open Value

variable [Hasher]

theorem contains_unmarked (m : MapOf Value) (key : Value) :
    (m.map unmarked).contains key.unmarked = m.contains key := by
  unfold contains get?
  show (Entries.find? (fun stored => key.unmarked.meets stored)
    (m.entries.map (Prod.map unmarked unmarked))).isSome = _
  rw [Entries.find?_map, Option.isSome_map]
  simp only [meets_unmarked]

theorem insert_unmarked (m : MapOf Value) (key value : Value) :
    (m.map unmarked).insert key.unmarked value.unmarked = (m.insert key value).map unmarked := by
  have hentries : Entries.put (fun stored => key.unmarked.meets stored) key.unmarked value.unmarked
      (m.entries.map (Prod.map unmarked unmarked)) =
        (Entries.put (fun stored => key.meets stored) key value m.entries).map
          (Prod.map unmarked unmarked) := by
    rw [Entries.put_map]
    simp only [meets_unmarked]
  have hduplicate : (m.duplicate?.map unmarked).or
      (if m.contains key then some key.unmarked else none) =
        (m.duplicate?.or (if m.contains key then some key else none)).map unmarked := by
    cases m.duplicate? with
    | some first => rfl
    | none => cases m.contains key <;> rfl
  unfold insert
  rw [contains_unmarked]
  exact congrArg₂ (fun entries duplicate? => { m with
    entries, duplicate?, expanded := false, memo := none }) hentries hduplicate

theorem ofPairs_unmarked (span : Span) (pairs : List (Value × Value)) :
    ofPairs span (pairs.map (Prod.map unmarked unmarked)) =
      (ofPairs span pairs).map unmarked := by
  induction pairs using List.reverseRecOn with
  | nil => rfl
  | append_singleton pairs e ih =>
    rw [List.map_append, List.map_singleton, ofPairs_concat, ofPairs_concat, ih]
    exact insert_unmarked _ e.1 e.2

end MapOf

namespace Value

section Reducing

variable [Hasher] {env : Environment} {v w : Value}

omit [Hasher] in
/-- The error of a map with a duplicate key shows the key by its inspection. -/
theorem duplicateKey_unmarked (key : Value) (span : Span) :
    EvalError.placed { cause := .duplicateKey key.unmarked.inspect } span =
      EvalError.placed { cause := .duplicateKey key.inspect } span := by
  rw [key.inspect_unmarked]

/-- Of its recorded duplicate a map shows the inspection only. -/
theorem rebuildMap_unmarked (m : MapOf Value) (pairs : List (Value × Value)) :
    rebuildMap (m.map unmarked) pairs = rebuildMap m pairs := by
  obtain ⟨entries, duplicate?, expanded, span, memo⟩ := m
  cases duplicate? with
  | none => rfl
  | some key => exact congrArg Except.error (duplicateKey_unmarked key span)

theorem map_unmarked_rebuildMap (m : MapOf Value) (pairs : List (Value × Value)) :
    (rebuildMap m pairs).map unmarked = rebuildMap m (pairs.map (Prod.map unmarked unmarked)) := by
  unfold rebuildMap
  rw [MapOf.ofPairs_unmarked]
  cases m.duplicate? with
  | some key => rfl
  | none =>
    cases hreduced : MapOf.ofPairs m.span pairs with
    | mk entries duplicate? expanded span memo =>
      cases duplicate? with
      | none => exact congrArg Except.ok (unmarked_eq _)
      | some key => exact congrArg Except.error (duplicateKey_unmarked key m.span).symm

/-! ## Rebuilt lists -/

omit [Hasher] in
theorem unmarked_rebuildList (l : ListOf Value) (items : List Value)
    (keywords : List (String × Value)) : (rebuildList l items keywords).unmarked =
      rebuildList l (items.map unmarked) (keywords.map (Prod.map id unmarked)) := by
  unfold rebuildList
  split <;> exact unmarked_eq _

/-! ## Reducing -/

/-- The value is no division and no call. -/
def Undivided : Value → Prop
  | .operation e => e.operand.op ≠ .div
  | .call _ => False
  | _ => True

/-- What a value without marks reduces to is, without marks, what it reduces to with them. -/
def ReducesUnmarked (env : Environment) (v : Value) : Prop :=
  (reduce env v.unmarked).map unmarked = (reduce env v).map unmarked

theorem reduceFragments_unmarked {fs : List (Fragment Value)}
    (h : ∀ p ∈ fs, ∀ x ∈ p.parts, ReducesUnmarked env x) :
    reduceFragments env (fs.map (Fragment.map unmarked)) = reduceFragments env fs := by
  induction fs with
  | nil => rfl
  | cons p fs ih =>
    have hrest := ih fun q hq => h q (List.mem_cons_of_mem p hq)
    cases p with
    | text s =>
      rw [List.map_cons, Fragment.map, reduceFragments, reduceFragments, hrest]
    | hole x =>
      have hx := h _ List.mem_cons_self x (Fragment.hole_mem_parts x)
      rw [List.map_cons, Fragment.map, reduceFragments, reduceFragments, hrest]
      refine bind_eq_of_map_eq hx fun a b hab => ?_
      rw [← a.interpolated_unmarked, hab, b.interpolated_unmarked]

theorem reduceKeyword_unmarked {e : String × Value} (h : ReducesUnmarked env e.2) :
    (reduceKeyword env (e.map id unmarked)).map (Prod.map id unmarked) =
      (reduceKeyword env e).map (Prod.map id unmarked) :=
  map_bind_congr h fun _ _ hab => congrArg (fun x => Except.ok (e.1, x)) hab

theorem reduceEntry_unmarked {e : Value × Value} (hkey : ReducesUnmarked env e.1)
    (hval : ReducesUnmarked env e.2) :
    (reduceEntry env (e.map unmarked unmarked)).map (Prod.map unmarked unmarked) =
      (reduceEntry env e).map (Prod.map unmarked unmarked) :=
  map_bind_congr hkey fun _ _ hab => map_bind_congr hval fun _ _ hcd =>
    congrArg Except.ok (congrArg₂ Prod.mk hab hcd)

theorem reducesUnmarked_list {l : ListOf Value} (h : ∀ x ∈ l.parts, ReducesUnmarked env x) :
    ReducesUnmarked env (.list l) := by
  have hitems := map_mapM_congr (r := unmarked) fun x hx => h x (ListOf.item_mem_parts hx)
  have hkeywords := map_mapM_congr (r := Prod.map id unmarked) fun e he =>
    reduceKeyword_unmarked (h e.2 (ListOf.keyword_mem_parts he))
  let bare : ListOf Value := { l.map unmarked with delayed := false }
  have hcounted : bare.countedKeywords = l.countedKeywords.map (Prod.map id unmarked) :=
    ListOf.countedKeywords_map unmarked l
  have hbare : (list l).unmarked = .list bare := unmarked_eq _
  rw [ReducesUnmarked, hbare, reduce_list, reduce_list, hcounted]
  refine map_bind_congr hitems fun items items' hitems => ?_
  refine map_bind_congr hkeywords fun keywords keywords' hkeywords => ?_
  refine congrArg Except.ok ((unmarked_rebuildList bare items keywords).trans ?_)
  rw [hitems, hkeywords]
  exact (unmarked_rebuildList l items' keywords').symm

theorem reducesUnmarked_map {m : MapOf Value} (h : ∀ x ∈ m.parts, ReducesUnmarked env x) :
    ReducesUnmarked env (.map m) := by
  have hentries := map_mapM_congr (r := Prod.map unmarked unmarked) fun e he =>
    reduceEntry_unmarked (h e.1 (MapOf.key_mem_parts he)) (h e.2 (MapOf.value_mem_parts he))
  rw [ReducesUnmarked, unmarked_eq]
  show (reduceEntries env (m.entries.map (Prod.map unmarked unmarked)) >>=
    rebuildMap (m.map unmarked)).map unmarked = (reduceEntries env m.entries >>=
      rebuildMap m).map unmarked
  rw [reduceEntries_eq, reduceEntries_eq]
  refine map_bind_congr hentries fun pairs pairs' hpairs => ?_
  -- Keys meet alike on both sides, because they are compared without their marks.
  rw [rebuildMap_unmarked, map_unmarked_rebuildMap, map_unmarked_rebuildMap, hpairs]

theorem finishOperation_of_ne_div {e : Operation Value} (hop : e.operand.op ≠ .div)
    (left right : Value) : finishOperation e left right = e.apply left right := by
  refine if_neg fun hkept => hop ?_
  obtain ⟨-, -, -, -, hdiv, -⟩ := finishOperation_of_isKeptSlash hkept
  exact hdiv

omit [Hasher] in
theorem isDecidedBy_unmarked (op : Operator) (left : Value) :
    op.isDecidedBy left.unmarked = op.isDecidedBy left := by
  cases op <;> simp [Operator.isDecidedBy, isTruthy, isFalse_unmarked]

theorem reducesUnmarked_operation {e : Operation Value} (hop : e.operand.op ≠ .div)
    (h : ∀ x ∈ e.parts, ReducesUnmarked env x) : ReducesUnmarked env (.operation e) := by
  have hfinish {a b c d : Value} (hab : a.unmarked = b.unmarked) (hcd : c.unmarked = d.unmarked) :
      (finishOperation e.unmarked a c).map unmarked = (finishOperation e b d).map unmarked := by
    have hunmarked : finishOperation e.unmarked a c = e.apply a c :=
      (finishOperation_of_ne_div (e := e.unmarked) hop a c).trans (e.unmarked_apply a c)
    rw [hunmarked, finishOperation_of_ne_div hop, ← e.apply_unmarked, hab, hcd, e.apply_unmarked]
  rw [ReducesUnmarked, unmarked_eq]
  show (reduce env (.operation e.unmarked)).map unmarked = _
  rw [reduce, reduce]
  refine map_bind_congr (h e.left e.left_mem_parts) fun a b hab => ?_
  -- The left operand decides on both sides or on neither.
  have hdecided : e.operand.op.isDecidedBy a = e.operand.op.isDecidedBy b := by
    rw [← isDecidedBy_unmarked, hab, isDecidedBy_unmarked]
  show (if e.operand.op.isDecidedBy a then Except.ok a
    else reduce env e.right.unmarked >>= finishOperation e.unmarked a).map unmarked = _
  rw [hdecided]
  split
  · exact congrArg Except.ok hab
  · exact map_bind_congr (h e.right e.right_mem_parts) fun c d hcd => hfinish hab hcd

/-- **The result of a value without marks is that of the value, up to marks.** -/
theorem reduce_unmarked (h : v.Each Undivided) : ReducesUnmarked env v := by
  induction v using Value.induction with
  | step v ih =>
    have hparts : ∀ x ∈ v.parts, ReducesUnmarked env x := fun x hx => ih x hx (h.part x hx)
    have hhere : Undivided v := h.here
    cases v with
    | list l => exact reducesUnmarked_list hparts
    | map m => exact reducesUnmarked_map hparts
    | operation e => exact reducesUnmarked_operation hhere hparts
    | call c => exact hhere.elim
    | template t =>
      have hfragments : reduceFragments env (t.fragments.map (Fragment.map unmarked)) =
          reduceFragments env t.fragments :=
        reduceFragments_unmarked fun p hp x hx => hparts x (Template.mem_parts hp hx)
      rw [ReducesUnmarked, unmarked_eq]
      show (reduceFragments env (t.fragments.map (Fragment.map unmarked)) >>= fun text =>
        .ok (.quoted t.span text t.quote?)).map unmarked = _
      rw [hfragments]
      rfl
    | _ => rfl

/-! ## Marking inside a value -/

/-- One value is another one with marks set or taken away: those that marking it reaches, or those
that marking a value inside it reaches, at any depth and any number of times. -/
inductive Remarked : Value → Value → Prop
  /-- The value itself is marked. -/
  | mark (on : Bool) (v : Value) : Remarked v (v.setDelayed on)
  /-- Marks are set in one place, and then in another one. -/
  | trans {u v w : Value} (first : Remarked u v) (second : Remarked v w) : Remarked u w
  -- The value that is marked stands inside a list, a map, a template, a call or an operation.
  | item (l : ListOf Value) (before after : List Value) {v w : Value} (h : Remarked v w) :
      Remarked (.list { l with items := before ++ v :: after })
        (.list { l with items := before ++ w :: after })
  | keyword (l : ListOf Value) (name : String) (before after : List (String × Value))
      {v w : Value} (h : Remarked v w) :
      Remarked (.list { l with keywords := before ++ (name, v) :: after })
        (.list { l with keywords := before ++ (name, w) :: after })
  | key (m : MapOf Value) (value : Value) (before after : List (Value × Value)) {v w : Value}
      (h : Remarked v w) :
      Remarked (.map { m with entries := before ++ (v, value) :: after })
        (.map { m with entries := before ++ (w, value) :: after })
  | value (m : MapOf Value) (key : Value) (before after : List (Value × Value)) {v w : Value}
      (h : Remarked v w) :
      Remarked (.map { m with entries := before ++ (key, v) :: after })
        (.map { m with entries := before ++ (key, w) :: after })
  | duplicate (m : MapOf Value) {v w : Value} (h : Remarked v w) :
      Remarked (.map { m with duplicate? := some v }) (.map { m with duplicate? := some w })
  | hole (t : Template Value) (before after : List (Fragment Value)) {v w : Value}
      (h : Remarked v w) :
      Remarked (.template { t with fragments := before ++ .hole v :: after })
        (.template { t with fragments := before ++ .hole w :: after })
  | argument (c : Call Value) (a : Argument Value) (before after : List (Argument Value))
      {v w : Value} (h : Remarked v w) :
      Remarked (.call { c with arguments := before ++ { a with value := v } :: after })
        (.call { c with arguments := before ++ { a with value := w } :: after })
  | left (e : Operation Value) {v w : Value} (h : Remarked v w) :
      Remarked (.operation { e with left := v }) (.operation { e with left := w })
  | right (e : Operation Value) {v w : Value} (h : Remarked v w) :
      Remarked (.operation { e with right := v }) (.operation { e with right := w })

omit [Hasher] in
/-- **Without their marks the two values are one.** -/
theorem Remarked.unmarked_eq (h : Remarked v w) : w.unmarked = v.unmarked := by
  induction h with
  | mark on v => exact unmarked_setDelayed on v
  | trans _ _ first second => exact second.trans first
  | item _ _ _ _ ih | keyword _ _ _ _ _ ih =>
    rw [Value.unmarked_eq, Value.unmarked_eq]
    simp only [mapParts, ListOf.map, List.map_append, List.map_cons, Prod.map, ih]
  | key _ _ _ _ _ ih | value _ _ _ _ _ ih | duplicate _ _ ih =>
    rw [Value.unmarked_eq, Value.unmarked_eq]
    simp only [mapParts, MapOf.map, List.map_append, List.map_cons, Prod.map, Option.map_some, ih]
  | hole _ _ _ _ ih =>
    rw [Value.unmarked_eq, Value.unmarked_eq]
    simp only [mapParts, Template.map, List.map_append, List.map_cons, Fragment.map, ih]
  | argument _ _ _ _ _ ih =>
    rw [Value.unmarked_eq, Value.unmarked_eq]
    simp only [mapParts, Call.map, List.map_append, List.map_cons, Argument.map, ih]
  | left _ _ ih | right _ _ ih =>
    rw [Value.unmarked_eq, Value.unmarked_eq]
    simp only [mapParts, Operation.map, ih]

omit [Hasher] in
theorem undivided_unmarked (v : Value) : Undivided v.unmarked ↔ Undivided v := by
  cases v <;> exact Iff.rfl

/-- Values that differ in their marks reduce to values that differ in their marks, or fail alike. -/
theorem Remarked.map_reduce_eq (h : Remarked v w) (hv : v.Each Undivided) :
    (reduce env w).map unmarked = (reduce env v).map unmarked := by
  have hw : w.Each Undivided := by
    rw [← each_unmarked_iff undivided_unmarked, h.unmarked_eq, each_unmarked_iff undivided_unmarked]
    exact hv
  exact (reduce_unmarked hw).symm.trans (h.unmarked_eq ▸ reduce_unmarked hv)

/-- **Marks can be seen in divisions only.** Two values that differ in their marks are equal, have
one digest and the same texts. If no division and no call is in them, they reduce with one error or
to equal values with the same CSS. -/
theorem Remarked.indistinguishable (h : Remarked v w) :
    (v.WellFormed → w.beq v = true) ∧ w.digest = v.digest ∧ w.inspect = v.inspect ∧
    (∀ f, w.cssWith f = v.cssWith f) ∧
    (v.Each Undivided → ∀ env : Environment,
      (∃ e, reduce env v = .error e ∧ reduce env w = .error e) ∨
      ∃ a b, reduce env v = .ok a ∧ reduce env w = .ok b ∧ (∀ f, b.cssWith f = a.cssWith f) ∧
        (v.WellFormed → env.Gives WellFormed → b.beq a = true)) := by
  have hsame := h.unmarked_eq
  refine ⟨fun hwf => (beq_of_unmarked_eq hsame).trans (v.beq_self hwf), ?_, ?_, fun f => ?_, ?_⟩
  · rw [← w.digest_unmarked, hsame, v.digest_unmarked]
  · rw [← w.inspect_unmarked, hsame, v.inspect_unmarked]
  · rw [← cssWith_unmarked, hsame, cssWith_unmarked]
  intro hundivided env
  have hreduce : (reduce env w).map unmarked = (reduce env v).map unmarked :=
    h.map_reduce_eq hundivided
  cases hv : reduce env v with
  | error e =>
    rw [hv] at hreduce
    exact .inl ⟨e, rfl, map_eq_error.1 hreduce⟩
  | ok a =>
    rw [hv] at hreduce
    obtain ⟨b, hw, hba⟩ := map_eq_ok hreduce
    refine .inr ⟨a, b, rfl, hw, fun f => ?_, fun hwf henv => ?_⟩
    · rw [← cssWith_unmarked, hba, cssWith_unmarked]
    · exact (beq_of_unmarked_eq hba).trans (a.beq_self (wellFormed_of_reduce henv hwf hv))

end Reducing

/-- An operation on one pixel and two. -/
def onPixels (op : Operator) : Value :=
  .operation { operand := { op }
               left := .number (.ofText .nowhere 1 "px")
               right := .number (.ofText .nowhere 2 "px")
               span := .nowhere }

/-- A map of one pair, whose value is a list that begins with the given value. -/
def mapHolding (v : Value) : Value :=
  .map { entries := [(.text .nowhere "a", .spaceList .nowhere [v, .text .nowhere "b"])]
         span := .nowhere }

theorem givesWellFormed_empty [Hasher] : Environment.empty.Gives WellFormed where
  lookup h := by cases h
  call h := by cases h
  host h := h ▸ (Plain.null _).wellFormed

theorem each_mapHolding {P : Value → Prop} {v : Value} (hmap : P (mapHolding v))
    (hlist : P (.spaceList .nowhere [v, .text .nowhere "b"]))
    (htext : ∀ s, P (.text .nowhere s)) (hv : v.Each P) : (mapHolding v).Each P := by
  have hleaf : ∀ s, (text .nowhere s).Each P := fun s => .intro (htext s) nofun
  have hitems : ∀ x ∈ [v, .text .nowhere "b"], x.Each P :=
    List.forall_mem_cons.2 ⟨hv, List.forall_mem_singleton.2 (hleaf "b")⟩
  exact .intro hmap (List.forall_mem_cons.2
    ⟨hleaf "a", List.forall_mem_singleton.2 (.intro hlist hitems)⟩)

theorem each_onPixels {P : Value → Prop} {op : Operator} (hop : P (onPixels op))
    (hnumber : ∀ n, P (.number n)) : (onPixels op).Each P := by
  have hleaf : ∀ n, (number n).Each P := fun n => .intro (hnumber n) nofun
  exact .intro hop (List.forall_mem_cons.2 ⟨hleaf _, List.forall_mem_singleton.2 (hleaf _)⟩)

/-- A sum inside a list inside a map is marked, and the map is what it was. -/
theorem Remarked.indistinguishable_mapHolding :
    let sum := onPixels .add
    let v := mapHolding sum
    let w := mapHolding (sum.setDelayed true)
    sum.isDelayed = false ∧ (sum.setDelayed true).isDelayed = true ∧ Remarked v w ∧
      v.WellFormed ∧ v.Each Undivided ∧ w.beq v = true ∧ w.digest = v.digest ∧
      w.inspect = v.inspect ∧
      ∃ a b, reduce .empty v = .ok a ∧ reduce .empty w = .ok b ∧ b.beq a = true ∧
        b.css = "(a: 3px b)" := by
  intro sum v w
  have hremarked : Remarked v w :=
    .value { span := .nowhere } _ [] [] (.item { items := [], span := .nowhere } [] [_]
      (.mark true sum))
  have hwf : v.WellFormed :=
    each_mapHolding (List.pairwise_singleton _ _) List.Pairwise.nil (fun _ => trivial)
      (each_onPixels trivial fun _ => trivial)
  have hundivided : v.Each Undivided :=
    each_mapHolding trivial trivial (fun _ => trivial) (each_onPixels nofun fun _ => trivial)
  have hv : ∃ a, reduce .empty v = .ok a ∧ a.css = "(a: 3px b)" := ⟨_, rfl, by decide +kernel⟩
  obtain ⟨hbeq, hdigest, hinspect, -, hreduce⟩ := hremarked.indistinguishable
  obtain ⟨a, ha, hcss⟩ := hv
  rcases hreduce hundivided .empty with ⟨e, he, -⟩ | ⟨a', b, ha', hb, hcss', hbeq'⟩
  · rw [ha] at he
    cases he
  · obtain rfl := Except.ok.inj (ha.symm.trans ha')
    exact ⟨rfl, rfl, hremarked, hwf, hundivided, hbeq hwf, hdigest, hinspect, a, b, ha, hb,
      hbeq' hwf givesWellFormed_empty, (hcss' {}).trans hcss⟩

/-- A division shows its mark. -/
example : (reduce .empty ((onPixels .div).setDelayed true)).map css = .ok "1px / 2px" ∧
    (reduce .empty (onPixels .div)).map css = .ok "0.5" :=
  ⟨rfl, rfl⟩

end Value

end Stylesheet
