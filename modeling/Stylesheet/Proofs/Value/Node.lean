import Stylesheet.Value.Equality

/-!
# Values layer by layer

A value is one layer (`Node`) over the values it holds, its parts. What is said of values is said
of one layer first, over parts of any type, and carried to whole values by induction
(`Value.induction`): it holds of a value if it holds of the parts. A layer over something else
than values is the content of a memory cell whose parts are found in other cells.

The parts of a value are those that its comparison looks at. The keywords of a list are among them
only if it is an argument list, and the duplicate key that a map remembers never is.
-/

namespace Stylesheet

variable {α β : Type}

/-! ## Parts -/

namespace Fragment

/-- The value in a hole. -/
def parts : Fragment α → List α
  | .text _ => []
  | .hole v => [v]

theorem hole_mem_parts (v : α) : v ∈ (hole v).parts := List.mem_singleton.2 rfl

/-- The piece with its value replaced. -/
def map (f : α → β) : Fragment α → Fragment β
  | .text s => .text s
  | .hole v => .hole (f v)

end Fragment

namespace Template

/-- The values in the holes. -/
def parts (t : Template α) : List α := t.fragments.flatMap Fragment.parts

theorem mem_parts {t : Template α} {g : Fragment α} (hg : g ∈ t.fragments) {x : α}
    (hx : x ∈ g.parts) : x ∈ t.parts :=
  List.mem_flatMap.2 ⟨g, hg, hx⟩

/-- The template with the values in its holes replaced. -/
def map (f : α → β) (t : Template α) : Template β :=
  { t with fragments := t.fragments.map (Fragment.map f) }

end Template

namespace ListOf

/-- The keywords that count: only an argument list has any. -/
def countedKeywords (l : ListOf α) : List (String × α) := if l.arglist then l.keywords else []

/-- The items, and the values of the keywords that count. -/
def parts (l : ListOf α) : List α := l.items ++ l.countedKeywords.map Prod.snd

theorem item_mem_parts {l : ListOf α} {x : α} (h : x ∈ l.items) : x ∈ l.parts :=
  List.mem_append_left _ h

theorem keyword_mem_parts {l : ListOf α} {e : String × α} (h : e ∈ l.countedKeywords) :
    e.2 ∈ l.parts :=
  List.mem_append_right _ (List.mem_map_of_mem h)

/-- The list with items and keyword values replaced. -/
def map (f : α → β) (l : ListOf α) : ListOf β :=
  { l with items := l.items.map f, keywords := l.keywords.map (Prod.map id f) }

theorem countedKeywords_map (f : α → β) (l : ListOf α) :
    (l.map f).countedKeywords = l.countedKeywords.map (Prod.map id f) := by
  unfold countedKeywords
  show (if l.arglist then l.keywords.map (Prod.map id f) else []) = _
  split <;> rfl

theorem mem_keywords_of_mem_counted {l : ListOf α} {e : String × α}
    (h : e ∈ l.countedKeywords) : e ∈ l.keywords := by
  unfold countedKeywords at h
  split at h
  · exact h
  · cases h

end ListOf

namespace MapOf

/-- The keys and the values. -/
def parts (m : MapOf α) : List α := m.entries.map Prod.fst ++ m.entries.map Prod.snd

theorem key_mem_parts {m : MapOf α} {e : α × α} (h : e ∈ m.entries) : e.1 ∈ m.parts :=
  List.mem_append_left _ (List.mem_map_of_mem h)

theorem value_mem_parts {m : MapOf α} {e : α × α} (h : e ∈ m.entries) : e.2 ∈ m.parts :=
  List.mem_append_right _ (List.mem_map_of_mem h)

/-- The map with keys and values replaced. -/
def map (f : α → β) (m : MapOf α) : MapOf β :=
  { m with entries := m.entries.map (Prod.map f f), duplicate? := m.duplicate?.map f }

end MapOf

namespace Argument

/-- The argument with its value replaced. -/
def map (f : α → β) (a : Argument α) : Argument β := { a with value := f a.value }

end Argument

namespace Call

/-- The values of the arguments. -/
def parts (c : Call α) : List α := c.arguments.map Argument.value

theorem argument_mem_parts {c : Call α} {a : Argument α} (h : a ∈ c.arguments) :
    a.value ∈ c.parts :=
  List.mem_map_of_mem h

/-- The call with the values of its arguments replaced. -/
def map (f : α → β) (c : Call α) : Call β :=
  { c with arguments := c.arguments.map (Argument.map f) }

end Call

namespace Operation

/-- The two operands. -/
def parts (e : Operation α) : List α := [e.left, e.right]

theorem left_mem_parts (e : Operation α) : e.left ∈ e.parts := List.mem_cons_self

theorem right_mem_parts (e : Operation α) : e.right ∈ e.parts :=
  List.mem_cons_of_mem _ List.mem_cons_self

/-- The operation with its operands replaced. -/
def map (f : α → β) (e : Operation α) : Operation β :=
  { e with left := f e.left, right := f e.right }

end Operation

/-! ## Nodes -/

/-- One layer of a value, over parts of any type. -/
inductive Node (α : Type) where
  | number (n : Number)
  | color (c : Color)
  | string (s : StringValue)
  | template (t : Template α)
  | list (l : ListOf α)
  | map (m : MapOf α)
  | bool (value : Bool)
  | null
  | parent
  | function (f : FunctionRef)
  | call (c : Call α)
  | variable (v : Variable)
  | operation (e : Operation α)
  | diagnostic (d : Diagnostic)

namespace Node

/-- The parts of a layer. -/
def parts : Node α → List α
  | .template t => t.parts
  | .list l => l.parts
  | .map m => m.parts
  | .call c => c.parts
  | .operation e => e.parts
  | _ => []

/-- The layer with its parts replaced. -/
def mapParts (f : α → β) : Node α → Node β
  | .number n => .number n
  | .color c => .color c
  | .string s => .string s
  | .template t => .template (t.map f)
  | .list l => .list (l.map f)
  | .map m => .map (m.map f)
  | .bool value => .bool value
  | .null => .null
  | .parent => .parent
  | .function g => .function g
  | .call c => .call (c.map f)
  | .variable v => .variable v
  | .operation e => .operation (e.map f)
  | .diagnostic d => .diagnostic d

end Node

namespace Value

/-- The topmost layer of a value. -/
def node : Value → Node Value
  | .number n => .number n
  | .color c => .color c
  | .string s => .string s
  | .template t => .template t
  | .list l => .list l
  | .map m => .map m
  | .bool value _ => .bool value
  | .null _ => .null
  | .parent _ => .parent
  | .function f => .function f
  | .call c => .call c
  | .variable v => .variable v
  | .operation e => .operation e
  | .diagnostic d => .diagnostic d

/-- The values that a value is made of. -/
def parts (v : Value) : List Value := v.node.parts

/-- The value with its parts replaced. -/
def mapParts (f : Value → Value) : Value → Value
  | .template t => .template (t.map f)
  | .list l => .list (l.map f)
  | .map m => .map (m.map f)
  | .call c => .call (c.map f)
  | .operation e => .operation (e.map f)
  | v => v

theorem node_mapParts (f : Value → Value) (v : Value) :
    (v.mapParts f).node = v.node.mapParts f := by
  cases v <;> rfl

end Value

/-! ## Parts of a layer with replaced parts -/

theorem Template.parts_map (f : α → β) (t : Template α) : (t.map f).parts = t.parts.map f := by
  show (t.fragments.map (Fragment.map f)).flatMap Fragment.parts = _
  unfold Template.parts
  rw [List.flatMap_map, List.map_flatMap]
  congr 1
  funext g
  cases g <;> rfl

theorem ListOf.parts_map (f : α → β) (l : ListOf α) : (l.map f).parts = l.parts.map f := by
  unfold ListOf.parts
  rw [ListOf.countedKeywords_map, List.map_append, List.map_map, List.map_map]
  rfl

theorem MapOf.parts_map (f : α → β) (m : MapOf α) : (m.map f).parts = m.parts.map f := by
  unfold MapOf.parts
  rw [List.map_append, List.map_map, List.map_map]
  show (m.entries.map (Prod.map f f)).map Prod.fst ++
    (m.entries.map (Prod.map f f)).map Prod.snd = _
  rw [List.map_map, List.map_map]
  rfl

theorem Call.parts_map (f : α → β) (c : Call α) : (c.map f).parts = c.parts.map f := by
  show (c.arguments.map (Argument.map f)).map Argument.value =
    (c.arguments.map Argument.value).map f
  rw [List.map_map, List.map_map]
  rfl

theorem Node.parts_mapParts (f : α → β) (n : Node α) : (n.mapParts f).parts = n.parts.map f := by
  cases n with
  | template t => exact t.parts_map f
  | list l => exact l.parts_map f
  | map m => exact m.parts_map f
  | call c => exact c.parts_map f
  | operation e => rfl
  | _ => rfl

/-- Putting a pair into a map brings in no part but its key and its value. -/
theorem MapOf.mem_parts_insert [Hasher] {m : MapOf Value} {key v x : Value}
    (h : x ∈ (m.insert key v).parts) : x ∈ m.parts ∨ x = key ∨ x = v := by
  rcases List.mem_append.1 h with hx | hx
  · obtain ⟨e, he, rfl⟩ := List.mem_map.1 hx
    rcases Entries.mem_put he with he | ⟨-, hk | ⟨f, hf, hk⟩⟩
    · exact .inl (key_mem_parts he)
    · exact .inr (.inl hk)
    · exact .inl (hk ▸ key_mem_parts hf)
  · obtain ⟨e, he, rfl⟩ := List.mem_map.1 hx
    rcases Entries.mem_put he with he | ⟨hv, -⟩
    · exact .inl (value_mem_parts he)
    · exact .inr (.inr hv)

/-! ## Induction -/

section Size

variable [SizeOf α]

theorem Template.sizeOf_lt {t : Template α} {x : α} (h : x ∈ t.parts) : sizeOf x < sizeOf t := by
  obtain ⟨g, hg, hx⟩ := List.mem_flatMap.1 h
  cases g with
  | text s => cases hx
  | hole v =>
    obtain rfl := List.mem_singleton.1 hx
    -- The value is smaller than its hole, and the hole smaller than the pieces it stands among.
    have := List.sizeOf_lt_of_mem hg
    cases t
    simp only [Fragment.hole.sizeOf_spec, Template.mk.sizeOf_spec] at *
    omega

theorem ListOf.sizeOf_lt {l : ListOf α} {x : α} (h : x ∈ l.parts) : sizeOf x < sizeOf l := by
  rcases List.mem_append.1 h with hx | hx
  · have := List.sizeOf_lt_of_mem hx
    cases l
    simp only [ListOf.mk.sizeOf_spec] at *
    omega
  · obtain ⟨⟨name, v⟩, he, rfl⟩ := List.mem_map.1 hx
    have := List.sizeOf_lt_of_mem (mem_keywords_of_mem_counted he)
    cases l
    simp only [ListOf.mk.sizeOf_spec, Prod.mk.sizeOf_spec] at *
    omega

theorem MapOf.sizeOf_lt {m : MapOf α} {x : α} (h : x ∈ m.parts) : sizeOf x < sizeOf m := by
  have hentry : ∃ e ∈ m.entries, sizeOf x < sizeOf e := by
    rcases List.mem_append.1 h with hx | hx
    all_goals
      obtain ⟨e, he, rfl⟩ := List.mem_map.1 hx
      refine ⟨e, he, ?_⟩
      cases e
      simp only [Prod.mk.sizeOf_spec]
      omega
  obtain ⟨e, he, hx⟩ := hentry
  have := List.sizeOf_lt_of_mem he
  cases m
  simp only [MapOf.mk.sizeOf_spec] at *
  omega

theorem Call.sizeOf_lt {c : Call α} {x : α} (h : x ∈ c.parts) : sizeOf x < sizeOf c := by
  obtain ⟨a, ha, rfl⟩ := List.mem_map.1 h
  have := List.sizeOf_lt_of_mem ha
  cases a
  cases c
  simp only [Argument.mk.sizeOf_spec, Call.mk.sizeOf_spec] at *
  omega

theorem Operation.sizeOf_lt {e : Operation α} {x : α} (h : x ∈ e.parts) :
    sizeOf x < sizeOf e := by
  cases e
  simp only [Operation.parts, List.mem_cons, List.not_mem_nil, or_false] at h
  simp only [Operation.mk.sizeOf_spec]
  rcases h with rfl | rfl <;> omega

end Size

namespace Value

/-- A part is smaller than the whole. -/
theorem sizeOf_lt_of_mem_parts {v x : Value} (h : x ∈ v.parts) : sizeOf x < sizeOf v := by
  cases v with
  | template t => exact Nat.lt_trans (Template.sizeOf_lt h) (by simp)
  | list l => exact Nat.lt_trans (ListOf.sizeOf_lt h) (by simp)
  | map m => exact Nat.lt_trans (MapOf.sizeOf_lt h) (by simp)
  | call c => exact Nat.lt_trans (Call.sizeOf_lt h) (by simp)
  | operation e => exact Nat.lt_trans (Operation.sizeOf_lt h) (by simp)
  | _ => cases h

/-- What holds of a value whenever it holds of the parts holds of every value. -/
theorem induction {motive : Value → Prop}
    (step : ∀ v, (∀ x ∈ v.parts, motive x) → motive v) (v : Value) : motive v :=
  step v fun x _ => induction step x
termination_by sizeOf v
decreasing_by exact sizeOf_lt_of_mem_parts ‹_›

/-- A value and all values it is made of, at every depth, satisfy `P`. -/
inductive Each (P : Value → Prop) : Value → Prop where
  | intro {v : Value} (here : P v) (parts : ∀ x ∈ v.parts, Each P x) : Each P v

theorem Each.here {P : Value → Prop} {v : Value} : Each P v → P v
  | .intro here _ => here

theorem Each.part {P : Value → Prop} {v : Value} : Each P v → ∀ x ∈ v.parts, Each P x
  | .intro _ parts => parts

theorem Each.of_forall {P : Value → Prop} (h : ∀ v, P v) (v : Value) : Each P v := by
  induction v using Value.induction with
  | step v ih => exact .intro (h v) ih

end Value

end Stylesheet
