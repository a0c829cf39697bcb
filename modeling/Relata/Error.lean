/-!
What can go wrong, by cause. Each cause that has a wording of its own has it in `Error.message`; the
others are told apart by the constructor alone.
-/

namespace Relata

/-- Why a single value is refused. -/
inductive Fault where
  | missing | notText | notInt | unreadableInt | fractionalInt | hugeInt | notFinite | notFloat
  | unreadableFloat | notBool | unreadableBool | notMoment | unreadableMoment
  | notChoice | notList | notTuple | tooLong | notDict | badKey | notModel | incomplete
deriving DecidableEq

/-- The code under which a fault is reported. -/
def Fault.code : Fault → String
  | missing => "missing"
  | notText => "string_type"
  | notInt => "int_type"
  | unreadableInt => "int_parsing"
  | fractionalInt => "int_from_float"
  | hugeInt => "int_parsing_size"
  | notFinite => "finite_number"
  | notFloat => "float_type"
  | unreadableFloat => "float_parsing"
  | notBool => "bool_type"
  | unreadableBool => "bool_parsing"
  | notMoment => "datetime_type"
  | unreadableMoment => "datetime_from_date_parsing"
  | notChoice => "literal_error"
  | notList => "list_type"
  | notTuple => "tuple_type"
  | tooLong => "too_long"
  | notDict => "dict_type"
  | badKey => "invalid_key"
  | notModel => "model_type"
  | incomplete => "value_error"

/-- A fault and where it lies: a field name, then positions inside the value. -/
structure Issue where
  place : List String
  fault : Fault
deriving DecidableEq

inductive Error where
  | readOnly (context reason : String)
  | relationNotFound (model name : String)
  | relationKind (name expected actual : String)
  | unresolvedTag (tag : String)
  | notConnected (name : String)
  /-- A relation is read before it is loaded; `quoted` is the name as it is written in a call. -/
  | relationNotLoaded (model name quoted : String)
  | noMatch (model : String)
  | noIdentifier (model identifier : String)
  | noSoftDeletes (model method : String)
  /-- The runner of a connection failed with this text. -/
  | runner (text : String)
  | invalid (issues : List Issue)
  | notAPair (count : Nat)
  | badDirection (direction : String)
  | badAggregate (aggregate : String)
  | valueNeeded (column : String)
  | unknownChain (method : String)
  | noScope (model scope : String)
  /-- A value of the right kind that cannot be used. -/
  | badValue
  /-- Infinity where an integer is asked for. -/
  | boundless
  /-- A result that no memory holds. -/
  | exhausted
  /-- A value of the wrong kind, or the wrong arguments. -/
  | badType
  | noAttribute
  | noKey
  | notImplemented
  | cancelled
  /-- A script reads what it never stored. -/
  | badInput
  /-- Definitions that refer to each other without end. -/
  | tooDeep
  /-- A value without a form in a dump. -/
  | undumpable
deriving DecidableEq

namespace Error

/-- The wording of a cause that has one. -/
def message? : Error → Option String
  | readOnly context reason => some s!"Read-only violation in {context}: {reason}"
  | relationNotFound model name => some s!"Relation `{name}` does not exist on model {model}"
  | relationKind name expected actual =>
    some s!"Relation `{name}` is a {actual} relationship, expected {expected}"
  | unresolvedTag tag => some s!"Cannot resolve model for morph type `{tag}`"
  | notConnected name => some s!"No connection configured with name=`{name}`"
  | relationNotLoaded model name quoted =>
    some <| s!"Relation `{name}` of {model} is not loaded; " ++
      s!"call `await instance.load({quoted})` or query with `.with_({quoted})`"
  | noMatch model => some s!"No {model} matches the query"
  | noIdentifier model identifier => some s!"No {model} found with id `{identifier}`"
  | noSoftDeletes model method =>
    some s!"{method}() only applies to models with soft deletes, and {model} has none"
  | runner text => some text
  | notAPair count => some s!"between expects exactly two values, got {count}"
  | badDirection direction =>
    some s!"Order direction must be `asc` or `desc`, got `{direction}`"
  | badAggregate aggregate => some s!"Aggregate must be `max` or `min`, got `{aggregate}`"
  | valueNeeded column => some s!"where() on `{column}` needs a value"
  | unknownChain method =>
    some s!"Cannot chain unknown query method `{method}` on a relation declaration"
  | noScope model scope => some s!"{model} has no scope `{scope}`"
  | _ => none

end Error

/-- What ends well has ended well in its first step and in the rest. -/
theorem ok_of_bind {α β : Type} {x : Except Error α} {f : α → Except Error β} {b : β}
    (h : (x >>= f) = .ok b) : ∃ a, x = .ok a ∧ f a = .ok b := by
  cases x with
  | error e => cases h
  | ok a => exact ⟨a, rfl, h⟩

/-- A loop over results takes one of each item, and no others. -/
theorem exists_of_mapM {ε α β : Type} {f : α → Except ε β} {xs : List α} {ys : List β}
    (h : xs.mapM f = .ok ys) :
    (∀ x ∈ xs, ∃ y ∈ ys, f x = .ok y) ∧ ∀ y ∈ ys, ∃ x ∈ xs, f x = .ok y := by
  induction xs generalizing ys with
  | nil =>
    obtain rfl := Except.ok.inj h
    exact ⟨List.forall_mem_nil _, List.forall_mem_nil _⟩
  | cons x rest ih =>
    rw [List.mapM_cons] at h
    cases first : f x with
    | error e => simp [first, bind, Except.bind] at h
    | ok y =>
      cases others : rest.mapM f with
      | error e => simp [first, others, bind, Except.bind] at h
      | ok ys' =>
        simp only [first, others, bind, Except.bind, pure, Except.pure, Except.ok.injEq] at h
        subst h
        obtain ⟨each, only⟩ := ih others
        refine ⟨List.forall_mem_cons.mpr ⟨⟨y, .head _, first⟩, fun x' there => ?_⟩,
          List.forall_mem_cons.mpr ⟨⟨x, .head _, first⟩, fun y' there => ?_⟩⟩
        · exact (each x' there).imp fun _ own => ⟨.tail _ own.1, own.2⟩
        · exact (only y' there).imp fun _ own => ⟨.tail _ own.1, own.2⟩

end Relata
