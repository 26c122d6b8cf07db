import NovelScript.Expr.Value

/-!
Variables. A scope binds names to values, and a name it does not bind is looked up in the scope
around it. Scopes live on a heap, where functions share the scope they were made in; a scope is
made after the one around it.
-/

namespace NovelScript.Expr

/-! ### The bindings of a scope -/

/-- Names with their values, each name once, in the order of their first binding. -/
abbrev Bindings := List (String × Value)

namespace Bindings

/-- The value bound to a name. -/
def get? (name : String) : Bindings → Option Value
  | [] => none
  | binding :: rest => if binding.1 = name then some binding.2 else get? name rest

/-- Binds a name, in place of an earlier binding. -/
def set (name : String) (value : Value) : Bindings → Bindings
  | [] => [(name, value)]
  | binding :: rest =>
    if binding.1 = name then (name, value) :: rest else binding :: set name value rest

@[simp] theorem get?_set_self (name : String) (value : Value) (bindings : Bindings) :
    (bindings.set name value).get? name = some value := by
  induction bindings with
  | nil => simp [set, get?]
  | cons binding rest ih => by_cases h : binding.1 = name <;> simp [set, get?, h, ih]

theorem get?_set_of_ne {name other : String} (h : name ≠ other) (value : Value)
    (bindings : Bindings) : (bindings.set name value).get? other = bindings.get? other := by
  induction bindings with
  | nil => simp [set, get?, h]
  | cons binding rest ih =>
    by_cases hb : binding.1 = name
    · subst hb
      simp [set, get?, h]
    · simp [set, get?, hb, ih]

/-- The names bound, in ascending order. -/
def names (bindings : Bindings) : List String :=
  (bindings.map Prod.fst).mergeSort fun a b => !(b < a : Bool)

end Bindings

/-! ### The heap -/

/-- A scope: its own bindings and the scope around it. -/
structure Scope where
  bindings : Bindings := []
  outer : Option ScopeId := none
deriving Inhabited

/-- All scopes made so far, and the number of functions made so far. -/
structure Heap where
  scopes : Array Scope := #[]
  functions : Nat := 0
deriving Inhabited

namespace Heap

/-- The heap of one scope with nothing around it, and its number. -/
def single : Heap := { scopes := #[{}] }

/-- The scope that `single` starts with. -/
def root : ScopeId := 0

/-- The bindings of one scope. -/
def bindings (heap : Heap) (scope : ScopeId) : Bindings :=
  (heap.scopes[scope]?.map Scope.bindings).getD []

/-- The value of a name in a scope, or else in the scopes around it. -/
def lookup? (heap : Heap) (name : String) (scope : ScopeId) : Option Value :=
  match heap.scopes[scope]? with
  | none => none
  | some s =>
    match s.bindings.get? name with
    | some value => some value
    | none =>
      match s.outer with
      | some outer => if outer < scope then heap.lookup? name outer else none
      | none => none
termination_by scope

/-- Whether a scope itself binds a name. -/
def binds (heap : Heap) (name : String) (scope : ScopeId) : Bool :=
  ((heap.bindings scope).get? name).isSome

/-- Binds a name in one scope; the scopes around it stay as they are. -/
def set (name : String) (value : Value) (scope : ScopeId) (heap : Heap) : Heap :=
  { heap with
    scopes := heap.scopes.modify scope fun s => { s with bindings := s.bindings.set name value } }

/-- Makes a scope inside another one. -/
def enclose (outer : ScopeId) (heap : Heap) : ScopeId × Heap :=
  (heap.scopes.size, { heap with scopes := heap.scopes.push { outer := some outer } })

/-- Binds each parameter to its argument, or to null where there is none. -/
def bindAll : List String → List Value → ScopeId → Heap → Heap
  | [], _, _, heap => heap
  | name :: names, arguments, scope, heap =>
    bindAll names arguments.tail scope (heap.set name (arguments.head?.getD .null) scope)

/-- Makes a function that sees the given scope. -/
def makeFunction (parameters : List String) (body : Block) (scope : ScopeId) (heap : Heap) :
    Value × Heap :=
  (.function ⟨parameters, body, scope, heap.functions⟩,
    { heap with functions := heap.functions + 1 })

end Heap
end NovelScript.Expr
