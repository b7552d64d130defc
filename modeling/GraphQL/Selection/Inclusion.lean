import GraphQL.Coercion.Arguments
import GraphQL.Document

/-! Which selections take part: the directives that skip or include a selection, and the type
conditions of fragments. -/

namespace GraphQL

def Json.bool? : Json → Option Bool
  | .bool b => some b
  | _ => none

instance : Named Fragment := ⟨Fragment.name⟩

namespace Schema

/-- The Boolean that a directive's condition stands for, or `none` if the schema lacks the directive
or its arguments cannot be coerced. -/
def condition? (schema : Schema) (bindings : Members) (directive : Directive) : Option Bool :=
  (schema.directives.find? directive.name).bind fun definition =>
    match schema.coerceArguments definition.arguments directive.arguments bindings with
    | .ok arguments => (Entries.get? "if" arguments).bind Json.bool?
    | .error _ => none

/-- The condition of the first directive of that name. -/
def firstCondition? (schema : Schema) (bindings : Members) (name : String)
    (directives : List Directive) : Option (Option Bool) :=
  (directives.find? fun directive => directive.name = name).map (schema.condition? bindings)

/-- Skipping a selection wins over including it. A condition without a value neither skips nor
includes. -/
def includes (schema : Schema) (bindings : Members) (directives : List Directive) : Bool :=
  schema.firstCondition? bindings "skip" directives != some (some true) &&
    ((schema.firstCondition? bindings "include" directives).getD (some true) == some true)

/-- Whether a fragment on a type has anything to say about objects of an object type. -/
def conditionApplies (schema : Schema) (objectType : ObjectType) (condition : String) : Bool :=
  match schema.type? condition with
  | some (.object _) => condition = objectType.name
  | some (.interface _) => schema.isPossibleType condition objectType.name
  | some (.union _) => schema.isPossibleType condition objectType.name
  | _ => false

end Schema

end GraphQL
