import GraphQuery.Value.Type

/-!
# Schemas

A schema names the entities of a graph: the labels of their nodes, their properties in the order of
declaration, and which properties form the primary key.
-/

namespace GraphQuery

/-- A property declared on an entity. -/
structure Property where
  name : String
  type : ValueType
  /-- The name under which the property is stored, when it differs. -/
  storageName : Option String := none
  /-- The store type that takes the place of the one given by the semantic type. -/
  storeType : Option String := none
  deriving DecidableEq

namespace Property

/-- The name under which a property is stored. -/
def storedAs (p : Property) : String :=
  p.storageName.getD p.name

end Property

/-- A property together with the name of the entity that declares it. -/
structure DeclaredProperty where
  entity : String
  property : Property
  deriving DecidableEq

/-- A mapped node type. -/
structure Entity where
  name : String
  labels : List String := [name]
  properties : List Property := []
  /-- The names of the properties that form the primary key. -/
  keyNames : List String := []

namespace Entity

/-- Declares a property after the ones that are there. -/
def addProperty (p : Property) (e : Entity) : Entity :=
  { e with properties := e.properties ++ [p] }

/-- Declares a property and makes it the next part of the primary key. -/
def addKey (p : Property) (e : Entity) : Entity :=
  { e.addProperty p with keyNames := e.keyNames ++ [p.name] }

/-- The first declared property with a name. -/
def property? (e : Entity) (name : String) : Option Property :=
  e.properties.find? fun p => p.name == name

/-- The first declared property with a name, as a property of this entity. -/
def declaredProperty? (e : Entity) (name : String) : Option DeclaredProperty :=
  (e.property? name).map fun p => ⟨e.name, p⟩

/-- The properties of the primary key, in key order. -/
def primaryKey (e : Entity) : List Property :=
  e.keyNames.filterMap e.property?

/-- The type of the entity's items. -/
def type (e : Entity) : ValueType :=
  .entity e.name

end Entity

/-- The entities of a graph, the one added last in front. -/
structure Schema where
  entities : List Entity := []

namespace Schema

/-- Adds an entity, in place of one with the same name. -/
def add (s : Schema) (e : Entity) : Schema :=
  ⟨e :: s.entities⟩

/-- The entity with a name. -/
def find? (s : Schema) (name : String) : Option Entity :=
  s.entities.find? fun e => e.name == name

/-- The entity behind a type, when the type is an entity type or the nullable form of one. -/
def entityOf? (s : Schema) (t : ValueType) : Option Entity :=
  match t.withoutNullable with
  | .entity name => s.find? name
  | _ => none

end Schema

end GraphQuery
