/-
GraphQL documents as the parser returns them (`ext.rs`), and the schema of an indexer with its
imports (`schema.rs`).
-/
import Massbit.Postgres.Sites

namespace Massbit

namespace GraphQL

inductive Value where
  | var (name : String)
  | int (n : ℤ)
  | float (bits : UInt64)
  | string (s : String)
  | boolean (b : Bool)
  | null
  | enum (name : String)
  | list (items : List Value)
  | object (entries : List (String × Value))

structure Directive where
  name : String
  arguments : List (String × Value)

def Directive.argument (self : Directive) (name : String) : Option Value :=
  self.arguments.lookup name

def findDirective (directives : List Directive) (name : String) : Option Directive :=
  directives.find? fun directive => directive.name = name

structure FieldDefinition where
  name : String
  fieldType : FieldType
  directives : List Directive

structure ObjectTypeDefinition where
  name : EntityType
  implementsInterfaces : List String
  directives : List Directive
  fields : List FieldDefinition

structure InterfaceTypeDefinition where
  name : EntityType
  fields : List FieldDefinition

inductive TypeDefinition where
  | scalar (name : String)
  | object (t : ObjectTypeDefinition)
  | interface (t : InterfaceTypeDefinition)
  | union (name : String)
  | enum (t : EnumType)
  | inputObject (name : String)

def TypeDefinition.name : TypeDefinition → String
  | scalar name => name
  | object t => t.name
  | interface t => t.name
  | union name => name
  | enum t => t.name
  | inputObject name => name

structure Document where
  definitions : List TypeDefinition

def collect {K V : Type} [DecidableEq K] (entries : List (K × V)) : List (K × V) :=
  entries.pwFilter fun e e' => e.1 ≠ e'.1

namespace Document

def getObjectTypeDefinitions (self : Document) : List ObjectTypeDefinition :=
  self.definitions.filterMap fun
    | .object t => some t
    | _ => none

def getInterfaceTypeDefinitions (self : Document) : List InterfaceTypeDefinition :=
  self.definitions.filterMap fun
    | .interface t => some t
    | _ => none

def getEnumDefinitions (self : Document) : List EnumType :=
  self.definitions.filterMap fun
    | .enum t => some t
    | _ => none

def getObjectAndInterfaceTypeFields (self : Document) : List (String × List FieldDefinition) :=
  collect (self.definitions.filterMap fun
    | .object t => some (t.name, t.fields)
    | .interface t => some (t.name, t.fields)
    | _ => none)

def findInterface (self : Document) (name : String) : Option InterfaceTypeDefinition :=
  self.getInterfaceTypeDefinitions.find? fun t => t.name = name

def getNamedType (self : Document) (name : String) : Option TypeDefinition :=
  self.definitions.find? fun t => t.name = name

end Document

/-- How the library of the parser writes values and fields. -/
structure Formatter where
  value : Value → String
  field : FieldDefinition → String
  value_string : ∀ s, ∃ chars, (value (.string s)).toList = '"' :: chars

structure ImportedType where
  name : String
  aliasName : String
  explicit : Bool
  deriving DecidableEq, Repr

def ImportedType.parse (fmt : Formatter) : Value → Option ImportedType
  | .string typeName => some ⟨typeName, typeName, false⟩
  | .object typeNameAs =>
    match typeNameAs.lookup "name", typeNameAs.lookup "as" with
    | some name, some az => some ⟨fmt.value name, fmt.value az, true⟩
    | _, _ => none
  | _ => none

structure SchemaReference where
  indexer : DeploymentHash
  deriving DecidableEq, Repr

def SchemaReference.parse : Value → Option SchemaReference
  | .object map =>
    match map.lookup "id" with
    | some (.string id) => (DeploymentHash.new id).toOption.map SchemaReference.mk
    | _ => none
  | _ => none

structure InputSchema where
  id : DeploymentHash
  document : Document
  typesForInterface : List (EntityType × List ObjectTypeDefinition)

namespace InputSchema

def indexerSchemaObjectType (self : InputSchema) : Option ObjectTypeDefinition :=
  self.document.getObjectTypeDefinitions.find? fun objectType => objectType.name = schemaTypeName

def imports (self : InputSchema) : List Directive :=
  match self.indexerSchemaObjectType with
  | some object => object.directives.filter fun directive => directive.name = "import"
  | none => []

def parseTypes (fmt : Formatter) (directive : Directive) : List ImportedType :=
  match directive.argument "types" with
  | some (.list types) => types.filterMap (ImportedType.parse fmt)
  | _ => []

def parseImport (fmt : Formatter) (directive : Directive) : List (ImportedType × SchemaReference) :=
  match (directive.argument "from").bind SchemaReference.parse with
  | some ref => (parseTypes fmt directive).map fun type => (type, ref)
  | none => []

def importedTypes (fmt : Formatter) (self : InputSchema) : List (ImportedType × SchemaReference) :=
  collect (self.imports.flatMap (parseImport fmt))

def importedSchemas (self : InputSchema) : List SchemaReference :=
  (self.imports.filterMap fun directive => directive.argument "from").filterMap
    SchemaReference.parse

end InputSchema

end GraphQL

end Massbit
