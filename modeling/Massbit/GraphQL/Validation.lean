/-
What makes a schema valid (`Schema::validate`).
-/
import Massbit.GraphQL.Document

open List

namespace Massbit.GraphQL

inductive SchemaValidationError where
  | interfaceUndefined (name : String)
  | entityDirectivesMissing (types : List String)
  | interfaceFieldsMissing (type interface : String) (fields : List String)
  | invalidDerivedFrom (type field reason : String)
  | usageOfReservedTypes (types : List String)
  | schemaTypeWithFields
  | importedIndexerNameInvalid (name : String)
  | importedIndexerIdInvalid (id : String)
  | invalidSchemaTypeDirectives
  | importDirectiveInvalid
  | fieldTypeUnknown (type field fieldType : String)
  | importedTypeUndefined (type schema : String)
  deriving DecidableEq, Repr

def IndexerName.isPart (part : List Char) : Bool :=
  !part.isEmpty && decide (part.length ≤ 32) && part != "graphql".toList &&
    part.head?.all Char.isAlphanum && part.getLast?.all Char.isAlphanum && part.any Char.isAlpha

def IndexerName.new (s : String) : Except Unit String :=
  if s.isEmpty || 255 < s.utf8ByteSize then .error ()
  else if !s.toList.all fun c => c.isAlphanum || c == '-' || c == '_' || c == '/' then .error ()
  else if (s.toList.splitOn '/').all IndexerName.isPart then .ok s
  else .error ()

namespace InputSchema

abbrev Check := Option SchemaValidationError

def validateSchemaTypes (self : InputSchema) : Check :=
  let types := (self.document.getObjectTypeDefinitions.filter fun t =>
    (findDirective t.directives "entity").isNone && t.name != schemaTypeName).map
      ObjectTypeDefinition.name
  if types.isEmpty then none else some (.entityDirectivesMissing types)

def validateSchemaTypeHasNoFields (self : InputSchema) : Check :=
  self.indexerSchemaObjectType.bind fun t =>
    if t.fields.isEmpty then none else some .schemaTypeWithFields

def validateDirectivesOnSchemaType (self : InputSchema) : Check :=
  self.indexerSchemaObjectType.bind fun t =>
    if t.directives.all fun directive => directive.name == "import" || directive.name == "fulltext"
    then none else some .invalidSchemaTypeDirectives

def reservedTypes (document : Document) : List String :=
  let types := document.getObjectTypeDefinitions.map ObjectTypeDefinition.name ++
    document.getInterfaceTypeDefinitions.map InterfaceTypeDefinition.name
  ["Boolean", "ID", "Int", "BigDecimal", "String", "Bytes", "BigInt", "Query", "Subscription"] ++
    types.map (· ++ "_filter") ++ types.map (· ++ "_orderBy")

def validateReservedTypesUsage (self : InputSchema) : Check :=
  let types := (reservedTypes self.document).filter fun t => (self.document.getNamedType t).isSome
  if types.isEmpty then none else some (.usageOfReservedTypes types)

def validateDerivedField (self : InputSchema) (objectType : ObjectTypeDefinition)
    (field : FieldDefinition) (directive : Directive) : Except SchemaValidationError Unit := do
  let invalid reason : Except SchemaValidationError Unit :=
    .error (.invalidDerivedFrom objectType.name field.name reason)
  -- any interface that has the field can be used as its type
  let interfaceTypes := objectType.implementsInterfaces.filter fun name =>
    (self.document.findInterface name).any fun i => i.fields.any fun f => f.name = field.name
  match directive.argument "field" with
  | none => invalid "the @derivedFrom directive must have a `field` argument"
  | some (.string target) =>
    let targetType := field.fieldType.named
    match self.document.getObjectAndInterfaceTypeFields.lookup targetType with
    | none => invalid "type must be an existing entity or interface"
    | some fields =>
      match fields.find? fun f => f.name = target with
      | none => invalid ("field `" ++ target ++ "` does not exist on type `" ++ targetType ++ "`")
      | some targetField =>
        -- the field points back, or it is the id of another type
        let back := targetField.fieldType.named
        if back = objectType.name ∨ back = "ID" ∨ back ∈ interfaceTypes then return
        let signatures name := [name, name ++ "!", "[" ++ name ++ "!]", "[" ++ name ++ "!]!"]
        invalid ("field `" ++ targetField.name ++ "` on type `" ++ targetType ++
          "` must have one of the following types: " ++
          ", ".intercalate ((objectType.name :: interfaceTypes).flatMap signatures))
  | some _ => invalid "the @derivedFrom `field` argument must be a string"

def validateDerivedFrom (self : InputSchema) : Except SchemaValidationError Unit :=
  self.document.getObjectTypeDefinitions.forM fun objectType =>
    objectType.fields.forM fun field =>
      match findDirective field.directives "derivedFrom" with
      | some directive => self.validateDerivedField objectType field directive
      | none => .ok ()

def validateImportType : Value → Bool
  | .string _ => true
  | .object type =>
    match type.lookup "name", type.lookup "as" with
    | some (.string _), some (.string _) => true
    | _, _ => false
  | _ => false

def typesAreValid : Option Value → Bool
  | some (.list types) => types.all validateImportType
  | _ => false

def fromIsValid : Option Value → Bool
  | some (.object map) =>
    let has key := match map.lookup key with
      | some (.string _) => true
      | _ => false
    has "id" ^^ has "name"
  | _ => false

def validateImportDirectiveArguments (directive : Directive) : Check :=
  if fromIsValid (directive.argument "from") && typesAreValid (directive.argument "types") then none
  else some .importDirectiveInvalid

def validateImportDirectiveSchemaReferenceParses (directive : Directive) : Check :=
  match directive.argument "from" with
  | some (.object map) =>
    let idParseError : Check := match map.lookup "id" with
      | some (.string id) =>
        if (DeploymentHash.new id).isOk then none else some (.importedIndexerIdInvalid id)
      | _ => none
    let nameParseError : Check := match map.lookup "name" with
      | some (.string name) =>
        if (IndexerName.new name).isOk then none else some (.importedIndexerNameInvalid name)
      | _ => none
    idParseError.or nameParseError
  | _ => none

def validateImportDirectives (self : InputSchema) : List SchemaValidationError :=
  self.imports.flatMap fun directive => (validateImportDirectiveArguments directive).toList ++
    (validateImportDirectiveSchemaReferenceParses directive).toList

variable (fmt : Formatter)

def isDefined (schema : InputSchema) (name : String) : Bool :=
  (schema.document.getObjectTypeDefinitions.any fun object => object.name = name) ||
    (schema.importedTypes fmt).any fun e => name = e.1.aliasName

def validateImportedTypes (self : InputSchema) (schemas : HashMap SchemaReference InputSchema) :
    List SchemaValidationError :=
  (self.importedTypes fmt).filterMap fun (importedType, ref) =>
    (schemas.lookup ref).bind fun schema =>
      if isDefined fmt schema importedType.name then none
      else some (.importedTypeUndefined importedType.name ref.indexer)

def isKnown (self : InputSchema) (base : String) : Bool :=
  ValueType.isScalar base ||
    (self.document.getObjectAndInterfaceTypeFields.any fun e => e.1 = base) ||
    ((self.importedTypes fmt).any fun e => e.1.aliasName = base) ||
    self.document.getEnumDefinitions.any fun t => t.name = base

def validateFields (self : InputSchema) : List SchemaValidationError :=
  self.document.getObjectAndInterfaceTypeFields.flatMap fun (typeName, fields) =>
    (fields.filter fun field => !self.isKnown fmt field.fieldType.named).map fun field =>
      .fieldTypeUnknown typeName field.name field.fieldType.named

def validate (self : InputSchema) (schemas : HashMap SchemaReference InputSchema) :
    Except (List SchemaValidationError) Unit :=
  let derivedFrom := match self.validateDerivedFrom with
    | .ok () => none
    | .error err => some err
  let errors := [self.validateSchemaTypes, derivedFrom, self.validateSchemaTypeHasNoFields,
      self.validateDirectivesOnSchemaType, self.validateReservedTypesUsage].flatMap Option.toList ++
    self.validateFields fmt ++ self.validateImportDirectives ++
    self.validateImportedTypes fmt schemas
  if errors.isEmpty then .ok () else .error errors

end InputSchema

/-! ### The entries of the directives -/

/-- The directive imports an entry from the schema of a reference. -/
def Directive.Imports (self : Directive) (entry : Value) (ref : SchemaReference) : Prop :=
  (self.argument "from").bind SchemaReference.parse = some ref ∧
    ∃ types, self.argument "types" = some (.list types) ∧ entry ∈ types

namespace InputSchema

def Imports (self : InputSchema) (entry : Value) (ref : SchemaReference) : Prop :=
  ∃ directive ∈ self.imports, directive.Imports entry ref

/-- An entry is displayed under the alias: a plain string is displayed as it is. -/
def Shows (fmt : Formatter) (self : InputSchema) (aliasName : String) : Prop :=
  ∃ entry ref type, self.Imports entry ref ∧ ImportedType.parse fmt entry = some type ∧
    type.aliasName = aliasName

end InputSchema

section Collect

variable {K V : Type} [DecidableEq K] {k : K} {v : V} {l : List (K × V)}

end Collect

namespace InputSchema

variable {fmt : Formatter} {self : InputSchema} {entry : Value} {type : ImportedType}
  {ref : SchemaReference}

/-! ### What the checks find -/

variable {name : String}

variable {schema : InputSchema}

variable {name aliasName : String}

def pairSchema (entry : Value) (fieldType : String) : InputSchema where
  id := "Pairs"
  document := ⟨[.object ⟨schemaTypeName, [], [⟨"import", [("types", .list [entry]),
      ("from", .object [("id", .string "Tokens")])]⟩], []⟩,
    .object ⟨"Pair", [], [⟨"entity", []⟩], [⟨"token", .namedType fieldType, []⟩]⟩]⟩
  typesForInterface := []

end InputSchema

end Massbit.GraphQL
