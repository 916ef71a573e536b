import ClusteringKeys.KeyKind
import ClusteringKeys.Value.Basic

namespace ClusteringKeys

inductive FileFault where
  | missing
  | isDirectory
  | notText
  | stated (text : String)
  deriving DecidableEq

def FileFault.message : FileFault → String
  | missing => "No such file or directory (os error 2)"
  | isDirectory => "Is a directory (os error 21)"
  | notText => "stream did not contain valid UTF-8"
  | stated text => text

/-- Why columns and values do not make a key. Columns are given by name. -/
inductive ElementsFault where
  | lengthMismatch (columns values : Nat)
  | mixedKinds (left : String) (leftKind : KeyKind) (right : String) (rightKind : KeyKind)
  | outOfOrder (left : String) (leftPosition : UInt64) (right : String) (rightPosition : UInt64)
  /-- So many values from a starting position on need more columns than there are. -/
  | beyondLastColumn (values : Nat) (start : UInt64) (columns : Nat)
  | partitionKeySize (required given : Nat)
  | stated (text : String)
  deriving DecidableEq

def ElementsFault.message : ElementsFault → String
  | lengthMismatch columns values => s!"{columns} columns but {values} values"
  | mixedKinds left leftKind right rightKind =>
    s!"column {left} is a {leftKind.name} column but {right} is a {rightKind.name} column"
  | outOfOrder left leftPosition right rightPosition =>
    s!"column {left} (position {leftPosition.toNat}) listed before column {right} (position {rightPosition.toNat})"
  | beyondLastColumn values start columns =>
    s!"{values} values starting at clustering position {start.toNat} exceed the {columns} clustering columns"
  | partitionKeySize required given => s!"Partition key requires {required} values, got {given}"
  | stated text => text

/-- Why a value cannot be stored in a key column. -/
inductive ConversionFault where
  | nullValue (type : KeyType)
  | unsuited (value : Value) (type : KeyType)
  | wrongWidth (type : KeyType) (expected actual : Nat)
  | notText (fault : Utf8.Fault)
  | notAscii
  | notAddress (actual : Nat)
  | emptyValue (type : KeyType) (column : String)
  | refusedBy (column : String) (cause : ConversionFault)
  | stated (text : String)
  deriving DecidableEq

def ConversionFault.heading : String :=
  "Type conversion error: "

def ConversionFault.message : ConversionFault → String
  | nullValue type => s!"Invalid null value for {type} key component"
  | unsuited value type => s!"Cannot use {value} as a {type} key component"
  | wrongWidth type expected actual => s!"Expected {expected} bytes for {type} value, got {actual}"
  | notText fault => s!"Invalid UTF-8 in text value: {fault.message}"
  | notAscii => "Non-ASCII byte in ascii value"
  | notAddress actual => s!"Expected 4 or 16 bytes for inet value, got {actual}"
  | emptyValue type column => s!"Empty value is not allowed for {type} column {column}"
  | refusedBy column cause => s!"Invalid value for column {column}: {heading}{cause.message}"
  | stated text => text

/-- Why a schema cannot be used. -/
inductive SchemaFault where
  | unreadableFile (fault : FileFault)
  | notSchema
  | emptyKeyspace
  | emptyTable
  | noPartitionKey
  /-- The positions sorted, the first one that differs from its own place. -/
  | positionGap (kind : KeyKind) (place : Nat)
  | emptyTypeName
  /-- A type built from other types. -/
  | compositeType (name : String)
  | badType (kind : KeyKind) (typeName column : String) (cause : SchemaFault)
  | unknownOrder (text : String)
  | unlistedColumn (kind : KeyKind) (column : String)
  | conflictingTypes (kind : KeyKind) (column typeName listedType : String)
  | stated (text : String)
  deriving DecidableEq

def SchemaFault.heading : String :=
  "Schema error: "

def SchemaFault.message : SchemaFault → String
  | unreadableFile fault => s!"Failed to read schema file: {fault.message}"
  | notSchema => "Invalid JSON schema:"
  | emptyKeyspace => "Keyspace name cannot be empty"
  | emptyTable => "Table name cannot be empty"
  | noPartitionKey => "Table must have at least one partition key"
  | positionGap kind place =>
    s!"{kind.title} key positions must be contiguous starting from 0, found gap at position {place}"
  | emptyTypeName => "Empty type name"
  | compositeType name => s!"Type '{name}' cannot be used as a key component"
  | badType kind typeName column cause =>
    s!"Invalid data type '{typeName}' for {kind.word} key '{column}': {heading}{cause.message}"
  | unknownOrder text => s!"Invalid clustering order: {text}"
  | unlistedColumn kind column => s!"{kind.title} key '{column}' not found in columns list"
  | conflictingTypes kind column typeName listedType =>
    s!"{kind.title} key '{column}' has type '{typeName}' but the columns list declares '{listedType}'"
  | stated text => text

/-- Why settings cannot be used. -/
inductive SettingsFault where
  | notSettings
  | uncheckedEmptyValues
  | stated (text : String)
  deriving DecidableEq

def SettingsFault.message : SettingsFault → String
  | notSettings => "Invalid JSON configuration:"
  | uncheckedEmptyValues => "allow_empty_values has no effect when validate_values is disabled"
  | stated text => text

/-- Everything that can go wrong in building and comparing keys. -/
inductive Error where
  /-- The two sides of an extension belong to different keys. -/
  | differentKind
  /-- The right side of an extension does not start right after the last column of the left side. -/
  | nonConsecutive
  /-- The left side of an extension is a bottom or a top. -/
  | endpointExtension
  | elements (fault : ElementsFault)
  | schema (fault : SchemaFault)
  | conversion (fault : ConversionFault)
  | settings (fault : SettingsFault)
  | file (fault : FileFault)
  deriving DecidableEq

inductive ErrorCategory where
  | system
  | data
  | schema
  | configuration
  | logic
  deriving DecidableEq

def ErrorCategory.name : ErrorCategory → String
  | system => "System"
  | data => "Data"
  | schema => "Schema"
  | configuration => "Configuration"
  | logic => "Logic"

namespace Error

def message : Error → String
  | differentKind => "Cannot extend elements with elements of a different kind"
  | nonConsecutive => "Cannot extend elements with non consecutive elements"
  | endpointExtension => "Range endpoints cannot be extended"
  | elements fault => s!"Invalid elements: {fault.message}"
  | schema fault => s!"{SchemaFault.heading}{fault.message}"
  | conversion fault => s!"{ConversionFault.heading}{fault.message}"
  | settings fault => s!"Configuration error: {fault.message}"
  | file fault => s!"I/O error: {fault.message}"

instance : ToString Error := ⟨message⟩

def category : Error → ErrorCategory
  | differentKind | nonConsecutive | endpointExtension | elements _ => .logic
  | schema _ => .schema
  | conversion _ => .data
  | settings _ => .configuration
  | file _ => .system

/-- Trying again may help: only what the file system reports can pass. -/
def isRecoverable (e : Error) : Bool :=
  e.category = .system

/-- The caller broke a rule of the library, as opposed to passing on bad input. -/
def isContractViolation (e : Error) : Bool :=
  e.category = .logic

end Error

end ClusteringKeys
