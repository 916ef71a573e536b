import ClusteringKeys.Error
import ClusteringKeys.Text.Blank

namespace ClusteringKeys.KeyType

def aliases : List (String × KeyType) :=
  [("bool", boolean), ("integer", int), ("long", bigint), ("varchar", text)]

/-- The type that a lower-case name stands for. -/
def named? (name : String) : Option KeyType :=
  (builtin.map (fun type => (type.name, type)) ++ aliases).lookup name

/-- Reads a type name. Blanks around it and the case of its letters do not count, and an unknown name is a custom
    type. Lower-casing the ASCII letters is enough, since no other letter has one of these names' letters as its lower
    case. -/
def ofName (s : String) : Except SchemaFault KeyType :=
  let name := Text.trim s
  if name.toList.contains '<' then .error (.compositeType name)
  else if name.isEmpty then .error .emptyTypeName
  else .ok ((named? (name.map Char.toLower)).getD (custom name))

end ClusteringKeys.KeyType
