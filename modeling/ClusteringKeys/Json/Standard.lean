import ClusteringKeys.Json.Library
import ClusteringKeys.Json.Parser
import ClusteringKeys.Json.Printer
import ClusteringKeys.Json.Real

namespace ClusteringKeys.Json

/-- The library that runs. Texts are compact, records are objects, and alternatives stand under their names. -/
instance standard : Library where
  print j := String.ofList j.render
  parse? := parse?
  ofBool := bool
  bool? := bool?
  ofString := text
  string? := text?
  ofInteger := ofInt
  integer? := int?
  ofSingle := ofFloating
  single? := single?
  ofDouble := ofFloating
  double? := double?
  ofList := list
  list? := list?
  ofRecord := object
  record? := record?
  ofVariant tag payload := payload.elim (text tag) (tagged tag)
  variant? := variant?

end ClusteringKeys.Json
