import ClusteringKeys.Error

namespace ClusteringKeys.KeyType

/-- Accepts the serialized values that have the form of the type. -/
def check (type : KeyType) (value : Bytes) : Except ConversionFault Unit :=
  match type.width? with
  | some width => if value.length = width then .ok () else .error (.wrongWidth type width value.length)
  | none =>
    match type with
    | text => match Utf8.decode value with
      | .ok _ => .ok ()
      | .error fault => .error (.notText fault)
    | ascii => if value.isAscii then .ok () else .error .notAscii
    | inet => if value.length = 4 ∨ value.length = 16 then .ok () else .error (.notAddress value.length)
    | _ => .ok ()

end ClusteringKeys.KeyType
