import ClusteringKeys.Error

namespace ClusteringKeys

inductive Document where
  | missing
  | directory
  | file (content : Bytes)

def Document.text : Document → Except FileFault String
  | missing => .error .missing
  | directory => .error .isDirectory
  | file content => (Utf8.decode content).mapError fun _ => .notText

end ClusteringKeys
