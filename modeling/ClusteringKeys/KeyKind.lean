namespace ClusteringKeys

/-- The part of a primary key that a column belongs to. -/
inductive KeyKind where
  | partition
  | clustering
  deriving DecidableEq

namespace KeyKind

def name : KeyKind → String
  | partition => "partition key"
  | clustering => "clustering"

/-- The word for the part in front of "key". -/
def word : KeyKind → String
  | partition => "partition"
  | clustering => "clustering"

def title : KeyKind → String
  | partition => "Partition"
  | clustering => "Clustering"

def rank : KeyKind → Nat
  | partition => 0
  | clustering => 1

/-- The partition key comes first. -/
instance : Ord KeyKind := ⟨compareOn rank⟩

end KeyKind

end ClusteringKeys
