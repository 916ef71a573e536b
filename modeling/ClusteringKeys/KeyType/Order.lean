import ClusteringKeys.Floating.Basic
import ClusteringKeys.KeyType.Basic
import ClusteringKeys.Uuid

namespace ClusteringKeys

/-- Compares by what the bytes spell where both spell something, and otherwise by the bytes. -/
def compareReadOr {α : Type} (read? : Bytes → Option α) (order : α → α → Ordering) (left right : Bytes) :
    Ordering :=
  match read? left, read? right with
  | some l, some r => order l r
  | _, _ => compare left right

namespace KeyType

/-- The natural order of two serialized values that are not empty. Dates are unsigned day counts and booleans single
    bytes, so bytes order them. -/
def compareNonempty : KeyType → Bytes → Bytes → Ordering
  | tinyint | smallint | int | bigint | timestamp | time => Bytes.compareSigned
  | float => compareReadOr (Floating.ofBytes? .single) fun l r => Ord.compare l.rank r.rank
  | double => compareReadOr (Floating.ofBytes? .double) fun l r => Ord.compare l.rank r.rank
  | uuid => compareReadOr Uuid.ofBytes? Uuid.compare
  | timeuuid => compareReadOr Uuid.ofBytes? Uuid.compareByTime
  | boolean | date | text | ascii | blob | inet | custom _ => Ord.compare

/-- The natural order of two serialized values of a type. The empty value comes before all others. -/
def compare (type : KeyType) (left right : Bytes) : Ordering :=
  match left, right with
  | [], [] => .eq
  | [], _ :: _ => .lt
  | _ :: _, [] => .gt
  | _ :: _, _ :: _ => type.compareNonempty left right

end KeyType

end ClusteringKeys
