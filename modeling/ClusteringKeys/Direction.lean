import ClusteringKeys.Error
import ClusteringKeys.Json.Library
import ClusteringKeys.Text.Blank

namespace ClusteringKeys

/-- The direction in which the keys of a table run through the values of a clustering column. -/
inductive Direction where
  | asc
  | desc
  deriving DecidableEq

namespace Direction

def name : Direction → String
  | asc => "ASC"
  | desc => "DESC"

instance : ToString Direction := ⟨name⟩

def isReversed : Direction → Bool
  | asc => false
  | desc => true

/-- Turns a comparison in the natural order into one in this direction. -/
def apply : Direction → Ordering → Ordering
  | asc, o => o
  | desc, o => o.swap

/-- Reads a direction. Blanks around it and the case of ASCII letters do not count. -/
def ofName (s : String) : Except SchemaFault Direction :=
  match (Text.trim s).map Char.toUpper with
  | "ASC" => .ok asc
  | "DESC" => .ok desc
  | other => .error (.unknownOrder other)

def toJson [Json.Library] : Direction → Json
  | asc => Json.Library.ofVariant "Asc" none
  | desc => Json.Library.ofVariant "Desc" none

def rank : Direction → Nat
  | asc => 0
  | desc => 1

/-- A fixed order of the directions, for telling columns apart. -/
instance : Ord Direction := ⟨compareOn rank⟩

end Direction

end ClusteringKeys
