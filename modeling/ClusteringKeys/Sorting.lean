namespace ClusteringKeys

variable {α : Type}

/-- Puts an element into a list that descends, in front of the first one that it is not less than. -/
def insertDescending (order : α → α → Ordering) (x : α) : List α → List α
  | [] => [x]
  | y :: ys => if order x y = .lt then y :: insertDescending order x ys else x :: y :: ys

/-- Sorts by inserting one element after the other from the end of the sorted list. Elements that compare equal keep
    their order. -/
def stableSort (order : α → α → Ordering) (xs : List α) : List α :=
  (xs.foldl (fun sorted x => insertDescending order x sorted) []).reverse

end ClusteringKeys
