/-!
Simple cycles of a directed graph. Each cycle is found from its least vertex, so it is written in
one way only.
-/

namespace NodeScript

/-- The edges of a directed graph with named vertices. -/
abbrev Arrows := List (String × String)

namespace Cycle

def successors (edges : Arrows) (v : String) : List String :=
  (edges.filter (·.1 == v)).map Prod.snd

/-- Adds to `reached` the vertices of `allowed` that reach one of `latest` in at most `count` edges
between them. -/
def reaching (edges : Arrows) (allowed : List String) :
    (count : Nat) → (latest reached : List String) → List String
  | 0, _, reached => reached
  | count + 1, latest, reached =>
    let more := edges.filterMap fun (v, w) =>
      if latest.contains w && allowed.contains v && !reached.contains v then some v else none
    if more.isEmpty then reached
    else
      let more := more.eraseDups
      reaching edges allowed count more (more ++ reached)

/-- The vertices of `allowed` from which there is a way to `first`, and `first` itself. -/
def reachingFirst (edges : Arrows) (first : String) (allowed : List String) : List String :=
  reaching edges allowed allowed.length [first] [first]

/-- Adds to `found` the ways on from a path back to its first vertex, until there are `limit` of
them. The path is given backwards. Every vertex in `allowed` still has a way back that avoids the
path, so no step is taken in vain. -/
def extend (edges : Arrows) (limit : Nat) (first : String) :
    (allowed : List String) → (fuel : Nat) → (path : List String) → (last : String) →
    (found : List (List String)) → List (List String)
  | _, 0, _, _, found => found
  | allowed, fuel + 1, path, last, found =>
    (successors edges last).foldl
      (fun found next =>
        if limit ≤ found.length then found
        else if next == first then found ++ [path.reverse]
        else if allowed.contains next then
          let others := allowed.filter fun v => v != next && v != first
          extend edges limit first (reachingFirst edges first others) fuel (next :: path) next found
        else found)
      found

/-- The simple cycles, up to `limit` of them, from the least vertices on. -/
def all (vertices : List String) (edges : Arrows) (limit : Nat) : List (List String) :=
  vertices.foldl
    (fun found v =>
      let allowed := reachingFirst edges v (vertices.filter fun w => decide (v < w))
      extend edges limit v allowed (vertices.length + 1) [v] v found)
    []

/-- What a search for simple cycles comes to: those that it lists, and why it gives up, if it
does. -/
structure Listing where
  cycles : List (List String)
  failure : Option String := none

/-- A way to search a directed graph for its simple cycles, up to a number of them. -/
abbrev Search := (vertices : List String) → (edges : Arrows) → (limit : Nat) → Listing

/-- The search from the least vertices on, which never gives up. -/
def search : Search := fun vertices edges limit => { cycles := all vertices edges limit }

/-- The cycle with its first vertex again at the end. -/
def line (cycle : List String) : String :=
  " -> ".intercalate (cycle ++ cycle.take 1)

end Cycle

end NodeScript
