/-
# Layers of a directed graph

Shapes are laid out in layers such that links run from earlier layers to later ones.  A link is
*kept* when its ends are different nodes and no earlier link joins the same two nodes in either
direction.  The traversal starts at the nodes without incoming kept links and visits a node when
all kept links into it have been followed; every link pushes its target behind its source.  If
every node has an incoming kept link, the traversal starts at the first node.  Nodes that are never
visited stay in the layer they were pushed to so far, which is the first one unless a link from a
visited node was followed.
-/
import UmlDraw.Data.Keyed

namespace UmlDraw
namespace Layering

/-- The same two nodes, in either direction. -/
def samePair (a b : String × String) : Bool :=
  a == b || (a.1 == b.2 && a.2 == b.1)

/-- The kept links, in order. -/
def keptLinks (nodes : List String) (links : List (String × String)) : List (String × String) :=
  links.foldl (fun kept link =>
    if nodes.contains link.1 && nodes.contains link.2 && link.1 != link.2 &&
        !kept.any (samePair link) then kept ++ [link]
    else kept) []

/-- Where the traversal is. -/
structure Traversal where
  /-- The layer of each node that was reached. -/
  rank : Keyed Nat
  /-- The number of links into each node that were not followed yet. -/
  pending : Keyed Nat
  /-- The nodes that were visited. -/
  visited : List String
  /-- The nodes that are to be visited next. -/
  queue : List String

namespace Traversal

/-- Follows the link from a node of layer `r` to the given node. -/
def follow (r : Nat) (t : Traversal) (target : String) : Traversal :=
  if t.visited.contains target then t
  else
    let left := (t.pending.get? target).getD 0 - 1
    { t with
      rank := t.rank.insert target (max ((t.rank.get? target).getD 0) (r + 1))
      pending := t.pending.insert target left
      queue := if left == 0 then t.queue ++ [target] else t.queue }

/-- Visits a node. -/
def visit (kept : List (String × String)) (t : Traversal) (node : String) : Traversal :=
  if t.visited.contains node then t
  else
    let targets := (kept.filter fun link => link.1 == node).map Prod.snd
    targets.foldl (follow ((t.rank.get? node).getD 0)) { t with visited := node :: t.visited }

/-- Visits the waiting nodes, at most the given number of them. -/
def run (kept : List (String × String)) : Nat → Traversal → Traversal
  | 0, t => t
  | n + 1, t =>
    match t.queue with
    | [] => t
    | node :: rest => run kept n (visit kept { t with queue := rest } node)

end Traversal

/-- The number of kept links into a node. -/
def inDegree (kept : List (String × String)) (node : String) : Nat :=
  (kept.filter fun link => link.2 == node).length

/-- The nodes where the traversal starts. -/
def roots (nodes : List String) (kept : List (String × String)) : List String :=
  match nodes.filter fun n => inDegree kept n == 0 with
  | [] => nodes.take 1
  | first :: rest => first :: rest

/-- The layer of each node that the traversal reaches.  Every link is followed at most once, so
there are at most as many waiting nodes as roots and kept links. -/
def ranks (nodes : List String) (kept : List (String × String)) : Keyed Nat :=
  let starts := roots nodes kept
  (Traversal.run kept (starts.length + kept.length)
    { rank := Keyed.ofList (starts.map fun n => (n, 0))
      pending := Keyed.ofList (nodes.map fun n => (n, inDegree kept n))
      visited := []
      queue := starts }).rank

/-- The nodes in layers, none of them empty; within a layer they keep their order. -/
def layers (nodes : List String) (links : List (String × String)) : List (List String) :=
  let rank := ranks nodes (keptLinks nodes links)
  let last := rank.values.foldl max 0
  let layer (r : Nat) : List String := nodes.filter fun n => (rank.get? n).getD 0 == r
  ((List.range (last + 1)).map layer).filter fun l => !l.isEmpty

end Layering
end UmlDraw
