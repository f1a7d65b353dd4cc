import EpsilonMatch.Graph.Basic
/-!
# EpsilonMatch.Graph.Path

Paths of a graph, the declarative side of `EpsilonMatch.Graph.Closure`.

A path follows the lists that exist. It may end in a vertex without a list, but
it does not go on from there. The vertex count plays no part.
-/

namespace EpsilonMatch.Graph

/-- There is an edge from `v` to `w`. -/
def Edge (g : Graph) (v w : Nat) : Prop :=
  ∃ targets, g.rows[v]? = some targets ∧ w ∈ targets

/-- There is a path of zero or more edges from `v` to `w`. -/
inductive Path (g : Graph) : Nat → Nat → Prop
  /-- Every vertex reaches itself. -/
  | refl (v : Nat) : Path g v v
  /-- A path may be prolonged at its end. -/
  | tail {u v w : Nat} (front : Path g u v) (last : g.Edge v w) : Path g u w

namespace Path

variable {g : Graph} {u v w : Nat}

theorem single (h : g.Edge v w) : Path g v w :=
  (refl v).tail h

theorem trans (first : Path g u v) (second : Path g v w) : Path g u w := by
  induction second with
  | refl => exact first
  | tail _ last ih => exact ih.tail last

end Path

/-- Some vertex of `sources` has a path to `v`. -/
def Reached (g : Graph) (sources : List Int) (v : Nat) : Prop :=
  ∃ s : Nat, (s : Int) ∈ sources ∧ g.Path s v

end EpsilonMatch.Graph
