import LagoDB.RelationNode
import Mathlib.Data.Finset.Basic

/-!
# PostgreSQL's join paths

A join relation lists the paths PostgreSQL found for it. A join path names its two
inputs and the clauses checked at the join; a parameterized inner input has other
clauses moved into it and checks them for one outer row at a time. An input may
also be made unique on some columns first.
-/
namespace LagoDB.RelationTree

open Negotiation

/-! ## Planner data -/

structure JoinRestriction where
  rinfoSerial : ℤ
  clause : PgExpr
  pseudoconstant : Bool
  isPushedDown : Bool
  requiredRelids : Finset ℤ
  canJoin : Bool
  hashjoinoperator : ℕ

structure ParamPathInfo where
  ppiReqOuter : Finset ℤ
  ppiClauses : List JoinRestriction

inductive PgJoinType where
  | inner
  | left
  | full
  | right
  | semi
  | anti
  | rightSemi
  | rightAnti
  deriving DecidableEq

/-- Gather, GatherMerge, Sort, Material and Projection paths. -/
inductive WrapperTag where
  | gather
  | gatherMerge
  | sort
  | material
  | projection
  deriving DecidableEq

inductive JoinPathTag where
  | nestLoop
  | merge
  | hash
  deriving DecidableEq

structure PathCost where
  disabledNodes : ℕ
  startup : ℚ
  total : ℚ
  deriving DecidableEq

/-- `compare_path_costs` on total cost. -/
def PathCost.isCheaper (cost other : PathCost) : Bool :=
  if cost.disabledNodes ≠ other.disabledNodes then cost.disabledNodes < other.disabledNodes
  else if cost.total ≠ other.total then cost.total < other.total
  else cost.startup < other.startup

mutual

inductive RelOptInfo where
  | base (relid : ℤ)
  | join (relids lateralRelids : Finset ℤ) (pathlist : List Path)
  | other

inductive Path where
  | wrapped (tag : WrapperTag) (cost : PathCost) (subpath : Path)
  | join (tag : JoinPathTag) (cost : PathCost) (jointype : PgJoinType)
    (paramInfo : Option ParamPathInfo) (joinrestrictinfo : List JoinRestriction)
    (outer inner : InputPath)
  | other (cost : PathCost)

/-- An input of a join: the relation it is a path of, the clauses it checks for
each outer row, and the columns it is made unique on. -/
inductive InputPath where
  | mk (parent : RelOptInfo) (paramInfo : Option ParamPathInfo) (moved : List JoinRestriction)
    (uniqueOn : Option (List (ℤ × ℤ)))

end

namespace InputPath

def parent : InputPath → RelOptInfo
  | .mk parent _ _ _ => parent

def paramInfo : InputPath → Option ParamPathInfo
  | .mk _ paramInfo _ _ => paramInfo

def moved : InputPath → List JoinRestriction
  | .mk _ _ moved _ => moved

def uniqueOn : InputPath → Option (List (ℤ × ℤ))
  | .mk _ _ _ uniqueOn => uniqueOn

/-- The clauses of the parameterization, as the planner reads them. -/
def ppiClauses (input : InputPath) : List JoinRestriction :=
  (input.paramInfo.map ParamPathInfo.ppiClauses).getD []

end InputPath

def RelOptInfo.isBase : RelOptInfo → Bool
  | .base _ => true
  | _ => false

namespace Path

def cost : Path → PathCost
  | .wrapped _ cost _ | .join _ cost _ _ _ _ _ | .other cost => cost

def unwrapPath : Path → Path
  | .wrapped _ _ subpath => subpath.unwrapPath
  | path => path

/-- A standard join with exactly the outer relations the relation itself needs. -/
def isStandardJoin (lateralRelids : Finset ℤ) (candidate : Path) : Bool :=
  match candidate.unwrapPath with
  | .join _ _ _ paramInfo _ _ _ =>
    ((paramInfo.map ParamPathInfo.ppiReqOuter).getD ∅) = lateralRelids
  | _ => false

end Path

/-! ## The selected path -/

section Select

variable {α : Type} (lateralRelids ls : Finset ℤ)

/-- One path of `selected_standard_join_path`: with something attached, it replaces a costlier
one. -/
def selectStep (selected : Option (Path × α)) (candidate : Path × α) : Option (Path × α) :=
  if candidate.1.isStandardJoin lateralRelids then
    some (selected.elim candidate fun best =>
      if candidate.1.cost.isCheaper best.1.cost then candidate else best)
  else selected

def selectCandidate (candidates : List (Path × α)) : Option (Path × α) :=
  candidates.foldl (selectStep lateralRelids) none

variable {ls}

lemma selectStep_cases (s : Option (Path × α)) (c : Path × α) :
    selectStep ls s c = s ∨ (selectStep ls s c = some c ∧ c.1.isStandardJoin ls = true) := by
  rw [selectStep]
  split_ifs with hs
  · cases s with
    | none => exact .inr ⟨rfl, hs⟩
    | some b =>
      rw [Option.elim_some]
      split_ifs
      · exact .inr ⟨rfl, hs⟩
      · exact .inl rfl
  · exact .inl rfl

lemma foldl_selectStep_mem (cs : List (Path × α)) (s : Option (Path × α))
    {chosen : Path × α} (h : cs.foldl (selectStep ls) s = some chosen) :
    s = some chosen ∨ (chosen ∈ cs ∧ chosen.1.isStandardJoin ls = true) := by
  induction cs generalizing s with
  | nil => exact .inl h
  | cons c r ih =>
    rcases ih _ h with hse | ⟨hm, hs⟩
    · rcases selectStep_cases s c with hsa | ⟨hn, hs⟩
      · exact .inl (hsa.symm.trans hse)
      · obtain rfl : c = chosen := Option.some.inj (hn.symm.trans hse)
        exact .inr ⟨List.mem_cons_self, hs⟩
    · exact .inr ⟨List.mem_cons_of_mem c hm, hs⟩

lemma selectCandidate_mem {f : Path → α} {p : List Path} {c : Path × α}
    (h : selectCandidate ls (p.map fun path => (path, f path)) = some c) :
    c.1 ∈ p ∧ c.2 = f c.1 ∧ c.1.isStandardJoin ls = true := by
  rcases foldl_selectStep_mem _ none h with hn | ⟨hm, hs⟩
  · cases hn
  · obtain ⟨path, hp, rfl⟩ := List.mem_map.mp hm
    exact ⟨hp, rfl, hs⟩

end Select

end LagoDB.RelationTree
