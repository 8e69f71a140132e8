import Mathlib.Algebra.Ring.Nat
import SuiteRunner.Suite

/-! # The order of the suites of a tree

The pre-order of a tree can be had by taking the next suite off a list and putting its children in
its place. -/
namespace SuiteRunner.Suite

/-- The suites at the top of some trees and all suites below them. -/
def upcoming (todo : List Located) : List Located := todo.flatMap fun l => l.suite.preorder l.path

/-- The suites right below another one. -/
def located (path : String) (s : Suite) : Located := ⟨childPath path s, s⟩

theorem preorderAll_eq (path : String) (ss : List Suite) :
    preorderAll path ss = upcoming (ss.map (located path)) := by
  induction ss with
  | nil => rfl
  | cons s ss ih => simp [preorderAll, upcoming, located, ih]

private theorem preorder_eq (l : Located) :
    l.suite.preorder l.path = l :: upcoming (l.suite.suites.map (located l.path)) := by
  obtain ⟨path, name, cases, suites⟩ := l
  simp [preorder, preorderAll_eq, Suite.suites]

theorem upcoming_cons (l : Located) (rest : List Located) :
    upcoming (l :: rest) = l :: upcoming (l.suite.suites.map (located l.path) ++ rest) := by
  simp only [upcoming, List.flatMap_cons, List.flatMap_append]
  rw [preorder_eq]
  rfl

mutual
/-- Every test case is counted in the suite that holds it. -/
theorem testCount_eq_sum : ∀ (s : Suite) (path : String),
    s.testCount = ((s.preorder path).map fun l => l.suite.cases.length).sum
  | .mk name cases suites, path => by
    rw [testCount, preorder, testCountAll_eq_sum suites path, List.map_cons, List.sum_cons]
    rfl

theorem testCountAll_eq_sum : ∀ (ss : List Suite) (path : String),
    testCountAll ss = ((preorderAll path ss).map fun l => l.suite.cases.length).sum
  | [], _ => rfl
  | s :: ss, path => by
    rw [testCountAll, preorderAll, List.map_append, List.sum_append,
      testCount_eq_sum s (childPath path s), testCountAll_eq_sum ss path]
end

/-! ## Paths -/

mutual
/-- The suites on the way down to each suite of a tree in pre-order. The top is not among them. -/
def trails : Suite → List (List Suite)
  | .mk _ _ ss => [] :: trailsAll ss

def trailsAll : List Suite → List (List Suite)
  | [] => []
  | s :: ss => s.trails.map (s :: ·) ++ trailsAll ss
end

/-- A slash and the name of each suite on the way. -/
def trailPath (trail : List Suite) : String := String.join (trail.map fun s => "/" ++ s.name)

theorem trailPath_cons (s : Suite) (trail : List Suite) :
    trailPath (s :: trail) = "/" ++ s.name ++ trailPath trail := by
  simp [trailPath]

mutual
theorem preorder_eq_trails : ∀ (s : Suite) (path : String),
    s.preorder path = s.trails.map fun t => ⟨path ++ trailPath t, t.getLastD s⟩
  | .mk name cases suites, path => by
    rw [preorder, trails, List.map_cons, preorderAll_eq_trails suites path (.mk name cases suites)]
    simp [trailPath]

theorem preorderAll_eq_trails : ∀ (ss : List Suite) (path : String) (top : Suite),
    preorderAll path ss = (trailsAll ss).map fun t => ⟨path ++ trailPath t, t.getLastD top⟩
  | [], _, _ => rfl
  | s :: ss, path, top => by
    rw [preorderAll, trailsAll, List.map_append, List.map_map, preorderAll_eq_trails ss path top,
      preorder_eq_trails s]
    congr 1
    apply List.map_congr_left
    intro t _
    simp only [Function.comp, childPath, trailPath_cons, List.getLastD_cons, String.append_assoc]
end

end SuiteRunner.Suite
