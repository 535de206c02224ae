import Mathlib.Algebra.BigOperators.Fin
import Mathlib.Algebra.Order.BigOperators.Group.Finset
import TyanoCore.PathNodes

/-!
# How long a path search takes

A node costs at most as much as the nodes before it may add up to, so the costs stay small.  With every
node that is stored and every one that is closed the costs, the open nodes and the room that is left
get less together; a search ends after so many rounds at most.
-/

namespace TyanoCore

namespace PathSearch

variable {search : PathSearch} {nodes nodes' : AStarNodes} {n i : ℕ} {q : ℕ × ℕ} {cost : ℕ}
  {start : ℕ × ℕ}

/-- No step costs more than a diagonal one to a tile with a creature and a field. -/
def Cheap (search : PathSearch) : Prop := ∀ x y, search.tileWalkCost x y ≤ 60

theorem Step.cost_le {p : ℕ × ℕ} (hcheap : search.Cheap) (h : search.Step p q cost) : cost ≤ 85 := by
  have htile := hcheap q.1 q.2
  have hcost := h.cost_eq
  rw [AStarNodes.getMapWalkCost, mapDiagonalWalkCost, mapNormalWalkCost] at hcost
  split at hcost <;> omega

/-- What a node counts: its cost, and that it is open. -/
def weight (nodes : AStarNodes) (i : ℕ) : ℕ :=
  2 * (nodes.nodes i).g + (nodes.openNodes i).toNat

/-- What falls: the weights of the nodes, with more for each node that is not in use. -/
def measure (nodes : AStarNodes) : ℕ :=
  (maxNodes - nodes.curNode) * 87042 + ∑ i ∈ Finset.range nodes.curNode, weight nodes i

def Bounded (nodes : AStarNodes) : Prop := ∀ i < nodes.curNode, (nodes.nodes i).g ≤ 85 * i

theorem Stored.bounded (hcheap : search.Cheap) (hn : n < nodes.curNode) (hbounded : Bounded nodes)
    (h : search.Stored n i q cost nodes nodes') : Bounded nodes' := by
  intro j hj
  by_cases hji : j = i
  · have hcost := h.step.cost_le hcheap
    have hparent := hbounded n hn
    rw [hji, h.g_self]
    rcases h.fresh_or_dearer with hfresh | hdearer
    · omega
    · have hold := hbounded i hdearer.1
      omega
  · rw [h.node_of_ne hji]
    exact hbounded j (h.lt_of_lt hj hji)

theorem Stored.weight_of_ne (h : search.Stored n i q cost nodes nodes') {j : ℕ} (hj : j ≠ i) :
    weight nodes' j = weight nodes j := by
  rw [weight, weight, h.node_of_ne hj, h.open_of_ne hj]

theorem Stored.weight_self (h : search.Stored n i q cost nodes nodes') :
    weight nodes' i = 2 * ((nodes.nodes n).g + cost) + 1 := by
  rw [weight, h.g_self, h.open_self]
  rfl

/-- Storing a node lowers the measure. -/
theorem Stored.measure_lt (hcheap : search.Cheap) (hn : n < nodes.curNode) (hbounded : Bounded nodes)
    (h : search.Stored n i q cost nodes nodes') : measure nodes' < measure nodes := by
  rw [measure, measure]
  rcases h.fresh_or_dearer with ⟨rfl, hcur, hroom, _⟩ | ⟨hi, hcur, _, hless⟩
  · have hcost := h.step.cost_le hcheap
    have hparent := hbounded n hn
    have hsame : ∑ j ∈ Finset.range nodes.curNode, weight nodes' j =
        ∑ j ∈ Finset.range nodes.curNode, weight nodes j :=
      Finset.sum_congr rfl fun j hj => h.weight_of_ne (Nat.ne_of_lt (Finset.mem_range.mp hj))
    have hmax : maxNodes = 512 := rfl
    rw [hcur, Finset.sum_range_succ, hsame, h.weight_self]
    omega
  · rw [hcur]
    apply Nat.add_lt_add_left
    have hself : weight nodes' i < weight nodes i := by
      rw [h.weight_self, weight]
      omega
    apply Finset.sum_lt_sum
    · intro j _
      by_cases hji : j = i
      · rw [hji]
        exact Nat.le_of_lt hself
      · exact Nat.le_of_eq (h.weight_of_ne hji)
    · exact ⟨i, Finset.mem_range.mpr hi, hself⟩

/-- A round lowers the measure. -/
theorem round_measure_lt (hcheap : search.Cheap) (h : search.Rooted start nodes)
    (hbounded : Bounded nodes) (hn : n < nodes.curNode) (hopen : nodes.openNodes n = true) :
    Bounded ((search.expand n search.directions nodes).1.closeNode n) ∧
      measure ((search.expand n search.directions nodes).1.closeNode n) < measure nodes := by
  have hkeeps := expand_keeps (fun nodes' => Bounded nodes' ∧ measure nodes' ≤ measure nodes ∧
      nodes'.openNodes n = true)
    (by
      intro nodes' nodes'' i q cost _ hn hinv hstored
      refine ⟨hstored.bounded hcheap hn hinv.1,
        (Nat.le_of_lt (hstored.measure_lt hcheap hn hinv.1)).trans hinv.2.1, ?_⟩
      rw [hstored.open_of_ne (hstored.ne hn)]
      exact hinv.2.2)
    search.directions (List.Subset.refl _) h hn ⟨hbounded, Nat.le_refl _, hopen⟩
  obtain ⟨hrooted, hle, hbounded', hmeasure, hopen'⟩ := hkeeps
  have hn' := hn.trans_le hle
  rw [AStarNodes.closeNode, if_pos (hn'.trans_le hrooted.le_max)]
  refine ⟨hbounded', lt_of_lt_of_le ?_ hmeasure⟩
  rw [measure, measure]
  apply Nat.add_lt_add_left
  apply Finset.sum_lt_sum
  · intro j _
    rw [weight, weight]
    by_cases hjn : j = n
    · rw [hjn, hopen']
      dsimp only
      rw [Function.update_self]
      exact Nat.le_succ _
    · dsimp only
      rw [Function.update_of_ne hjn]
  · refine ⟨n, Finset.mem_range.mpr hn', ?_⟩
    rw [weight, weight, hopen']
    dsimp only
    rw [Function.update_self]
    exact Nat.lt_succ_self _

theorem bounded_startNodes (search : PathSearch) (p : ℕ × ℕ) : Bounded (search.startNodes p) :=
  fun _ _ => Nat.zero_le _

theorem measure_startNodes_lt (search : PathSearch) (p : ℕ × ℕ) :
    measure (search.startNodes p) < 2 ^ 26 := by
  have hweight : ∑ i ∈ Finset.range (search.startNodes p).curNode, weight (search.startNodes p) i =
      1 := by
    show ∑ i ∈ Finset.range 1, weight (search.startNodes p) i = 1
    rw [Finset.sum_range_one]
    rfl
  rw [measure, hweight]
  show (maxNodes - 1) * 87042 + 1 < 2 ^ 26
  decide

end PathSearch

end TyanoCore
