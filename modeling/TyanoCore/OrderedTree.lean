import Mathlib.Data.List.Basic

/-!
# Ordered trees

Trees whose nodes have labels and lists of children, with folds and an induction over the children.
-/

inductive OrderedTree (α : Type*) where
  | node (label : α) (children : List (OrderedTree α))

namespace OrderedTree

variable {α β : Type*}

def label : OrderedTree α → α
  | node a _ => a

def children : OrderedTree α → List (OrderedTree α)
  | node _ ts => ts

mutual

/-- The value of a tree from its label and the values of its children. -/
def fold (f : α → List β → β) : OrderedTree α → β
  | node a ts => f a (foldAll f ts)

def foldAll (f : α → List β → β) : List (OrderedTree α) → List β
  | [] => []
  | t :: ts => fold f t :: foldAll f ts

end

theorem foldAll_eq (f : α → List β → β) (ts : List (OrderedTree α)) :
    foldAll f ts = ts.map (fold f) := by
  induction ts with
  | nil => rfl
  | cons t ts ih => rw [foldAll, ih, List.map_cons]

theorem fold_node (f : α → List β → β) (a : α) (ts : List (OrderedTree α)) :
    fold f (node a ts) = f a (ts.map (fold f)) := by
  rw [fold, foldAll_eq]

/-- What holds of a tree as soon as it holds of its children holds of all trees. -/
theorem induct {P : OrderedTree α → Prop}
    (h : ∀ a ts, (∀ t ∈ ts, P t) → P (node a ts)) (t : OrderedTree α) : P t := by
  apply @OrderedTree.rec α P (fun ts => ∀ t ∈ ts, P t) h
  · exact fun t ht => absurd ht List.not_mem_nil
  · intro t ts hhead htail t' ht
    rcases List.mem_cons.mp ht with rfl | ht
    · exact hhead
    · exact htail t' ht

/-- Every node of a tree, with its children, has a property. -/
inductive All (P : α → List (OrderedTree α) → Prop) : OrderedTree α → Prop where
  | node {a : α} {ts : List (OrderedTree α)} : P a ts → (∀ t ∈ ts, All P t) → All P (node a ts)

theorem All.root {P : α → List (OrderedTree α) → Prop} {a : α} {ts : List (OrderedTree α)}
    (h : All P (OrderedTree.node a ts)) : P a ts := by
  cases h with
  | node ha _ => exact ha

theorem All.under {P : α → List (OrderedTree α) → Prop} {a : α} {ts : List (OrderedTree α)}
    (h : All P (OrderedTree.node a ts)) : ∀ t ∈ ts, All P t := by
  cases h with
  | node _ hts => exact hts

theorem All.imp {P Q : α → List (OrderedTree α) → Prop} (hPQ : ∀ a ts, P a ts → Q a ts)
    {t : OrderedTree α} (h : All P t) : All Q t := by
  induction t using induct with
  | h a ts ih => exact .node (hPQ a ts h.root) fun t ht => ih t ht (h.under t ht)

theorem All.and {P Q : α → List (OrderedTree α) → Prop} {t : OrderedTree α} (hP : All P t)
    (hQ : All Q t) : All (fun a ts => P a ts ∧ Q a ts) t := by
  induction t using induct with
  | h a ts ih => exact .node ⟨hP.root, hQ.root⟩ fun t ht => ih t ht (hP.under t ht) (hQ.under t ht)

/-- A tree of the same shape with other labels. -/
def map (f : α → β) : OrderedTree α → OrderedTree β := fold fun a ts => node (f a) ts

theorem map_node (f : α → β) (a : α) (ts : List (OrderedTree α)) :
    map f (node a ts) = node (f a) (ts.map (map f)) := fold_node _ a ts

/-- The value of a tree from its label and its children with their values. -/
def para (f : α → List (OrderedTree α × β) → β) (t : OrderedTree α) : β :=
  (fold (fun a ts => (node a (ts.map Prod.fst), f a ts)) t).2

end OrderedTree
