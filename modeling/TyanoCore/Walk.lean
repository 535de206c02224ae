import Mathlib.Data.Finset.Card
import Mathlib.Data.List.Nodup
import Mathlib.Logic.Relation

/-!
# Walking a forest in breadth

A walk takes a node from the front of a queue and appends its children.  In a forest, where no
node has two parents or lies below itself, it meets every node below the queue exactly once.
-/

namespace Walk

variable {α : Type*} {children : α → List α}

/-- The nodes that a walk of `n` steps meets. -/
def visit (children : α → List α) : ℕ → List α → List α
  | 0, _ => []
  | _, [] => []
  | n + 1, a :: queue => a :: visit children n (queue ++ children a)

def Below (children : α → List α) : α → α → Prop :=
  Relation.TransGen fun a b => b ∈ children a

structure IsForest (children : α → List α) : Prop where
  nodup : ∀ a, (children a).Nodup
  parent : ∀ {a b c}, c ∈ children a → c ∈ children b → a = b
  acyclic : ∀ a, ¬ Below children a a

/-- No node of the queue occurs twice or lies below another one. -/
structure Apart (children : α → List α) (queue : List α) : Prop where
  nodup : queue.Nodup
  not_below : ∀ a ∈ queue, ∀ b ∈ queue, ¬ Below children a b

/-- What lies below a node's child lies below the node. -/
theorem Below.of_child {a b c : α} (h : b ∈ children a) (hc : c = b ∨ Below children b c) :
    Below children a c := by
  rcases hc with rfl | hc
  · exact .single h
  · exact .head h hc

/-- A node has one parent, so what lies above a node lies above its parent or is the parent. -/
theorem IsForest.below_parent (hf : IsForest children) {a b c : α} (h : Below children a c)
    (hc : c ∈ children b) : a = b ∨ Below children a b := by
  -- the last step down ends at `c`, so it starts at its parent
  rcases Relation.TransGen.tail'_iff.mp h with ⟨b', hab, hc'⟩
  have hb : b' = b := hf.parent hc' hc
  subst hb
  rcases Relation.reflTransGen_iff_eq_or_transGen.mp hab with rfl | hab
  · exact .inl rfl
  · exact .inr hab

/-- The node that is taken from the queue does not come back. -/
theorem Apart.taken (hf : IsForest children) {a : α} {queue : List α}
    (h : Apart children (a :: queue)) {b : α} (hb : b ∈ queue ++ children a) :
    b ≠ a ∧ ¬ Below children b a := by
  rcases List.mem_append.mp hb with hb | hb
  · refine ⟨?_, h.not_below b (List.mem_cons_of_mem a hb) a List.mem_cons_self⟩
    intro hba
    rw [hba] at hb
    exact (List.nodup_cons.mp h.nodup).1 hb
  · refine ⟨?_, fun hba => hf.acyclic a (.of_child hb (.inr hba))⟩
    intro hba
    rw [hba] at hb
    exact hf.acyclic a (.single hb)

theorem Apart.step (hf : IsForest children) {a : α} {queue : List α}
    (h : Apart children (a :: queue)) : Apart children (queue ++ children a) := by
  have hqueue {b : α} (hb : b ∈ queue) : b ∈ a :: queue := List.mem_cons_of_mem a hb
  constructor
  · rw [List.nodup_append]
    refine ⟨(List.nodup_cons.mp h.nodup).2, hf.nodup a, ?_⟩
    rintro b hb c hc rfl
    exact h.not_below a List.mem_cons_self b (hqueue hb) (.single hc)
  · intro b hb c hc hbc
    rcases List.mem_append.mp hc with hc | hc
    · rcases List.mem_append.mp hb with hb | hb
      · exact h.not_below b (hqueue hb) c (hqueue hc) hbc
      · exact h.not_below a List.mem_cons_self c (hqueue hc) (.of_child hb (.inr hbc))
    -- `c` is a child of the node that is taken
    · obtain ⟨hne, hbelow⟩ := h.taken hf hb
      rcases hf.below_parent hbc hc with hba | hba
      · exact hne hba
      · exact hbelow hba

section

variable {children' : α → List α} (h : ∀ a, (children' a).Sublist (children a))

include h

/-- With fewer children less lies below a node. -/
theorem Below.of_sublist {a b : α} (hab : Below children' a b) : Below children a b :=
  Relation.TransGen.mono (fun a _ hb => (h a).subset hb) a b hab

theorem IsForest.of_sublist (hf : IsForest children) : IsForest children' := by
  constructor
  · exact fun a => (h a).nodup (hf.nodup a)
  · exact fun ha hb => hf.parent ((h _).subset ha) ((h _).subset hb)
  · exact fun a ha => hf.acyclic a (ha.of_sublist h)

theorem Apart.of_sublist {queue queue' : List α} (hqueue : queue'.Sublist queue)
    (hapart : Apart children queue) : Apart children' queue' := by
  constructor
  · exact hqueue.nodup hapart.nodup
  · intro a ha b hb hab
    exact hapart.not_below a (hqueue.subset ha) b (hqueue.subset hb) (hab.of_sublist h)

end

/-- The walk does not leave the forest below the queue. -/
theorem visit_below {n : ℕ} {queue : List α} {b : α} (hb : b ∈ visit children n queue) :
    ∃ a ∈ queue, b = a ∨ Below children a b := by
  induction n generalizing queue with
  | zero => cases hb
  | succ n ih =>
    cases queue with
    | nil => cases hb
    | cons a queue =>
      rcases List.mem_cons.mp hb with rfl | hb
      · exact ⟨b, List.mem_cons_self, .inl rfl⟩
      · obtain ⟨c, hc, hcb⟩ := ih hb
        rcases List.mem_append.mp hc with hc | hc
        · exact ⟨c, List.mem_cons_of_mem a hc, hcb⟩
        · exact ⟨a, List.mem_cons_self, .inr (.of_child hc hcb)⟩

theorem visit_nodup (hf : IsForest children) {n : ℕ} {queue : List α}
    (h : Apart children queue) : (visit children n queue).Nodup := by
  induction n generalizing queue with
  | zero => exact List.nodup_nil
  | succ n ih =>
    cases queue with
    | nil => exact List.nodup_nil
    | cons a queue =>
      refine List.nodup_cons.mpr ⟨?_, ih (h.step hf)⟩
      intro ha
      -- the node would lie below the queue that is left
      obtain ⟨b, hb, hba⟩ := visit_below ha
      obtain ⟨hne, hbelow⟩ := h.taken hf hb
      rcases hba with hba | hba
      · exact hne hba.symm
      · exact hbelow hba

/-- What bounds the nodes below the queue loses the one that is taken. -/
theorem Apart.rest (hf : IsForest children) [DecidableEq α] {a : α} {queue : List α}
    (h : Apart children (a :: queue)) {s : Finset α}
    (hs : ∀ b ∈ a :: queue, ∀ c, c = b ∨ Below children b c → c ∈ s) :
    ∀ b ∈ queue ++ children a, ∀ c, c = b ∨ Below children b c → c ∈ s.erase a := by
  intro b hb c hbc
  obtain ⟨hne, hbelow⟩ := h.taken hf hb
  rw [Finset.mem_erase]
  constructor
  · rintro rfl
    rcases hbc with hbc | hbc
    · exact hne hbc.symm
    · exact hbelow hbc
  · rcases List.mem_append.mp hb with hb | hb
    · exact hs b (List.mem_cons_of_mem a hb) c hbc
    · exact hs a List.mem_cons_self c (.inr (.of_child hb hbc))

/-! ## Walks to the end -/

/-- The nodes that a walk meets until the queue is empty. -/
inductive Visits (children : α → List α) : List α → List α → Prop
  | nil : Visits children [] []
  | cons {a : α} {queue nodes : List α} (h : Visits children (queue ++ children a) nodes) :
      Visits children (a :: queue) (a :: nodes)

/-- With as many steps as there are nodes below the queue, the walk gets to its end. -/
theorem visits_visit (hf : IsForest children) [DecidableEq α] {n : ℕ} {queue : List α}
    (h : Apart children queue) {s : Finset α}
    (hs : ∀ a ∈ queue, ∀ b, b = a ∨ Below children a b → b ∈ s) (hn : s.card ≤ n) :
    Visits children queue (visit children n queue) := by
  -- on the steps; `s` bounds what lies below the queue and loses a node with each
  induction n generalizing queue s with
  | zero =>
    cases queue with
    | nil => exact .nil
    | cons a queue =>
      have hmem := hs a List.mem_cons_self a (.inl rfl)
      rw [Finset.card_eq_zero.mp (Nat.le_zero.mp hn)] at hmem
      cases hmem
  | succ n ih =>
    cases queue with
    | nil => exact .nil
    | cons a queue =>
      have hcard : (s.erase a).card ≤ n := by
        rw [Finset.card_erase_of_mem (hs a List.mem_cons_self a (.inl rfl))]
        omega
      exact .cons (ih (h.step hf) (h.rest hf hs) hcard)

/-- A walk to the end meets whatever lies below the queue. -/
theorem Visits.mem {queue nodes : List α} (h : Visits children queue nodes) {a b : α}
    (ha : a ∈ queue) (hab : b = a ∨ Below children a b) : b ∈ nodes := by
  induction h generalizing a with
  | nil => cases ha
  | @cons c queue nodes _ ih =>
    rcases List.mem_cons.mp ha with rfl | ha
    · rcases hab with rfl | hab
      · exact List.mem_cons_self
      · -- the first step down from the node that is taken
        obtain ⟨d, hd, hdb⟩ := Relation.TransGen.head'_iff.mp hab
        exact List.mem_cons_of_mem _ (ih (List.mem_append_right _ hd)
          (Relation.reflTransGen_iff_eq_or_transGen.mp hdb))
    · exact List.mem_cons_of_mem _ (ih (List.mem_append_left _ ha) hab)

/-- Whatever a walk meets is in the queue or a child of what it meets. -/
theorem Visits.mem_cases {queue nodes : List α} (h : Visits children queue nodes) {b : α}
    (hb : b ∈ nodes) : b ∈ queue ∨ ∃ a ∈ nodes, b ∈ children a := by
  induction h with
  | nil => cases hb
  | @cons c queue nodes _ ih =>
    rcases List.mem_cons.mp hb with rfl | hb
    · exact .inl List.mem_cons_self
    · rcases ih hb with hqueue | ⟨a, ha, hchild⟩
      · rcases List.mem_append.mp hqueue with hqueue | hchild
        · exact .inl (List.mem_cons_of_mem c hqueue)
        · exact .inr ⟨c, List.mem_cons_self, hchild⟩
      · exact .inr ⟨a, List.mem_cons_of_mem c ha, hchild⟩

/-- The walk depends on the children of the nodes that it meets. -/
theorem Visits.congr {children' : α → List α} {queue nodes : List α}
    (h : Visits children queue nodes) (hsame : ∀ a ∈ nodes, children' a = children a) :
    Visits children' queue nodes := by
  induction h with
  | nil => exact .nil
  | @cons a queue nodes _ ih =>
    have hrest := ih fun b hb => hsame b (List.mem_cons_of_mem a hb)
    rw [← hsame a List.mem_cons_self] at hrest
    exact .cons hrest

theorem visit_complete (hf : IsForest children) [DecidableEq α] {n : ℕ} {queue : List α}
    (h : Apart children queue) {s : Finset α}
    (hs : ∀ a ∈ queue, ∀ b, b = a ∨ Below children a b → b ∈ s) (hn : s.card ≤ n) {a b : α}
    (ha : a ∈ queue) (hab : b = a ∨ Below children a b) : b ∈ visit children n queue :=
  (visits_visit hf h hs hn).mem ha hab

end Walk
