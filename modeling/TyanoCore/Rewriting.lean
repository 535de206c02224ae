import Mathlib.Algebra.BigOperators.Group.List.Basic
import Mathlib.Algebra.Order.Ring.Int
import Mathlib.Data.List.Infix
import Mathlib.Tactic.Ring

/-!
# Rewriting with one rule

An occurrence of a key is replaced by a value, wherever it is.  Every character carries its generation:
those of the text are of generation zero, and those of a value are one above the oldest character that
the value takes the place of.  While the occurrences that are replaced all have a character below some
generation, a weight falls; and where a key and a value overlap on one side only, every occurrence has a
character of the text.
-/

namespace Rewriting

variable {α : Type*}

/-- A text whose characters carry their generations. -/
abbrev Marked (α : Type*) := List (α × ℕ)

def fresh (text : List α) : Marked α := text.map fun a => (a, 0)

/-- The lowest generation. -/
def generation (found : Marked α) : ℕ := ((found.map Prod.snd).min?).getD 0

/-- What takes the place of an occurrence. -/
def write (value : List α) (found : Marked α) : Marked α :=
  value.map fun a => (a, generation found + 1)

/-- An occurrence of the key is replaced. -/
def Step (key value : List α) (t t' : Marked α) : Prop :=
  ∃ before found after, t = before ++ found ++ after ∧ found.map Prod.fst = key ∧
    t' = before ++ write value found ++ after

variable {key value : List α} {t t' found before after : Marked α} {g m : ℕ}

theorem map_fst_fresh (text : List α) : (fresh text).map Prod.fst = text := by
  rw [fresh, List.map_map]
  exact List.map_id text

theorem map_fst_write (value : List α) (found : Marked α) :
    (write value found).map Prod.fst = value := by
  rw [write, List.map_map]
  exact List.map_id value

theorem generation_mem (h : found ≠ []) : ∃ c ∈ found, c.2 = generation found := by
  have hmap : found.map Prod.snd ≠ [] := fun hnil => h (List.map_eq_nil_iff.mp hnil)
  obtain ⟨n, hn⟩ := Option.isSome_iff_exists.mp (List.isSome_min?_of_ne_nil hmap)
  obtain ⟨c, hc, hcn⟩ := List.mem_map.mp (List.min?_mem hn)
  refine ⟨c, hc, ?_⟩
  rw [generation, hn, hcn]
  rfl

theorem generation_le {c : α × ℕ} (hc : c ∈ found) : generation found ≤ c.2 := by
  have hmem : c.2 ∈ found.map Prod.snd := List.mem_map_of_mem hc
  obtain ⟨n, hn⟩ := Option.isSome_iff_exists.mp (List.isSome_min?_of_mem hmem)
  rw [generation, hn]
  exact (List.le_min?_iff hn).mp (Nat.le_refl n) c.2 hmem

/-! ## A weight that falls -/

/-- The lower the generation, the more a character weighs: more than `m` of the next one. -/
def weight (g m : ℕ) (t : Marked α) : ℕ := (t.map fun c => (m + 1) ^ (g - c.2)).sum

theorem weight_append (g m : ℕ) (t t' : Marked α) :
    weight g m (t ++ t') = weight g m t + weight g m t' := by
  rw [weight, List.map_append, List.sum_append, weight, weight]

theorem weight_of_mem {c : α × ℕ} (hc : c ∈ t) (g m : ℕ) : (m + 1) ^ (g - c.2) ≤ weight g m t := by
  obtain ⟨before, after, rfl⟩ := List.append_of_mem hc
  rw [weight_append, weight, weight, List.map_cons, List.sum_cons]
  omega

theorem weight_write_lt (h : ∃ c ∈ found, c.2 < g) :
    weight g value.length (write value found) < weight g value.length found := by
  obtain ⟨c, hc, hlt⟩ := h
  obtain ⟨d, hd, hdeq⟩ := generation_mem (List.ne_nil_of_mem hc)
  have hle := generation_le hc
  have hsucc : g - generation found = g - (generation found + 1) + 1 := by omega
  -- the lowest of what is found weighs more than all that is written in its place
  have hold := weight_of_mem hd g value.length
  have hnew : weight g value.length (write value found) =
      value.length * (value.length + 1) ^ (g - (generation found + 1)) := by
    rw [weight, write, List.map_map]
    show (value.map fun _ => (value.length + 1) ^ (g - (generation found + 1))).sum = _
    rw [List.map_const', List.sum_replicate]
    rfl
  rw [hdeq, hsucc, Nat.pow_succ'] at hold
  calc
    weight g value.length (write value found)
        = value.length * (value.length + 1) ^ (g - (generation found + 1)) := hnew
    _ < (value.length + 1) * (value.length + 1) ^ (g - (generation found + 1)) :=
        Nat.mul_lt_mul_of_pos_right (Nat.lt_succ_self _) (Nat.pow_pos (Nat.succ_pos _))
    _ ≤ weight g value.length found := hold

/-- The weight falls where a character below the generation is replaced. -/
theorem weight_lt (h : ∃ c ∈ found, c.2 < g) (before after : Marked α) :
    weight g value.length (before ++ write value found ++ after) <
      weight g value.length (before ++ found ++ after) := by
  have hwrite : weight g value.length (write value found) < weight g value.length found :=
    weight_write_lt h
  rw [weight_append, weight_append, weight_append, weight_append]
  omega

/-- Generations rise by one at most. -/
theorem le_of_mem_write {n : ℕ} (h : ∀ c ∈ found, c.2 ≤ n) :
    ∀ c ∈ write value found, c.2 ≤ n + 1 := by
  intro c hc
  obtain ⟨a, -, rfl⟩ := List.mem_map.mp hc
  apply Nat.succ_le_succ
  by_cases hnil : found = []
  · rw [hnil]
    exact Nat.zero_le n
  · obtain ⟨d, hd, hdeq⟩ := generation_mem hnil
    exact hdeq ▸ h d hd

/-! ## Overlaps on one side -/

/-- A text made of characters of generation zero and of ends of the value. -/
inductive Pieced (value : List α) : Marked α → Prop
  | nil : Pieced value []
  | original (a : α) {t : Marked α} : Pieced value t → Pieced value ((a, 0) :: t)
  | written (piece : Marked α) {t : Marked α} : piece.map Prod.fst <:+ value → Pieced value t →
      Pieced value (piece ++ t)

theorem pieced_fresh (value text : List α) : Pieced value (fresh text) := by
  induction text with
  | nil => exact .nil
  | cons a text ih => exact .original a ih

theorem Pieced.append (h : Pieced value t) (h' : Pieced value t') : Pieced value (t ++ t') := by
  induction h with
  | nil => exact h'
  | original a _ ih => exact .original a ih
  | written piece hpiece _ ih =>
    rw [List.append_assoc]
    exact .written piece hpiece ih

/-- The end of a text is made like it. -/
theorem Pieced.suffix (h : Pieced value t) (hsuffix : t' <:+ t) : Pieced value t' := by
  induction h with
  | nil =>
    rw [List.suffix_nil.mp hsuffix]
    exact .nil
  | original a hrest ih =>
    rcases List.suffix_cons_iff.mp hsuffix with rfl | hsuffix
    · exact .original a hrest
    · exact ih hsuffix
  | written piece hpiece hrest ih =>
    obtain ⟨start, hstart⟩ := hsuffix
    rcases List.append_eq_append_iff.mp hstart with ⟨piece', rfl, rfl⟩ | ⟨between, -, hbetween⟩
    · have hshort := (List.suffix_append start piece').map Prod.fst
      exact .written piece' (hshort.trans hpiece) hrest
    · exact ih ⟨between, hbetween.symm⟩

/-- An occurrence of the key is replaced by the characters of the value, of whatever generations. -/
def Replaced (key value : List α) (t t' : Marked α) : Prop :=
  ∃ before found piece after, t = before ++ found ++ after ∧ found.map Prod.fst = key ∧
    piece.map Prod.fst = value ∧ t' = before ++ piece ++ after

theorem Step.replaced (h : Step key value t t') : Replaced key value t t' := by
  obtain ⟨before, found, after, ht, hkey, ht'⟩ := h
  exact ⟨before, found, write value found, after, ht, hkey, map_fst_write value found, ht'⟩

theorem reverse_parts (before found after : Marked α) :
    (before ++ found ++ after).reverse = after.reverse ++ found.reverse ++ before.reverse := by
  rw [List.reverse_append, List.reverse_append, List.append_assoc]

/-- Read from right to left it is a replacement too. -/
theorem Replaced.reverse (h : Replaced key value t t') :
    Replaced key.reverse value.reverse t.reverse t'.reverse := by
  obtain ⟨before, found, piece, after, rfl, rfl, rfl, rfl⟩ := h
  exact ⟨after.reverse, found.reverse, piece.reverse, before.reverse, reverse_parts _ _ _,
    List.map_reverse, List.map_reverse, reverse_parts _ _ _⟩

section Split

variable (hvalue : ¬ key <:+: value) (hfree : ∀ s, s <:+ value → s <+: key → s = [])

include hvalue hfree

/-- An occurrence starts with a character of the text, and what is before it and behind it is made like
the whole. -/
theorem Pieced.split (h : Pieced value (before ++ found ++ after)) (hkey : found.map Prod.fst = key) :
    (∃ c ∈ found, c.2 < 1) ∧ Pieced value before ∧ Pieced value after := by
  have hne : found ≠ [] := by
    intro hnil
    rw [hnil] at hkey
    exact hvalue (hkey ▸ List.nil_infix)
  rw [List.append_assoc] at h
  generalize ht : before ++ (found ++ after) = t at h
  induction h generalizing before with
  | nil =>
    have hnil := (List.append_eq_nil_iff.mp ht).2
    exact absurd (List.append_eq_nil_iff.mp hnil).1 hne
  | original a hrest ih =>
    rcases List.append_eq_cons_iff.mp ht with ⟨rfl, hfound⟩ | ⟨before, rfl, hrest'⟩
    · rcases List.append_eq_cons_iff.mp hfound with ⟨hnil, -⟩ | ⟨found', rfl, rfl⟩
      · exact absurd hnil hne
      · exact ⟨⟨(a, 0), List.mem_cons_self, Nat.one_pos⟩, .nil,
          hrest.suffix (List.suffix_append found' after)⟩
    · obtain ⟨hgen, hbefore, hafter⟩ := ih hrest'.symm
      exact ⟨hgen, .original a hbefore, hafter⟩
  | written piece hpiece _ ih =>
    rcases List.append_eq_append_iff.mp ht with ⟨overlap, rfl, hoverlap⟩ | ⟨between, rfl, hbetween⟩
    · rcases List.append_eq_append_iff.mp hoverlap with ⟨rest, rfl, -⟩ | ⟨rest, rfl, hafter⟩
      · -- the occurrence lies in the piece, and so the key in the value
        have hpart : found.map Prod.fst <:+: (before ++ (found ++ rest)).map Prod.fst := by
          rw [List.map_append, List.map_append, ← List.append_assoc]
          exact List.infix_append _ _ _
        rw [hkey] at hpart
        exact absurd (hpart.trans hpiece.isInfix) hvalue
      · -- the end of the piece is the beginning of the key
        have hend := ((List.suffix_append before overlap).map Prod.fst).trans hpiece
        have hbegin : overlap.map Prod.fst <+: key := by
          rw [← hkey]
          exact (List.prefix_append overlap rest).map Prod.fst
        obtain rfl := List.map_eq_nil_iff.mp (hfree _ hend hbegin)
        rw [List.append_nil] at hpiece
        have hrest : [] ++ ([] ++ rest ++ after) = rest ++ after := rfl
        obtain ⟨hgen, -, hafter'⟩ := ih (hrest.trans hafter.symm)
        refine ⟨hgen, ?_, hafter'⟩
        rw [← List.append_nil before]
        exact .written before hpiece .nil
    · obtain ⟨hgen, hbefore, hafter⟩ := ih hbetween.symm
      exact ⟨hgen, .written piece hpiece hbefore, hafter⟩

/-- What replacements of any generations make of a text stays made of pieces. -/
theorem pieced_of_reaches {text : List α}
    (hsteps : Relation.ReflTransGen (Replaced key value) (fresh text) t) : Pieced value t := by
  induction hsteps with
  | refl => exact pieced_fresh value text
  | tail _ hstep ih =>
    obtain ⟨before, found, piece, after, rfl, hkey, hpiece, rfl⟩ := hstep
    obtain ⟨-, hbefore, hafter⟩ := ih.split hvalue hfree hkey
    rw [List.append_assoc]
    apply hbefore.append
    apply Pieced.written piece _ hafter
    rw [hpiece]

theorem exists_original_of_reaches {text : List α}
    (hsteps : Relation.ReflTransGen (Replaced key value) (fresh text) (before ++ found ++ after))
    (hkey : found.map Prod.fst = key) : ∃ c ∈ found, c.2 < 1 :=
  ((pieced_of_reaches hvalue hfree hsteps).split hvalue hfree hkey).1

end Split

/-- A key and a value overlap on one side at most: no end of the value is a beginning of the key, or no
beginning of the value is an end of it. -/
def OneSided (key value : List α) : Prop :=
  (∀ s, s <:+ value → s <+: key → s = []) ∨ ∀ s, s <+: value → s <:+ key → s = []

/-- Where a key and a value overlap on one side at most, every occurrence has a character of the text. -/
theorem OneSided.exists_original {text : List α} (h : OneSided key value) (hvalue : ¬ key <:+: value)
    (hsteps : Relation.ReflTransGen (Step key value) (fresh text) (before ++ found ++ after))
    (hkey : found.map Prod.fst = key) : ∃ c ∈ found, c.2 < 1 := by
  have hreplaced := Relation.ReflTransGen.mono (fun _ _ => Step.replaced) _ _ hsteps
  rcases h with hfree | hfree
  · exact exists_original_of_reaches hvalue hfree hreplaced hkey
  · -- the other way round the ends are beginnings
    have hturned := Relation.ReflTransGen.lift List.reverse (fun _ _ => Replaced.reverse) _ _ hreplaced
    have hfresh : (fresh text).reverse = fresh text.reverse := List.map_reverse.symm
    dsimp only [Function.onFun] at hturned
    rw [hfresh, reverse_parts] at hturned
    have hvalue' : ¬ key.reverse <:+: value.reverse := fun h => hvalue (List.reverse_infix.mp h)
    have hfree' : ∀ s, s <:+ value.reverse → s <+: key.reverse → s = [] := by
      intro s hs hs'
      apply List.reverse_eq_nil_iff.mp
      apply hfree
      · rw [← List.reverse_suffix, List.reverse_reverse]
        exact hs
      · rw [← List.reverse_prefix, List.reverse_reverse]
        exact hs'
    obtain ⟨c, hc, hlt⟩ := exists_original_of_reaches hvalue' hfree' hturned
      (by rw [List.map_reverse, hkey])
    exact ⟨c, List.mem_reverse.mp hc, hlt⟩

/-! ## Values of the length of the key -/

section SameLength

variable [DecidableEq α] {a b : α}

/-- A text as a binary number: the places where it has a character. -/
def places (a : α) : List α → ℕ
  | [] => 0
  | c :: text => (if c = a then 2 ^ text.length else 0) + places a text

theorem places_lt (a : α) (text : List α) : places a text < 2 ^ text.length := by
  induction text with
  | nil => exact Nat.one_pos
  | cons c text ih =>
    rw [places, List.length_cons, Nat.pow_succ]
    split
    · omega
    · omega

/-- A character that goes makes the number smaller, whatever comes behind it. -/
theorem places_cons_lt (hne : b ≠ a) {s t : List α} (hlength : s.length = t.length) :
    places a (b :: s) < places a (a :: t) := by
  have hlt := places_lt a s
  rw [places, places, if_neg hne, if_pos rfl, ← hlength]
  omega

theorem places_append_lt {s t : List α} (hlength : s.length = t.length)
    (hlt : places a s < places a t) (front : List α) :
    places a (front ++ s) < places a (front ++ t) := by
  induction front with
  | nil => exact hlt
  | cons c front ih =>
    rw [List.cons_append, List.cons_append, places, places, List.length_append, List.length_append,
      hlength]
    omega

/-- Two texts of one length are the same up to a place where they differ. -/
theorem exists_difference {s t : List α} (hlength : s.length = t.length) (hne : s ≠ t) :
    ∃ front a b s' t', s = front ++ a :: s' ∧ t = front ++ b :: t' ∧ b ≠ a ∧
      t'.length = s'.length := by
  induction s generalizing t with
  | nil => exact absurd (List.length_eq_zero_iff.mp hlength.symm).symm hne
  | cons a s ih =>
    cases t with
    | nil => exact absurd hlength (Nat.succ_ne_zero _)
    | cons b t =>
      have htail : s.length = t.length := Nat.succ.inj hlength
      -- the first place that differs is here or in the rest
      by_cases hab : b = a
      · have hrest : s ≠ t := by
          rintro rfl
          exact hne (by rw [hab])
        obtain ⟨front, a', b', s', t', rfl, rfl, hdiff, hlen⟩ := ih htail hrest
        refine ⟨a :: front, a', b', s', t', rfl, ?_, hdiff, hlen⟩
        rw [hab]
        rfl
      · exact ⟨[], a, b, s, t, rfl, rfl, hab, htail.symm⟩

/-- For a value of the length of the key there is a character whose places become fewer. -/
theorem exists_places_lt (hlength : key.length = value.length) (hne : key ≠ value) :
    ∃ a, ∀ before after : List α,
      places a (before ++ value ++ after) < places a (before ++ key ++ after) := by
  obtain ⟨front, a, b, s, t, rfl, rfl, hdiff, hlen⟩ := exists_difference hlength hne
  refine ⟨a, ?_⟩
  intro before after
  have hbehind : (t ++ after).length = (s ++ after).length := by
    rw [List.length_append, List.length_append, hlen]
  have hheaded : (b :: (t ++ after)).length = (a :: (s ++ after)).length := congrArg Nat.succ hbehind
  have hlt := places_append_lt hheaded (places_cons_lt hdiff hbehind) (before ++ front)
  rw [List.append_assoc, List.append_assoc, List.append_assoc, List.append_assoc, List.cons_append,
    List.cons_append, ← List.append_assoc before, ← List.append_assoc before]
  exact hlt

end SameLength

end Rewriting
