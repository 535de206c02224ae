import TyanoCore.AccessList
import TyanoCore.Rewriting

/-!
# Replacing all occurrences of a key

`replaceString` starts again at the beginning of the text after every replacement, and only a value that
has the key in it is refused.  An occurrence may lie across the border of a value that was written
before, so the loop need not end; it does as long as the generations of the characters stay bounded.
-/

namespace TyanoCore

open Rewriting

variable {text key value result before after : List Char}

/-! ## Finding the key -/

theorem findKey_eq_some (h : findKey key text = some (before, after)) :
    text = before ++ key ++ after := by
  induction text generalizing before with
  | nil =>
    rw [findKey] at h
    split at h
    · next hkey =>
      obtain ⟨rfl, rfl⟩ := Prod.mk.inj (Option.some.inj h)
      rw [hkey]
      rfl
    · exact absurd h (Option.some_ne_none _).symm
  | cons c text ih =>
    rw [findKey] at h
    split at h
    · next hprefix =>
      obtain ⟨rfl, rfl⟩ := Prod.mk.inj (Option.some.inj h)
      exact (List.prefix_iff_eq_append.mp hprefix).symm
    · obtain ⟨⟨x, y⟩, hfound, heq⟩ := Option.map_eq_some_iff.mp h
      obtain ⟨rfl, rfl⟩ := Prod.mk.inj heq
      rw [ih hfound]
      rfl

theorem findKey_eq_none : findKey key text = none ↔ ¬ key <:+: text := by
  induction text with
  | nil =>
    rw [findKey, List.infix_nil]
    split
    · next hkey => exact iff_of_false (Option.some_ne_none _) (not_not.mpr hkey)
    · next hkey => exact iff_of_true rfl hkey
  | cons c text ih =>
    rw [findKey, List.infix_cons_iff, not_or]
    split
    · next hprefix => exact iff_of_false (Option.some_ne_none _) fun h => h.1 hprefix
    · next hprefix =>
      rw [Option.map_eq_none_iff, ih]
      exact (and_iff_right hprefix).symm

/-! ## The loop -/

/-- A round of the loop of `replaceString`. -/
def replaceRound (key value text : List Char) : List Char ⊕ List Char :=
  match findKey key text with
  | some (before, after) => .inl (before ++ value ++ after)
  | none => .inr text

/-- `replaceString` leaves the text as the result, after any number of rounds. -/
def ReplaceLeaves (text key value result : List Char) : Prop :=
  if key <:+: value then result = text else Loop.Gives (replaceRound key value) text result

/-- What `replaceString` is for: it comes to an end, and then the key is gone, unless the value has the
key in it, when nothing is done. -/
def Replaces (text key value : List Char) : Prop :=
  ∃ result, ReplaceLeaves text key value result ∧ (key <:+: value → result = text) ∧
    (¬ key <:+: value → ¬ key <:+: result)

theorem replaceRound_inr (h : replaceRound key value text = .inr result) :
    result = text ∧ ¬ key <:+: text := by
  rw [replaceRound] at h
  split at h
  · exact absurd h Sum.inl_ne_inr
  · next hnone => exact ⟨(Sum.inr.inj h).symm, findKey_eq_none.mp hnone⟩

/-- When the loop ends, the key is gone. -/
theorem not_infix_of_gives (h : Loop.Gives (replaceRound key value) text result) :
    ¬ key <:+: result := by
  obtain ⟨rounds, hrun⟩ := h
  apply Loop.run_invariant (fun _ => True) (fun result => ¬ key <:+: result) _ _ True.intro hrun
  · exact fun _ _ _ _ => True.intro
  · intro text result _ hround
    obtain ⟨rfl, hgone⟩ := replaceRound_inr hround
    exact hgone

/-- All that is to be shown is that the loop ends. -/
theorem replaces_iff : Replaces text key value ↔
    (key <:+: value ∨ ∃ result, Loop.Gives (replaceRound key value) text result) := by
  unfold Replaces ReplaceLeaves
  by_cases hvalue : key <:+: value
  · simp only [if_pos hvalue]
    exact iff_of_true ⟨text, rfl, fun _ => rfl, fun h => absurd hvalue h⟩ (Or.inl hvalue)
  · simp only [if_neg hvalue]
    rw [or_iff_right hvalue]
    constructor
    · rintro ⟨result, hgives, -⟩
      exact ⟨result, hgives⟩
    · rintro ⟨result, hgives⟩
      exact ⟨result, hgives, fun h => absurd h hvalue, fun _ => not_infix_of_gives hgives⟩

/-! ## Generations -/

/-- The first occurrence of the key, with what is before it and behind it. -/
def findMarked (key : List Char) (t : Marked Char) :
    Option (Marked Char × Marked Char × Marked Char) :=
  (findKey key (t.map Prod.fst)).map fun (before, _) =>
    (t.take before.length, (t.drop before.length).take key.length,
      t.drop (before.length + key.length))

/-- A round on a text whose characters carry their generations. -/
def markedRound (key value : List Char) (t : Marked Char) : Marked Char ⊕ Marked Char :=
  match findMarked key t with
  | some (before, found, after) => .inl (before ++ write value found ++ after)
  | none => .inr t

/-- There is a generation below which every occurrence that is replaced has a character. -/
def GenerationsBounded (text key value : List Char) : Prop :=
  ∃ g, ∀ t before found after, Loop.Reaches (markedRound key value) (fresh text) t →
    findMarked key t = some (before, found, after) → ∃ c ∈ found, c.2 < g

section Marked

variable {t t' : Marked Char} {b f a : Marked Char}

theorem findMarked_eq_some (h : findMarked key t = some (b, f, a)) :
    t = b ++ f ++ a ∧ f.map Prod.fst = key ∧
      findKey key (t.map Prod.fst) = some (b.map Prod.fst, a.map Prod.fst) := by
  obtain ⟨⟨before, after⟩, hfound, heq⟩ := Option.map_eq_some_iff.mp h
  obtain ⟨rfl, hrest⟩ := Prod.mk.inj heq
  obtain ⟨rfl, rfl⟩ := Prod.mk.inj hrest
  -- the occurrence is cut out of the marked text by its place in the plain one
  have htext := findKey_eq_some hfound
  have hbefore : (t.take before.length).map Prod.fst = before := by
    rw [List.map_take, htext, List.append_assoc, List.take_left]
  have hkey : ((t.drop before.length).take key.length).map Prod.fst = key := by
    rw [List.map_take, List.map_drop, htext, List.append_assoc, List.drop_left, List.take_left]
  have hafter : (t.drop (before.length + key.length)).map Prod.fst = after := by
    rw [List.map_drop, htext]
    apply List.drop_left'
    exact List.length_append
  refine ⟨?_, hkey, ?_⟩
  · rw [List.append_assoc, ← List.drop_drop, List.take_append_drop, List.take_append_drop]
  · rw [hbefore, hafter, hfound]

theorem findMarked_eq_none : findMarked key t = none ↔ findKey key (t.map Prod.fst) = none :=
  Option.map_eq_none_iff

/-- A round replaces an occurrence that is there. -/
theorem markedRound_inl (h : markedRound key value t = .inl t') :
    ∃ b f a, findMarked key t = some (b, f, a) ∧ t' = b ++ write value f ++ a := by
  rw [markedRound] at h
  split at h
  · next b f a hfound => exact ⟨b, f, a, hfound, (Sum.inl.inj h).symm⟩
  · exact absurd h Sum.inr_ne_inl

theorem step_of_markedRound (h : markedRound key value t = .inl t') : Step key value t t' := by
  obtain ⟨b, f, a, hfound, hwritten⟩ := markedRound_inl h
  obtain ⟨ht, hkey, -⟩ := findMarked_eq_some hfound
  exact ⟨b, f, a, ht, hkey, hwritten⟩

/-- Without the generations it is a round of the loop. -/
theorem replaceRound_map_fst (key value : List Char) (t : Marked Char) :
    replaceRound key value (t.map Prod.fst) =
      (markedRound key value t).map (List.map Prod.fst) (List.map Prod.fst) := by
  rw [markedRound]
  split
  · next b f a hfound =>
    rw [replaceRound, (findMarked_eq_some hfound).2.2]
    show Sum.inl _ = Sum.inl _
    rw [List.map_append, List.map_append, map_fst_write]
  · next hnone =>
    rw [replaceRound, findMarked_eq_none.mp hnone]
    rfl

theorem gives_of_markedRound {text : List Char} {rounds : ℕ}
    (h : (Loop.run (markedRound key value) rounds (fresh text)).isSome) :
    ∃ result, Loop.Gives (replaceRound key value) text result := by
  obtain ⟨t, hrun⟩ := Option.isSome_iff_exists.mp h
  have hmap := Loop.run_map (List.map Prod.fst) (List.map Prod.fst) (replaceRound_map_fst key value)
    rounds (fresh text)
  rw [map_fst_fresh, hrun] at hmap
  exact ⟨_, rounds, hmap⟩

/-! ## The loop ends where the generations are bounded -/

/-- A bound on the generations bounds the rounds. -/
theorem gives_of_generations {text : List Char} (h : GenerationsBounded text key value) :
    ∃ result, Loop.Gives (replaceRound key value) text result := by
  obtain ⟨g, hbound⟩ := h
  apply gives_of_markedRound
  apply Loop.run_isSome_of_invariant (Loop.Reaches (markedRound key value) (fresh text))
    (weight g value.length) _ .refl (Nat.lt_succ_self _)
  intro t t' hsteps hround
  refine ⟨hsteps.tail hround, ?_⟩
  obtain ⟨b, f, a, hfound, rfl⟩ := markedRound_inl hround
  have hlt : weight g value.length (b ++ write value f ++ a) < weight g value.length (b ++ f ++ a) :=
    weight_lt (hbound t b f a hsteps hfound) b a
  rw [← (findMarked_eq_some hfound).1] at hlt
  exact hlt

/-- After some rounds no generation is higher than their number. -/
theorem generation_le_of_reaches {rounds k : ℕ} (hreaches : Loop.Reaches (markedRound key value) t t')
    (hrun : (Loop.run (replaceRound key value) rounds (t.map Prod.fst)).isSome)
    (hk : ∀ c ∈ t, c.2 ≤ k) : ∀ c ∈ t', c.2 ≤ k + rounds := by
  induction rounds generalizing t k with
  | zero => exact absurd hrun Bool.false_ne_true
  | succ rounds ih =>
    rcases hreaches.cases_head with rfl | ⟨t₁, hround, hrest⟩
    · exact fun c hc => (hk c hc).trans (Nat.le_add_right _ _)
    · have hmapped := replaceRound_map_fst key value t
      rw [hround] at hmapped
      rw [Loop.run_inl hmapped] at hrun
      obtain ⟨b, f, a, hfound, rfl⟩ := markedRound_inl hround
      obtain ⟨rfl, -, -⟩ := findMarked_eq_some hfound
      -- a round adds one generation at most
      have hk' : ∀ c ∈ b ++ write value f ++ a, c.2 ≤ k + 1 := by
        intro c hc
        rcases List.mem_append.mp hc with hc | hc
        · rcases List.mem_append.mp hc with hc | hc
          · have hold := hk c (List.mem_append_left _ (List.mem_append_left _ hc))
            omega
          · apply le_of_mem_write _ c hc
            exact fun d hd => hk d (List.mem_append_left _ (List.mem_append_right _ hd))
        · have hold := hk c (List.mem_append_right _ hc)
          omega
      intro c hc
      have hle := ih hrest hrun hk' c hc
      omega

theorem generations_of_gives {text : List Char} (hvalue : ¬ key <:+: value)
    (h : ∃ result, Loop.Gives (replaceRound key value) text result) :
    GenerationsBounded text key value := by
  obtain ⟨result, rounds, hrun⟩ := h
  -- no generation is higher than the number of rounds until the result
  refine ⟨rounds + 1, ?_⟩
  intro t b f a hreaches hfound
  obtain ⟨rfl, hkey, -⟩ := findMarked_eq_some hfound
  have hle := generation_le_of_reaches (k := 0) hreaches
    (by rw [map_fst_fresh, hrun]; rfl)
    (by
      intro c hc
      obtain ⟨_, -, rfl⟩ := List.mem_map.mp hc
      exact Nat.le_refl 0)
  -- the occurrence is not empty: an empty key is in every value
  have hne : f ≠ [] := by
    rintro rfl
    exact hvalue (hkey ▸ List.nil_infix)
  obtain ⟨c, hc⟩ := List.exists_mem_of_ne_nil f hne
  refine ⟨c, hc, ?_⟩
  have hold := hle c (List.mem_append_left _ (List.mem_append_right _ hc))
  omega

/-- A key and a value that overlap on one side at most leave a character of the text in every
occurrence. -/
theorem generations_of_oneSided (text : List Char) (hvalue : ¬ key <:+: value)
    (h : OneSided key value) : GenerationsBounded text key value := by
  refine ⟨1, ?_⟩
  intro t b f a hreaches hfound
  obtain ⟨rfl, hkey, -⟩ := findMarked_eq_some hfound
  have hsteps := Relation.ReflTransGen.mono (fun _ _ => step_of_markedRound) _ _ hreaches
  exact h.exists_original hvalue hsteps hkey

end Marked

/-- `replaceString` does what it is for exactly where the value has the key in it or the generations stay
bounded; whether they do is to be found out from the key and the value. -/
theorem replaces_iff_generations (text key value : List Char) :
    Replaces text key value ↔ (key <:+: value ∨ GenerationsBounded text key value) := by
  rw [replaces_iff]
  by_cases hvalue : key <:+: value
  · exact iff_of_true (Or.inl hvalue) (Or.inl hvalue)
  · rw [or_iff_right hvalue, or_iff_right hvalue]
    exact ⟨generations_of_gives hvalue, gives_of_generations⟩

/-! ## Keys and values with which every text is replaced -/

theorem replaces_of_oneSided (text : List Char) (h : OneSided key value) : Replaces text key value := by
  rw [replaces_iff_generations]
  by_cases hvalue : key <:+: value
  · exact Or.inl hvalue
  · exact Or.inr (generations_of_oneSided text hvalue h)

/-- What falls with every replacement falls in every round. -/
theorem falls_of_replaced {measure : List Char → ℕ}
    (h : ∀ before after, measure (before ++ value ++ after) < measure (before ++ key ++ after)) :
    Loop.Falls (replaceRound key value) measure := by
  intro text text' hround
  rw [replaceRound] at hround
  split at hround
  · next before after hfound =>
    rw [findKey_eq_some hfound, ← Sum.inl.inj hround]
    exact h before after
  · exact absurd hround Sum.inr_ne_inl

theorem replaces_of_falls {measure : List Char → ℕ} (text : List Char)
    (h : ∀ before after, measure (before ++ value ++ after) < measure (before ++ key ++ after)) :
    Replaces text key value := by
  obtain ⟨result, hrun⟩ := Option.isSome_iff_exists.mp
    ((falls_of_replaced h).run_isSome (Nat.lt_succ_self (measure text)))
  exact replaces_iff.mpr (Or.inr ⟨result, _, hrun⟩)

/-- Every round takes away a character that the key has more often than the value. -/
theorem count_lt {c : Char} (h : value.count c < key.count c) (before after : List Char) :
    (before ++ value ++ after).count c < (before ++ key ++ after).count c := by
  rw [List.count_append, List.count_append, List.count_append, List.count_append]
  omega

theorem replaces_of_length_le (text : List Char) (h : value.length ≤ key.length) :
    Replaces text key value := by
  by_cases hsame : key.length = value.length
  · by_cases hvalue : key = value
    · exact replaces_iff.mpr (Or.inl (hvalue ▸ List.infix_refl key))
    · obtain ⟨c, hplaces⟩ := exists_places_lt hsame hvalue
      exact replaces_of_falls text hplaces
  · have hlength (before after : List Char) :
        (before ++ value ++ after).length < (before ++ key ++ after).length := by
      rw [List.length_append, List.length_append, List.length_append, List.length_append]
      omega
    exact replaces_of_falls text hlength

/-- A text without the key is the result. -/
theorem replaces_of_not_infix (value : List Char) (h : ¬ key <:+: text) : Replaces text key value := by
  have hnone : replaceRound key value text = .inr text := by
    rw [replaceRound, findKey_eq_none.mpr h]
  exact replaces_iff.mpr (Or.inr ⟨text, 1, Loop.run_inr hnone⟩)

/-- `replaceString` does what it is for where the value has the key in it or the text has not, and for
every text where the value is no longer than the key, overlaps with it on one side at most, or has some
character less often. -/
theorem replaceString_replaces {text key value : List Char}
    (h : key <:+: value ∨ ¬ key <:+: text ∨ value.length ≤ key.length ∨ OneSided key value ∨
      ∃ c, value.count c < key.count c) : Replaces text key value := by
  rcases h with hvalue | htext | hlength | hone | ⟨c, hcount⟩
  · exact replaces_iff.mpr (Or.inl hvalue)
  · exact replaces_of_not_infix value htext
  · exact replaces_of_length_le text hlength
  · exact replaces_of_oneSided text hone
  · exact replaces_of_falls text (count_lt hcount)

/-- The state of a mission is put in, wherever it stands. -/
theorem replaceString_replaces_state :
    Replaces "You have |STATE|STATE| rats".toList "|STATE|".toList "more than |".toList :=
  replaceString_replaces
    (Or.inr (Or.inr (Or.inr (Or.inr ⟨'S', by decide⟩))))

/-- For a key of one character the rounds of `replaceString` are enough. -/
theorem replaceLeaves_replaceString (text : List Char) (c : Char) (value : List Char) :
    ReplaceLeaves text [c] value (replaceString text [c] value) := by
  unfold ReplaceLeaves replaceString
  by_cases hvalue : [c] <:+: value
  · rw [if_pos hvalue, if_pos hvalue]
  · rw [if_neg hvalue, if_neg hvalue]
    -- each round takes a character away that the value does not bring back
    have hcount : value.count c < [c].count c := by
      rw [List.count_singleton_self, List.count_eq_zero.mpr]
      · exact Nat.one_pos
      · exact fun hmem => hvalue ((List.singleton_infix_iff c value).mpr hmem)
    have hfalls : Loop.Falls (replaceRound [c] value) (List.count c) :=
      falls_of_replaced (count_lt hcount)
    obtain ⟨result, hrun⟩ := Option.isSome_iff_exists.mp (hfalls.run_isSome
      (Nat.lt_succ_of_le (List.count_le_length (a := c) (l := text))))
    refine ⟨text.length + 1, ?_⟩
    show _ = some ((Loop.run (replaceRound [c] value) (text.length + 1) text).getD text)
    rw [hrun]
    rfl

/-! ## A text that never comes to an end -/

/-- The text `aab` with as many characters in front of it and behind it. -/
def grown (n : ℕ) : List Char := List.replicate n 'b' ++ ['a', 'a', 'b'] ++ List.replicate n 'a'

theorem findKey_behind (n : ℕ) {text before after : List Char}
    (h : findKey ['a', 'b'] text = some (before, after)) :
    findKey ['a', 'b'] (List.replicate n 'b' ++ text) =
      some (List.replicate n 'b' ++ before, after) := by
  induction n with
  | zero => exact h
  | succ n ih =>
    have hprefix : ¬ ['a', 'b'] <+: 'b' :: (List.replicate n 'b' ++ text) := by
      intro hprefix
      exact absurd (List.cons_prefix_cons.mp hprefix).1 (by decide)
    rw [List.replicate_succ, List.cons_append, findKey, if_neg hprefix, ih]
    rfl

theorem replaceRound_of_findKey (h : findKey key text = some (before, after)) :
    replaceRound key value text = .inl (before ++ value ++ after) := by
  rw [replaceRound, h]

theorem findKey_grown (n : ℕ) : findKey ['a', 'b'] (grown n) =
    some (List.replicate n 'b' ++ ['a'], List.replicate n 'a') := by
  rw [grown, List.append_assoc]
  exact findKey_behind n rfl

/-- Two rounds, and the text is longer on both sides. -/
theorem grown_grows (rounds n : ℕ) :
    Loop.run (replaceRound ['a', 'b'] ['b', 'b', 'a', 'a']) (rounds + 2) (grown n) =
      Loop.run (replaceRound ['a', 'b'] ['b', 'b', 'a', 'a']) rounds (grown (n + 2)) := by
  have hsecond : findKey ['a', 'b']
      (List.replicate n 'b' ++ ['a'] ++ ['b', 'b', 'a', 'a'] ++ List.replicate n 'a') =
      some (List.replicate n 'b' ++ [], ['b', 'a', 'a'] ++ List.replicate n 'a') := by
    rw [List.append_assoc, List.append_assoc]
    exact findKey_behind n rfl
  have hgrown : List.replicate n 'b' ++ [] ++ ['b', 'b', 'a', 'a'] ++
      (['b', 'a', 'a'] ++ List.replicate n 'a') = grown (n + 2) := by
    rw [grown, List.replicate_succ', List.replicate_succ', List.replicate_succ, List.replicate_succ]
    simp only [List.append_assoc, List.append_nil, List.cons_append, List.nil_append]
  rw [Loop.run_inl (replaceRound_of_findKey (findKey_grown n)),
    Loop.run_inl (replaceRound_of_findKey hsecond), hgrown]

theorem run_grown (rounds n : ℕ) :
    Loop.run (replaceRound ['a', 'b'] ['b', 'b', 'a', 'a']) rounds (grown n) = none := by
  induction rounds using Nat.twoStepInduction generalizing n with
  | zero => rfl
  | one => exact Loop.run_inl (replaceRound_of_findKey (findKey_grown n))
  | more rounds ih _ => exact (grown_grows rounds n).trans (ih (n + 2))

/-- The value does not have the key in it, and the loop goes on for ever. -/
theorem not_replaces_aab : ¬ Replaces ['a', 'a', 'b'] ['a', 'b'] ['b', 'b', 'a', 'a'] := by
  have hvalue : ¬ ['a', 'b'] <:+: ['b', 'b', 'a', 'a'] := by decide
  rw [replaces_iff, or_iff_right hvalue]
  rintro ⟨result, rounds, hrun⟩
  have hnone := run_grown rounds 0
  exact absurd (hrun.symm.trans hnone) (Option.some_ne_none result)

end TyanoCore
