import TyanoCore.AccessList

/-!
# The verdict of an access list

The wildcards of a line stand in the text that takes their place, so `replaceString` leaves them as
they are, and the regular expression reads them as quantifiers of the character before them.  Then
some lines are void: those with nothing to repeat, and those that equal the escaped text of an earlier
line.
-/

namespace TyanoCore

namespace AccessList

/-- What a question mark is meant to stand for. -/
def atMostOne : Language Char := fun text => text.length ≤ 1

/-- What a pattern is meant to match: an asterisk stands for any sequence, a question mark for at most
one character, and every other character for itself. -/
def wildcards : List Char → Language Char
  | [] => 1
  | c :: pattern =>
    if c = '*' then ⊤ * wildcards pattern
    else if c = '?' then atMostOne * wildcards pattern
    else ({[c]} : Language Char) * wildcards pattern

/-- What the regular expression of a pattern matches. -/
def quantifiers (pattern : List Char) : Language Char :=
  if pattern = [] then 0
  else match boostRegex .start (escape pattern) with
    | some regex => regex.matches'
    | none => 0

def HasWildcard (line : List Char) : Prop := '*' ∈ line ∨ '?' ∈ line
def Excludes (line : List Char) : Prop := line.take 1 = "!".toList
def IsExpression (line : List Char) : Prop := '!' ∈ line ∨ HasWildcard line

instance : DecidablePred HasWildcard := fun _ => inferInstanceAs (Decidable (_ ∨ _))
instance : DecidablePred Excludes := fun _ => inferInstanceAs (Decidable (_ = _))
instance : DecidablePred IsExpression := fun _ => inferInstanceAs (Decidable (_ ∨ _))

/-- A name that a line shuts out, with the patterns read in some way. -/
def Bars (reads : List Char → Language Char) (lines : List (List Char)) (name : List Char) : Prop :=
  ∃ rest, '!' :: rest ∈ lines ∧ name ∈ reads rest

/-- A name that a line lists: a plain line, or one with wildcards. -/
def Admits (reads : List Char → Language Char) (lines : List (List Char)) (name : List Char) :
    Prop :=
  (∃ line ∈ lines, ¬Excludes line ∧ ¬HasWildcard line ∧ line = name) ∨
    ∃ line ∈ lines, ¬Excludes line ∧ HasWildcard line ∧ name ∈ reads line

/-- The lines with one more: an expression whose text is already stored is dropped. -/
def keep (kept : List (List Char)) (line : List Char) : List (List Char) :=
  if IsExpression line ∧ line ∈ (kept.filter IsExpression).map escape then kept
  else kept ++ [line]

/-- The lines that have an effect. -/
def inEffect (lines : List (List Char)) : List (List Char) := lines.foldl keep []

theorem inEffect_concat (lines : List (List Char)) (line : List Char) :
    inEffect (lines ++ [line]) = keep (inEffect lines) line := by
  rw [inEffect, List.foldl_concat]
  rfl

/-! ## The regular expression of a line -/

theorem replaceString_of_infix (text : List Char) {key value : List Char} (h : key <:+: value) :
    replaceString text key value = text := if_pos h

theorem escape_cons (c : Char) (line : List Char) :
    escape (c :: line) = (if c ∈ metachars then ['\\', c] else [c]) ++ escape line := rfl

theorem escape_excludes (rest : List Char) : escape ('!' :: rest) = '!' :: escape rest := by
  rw [escape_cons, if_neg (by decide)]
  rfl

theorem escape_eq_nil {line : List Char} : escape line = [] ↔ line = [] := by
  cases line with
  | nil => exact iff_of_true rfl rfl
  | cons c line =>
    apply iff_of_false _ (List.cons_ne_nil c line)
    rw [escape_cons]
    split <;> simp

/-- Only an exclamation mark is escaped as one. -/
theorem escape_take {line : List Char} (h : ¬Excludes line) :
    (escape line).take 1 ≠ "!".toList := by
  cases line with
  | nil => decide
  | cons c line =>
    rw [escape_cons]
    rw [Excludes, List.take_succ_cons, List.take_zero] at h
    split
    · simp
    · exact h

/-- A pattern without wildcards matches itself, in each state in which its first character is next. -/
theorem boostRegex_literal (pattern : List Char) (h : ¬HasWildcard pattern) :
    (∃ regex, boostRegex .start (escape pattern) = some regex ∧ regex.matches' = {pattern}) ∧
      ∀ a, ∃ regex, boostRegex (.atom a) (escape pattern) = some regex ∧
        regex.matches' = {a :: pattern} := by
  induction pattern with
  | nil =>
    constructor
    · exact ⟨1, rfl, rfl⟩
    · exact fun a => ⟨.char a, rfl, rfl⟩
  | cons c pattern ih =>
    have hc : c ≠ '*' ∧ c ≠ '?' := by
      constructor <;> intro heq <;> apply h
      · exact Or.inl (heq ▸ List.mem_cons_self)
      · exact Or.inr (heq ▸ List.mem_cons_self)
    have hrest : ¬HasWildcard pattern :=
      fun hrest => h (hrest.imp (List.mem_cons_of_mem c) (List.mem_cons_of_mem c))
    obtain ⟨regex, hregex, hmatches⟩ := (ih hrest).2 c
    -- a character that means something comes with its backslash
    have hnext : ∀ (state : RegexState) (before : RegularExpression Char → RegularExpression Char),
        (∀ d rest, d ≠ '*' → d ≠ '?' → boostRegex state (d :: rest) =
          (if d = '\\' then boostRegex .escaped rest else boostRegex (.atom d) rest).map before) →
        boostRegex state (escape (c :: pattern)) = some (before regex) := by
      intro state before hstate
      rw [escape_cons]
      by_cases hmeta : c ∈ metachars
      · rw [if_pos hmeta, List.cons_append, List.singleton_append, hstate _ _ (by decide) (by decide),
          if_pos rfl, boostRegex, hregex, Option.map_some]
      · have hslash : c ≠ '\\' := fun heq => hmeta (heq ▸ by decide)
        rw [if_neg hmeta, List.singleton_append, hstate _ _ hc.1 hc.2, if_neg hslash, hregex,
          Option.map_some]
    constructor
    · refine ⟨regex, hnext .start id ?_, hmatches⟩
      intro d rest hstar hquestion
      rw [boostRegex, if_neg (by simp [hstar, hquestion]), Option.map_id, id]
    · intro a
      refine ⟨.char a * regex, hnext (.atom a) _ ?_, ?_⟩
      · intro d rest hstar hquestion
        rw [boostRegex, if_neg hstar, if_neg hquestion]
        split <;> rfl
      · rw [RegularExpression.matches'_mul, hmatches, RegularExpression.matches'_char]
        exact Set.image2_singleton

/-! ## Parsing -/

/-- A line in effect that is an expression of the kind, and its regular expression. -/
def Shuts (kept : List (List Char)) (regex : RegularExpression Char) : Prop :=
  ∃ rest, '!' :: rest ∈ kept ∧ rest ≠ [] ∧ boostRegex .start (escape rest) = some regex

def Lists (kept : List (List Char)) (regex : RegularExpression Char) : Prop :=
  ∃ line ∈ kept, IsExpression line ∧ ¬Excludes line ∧ boostRegex .start (escape line) = some regex

variable (d : Directory)

/-- What the lines of a list have made of it so far, when none of them is about a guild. -/
structure Parsed (lines : List (List Char)) (l : AccessList) : Prop where
  guildList_eq : l.guildList = []
  mem_playerList : ∀ guid, guid ∈ l.playerList ↔
    ∃ line ∈ lines, ¬IsExpression line ∧ d.getGuidByName line = some guid
  expressionList_eq : l.expressionList = ((inEffect lines).filter IsExpression).map escape
  /-- The expressions that shut out come first. -/
  regExList_eq : ∃ shut listed : List (RegularExpression Char),
    l.regExList = shut.map (·, false) ++ listed.map (·, true) ∧
      (∀ regex, regex ∈ shut ↔ Shuts (inEffect lines) regex) ∧
        ∀ regex, regex ∈ listed ↔ Lists (inEffect lines) regex

theorem parsed_empty (list : List Char) : Parsed d [] (empty list) := by
  constructor
  · rfl
  · intro guid
    simp [empty]
  · rfl
  · refine ⟨[], [], rfl, ?_, ?_⟩ <;> intro regex <;> simp [Shuts, Lists, inEffect]

variable {d} {lines : List (List Char)} {l : AccessList} {line : List Char}

/-- The name of a player is kept among the lines, and is no expression. -/
theorem inEffect_name (hline : ¬IsExpression line) :
    inEffect (lines ++ [line]) = inEffect lines ++ [line] := by
  rw [inEffect_concat, keep, if_neg fun hand => hline hand.1]

theorem shuts_name (hline : ¬IsExpression line) (regex : RegularExpression Char) :
    Shuts (inEffect (lines ++ [line])) regex ↔ Shuts (inEffect lines) regex := by
  rw [inEffect_name hline]
  apply exists_congr
  intro rest
  rw [List.mem_append, List.mem_singleton]
  apply and_congr_left
  intro _
  apply or_iff_left
  intro heq
  exact hline (Or.inl (heq ▸ List.mem_cons_self))

theorem lists_name (hline : ¬IsExpression line) (regex : RegularExpression Char) :
    Lists (inEffect (lines ++ [line])) regex ↔ Lists (inEffect lines) regex := by
  rw [inEffect_name hline]
  apply exists_congr
  intro line'
  rw [List.mem_append, List.mem_singleton]
  apply and_congr_left
  intro hkind
  apply or_iff_left
  intro heq
  exact hline (heq ▸ hkind.1)

/-- The identifier of the name is listed, unless it is there. -/
theorem mem_playerList_addPlayer (l : AccessList) (line : List Char) (guid : ℕ) :
    guid ∈ (addPlayer d l line).playerList ↔
      guid ∈ l.playerList ∨ d.getGuidByName line = some guid := by
  rw [addPlayer]
  cases hname : d.getGuidByName line with
  | none => simp
  | some guid' =>
    dsimp only
    split
    · next hmem =>
      rw [Option.some.injEq]
      constructor
      · exact Or.inl
      · intro hor
        rcases hor with hold | heq
        · exact hold
        · exact heq ▸ hmem
    · rw [List.mem_append, List.mem_singleton, Option.some.injEq, eq_comm]

theorem addPlayer_lists (d : Directory) (l : AccessList) (line : List Char) :
    (addPlayer d l line).guildList = l.guildList ∧
      (addPlayer d l line).expressionList = l.expressionList ∧
        (addPlayer d l line).regExList = l.regExList := by
  rw [addPlayer]
  cases d.getGuidByName line with
  | none => exact ⟨rfl, rfl, rfl⟩
  | some guid => dsimp only; split <;> exact ⟨rfl, rfl, rfl⟩

/-- A line with the name of a player. -/
theorem Parsed.addPlayer (h : Parsed d lines l) (hline : ¬IsExpression line) :
    Parsed d (lines ++ [line]) (addPlayer d l line) := by
  obtain ⟨hguilds, hexpressions, hregExes⟩ := addPlayer_lists d l line
  obtain ⟨shut, listed, hregEx, hshut, hlisted⟩ := h.regExList_eq
  constructor
  · rw [hguilds, h.guildList_eq]
  · intro guid
    rw [mem_playerList_addPlayer, h.mem_playerList]
    simp only [List.mem_append, List.mem_singleton, or_and_right, exists_or, exists_eq_left]
    rw [and_iff_right hline]
  · rw [hexpressions, h.expressionList_eq, inEffect_name hline, List.filter_append,
      List.filter_singleton, decide_eq_false hline, cond_false, List.append_nil]
  · refine ⟨shut, listed, hregExes.trans hregEx, ?_, ?_⟩
    · exact fun regex => (hshut regex).trans (shuts_name hline regex).symm
    · exact fun regex => (hlisted regex).trans (lists_name hline regex).symm

/-- The regular expression that an expression adds in front, and the one that it adds behind. -/
def shutBy (line : List Char) : Option (RegularExpression Char) :=
  if Excludes line ∧ line.drop 1 ≠ [] then boostRegex .start (escape (line.drop 1)) else none

def listedBy (line : List Char) : Option (RegularExpression Char) :=
  if Excludes line then none else boostRegex .start (escape line)

theorem excludes_iff : Excludes line ↔ ∃ rest, line = '!' :: rest := by
  cases line with
  | nil => simp [Excludes]
  | cons c rest =>
    simp only [Excludes, List.take_succ_cons, List.take_zero, List.cons.injEq, exists_eq_right']
    exact ⟨fun h => (List.cons.inj h).1, fun h => h ▸ rfl⟩

theorem addExpression_eq (hnew : line ∉ l.expressionList) (hne : line ≠ []) :
    l.addExpression line =
      { l with
        expressionList := l.expressionList ++ [escape line]
        regExList := (shutBy line).toList.map (·, false) ++ l.regExList ++
          (listedBy line).toList.map (·, true) } := by
  have hlength : 0 < (escape line).length :=
    List.length_pos_of_ne_nil fun hnil => hne (escape_eq_nil.mp hnil)
  have hstar := replaceString_of_infix (escape line)
    (by decide : "*".toList <:+: ".*".toList)
  have hquestion := replaceString_of_infix (escape line)
    (by decide : "?".toList <:+: ".?".toList)
  rw [addExpression, if_neg hnew]
  dsimp only
  rw [hstar, hquestion, if_pos hlength, shutBy, listedBy]
  by_cases hexcludes : Excludes line
  · obtain ⟨rest, rfl⟩ := excludes_iff.mp hexcludes
    have htake : ('!' :: escape rest).take 1 = "!".toList := excludes_iff.mpr ⟨escape rest, rfl⟩
    rw [if_pos hexcludes, escape_excludes, if_pos htake, List.drop_one, List.drop_one, List.tail_cons,
      List.tail_cons, List.length_cons]
    by_cases hrest : rest = []
    · rw [hrest]
      simp [escape]
    · have hlong : 1 < (escape rest).length + 1 := by
        have hpos := List.length_pos_of_ne_nil fun hnil => hrest (escape_eq_nil.mp hnil)
        omega
      rw [if_pos hlong, if_pos ⟨hexcludes, hrest⟩]
      cases boostRegex .start (escape rest) with
      | none => simp
      | some regex => simp
  · rw [if_neg hexcludes, if_neg (escape_take hexcludes), if_neg fun hand => hexcludes hand.1]
    cases boostRegex .start (escape line) with
    | none => simp
    | some regex => simp

theorem shuts_concat {kept : List (List Char)} (regex : RegularExpression Char) :
    Shuts (kept ++ [line]) regex ↔ regex ∈ (shutBy line).toList ∨ Shuts kept regex := by
  rw [Option.mem_toList, shutBy]
  simp only [Shuts, List.mem_append, List.mem_singleton, or_and_right, exists_or]
  rw [or_comm]
  apply or_congr_left
  constructor
  · intro h
    obtain ⟨rest, rfl, hrest, hregex⟩ := h
    rw [if_pos ⟨excludes_iff.mpr ⟨rest, rfl⟩, hrest⟩]
    exact hregex
  · intro h
    split at h
    · next hline =>
      obtain ⟨rest, rfl⟩ := excludes_iff.mp hline.1
      exact ⟨rest, rfl, hline.2, h⟩
    · cases h

theorem lists_concat {kept : List (List Char)} (hline : IsExpression line)
    (regex : RegularExpression Char) :
    Lists (kept ++ [line]) regex ↔ Lists kept regex ∨ regex ∈ (listedBy line).toList := by
  rw [Option.mem_toList, listedBy]
  simp only [Lists, List.mem_append, List.mem_singleton, or_and_right, exists_or, exists_eq_left]
  apply or_congr_right
  constructor
  · intro h
    rw [if_neg h.2.1]
    exact h.2.2
  · intro h
    split at h
    · cases h
    · next hexcludes => exact ⟨hline, hexcludes, h⟩

/-- A line with an expression. -/
theorem Parsed.addExpression (h : Parsed d lines l) (hline : IsExpression line) :
    Parsed d (lines ++ [line]) (l.addExpression line) := by
  have hplayers : ∀ guid, (∃ line' ∈ lines ++ [line], ¬IsExpression line' ∧
      d.getGuidByName line' = some guid) ↔
        ∃ line' ∈ lines, ¬IsExpression line' ∧ d.getGuidByName line' = some guid := by
    intro guid
    simp only [List.mem_append, List.mem_singleton, or_and_right, exists_or, exists_eq_left]
    apply or_iff_left
    exact fun hname => hname.1 hline
  by_cases hstored : line ∈ ((inEffect lines).filter IsExpression).map escape
  · -- the line is dropped
    have hkept : inEffect (lines ++ [line]) = inEffect lines := by
      rw [inEffect_concat, keep, if_pos ⟨hline, hstored⟩]
    rw [AccessList.addExpression, if_pos (h.expressionList_eq ▸ hstored)]
    constructor
    · exact h.guildList_eq
    · exact fun guid => (h.mem_playerList guid).trans (hplayers guid).symm
    · rw [hkept]
      exact h.expressionList_eq
    · rw [hkept]
      exact h.regExList_eq
  · have hkept : inEffect (lines ++ [line]) = inEffect lines ++ [line] := by
      rw [inEffect_concat, keep, if_neg fun hand => hstored hand.2]
    have hne : line ≠ [] := by
      intro hnil
      rw [hnil] at hline
      revert hline
      decide
    rw [addExpression_eq (h.expressionList_eq ▸ hstored) hne]
    obtain ⟨shut, listed, hregEx, hshut, hlisted⟩ := h.regExList_eq
    constructor
    · exact h.guildList_eq
    · exact fun guid => (h.mem_playerList guid).trans (hplayers guid).symm
    · rw [hkept, List.filter_append, List.filter_singleton, decide_eq_true hline, cond_true,
        List.map_append, h.expressionList_eq]
      rfl
    · refine ⟨(shutBy line).toList ++ shut, listed ++ (listedBy line).toList, ?_, ?_, ?_⟩
      · dsimp only
        rw [hregEx, List.map_append, List.map_append]
        simp only [List.append_assoc]
      · intro regex
        rw [List.mem_append, hshut, hkept, shuts_concat]
      · intro regex
        rw [List.mem_append, hlisted, hkept, lists_concat hline]

/-- All the lines. -/
theorem parsed_foldl (list : List Char) (lines : List (List Char)) (h : ∀ line ∈ lines, '@' ∉ line) :
    Parsed d lines (lines.foldl (addLine d) (empty list)) := by
  induction lines using List.reverseRecOn with
  | nil => exact parsed_empty d list
  | append_singleton lines line ih =>
    have hbefore := ih fun line' hline' => h line' (List.mem_append_left _ hline')
    have hguild : '@' ∉ line := h line (List.mem_append_right _ (List.mem_singleton_self line))
    rw [List.foldl_concat, addLine, if_neg hguild]
    split
    · next hexpression => exact hbefore.addExpression hexpression
    · next hexpression => exact hbefore.addPlayer hexpression

/-! ## The verdict -/

/-- The first entry that matches decides, and the entries that shut out come first. -/
theorem Parsed.isInList_iff (h : Parsed d lines l) (player : Visitor d) :
    l.isInList player = true ↔
      (¬∃ regex, Shuts (inEffect lines) regex ∧
        regex.rmatch (asLowerCaseString player.name) = true) ∧
        ((∃ line ∈ lines, ¬IsExpression line ∧ line = asLowerCaseString player.name) ∨
          ∃ regex, Lists (inEffect lines) regex ∧
            regex.rmatch (asLowerCaseString player.name) = true) := by
  obtain ⟨shut, listed, hregEx, hshut, hlisted⟩ := h.regExList_eq
  -- two names do not share an identifier
  have hname : player.guid ∈ l.playerList ↔
      ∃ line ∈ lines, ¬IsExpression line ∧ line = asLowerCaseString player.name := by
    rw [h.mem_playerList]
    apply exists_congr
    intro line
    apply and_congr_right
    intro _
    apply and_congr_right
    intro _
    constructor
    · exact fun hguid => d.injective line _ player.guid hguid player.known
    · exact fun heq => heq ▸ player.known
  simp only [← hshut, ← hlisted, ← hname]
  rw [isInList, hregEx, List.find?_append]
  by_cases hbarred : ∃ regex ∈ shut, regex.rmatch (asLowerCaseString player.name) = true
  · -- an entry that shuts out is found before all that list
    obtain ⟨regex, hmem, hmatch⟩ := hbarred
    have hfound : ((shut.map (·, false)).find? fun entry =>
        entry.1.rmatch (asLowerCaseString player.name)).isSome := by
      rw [List.find?_isSome]
      exact ⟨(regex, false), List.mem_map_of_mem hmem, hmatch⟩
    obtain ⟨entry, hentry⟩ := Option.isSome_iff_exists.mp hfound
    obtain ⟨regex', -, rfl⟩ := List.mem_map.mp (List.mem_of_find?_eq_some hentry)
    rw [hentry, Option.some_or]
    exact iff_of_false Bool.false_ne_true fun hverdict => hverdict.1 ⟨regex, hmem, hmatch⟩
  · -- none does, and the search goes on behind them
    have hnone : (shut.map (·, false)).find? (fun entry =>
        entry.1.rmatch (asLowerCaseString player.name)) = none := by
      rw [List.find?_eq_none]
      intro entry hentry hmatch
      obtain ⟨regex, hmem, rfl⟩ := List.mem_map.mp hentry
      exact hbarred ⟨regex, hmem, hmatch⟩
    rw [hnone, Option.none_or, and_iff_right hbarred]
    cases hfind : (listed.map (·, true)).find? fun entry =>
        entry.1.rmatch (asLowerCaseString player.name) with
    | some entry =>
      have hentry := List.find?_some hfind
      obtain ⟨regex, hmem, rfl⟩ := List.mem_map.mp (List.mem_of_find?_eq_some hfind)
      exact iff_of_true rfl (Or.inr ⟨regex, hmem, hentry⟩)
    | none =>
      rw [List.find?_eq_none] at hfind
      dsimp only
      rw [h.guildList_eq, List.any_nil, Bool.or_false, decide_eq_true_eq]
      apply (or_iff_left _).symm
      intro hmatch
      obtain ⟨regex, hmem, hmatch⟩ := hmatch
      exact hfind (regex, true) (List.mem_map_of_mem hmem) hmatch

theorem mem_quantifiers {pattern name : List Char} :
    name ∈ quantifiers pattern ↔ pattern ≠ [] ∧
      ∃ regex, boostRegex .start (escape pattern) = some regex ∧ regex.rmatch name = true := by
  rw [quantifiers]
  split
  · next hnil =>
    exact iff_of_false (fun hmem => hmem) fun hand => hand.1 hnil
  · next hne =>
    rw [and_iff_right hne]
    cases boostRegex .start (escape pattern) with
    | none => exact iff_of_false (fun hmem => hmem) fun ⟨_, hregex, _⟩ => nomatch hregex
    | some regex =>
      rw [← RegularExpression.rmatch_iff_matches']
      simp

theorem bars_quantifiers {kept : List (List Char)} {name : List Char} :
    Bars quantifiers kept name ↔ ∃ regex, Shuts kept regex ∧ regex.rmatch name = true := by
  constructor
  · intro h
    obtain ⟨rest, hmem, hname⟩ := h
    obtain ⟨hne, regex, hregex, hmatch⟩ := mem_quantifiers.mp hname
    exact ⟨regex, ⟨rest, hmem, hne, hregex⟩, hmatch⟩
  · intro h
    obtain ⟨regex, ⟨rest, hmem, hne, hregex⟩, hmatch⟩ := h
    exact ⟨rest, hmem, mem_quantifiers.mpr ⟨hne, regex, hregex, hmatch⟩⟩

/-- The lines with names are all in effect. -/
theorem mem_inEffect_name (hline : ¬IsExpression line) : line ∈ inEffect lines ↔ line ∈ lines := by
  induction lines using List.reverseRecOn with
  | nil => exact Iff.rfl
  | append_singleton lines last ih =>
    rw [inEffect_concat, keep, List.mem_append, ← ih]
    split
    · next hlast =>
      apply (or_iff_left _).symm
      intro hmem
      exact hline (List.mem_singleton.mp hmem ▸ hlast.1)
    · rw [List.mem_append]

/-- The regular expression of a line without wildcards matches that line. -/
theorem rmatch_literal {name : List Char} {regex : RegularExpression Char} (h : ¬HasWildcard line)
    (hregex : boostRegex .start (escape line) = some regex) :
    regex.rmatch name = true ↔ line = name := by
  obtain ⟨regex', hregex', hmatches⟩ := (boostRegex_literal line h).1
  rw [hregex', Option.some.injEq] at hregex
  rw [RegularExpression.rmatch_iff_matches', ← hregex, hmatches]
  exact eq_comm

theorem admits_quantifiers {name : List Char} :
    Admits quantifiers (inEffect lines) name ↔
      (∃ line ∈ lines, ¬IsExpression line ∧ line = name) ∨
        ∃ regex, Lists (inEffect lines) regex ∧ regex.rmatch name = true := by
  constructor
  · intro h
    rcases h with ⟨line, hmem, hexcludes, hplain, hname⟩ | ⟨line, hmem, hexcludes, hwild, hname⟩
    · by_cases hline : IsExpression line
      · -- an exclamation mark within the line
        right
        obtain ⟨regex, hregex, -⟩ := (boostRegex_literal line hplain).1
        exact ⟨regex, ⟨line, hmem, hline, hexcludes, hregex⟩, (rmatch_literal hplain hregex).mpr hname⟩
      · left
        exact ⟨line, (mem_inEffect_name hline).mp hmem, hline, hname⟩
    · right
      obtain ⟨-, regex, hregex, hmatch⟩ := mem_quantifiers.mp hname
      exact ⟨regex, ⟨line, hmem, Or.inr hwild, hexcludes, hregex⟩, hmatch⟩
  · intro h
    rcases h with ⟨line, hmem, hline, hname⟩ | ⟨regex, ⟨line, hmem, hline, hexcludes, hregex⟩, hmatch⟩
    · left
      refine ⟨line, (mem_inEffect_name hline).mpr hmem, ?_, fun hwild => hline (Or.inr hwild), hname⟩
      intro hexcludes
      obtain ⟨rest, rfl⟩ := excludes_iff.mp hexcludes
      exact hline (Or.inl List.mem_cons_self)
    · by_cases hwild : HasWildcard line
      · right
        refine ⟨line, hmem, hexcludes, hwild, mem_quantifiers.mpr ⟨?_, regex, hregex, hmatch⟩⟩
        intro hnil
        rw [hnil] at hwild
        revert hwild
        decide
      · left
        exact ⟨line, hmem, hexcludes, hwild, (rmatch_literal hwild hregex).mp hmatch⟩

/-- A list decides by the lines in effect, with their patterns read as regular expressions. -/
theorem isInList_parseList (d : Directory) (list : List Char)
    (h : ∀ line ∈ listLines list, '@' ∉ line) (player : Visitor d) :
    (parseList d list).isInList player = true ↔
      ¬Bars quantifiers (inEffect (listLines list)) (asLowerCaseString player.name) ∧
        Admits quantifiers (inEffect (listLines list)) (asLowerCaseString player.name) := by
  rw [bars_quantifiers, admits_quantifiers]
  rw [parseList]
  split
  · next hempty =>
    rw [hempty]
    exact (parsed_empty d []).isInList_iff player
  · exact (parsed_foldl list (listLines list) h).isInList_iff player

/-- What becomes of a name: no line shuts it out, and one lists it. -/
def Welcomes (reads : List Char → Language Char) (lines : List (List Char)) (name : List Char) :
    Prop :=
  ¬Bars reads lines name ∧ Admits reads lines name

/-- A line shuts a name out. -/
def ShutsOut (reads : List Char → Language Char) (name line : List Char) : Prop :=
  ∃ rest, line = '!' :: rest ∧ name ∈ reads rest

/-- A line lists a name. -/
def ListsName (reads : List Char → Language Char) (name line : List Char) : Prop :=
  ¬Excludes line ∧ (¬HasWildcard line ∧ line = name ∨ HasWildcard line ∧ name ∈ reads line)

theorem bars_iff {reads : List Char → Language Char} {name : List Char} :
    Bars reads lines name ↔ ∃ line ∈ lines, ShutsOut reads name line := by
  constructor
  · rintro ⟨rest, hmem, hname⟩
    exact ⟨_, hmem, rest, rfl, hname⟩
  · rintro ⟨line, hmem, rest, rfl, hname⟩
    exact ⟨rest, hmem, hname⟩

theorem admits_iff {reads : List Char → Language Char} {name : List Char} :
    Admits reads lines name ↔ ∃ line ∈ lines, ListsName reads name line := by
  constructor
  · rintro (⟨line, hmem, hlists, hplain, hname⟩ | ⟨line, hmem, hlists, hwild, hname⟩)
    · exact ⟨line, hmem, hlists, Or.inl ⟨hplain, hname⟩⟩
    · exact ⟨line, hmem, hlists, Or.inr ⟨hwild, hname⟩⟩
  · rintro ⟨line, hmem, hlists, ⟨hplain, hname⟩ | ⟨hwild, hname⟩⟩
    · exact Or.inl ⟨line, hmem, hlists, hplain, hname⟩
    · exact Or.inr ⟨line, hmem, hlists, hwild, hname⟩

/-- A name for which a line in effect is read as it is meant, and is decisive: one that shuts it out, or
one that lists it where none shuts it out in either reading; or no line lists it in either reading. -/
def Decided (lines : List (List Char)) (name : List Char) : Prop :=
  (∃ line ∈ inEffect lines, ShutsOut wildcards name line ∧ ShutsOut quantifiers name line) ∨
    ((∀ line ∈ lines, ¬ShutsOut wildcards name line) ∧
      (∀ line ∈ inEffect lines, ¬ShutsOut quantifiers name line) ∧
        ∃ line ∈ inEffect lines, ListsName wildcards name line ∧ ListsName quantifiers name line) ∨
    ((∀ line ∈ lines, ¬ListsName wildcards name line) ∧
      ∀ line ∈ inEffect lines, ¬ListsName quantifiers name line)

/-- A line does to a name what it is meant to do. -/
def ReadAlike (lines : List (List Char)) (name line : List Char) : Prop :=
  (ShutsOut wildcards name line ↔ line ∈ inEffect lines ∧ ShutsOut quantifiers name line) ∧
    (ListsName wildcards name line ↔ line ∈ inEffect lines ∧ ListsName quantifiers name line)

theorem mem_inEffect (hmem : line ∈ inEffect lines) : line ∈ lines := by
  induction lines using List.reverseRecOn with
  | nil => exact hmem
  | append_singleton lines last ih =>
    rw [inEffect_concat, keep] at hmem
    split at hmem
    · exact List.mem_append_left _ (ih hmem)
    · exact (List.mem_append.mp hmem).elim (fun h => List.mem_append_left _ (ih h))
        (List.mem_append_right _)

/-- Where a name is decided, both readings come to the same. -/
theorem Decided.welcomes_iff {name : List Char} (h : Decided lines name) :
    Welcomes quantifiers (inEffect lines) name ↔ Welcomes wildcards lines name := by
  simp only [Welcomes, bars_iff, admits_iff]
  rcases h with ⟨line, hmem, hmeant, hread⟩ | ⟨hmeant, hread, line, hmem, hlists, hlists'⟩ |
    ⟨hmeant, hread⟩
  · apply iff_of_false
    · exact fun hwelcome => hwelcome.1 ⟨line, hmem, hread⟩
    · exact fun hwelcome => hwelcome.1 ⟨line, mem_inEffect hmem, hmeant⟩
  · apply iff_of_true
    · exact ⟨fun ⟨line', hmem', hshuts⟩ => hread line' hmem' hshuts, line, hmem, hlists'⟩
    · exact ⟨fun ⟨line', hmem', hshuts⟩ => hmeant line' hmem' hshuts, line, mem_inEffect hmem, hlists⟩
  · apply iff_of_false
    · exact fun ⟨_, line, hmem, hlists⟩ => hread line hmem hlists
    · exact fun ⟨_, line, hmem, hlists⟩ => hmeant line hmem hlists

/-- A line that shuts a name out lists none. -/
theorem ShutsOut.not_listsName {reads reads' : List Char → Language Char} {name : List Char}
    (h : ShutsOut reads name line) : ¬ListsName reads' name line := by
  obtain ⟨rest, rfl, -⟩ := h
  exact fun hlists => hlists.1 (excludes_iff.mpr ⟨rest, rfl⟩)

/-- Where one line at most is read in another way than it is meant, and none does the same in both
readings, it is the only one that does anything in either. -/
theorem eq_odd_of_none {meant read : List Char → Prop} {odd : List Char}
    (halike : ∀ line ∈ lines, line ≠ odd → (meant line ↔ line ∈ inEffect lines ∧ read line))
    (hnone : ¬∃ line ∈ inEffect lines, meant line ∧ read line) :
    (∀ line ∈ lines, meant line → line = odd) ∧ ∀ line ∈ inEffect lines, read line → line = odd := by
  constructor
  · intro line hmem hmeant
    by_contra hne
    obtain ⟨heffect, hread⟩ := (halike line hmem hne).mp hmeant
    exact hnone ⟨line, heffect, hmeant, hread⟩
  · intro line hmem hread
    by_contra hne
    exact hnone ⟨line, hmem, (halike line (mem_inEffect hmem) hne).mpr ⟨hmem, hread⟩, hread⟩

/-- Where one line at most is read in another way than it is meant, a name with the right verdict is
decided. -/
theorem decided_of_welcomes_iff {name odd : List Char}
    (halike : ∀ line ∈ lines, line ≠ odd → ReadAlike lines name line)
    (h : Welcomes quantifiers (inEffect lines) name ↔ Welcomes wildcards lines name) :
    Decided lines name := by
  simp only [Welcomes, bars_iff, admits_iff] at h
  by_cases hshut : ∃ line ∈ inEffect lines,
      ShutsOut wildcards name line ∧ ShutsOut quantifiers name line
  · exact Or.inl hshut
  -- a line that shuts the name out in one of the readings is the one that is read in another way
  obtain ⟨hmeant, hread⟩ := eq_odd_of_none (fun line hmem hne => (halike line hmem hne).1) hshut
  right
  by_cases hlist : ∃ line ∈ inEffect lines,
      ListsName wildcards name line ∧ ListsName quantifiers name line
  · left
    obtain ⟨line, hmem, hlists, hlists'⟩ := hlist
    have hbars : (∃ line ∈ lines, ShutsOut wildcards name line) ↔
        ∃ line ∈ inEffect lines, ShutsOut quantifiers name line := by
      have hverdict := h
      rw [and_iff_left ⟨line, hmem, hlists'⟩, and_iff_left ⟨line, mem_inEffect hmem, hlists⟩]
        at hverdict
      exact (not_iff_not.mp hverdict).symm
    have hnone : ¬∃ line ∈ lines, ShutsOut wildcards name line := by
      intro hbarred
      obtain ⟨line₁, hmem₁, hshuts₁⟩ := hbarred
      obtain ⟨line₂, hmem₂, hshuts₂⟩ := hbars.mp ⟨line₁, hmem₁, hshuts₁⟩
      obtain rfl := hmeant line₁ hmem₁ hshuts₁
      obtain rfl := hread line₂ hmem₂ hshuts₂
      exact hshut ⟨line₂, hmem₂, hshuts₁, hshuts₂⟩
    refine ⟨fun line' hmem' hshuts => hnone ⟨line', hmem', hshuts⟩, ?_, line, hmem, hlists, hlists'⟩
    exact fun line' hmem' hshuts => hnone (hbars.mpr ⟨line', hmem', hshuts⟩)
  · right
    obtain ⟨hmeant', hread'⟩ :=
      eq_odd_of_none (fun line hmem hne => (halike line hmem hne).2) hlist
    -- if that line lists the name in one reading, no line shuts it out, and the verdicts differ
    constructor
    · intro line hmem hlists
      obtain rfl := hmeant' line hmem hlists
      have hverdict : ¬∃ line ∈ lines, ShutsOut wildcards name line := by
        rintro ⟨line', hmem', hshuts⟩
        exact hshuts.not_listsName (hmeant line' hmem' hshuts ▸ hlists)
      obtain ⟨-, line', hmem', hlists'⟩ := h.mpr ⟨hverdict, line, hmem, hlists⟩
      exact hlist ⟨line', hmem', hread' line' hmem' hlists' ▸ hlists, hlists'⟩
    · intro line hmem hlists
      obtain rfl := hread' line hmem hlists
      have hverdict : ¬∃ line ∈ inEffect lines, ShutsOut quantifiers name line := by
        rintro ⟨line', hmem', hshuts⟩
        exact hshuts.not_listsName (hread line' hmem' hshuts ▸ hlists)
      obtain ⟨-, line', hmem', hlists'⟩ := h.mp ⟨hverdict, line, hmem, hlists⟩
      exact hlist ⟨line, hmem, hmeant' line' hmem' hlists' ▸ hlists', hlists⟩

/-! ## Lists without wildcards -/

theorem wildcards_literal (pattern : List Char) (h : ¬HasWildcard pattern) :
    wildcards pattern = {pattern} := by
  induction pattern with
  | nil => rfl
  | cons c pattern ih =>
    have hstar : c ≠ '*' := fun heq => h (Or.inl (heq ▸ List.mem_cons_self))
    have hquestion : c ≠ '?' := fun heq => h (Or.inr (heq ▸ List.mem_cons_self))
    have hrest : ¬HasWildcard pattern :=
      fun hrest => h (hrest.imp (List.mem_cons_of_mem c) (List.mem_cons_of_mem c))
    rw [wildcards, if_neg hstar, if_neg hquestion, ih hrest]
    exact Set.image2_singleton

theorem mem_quantifiers_literal {pattern name : List Char} (h : ¬HasWildcard pattern)
    (hname : name ≠ []) : name ∈ quantifiers pattern ↔ name ∈ wildcards pattern := by
  rw [mem_quantifiers, wildcards_literal pattern h]
  obtain ⟨regex, hregex, -⟩ := (boostRegex_literal pattern h).1
  constructor
  · intro hmem
    obtain ⟨-, regex', hregex', hmatch⟩ := hmem
    exact ((rmatch_literal h hregex').mp hmatch).symm
  · intro hmem
    have heq : name = pattern := hmem
    rw [← heq] at h hregex ⊢
    exact ⟨hname, regex, hregex, (rmatch_literal h hregex).mpr rfl⟩

/-- Without backslashes an escaped text is the text itself. -/
theorem escape_eq_self (line : List Char) (h : '\\' ∉ escape line) : escape line = line := by
  induction line with
  | nil => rfl
  | cons c line ih =>
    rw [escape_cons] at h ⊢
    have hrest : '\\' ∉ escape line := fun hmem => h (List.mem_append_right _ hmem)
    by_cases hmeta : c ∈ metachars
    · rw [if_pos hmeta] at h
      exact absurd (List.mem_append_left _ List.mem_cons_self) h
    · rw [if_neg hmeta, ih hrest]
      rfl

/-- Without backslashes only repeated lines are dropped. -/
theorem mem_inEffect_iff (h : ∀ line ∈ lines, '\\' ∉ line) : line ∈ inEffect lines ↔ line ∈ lines := by
  refine ⟨mem_inEffect, ?_⟩
  induction lines using List.reverseRecOn with
  | nil => exact id
  | append_singleton lines last ih =>
    intro hmem
    have hbefore := ih fun line hline => h line (List.mem_append_left _ hline)
    have hlast := h last (List.mem_append_right _ (List.mem_singleton_self last))
    rw [inEffect_concat, keep]
    rcases List.mem_append.mp hmem with hmem | hmem
    · split
      · exact hbefore hmem
      · exact List.mem_append_left _ (hbefore hmem)
    · rw [List.mem_singleton.mp hmem]
      split
      · next hdropped =>
        obtain ⟨line', hline', heq⟩ := List.mem_map.mp hdropped.2
        rw [← heq] at hlast ⊢
        rw [escape_eq_self line' hlast]
        exact (List.mem_filter.mp hline').1
      · exact List.mem_append_right _ (List.mem_singleton_self last)

/-- A line without wildcards is read as it is meant, if none is dropped. -/
theorem readAlike_of_not_hasWildcard {name : List Char} (hname : name ≠ [])
    (hmem : line ∈ inEffect lines) (hwild : ¬HasWildcard line) : ReadAlike lines name line := by
  constructor
  · rw [and_iff_right hmem]
    apply exists_congr
    intro rest
    apply and_congr_right
    rintro rfl
    apply (mem_quantifiers_literal _ hname).symm
    exact fun hrest => hwild (hrest.imp (List.mem_cons_of_mem _) (List.mem_cons_of_mem _))
  · rw [and_iff_right hmem]
    apply and_congr_right
    intro _
    apply or_congr_right
    exact and_congr_right fun h => absurd h hwild

/-- Lines that are all read as they are meant do together what they are meant to do. -/
theorem exists_inEffect_iff {meant read : List Char → Prop}
    (halike : ∀ line ∈ lines, (meant line ↔ line ∈ inEffect lines ∧ read line)) :
    (∃ line ∈ inEffect lines, read line) ↔ ∃ line ∈ lines, meant line := by
  constructor
  · rintro ⟨line, hmem, hread⟩
    exact ⟨line, mem_inEffect hmem, (halike line (mem_inEffect hmem)).mpr ⟨hmem, hread⟩⟩
  · rintro ⟨line, hmem, hmeant⟩
    exact ⟨line, (halike line hmem).mp hmeant⟩

/-- A name is decided by lines that are all read as they are meant. -/
theorem decided_of_readAlike {name : List Char} (h : ∀ line ∈ lines, ReadAlike lines name line) :
    Decided lines name := by
  have halike : ∀ line ∈ lines, line ≠ [] → ReadAlike lines name line :=
    fun line hmem _ => h line hmem
  apply decided_of_welcomes_iff halike
  have hshuts := exists_inEffect_iff fun line hmem => (h line hmem).1
  have hlists := exists_inEffect_iff fun line hmem => (h line hmem).2
  rw [Welcomes, Welcomes, bars_iff, bars_iff, admits_iff, admits_iff, hshuts, hlists]

/-! ## Where a list is right -/

/-- A list decides as its patterns are meant where a line that is read alike decides, or none lists the
name; and nowhere else, if it has no more than one line that is read in another way than it is meant.
So it does for every name, if it has no wildcards and no backslashes. -/
theorem isInList_iff_welcomes (d : Directory) (list : List Char)
    (h : ∀ line ∈ listLines list, '@' ∉ line) (player : Visitor d) :
    (Decided (listLines list) (asLowerCaseString player.name) →
      ((parseList d list).isInList player = true ↔
        Welcomes wildcards (listLines list) (asLowerCaseString player.name))) ∧
    ((∃ odd, ∀ line ∈ listLines list, line ≠ odd →
        ReadAlike (listLines list) (asLowerCaseString player.name) line) →
      ((parseList d list).isInList player = true ↔
        Welcomes wildcards (listLines list) (asLowerCaseString player.name)) →
      Decided (listLines list) (asLowerCaseString player.name)) ∧
    (player.name ≠ [] → (∀ line ∈ listLines list, ¬HasWildcard line ∧ '\\' ∉ line) →
      Decided (listLines list) (asLowerCaseString player.name)) := by
  rw [isInList_parseList d list h player]
  refine ⟨fun hdecided => hdecided.welcomes_iff, fun ⟨odd, halike⟩ hright => ?_, fun hname hplain => ?_⟩
  · exact decided_of_welcomes_iff halike hright
  · apply decided_of_readAlike
    intro line hmem
    have heffect : line ∈ inEffect (listLines list) :=
      (mem_inEffect_iff fun line hmem => (hplain line hmem).2).mpr hmem
    apply readAlike_of_not_hasWildcard _ heffect (hplain line hmem).1
    exact fun hnil => hname (List.map_eq_nil_iff.mp hnil)

/-- The tables of a world with one player. -/
def loneDirectory : Directory where
  getGuidByName name := if name = "gabriel".toList then some 7 else none
  getGuildId _ := none
  getRankIdByName _ _ := 0
  injective := by
    intro name name' guid h h'
    split at h
    · next hname =>
      split at h'
      · next hname' => rw [hname, hname']
      · cases h'
    · cases h

def gabriel : Visitor loneDirectory where
  name := "Gabriel".toList
  guid := 7
  guildId := 0
  rankId := 0
  known := by decide
  no_nul := by decide

/-- A line that lists the name in both readings, as the letter before the question mark is not there,
and one that shuts out another name. -/
theorem isInList_iff_welcomes_gabriel :
    (∀ line ∈ listLines "gab?riel\n!bob".toList, '@' ∉ line) ∧
      Decided (listLines "gab?riel\n!bob".toList) (asLowerCaseString gabriel.name) ∧
        ((parseList loneDirectory "gab?riel\n!bob".toList).isInList gabriel = true ↔
          Welcomes wildcards (listLines "gab?riel\n!bob".toList)
            (asLowerCaseString gabriel.name)) := by
  have h : ∀ line ∈ listLines "gab?riel\n!bob".toList, '@' ∉ line := by decide
  have hlines : listLines "gab?riel\n!bob".toList = ["gab?riel".toList, "!bob".toList] := by decide
  have heffect : inEffect ["gab?riel".toList, "!bob".toList] =
      ["gab?riel".toList, "!bob".toList] := by decide
  have hbob : ¬ "gabriel".toList ∈ wildcards "bob".toList := by
    rw [wildcards_literal _ (by decide)]
    intro hmem
    have heq : "gabriel".toList = "bob".toList := hmem
    exact absurd heq (by decide)
  have hshuts (reads : List Char → Language Char) (hreads : ¬ "gabriel".toList ∈ reads "bob".toList) :
      ∀ line ∈ ["gab?riel".toList, "!bob".toList], ¬ShutsOut reads "gabriel".toList line := by
    rintro line hmem ⟨rest, rfl, hname⟩
    rcases List.mem_cons.mp hmem with heq | hmem
    · exact absurd (List.cons.inj heq).1 (by decide)
    · have hrest : '!' :: rest = '!' :: "bob".toList := List.mem_singleton.mp hmem
      rw [(List.cons.inj hrest).2] at hname
      exact hreads hname
  have hmeant : "gabriel".toList ∈ wildcards "gab?riel".toList :=
    ⟨['g'], rfl, _, ⟨['a'], rfl, _, ⟨['b'], rfl, _, ⟨[], Nat.zero_le 1, _, ⟨['r'], rfl, _,
      ⟨['i'], rfl, _, ⟨['e'], rfl, _, ⟨['l'], rfl, [], rfl, rfl⟩, rfl⟩, rfl⟩, rfl⟩, rfl⟩, rfl⟩, rfl⟩,
      rfl⟩
  have hread : "gabriel".toList ∈ quantifiers "gab?riel".toList :=
    mem_quantifiers.mpr ⟨by decide, _, rfl, by decide⟩
  have hdecided : Decided (listLines "gab?riel\n!bob".toList) (asLowerCaseString gabriel.name) := by
    rw [hlines, Decided, heffect]
    refine Or.inr (Or.inl ⟨hshuts wildcards hbob, hshuts quantifiers ?_, _, List.mem_cons_self,
      ⟨by decide, Or.inr ⟨by decide, hmeant⟩⟩, ⟨by decide, Or.inr ⟨by decide, hread⟩⟩⟩)
    rw [mem_quantifiers_literal (by decide) (by decide)]
    exact hbob
  exact ⟨h, hdecided, (isInList_iff_welcomes loneDirectory _ h gabriel).1 hdecided⟩

/-- The asterisk repeats the letter before it. -/
theorem not_isInList_iff_welcomes_gabriel :
    ¬((parseList loneDirectory "ga*".toList).isInList gabriel = true ↔
      Welcomes wildcards (listLines "ga*".toList) (asLowerCaseString gabriel.name)) := by
  intro h
  have hverdict : (parseList loneDirectory "ga*".toList).isInList gabriel = false := by decide
  have hlines : listLines "ga*".toList = ["ga*".toList] := by decide
  rw [hverdict, hlines] at h
  apply Bool.false_ne_true
  apply h.mpr
  constructor
  · intro hbars
    obtain ⟨rest, hmem, -⟩ := hbars
    rw [List.mem_singleton] at hmem
    have hhead : '!' = 'g' := (List.cons.inj hmem).1
    exact absurd hhead (by decide)
  · refine Or.inr ⟨_, List.mem_singleton_self _, by decide, by decide, ?_⟩
    exact ⟨['g'], rfl, _, ⟨['a'], rfl, _, ⟨"briel".toList, trivial, [], rfl, rfl⟩, rfl⟩, rfl⟩

end AccessList

end TyanoCore
