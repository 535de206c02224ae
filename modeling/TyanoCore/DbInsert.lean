import Mathlib.Data.Int.Notation
import Mathlib.Data.List.Basic
import Mathlib.Algebra.Order.Ring.Int

/-!
# Rows that are inserted together

An insert collects rows until its buffer is large, and executes them with one statement.  The
count of the rows is reset when the buffer is executed to make room for a row, and that row is not
counted: if no other row follows, the last execution takes the buffer for empty.
-/

namespace TyanoCore

abbrev Row := List Char

/-- What the database answers to a statement, after the statements that it was given before. -/
abbrev Answers := List (List Char) → List Char → Bool

structure DBInsert where
  m_multiLine : Bool
  m_rows : ℕ
  m_query : List Char
  m_buf : List Char

namespace DBInsert

/-- The insert and the statements that the database was given. -/
abbrev Session := DBInsert × List (List Char)

variable (answers : Answers)

def executeQuery (given : List (List Char)) (query : List Char) : List (List Char) × Bool :=
  (given ++ [query], answers given query)

def setQuery (s : Session) (query : List Char) : Session :=
  ({ s.1 with m_query := query, m_buf := [], m_rows := 0 }, s.2)

def execute (s : Session) : Session × Bool :=
  if s.1.m_multiLine = false ∨ s.1.m_buf.length < 1 then (s, true)
  else if s.1.m_rows = 0 then (s, true)
  else
    (({ s.1 with m_rows := 0, m_buf := [] }, (executeQuery answers s.2 (s.1.m_query ++ s.1.m_buf)).1),
      (executeQuery answers s.2 (s.1.m_query ++ s.1.m_buf)).2)

/-- The value of the length as a signed number of 32 bits. -/
def size (s : DBInsert) : ℤ := Int.bmod s.m_buf.length (2 ^ 32)

/-- `m_rows++`. -/
def counted (s : DBInsert) : DBInsert := { s with m_rows := (s.m_rows + 1) % 2 ^ 32 }

def parenthesized (row : Row) : List Char := '(' :: row ++ [')']

def addRow (s : Session) (row : Row) : Session × Bool :=
  if s.1.m_multiLine = false then
    ((s.1, (executeQuery answers s.2 (s.1.m_query ++ parenthesized row)).1),
      (executeQuery answers s.2 (s.1.m_query ++ parenthesized row)).2)
  else
    let size := s.1.size
    let s : Session := (s.1.counted, s.2)
    if size = 0 then (({ s.1 with m_buf := parenthesized row }, s.2), true)
    else if size > 8192 then
      match execute answers s with
      | (s, false) => (s, false)
      | (s, true) => (({ s.1 with m_buf := parenthesized row }, s.2), true)
    else (({ s.1 with m_buf := s.1.m_buf ++ ',' :: parenthesized row }, s.2), true)

/-- The callers give up at the first row that fails. -/
def addRows (s : Session) : List Row → Session × Bool
  | [] => (s, true)
  | row :: rows =>
    match addRow answers s row with
    | (s, false) => (s, false)
    | (s, true) => addRows s rows

/-- What the callers do: a query, its rows, and the execution of what is left in the buffer. -/
def insert (s : Session) (query : List Char) (rows : List Row) : Session × Bool :=
  match addRows answers (setQuery s query) rows with
  | (s, false) => (s, false)
  | (s, true) => execute answers s

/-! ## Statements -/

/-- The values of some rows. -/
def values (rows : List Row) : List Char := List.intercalate [','] (rows.map parenthesized)

/-- The statement that inserts some rows. -/
def statement (query : List Char) (rows : List Row) : List Char := query ++ values rows

/-- The length of the buffer after some rows, as long as all statements succeed. -/
def buffered (rows : List Row) : ℕ :=
  rows.foldl (fun n row => if n = 0 ∨ 8192 < n then row.length + 2 else n + row.length + 3) 0

/-- The last row found the buffer full. -/
def LastFlushes (rows : List Row) : Prop := 8192 < buffered rows.dropLast

instance (rows : List Row) : Decidable (LastFlushes rows) := inferInstanceAs (Decidable (_ < _))

variable {answers} {s t : Session} {query : List Char} {rows : List Row} {row : Row}

theorem length_parenthesized (row : Row) : (parenthesized row).length = row.length + 2 := by
  rw [parenthesized, List.length_append, List.length_cons, List.length_singleton]

theorem values_singleton (row : Row) : values [row] = parenthesized row := by
  simp [values, List.intercalate]

theorem values_concat (hrows : rows ≠ []) (row : Row) :
    values (rows ++ [row]) = values rows ++ ',' :: parenthesized row := by
  induction rows with
  | nil => exact absurd rfl hrows
  | cons first rows ih =>
    cases rows with
    | nil => simp [values, List.intercalate]
    | cons second rows =>
      have hrest := ih (List.cons_ne_nil second rows)
      simp only [values, List.intercalate, List.cons_append, List.map_cons, List.intersperse,
        List.flatten_cons] at hrest ⊢
      rw [hrest]
      simp

theorem buffered_concat (rows : List Row) (row : Row) :
    buffered (rows ++ [row]) =
      if buffered rows = 0 ∨ 8192 < buffered rows then row.length + 2
      else buffered rows + row.length + 3 := by
  rw [buffered, List.foldl_append]
  rfl

@[simp] theorem m_rows_counted (s : DBInsert) : s.counted.m_rows = (s.m_rows + 1) % 2 ^ 32 := rfl

@[simp] theorem m_query_counted (s : DBInsert) : s.counted.m_query = s.m_query := rfl

@[simp] theorem m_buf_counted (s : DBInsert) : s.counted.m_buf = s.m_buf := rfl

/-- The execution of a buffer with rows. -/
theorem execute_eq (hmulti : s.1.m_multiLine = true) (hbuf : 0 < s.1.m_buf.length)
    (hrows : s.1.m_rows ≠ 0) : execute answers s =
      (({ s.1 with m_rows := 0, m_buf := [] }, s.2 ++ [s.1.m_query ++ s.1.m_buf]),
        answers s.2 (s.1.m_query ++ s.1.m_buf)) := by
  have hopen : ¬ (s.1.m_multiLine = false ∨ s.1.m_buf.length < 1) := by
    rw [hmulti]
    rintro (hfalse | hlt)
    · cases hfalse
    · omega
  rw [execute, if_neg hopen, if_neg hrows]
  rfl

/-- The database has accepted statements that were given to it one after the other. -/
def Accepted (answers : Answers) : List (List Char) → List (List Char) → Prop
  | _, [] => True
  | given, query :: queries =>
    answers given query = true ∧ Accepted answers (given ++ [query]) queries

theorem accepted_concat {given queries : List (List Char)} {query : List Char} :
    Accepted answers given (queries ++ [query]) ↔
      Accepted answers given queries ∧ answers (given ++ queries) query = true := by
  induction queries generalizing given with
  | nil => simp [Accepted]
  | cons first queries ih =>
    rw [List.cons_append, Accepted, ih, Accepted, and_assoc, List.append_assoc]
    rfl

/-- What the insert holds after the rows of a query: the rows before the last flush are in the
statements, the others in the buffer, and the row that came with the flush is not counted. -/
structure Holds (answers : Answers) (query : List Char) (given : List (List Char))
    (rows : List Row) (groups : List (List Row)) (pending : List Row) (s : Session) : Prop where
  multiLine : s.1.m_multiLine = true
  query_eq : s.1.m_query = query
  given_eq : s.2 = given ++ groups.map (statement query)
  accepted : Accepted answers given (groups.map (statement query))
  rows_eq : groups.flatten ++ pending = rows
  buf_eq : s.1.m_buf = values pending
  length_eq : s.1.m_buf.length = buffered rows
  length_lt : buffered rows < 2 ^ 31
  pending_le : 3 * pending.length ≤ buffered rows + 1
  rows_count : s.1.m_rows = pending.length - if groups = [] then 0 else 1
  pending_ne : groups ≠ [] → pending ≠ []
  lastFlushes_iff : groups ≠ [] ∧ pending.length = 1 ↔ LastFlushes rows

variable {given : List (List Char)} {groups : List (List Row)} {pending : List Row}

theorem Holds.size_eq (h : Holds answers query given rows groups pending s) :
    s.1.size = buffered rows := by
  have hlt := h.length_lt
  have hbmod : Int.bmod (buffered rows) (2 ^ 32) = buffered rows := by
    rw [Int.bmod_eq_of_le] <;> omega
  exact (congrArg (fun n : ℕ => Int.bmod n (2 ^ 32)) h.length_eq).trans hbmod

theorem Holds.pending_nil (h : Holds answers query given rows groups pending s)
    (hempty : buffered rows = 0) : pending = [] ∧ groups = [] := by
  have hle := h.pending_le
  have hpending : pending = [] := List.eq_nil_of_length_eq_zero (by omega)
  exact ⟨hpending, by_contra fun hgroups => h.pending_ne hgroups hpending⟩

theorem lastFlushes_concat (rows : List Row) (row : Row) :
    LastFlushes (rows ++ [row]) ↔ 8192 < buffered rows := by
  rw [LastFlushes, List.dropLast_concat]

/-- The first row of a buffer. -/
theorem Holds.addRow_empty (h : Holds answers query given rows groups pending s)
    (hrow : row.length < 2 ^ 30) (hempty : buffered rows = 0) :
    Holds answers query given (rows ++ [row]) [] [row]
      ({ s.1.counted with m_buf := parenthesized row }, s.2) := by
  obtain ⟨rfl, rfl⟩ := h.pending_nil hempty
  have hrows : rows = [] := h.rows_eq.symm
  have hlength : buffered (rows ++ [row]) = row.length + 2 := by
    rw [buffered_concat, if_pos (.inl hempty)]
  refine ⟨h.multiLine, h.query_eq, h.given_eq, trivial, ?_, (values_singleton row).symm, ?_, ?_, ?_,
    ?_, fun hne => absurd rfl hne, ?_⟩
  · rw [hrows]
    rfl
  · rw [hlength]
    exact length_parenthesized row
  · omega
  · rw [hlength, List.length_singleton]
    omega
  · have hcount : s.1.m_rows = 0 := h.rows_count
    show s.1.counted.m_rows = 1
    rw [m_rows_counted, hcount]
    omega
  · rw [lastFlushes_concat, hempty]
    constructor
    · exact fun hne => absurd rfl hne.1
    · intro hlt
      omega

/-- The next row of a buffer that is not full. -/
theorem Holds.addRow_append (h : Holds answers query given rows groups pending s)
    (hrow : row.length < 2 ^ 30) (hne : buffered rows ≠ 0) (hroom : buffered rows ≤ 8192) :
    Holds answers query given (rows ++ [row]) groups (pending ++ [row])
      ({ s.1.counted with m_buf := s.1.m_buf ++ ',' :: parenthesized row }, s.2) := by
  have hlength : buffered (rows ++ [row]) = buffered rows + row.length + 3 := by
    rw [buffered_concat, if_neg (by omega)]
  have hle := h.pending_le
  have hpending : pending ≠ [] := by
    rintro rfl
    apply hne
    rw [← h.length_eq, h.buf_eq]
    rfl
  have hpos := List.length_pos_iff.mpr hpending
  refine ⟨h.multiLine, h.query_eq, h.given_eq, h.accepted, ?_, ?_, ?_, ?_, ?_, ?_, ?_, ?_⟩
  · rw [← List.append_assoc, h.rows_eq]
  · rw [values_concat hpending, ← h.buf_eq]
  · have hbuf := h.length_eq
    rw [hlength]
    simp only [List.length_append, List.length_cons, length_parenthesized]
    omega
  · omega
  · rw [hlength, List.length_append, List.length_singleton]
    omega
  · have hcount := h.rows_count
    have hlt := h.length_lt
    show s.1.counted.m_rows = _
    rw [m_rows_counted, hcount, List.length_append, List.length_singleton]
    split_ifs <;> omega
  · exact fun _ => List.append_ne_nil_of_left_ne_nil hpending _
  · rw [lastFlushes_concat, List.length_append, List.length_singleton]
    constructor
    · rintro ⟨_, hone⟩
      omega
    · intro hlt
      omega

/-- The row for which the buffer is executed. -/
theorem Holds.addRow_flush (h : Holds answers query given rows groups pending s)
    (hrow : row.length < 2 ^ 30) (hfull : 8192 < buffered rows)
    (hanswer : answers s.2 (statement query pending) = true) :
    Holds answers query given (rows ++ [row]) (groups ++ [pending]) [row]
      ({ s.1 with m_rows := 0, m_buf := parenthesized row },
        s.2 ++ [statement query pending]) := by
  have hlength : buffered (rows ++ [row]) = row.length + 2 := by
    rw [buffered_concat, if_pos (.inr hfull)]
  have hgroups : groups ++ [pending] ≠ [] := List.append_ne_nil_of_right_ne_nil _ (by simp)
  refine ⟨h.multiLine, h.query_eq, ?_, ?_, ?_, (values_singleton row).symm, ?_, ?_, ?_, ?_,
    fun _ => List.cons_ne_nil _ _, ?_⟩
  · rw [h.given_eq, List.map_append, List.append_assoc]
    rfl
  · rw [List.map_append, List.map_singleton, accepted_concat, ← h.given_eq]
    exact ⟨h.accepted, hanswer⟩
  · rw [List.flatten_append, List.flatten_singleton, h.rows_eq]
  · rw [hlength]
    exact length_parenthesized row
  · omega
  · rw [hlength, List.length_singleton]
    omega
  · rw [if_neg hgroups]
    rfl
  · rw [lastFlushes_concat]
    exact ⟨fun _ => hfull, fun _ => ⟨hgroups, rfl⟩⟩

/-- A row that is added: the buffer is begun, goes on, or is executed for it. -/
theorem Holds.addRow (h : Holds answers query given rows groups pending s)
    (hrow : row.length < 2 ^ 30) (ht : addRow answers s row = (t, true)) :
    ∃ groups pending, Holds answers query given (rows ++ [row]) groups pending t := by
  have hsize := h.size_eq
  have hmulti : ¬ s.1.m_multiLine = false := by
    rw [h.multiLine]
    decide
  rw [DBInsert.addRow, if_neg hmulti] at ht
  dsimp only at ht
  rw [hsize] at ht
  by_cases hempty : buffered rows = 0
  · have hzero : (buffered rows : ℤ) = 0 := by omega
    rw [if_pos hzero] at ht
    cases ht
    exact ⟨_, _, h.addRow_empty hrow hempty⟩
  have hzero : ¬ (buffered rows : ℤ) = 0 := by omega
  rw [if_neg hzero] at ht
  by_cases hfull : 8192 < buffered rows
  · have hlarge : (buffered rows : ℤ) > 8192 := by omega
    have hlength := h.length_eq
    have hcount := h.rows_count
    have hrows : s.1.counted.m_rows ≠ 0 := by
      have hle := h.pending_le
      have hlt := h.length_lt
      rw [m_rows_counted]
      omega
    have hquery : s.1.m_query ++ s.1.m_buf = statement query pending := by
      rw [h.query_eq, h.buf_eq, statement]
    have hbuf : 0 < s.1.counted.m_buf.length := by
      rw [m_buf_counted]
      omega
    have hexecute := @execute_eq answers (s.1.counted, s.2) h.multiLine hbuf hrows
    rw [m_query_counted, m_buf_counted, hquery] at hexecute
    rw [if_pos hlarge, hexecute] at ht
    cases hanswer : answers s.2 (statement query pending) with
    | false =>
      rw [hanswer] at ht
      cases ht
    | true =>
      rw [hanswer] at ht
      cases ht
      exact ⟨_, _, h.addRow_flush hrow hfull hanswer⟩
  · have hlarge : ¬ (buffered rows : ℤ) > 8192 := by omega
    rw [if_neg hlarge] at ht
    cases ht
    exact ⟨_, _, h.addRow_append hrow hempty (by omega)⟩

theorem Holds.addRows {more : List Row} (h : Holds answers query given rows groups pending s)
    (hmore : ∀ row ∈ more, row.length < 2 ^ 30) (ht : addRows answers s more = (t, true)) :
    ∃ groups pending, Holds answers query given (rows ++ more) groups pending t := by
  induction more generalizing s rows groups pending with
  | nil =>
    cases ht
    rw [List.append_nil]
    exact ⟨_, _, h⟩
  | cons row more ih =>
    rw [DBInsert.addRows] at ht
    split at ht
    · cases ht
    · next s' hrow =>
      obtain ⟨groups', pending', h'⟩ := h.addRow (hmore row List.mem_cons_self) hrow
      rw [List.append_cons]
      exact ih h' (fun r hr => hmore r (List.mem_cons_of_mem row hr)) ht

/-- The execution of what is left: a row that came with a flush, and alone, stays behind. -/
theorem Holds.execute (h : Holds answers query given rows groups pending s)
    (ht : execute answers s = (t, true)) :
    ∃ written : List (List Row), t.2 = given ++ written.map (statement query) ∧
      Accepted answers given (written.map (statement query)) ∧
      written.flatten = if LastFlushes rows then rows.dropLast else rows := by
  have hcount := h.rows_count
  have hmulti : ¬ s.1.m_multiLine = false := by
    rw [h.multiLine]
    decide
  by_cases hlast : LastFlushes rows
  · obtain ⟨hgroups, hone⟩ := h.lastFlushes_iff.mpr hlast
    have hzero : s.1.m_rows = 0 := by rw [hcount, if_neg hgroups, hone]
    obtain ⟨row, rfl⟩ := List.length_eq_one_iff.mp hone
    have hstays : t = s := by
      rw [DBInsert.execute] at ht
      split_ifs at ht
      · cases ht
        rfl
      · cases ht
        rfl
    refine ⟨groups, hstays ▸ h.given_eq, h.accepted, ?_⟩
    rw [if_pos hlast, ← h.rows_eq, List.dropLast_concat]
  · rw [if_neg hlast]
    by_cases hpending : pending = []
    · have hgroups : groups = [] := by_contra fun hne => h.pending_ne hne hpending
      have hempty : s.1.m_buf.length < 1 := by
        rw [h.buf_eq, hpending]
        exact Nat.one_pos
      rw [DBInsert.execute, if_pos (.inr hempty)] at ht
      cases ht
      refine ⟨groups, h.given_eq, h.accepted, ?_⟩
      rw [← h.rows_eq, hpending, List.append_nil]
    · have hpos := List.length_pos_iff.mpr hpending
      have hrows : ¬ s.1.m_rows = 0 := by
        rw [hcount]
        split_ifs with hgroups
        · omega
        · have hne : pending.length ≠ 1 := fun hone => hlast (h.lastFlushes_iff.mp ⟨hgroups, hone⟩)
          omega
      have hbuf : ¬ (s.1.m_multiLine = false ∨ s.1.m_buf.length < 1) := by
        have hle := h.pending_le
        have hlength := h.length_eq
        rintro (hfalse | hlt)
        · exact hmulti hfalse
        · omega
      have hquery : s.1.m_query ++ s.1.m_buf = statement query pending := by
        rw [h.query_eq, h.buf_eq, statement]
      rw [DBInsert.execute, if_neg hbuf, if_neg hrows, hquery] at ht
      have hanswer : answers s.2 (statement query pending) = true := congrArg Prod.snd ht
      have hgiven : t.2 = s.2 ++ [statement query pending] := (congrArg (·.1.2) ht).symm
      refine ⟨groups ++ [pending], ?_, ?_, ?_⟩
      · rw [hgiven, h.given_eq, List.map_append, List.append_assoc]
        rfl
      · rw [List.map_append, List.map_singleton, accepted_concat, ← h.given_eq]
        exact ⟨h.accepted, hanswer⟩
      · rw [List.flatten_append, List.flatten_singleton, h.rows_eq]

/-- One statement for each row. -/
theorem addRows_single (hmulti : s.1.m_multiLine = false) (hquery : s.1.m_query = query)
    (ht : addRows answers s rows = (t, true)) :
    t.1 = s.1 ∧ t.2 = s.2 ++ rows.map (fun row => statement query [row]) ∧
      Accepted answers s.2 (rows.map fun row => statement query [row]) := by
  induction rows generalizing s with
  | nil =>
    cases ht
    exact ⟨rfl, (List.append_nil _).symm, trivial⟩
  | cons row rows ih =>
    have hstatement : s.1.m_query ++ parenthesized row = statement query [row] := by
      rw [hquery, statement, values_singleton]
    have hadd : addRow answers s row = ((s.1, s.2 ++ [statement query [row]]),
        answers s.2 (statement query [row])) := by
      rw [addRow, if_pos hmulti, hstatement]
      rfl
    rw [addRows, hadd] at ht
    cases hanswer : answers s.2 (statement query [row]) with
    | false =>
      rw [hanswer] at ht
      cases ht
    | true =>
      rw [hanswer] at ht
      obtain ⟨hself, hgiven, haccepted⟩ := ih (s := (s.1, s.2 ++ [statement query [row]]))
        hmulti hquery ht
      refine ⟨hself, ?_, hanswer, haccepted⟩
      rw [hgiven, List.append_assoc]
      rfl

theorem holds_setQuery (hmulti : s.1.m_multiLine = true) :
    Holds answers query s.2 [] [] [] (setQuery s query) where
  multiLine := hmulti
  query_eq := rfl
  given_eq := (List.append_nil _).symm
  accepted := trivial
  rows_eq := rfl
  buf_eq := rfl
  length_eq := rfl
  length_lt := by decide
  pending_le := Nat.zero_le 1
  rows_count := rfl
  pending_ne hne := absurd rfl hne
  lastFlushes_iff := by
    constructor
    · exact fun hne => absurd rfl hne.1
    · exact fun hlt => absurd hlt (by decide)

/-- **An insert that reports success has written all its rows**, in their order and with statements
that the database accepted, **except for a last row that found the buffer full**. -/
theorem insert_statements (hrows : ∀ row ∈ rows, row.length < 2 ^ 30)
    (ht : insert answers s query rows = (t, true)) :
    ∃ written : List (List Row), t.2 = s.2 ++ written.map (statement query) ∧
      Accepted answers s.2 (written.map (statement query)) ∧
      written.flatten = if s.1.m_multiLine = true ∧ LastFlushes rows then rows.dropLast
        else rows := by
  rw [insert] at ht
  split at ht
  · cases ht
  next s' hadded =>
  by_cases hmulti : s.1.m_multiLine = true
  · obtain ⟨groups, pending, h⟩ := (holds_setQuery hmulti).addRows hrows hadded
    simp only [hmulti, true_and]
    exact h.execute ht
  · have hfalse : s.1.m_multiLine = false := Bool.eq_false_iff.mpr hmulti
    obtain ⟨hself, hgiven, haccepted⟩ :=
      addRows_single (s := setQuery s query) hfalse rfl hadded
    have hstays : t = s' := by
      have hoff : s'.1.m_multiLine = false := hself ▸ hfalse
      rw [execute, if_pos (.inl hoff)] at ht
      cases ht
      rfl
    refine ⟨rows.map fun row => [row], ?_, ?_, ?_⟩
    · rw [hstays, hgiven, List.map_map]
      rfl
    · rw [List.map_map]
      exact haccepted
    · rw [if_neg fun h => hmulti h.1]
      rw [← List.flatMap_def, List.flatMap_singleton']

theorem execute_accepted (hanswers : ∀ given query, answers given query = true) (s : Session) :
    ∃ t, execute answers s = (t, true) := by
  rw [execute]
  split_ifs
  · exact ⟨_, rfl⟩
  · exact ⟨_, rfl⟩
  · exact ⟨_, Prod.ext rfl (hanswers _ _)⟩

theorem addRow_accepted (hanswers : ∀ given query, answers given query = true) (s : Session)
    (row : Row) : ∃ t, addRow answers s row = (t, true) := by
  obtain ⟨s', hflush⟩ := execute_accepted hanswers (s.1.counted, s.2)
  rw [addRow]
  by_cases hmulti : s.1.m_multiLine = false
  · rw [if_pos hmulti]
    exact ⟨_, Prod.ext rfl (hanswers _ _)⟩
  rw [if_neg hmulti]
  dsimp only
  by_cases hempty : s.1.size = 0
  · rw [if_pos hempty]
    exact ⟨_, rfl⟩
  rw [if_neg hempty]
  by_cases hfull : s.1.size > 8192
  · rw [if_pos hfull, hflush]
    exact ⟨_, rfl⟩
  · rw [if_neg hfull]
    exact ⟨_, rfl⟩

theorem addRows_accepted (hanswers : ∀ given query, answers given query = true) (s : Session)
    (rows : List Row) : ∃ t, addRows answers s rows = (t, true) := by
  induction rows generalizing s with
  | nil => exact ⟨s, rfl⟩
  | cons row rows ih =>
    obtain ⟨s', hfirst⟩ := addRow_accepted hanswers s row
    rw [addRows, hfirst]
    exact ih s'

/-- A database that accepts everything makes every insert succeed. -/
theorem insert_accepted (hanswers : ∀ given query, answers given query = true) (s : Session)
    (query : List Char) (rows : List Row) : ∃ t, insert answers s query rows = (t, true) := by
  obtain ⟨s', hall⟩ := addRows_accepted hanswers (setQuery s query) rows
  rw [insert, hall]
  exact execute_accepted hanswers s'

/-- Two rows, of which the first one fills the buffer: the insert reports success, and the second
row is not written. -/
theorem insert_statements_two_rows :
    let answers : Answers := fun _ _ => true
    let rows : List Row := [List.replicate 8192 '1', ['2']]
    ∃ t, insert answers (⟨true, 0, [], []⟩, []) [] rows = (t, true) ∧
      ∃ written : List (List Row), t.2 = [] ++ written.map (statement []) ∧
        Accepted answers [] (written.map (statement [])) ∧
        written.flatten = if true = true ∧ LastFlushes rows then rows.dropLast else rows := by
  intro answers rows
  have hrows : ∀ row ∈ rows, row.length < 2 ^ 30 := by
    intro row hrow
    rcases List.mem_pair.mp hrow with rfl | rfl
    · exact List.length_replicate.trans_lt (by omega)
    · decide
  obtain ⟨t, ht⟩ := @insert_accepted answers (fun _ _ => rfl) (⟨true, 0, [], []⟩, []) [] rows
  exact ⟨t, ht, insert_statements hrows ht⟩

end DBInsert

end TyanoCore
