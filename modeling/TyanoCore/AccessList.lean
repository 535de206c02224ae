import Mathlib.Computability.RegularExpressions
import Mathlib.Data.List.DropRight
import TyanoCore.Loop
import TyanoCore.WaitingList

/-!
# The access lists of a house

Each line of a list is a player, a rank of a guild, or an expression; an expression that starts with
an exclamation mark shuts out whom it matches.  The expressions become regular expressions: what
means something in one is escaped, and the wildcards are to be replaced.
-/

namespace TyanoCore

/-! ## Texts -/

/-- `getline` until the end of the stream; a line break at the end starts no further line. -/
def getlines (text : List Char) : List (List Char) :=
  let pieces := text.splitOn '\n'
  if pieces.getLast? = some [] then pieces.dropLast else pieces

def trimLeft (source : List Char) (c : Char) : List Char := source.dropWhile (· = c)
def trimRight (source : List Char) (c : Char) : List Char := source.rdropWhile (· = c)

def trimString (source : List Char) : List Char := trimLeft (trimRight source ' ') ' '

/-- The text before the first place of a key, and the text behind it. -/
def findKey (key : List Char) : List Char → Option (List Char × List Char)
  | [] => if key = [] then some ([], []) else none
  | c :: text =>
    if key <+: c :: text then some ([], (c :: text).drop key.length)
    else (findKey key text).map fun (before, after) => (c :: before, after)

/-- `replaceString`, for the keys of one character that it is used with here: for them the rounds are
enough (`replaceLeaves_replaceString`).  Its loop for any key is that of `replaceRound`. -/
def replaceString (text key value : List Char) : List Char :=
  if key <:+: value then text
  else (Loop.run (fun text => match findKey key text with
    | some (before, after) => .inl (before ++ value ++ after)
    | none => .inr text) (text.length + 1) text).getD text

/-! ## Regular expressions -/

/-- What stands before the next character of a regular expression: nothing that can be repeated, a
backslash, a character, or something that is repeated. -/
inductive RegexState
  | start
  | escaped
  | atom (c : Char)
  | repeated (r : RegularExpression Char)

open RegularExpression in
/-- The constructor of `boost::regex`, for characters, escaped characters and the two quantifiers;
`none` when it throws. -/
def boostRegex : RegexState → List Char → Option (RegularExpression Char)
  | .start, [] => some 1
  | .start, c :: rest =>
    if c = '*' ∨ c = '?' then none
    else if c = '\\' then boostRegex .escaped rest
    else boostRegex (.atom c) rest
  | .escaped, [] => none
  | .escaped, c :: rest => boostRegex (.atom c) rest
  | .atom a, [] => some (char a)
  | .atom a, c :: rest =>
    if c = '*' then boostRegex (.repeated (star (char a))) rest
    else if c = '?' then boostRegex (.repeated (1 + char a)) rest
    else if c = '\\' then (boostRegex .escaped rest).map (char a * ·)
    else (boostRegex (.atom c) rest).map (char a * ·)
  | .repeated r, [] => some r
  | .repeated r, c :: rest =>
    -- a question mark here asks for the shortest match, and is no quantifier of its own
    if c = '?' then (boostRegex .start rest).map (r * ·)
    else if c = '*' then none
    else if c = '\\' then (boostRegex .escaped rest).map (r * ·)
    else (boostRegex (.atom c) rest).map (r * ·)

/-! ## The lists -/

/-- What the tables know of names, all in lower case: no two names are those of one player.  A rank
that does not exist has the number 0. -/
structure Directory where
  getGuidByName : List Char → Option ℕ
  getGuildId : List Char → Option ℕ
  getRankIdByName : ℕ → List Char → ℤ
  injective : ∀ name name' guid, getGuidByName name = some guid →
    getGuidByName name' = some guid → name = name'

/-- What a list asks of a player, who is known by his name. -/
structure Visitor (d : Directory) where
  name : List Char
  guid : ℕ
  guildId : ℕ
  rankId : ℤ
  known : d.getGuidByName (asLowerCaseString name) = some guid
  /-- A name is passed on as a C string. -/
  no_nul : Char.ofNat 0 ∉ name

structure AccessList where
  list : List Char
  playerList : List ℕ
  guildList : List (ℕ × ℤ)
  expressionList : List (List Char)
  regExList : List (RegularExpression Char × Bool)

namespace AccessList

variable (d : Directory)

def empty (list : List Char) : AccessList :=
  { list, playerList := [], guildList := [], expressionList := [], regExList := [] }

def addPlayer (l : AccessList) (name : List Char) : AccessList :=
  match d.getGuidByName name with
  | none => l
  | some guid =>
    if guid ∈ l.playerList then l else { l with playerList := l.playerList ++ [guid] }

def addGuild (l : AccessList) (guildName rankName : List Char) : AccessList :=
  match d.getGuildId guildName with
  | none => l
  | some guildId =>
    let rankId := d.getRankIdByName guildId rankName
    let rankId :=
      if rankId = 0 ∧ ('?' ∉ rankName ∨ '!' ∉ rankName ∨ '*' ∉ rankName) then -1 else rankId
    if rankId = 0 then l
    else if (guildId, rankId) ∈ l.guildList then l
    else { l with guildList := l.guildList ++ [(guildId, rankId)] }

def metachars : List Char := ".[\x7b\x7d()\\+|^$".toList

def escape (expression : List Char) : List Char :=
  expression.flatMap fun c => if c ∈ metachars then ['\\', c] else [c]

/-- Lines are compared character by character. -/
instance lawfulBEq_line : LawfulBEq (List Char) := inferInstance

def addExpression (l : AccessList) (expression : List Char) : AccessList :=
  if expression ∈ l.expressionList then l
  else
    let outExp := escape expression
    let outExp := replaceString outExp "*".toList ".*".toList
    let outExp := replaceString outExp "?".toList ".?".toList
    if 0 < outExp.length then
      let l := { l with expressionList := l.expressionList ++ [outExp] }
      if outExp.take 1 = "!".toList then
        if 1 < outExp.length then
          match boostRegex .start (outExp.drop 1) with
          | some regex => { l with regExList := (regex, false) :: l.regExList }
          -- the exception is caught
          | none => l
        else l
      else
        match boostRegex .start outExp with
        | some regex => { l with regExList := l.regExList ++ [(regex, true)] }
        | none => l
    else l

/-- The text of a line without its blanks, in lower case. -/
def cleaned (line : List Char) : List Char :=
  let line := trimString line
  let line := trimLeft line '\t'
  let line := trimRight line '\t'
  asLowerCaseString (trimString line)

/-- A line that is skipped: a comment, or one that is too long. -/
def Skipped (line : List Char) : Prop := line.take 1 = "#".toList ∨ 100 < line.length

instance : DecidablePred Skipped := fun _ => inferInstanceAs (Decidable (_ ∨ _))

def addLine (l : AccessList) (line : List Char) : AccessList :=
  if '@' ∈ line then
    addGuild d l ((line.dropWhile (· ≠ '@')).drop 1) (line.takeWhile (· ≠ '@'))
  else if '!' ∈ line ∨ '*' ∈ line ∨ '?' ∈ line then l.addExpression line
  else addPlayer d l line

/-- The lines of a list that count. -/
def listLines (list : List Char) : List (List Char) :=
  ((getlines list).map cleaned).filter fun line => ¬Skipped line

def parseList (list : List Char) : AccessList :=
  if list = [] then empty list
  else (listLines list).foldl (addLine d) (empty list)

def isInList {d : Directory} (l : AccessList) (player : Visitor d) : Bool :=
  let name := asLowerCaseString player.name
  match l.regExList.find? fun entry => entry.1.rmatch name with
  | some entry => entry.2
  | none =>
    player.guid ∈ l.playerList ||
      l.guildList.any fun entry =>
        entry.1 = player.guildId && (entry.2 = player.rankId || entry.2 = -1)

end AccessList

end TyanoCore
