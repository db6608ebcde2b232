import PragmaticDB.Query.Value

/-!
Statements and their parser. The parser reads its input through a `std::istringstream`: a
failed extraction leaves the string variable with what it held before.
-/
namespace PragmaticDB
open ByteStream

inductive Statement where
  | createTable (tableName : List UInt8) (columns : List Column)
  | insert (tableName : List UInt8) (rawValues : List (List UInt8))
  | select (tableName : List UInt8)
  | commit
  | delete (tableName whereColumn whereValue : List UInt8)
  deriving DecidableEq

/-- `ss >> s`: the next token, if there is one. A token that ends the input ends the stream. -/
def extract (ss : InStream) : Option (List UInt8) × InStream :=
  if ss.good then
    let rest := ss.rest.dropWhile isSpace
    if rest = [] then (none, ⟨[], false⟩)
    else
      let tail := rest.dropWhile fun c => !isSpace c
      (some (rest.takeWhile fun c => !isSpace c), ⟨tail, tail ≠ []⟩)
  else (none, ss)

/-- `ss >> keyword` and the conversion of `keyword` to upper case. -/
def extractUpper (old : List UInt8) (ss : InStream) : List UInt8 × InStream :=
  let (word, ss) := extract ss
  (upper (word.getD old), ss)

/-- `std::getline` into an empty string. -/
def getLine (ss : InStream) : List UInt8 :=
  if ss.good then ss.rest.takeWhile (· ≠ 10) else []

/-- Brackets, commas and semicolons become blanks. -/
def blankPunctuation (s : List UInt8) : List UInt8 :=
  s.map fun c => if c = 40 ∨ c = 41 ∨ c = 44 ∨ c = 59 then 32 else c

/-- `pop_back` of a `;` at the end. -/
def stripSemicolon (s : List UInt8) : List UInt8 :=
  if s.getLast? = some 59 then s.dropLast else s

namespace Parser

/-- `while (col_ss >> col_name >> type_str)`. -/
def readColumns : ℕ → InStream → List Column
  | 0, _ => []
  | fuel + 1, ss =>
    match extract ss with
    | (none, _) => []
    | (some name, ss) =>
      match extract ss with
      | (none, _) => []
      | (some type, ss) =>
        ⟨name, if upper type = str "BOOLEAN" then .boolean else .integer⟩ :: readColumns fuel ss

/-- `while (val_ss >> val)`. -/
def readValues : ℕ → InStream → List (List UInt8)
  | 0, _ => []
  | fuel + 1, ss =>
    match extract ss with
    | (none, _) => []
    | (some val, ss) => val :: readValues fuel ss

def parseCreate (ss : InStream) : Option Statement :=
  let (keyword, ss) := extractUpper [] ss
  if keyword ≠ str "TABLE" then none
  else
    let (tableName, ss) := extract ss
    let rest := blankPunctuation (getLine ss)
    some (.createTable (tableName.getD []) (readColumns (rest.length + 1) (.ofBytes rest)))

def parseInsert (ss : InStream) : Option Statement :=
  let (keyword, ss) := extractUpper [] ss
  if keyword ≠ str "INTO" then none
  else
    let (tableName, ss) := extract ss
    let (keyword, ss) := extractUpper keyword ss
    if keyword ≠ str "VALUES" then none
    else
      let rest := blankPunctuation (getLine ss)
      some (.insert (tableName.getD []) (readValues (rest.length + 1) (.ofBytes rest)))

def parseSelect (ss : InStream) : Option Statement :=
  let (star, ss) := extract ss
  if star ≠ some (str "*") then none
  else
    let (keyword, ss) := extractUpper (str "*") ss
    if keyword ≠ str "FROM" then none
    else some (.select (stripSemicolon ((extract ss).1.getD [])))

/-- The optional `WHERE <col> = <val>`. -/
def parseWhere (ss : InStream) : List UInt8 × List UInt8 :=
  match extract ss with
  | (none, _) => ([], [])
  | (some keyword, ss) =>
    if upper keyword ≠ str "WHERE" then ([], [])
    else
      let (col, ss) := extract ss
      let (eq, ss) := extract ss
      let (val, _) := extract ss
      match col, eq, val with
      | some col, some _, some val => (col, stripSemicolon val)
      | _, _, _ => ([], [])

def parseDelete (ss : InStream) : Option Statement :=
  let (keyword, ss) := extractUpper [] ss
  if keyword ≠ str "FROM" then none
  else
    let (tableName, ss) := extract ss
    let (col, val) := parseWhere ss
    some (.delete (stripSemicolon (tableName.getD [])) col val)

/-- `none` is the null pointer. -/
def parse (sql : List UInt8) : Option Statement :=
  let (keyword, ss) := extractUpper [] (.ofBytes sql)
  if keyword = str "CREATE" then parseCreate ss
  else if keyword = str "INSERT" then parseInsert ss
  else if keyword = str "SELECT" then parseSelect ss
  else if keyword = str "COMMIT" then some .commit
  else if keyword = str "DELETE" then parseDelete ss
  else none

example : parse (str "Delete FROM users where id = 7;") =
    some (.delete (str "users") (str "id") (str "7")) := by decide

end Parser
end PragmaticDB
