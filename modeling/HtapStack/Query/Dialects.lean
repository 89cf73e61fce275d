import HtapStack.Compare.InFlight
import HtapStack.Lib.Regex
/-!
# One statement, five dialects

From the statement of a request to the statement issued to each engine, in
`backend/app/routes/query.py`: `_validate` accepts a single read-only statement,
and each engine's dialect then names the tables its own way, takes `ALLOW
FILTERING` away and sees to the limit. A text is a list of characters.
-/

namespace HtapStack.Query
open Py Compare

structure HTTPException where
  statusCode : Nat
  detail : List Char
  deriving DecidableEq, Repr

def writeKeywords : List (List Char) :=
  ["INSERT", "UPDATE", "DELETE", "DROP", "CREATE", "ALTER", "TRUNCATE", "GRANT", "REVOKE"].map String.toList

def demoTables : List (List Char) :=
  ["drone_latest_status", "drone_events_by_entity", "drone_text_embeddings", "alerts_by_bucket", "ingestion_counts",
    "restricted_zones", "events"].map String.toList

/-- `\b(INSERT|…)\b` -/
def writeKeywordRe : Re :=
  .seq .boundary (.seq (.group "1" (.anyOf (writeKeywords.map .text))) .boundary)

/-- `\s*ALLOW\s+FILTERING\s*` -/
def allowFilteringRe : Re :=
  .seq (.many isSpace) (.seq (.text "ALLOW".toList)
    (.seq (.many1 isSpace) (.seq (.text "FILTERING".toList) (.many isSpace))))

/-- `\s+LIMIT\s+\d+\s*$` -/
def limitRe (u : Unicode) : Re :=
  .seq (.many1 isSpace) (.seq (.text "LIMIT".toList)
    (.seq (.many1 isSpace) (.seq (.many1 fun c => (u.digit c).isSome) (.seq (.many isSpace) .atEnd))))

/-- `(?P<lead>\b(?:FROM|JOIN)\s+)(?:demo\.)?(?P<table>…)\b` -/
def tableReferenceRe : Re :=
  .seq (.group "lead" (.seq .boundary (.seq (.anyOf (["FROM".toList, "JOIN".toList].map .text)) (.many1 isSpace))))
    (.seq (.opt (.text "demo.".toList)) (.seq (.group "table" (.anyOf (demoTables.map .text))) .boundary))

variable (u : Unicode)

/-- `s.upper()`. -/
def upper (s : List Char) : List Char := s.flatMap u.upper

def rewriteTables (sql pre : List Char) : List Char :=
  tableReferenceRe.sub u.isWord (fun m => m.group "lead" ++ pre ++ m.group "table") sql

def validate (sql : List Char) : Except HTTPException (List Char) :=
  let statement := strip (rstrip (strip sql) ';')
  if statement = [] then .error ⟨400, "Empty query".toList⟩
  else if ';' ∈ statement then .error ⟨400, "Only a single statement is allowed".toList⟩
  else if !("SELECT".toList.isPrefixOf (upper u statement)) then
    .error ⟨400, "Only SELECT queries are allowed".toList⟩
  else
    match writeKeywordRe.search u.isWord statement with
    | some forbidden =>
      .error ⟨400, "Forbidden keyword in a read-only console: ".toList ++ upper u (forbidden.group "1")⟩
    | none => .ok statement

def stripLimit (sql : List Char) : List Char := strip ((limitRe u).sub u.isWord (fun _ => []) sql)

def hasLimit (sql : List Char) : Bool := ((limitRe u).search u.isWord sql).isSome

/-- `_ALLOW_FILTERING_RE.sub(" ", sql).strip()`, with which every dialect begins. -/
def withoutAllowFiltering (sql : List Char) : List Char :=
  strip (allowFilteringRe.sub u.isWord (fun _ => [' ']) sql)

/-- ` LIMIT {limit}` -/
def limitClause (limit : Nat) : List Char := " LIMIT ".toList ++ (toString limit).toList

def sqlForCassandra (sql : List Char) (limit : Nat) : List Char :=
  let statement := stripLimit u (withoutAllowFiltering u sql)
  rewriteTables u statement [] ++ limitClause limit ++ " ALLOW FILTERING".toList

/-- The four dialects that keep a limit and differ in the tables' names. -/
def sqlWithTables (pre sql : List Char) (limit : Nat) : List Char :=
  let statement := rewriteTables u (withoutAllowFiltering u sql) pre
  if hasLimit u statement then statement else statement ++ limitClause limit

def sqlForPresto : List Char → Nat → List Char := sqlWithTables u "demo.".toList

def sqlForSpark : List Char → Nat → List Char := sqlWithTables u []

/-- `BULK_VIEW_PREFIX` -/
def bulkViewPrefix : List Char := "bulk_".toList

def sqlForSparkBulk : List Char → Nat → List Char := sqlWithTables u bulkViewPrefix

def sqlForCqlite : List Char → Nat → List Char := sqlWithTables u []

/-- The dialect of an engine in `ENGINES`, by which `_run` makes the statement it issues. -/
def dialect : Engine → List Char → Nat → List Char
  | .cassandra => sqlForCassandra u
  | .presto => sqlForPresto u
  | .spark => sqlForSpark u
  | .sparkBulk => sqlForSparkBulk u
  | .cqlite => sqlForCqlite u

example : dialect .ascii .presto "SELECT * FROM demo.events ALLOW FILTERING".toList 10 =
    "SELECT * FROM demo.events LIMIT 10".toList := by decide

end HtapStack.Query
