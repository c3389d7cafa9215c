import ScriptGraph.Text.LowerCase

/-!
# Reserved words

A bare token that is a reserved word is never an alias and never the name of a referenced object.
Some names look like calls of a function without ever being an object of the database.
-/

namespace ScriptGraph

/-- The reserved words, in lower case. -/
def reservedWords : List String := [
  "add", "all", "alter", "and", "any", "apply", "as", "asc", "begin", "between", "break", "by",
  "cascade", "case", "check", "close", "clustered", "collate", "column", "commit", "constraint",
  "contains", "containstable", "continue", "create", "cross", "cursor", "declare", "default",
  "delete", "deny", "desc", "distinct", "drop", "else", "end", "except", "exec", "execute",
  "exists", "fetch", "for", "foreign", "freetext", "freetexttable", "from", "full", "function",
  "go", "goto", "grant", "group", "having", "identity", "if", "in", "index", "inner", "insert",
  "intersect", "into", "is", "join", "key", "left", "like", "merge", "nonclustered", "not", "null",
  "of", "on", "open", "option", "or", "order", "outer", "output", "over", "partition", "pivot",
  "primary", "print", "procedure", "raiserror", "references", "return", "returns", "revoke",
  "right", "rollback", "select", "set", "table", "tablesample", "then", "throw", "top", "tran",
  "transaction", "trigger", "truncate", "union", "unique", "unpivot", "update", "using", "values",
  "view", "waitfor", "when", "where", "while", "with"]

/-- Forms and aggregates of the language that are written like calls, in lower case. -/
def callForms : List String := [
  "avg", "cast", "coalesce", "convert", "count", "count_big", "dense_rank", "iif", "isnull", "max",
  "min", "nullif", "rank", "row_number", "sum", "try_cast", "try_convert"]

/-- Whether a token is a reserved word, in any case. -/
def isReserved (token : List Char) : Bool :=
  reservedWords.contains (String.ofList (Text.lower token))

/-- Whether a token, written before a parenthesis, is never a function of the database. -/
def isNeverCalled (token : List Char) : Bool :=
  let word := String.ofList (Text.lower token)
  reservedWords.contains word || callForms.contains word

end ScriptGraph
