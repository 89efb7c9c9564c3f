/-
# Documents in classes

The body of a `json` block is structured data.  It is kept as a tree of texts: every number, truth
value and null is the text that is drawn for it.  A body that cannot be read is one text.
-/
import UmlDraw.Data.Json
import UmlDraw.Number.Decimal

namespace UmlDraw
namespace Class

/-- A document. -/
inductive Document where
  | object (entries : List (String × Document))
  | array (items : List Document)
  | scalar (text : String)

namespace Document

/-- The text of a number: an integer in full, a double with the fewest digits that read back. -/
def numberText : Number → String
  | .int n => String.ofList (Decimal.integer n)
  | x => String.ofList (Decimal.plain x.toDouble)

mutual

/-- The document of a value. -/
def ofJson : Json → Document
  | .null => scalar "null"
  | .bool b => scalar (if b then "true" else "false")
  | .number n => scalar (numberText n)
  | .string s => scalar s
  | .array items => array (ofItems items)
  | .object entries => object (ofEntries entries)

/-- The documents of values. -/
def ofItems : List Json → List Document
  | [] => []
  | v :: rest => ofJson v :: ofItems rest

/-- The documents of the values of an object. -/
def ofEntries : List (String × Json) → List (String × Document)
  | [] => []
  | (key, v) :: rest => (key, ofJson v) :: ofEntries rest

end

/-- The document that a text writes; a text that cannot be read stands for itself. -/
def read (text : List Char) : Document :=
  let s := Chars.trim text
  match Json.read? s with
  | some v => ofJson v
  | none => scalar (String.ofList s)

/-- The text of a scalar. -/
def text? : Document → Option String
  | scalar s => some s
  | _ => none

/-- A key as it is drawn. -/
def keyLabel (key : String) : String :=
  "\"" ++ key ++ "\":"

mutual

/-- The rows in which a document is drawn, each with its depth. -/
def rows (depth : Nat) : Document → List (String × Nat)
  | object entries => entryRows depth entries
  | array items => itemRows depth items
  | scalar s => [(s, depth)]

/-- The rows of the entries of an object. -/
def entryRows (depth : Nat) : List (String × Document) → List (String × Nat)
  | [] => []
  | (key, v) :: rest =>
    (match v with
    | scalar s => [(keyLabel key ++ " " ++ s, depth)]
    | v => (keyLabel key, depth) :: rows (depth + 1) v) ++ entryRows depth rest

/-- The rows of the items of a list. -/
def itemRows (depth : Nat) : List Document → List (String × Nat)
  | [] => []
  | v :: rest =>
    (match v with
    | scalar s => [("- " ++ s, depth)]
    | v => ("-", depth) :: rows (depth + 1) v) ++ itemRows depth rest

end

end Document
end Class
end UmlDraw
