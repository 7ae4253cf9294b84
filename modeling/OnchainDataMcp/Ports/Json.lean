import OnchainDataMcp.Config.Edit

/-!
# Reading and printing JSON

How the code reads a `serde_json::Value` it was given: indexing something missing, or something of
another shape, gives `null`, and a value of another type reads as nothing.
-/

namespace OnchainDataMcp.Config

namespace Json

/-! ### Reading -/

/-- `Value::get` with a key. -/
def get : Json → String → Option Json
  | object fields, k => fields.lookup k
  | _, _ => none

/-- `v["k"]`. -/
def field (v : Json) (k : String) : Json := (v.get k).getD .null

/-- `v[i]`. -/
def item (v : Json) (i : ℕ) : Json :=
  match v with
  | array items => (items[i]?).getD .null
  | _ => .null

def isNull : Json → Bool
  | null => true
  | _ => false

def isObject : Json → Bool
  | object _ => true
  | _ => false

def asStr : Json → Option String
  | string s => some s
  | _ => none

/-- `as_u64`. -/
def asU64 : Json → Option ℕ
  | number (some n) _ => if 0 ≤ n then some n.toNat else none
  | number none text =>
    let digits := text.toList
    if digits.isEmpty ∨ !digits.all Char.isDigit then none
    else if Nat.ofDigitChars 10 digits 0 < 2 ^ 64 then some (Nat.ofDigitChars 10 digits 0)
    else none
  | _ => none

def asArray : Json → Option (List Json)
  | array items => some items
  | _ => none

@[simp] theorem field_object (fields : List (String × Json)) (k : String) :
    (object fields).field k = (fields.lookup k).getD .null := rfl

@[simp] theorem item_array (items : List Json) (i : ℕ) :
    (array items).item i = (items[i]?).getD .null := rfl

@[simp] theorem field_null (k : String) : null.field k = null := rfl

@[simp] theorem item_null (i : ℕ) : null.item i = null := rfl

theorem isNull_iff {v : Json} : v.isNull = true ↔ v = .null := by
  cases v <;> simp [isNull]

theorem asStr_eq_some_iff {v : Json} {s : String} : v.asStr = some s ↔ v = .string s := by
  cases v <;> simp [asStr]

/-! ### Printing -/

/-- A character inside a printed string. -/
def escape (c : Char) : String :=
  if c.toNat = 34 then "\\\""
  else if c.toNat = 92 then "\\\\"
  else if c.toNat = 8 then "\\b"
  else if c.toNat = 9 then "\\t"
  else if c.toNat = 10 then "\\n"
  else if c.toNat = 12 then "\\f"
  else if c.toNat = 13 then "\\r"
  else if c.toNat < 32 then
    "\\u00" ++ String.ofList [Nat.digitChar (c.toNat / 16), Nat.digitChar (c.toNat % 16)]
  else c.toString

def quoted (s : String) : String := "\"" ++ String.join (s.toList.map escape) ++ "\""

mutual

/-- The compact text of a value, without spaces. -/
def text : Json → String
  | null => "null"
  | bool b => toString b
  | number _ text => text
  | string s => quoted s
  | array items => "[" ++ ",".intercalate (textItems items) ++ "]"
  | object fields => "\x7b" ++ ",".intercalate (textFields fields) ++ "\x7d"

def textItems : List Json → List String
  | [] => []
  | v :: vs => text v :: textItems vs

def textFields : List (String × Json) → List String
  | [] => []
  | (k, v) :: fs => (quoted k ++ ":" ++ text v) :: textFields fs

end

/-! ### Changing -/

/-- Put an entry in an object, whose entries are in the order of their keys. -/
def insertKey (k : String) (v : Json) : List (String × Json) → List (String × Json)
  | [] => [(k, v)]
  | (k', v') :: rest =>
    if k < k' then (k, v) :: (k', v') :: rest
    else if k = k' then (k, v) :: rest
    else (k', v') :: insertKey k v rest

end Json

end OnchainDataMcp.Config
