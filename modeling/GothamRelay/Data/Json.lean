import Mathlib.Tactic.Common

namespace GothamRelay.Data

/-! JSON values and the accessors of a value that may have another shape. -/

inductive Json where
  | null
  | bool (value : Bool)
  | number (text : String)
  | string (text : String)
  | array (items : List Json)
  | object (fields : List (String × Json))

namespace Json

/-- Of members with the same name the last one counts. -/
def get (key : String) : Json → Option Json
  | .object fields => fields.reverse.lookup key
  | _ => none

def asArray : Json → Option (List Json)
  | .array items => some items
  | _ => none

def asStr : Json → Option String
  | .string text => some text
  | _ => none

def asBool : Json → Option Bool
  | .bool value => some value
  | _ => none

theorem asArray_eq_some_iff {value : Json} {items : List Json} :
    value.asArray = some items ↔ value = .array items := by
  cases value <;> simp [asArray]

theorem asStr_eq_some_iff {value : Json} {text : String} :
    value.asStr = some text ↔ value = .string text := by
  cases value <;> simp [asStr]

end Json

/-! A reader of JSON texts without blanks, numbers and escapes, with which a
model that takes its parser as an argument can be run. -/

def readString : List Char → Option (List Char × List Char)
  | [] => none
  | '"' :: rest => some ([], rest)
  | char :: rest =>
      (readString rest).map fun read => (char :: read.1, read.2)

mutual

def readValue : Nat → List Char → Option (Json × List Char)
  | 0, _ => none
  | fuel + 1, text =>
      match text with
      | '"' :: rest =>
          (readString rest).map fun read =>
            (.string (String.ofList read.1), read.2)
      | '[' :: ']' :: rest => some (.array [], rest)
      | '[' :: rest =>
          (readItems fuel rest).map fun read => (.array read.1, read.2)
      | '\x7b' :: '\x7d' :: rest => some (.object [], rest)
      | '\x7b' :: rest =>
          (readFields fuel rest).map fun read => (.object read.1, read.2)
      | 'n' :: 'u' :: 'l' :: 'l' :: rest => some (.null, rest)
      | 't' :: 'r' :: 'u' :: 'e' :: rest => some (.bool true, rest)
      | 'f' :: 'a' :: 'l' :: 's' :: 'e' :: rest => some (.bool false, rest)
      | _ => none

def readItems : Nat → List Char → Option (List Json × List Char)
  | 0, _ => none
  | fuel + 1, text =>
      match readValue fuel text with
      | some (item, ',' :: rest) =>
          (readItems fuel rest).map fun read => (item :: read.1, read.2)
      | some (item, ']' :: rest) => some ([item], rest)
      | _ => none

def readFields : Nat → List Char → Option (List (String × Json) × List Char)
  | 0, _ => none
  | fuel + 1, text =>
      match text with
      | '"' :: rest =>
          match readString rest with
          | some (key, ':' :: rest) =>
              match readValue fuel rest with
              | some (value, ',' :: rest) =>
                  (readFields fuel rest).map fun read =>
                    ((String.ofList key, value) :: read.1, read.2)
              | some (value, '\x7d' :: rest) =>
                  some ([(String.ofList key, value)], rest)
              | _ => none
          | _ => none
      | _ => none

end

def readChars (text : List Char) : Option Json :=
  match readValue text.length text with
  | some (value, []) => some value
  | _ => none

def readJson (text : String) : Option Json :=
  readChars text.toList

theorem readJson_ofList (text : List Char) :
    readJson (String.ofList text) = readChars text := by
  rw [readJson, String.toList_ofList]

end GothamRelay.Data
