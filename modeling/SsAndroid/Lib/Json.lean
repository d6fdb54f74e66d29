import SsAndroid.Lib.LinkedMap
import SsAndroid.Lib.Number

/-!
# JSON values

A JSON document as a value: what a writer builds and what a reader takes apart.  The text in
between is not modelled, so a number is kept as its literal and the entries of an object are in the
order of the text, each key once.

`Gson` is the part of the reading library that turns elements into texts and integers.  Only its
behaviour on string elements and on the literals of 32-bit integers is fixed.
-/

namespace SsAndroid

inductive Json
  | null
  | bool (b : Bool)
  | num (literal : Text)
  | str (s : Text)
  | arr (elements : List Json)
  | obj (entries : List (String × Json))

namespace Json

/-- `is JsonPrimitive`. -/
def isPrimitive : Json → Bool
  | .bool _ => true
  | .num _ => true
  | .str _ => true
  | _ => false

/-- An integer as a JSON number. -/
def ofInt (n : Int) : Json := .num (Number.ofInt n)

/-- The object under construction as an element. -/
def ofMap (m : LinkedMap String Json) : Json := .obj m.entries

end Json

/-- `JsonPrimitive.asString`, `JsonPrimitive.asInt` (`none`: a `NumberFormatException`) and
`JsonElement.toString`. -/
structure Gson where
  asString : Json → Text
  asInt : Json → Option Int
  toString : Json → Text
  asString_str : ∀ s, asString (.str s) = s
  asInt_ofInt : ∀ n : Int, -2 ^ 31 ≤ n → n < 2 ^ 31 → asInt (.ofInt n) = some n

namespace Gson

def literal : Json → Text
  | .null => "null".toList
  | .bool b => if b then "true".toList else "false".toList
  | .num literal => literal
  | .str s => s
  | _ => []

/-- A reader that knows integers only in decimal notation and writes elements that need no
escaping. -/
def plain : Gson where
  asString := literal
  asInt j := Number.parseInt (literal j)
  toString j :=
    match j with
    | .str s => ['"'] ++ s ++ ['"']
    | j => literal j
  asString_str _ := rfl
  asInt_ofInt _ hlo hhi := Number.parseInteger_ofInt hlo hhi

end Gson

end SsAndroid
