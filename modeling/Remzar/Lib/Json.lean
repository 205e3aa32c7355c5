import Mathlib.Tactic.Common
import Remzar.Lib.Text

/-! Compact JSON texts, as bytes: what a serializer writes for each kind of value. -/
namespace Json
open Text

def null : List UInt8 := utf8 "null"

def bool (b : Bool) : List UInt8 := utf8 (if b then "true" else "false")

def number (n : ℕ) : List UInt8 := utf8 (String.ofList (Nat.toDigits 10 n))

def hexByte (n : ℕ) : UInt8 := UInt8.ofNat (Nat.digitChar n).toNat

/-- The control characters with a short escape keep it. -/
def escapeControl (b : UInt8) : List UInt8 :=
  if b = 0x08 then utf8 "\\b"
  else if b = 0x09 then utf8 "\\t"
  else if b = 0x0A then utf8 "\\n"
  else if b = 0x0C then utf8 "\\f"
  else if b = 0x0D then utf8 "\\r"
  else utf8 "\\u00" ++ [hexByte (b.toNat/16), hexByte (b.toNat%16)]

/-- Quotes, backslashes and the control characters are escaped, all other bytes copied. -/
def escape (b : UInt8) : List UInt8 :=
  if b.toNat < 0x20 then escapeControl b
  else if b.toNat = 0x22 then [0x5C, 0x22]
  else if b.toNat = 0x5C then [0x5C, 0x5C]
  else [b]

def string (s : String) : List UInt8 := 0x22 :: ((utf8 s).flatMap escape ++ [0x22])

def array (items : List (List UInt8)) : List UInt8 :=
  0x5B :: (List.intercalate [0x2C] items ++ [0x5D])

def object (fields : List (String × List UInt8)) : List UInt8 :=
  0x7B :: (List.intercalate [0x2C] (fields.map fun f => string f.1 ++ 0x3A :: f.2) ++ [0x7D])

def option {α : Type} (value : α → List UInt8) : Option α → List UInt8
  | some a => value a
  | none => null

end Json
