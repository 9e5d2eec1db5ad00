import SortNetwork.Text.Escaped

/-!
# SortNetwork.Text.Quoted

Text in double quotes, as messages show a name somebody typed.

The quote, the backslash and the usual control characters have short escapes, every other character that
could mislead a reader is shown by number (`isEscaped`), and the rest stands as it is.  In particular the
apostrophe and printable characters outside ASCII stay.
-/

namespace SortNetwork.Text

/-- The number of a character in lower-case hexadecimal, without leading zeros. -/
def hexNumber (c : Char) : String := String.ofList (Nat.toDigits 16 c.toNat)

/-- One character as it stands between quotes. -/
def quotedChar (c : Char) : String :=
  match c with
  | '"' => "\\\""
  | '\\' => "\\\\"
  | '\n' => "\\n"
  | '\r' => "\\r"
  | '\t' => "\\t"
  | '\x00' => "\\0"
  | c => if isEscaped c then "\\u\x7b" ++ hexNumber c ++ "\x7d" else String.singleton c

/-- The text between double quotes, with escapes. -/
def quoted (text : String) : String :=
  "\"" ++ String.join (text.toList.map quotedChar) ++ "\""

end SortNetwork.Text
