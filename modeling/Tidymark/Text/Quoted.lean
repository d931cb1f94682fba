import Tidymark.Text.Printable

/-! # Quoted text

A text between double quotes on one line, with every character that would not show written as
an escape. -/
namespace Tidymark.Text

/-- Lower-case hexadecimal digits without leading zeros. -/
def hex (n : Nat) : String := String.ofList (Nat.toDigits 16 n)

def quoteChar : Char → String
  | '"' => "\\\""
  | '\\' => "\\\\"
  | '\n' => "\\n"
  | '\r' => "\\r"
  | '\t' => "\\t"
  | '\x00' => "\\0"
  | c => if isPrintable c then c.toString else "\\u\x7b" ++ hex c.toNat ++ "\x7d"

def quote (t : List Char) : String := "\"" ++ String.join (t.map quoteChar) ++ "\""

end Tidymark.Text
