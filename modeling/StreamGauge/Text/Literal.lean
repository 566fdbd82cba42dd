import StreamGauge.Text.Hex
import StreamGauge.Text.Shapeless

/-!
# String literals

`literal` writes a text in double quotes. Quotes, backslashes and the usual controls are escaped
by a letter, every other character that does not show as itself by its code point in braces.
-/

namespace StreamGauge

/-- A character inside a literal. -/
def literalChar (c : Char) : String :=
  match c with
  | '\x00' => "\\0"
  | '\t' => "\\t"
  | '\r' => "\\r"
  | '\n' => "\\n"
  | '"' => "\\\""
  | '\\' => "\\\\"
  | c => if showsAsItself c then c.toString else "\\u\x7b" ++ hexTextShort c.toNat ++ "\x7d"

/-- A text as a string literal. -/
def literal (s : String) : String := "\"" ++ String.join (s.toList.map literalChar) ++ "\""

end StreamGauge
