import HazardFlow.Text.Shown

/-!
# Quoted text

Text in double quotes. The quote, the backslash and four control characters are written with a
backslash, every other character that does not show is written by its code.
-/

namespace HazardFlow.Text

/-- A character as quoted text writes it. -/
def quoteChar (c : Char) : String :=
  if c = Char.ofNat 0 then "\\0"
  else if c = '\t' then "\\t"
  else if c = '\r' then "\\r"
  else if c = '\n' then "\\n"
  else if c = '\"' then "\\\""
  else if c = '\\' then "\\\\"
  else if isShown c then c.toString
  else "\\u\x7b" ++ String.ofList (Nat.toDigits 16 c.toNat) ++ "\x7d"

/-- The text in double quotes. -/
def quote (s : String) : String := "\"" ++ String.join (s.toList.map quoteChar) ++ "\""

end HazardFlow.Text
