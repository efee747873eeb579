import ScriptBridge.Text.Hidden

/-!
# ScriptBridge.Text.Quoted

Texts in double quotes.  Quotes, backslashes and characters that do not show by themselves are
written as escapes, so that every text has a written form that can be told apart by eye.
-/

namespace ScriptBridge.Text

/-- How a character is written between quotes. -/
def escaped (c : Char) : String :=
  if c = '\x00' then "\\0"
  else if c = '\t' then "\\t"
  else if c = '\r' then "\\r"
  else if c = '\n' then "\\n"
  else if c = '"' then "\\\""
  else if c = '\\' then "\\\\"
  else if isHidden c then
    "\\u\x7b" ++ String.ofList (Nat.toDigits 16 c.toNat) ++ "\x7d"
  else c.toString

/-- A text in quotes. -/
def quoted (s : String) : String := "\"" ++ String.join (s.toList.map escaped) ++ "\""

end ScriptBridge.Text
