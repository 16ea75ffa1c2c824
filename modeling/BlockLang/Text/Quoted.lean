import BlockLang.Text.ShownTable

/-!
A character as a message shows it.
-/

namespace BlockLang.Text

def hex (n : Nat) : String :=
  String.ofList (Nat.toDigits 16 n)

-- The character between quotes. The quote and the backslash are escaped, and so is every character
-- that would not show as itself.
def quoted (c : Char) : String :=
  "'" ++ shown ++ "'"
where
  -- What stands between the quotes.
  shown : String :=
    if c = '\x00' then "\\0"
    else if c = '\t' then "\\t"
    else if c = '\r' then "\\r"
    else if c = '\n' then "\\n"
    else if c = '\'' then "\\'"
    else if c = '\\' then "\\\\"
    else if extendingRanges.has c || unprintableRanges.has c then
      "\\u\x7b" ++ hex c.toNat ++ "\x7d"
    else c.toString

end BlockLang.Text
