import EventMachines.Value.Basic

/-!
The text of a value: its fields in order, nothing between the tokens, and escapes only where a
string needs them.
-/

namespace EventMachines.Value

def hexDigit (n : Nat) : Char :=
  if n < 10 then Char.ofNat (48 + n) else Char.ofNat (87 + n)

/-- Quotes, backslashes and control characters are escaped, with a letter where they have one. -/
def escape (c : Char) : List Char :=
  if c = '"' then ['\\', '"']
  else if c = '\\' then ['\\', '\\']
  else if c = '\x08' then ['\\', 'b']
  else if c = '\t' then ['\\', 't']
  else if c = '\n' then ['\\', 'n']
  else if c = '\x0c' then ['\\', 'f']
  else if c = '\r' then ['\\', 'r']
  else if c.toNat < 32 then
    ['\\', 'u', '0', '0', hexDigit (c.toNat / 16), hexDigit (c.toNat % 16)]
  else [c]

def quoted (s : String) : String :=
  "\"" ++ String.ofList (s.toList.flatMap escape) ++ "\""

mutual

def spell : Value → String
  | null => "null"
  | bool true => "true"
  | bool false => "false"
  | int n => toString n
  | str s => quoted s
  | arr items => "[" ++ ",".intercalate (spellItems items) ++ "]"
  | obj fields => "\x7b" ++ ",".intercalate (spellFields fields) ++ "\x7d"

def spellItems : List Value → List String
  | [] => []
  | v :: rest => v.spell :: spellItems rest

def spellFields : Fields → List String
  | [] => []
  | (k, v) :: rest => (quoted k ++ ":" ++ v.spell) :: spellFields rest

end

def text (v : Value) : String := v.canonical.spell

end EventMachines.Value
