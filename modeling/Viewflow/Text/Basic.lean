namespace Viewflow.Text

def joined (separator : String) : List String → String
  | [] => ""
  | [part] => part
  | part :: rest => part ++ separator ++ joined separator rest

def isIdentifierChar (c : Char) : Bool := c.isAlphanum || c == '_'

def identifierChars (cs : List Char) : List Char :=
  let safe := cs.map fun c => if isIdentifierChar c then c else '_'
  match safe with
  | [] => []
  | c :: _ => if c.isDigit then '_' :: safe else safe

-- Anything but a letter, digit or underscore of ASCII becomes an underscore; a leading digit gets
-- one in front.
def identifier (s : String) : String := String.ofList (identifierChars s.toList)

def isBlank (c : Char) : Bool :=
  c == ' ' || (0x9 ≤ c.toNat && c.toNat ≤ 0xD) || c.toNat == 0x85 || c.toNat == 0xA0 ||
    c.toNat == 0x1680 || (0x2000 ≤ c.toNat && c.toNat ≤ 0x200A) || c.toNat == 0x2028 ||
    c.toNat == 0x2029 || c.toNat == 0x202F || c.toNat == 0x205F || c.toNat == 0x3000

def trimStart (cs : List Char) : List Char := cs.dropWhile isBlank

def trimEnd : List Char → List Char
  | [] => []
  | c :: rest =>
    match trimEnd rest with
    | [] => if isBlank c then [] else [c]
    | kept => c :: kept

def trim (cs : List Char) : List Char := trimEnd (trimStart cs)

def hexDigit (n : Nat) : Char := "0123456789abcdef".toList.getD n '0'

-- Quote and backslash are escaped, and every character below U+0020; all else stands for itself.
def escapeChar (c : Char) : List Char :=
  if c = '"' then ['\\', '"']
  else if c = '\\' then ['\\', '\\']
  else if c = '\x08' then ['\\', 'b']
  else if c = '\x0C' then ['\\', 'f']
  else if c = '\n' then ['\\', 'n']
  else if c = '\r' then ['\\', 'r']
  else if c = '\t' then ['\\', 't']
  else if c.toNat < 0x20 then
    ['\\', 'u', '0', '0', hexDigit (c.toNat / 16), hexDigit (c.toNat % 16)]
  else [c]

def quoteChars (cs : List Char) : List Char := '"' :: (cs.flatMap escapeChar ++ ['"'])

def quote (s : String) : String := String.ofList (quoteChars s.toList)

end Viewflow.Text
