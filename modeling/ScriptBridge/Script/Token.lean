import ScriptBridge.Script.Numeral

/-!
# ScriptBridge.Script.Token

Tokens of the script language, and the reader of the next one (`Token.read`).  A token keeps
the bytes it was read from, because errors quote them.
-/

namespace ScriptBridge.Script

open scoped CoreInstances

inductive Keyword where
  | and | break | do | else | elseif | end | false | for | function | goto | if | in
  | local | nil | not | or | repeat | return | then | true | until | while
  deriving DecidableEq, Repr

namespace Keyword

def text : Keyword → String
  | .and => "and" | .break => "break" | .do => "do" | .else => "else" | .elseif => "elseif"
  | .end => "end" | .false => "false" | .for => "for" | .function => "function"
  | .goto => "goto" | .if => "if" | .in => "in" | .local => "local" | .nil => "nil"
  | .not => "not" | .or => "or" | .repeat => "repeat" | .return => "return"
  | .then => "then" | .true => "true" | .until => "until" | .while => "while"

def all : List Keyword :=
  [.and, .break, .do, .else, .elseif, .end, .false, .for, .function, .goto, .if, .in, .local,
    .nil, .not, .or, .repeat, .return, .then, .true, .until, .while]

/-- Keywords with their bytes. -/
def table : List (List UInt8 × Keyword) := all.map fun k => ((bytes k.text).toList, k)

def ofBytes? (s : List UInt8) : Option Keyword := (table.find? fun e => e.1 == s).map (·.2)

end Keyword

/-- Operators and punctuation. -/
inductive Symbol where
  | plus | minus | star | slash | slash2 | percent | caret | hash | amp | tilde | bar
  | shiftLeft | shiftRight | eq | ne | le | ge | lt | gt | assign
  | parenOpen | parenClose | braceOpen | braceClose | bracketOpen | bracketClose
  | colon2 | semicolon | colon | comma | dot | dot2 | dot3
  deriving DecidableEq, Repr

def Symbol.text : Symbol → String
  | .plus => "+" | .minus => "-" | .star => "*" | .slash => "/" | .slash2 => "//"
  | .percent => "%" | .caret => "^" | .hash => "#" | .amp => "&" | .tilde => "~" | .bar => "|"
  | .shiftLeft => "<<" | .shiftRight => ">>" | .eq => "==" | .ne => "~=" | .le => "<="
  | .ge => ">=" | .lt => "<" | .gt => ">" | .assign => "=" | .parenOpen => "("
  | .parenClose => ")" | .braceOpen => "\x7b" | .braceClose => "\x7d" | .bracketOpen => "["
  | .bracketClose => "]" | .colon2 => "::" | .semicolon => ";" | .colon => ":"
  | .comma => "," | .dot => "." | .dot2 => ".." | .dot3 => "..."

inductive Token where
  | eof
  | name (s : Bytes)
  | string (s : Bytes)
  | number (v : Value)
  | keyword (k : Keyword)
  | symbol (s : Symbol)
  /-- A byte that starts no token. -/
  | stray (b : UInt8)
  deriving DecidableEq, Inhabited

/-- An error in the text of a script: the line, what is wrong, and what stands there.  Text
nested too deeply is refused without a line. -/
structure SyntaxError where
  line : Option Nat
  what : Bytes
  near : Option Bytes

/-- A token, the bytes read for it, the rest of the text, and the line it ends on. -/
structure Lexeme where
  token : Token
  text : List UInt8
  rest : List UInt8
  line : Nat

namespace Token

/-- How errors show a single byte. -/
def strayText (b : UInt8) : Bytes :=
  if 0x20 ≤ b && b < 0x7f then bytes "'" ++ ⟨#[b]⟩ ++ bytes "'"
  else bytes s!"'<\\{b.toNat}>'"

def quoted (s : List UInt8) : Bytes := bytes "'" ++ ⟨s.toArray⟩ ++ bytes "'"

/-- How errors name a token that was expected. -/
def expectedText : Token → Bytes
  | .eof => bytes "<eof>"
  | .name _ => bytes "<name>"
  | .string _ => bytes "<string>"
  | .number _ => bytes "<number>"
  | .keyword k => bytes s!"'{k.text}'"
  | .symbol s => bytes s!"'{s.text}'"
  | .stray b => strayText b

end Token

/-- How errors quote the token they stopped at. -/
def Lexeme.nearText (l : Lexeme) : Bytes :=
  match l.token with
  | .name _ | .string _ | .number _ => Token.quoted l.text
  | t => t.expectedText

namespace Token

abbrev Result (α : Type) := Except SyntaxError α

def fail {α : Type} (line : Nat) (what : String) (near : Bytes) : Result α :=
  .error ⟨some line, bytes what, some near⟩

def isNewline (b : UInt8) : Bool := b == 0x0a || b == 0x0d

/-- The text after a line break; two different line-break bytes count as one. -/
def afterNewline (first : UInt8) : List UInt8 → List UInt8
  | b :: rest => if isNewline b && b != first then rest else b :: rest
  | [] => []

/-- The level of a long bracket whose first bracket was read: the number of equals signs, if
another bracket follows them, and the text after that. -/
def longLevel (bracket : UInt8) (s : List UInt8) : Option (Nat × List UInt8) :=
  let marks := s.takeWhile (· == 0x3d)
  match s.drop marks.length with
  | b :: rest => if b == bracket then some (marks.length, rest) else none
  | [] => none

/-- The text of a long bracket up to its closing bracket, reversed; line breaks become a
single line feed. -/
def longBody (level opened : Nat) (kind : String) :
    (fuel : Nat) → List UInt8 → (line : Nat) → List UInt8 → Result (List UInt8 × List UInt8 × Nat)
  | 0, _, line, _ => fail line s!"unfinished long {kind} (starting at line {opened})" (bytes "<eof>")
  | _ + 1, [], line, _ =>
    fail line s!"unfinished long {kind} (starting at line {opened})" (bytes "<eof>")
  | fuel + 1, b :: rest, line, acc =>
    if isNewline b then
      longBody level opened kind fuel (afterNewline b rest) (line + 1) (0x0a :: acc)
    else if b == 0x5d then
      match longLevel 0x5d rest with
      | some (n, after) =>
        if n = level then .ok (acc, after, line)
        else longBody level opened kind fuel rest line (b :: acc)
      | none => longBody level opened kind fuel rest line (b :: acc)
    else longBody level opened kind fuel rest line (b :: acc)

/-- A long bracket after its opening; a line break right there is left out. -/
def long (kind : String) (level fuel : Nat) (s : List UInt8) (line : Nat) :
    Result (List UInt8 × List UInt8 × Nat) :=
  match s with
  | b :: rest =>
    if isNewline b then longBody level line kind fuel (afterNewline b rest) (line + 1) []
    else longBody level line kind fuel s line []
  | [] => longBody level line kind fuel [] line []

/-- The bytes of a code point of up to thirty-one bits. -/
def encodeUtf8 (c : Nat) : List UInt8 :=
  let tail (shift : Nat) : UInt8 := UInt8.ofNat (0x80 + c / 2 ^ shift % 64)
  if c < 0x80 then [UInt8.ofNat c]
  else if c < 0x800 then [UInt8.ofNat (0xc0 + c / 2 ^ 6), tail 0]
  else if c < 0x10000 then [UInt8.ofNat (0xe0 + c / 2 ^ 12), tail 6, tail 0]
  else if c < 0x200000 then [UInt8.ofNat (0xf0 + c / 2 ^ 18), tail 12, tail 6, tail 0]
  else if c < 0x4000000 then
    [UInt8.ofNat (0xf8 + c / 2 ^ 24), tail 18, tail 12, tail 6, tail 0]
  else [UInt8.ofNat (0xfc + c / 2 ^ 30), tail 24, tail 18, tail 12, tail 6, tail 0]

/-- A bad escape quotes the string as read so far, the escape, and one byte more. -/
def badEscape {α : Type} (line : Nat) (what : String) (acc escape rest : List UInt8) : Result α :=
  .error ⟨some line, bytes what, some (quoted (acc.reverse ++ escape ++ rest.take 1))⟩

/-- The escape after a backslash: the bytes it stands for, the rest, and the line. -/
def escape (acc : List UInt8) (line : Nat) : List UInt8 → Result (List UInt8 × List UInt8 × Nat)
  | [] => .ok ([], [], line)
  | b :: rest =>
    match b with
    | 0x61 => .ok ([0x07], rest, line)
    | 0x62 => .ok ([0x08], rest, line)
    | 0x66 => .ok ([0x0c], rest, line)
    | 0x6e => .ok ([0x0a], rest, line)
    | 0x72 => .ok ([0x0d], rest, line)
    | 0x74 => .ok ([0x09], rest, line)
    | 0x76 => .ok ([0x0b], rest, line)
    | 0x5c => .ok ([0x5c], rest, line)
    | 0x22 => .ok ([0x22], rest, line)
    | 0x27 => .ok ([0x27], rest, line)
    | 0x0a => .ok ([0x0a], afterNewline b rest, line + 1)
    | 0x0d => .ok ([0x0a], afterNewline b rest, line + 1)
    | 0x7a =>
      -- skips white space, counting the lines in it
      let blank := rest.takeWhile isSpace
      .ok ([], rest.drop blank.length, line + breaks blank)
    | 0x78 =>
      match rest with
      | h :: more =>
        match hexDigit? h with
        | none => badEscape line "hexadecimal digit expected" acc [0x5c, 0x78] rest
        | some high =>
          match more with
          | l :: after =>
            match hexDigit? l with
            | none => badEscape line "hexadecimal digit expected" acc [0x5c, 0x78, h] more
            | some low => .ok ([UInt8.ofNat (high * 16 + low)], after, line)
          | [] => badEscape line "hexadecimal digit expected" acc [0x5c, 0x78, h] []
      | [] => badEscape line "hexadecimal digit expected" acc [0x5c, 0x78] []
    | 0x75 =>
      match rest with
      | 0x7b :: more =>
        let ds := more.takeWhile fun d => (hexDigit? d).isSome
        let after := more.drop ds.length
        let shown := [0x5c, 0x75, 0x7b]
        if ds.isEmpty then badEscape line "hexadecimal digit expected" acc shown more
        else
          match tooLarge ds 0 0 with
          | some n => badEscape line "UTF-8 value too large" acc (shown ++ ds.take n) (ds.drop n)
          | none =>
            match after with
            | 0x7d :: after => .ok (encodeUtf8 (value ds), after, line)
            | after => badEscape line "missing '\x7d'" acc (shown ++ ds) after
      | rest => badEscape line "missing '\x7b'" acc [0x5c, 0x75] rest
    | _ =>
      if isDigit b then
        let ds := (b :: rest).takeWhile isDigit |>.take 3
        let after := (b :: rest).drop ds.length
        let n := ds.foldl (fun n d => n * 10 + (d.toNat - 0x30)) 0
        if 255 < n then badEscape line "decimal escape too large" acc (0x5c :: ds) after
        else .ok ([UInt8.ofNat n], after, line)
      else badEscape line "invalid escape sequence" acc [0x5c] (b :: rest)
where
  /-- Line breaks in white space. -/
  breaks : List UInt8 → Nat
    | 0x0d :: 0x0a :: rest => breaks rest + 1
    | 0x0a :: 0x0d :: rest => breaks rest + 1
    | b :: rest => breaks rest + (if isNewline b then 1 else 0)
    | [] => 0
  value (ds : List UInt8) : Nat := ds.foldl (fun n d => n * 16 + (hexDigit? d).getD 0) 0
  /-- The number of digits at which a code point leaves thirty-one bits. -/
  tooLarge : List UInt8 → Nat → Nat → Option Nat
    | [], _, _ => none
    | d :: ds, n, count =>
      let n := n * 16 + (hexDigit? d).getD 0
      if 2 ^ 31 ≤ n then some count else tooLarge ds n (count + 1)

/-- The rest of a quoted string, read into reversed bytes that start with the quote. -/
def quotedBody (quote : UInt8) :
    (fuel : Nat) → List UInt8 → (line : Nat) → List UInt8 → Result (List UInt8 × List UInt8 × Nat)
  | 0, _, line, acc => fail line "unfinished string" (quoted acc.reverse)
  | _ + 1, [], line, _ => fail line "unfinished string" (bytes "<eof>")
  | fuel + 1, b :: rest, line, acc =>
    if b == quote then .ok (b :: acc, rest, line)
    else if isNewline b then fail line "unfinished string" (quoted acc.reverse)
    else if b == 0x5c then
      match escape acc line rest with
      | .error e => .error e
      | .ok (out, rest, line) => quotedBody quote fuel rest line (out.reverse ++ acc)
    else quotedBody quote fuel rest line (b :: acc)

/-- The longest run of bytes that could belong to a numeral. -/
def numeralRun (exponentMark : UInt8 → Bool) :
    (fuel : Nat) → List UInt8 → List UInt8 → List UInt8 × List UInt8
  | 0, s, acc => (acc.reverse, s)
  | _ + 1, [], acc => (acc.reverse, [])
  | fuel + 1, b :: rest, acc =>
    if exponentMark b then
      match rest with
      | s :: more =>
        if s == 0x2b || s == 0x2d then numeralRun exponentMark fuel more (s :: b :: acc)
        else numeralRun exponentMark fuel rest (b :: acc)
      | [] => ((b :: acc).reverse, [])
    else if (hexDigit? b).isSome || b == 0x2e then numeralRun exponentMark fuel rest (b :: acc)
    else if isNameStart b then ((b :: acc).reverse, rest)
    else (acc.reverse, b :: rest)

/-- A numeral that starts with a digit or a point. -/
def numeral (fuel : Nat) (s : List UInt8) (line : Nat) : Result Lexeme :=
  let isHex := match s with
    | 0x30 :: x :: _ => x == 0x78 || x == 0x58
    | _ => false
  let mark (b : UInt8) : Bool :=
    if isHex then b == 0x70 || b == 0x50 else b == 0x65 || b == 0x45
  let (run, rest) :=
    if isHex then numeralRun mark fuel (s.drop 2) (s.take 2).reverse
    else numeralRun mark fuel s []
  match Numeral.read run with
  | some v => .ok ⟨.number v, run, rest, line⟩
  | none => fail line "malformed number" (quoted run)

/-- The symbol at the head of a text, the longest that fits. -/
def symbol? : List UInt8 → Option (Symbol × List UInt8)
  | 0x2e :: 0x2e :: 0x2e :: r => some (.dot3, r)
  | 0x2e :: 0x2e :: r => some (.dot2, r)
  | 0x2e :: r => some (.dot, r)
  | 0x3d :: 0x3d :: r => some (.eq, r)
  | 0x3d :: r => some (.assign, r)
  | 0x3c :: 0x3d :: r => some (.le, r)
  | 0x3c :: 0x3c :: r => some (.shiftLeft, r)
  | 0x3c :: r => some (.lt, r)
  | 0x3e :: 0x3d :: r => some (.ge, r)
  | 0x3e :: 0x3e :: r => some (.shiftRight, r)
  | 0x3e :: r => some (.gt, r)
  | 0x2f :: 0x2f :: r => some (.slash2, r)
  | 0x2f :: r => some (.slash, r)
  | 0x7e :: 0x3d :: r => some (.ne, r)
  | 0x7e :: r => some (.tilde, r)
  | 0x3a :: 0x3a :: r => some (.colon2, r)
  | 0x3a :: r => some (.colon, r)
  | 0x2b :: r => some (.plus, r)
  | 0x2d :: r => some (.minus, r)
  | 0x2a :: r => some (.star, r)
  | 0x25 :: r => some (.percent, r)
  | 0x5e :: r => some (.caret, r)
  | 0x23 :: r => some (.hash, r)
  | 0x26 :: r => some (.amp, r)
  | 0x7c :: r => some (.bar, r)
  | 0x28 :: r => some (.parenOpen, r)
  | 0x29 :: r => some (.parenClose, r)
  | 0x7b :: r => some (.braceOpen, r)
  | 0x7d :: r => some (.braceClose, r)
  | 0x5b :: r => some (.bracketOpen, r)
  | 0x5d :: r => some (.bracketClose, r)
  | 0x3b :: r => some (.semicolon, r)
  | 0x2c :: r => some (.comma, r)
  | _ => none

/-- The next token of a text, after white space and comments.  The fuel is the length of the
whole text. -/
def read (length : Nat) : (fuel : Nat) → List UInt8 → (line : Nat) → Result Lexeme
  | 0, s, line => .ok ⟨.eof, [], s, line⟩
  | _ + 1, [], line => .ok ⟨.eof, [], [], line⟩
  | fuel + 1, b :: rest, line =>
    if isNewline b then read length fuel (afterNewline b rest) (line + 1)
    else if isSpace b then read length fuel rest line
    else if b == 0x2d then
      match rest with
      | 0x2d :: more =>
        -- a comment: a long bracket, or the rest of the line
        let longComment := match more with
          | 0x5b :: inner => longLevel 0x5b inner
          | _ => none
        match longComment with
        | some (level, inner) =>
          match long "comment" level length inner line with
          | .error e => .error e
          | .ok (_, rest, line) => read length fuel rest line
        | none => read length fuel (more.dropWhile fun b => !isNewline b) line
      | _ => .ok ⟨.symbol .minus, [b], rest, line⟩
    else if b == 0x5b then
      match longLevel 0x5b rest with
      | some (level, inner) =>
        match long "string" level length inner line with
        | .error e => .error e
        | .ok (body, rest, line) =>
          let marks := List.replicate level 0x3d
          let text := 0x5b :: marks ++ 0x5b :: body.reverse ++ 0x5d :: marks ++ [0x5d]
          .ok ⟨.string ⟨body.reverse.toArray⟩, text, rest, line⟩
      | none =>
        match rest with
        | 0x3d :: _ =>
          let marks := rest.takeWhile (· == 0x3d)
          fail line "invalid long string delimiter" (quoted (b :: marks))
        | _ => .ok ⟨.symbol .bracketOpen, [b], rest, line⟩
    else if b == 0x22 || b == 0x27 then
      match quotedBody b length rest line [b] with
      | .error e => .error e
      | .ok (acc, rest, line) =>
        let text := acc.reverse
        .ok ⟨.string ⟨((text.drop 1).dropLast).toArray⟩, text, rest, line⟩
    else if isDigit b || (b == 0x2e && (rest.head?.any isDigit)) then
      numeral length (b :: rest) line
    else if isNameStart b then
      let word := (b :: rest).takeWhile isNamePart
      let after := (b :: rest).drop word.length
      match Keyword.ofBytes? word with
      | some k => .ok ⟨.keyword k, word, after, line⟩
      | none => .ok ⟨.name ⟨word.toArray⟩, word, after, line⟩
    else
      match symbol? (b :: rest) with
      | some (s, after) => .ok ⟨.symbol s, [b], after, line⟩
      | none => .ok ⟨.stray b, [b], rest, line⟩

end Token

end ScriptBridge.Script
