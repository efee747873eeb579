import ScriptBridge.Script.Numeral

/-!
# ScriptBridge.Script.Pattern

Patterns over byte strings.  A pattern is a sequence of items: a class of bytes with an optional
repetition, a capture, a balanced pair, a frontier, or a capture that was made before.  Matching
is by backtracking and goes through the pattern from left to right, so that a count of the
pattern's bytes bounds it.
-/

namespace ScriptBridge.Script.Pattern

/-- How long a capture is. -/
inductive Extent where
  /-- It is the position itself. -/
  | position
  | unfinished
  | length (n : Nat)
  deriving DecidableEq, Inhabited

/-- A part of the subject. -/
structure Capture where
  start : Nat
  extent : Extent
  deriving DecidableEq, Inhabited

/-- What a match leaves: where it ends and the captures, the first first. -/
abbrev Found := Option (Nat × Array Capture)

abbrev Attempt := Except String Found

/-- What is matched against what. -/
structure Problem where
  subject : Bytes
  pattern : Bytes

/-- The most captures a pattern can have, and how deep matching nests. -/
def maxCaptures : Nat := 32

def maxDepth : Nat := 200

/-- The byte `%`, which takes the meaning from a special byte or gives one to a letter. -/
def escape : UInt8 := 0x25

/-! ## Classes -/

/-- Whether a byte is in the class of a letter; a capital letter stands for the complement. -/
def inNamedClass (c class' : UInt8) : Bool :=
  let isPrint := 0x20 ≤ c && c < 0x7f
  let isAlnum := isLetter c || isDigit c
  let positive : Option Bool :=
    match Char.ofNat (class'.toNat ||| 0x20) with
    | 'a' => some (isLetter c)
    | 'c' => some (c < 0x20 || c == 0x7f)
    | 'd' => some (isDigit c)
    | 'g' => some (isPrint && c != 0x20)
    | 'l' => some (0x61 ≤ c && c ≤ 0x7a)
    | 'p' => some (isPrint && c != 0x20 && !isAlnum)
    | 's' => some (isSpace c)
    | 'u' => some (0x41 ≤ c && c ≤ 0x5a)
    | 'w' => some isAlnum
    | 'x' => some (hexDigit? c).isSome
    | _ => none
  match positive with
  | some b => if isLetter class' then b != (class' < 0x61) else class' == c
  | none => class' == c

/-- The end of a set in brackets, searched from `i` on. -/
def setEnd (p : Bytes) : (fuel i : Nat) → Except String Nat
  | 0, _ => .error "malformed pattern (missing ']')"
  | fuel + 1, i =>
    match p[i]? with
    | none => .error "malformed pattern (missing ']')"
    | some c =>
      let next := if c == escape then i + 2 else i + 1
      if p[next]? == some 0x5d then .ok (next + 1) else setEnd p fuel next

/-- The end of the class that begins at `i`. -/
def classEnd (p : Bytes) (i : Nat) : Except String Nat :=
  match p[i]? with
  | some 0x5b =>
    let first := if p[i + 1]? == some 0x5e then i + 2 else i + 1
    setEnd p (p.size + 1) first
  | some c =>
    if c == escape then
      if i + 1 < p.size then .ok (i + 2) else .error "malformed pattern (ends with '%')"
    else .ok (i + 1)
  | none => .ok (i + 1)

/-- Whether a byte is among the items of a set from `i` to the bracket at `last`. -/
def inSetFrom (p : Bytes) (c : UInt8) (last : Nat) : (fuel i : Nat) → Bool
  | 0, _ => false
  | fuel + 1, i =>
    if last ≤ i then false
    else
      let b := p[i]?.getD 0
      if b == escape then
        inNamedClass c (p[i + 1]?.getD 0) || inSetFrom p c last fuel (i + 2)
      else if p[i + 1]? == some 0x2d && i + 2 < last then
        (b ≤ c && c ≤ p[i + 2]?.getD 0) || inSetFrom p c last fuel (i + 3)
      else b == c || inSetFrom p c last fuel (i + 1)

/-- Whether a byte is in the set between the brackets at `first` and `last`. -/
def inSet (p : Bytes) (c : UInt8) (first last : Nat) : Bool :=
  if p[first + 1]? == some 0x5e then !inSetFrom p c last (p.size + 1) (first + 2)
  else inSetFrom p c last (p.size + 1) (first + 1)

/-- Whether the byte at `s` is in the class between `i` and `next`. -/
def single (q : Problem) (s i next : Nat) : Bool :=
  match q.subject[s]? with
  | none => false
  | some c =>
    match q.pattern[i]? with
    | some 0x2e => true
    | some 0x5b => inSet q.pattern c i (next - 1)
    | some b => if b == escape then inNamedClass c (q.pattern[i + 1]?.getD 0) else b == c
    | none => false

/-! ## Matching -/

/-- The end of a balanced pair that begins at `s`, where `opened` pairs are open. -/
def balanced (q : Problem) (opening closing : UInt8) : (fuel s opened : Nat) → Option Nat
  | 0, _, _ => none
  | fuel + 1, s, opened =>
    match q.subject[s]? with
    | none => none
    | some c =>
      if c == closing then
        if opened = 1 then some (s + 1) else balanced q opening closing fuel (s + 1) (opened - 1)
      else if c == opening then balanced q opening closing fuel (s + 1) (opened + 1)
      else balanced q opening closing fuel (s + 1) opened

/-- How many bytes from `s` on are in a class. -/
def run (q : Problem) (i next : Nat) : (fuel s : Nat) → Nat
  | 0, _ => 0
  | fuel + 1, s => if single q s i next then run q i next fuel (s + 1) + 1 else 0

/-- Tries the longest repetition first. -/
def longest (continue' : Nat → Attempt) (s : Nat) : (count : Nat) → Attempt
  | 0 => continue' s
  | count + 1 => do
    match ← continue' (s + count + 1) with
    | some r => return some r
    | none => longest continue' s count

/-- Tries the shortest repetition first. -/
def shortest (q : Problem) (i next : Nat) (continue' : Nat → Attempt) :
    (fuel s : Nat) → Attempt
  | 0, _ => .ok none
  | fuel + 1, s => do
    match ← continue' s with
    | some r => return some r
    | none => if single q s i next then shortest q i next continue' fuel (s + 1) else return none

/-- The capture opened last and not closed. -/
def openCapture? (caps : Array Capture) : Option Nat :=
  ((List.range caps.size).reverse).find? fun k => (caps.getD k default).extent = .unfinished

/-- Whether the subject has the same bytes at `s` as from `start` on. -/
def repeats (q : Problem) (start s : Nat) : (count : Nat) → Bool
  | 0 => true
  | count + 1 => q.subject[start]? == q.subject[s]? && repeats q (start + 1) (s + 1) count

/-- Matches the pattern from `i` on at `s`; `depth` nested attempts are left. -/
def matchFrom (q : Problem) : (fuel depth s i : Nat) → Array Capture → Attempt
  | 0, _, s, _, caps => .ok (some (s, caps))
  | fuel + 1, depth, s, i, caps =>
    let p := q.pattern
    let go (s i : Nat) (caps : Array Capture) : Attempt := matchFrom q fuel depth s i caps
    let nest (s i : Nat) (caps : Array Capture) : Attempt :=
      match depth with
      | 0 => .error "pattern too complex"
      | depth + 1 => matchFrom q fuel depth s i caps
    let item (_ : Unit) : Attempt := do
      let next ← classEnd p i
      let suffix := p[next]?.getD 0
      if !single q s i next then
        if suffix == 0x2a || suffix == 0x3f || suffix == 0x2d then go s (next + 1) caps
        else return none
      else if suffix == 0x3f then
        match ← nest (s + 1) (next + 1) caps with
        | some r => return some r
        | none => go s (next + 1) caps
      else if suffix == 0x2b || suffix == 0x2a then
        let first := if suffix == 0x2b then s + 1 else s
        let count := run q i next (q.subject.size + 1) first
        longest (fun s => nest s (next + 1) caps) first count
      else if suffix == 0x2d then
        shortest q i next (fun s => nest s (next + 1) caps) (q.subject.size + 2) s
      else go (s + 1) next caps
    match p[i]? with
    | none => .ok (some (s, caps))
    | some 0x28 =>
      if maxCaptures ≤ caps.size then .error "too many captures"
      else if p[i + 1]? == some 0x29 then nest s (i + 2) (caps.push ⟨s, .position⟩)
      else nest s (i + 1) (caps.push ⟨s, .unfinished⟩)
    | some 0x29 =>
      match openCapture? caps with
      | none => .error "invalid pattern capture"
      | some k =>
        nest s (i + 1) (caps.modify k fun c => { c with extent := .length (s - c.start) })
    | some 0x24 =>
      if i + 1 = p.size then .ok (if s = q.subject.size then some (s, caps) else none)
      else item ()
    | some c =>
      if c != escape then item ()
      else
        match p[i + 1]? with
        | some 0x62 =>
          match p[i + 2]?, p[i + 3]? with
          | some opening, some closing =>
            if q.subject[s]? == some opening then
              match balanced q opening closing (q.subject.size + 1) (s + 1) 1 with
              | some s => go s (i + 4) caps
              | none => .ok none
            else .ok none
          | _, _ => .error "malformed pattern (missing arguments to '%b')"
        | some 0x66 =>
          if p[i + 2]? != some 0x5b then .error "missing '[' after '%f' in pattern"
          else do
            let next ← classEnd p (i + 2)
            let before := if s = 0 then 0 else q.subject[s - 1]?.getD 0
            let here := q.subject[s]?.getD 0
            if !inSet p before (i + 2) (next - 1) && inSet p here (i + 2) (next - 1) then
              go s next caps
            else return none
        | some d =>
          if isDigit d then
            let k := d.toNat - 0x31
            let made :=
              if d == 0x30 then none
              else
                match caps[k]? with
                | some ⟨start, .length n⟩ => some (start, n)
                | some ⟨start, .position⟩ => some (start, 0)
                | _ => none
            match made with
            | none => .error ("invalid capture index %" ++ toString (d.toNat - 0x30))
            | some (start, n) =>
              if n ≤ q.subject.size - s && repeats q start s n then go (s + n) (i + 2) caps
              else .ok none
          else item ()
        | none => item ()

/-- Matches the whole pattern at `s`. -/
def matchAt (q : Problem) (s : Nat) : Attempt :=
  matchFrom q (q.pattern.size + 1) (maxDepth - 1) s 0 #[]

/-- The value of a capture. -/
def Capture.value (q : Problem) (c : Capture) : Except String Value :=
  match c.extent with
  | .position => .ok (.int (Int64.ofNat (c.start + 1)))
  | .unfinished => .error "unfinished capture"
  | .length n => .ok (.str (q.subject.extract c.start (c.start + n)))

/-- The values of a match: its captures, or the whole of it if it has none. -/
def values (q : Problem) (start stop : Nat) (caps : Array Capture) : Except String (List Value) :=
  if caps.isEmpty then .ok [.str (q.subject.extract start stop)]
  else caps.toList.mapM (Capture.value q)

/-- The first match that begins at `s` or later and does not end where the last match did: its
values and its end. -/
def search (q : Problem) (lastEnd : Option Nat) :
    (fuel s : Nat) → Except String (Option (List Value × Nat))
  | 0, _ => .ok none
  | fuel + 1, s => do
    match ← matchAt q s with
    | some (stop, caps) =>
      if lastEnd = some stop then search q lastEnd fuel (s + 1)
      else return some (← values q s stop caps, stop)
    | none => search q lastEnd fuel (s + 1)

/-- The next match from a position on. -/
def next (q : Problem) (position : Nat) (lastEnd : Option Nat) :
    Except String (Option (List Value × Nat)) :=
  search q lastEnd (q.subject.size + 1 - position) position

end ScriptBridge.Script.Pattern
