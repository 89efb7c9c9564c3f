/-
# Written patterns

A pattern is written with signs.  Most characters stand for themselves; others repeat what stands
before them, separate alternatives, or enclose sets and groups, and a backslash gives the character
behind it a special meaning or takes it away.  `Pattern.read` reads a written pattern.
-/
import UmlDraw.Number.Reading
import UmlDraw.Pattern.Basic

namespace UmlDraw
namespace Pattern

/-- Why a written pattern cannot be read. -/
inductive Error where
  /-- The signs do not form a pattern. -/
  | malformed
  /-- The number of repetitions is too large. -/
  | number (e : NumberError)
deriving DecidableEq, Repr

/-- A sign: a character, with or without a backslash before it. -/
inductive Sign where
  | plain (c : Char)
  | escaped (c : Char)
deriving DecidableEq, Repr

/-- The signs of a text.  A backslash at the end is none. -/
def signs : List Char → Except Error (List Sign)
  | [] => .ok []
  | ['\\'] => .error .malformed
  | '\\' :: c :: s => (signs s).map (.escaped c :: ·)
  | c :: s => (signs s).map (.plain c :: ·)

/-- The state between two signs. -/
structure Reader where
  /-- The signs that are left. -/
  rest : List Sign
  /-- The number of groups so far. -/
  count : Nat := 0
  /-- The names of groups so far. -/
  names : List (String × Nat) := []
  /-- The groups that are closed, with the least and the greatest number of characters that they
  read. -/
  closed : List (Nat × Nat × Option Nat) := []
  /-- The number of groups before the outermost look back that is open. -/
  lookback : Option Nat := none
  /-- The greatest number of a group on which something depends. -/
  needed : Nat := 0
  /-- A look back reads no fixed number of characters. -/
  isVague : Bool := false

/-- Readers of parts of patterns. -/
abbrev Read := StateT Reader (Except Error)

namespace Read

variable {α : Type}

/-- The signs do not form a pattern. -/
def fail : Read α :=
  throw .malformed

/-- The value, if there is one. -/
def orFail (a : Option α) : Read α :=
  match a with
  | some a => pure a
  | none => fail

/-- The next sign, if one is left. -/
def peek : Read (Option Sign) := do
  let r ← get
  pure r.rest.head?

/-- Takes the next sign. -/
def next : Read Sign := do
  let r ← get
  match r.rest with
  | [] => fail
  | t :: rest =>
    set { r with rest := rest }
    pure t

/-- Takes the next sign, if it is the given character. -/
def accept (c : Char) : Read Bool := do
  let r ← get
  match r.rest with
  | t :: rest =>
    if t = .plain c then
      set { r with rest := rest }
      pure true
    else pure false
  | [] => pure false

/-- Takes a sign that must be the given character. -/
def expect (c : Char) : Read Unit := do
  if ← accept c then pure () else fail

/-- The characters of a class at the front of some signs, at most so many, and the rest. -/
def spanSigns (p : Char → Bool) : Nat → List Sign → List Char × List Sign
  | n + 1, .plain c :: rest =>
    if p c then
      let (cs, rest) := spanSigns p n rest
      (c :: cs, rest)
    else ([], .plain c :: rest)
  | _, rest => ([], rest)

/-- Takes at most so many characters of a class. -/
def upTo (p : Char → Bool) (most : Nat) : Read (List Char) := do
  let r ← get
  let (cs, rest) := spanSigns p most r.rest
  set { r with rest := rest }
  pure cs

/-- Takes all characters of a class. -/
def all (p : Char → Bool) : Read (List Char) := do
  let r ← get
  upTo p r.rest.length

/-- Takes the characters before a closing one, which is taken too. -/
def before (stop : Char) : Read (List Char) := do
  let cs ← all (· != stop)
  expect stop
  pure cs

/-- Skips all signs before a character. -/
def skipTo (stop : Char) : Read Unit :=
  modify fun r => { r with rest := r.rest.dropWhile (· != .plain stop) }

end Read

/-- The value of a digit of a number system with sixteen digits. -/
def hexValue (c : Char) : Nat :=
  if c.isDigit then c.toNat - 48 else c.toLower.toNat - 87

/-- A digit of a number system with sixteen digits. -/
def isHex (c : Char) : Bool :=
  c.isDigit || ('a' ≤ c.toLower && c.toLower ≤ 'f')

/-- A digit of a number system with eight digits. -/
def isOctal (c : Char) : Bool :=
  '0' ≤ c && c ≤ '7'

/-- The number that digits stand for in a number system. -/
def valueOf (base : Nat) (ds : List Char) : Nat :=
  ds.foldl (fun n c => base * n + hexValue c) 0

/-- The character with a code. -/
def Item.ofCode (n : Nat) : Item :=
  if n.isValidChar then .char (Char.ofNat n) else .range n n

/-- The characters that have signs of their own among those that cannot be seen. -/
def control? : Char → Option Char
  | 'a' => some '\x07'
  | 'f' => some '\x0c'
  | 'n' => some '\n'
  | 'r' => some '\r'
  | 't' => some '\t'
  | 'v' => some '\x0b'
  | '\\' => some '\\'
  | _ => none

/-- The classes of characters that have signs of their own. -/
def class? : Char → Option Item
  | 'd' => some (.kind .digit false)
  | 'D' => some (.kind .digit true)
  | 's' => some (.kind .blank false)
  | 'S' => some (.kind .blank true)
  | 'w' => some (.kind .word false)
  | 'W' => some (.kind .word true)
  | _ => none

namespace Read

/-- A character that is written by exactly so many digits of its code. -/
def code (count : Nat) : Read Item := do
  let ds ← upTo isHex count
  let n := valueOf 16 ds
  if ds.length = count && n < 0x110000 then pure (.ofCode n) else fail

/-- A character that is written by a backslash and an octal code. -/
def octal (ds : List Char) : Read Item :=
  let n := valueOf 8 ds
  if n ≤ 0o377 then pure (.ofCode n) else fail

/-- What a backslash and a character stand for, inside and outside of sets. -/
def commonEscape (c : Char) : Read Item :=
  match control? c with
  | some d => pure (.char d)
  | none =>
    match class? c with
    | some i => pure i
    | none =>
      if c == 'x' then code 2
      else if c == 'u' then code 4
      else if c == 'U' then code 8
      else if c.isAlphanum then fail
      else pure (.char c)

/-- What a backslash and a character stand for in a set. -/
def setEscape (c : Char) : Read Item :=
  if c == 'b' then pure (.char '\x08')
  else if isOctal c then do
    let ds ← upTo isOctal 2
    octal (c :: ds)
  else commonEscape c

/-- What a sign stands for in a set. -/
def setItem : Sign → Read Item
  | .plain c => pure (.char c)
  | .escaped c => setEscape c

/-- The code of a part that is a single character. -/
def codeOf : Item → Read Nat
  | .char c => pure c.toNat
  | .range first last => if first = last then pure first else fail
  | .kind _ _ => fail

/-- The parts of a set up to its end.  The number bounds the number of signs. -/
def setItems : Nat → List Item → Read (List Item)
  | 0, _ => fail
  | bound + 1, items => do
    let t ← next
    if t = .plain ']' && !items.isEmpty then pure items
    else
      let first ← setItem t
      if ← accept '-' then
        let t ← next
        if t = .plain ']' then pure (items ++ [first, .char '-'])
        else
          let last ← setItem t
          let a ← codeOf first
          let b ← codeOf last
          if b < a then fail else setItems bound (items ++ [.range a b])
      else setItems bound (items ++ [first])

/-- A set of characters behind its opening bracket. -/
def charSet : Read CharSet := do
  let isNegated ← accept '^'
  let r ← get
  let items ← setItems (r.rest.length + 1) []
  pure ⟨items, isNegated⟩

end Read

/-- A part of a sequence. -/
structure Part where
  pattern : Pattern
  /-- The part may be repeated. -/
  isRepeatable : Bool := true

/-- The pattern of parts in sequence. -/
def ofParts : List Part → Pattern
  | [] => empty
  | [p] => p.pattern
  | p :: ps => seq p.pattern (ofParts ps)

/-- The first number of repetitions that is too large. -/
def repetitionBound : Nat := 4294967295

namespace Read

/-- A number of repetitions; none if no digits are given. -/
def repetitions (ds : List Char) : Read (Option Nat) := do
  if ds.isEmpty then pure none
  else
    match Numeral.checkedInteger ds with
    | .error e => throw (.number e)
    | .ok n => if repetitionBound ≤ n.toNat then throw (.number .tooLarge) else pure n.toNat

/-- The numbers of repetitions behind an opening brace, if the signs there are of this form; else
the brace stands for itself, and nothing is taken. -/
def bounds? : Read (Option (Nat × Option Nat)) := do
  let start ← get
  if start.rest.head? = some (.plain '\x7d') then pure none
  else
    let low ← all Char.isDigit
    let high ← if ← accept ',' then all Char.isDigit else pure low
    if ← accept '\x7d' then
      let least ← repetitions low
      let most ← repetitions high
      if most.any (· < least.getD 0) then fail else pure (some (least.getD 0, most))
    else
      set start
      pure none

/-- Repeats the last part.  A question mark behind a repetition makes it as short as possible, and a
plus sign final. -/
def repeatLast (parts : List Part) (least : Nat) (most : Option Nat) : Read (List Part) := do
  match parts.getLast? with
  | none => fail
  | some p =>
    if !p.isRepeatable then fail
    else
      let isShort ← accept '?'
      let isFinal ← if isShort then pure false else accept '+'
      let repeated :=
        if isFinal then atomic (many (atomic p.pattern) true least most)
        else many p.pattern (!isShort) least most
      pure (parts.dropLast ++ [⟨repeated, false⟩])

/-- Repetition of what a group has read.  The group must be closed, and must not belong to a look
back that is open. -/
def backReference (m : Mode) (n : Nat) : Read Pattern := do
  let r ← get
  let (least, most) ← orFail (r.closed.lookup n)
  if r.lookback.any (· < n) then fail else pure (again m n least most)

/-- What a backslash and a character stand for outside of sets. -/
def escape (m : Mode) (c : Char) : Read Part := do
  let place (a : Anchor) : Read Part := pure ⟨anchor m a, false⟩
  let item (i : Item) : Part := ⟨one m ⟨[i], false⟩, true⟩
  if c == 'A' then place .textStart
  else if c == 'Z' then place .textEnd
  else if c == 'b' then place .wordEdge
  else if c == 'B' then place .noWordEdge
  else if c == '0' then
    let ds ← upTo isOctal 2
    item <$> octal (c :: ds)
  else if c.isDigit then
    let second ← upTo Char.isDigit 1
    let third ← if isOctal c && second.any isOctal then upTo isOctal 1 else pure []
    if third.isEmpty then do
      let p ← backReference m (Numeral.natural (c :: second))
      pure ⟨p, true⟩
    else item <$> octal (c :: second ++ third)
  else item <$> commonEscape c

/-- A name of a group. -/
def isName (s : List Char) : Bool :=
  match s with
  | [] => false
  | c :: _ => !Letter.isDigit c && s.all Letter.isWord

/-- The number of the group with a name. -/
def named (name : List Char) : Read Nat := do
  let r ← get
  if isName name then orFail (r.names.lookup (String.ofList name)) else fail

/-- Opens a group, which may have a name. -/
def openGroup (name : Option (List Char)) : Read Nat := do
  let r ← get
  let n := r.count + 1
  match name with
  | none => set { r with count := n }
  | some name =>
    if !isName name || (r.names.lookup (String.ofList name)).isSome then fail
    else set { r with count := n, names := (String.ofList name, n) :: r.names }
  pure n

/-- Closes a group. -/
def closeGroup (n : Nat) (p : Pattern) : Read Pattern := do
  modify fun r => { r with closed := (n, p.width) :: r.closed }
  pure (group n p)

/-- Turns something about the signs on or off. -/
def setFlag (isOn : Bool) (m : Mode) (c : Char) : Option Mode :=
  match c with
  | 'i' => some { m with ignoresCase := isOn }
  | 'm' => some { m with byLine := isOn }
  | 's' => some { m with dotAll := isOn }
  | 'x' => some { m with isSpaced := isOn }
  | 'a' => if isOn then some { m with isAscii := true } else none
  | 'u' => if isOn then some { m with isAscii := false } else none
  | _ => none

/-- Letters of flags that may stand together. -/
def agree (on off : List Char) : Bool :=
  !(on.contains 'a' && on.contains 'u') && !on.any off.contains

/-- The mode of a group with flags, up to the colon behind them. -/
def flags (m : Mode) : Read Mode := do
  let on ← all Char.isAlpha
  let hasOff ← accept '-'
  let off ← if hasOff then all Char.isAlpha else pure []
  expect ':'
  if (hasOff && off.isEmpty) || !agree on off then fail
  else
    let m ← orFail (on.foldlM (setFlag true) m)
    orFail (off.foldlM (setFlag false) m)

/-- A look at what stands behind or before a place, with the pattern that is looked for. -/
def look (isBehind isNegated : Bool) (p : Pattern) : Read Part :=
  if isBehind then do
    let (least, most) := p.width
    modify fun r => { r with isVague := r.isVague || most != some least }
    pure ⟨behind p least isNegated, true⟩
  else pure ⟨ahead p isNegated, true⟩

/-- Enters a look back; the result is what has to be put back behind it. -/
def enterLookback : Read (Option Nat) := do
  let r ← get
  set { r with lookback := r.lookback.or (some r.count) }
  pure r.lookback

/-- The group on which a part depends, by its name or its number. -/
def condition (written : List Char) : Read Nat := do
  let r ← get
  let n ←
    if isName written then named written
    else if written.isEmpty || !written.all Char.isDigit then fail
    else pure (Numeral.natural written)
  if n = 0 || r.lookback.any fun k => k < n || (r.closed.lookup n).isNone then fail
  else
    modify fun r => { r with needed := max r.needed n }
    pure n

/-- Skips the rest of a comment that ends with the line. -/
def lineComment : Read Unit := do
  skipTo '\n'
  let _ ← accept '\n'
  pure ()

mutual

/-- Alternatives up to the end of a group or of the text.  Here and below, the number bounds the
depth of the recursion. -/
def alternatives : Nat → Mode → Read Pattern
  | 0, _ => fail
  | bound + 1, m => do
    let p ← sequence bound m []
    if ← accept '|' then do
      let q ← alternatives bound m
      pure (either p q)
    else pure p

/-- Parts in sequence, behind those that were read before. -/
def sequence : Nat → Mode → List Part → Read Pattern
  | 0, _, _ => fail
  | bound + 1, m, parts => do
    let t ← peek
    if t.isNone || t = some (.plain '|') || t = some (.plain ')') then pure (ofParts parts)
    else
      let t ← next
      let parts ← part bound m parts t
      sequence bound m parts

/-- The parts with what a sign adds to them. -/
def part : Nat → Mode → List Part → Sign → Read (List Part)
  | 0, _, _, _ => fail
  | bound + 1, m, parts, t =>
    match t with
    | .escaped c => do
      let p ← escape m c
      pure (parts ++ [p])
    | .plain c =>
      if m.isSpaced && (c == ' ' || (9 ≤ c.toNat && c.toNat ≤ 13)) then pure parts
      else if m.isSpaced && c == '#' then do
        lineComment
        pure parts
      else if c == '*' then repeatLast parts 0 none
      else if c == '+' then repeatLast parts 1 none
      else if c == '?' then repeatLast parts 0 (some 1)
      else if c == '\x7b' then do
        match ← bounds? with
        | some (least, most) => repeatLast parts least most
        | none => pure (parts ++ [⟨one m ⟨[.char c], false⟩, true⟩])
      else if c == '.' then
        pure (parts ++ [⟨one m ⟨if m.dotAll then [] else [.char '\n'], true⟩, true⟩])
      else if c == '^' then
        pure (parts ++ [⟨anchor m (if m.byLine then .lineStart else .textStart), false⟩])
      else if c == '$' then
        pure (parts ++ [⟨anchor m (if m.byLine then .lineEnd else .lastEnd), false⟩])
      else if c == '[' then do
        let s ← charSet
        pure (parts ++ [⟨one m s, true⟩])
      else if c == '(' then do
        if ← accept '?' then
          let p ← special bound m
          pure (parts ++ p.toList)
        else
          let p ← capturing bound m none
          pure (parts ++ [p])
      else pure (parts ++ [⟨one m ⟨[.char c], false⟩, true⟩])

/-- A group that is remembered, behind its opening parenthesis and its name. -/
def capturing : Nat → Mode → Option (List Char) → Read Part
  | 0, _, _ => fail
  | bound + 1, m, name => do
    let n ← openGroup name
    let p ← alternatives bound m
    expect ')'
    let p ← closeGroup n p
    pure ⟨p, true⟩

/-- A part in parentheses that starts with a question mark, behind that.  A comment is no part. -/
def special : Nat → Mode → Read (Option Part)
  | 0, _ => fail
  | bound + 1, m => do
    let r ← get
    let t ← next
    if t = .plain 'P' then
      if ← accept '<' then
        let name ← before '>'
        some <$> capturing bound m (some name)
      else
        expect '='
        let name ← before ')'
        let n ← named name
        let p ← backReference m n
        pure (some ⟨p, true⟩)
    else if t = .plain '#' then
      skipTo ')'
      expect ')'
      pure none
    else if t = .plain ':' then
      let p ← alternatives bound m
      expect ')'
      pure (some ⟨p, true⟩)
    else if t = .plain '>' then
      let p ← alternatives bound m
      expect ')'
      pure (some ⟨atomic p, true⟩)
    else if t = .plain '=' || t = .plain '!' then
      let p ← alternatives bound m
      expect ')'
      some <$> look false (t = .plain '!') p
    else if t = .plain '<' then
      let t ← next
      if t != .plain '=' && t != .plain '!' then fail
      else
        let outer ← enterLookback
        let p ← alternatives bound m
        modify fun r => { r with lookback := outer }
        expect ')'
        some <$> look true (t = .plain '!') p
    else if t = .plain '(' then
      let written ← before ')'
      let n ← condition written
      let p ← sequence bound m []
      let q ← if ← accept '|' then sequence bound m [] else pure empty
      expect ')'
      pure (some ⟨given n p q, true⟩)
    else
      set r
      let m ← flags m
      let p ← alternatives bound m
      expect ')'
      pure (some ⟨p, true⟩)

end

/-- A whole pattern. -/
def pattern (m : Mode) : Read Pattern := do
  let r ← get
  let p ← alternatives (4 * r.rest.length + 4) m
  let r ← get
  if !r.rest.isEmpty || r.count < r.needed || r.isVague then fail else pure p

end Read

/-- The pattern that a text writes. -/
def read (m : Mode) (text : List Char) : Except Error Pattern := do
  let ts ← signs text
  let (p, _) ← (Read.pattern m).run { rest := ts }
  pure p

end Pattern
end UmlDraw
