import Sequitur.Text.Space
import Sequitur.Yaml.Node

/-!
# Reading YAML

`Yaml.read` reads the first document of a text: block and flow collections, plain, quoted and
block scalars, comments, anchors, aliases and tags. A text without a document has no node, and a
text that is not YAML is an error; where exactly it fails is not told.

A block collection is known by its column. The entries of a mapping start in one column, and what
belongs to an entry stands further right, except that a sequence may start in the column of the
mapping it is a value of. Recursion is on a number that is larger than the number of characters.
-/

namespace Sequitur.Yaml

/-- A place in a text and the characters from there on. -/
structure Cursor where
  rest : List Char
  /-- Counted from one. -/
  line : Nat
  /-- Counted from zero. -/
  column : Nat
  deriving Inhabited

namespace Cursor

/-- The place after the next character. -/
def next (c : Cursor) : Cursor :=
  match c.rest with
  | [] => c
  | '\n' :: rest => ⟨rest, c.line + 1, 0⟩
  | _ :: rest => ⟨rest, c.line, c.column + 1⟩

/-- The place `n` characters on. -/
def skip (c : Cursor) : Nat → Cursor
  | 0 => c
  | n + 1 => c.next.skip n

end Cursor

/-- A space or a tab. -/
def isBlank (c : Char) : Bool := c = ' ' || c = '\t'

/-- Whether a space, a tab, a line break or the end is ahead. -/
def endsWord : List Char → Bool
  | [] => true
  | c :: _ => isBlank c || c = '\n'

/-- Whether one of the lines that separate documents is ahead. -/
def atMarker (c : Cursor) : Bool :=
  c.column = 0 && match c.rest with
    | '-' :: '-' :: '-' :: rest => endsWord rest
    | '.' :: '.' :: '.' :: rest => endsWord rest
    | _ => false

/-- Whether the document ends here. -/
def atEnd (c : Cursor) : Bool := c.rest.isEmpty || atMarker c

/-- The code of the character that may stand at the start of a text or line and says nothing. -/
def byteOrderMark : Nat := 0xFEFF

/-- The next place that is no white space and no comment. Tabs count as white space in a flow
collection, and elsewhere only on the line of an indicator that allows them. -/
def skipFrom (flow comment tabs : Bool) (line column : Nat) : List Char → Cursor
  | [] => ⟨[], line, column⟩
  | c :: rest =>
    if c = '\n' then skipFrom flow false flow (line + 1) 0 rest
    else if comment then skipFrom flow true tabs line (column + 1) rest
    else if c = ' ' || (c = '\t' && tabs) then skipFrom flow false tabs line (column + 1) rest
    else if c = '#' then skipFrom flow true tabs line (column + 1) rest
    else if column = 0 && c.toNat = byteOrderMark then skipFrom flow false tabs line 1 rest
    else ⟨c :: rest, line, column⟩

/-- The next token in a block collection. -/
def skipBlock (tabs : Bool) (c : Cursor) : Cursor :=
  skipFrom false false tabs c.line c.column c.rest

/-- The next token in a flow collection. -/
def skipFlow (c : Cursor) : Cursor := skipFrom true false true c.line c.column c.rest

/-- The next character on the line that is no space and no tab. -/
def skipBlanks (c : Cursor) : Cursor :=
  c.skip (c.rest.takeWhile isBlank).length

/-! ## Scalars -/

/-- A scalar as it was read: its characters, and whether a line break was passed at its end. -/
structure Scanned where
  value : List Char
  broke : Bool
  cursor : Cursor

/-- What a plain scalar has been read so far: the characters backwards, the blanks after them, and
the number of line breaks after them. -/
structure Plain where
  out : List Char := []
  blanks : List Char := []
  breaks : Nat := 0

/-- The scalar with the white space before its next word. One line break is a space, more are one
break less. -/
def Plain.joined (p : Plain) : List Char :=
  if p.breaks = 0 then p.blanks ++ p.out
  else if p.breaks = 1 then ' ' :: p.out
  else List.replicate (p.breaks - 1) '\n' ++ p.out

/-- Whether a plain scalar ends before these characters. -/
def endsPlain (flow : Bool) (c : Char) (rest : List Char) : Bool :=
  (c = ':' && endsWord rest) || (flow && [',', '?', '[', ']', '{', '}'].contains c)

/-- Reads a plain scalar. In a block its further lines stand right of column `indent`. -/
def plainFrom (flow : Bool) (indent : Int) (p : Plain) (wordStart : Bool) (line column : Nat) :
    List Char → Option Scanned
  | [] => some ⟨p.out.reverse, p.breaks > 0, ⟨[], line, column⟩⟩
  | c :: rest =>
    let stop := some ⟨p.out.reverse, p.breaks > 0, ⟨c :: rest, line, column⟩⟩
    if c = '\n' then
      plainFrom flow indent { p with blanks := [], breaks := p.breaks + 1 } true (line + 1) 0 rest
    else if isBlank c then
      if p.breaks = 0 then
        plainFrom flow indent { p with blanks := c :: p.blanks } true line (column + 1) rest
      else if c = '\t' && column < indent + 1 then none
      else plainFrom flow indent p true line (column + 1) rest
    else if wordStart && ((!flow && column < indent + 1) || c = '#' ||
        atMarker ⟨c :: rest, line, column⟩) then
      stop
    else if endsPlain flow c rest then stop
    else plainFrom flow indent { out := c :: p.joined } false line (column + 1) rest

/-- The character for the letter after a backslash. -/
def simpleEscape : Char → Option Char
  | '0' => some (Char.ofNat 0)
  | 'a' => some (Char.ofNat 7)
  | 'b' => some (Char.ofNat 8)
  | 't' => some '\t'
  | '\t' => some '\t'
  | 'n' => some '\n'
  | 'v' => some (Char.ofNat 11)
  | 'f' => some (Char.ofNat 12)
  | 'r' => some '\r'
  | 'e' => some (Char.ofNat 27)
  | ' ' => some ' '
  | '"' => some '"'
  | '\'' => some '\''
  | '\\' => some '\\'
  | '/' => some '/'
  | 'N' => some (Char.ofNat 0x85)
  | '_' => some (Char.ofNat 0xA0)
  | 'L' => some (Char.ofNat 0x2028)
  | 'P' => some (Char.ofNat 0x2029)
  | _ => none

/-- How many hexadecimal digits follow the letter after a backslash. -/
def escapeWidth : Char → Option Nat
  | 'x' => some 2
  | 'u' => some 4
  | 'U' => some 8
  | _ => none

/-- The value of a hexadecimal digit. -/
def hexDigit? (c : Char) : Option Nat :=
  if '0' ≤ c && c ≤ '9' then some (c.toNat - 48)
  else if 'a' ≤ c && c ≤ 'f' then some (c.toNat - 87)
  else if 'A' ≤ c && c ≤ 'F' then some (c.toNat - 55)
  else none

/-- The character with the code point of hexadecimal digits. -/
def hexChar? (digits : List Char) : Option Char := do
  let values ← digits.mapM hexDigit?
  let n := values.foldl (fun n d => 16 * n + d) 0
  if n.isValidChar then some (Char.ofNat n) else none

/-- Reads a quoted scalar after its opening quote. -/
def quotedFrom (double : Bool) : Nat → Plain → Cursor → Option Scanned
  | 0, _, _ => none
  | n + 1, p, c =>
    if atMarker c then none
    else
      match c.rest with
      | [] => none
      | '\n' :: _ => quotedFrom double n { p with blanks := [], breaks := p.breaks + 1 } c.next
      | ch :: rest =>
        if isBlank ch then
          quotedFrom double n
            (if p.breaks = 0 then { p with blanks := ch :: p.blanks } else p) c.next
        else if double then
          if ch = '"' then some ⟨p.joined.reverse, false, c.next⟩
          else if ch = '\\' then
            match rest with
            | [] => none
            | '\n' :: _ =>
              -- An escaped line break leaves nothing behind, nor do the blanks after it.
              let after := c.skip 2
              quotedFrom double n { out := p.joined } (skipBlanks after)
            | e :: digits =>
              match escapeWidth e with
              | some width => do
                let ch ← hexChar? (digits.take width)
                if digits.length < width then none
                else quotedFrom double n { out := ch :: p.joined } (c.skip (2 + width))
              | none => do
                let ch ← simpleEscape e
                quotedFrom double n { out := ch :: p.joined } (c.skip 2)
          else quotedFrom double n { out := ch :: p.joined } c.next
        else if ch = '\'' then
          match rest with
          | '\'' :: _ => quotedFrom double n { out := '\'' :: p.joined } (c.skip 2)
          | _ => some ⟨p.joined.reverse, false, c.next⟩
        else quotedFrom double n { out := ch :: p.joined } c.next

/-- How the line breaks at the end of a block scalar are kept. -/
inductive Chomp where
  | strip
  | clip
  | keep
  deriving DecidableEq

/-- The header of a block scalar after its first character: how its end is chomped, its
indentation if it is given, and the place after it. -/
def blockHeader (c : Cursor) : Option (Chomp × Option Nat × Cursor) :=
  let chomp? (c : Cursor) : Option Chomp × Cursor := match c.rest with
    | '-' :: _ => (some .strip, c.next)
    | '+' :: _ => (some .keep, c.next)
    | _ => (none, c)
  let (before, c) := chomp? c
  let (indent, c) : Option Nat × Cursor := match c.rest with
    | d :: _ => if d.isDigit then (some (d.toNat - 48), c.next) else (none, c)
    | [] => (none, c)
  let (chomp, c) := match before with
    | some b => (some b, c)
    | none => if indent.isSome then chomp? c else (none, c)
  let c := skipBlanks c
  let c := match c.rest with
    | '#' :: _ => c.skip (c.rest.takeWhile (· != '\n')).length
    | _ => c
  match c.rest with
  | [] | '\n' :: _ =>
    if indent = some 0 then none else some (chomp.getD .clip, indent, c.next)
  | _ => none

/-- The indentation of a block scalar that does not say it: that of its first line that is not
blank, or of a blank one before it that is longer. -/
def blockIndent (most : Nat) : Nat → Cursor → Option Nat
  | 0, _ => some most
  | n + 1, c =>
    let spaces := (c.rest.takeWhile (· = ' ')).length
    let most := max most spaces
    let c := c.skip spaces
    match c.rest with
    | '\n' :: _ => blockIndent most n c.next
    | '\t' :: _ => none
    | _ => some most

/-- Reads the lines of a block scalar. `held` is the line break after the last line, and `blank`
tells whether that line started with white space. -/
def blockLines (literal : Bool) (indent : Nat) (chomp : Chomp) (out : List Char) (held : Bool)
    (breaks : Nat) (blank : Bool) : Nat → Cursor → Option Scanned
  | 0, _ => none
  | n + 1, c =>
    let spaces := ((c.rest.take indent).takeWhile (· = ' ')).length
    let start := c.skip spaces
    let finish :=
      let out := if chomp != .strip && held then '\n' :: out else out
      let out := if chomp = .keep then List.replicate breaks '\n' ++ out else out
      some ⟨out.reverse, true, start⟩
    match start.rest with
    | [] => finish
    | '\n' :: _ => blockLines literal indent chomp out held (breaks + 1) blank n start.next
    | ch :: _ =>
      if spaces < indent then if ch = '\t' then none else finish
      else
        let startsBlank := isBlank ch
        let out :=
          if !literal && held && !blank && !startsBlank then
            if breaks = 0 then ' ' :: out else out
          else if held then '\n' :: out else out
        let out := List.replicate breaks '\n' ++ out
        let line := start.rest.takeWhile (· != '\n')
        let after := start.skip line.length
        blockLines literal indent chomp (line.reverse ++ out) (!after.rest.isEmpty) 0 startsBlank
          n after.next

/-- Reads a block scalar after its first character, in a block collection of column `indent`. -/
def blockScalar (literal : Bool) (indent : Int) (c : Cursor) : Option Scanned := do
  let (chomp, given, c) ← blockHeader c
  let fuel := c.rest.length + 2
  let width ← match given with
    | some n => some (if indent < 0 then n else indent.toNat + n)
    | none => (blockIndent 0 fuel c).map fun n => max n (max (indent + 1).toNat 1)
  blockLines literal width chomp [] false 0 false fuel c

/-! ## Properties -/

/-- The anchors of a document. -/
abbrev Anchors := List (List Char × Node)

/-- The anchor and the tag before a node. -/
structure Properties where
  anchor : Option (List Char) := none
  tag : Option Text := none

/-- The text of characters. -/
def textOf (cs : List Char) : Text := cs.flatMap Text.ofChar

/-- The characters of an anchor. -/
def isNameChar (c : Char) : Bool := c.isAlphanum || c = '_' || c = '-'

/-- Reads the name of an anchor or alias after its first character. -/
def anchorName (c : Cursor) : Option (List Char × Cursor) :=
  let name := c.rest.takeWhile isNameChar
  let after := c.skip name.length
  let ended := match after.rest with
    | [] => true
    | ch :: _ => isBlank ch || ch = '\n' || ['?', ':', ',', ']', '}', '%', '@', '\x60'].contains ch
  if name.isEmpty || !ended then none else some (name, after)

/-- The prefix that `!!` abbreviates. -/
def standardTag : Text := "tag:yaml.org,2002:"

/-- Reads a tag after its first exclamation mark. -/
def tagName (flow : Bool) (c : Cursor) : Option (Text × Cursor) :=
  let body := c.rest.takeWhile fun ch =>
    !(isBlank ch || ch = '\n' || (flow && [',', '[', ']', '{', '}'].contains ch))
  let after := c.skip body.length
  match body with
  | '<' :: uri =>
    if uri.getLast? = some '>' then
      let uri := textOf uri.dropLast
      some (if standardTag.isPrefixOf uri then "!!" ++ uri.drop standardTag.length else uri, after)
    else none
  | '!' :: name => if name.isEmpty then none else some ("!!" ++ textOf name, after)
  | name => if name.contains '!' then none else some ("!" ++ textOf name, after)

/-- Reads the anchor and the tag before a node. In a block, `keys` tells whether a mapping may start
here, which it may after a line break. -/
def properties (flow : Bool) : Nat → Properties → Bool → Cursor →
    Option (Properties × Bool × Cursor)
  | 0, p, keys, c => some (p, keys, c)
  | n + 1, p, keys, c =>
    let go (p : Properties) (after : Cursor) :=
      let c' := if flow then skipFlow after else skipBlock true after
      properties flow n p (keys || c'.line != after.line) c'
    match c.rest with
    | '&' :: _ =>
      if p.anchor.isSome then none
      else do
        let (name, after) ← anchorName c.next
        go { p with anchor := some name } after
    | '!' :: _ =>
      if p.tag.isSome then none
      else do
        let (tag, after) ← tagName flow c.next
        go { p with tag := some tag } after
    | _ => some (p, keys, c)

/-- A node with its properties, and the anchors with it among them. -/
def Properties.apply (p : Properties) (node : Node) (anchors : Anchors) : Node × Anchors :=
  let node := match node, p.tag with
    | .scalar line none plain value, some tag =>
      .scalar line (if tag = "!" then none else some tag) (plain && tag != "!") value
    | node, _ => node
  match p.anchor with
  | some name => (node, (name, node) :: anchors)
  | none => (node, anchors)

/-- A scalar without characters. -/
def emptyScalar (line : Nat) : Node := .scalar line none true []

/-- A plain scalar. The merge sign is a tag of its own. -/
def plainScalar (line : Nat) (value : List Char) : Node :=
  let value := textOf value
  .scalar line (if value = "<<" then some "!!merge" else none) true value

/-! ## Flow collections -/

/-- Whether a plain scalar can start here. -/
def startsPlain (flow : Bool) : List Char → Bool
  | [] => false
  | c :: rest =>
    if c = '-' then !endsWord rest
    else if c = '?' || c = ':' then !flow && !endsWord rest
    else !(isBlank c || c = '\n' || indicators.contains c)

/-- A node that was read: the anchors after it, whether it ended past a line break, and the place
after it. -/
structure Read where
  node : Node
  anchors : Anchors
  broke : Bool
  cursor : Cursor

mutual

/-- Reads a node that is no block: an alias, a scalar or a flow collection. -/
def inlineNode (flow : Bool) (indent : Int) : Nat → Anchors → Cursor → Option Read
  | 0, _, _ => none
  | n + 1, anchors, c =>
    match c.rest with
    | '*' :: _ => do
      let (name, after) ← anchorName c.next
      let node ← anchors.lookup name
      some ⟨node, anchors, false, after⟩
    | '"' :: _ => do
      let s ← quotedFrom true (c.rest.length + 1) {} c.next
      some ⟨.scalar c.line none false (textOf s.value), anchors, false, s.cursor⟩
    | '\'' :: _ => do
      let s ← quotedFrom false (c.rest.length + 1) {} c.next
      some ⟨.scalar c.line none false (textOf s.value), anchors, false, s.cursor⟩
    | '[' :: _ => do
      let (items, anchors, after) ← flowItems n anchors c.next
      some ⟨.sequence c.line items, anchors, false, after⟩
    | '{' :: _ => do
      let (entries, anchors, after) ← flowEntries n anchors c.next
      some ⟨.mapping c.line entries, anchors, false, after⟩
    | rest =>
      if startsPlain flow rest then do
        let s ← plainFrom flow indent {} false c.line c.column rest
        some ⟨plainScalar c.line s.value, anchors, s.broke, s.cursor⟩
      else none

/-- Reads a node in a flow collection, with its properties; it may be empty before a comma, a colon
or the end of the collection. -/
def flowNode : Nat → Anchors → Cursor → Option Read
  | 0, _, _ => none
  | n + 1, anchors, c => do
    let (props, _, start) ← properties true 3 {} true c
    let empty := match start.rest with
      | ',' :: _ | ']' :: _ | '}' :: _ | ':' :: _ => true
      | _ => false
    if empty then
      if props.anchor.isNone && props.tag.isNone then none
      else
        let (node, anchors) := props.apply (emptyScalar c.line) anchors
        some ⟨node, anchors, false, start⟩
    else
      let r ← inlineNode true 0 n anchors start
      let (node, anchors) := props.apply r.node r.anchors
      some ⟨node, anchors, false, r.cursor⟩

/-- Reads what follows a key in a flow collection: a colon and a value, or nothing. -/
def flowValue : Nat → Anchors → Nat → Cursor → Option (Option Node × Anchors × Cursor)
  | 0, _, _, _ => none
  | n + 1, anchors, line, c =>
    let c := skipFlow c
    match c.rest with
    | ':' :: _ =>
      let c := skipFlow c.next
      match c.rest with
      | ',' :: _ | ']' :: _ | '}' :: _ => some (some (emptyScalar line), anchors, c)
      | _ => do
        let r ← flowNode n anchors c
        some (some r.node, r.anchors, skipFlow r.cursor)
    | _ => some (none, anchors, c)

/-- Reads the items of a flow sequence after its opening bracket. -/
def flowItems : Nat → Anchors → Cursor → Option (List Node × Anchors × Cursor)
  | 0, _, _ => none
  | n + 1, anchors, c => do
    let c := skipFlow c
    match c.rest with
    | ']' :: _ => some ([], anchors, c.next)
    | _ =>
      let explicitKey := match c.rest with
        | '?' :: _ => true
        | _ => false
      let start := if explicitKey then skipFlow c.next else c
      let r ← flowNode n anchors start
      let (value, anchors, c) ← flowValue n r.anchors r.node.line r.cursor
      let item := match value with
        | some v => .mapping r.node.line [(r.node, v)]
        | none =>
          if explicitKey then .mapping r.node.line [(r.node, emptyScalar r.node.line)] else r.node
      match c.rest with
      | ',' :: _ =>
        let (items, anchors, c) ← flowItems n anchors c.next
        some (item :: items, anchors, c)
      | ']' :: _ => some ([item], anchors, c.next)
      | _ => none

/-- Reads the entries of a flow mapping after its opening brace. -/
def flowEntries : Nat → Anchors → Cursor → Option (List (Node × Node) × Anchors × Cursor)
  | 0, _, _ => none
  | n + 1, anchors, c => do
    let c := skipFlow c
    match c.rest with
    | '}' :: _ => some ([], anchors, c.next)
    | _ =>
      let start := match c.rest with
        | '?' :: _ => skipFlow c.next
        | _ => c
      let r ← flowNode n anchors start
      let (value, anchors, c) ← flowValue n r.anchors r.node.line r.cursor
      let entry := (r.node, value.getD (emptyScalar r.node.line))
      match c.rest with
      | ',' :: _ =>
        let (entries, anchors, c) ← flowEntries n anchors c.next
        some (entry :: entries, anchors, c)
      | '}' :: _ => some ([entry], anchors, c.next)
      | _ => none

end

/-! ## Block collections -/

/-- Whether the sign `s` and then white space or the end is ahead. -/
def atSign (s : Char) (c : Cursor) : Bool :=
  match c.rest with
  | ch :: rest => ch = s && endsWord rest
  | [] => false

/-- The place of the colon after a key that ended at `c`, on the line it started on. -/
def keyColon (line : Nat) (r : Read) : Option Cursor :=
  let c := skipBlanks r.cursor
  if !r.broke && c.line = line && atSign ':' c then some c else none

mutual

/-- Reads a node in a block collection of column `indent`. `keys` tells whether a block collection
may start here, and `flush` whether a sequence may start in the column of the collection. -/
def blockNode : Nat → Int → Bool → Bool → Anchors → Cursor → Option Read
  | 0, _, _, _, _, _ => none
  | n + 1, indent, keys, flush, anchors, c =>
    let inside (c : Cursor) : Bool :=
      !atEnd c && (indent < c.column || (flush && indent = c.column && atSign '-' c))
    if !inside c then some ⟨emptyScalar c.line, anchors, false, c⟩
    else do
      let (props, keys', start) ← properties false 3 {} keys c
      if !inside start then
        let (node, anchors) := props.apply (emptyScalar c.line) anchors
        some ⟨node, anchors, false, start⟩
      else if atSign '-' start then
        if !keys' || (start.line = c.line && start.column != c.column) then none
        else
          let (items, anchors, after) ← blockItems n start.column anchors start
          let (node, anchors) := props.apply (.sequence start.line items) anchors
          some ⟨node, anchors, true, after⟩
      else if atSign '?' start || atSign ':' start then
        if !keys' then none
        else
          let (entries, anchors, after) ← blockEntries n start.column anchors start
          let (node, anchors) := props.apply (.mapping start.line entries) anchors
          some ⟨node, anchors, true, after⟩
      else
        match start.rest with
        | '|' :: _ => do
          let s ← blockScalar true indent start.next
          let (node, anchors) := props.apply (.scalar c.line none false (textOf s.value)) anchors
          some ⟨node, anchors, true, s.cursor⟩
        | '>' :: _ => do
          let s ← blockScalar false indent start.next
          let (node, anchors) := props.apply (.scalar c.line none false (textOf s.value)) anchors
          some ⟨node, anchors, true, s.cursor⟩
        | _ =>
          let r ← inlineNode false indent n anchors start
          match keyColon start.line r with
          | none =>
            if !r.broke && atSign ':' (skipBlanks r.cursor) then none
            else
              let (node, anchors) := props.apply r.node r.anchors
              some ⟨node, anchors, r.broke, r.cursor⟩
          | some colon =>
            if !keys' then none
            else
              -- Properties on the line of the key belong to the key, those above to the mapping.
              let onKeyLine := start.line = c.line
              let column := if onKeyLine then c.column else start.column
              let (key, anchors) := if onKeyLine then props.apply r.node r.anchors
                else (r.node, r.anchors)
              let (entries, anchors, after) ← blockEntry n column key anchors colon
              let mapping := Node.mapping start.line entries
              let (node, anchors) := if onKeyLine then (mapping, anchors)
                else props.apply mapping anchors
              some ⟨node, anchors, true, after⟩

/-- Reads the value after the colon of an entry, and the entries after it. -/
def blockEntry : Nat → Nat → Node → Anchors → Cursor →
    Option (List (Node × Node) × Anchors × Cursor)
  | 0, _, _, _, _ => none
  | n + 1, column, key, anchors, colon => do
    let start := skipBlock true colon.next
    let r ← blockNode n column (start.line != colon.line) true anchors start
    let (entries, anchors, after) ← blockEntries n column r.anchors (skipBlock true r.cursor)
    some ((key, r.node) :: entries, anchors, after)

/-- Reads the entries of a block mapping of the given column, up to where it ends. -/
def blockEntries : Nat → Nat → Anchors → Cursor → Option (List (Node × Node) × Anchors × Cursor)
  | 0, _, _, _ => none
  | n + 1, column, anchors, c =>
    if atEnd c || c.column < column then some ([], anchors, c)
    else if column < c.column then none
    else if atSign '?' c then do
      let start := skipBlock false c.next
      let r ← blockNode n column true true anchors start
      let c := skipBlock true r.cursor
      if c.column = column && atSign ':' c then blockEntry n column r.node r.anchors c
      else
        let (entries, anchors, after) ← blockEntries n column r.anchors c
        some ((r.node, emptyScalar r.node.line) :: entries, anchors, after)
    else if atSign ':' c then blockEntry n column (emptyScalar c.line) anchors c
    else if atSign '-' c then none
    else do
      let (props, _, start) ← properties false 3 {} true c
      let r ← inlineNode false column n anchors start
      let colon ← keyColon c.line r
      let (key, anchors) := props.apply r.node r.anchors
      blockEntry n column key anchors colon

/-- Reads the items of a block sequence of the given column, up to where it ends. -/
def blockItems : Nat → Nat → Anchors → Cursor → Option (List Node × Anchors × Cursor)
  | 0, _, _, _ => none
  | n + 1, column, anchors, c =>
    if atEnd c || c.column < column then some ([], anchors, c)
    else if column < c.column then none
    else if atSign '-' c then do
      let start := skipBlock false c.next
      let r ← blockNode n column true false anchors start
      let (items, anchors, after) ← blockItems n column r.anchors (skipBlock true r.cursor)
      some (r.node :: items, anchors, after)
    else some ([], anchors, c)

end

/-! ## Documents -/

/-- The characters a text may have. -/
def isAllowed (c : Char) : Bool :=
  let n := c.toNat
  n = 9 || n = 10 || n = 13 || (0x20 ≤ n && n ≤ 0x7E) || n = 0x85 || (0xA0 ≤ n && n ≤ 0xD7FF) ||
    (0xE000 ≤ n && n ≤ 0xFFFD) || 0x10000 ≤ n

/-- The characters of a text, or nothing if it may not have them. -/
def characters (text : Text) : Option (List Char) :=
  let pieces := match text.pieces with
    | .char c :: rest => if c.toNat = byteOrderMark then rest else .char c :: rest
    | pieces => pieces
  pieces.mapM fun
    | .char c => if isAllowed c then some c else none
    | .stray _ => none

/-- The characters with every line break written as a line feed. -/
def normalBreaks : List Char → List Char
  | '\r' :: '\n' :: rest => '\n' :: normalBreaks rest
  | '\r' :: rest => '\n' :: normalBreaks rest
  | c :: rest => (if c.toNat = 0x85 then '\n' else c) :: normalBreaks rest
  | [] => []

/-- Skips the directives before a document. -/
def skipDirectives : Nat → Cursor → Cursor
  | 0, c => c
  | n + 1, c =>
    match c.rest with
    | '%' :: _ =>
      if c.column = 0 then
        skipDirectives n (skipBlock false (c.skip (c.rest.takeWhile (· != '\n')).length))
      else c
    | _ => c

/-- Whether what follows the document can be read as far as its first token. -/
def endsWell (c : Cursor) : Bool :=
  let c := skipBlock true c
  match c.rest with
  | [] => true
  | ch :: _ => !(['@', '\x60', '\t'].contains ch)

/-- Reads the first document of a text; nothing if there is none. -/
def read (text : Text) : Except Unit (Option Node) :=
  match characters text with
  | none => .error ()
  | some chars =>
    let chars := normalBreaks chars
    let fuel := 2 * chars.length + 8
    let start := skipBlock false ⟨chars, 1, 0⟩
    let afterDirectives := skipDirectives fuel start
    let marked := match afterDirectives.rest with
      | '-' :: _ => atMarker afterDirectives
      | _ => false
    if afterDirectives.rest.isEmpty then
      if afterDirectives.line = start.line then .ok none else .error ()
    else if !marked && afterDirectives.line != start.line then .error ()
    else
      let (keys, c) :=
        if marked then
          let c := skipBlock true (afterDirectives.skip 3)
          (c.line != afterDirectives.line, c)
        else (true, afterDirectives)
      match blockNode fuel (-1) keys false [] c with
      | none => .error ()
      | some r => if endsWell r.cursor then .ok (some r.node) else .error ()

end Sequitur.Yaml
