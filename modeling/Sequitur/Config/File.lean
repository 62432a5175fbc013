import Sequitur.Config.Basic
import Sequitur.Files.Tree
import Sequitur.Yaml.Reader
import Sequitur.Yaml.Writer

/-!
# Configuration files

A configuration is kept in a YAML file. What the file does not set keeps its default, and so does
what it sets to null. Everything in the file that fits no setting is a `Mismatch`; they are all
collected before the file is refused.
-/

namespace Sequitur

/-- Something in a configuration file that fits no setting. -/
inductive Mismatch where
  | unknownField (line : Nat) (field type : Text)
  | wrongType (line : Nat) (tag : Text) (value : Option Text) (type : Text)
  | duplicate (line : Nat) (key : Text) (first : Nat)
  deriving DecidableEq, Repr

namespace Mismatch

/-- A value that is quoted in a message, cut if it is long. -/
def excerpt (value : Text) : Text :=
  if 10 < value.length then value.take 7 ++ "..." else value

/-- The wording of a mismatch. -/
def message : Mismatch → Text
  | unknownField line field type =>
    "line " ++ Text.ofNat line ++ ": field " ++ field ++ " not found in type " ++ type
  | wrongType line tag value type =>
    let shown : Text := match value with
      | some v => " \x60" ++ excerpt v ++ "\x60"
      | none => []
    "line " ++ Text.ofNat line ++ ": cannot unmarshal " ++ tag ++ shown ++ " into " ++ type
  | duplicate line key first =>
    "line " ++ Text.ofNat line ++ ": mapping key " ++ key.quoted ++ " already defined at line " ++
      Text.ofNat first

end Mismatch

namespace Yaml

/-- What a node gives: a value, and what did not fit. -/
abbrev Decoded (α : Type) := α × List Mismatch

/-- What a scalar is read as. -/
inductive Scalar where
  | null
  | bool (value : Bool)
  | string (value : Text)
  | other
  deriving DecidableEq, Repr

namespace Node

/-- The tag that messages name for a node. -/
def shownTag : Node → Text
  | .scalar _ (some tag) _ _ => tag
  | .scalar _ none true value => (ScalarType.ofPlain value).tag
  | .scalar _ none false _ => ScalarType.string.tag
  | .sequence _ _ => "!!seq"
  | .mapping _ _ => "!!map"

/-- What a scalar is read as. A tag that is written out has to agree with the text. -/
def scalarOf (tag : Option Text) (plain : Bool) (value : Text) : Except Unit Scalar :=
  let ofType (t : ScalarType) : Scalar := match t with
    | .null => .null
    | .bool b => .bool b
    | .string => .string value
    | _ => .other
  match tag with
  | none => .ok (if plain then ofType (ScalarType.ofPlain value) else .string value)
  | some tag =>
    let type := ScalarType.ofPlain value
    if tag = ScalarType.string.tag then .ok (.string value)
    else if tag = "!!binary" then
      match Base64.decode value with
      | some t => .ok (.string t)
      | none => .error ()
    else if tag = type.tag then .ok (ofType type)
    else if tag = ScalarType.float.tag && type = .integer then .ok .other
    else .error ()

/-- The mismatch of a node with the type it should have. -/
def mismatch (n : Node) (type : Text) : Mismatch :=
  let value := match n with
    | .scalar _ _ _ value => some value
    | _ => none
  .wrongType n.line n.shownTag value type

/-- The keys of a mapping that stand in it before, each with every earlier one. -/
def duplicates : List Node → List Mismatch
  | [] => []
  | k :: rest =>
    (rest.filter (sameKey k)).map (fun other => .duplicate other.line other.value k.line) ++
      duplicates rest

/-- What a mapping gives that was to be no mapping. -/
def unexpectedMapping (n : Node) (entries : List (Node × Node)) (type : Text) : List Mismatch :=
  match duplicates (entries.map Prod.fst) with
  | [] => [n.mismatch type]
  | ds => ds

/-- The text of a node. -/
def toText (n : Node) (default : Text) : Except Unit (Decoded Text) :=
  match n with
  | .mapping _ entries => .ok (default, n.unexpectedMapping entries "string")
  | .sequence _ _ => .ok (default, [n.mismatch "string"])
  | .scalar _ tag plain value => do
    match ← scalarOf tag plain value with
    | .null => .ok (default, [])
    | .string t => .ok (t, [])
    | _ => .ok (value, [])

/-- The truth value of a node; some words stand for one too. -/
def toBool (n : Node) (default : Bool) : Except Unit (Decoded Bool) :=
  match n with
  | .mapping _ entries => .ok (default, n.unexpectedMapping entries "bool")
  | .sequence _ _ => .ok (default, [n.mismatch "bool"])
  | .scalar _ tag plain value => do
    match ← scalarOf tag plain value with
    | .null => .ok (default, [])
    | .bool b => .ok (b, [])
    | .string t =>
      if ScalarType.isWord ScalarType.oldTrue t then .ok (true, [])
      else if ScalarType.isWord ScalarType.oldFalse t then .ok (false, [])
      else .ok (default, [n.mismatch "bool"])
    | .other => .ok (default, [n.mismatch "bool"])

/-- The name of a key, unless it is null. -/
def keyName (n : Node) : Except Unit (Decoded (Option Text)) :=
  match n with
  | .scalar _ tag plain value => do
    match ← scalarOf tag plain value with
    | .null => .ok (none, [])
    | .string t => .ok (some t, [])
    | _ => .ok (some value, [])
  | n => do
    let (_, problems) ← n.toText []
    .ok (none, problems)

/-- Whether a key is the sign that merges another mapping. -/
def isMerge : Node → Bool
  | .scalar _ tag _ value => value == "<<" && tag == some (Text.ofString "!!merge")
  | _ => false

end Node

/-- A setting of a group: its key, and how its node changes the group. -/
structure Setting (α : Type) where
  key : Text
  decode : Node → α → Except Unit (Decoded α)

/-- Reads one entry of a group; fails when a scalar contradicts its tag. -/
def decodeEntry {α : Type} (type : Text) (settings : List (Setting α)) (state : Decoded α)
    (key value : Node) : Except Unit (Decoded α) := do
  let (name, problems) ← key.keyName
  let found := state.2 ++ problems
  match name with
  | none => .ok (state.1, found)
  | some name =>
    match settings.find? (·.key == name) with
    | none => .ok (state.1, found ++ [.unknownField key.line name type])
    | some s =>
      let (a, problems) ← s.decode value state.1
      .ok (a, found ++ problems)

/-- Reads the entries of a group, but not those of other mappings merged into it. -/
def decodeEntries {α : Type} (type : Text) (settings : List (Setting α))
    (entries : List (Node × Node)) (state : Decoded α) : Except Unit (Decoded α) :=
  entries.foldlM (fun state (key, value) =>
    if key.isMerge then .ok state else decodeEntry type settings state key value) state

/-- The mappings that the entries of a group merge into it. -/
def mergedMappings (entries : List (Node × Node)) : Except Unit (List (List (Node × Node))) :=
  let entriesOf : Node → Except Unit (List (Node × Node))
    | .mapping _ es => .ok es
    | _ => .error ()
  match (entries.filter (·.1.isMerge)).getLast? with
  | none => .ok []
  | some (_, .sequence _ items) => items.mapM entriesOf
  | some (_, node) => do .ok [← entriesOf node]

/-- Reads merged mappings; a key that is set already is left out. -/
def decodeMerged {α : Type} (type : Text) (settings : List (Setting α)) (taken : List Text) :
    List (List (Node × Node)) → Decoded α → Except Unit (Decoded α)
  | [], state => .ok state
  | entries :: rest, state => do
    match Node.duplicates (entries.map Prod.fst) with
    | [] =>
      let fresh := entries.filter fun (k, _) => !taken.contains k.value
      let state ← decodeEntries type settings fresh state
      decodeMerged type settings (taken ++ fresh.map (·.1.value)) rest state
    | ds => decodeMerged type settings taken rest (state.1, state.2 ++ ds)

/-- Reads a group of settings. -/
def decodeGroup {α : Type} (type : Text) (settings : List (Setting α)) (n : Node) (default : α) :
    Except Unit (Decoded α) :=
  match n with
  | .sequence _ _ => .ok (default, [n.mismatch type])
  | .scalar _ tag plain value => do
    match ← Node.scalarOf tag plain value with
    | .null => .ok (default, [])
    | _ => .ok (default, [n.mismatch type])
  | .mapping _ entries =>
    match Node.duplicates (entries.map Prod.fst) with
    | [] => do
      let state ← decodeEntries type settings entries (default, [])
      let merged ← mergedMappings entries
      decodeMerged type settings (entries.map (·.1.value)) merged state
    | ds => .ok (default, ds)

end Yaml

/-- Why a configuration could not be loaded. -/
inductive ConfigError where
  | unreadable (error : PathError)
  | malformed (path : Text)
  | mistyped (path : Text) (problems : List Mismatch)
  | invalid (violations : List Violation)
  deriving DecidableEq, Repr

/-- The wording of the error. -/
def ConfigError.message : ConfigError → Text
  | .unreadable e => e.message
  | .malformed path => "parsing " ++ path ++ ": yaml: malformed document"
  | .mistyped path problems =>
    "parsing " ++ path ++ ": yaml: unmarshal errors:\n  " ++
      Text.join "\n  " (problems.map Mismatch.message)
  | .invalid violations => Config.violationsMessage violations

namespace Config

open Yaml (Setting Decoded Node)

/-- A setting that is a text. -/
def textSetting {α : Type} (key : Text) (get : α → Text) (set : α → Text → α) : Setting α :=
  ⟨key, fun n a => do
    let (t, problems) ← n.toText (get a)
    .ok (set a t, problems)⟩

/-- A setting that is on or off. -/
def switchSetting {α : Type} (key : Text) (get : α → Bool) (set : α → Bool → α) : Setting α :=
  ⟨key, fun n a => do
    let (b, problems) ← n.toBool (get a)
    .ok (set a b, problems)⟩

/-- The templates, with their keys. -/
def templateSettings : List (Setting Config) :=
  [textSetting "self" (·.templates.itself)
      fun c t => { c with templates := { c.templates with itself := t } },
    textSetting "axiom" (·.templates.given)
      fun c t => { c with templates := { c.templates with given := t } },
    textSetting "modus_ponens" (·.templates.modusPonens)
      fun c t => { c with templates := { c.templates with modusPonens := t } },
    textSetting "any" (·.templates.universal)
      fun c t => { c with templates := { c.templates with universal := t } },
    textSetting "exists" (·.templates.existential)
      fun c t => { c with templates := { c.templates with existential := t } }]

/-- All settings, in the groups a file has them in. -/
def settings : List (Setting Config) :=
  [textSetting "name" (·.name) fun c t => { c with name := t },
    ⟨"check", Yaml.decodeGroup "proof.CheckConfig"
      [switchSetting "discharge_safety" (·.dischargeSafety)
        fun c b => { c with dischargeSafety := b }]⟩,
    ⟨"output", Yaml.decodeGroup "proof.OutputConfig"
      [textSetting "format" (·.format) fun c t => { c with format := t }]⟩,
    ⟨"deduction", Yaml.decodeGroup "proof.DeductionConfig"
      [switchSetting "verify" (·.verify) fun c b => { c with verify := b },
        ⟨"templates", Yaml.decodeGroup "proof.TemplatesConfig" templateSettings⟩]⟩]

/-- The configuration in the content of a file. -/
def parse (path content : Text) : Except ConfigError Config :=
  match Yaml.read content with
  | .error _ => .error (.malformed path)
  | .ok none => .ok {}
  | .ok (some node) =>
    match Yaml.decodeGroup "proof.Config" settings node {} with
    | .error _ => .error (.malformed path)
    | .ok (c, []) => .ok c
    | .ok (_, problems) => .error (.mistyped path problems)

/-- The file a configuration is looked for in when none is named. -/
def defaultFile : Text := ".hilbert.yaml"

/-- Loads a configuration. Without a path, and without a file at the usual place, it is the
default one. -/
def load (tree : FileTree) (path : Text) : Except ConfigError Config :=
  if path.isEmpty then .ok {}
  else
    match tree.stat path with
    | .error fault =>
      if fault = .notFound && path = defaultFile then .ok {}
      else .error (.unreadable ⟨"open", path, fault⟩)
    | .ok .directory => .error (.malformed path)
    | .ok (.file content) => do
      let c ← parse path content
      match c.violations with
      | [] => .ok c
      | vs => .error (.invalid vs)

/-- The start of a line with a key. -/
def keyStart (level : Nat) (key : Text) : Text :=
  let indent : Text := List.replicate (level * Yaml.levelWidth) 32
  indent ++ key ++ ": "

/-- A key with its text. -/
def textLine (level : Nat) (key value : Text) : Text :=
  keyStart level key ++ Yaml.scalar level value

/-- A key with its truth value. -/
def switchLine (level : Nat) (key : Text) (value : Bool) : Text :=
  let word : Text := if value then "true\n" else "false\n"
  keyStart level key ++ word

/-- The lines of the templates that are set. -/
def templateLines (t : Templates) : Text :=
  let line (key value : Text) : Text := if value.isEmpty then [] else textLine 2 key value
  let lines := line "self" t.itself ++ line "axiom" t.given ++ line "modus_ponens" t.modusPonens ++
    line "any" t.universal ++ line "exists" t.existential
  if lines.isEmpty then [] else "    templates:\n" ++ lines

/-- The content of the file for a configuration. -/
def render (c : Config) : Text :=
  textLine 0 "name" c.name ++ "check:\n" ++
    switchLine 1 "discharge_safety" c.dischargeSafety ++ "output:\n" ++
    textLine 1 "format" c.format ++ "deduction:\n" ++
    switchLine 1 "verify" c.verify ++ templateLines c.templates

/-- Writes a configuration. -/
def save (tree : FileTree) (path : Text) (c : Config) : Except PathError FileTree :=
  tree.write path c.render

end Config

end Sequitur
