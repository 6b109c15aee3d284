import TimedAutomata.Config.Basic
import TimedAutomata.Text.Blank
import TimedAutomata.Yaml.Decode

/-!
# Reading configurations

The values of a configuration as they are written in a YAML document. A record is a mapping with
known keys, each at most once; where nothing is written, a record has no entries and a list no
items.

- `natural?`, `integer?`, `boolean?`, `text?`, `optional?`: scalars by type. Numbers and truth
  values are plain scalars; a text may be written in any style.
- `fields`, `items`: the entries of a record and the items of a list
- `Config.read`: a configuration; a blank text is the default one
-/

namespace TimedAutomata
namespace Config

open Yaml (Decode Document Node Style Tag)
open Yaml.Decode (follow ofOption refuse single)

/-! ## Numbers -/

def digitValue? (base : Nat) (c : Char) : Option Nat := do
  let v ← Yaml.hexValue? c
  if v < base then some v else none

/-- The number written with the digits of a base, of which there is at least one. -/
def digits? (base : Nat) (cs : List Char) : Option Nat :=
  if cs.isEmpty then none
  else cs.foldlM (fun n c => (digitValue? base c).map (base * n + ·)) 0

/-- The number behind `0x`, `0o` or `0b`, or in base ten; there, a zero must not be followed by
further digits. -/
def magnitude? : List Char → Option Nat
  | '0' :: 'x' :: cs => digits? 16 cs
  | '0' :: 'o' :: cs => digits? 8 cs
  | '0' :: 'b' :: cs => digits? 2 cs
  | '0' :: _ :: _ => none
  | cs => digits? 10 cs

/-- A number with an optional plus sign, below `limit`. -/
def unsigned? (limit : Nat) (cs : List Char) : Option Nat := do
  let n ← match cs with
    | '+' :: cs => magnitude? cs
    | cs => magnitude? cs
  if n < limit then some n else none

/-- Whether a number is in the range of 64 bits with a sign. -/
def fitsWord (n : Int) : Bool :=
  -9223372036854775808 ≤ n && n ≤ 9223372036854775807

/-- A number with an optional sign, in 64 bits. -/
def signed? (cs : List Char) : Option Int := do
  let n : Int ← match cs with
    | '-' :: cs => (magnitude? cs).map fun n => -(n : Int)
    | '+' :: cs => (magnitude? cs).map fun n => (n : Int)
    | cs => (magnitude? cs).map fun n => (n : Int)
  if fitsWord n then some n else none

/-! ## Scalars -/

/-- The tag of a type that every document knows. -/
def coreTag (name : String) : Tag :=
  Document.coreStem ++ Yaml.tagOf name.toList

/-- The text of a scalar that is plain, or a literal block with the tag of its type. -/
def typed? (name : String) : Node → Option String
  | .scalar p style text =>
    if style = .plain || (style = .literal && p.tag == some (coreTag name)) then some text else none
  | _ => none

def text? : Node → Option String
  | .scalar _ _ text => some text
  | _ => none

def natural? (limit : Nat) (n : Node) : Option Nat := do
  unsigned? limit (← typed? "int" n).toList

def integer? (n : Node) : Option Int := do
  signed? (← typed? "int" n).toList

def boolean? (n : Node) : Option Bool := do
  match ← typed? "bool" n with
  | "true" | "True" | "TRUE" => some true
  | "false" | "False" | "FALSE" => some false
  | _ => none

def isNull (text : String) : Bool :=
  text == "null" || text == "Null" || text == "NULL" || text == "~"

/-- A value that may be left out or written as null. -/
def optional? {α : Type} (read : Node → Option α) (n : Node) : Option (Option α) :=
  match n with
  | .scalar ⟨_, none⟩ .plain text =>
    if text.isEmpty || isNull text then some none else some <$> read n
  | .scalar ⟨_, some tag⟩ .plain text =>
    if tag == coreTag "null" then if isNull text then some none else none else some <$> read n
  | _ => some <$> read n

/-- The name in a tag of the document's own: what follows the exclamation mark, as characters. -/
def localName? : Tag → Option String
  | 0x21 :: bytes => String.fromUTF8? ⟨bytes.toArray⟩
  | _ => none

/-- The name of a class: a text, or a local tag in front of nothing. -/
def className? : Node → Option ClassName
  | .scalar p style text => do
    let name ← match p.tag.bind localName? with
      | some name => if style = .plain && (text.isEmpty || isNull text) then some name else none
      | none => some text
    match name with
    | "exclusive" => some .exclusive
    | "ranked" => some .ranked
    | "default" => some .default
    | _ => none
  | _ => none

/-! ## Records and lists -/

/-- The entries of a record whose keys are among `known`. -/
def fields (known : List String) (n : Node) : Decode (List (String × Node)) := do
  match ← follow n with
  | .absent => return []
  | .scalar _ .plain "" => return []
  | .mapping _ entries =>
    let fields ← entries.mapM fun (k, v) => do return (← single text? k, v)
    if (fields.map Prod.fst).Nodup && fields.all (fun f => known.contains f.1) then return fields
    else refuse
  | _ => refuse

def items {α : Type} (decode : Node → Decode α) (n : Node) : Decode (List α) := do
  match ← follow n with
  | .scalar _ .plain "" => return []
  | .sequence _ items => items.mapM decode
  | _ => refuse

/-- The value of a key, or `default` where it is left out. -/
def field {α : Type} (fields : List (String × Node)) (key : String) (default : α)
    (decode : Node → Decode α) : Decode α :=
  match fields.lookup key with
  | some n => decode n
  | none => return default

/-- The value of a key that must not be left out. -/
def required {α : Type} (fields : List (String × Node)) (key : String)
    (decode : Node → Decode α) : Decode α := do
  decode (← ofOption (fields.lookup key))

/-! ## Configurations -/

def decodeEmission (n : Node) : Decode Emission := do
  let fs ← fields ["package", "channel_depth", "tick_interval_ms", "poll_interval_ms", "seed",
    "trace"] n
  let d := Emission.default
  let wide := single (natural? UInt64.size)
  return {
    package := ← field fs "package" d.package (single text?)
    channelDepth := ← field fs "channel_depth" d.channelDepth wide
    tickInterval := ← field fs "tick_interval_ms" d.tickInterval wide
    pollInterval := ← field fs "poll_interval_ms" d.pollInterval wide
    seed := ← field fs "seed" d.seed (single (optional? integer?))
    trace := ← field fs "trace" d.trace (single boolean?) }

def decodeAssignment (n : Node) : Decode Assignment := do
  let fs ← fields ["ordinal", "class", "rank"] n
  return {
    ordinal := ← required fs "ordinal" (single (natural? UInt64.size))
    className := ← required fs "class" (single className?)
    rank := ← field fs "rank" none (single (optional? (natural? UInt32.size))) }

def decodeEntry (n : Node) : Decode ArbitrationEntry := do
  let fs ← fields ["automaton", "state", "transitions"] n
  return {
    automaton := ← required fs "automaton" (single text?)
    state := ← required fs "state" (single text?)
    assignments := ← required fs "transitions" (items decodeAssignment) }

def decode (n : Node) : Decode Config := do
  let fs ← fields ["emit", "arbitration"] n
  return {
    emission := ← field fs "emit" .default decodeEmission
    arbitration := ← field fs "arbitration" [] (items decodeEntry) }

/-- The configuration written in a document. -/
def read (text : String) : Except Error Config :=
  if (Text.trim text.toList).isEmpty then .ok default
  else
    match (Document.read? text).bind (Decode.run? decode) with
    | none => .error .unreadable
    | some c => c.check

end Config
end TimedAutomata
