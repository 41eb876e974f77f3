import CoinScript.Json.Read
import CoinScript.Profile

/-!
Profile configurations as JSON text.

Keys that mean nothing here are ignored, and a key that means something may come once. A
structure may be given by position in an array. An alternative is chosen by a tag inside its
object; the members of such an object are all read before the choice, so that faults in
members that are then ignored count.
-/

namespace CoinScript

namespace ConfigText

/-- How deep a text may be nested where it is not ignored. -/
def maxDepth : Nat := 127

/-- A plain alternative: its name, or its name as the only key over something empty. -/
def choice? {α : Type} (ofKey? : String → Option α) (empty : Json → Bool) : Json → Option α
  | .string s? => s?.bind ofKey?
  | .object [(k, j)] => if empty j then k.bind ofKey? else none
  | _ => none

def isNull : Json → Bool
  | .null => true
  | _ => false

/-- Null, or an object without members. -/
def isVoid : Json → Bool
  | .null | .object [] => true
  | _ => false

def tag? : Json → Option FieldTag := choice? FieldTag.ofKey? isNull

def kind? : Json → Option EntityKind := choice? EntityKind.ofKey? isVoid

/-- An object or array whose tag tells what the rest means: the tag and the rest, all of which
must be proper and leave room for `room` levels. -/
def tagged? (key : String) (room : Nat) : Json → Option (String × Json)
  | .object members => do
    let tag ← (← (← Json.member? members key)).string?
    let rest := Json.object (members.filter (·.1 ≠ some key))
    if rest.isProper ∧ rest.depth ≤ room then some (tag, rest) else none
  | .array (tag :: items) => do
    let tag ← tag.string?
    let rest := Json.array items
    if rest.isProper ∧ rest.depth ≤ room then some (tag, rest) else none
  | _ => none

/-- An alternative without fields: an array must then have no items left. -/
def noFields? : Json → Option Unit
  | .array (_ :: _) => none
  | _ => some ()

/-- The largest number of four, or of eight, unsigned bytes. -/
def maxWidth : Int := 0xffffffffffffffff

/-- An encoding, by its tag and then by its own fields. -/
def encoding? (room : Nat) (j : Json) : Option FieldEncoding := do
  let (tag, rest) ← tagged? "type" room j
  match tag with
  | "int" =>
    match ← rest.fields? ["width", "signed"] with
    | [some width, some signed] =>
      return .int (← width.intIn? 0 255).toNat (← signed.bool?)
    | _ => none
  | "fixed_bytes" =>
    match ← rest.fields? ["width"] with
    | [some width] => return .fixedBytes (← width.intIn? 0 maxWidth).toNat
    | _ => none
  | "var_bytes" => (noFields? rest).map fun _ => .varBytes
  | "script" => (noFields? rest).map fun _ => .script
  | "hash" => (noFields? rest).map fun _ => .hash
  | "nested" =>
    match ← rest.fields? ["kind"] with
    | [some kind] => (kind? kind).map .nested
    | _ => none
  | "vector" =>
    match ← rest.fields? ["kind"] with
    | [some kind] => (kind? kind).map .vector
    | _ => none
  | _ => none

/-- An integer of eight signed bytes. -/
def long? (j : Json) : Option Int :=
  j.intIn? (-0x8000000000000000) 0x7fffffffffffffff

/-- A presence condition, by its tag and then by its own fields. -/
def presence? (room : Nat) (j : Json) : Option Presence := do
  let (tag, rest) ← tagged? "when" room j
  match tag with
  | "always" => (noFields? rest).map fun _ => .always
  | "greater_than" =>
    match ← rest.fields? ["field", "value"] with
    | [some source, some bound] =>
      return .greaterThan (← source.string?) (← long? bound)
    | _ => none
  | _ => none

/-- The first integer above those of sixteen signed bytes. -/
def wideBound : Int := 0x80000000000000000000000000000000

/-- An integer of sixteen bytes, which may be written as minus zero. -/
def wide? : Json → Option Int
  | .number n => n.signedInt?.filter fun v => -wideBound ≤ v ∧ v < wideBound
  | _ => none

def byte? (j : Json) : Option UInt8 :=
  (j.intIn? 0 255).map fun v => UInt8.ofNat v.toNat

def default? : Json → Option FieldDefault
  | .object [(some "int", j)] => (wide? j).map .int
  | .object [(some "bytes", j)] => (j.list? byte?).map .bytes
  | _ => none

def field? (level : Nat) (j : Json) : Option FieldDescriptor := do
  let room := maxDepth - level - 1
  match ← j.fields? ["name", "encoding", "presence", "default", "tags"] with
  | [some name, some encoding, presence, dflt, tags] =>
    return {
      name := ← name.string?
      encoding := ← encoding? room encoding
      presence := ← (presence.map (presence? room)).getD (some .always)
      default? := ← (dflt.map (Json.optional? default?)).getD (some none)
      tags := ← (tags.map (Json.list? tag?)).getD (some []) }
  | _ => none

def fields? (level : Nat) : Json → Option (List FieldDescriptor) :=
  Json.list? (field? (level + 1))

def layout? (values : List (Option Json)) :
    Option (EntityKind → Option (List FieldDescriptor)) := do
  let layouts ← values.mapM fun j? =>
    (j?.map (Json.optional? (fields? 1))).getD (some none)
  return fun kind => (layouts[EntityKind.all.idxOf kind]?).join

/-- A configuration. Only layouts, the disabled opcodes and defaults may be null. -/
def config? (j : Json) : Option ProfileConfig := do
  match ← j.fields? ["name", "outpoint", "txin", "txout", "transaction", "header", "block",
      "renames", "disabled", "overrides"] with
  | name :: rest =>
    let layout ← layout? (rest.take 6)
    match rest.drop 6 with
    | [renames, disabled, overrides] =>
      return {
        name := ← (name.map Json.string?).getD (some "")
        layout? := layout
        renames := ← (renames.map Json.table?).getD (some [])
        disabled? := ←
          (disabled.map (Json.optional? (Json.list? Json.string?))).getD (some none)
        overrides := ← (overrides.map Json.table?).getD (some []) }
    | _ => none
  | _ => none

end ConfigText

/-- A configuration from its text. -/
def ProfileConfig.ofText (text : String) : Except Fault ProfileConfig :=
  match (Json.ofText? text).bind ConfigText.config? with
  | some c => .ok c
  | none => .error (.schema .configuration)

def FieldDescriptor.listOfText (text : String) : Except Fault (List FieldDescriptor) :=
  match (Json.ofText? text).bind (ConfigText.fields? 0) with
  | some fs => .ok fs
  | none => .error (.schema .configuration)

def Profile.ofText (text : String) : Except Fault Profile := do
  Profile.ofConfig (← ProfileConfig.ofText text)

end CoinScript
