import GraphQuery.Settings.Basic
import GraphQuery.Toml.Parse

/-!
# Settings in a document

Settings are read from a document with a section for the text and a section for the binding. What is missing keeps its
default, and names that are not known are passed over. A section is a table of settings; an array gives them in the
order of declaration.
-/

namespace GraphQuery

namespace Decimal

/-- Whether a decimal is rounded to infinity as a binary64 number. -/
def overflows (d : Decimal) : Bool :=
  let places : Int := (toString d.digits).length + d.exponent
  let bound := Nat.pow 2 1024 - Nat.pow 2 970
  if d.digits = 0 ∨ places < 300 then false
  else if 320 < places then true
  else if 0 ≤ d.exponent then bound ≤ d.digits * Nat.pow 10 d.exponent.toNat
  else bound * Nat.pow 10 (-d.exponent).toNat ≤ d.digits

end Decimal

namespace Toml

mutual

/-- Whether the numbers of a value that is passed over are in range: integers of 128 bits, finite floating-point
numbers. -/
def Item.inRange : Item → Bool
  | .integer n => if n < 0 then n.natAbs ≤ Nat.pow 2 127 else n.natAbs < Nat.pow 2 128
  | .float (some d) => !d.overflows
  | .array items => Item.allInRange items
  | .tables earlier last => ItemTable.allInRange earlier && last.inRange
  | .table t => t.inRange
  | .float none | .string _ | .boolean _ | .dateTime => true

/-- Whether the numbers of a list of values are in range. -/
def Item.allInRange : List Item → Bool
  | [] => true
  | item :: rest => item.inRange && Item.allInRange rest

/-- Whether the numbers of a table are in range. -/
def ItemTable.inRange : ItemTable → Bool
  | ⟨_, entries⟩ => ItemTable.entriesInRange entries

/-- Whether the numbers of the entries of a table are in range. -/
def ItemTable.entriesInRange : List (String × Item) → Bool
  | [] => true
  | (_, item) :: rest => item.inRange && ItemTable.entriesInRange rest

/-- Whether the numbers of a list of tables are in range. -/
def ItemTable.allInRange : List ItemTable → Bool
  | [] => true
  | t :: rest => t.inRange && ItemTable.allInRange rest

end

/-- The text of a value. -/
def Item.text? : Item → Option String
  | .string s => some s
  | _ => none

/-- The truth value of a value. -/
def Item.bool? : Item → Option Bool
  | .boolean b => some b
  | _ => none

/-- The character that is the whole text of a value. -/
def Item.char? : Item → Option Char
  | .string s =>
    match s.toList with
    | [c] => some c
    | _ => none
  | _ => none

end Toml

/-- A setting of a section: its name, and how a value is taken over. -/
structure SettingField (σ : Type) where
  name : String
  set : σ → Toml.Item → Option σ

namespace SettingField

variable {σ : Type}

/-- Takes over one entry of a section. -/
def takeEntry (fields : List (SettingField σ)) (s : σ) (entry : String × Toml.Item) : Option σ :=
  match fields.find? fun f => f.name == entry.1 with
  | some f => f.set s entry.2
  | none => if entry.2.inRange then some s else none

/-- Takes over values in the order of declaration. Values that are left over are not looked at. -/
def takeInOrder : List (SettingField σ) → List Toml.Item → σ → Option σ
  | f :: fields, item :: items, s => (f.set s item).bind (takeInOrder fields items)
  | _, _, s => some s

/-- Reads a section. A date-time names no settings. -/
def readSection (fields : List (SettingField σ)) (defaults : σ) : Toml.Item → Option σ
  | .table t => t.entries.foldlM (takeEntry fields) defaults
  | .array items => takeInOrder fields items defaults
  | .tables earlier last => takeInOrder fields ((earlier ++ [last]).map Toml.Item.table) defaults
  | .dateTime => some defaults
  | _ => none

end SettingField

/-- The settings for the text, in the order of declaration. -/
def TextSettings.fields : List (SettingField TextSettings) :=
  [⟨"identifier_quote", fun s v => v.char?.map fun c => { s with identifierQuote := c }⟩,
    ⟨"alias_separator", fun s v => v.text?.map fun t => { s with aliasSeparator := t }⟩,
    ⟨"indent", fun s v => v.text?.map fun t => { s with indent := t }⟩,
    ⟨"true_literal", fun s v => v.text?.map fun t => { s with trueLiteral := t }⟩,
    ⟨"false_literal", fun s v => v.text?.map fun t => { s with falseLiteral := t }⟩,
    ⟨"parameterize_literals", fun s v => v.bool?.map fun b => { s with parameterizeLiterals := b }⟩,
    ⟨"parameter_prefix", fun s v => v.text?.map fun t => { s with parameterPrefix := t }⟩]

/-- The settings for the binding, in the order of declaration. -/
def BindingSettings.fields : List (SettingField BindingSettings) :=
  [⟨"default_alias_prefix", fun s v => v.text?.map fun t => { s with defaultAliasPrefix := t }⟩,
    ⟨"project_constants", fun s v => v.bool?.map fun b => { s with projectConstants := b }⟩]

namespace Settings

/-- The sections of a document. -/
def fields : List (SettingField Settings) :=
  [⟨"generation", fun s v =>
      (SettingField.readSection TextSettings.fields {} v).map fun text => { s with text }⟩,
    ⟨"binding", fun s v =>
      (SettingField.readSection BindingSettings.fields {} v).map fun binding => { s with binding }⟩]

/-- Reads settings from the text of a document. -/
def parse (text : String) : Except SettingsError Settings := do
  let read? := (Toml.parse? text).bind fun root =>
    root.entries.foldlM (SettingField.takeEntry fields) {}
  match read? with
  | none => .error .malformed
  | some s =>
    s.check
    return s

/-- Reads settings from what a settings file holds; a file that cannot be read holds nothing. -/
def load (contents : Option String) : Except SettingsError Settings :=
  match contents with
  | some text => parse text
  | none => .error .unreadable

end Settings

end GraphQuery
