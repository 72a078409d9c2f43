/-
Settings: the style properties that take no part in a transformation. They are a set that remembers
the order in which its members came in, and they may be given as a JSON record, in a file or in a
list. A property is ignored if it is in the set letter for letter.
-/

import AtomicCss.Json.Parser
import AtomicCss.Json.Record

namespace AtomicCss

structure Settings where
  ignored : List Text
  nodup : ignored.Nodup
  deriving DecidableEq

namespace Settings

/-! ### The set -/

def empty : Settings :=
  ⟨[], List.nodup_nil⟩

def isIgnored (settings : Settings) (property : Text) : Bool :=
  settings.ignored.contains property

/-- A property that is in the set already keeps its place. -/
def insert (settings : Settings) (property : Text) : Settings :=
  if present : settings.ignored.contains property then settings
  else ⟨settings.ignored ++ [property], by
    rw [List.nodup_append]
    refine ⟨settings.nodup, by simp, ?_⟩
    intro old member new single equal
    refine present (List.contains_iff_mem.mpr ?_)
    rwa [equal, List.mem_singleton.mp single] at member⟩

def ofList (properties : List Text) : Settings :=
  properties.foldl insert empty

/-- The properties that are ignored where nothing else is said. -/
def standard : Settings :=
  ofList
    [ "font-family".toList, "font-style".toList, "font-feature-settings".toList,
      "leading-trim".toList, "text-edge".toList, "-webkit-font-smoothing".toList ]

/-! ### Reading -/

/-- Why settings could not be read. -/
inductive Error where
  /-- The text is no JSON document, or the document is no settings record. -/
  | malformed
  /-- There is no such file, or its bytes are no UTF-8 text. -/
  | unreadable
  deriving DecidableEq

/-- The name of the record's one field, which may be missing. -/
def ignoredField : Text := "noNeedStylesKey".toList

def ofJson? (json : Json) : Option Settings := do
  let [properties] ← json.fields? [ignoredField] | none
  let properties ← Json.orDefault? [] (Json.list? Json.text?) properties
  return ofList properties

def parse (document : Text) : Except Error Settings :=
  match (Json.parse? document).bind ofJson? with
  | some settings => .ok settings
  | none => .error .malformed

/-- The settings in a file with these bytes; `none` stands for a file that is not there. -/
def load (content : Option ByteArray) : Except Error Settings :=
  match content.bind String.fromUTF8? with
  | some document => parse document.toList
  | none => .error .unreadable

end Settings

end AtomicCss
