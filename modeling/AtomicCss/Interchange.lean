/-
The JSON records of the data that goes into and comes out of a transformation. Each kind of data
has a list of field names, an encoding that gives the fields in the order of that list, and a
decoding that takes any form of the record. Decoding what was encoded gives the data back.
-/

import AtomicCss.Json.Parser
import AtomicCss.Json.Printer
import AtomicCss.Json.Record
import AtomicCss.Transformation

namespace AtomicCss

/-! ### Declarations -/

namespace Declaration

def fieldNames : List Text :=
  ["property".toList, "value".toList]

def toJson (declaration : Declaration) : Json :=
  .record (fieldNames.zip [.ofText declaration.property, .ofText declaration.value])

def ofJson? (json : Json) : Option Declaration := do
  let [property, value] ← json.fields? fieldNames | none
  let property ← Json.required? Json.text? property
  let value ← Json.required? Json.text? value
  return ⟨property, value⟩

end Declaration

/-! ### Options -/

namespace TransformOptions

def fieldNames : List Text :=
  ["isRem".toList, "prefix".toList]

def toJson (options : TransformOptions) : Json :=
  .record (fieldNames.zip [.bool options.isRem, .ofText options.lead])

/-- Without rem mode and with nothing in front of the classes where nothing is said. -/
def ofJson? (json : Json) : Option TransformOptions := do
  let [isRem, lead] ← json.fields? fieldNames | none
  let isRem ← Json.orDefault? false Json.bool? isRem
  let lead ← Json.orDefault? [] Json.text? lead
  return ⟨isRem, lead⟩

end TransformOptions

/-! ### Outputs -/

namespace AtomicOutput

def fieldNames : List Text :=
  ["cssCode".toList, "classList".toList]

def toJson (output : AtomicOutput) : Json :=
  .record (fieldNames.zip [.ofText output.cssCode, .ofText output.classList])

def ofJson? (json : Json) : Option AtomicOutput := do
  let [cssCode, classList] ← json.fields? fieldNames | none
  let cssCode ← Json.required? Json.text? cssCode
  let classList ← Json.required? Json.text? classList
  return ⟨cssCode, classList⟩

end AtomicOutput

/-! ### Uses of variables -/

namespace VariableUse

def fieldNames : List Text :=
  ["name".toList, "fallback".toList, "start".toList, "end".toList]

def toJson (use : VariableUse) : Json :=
  .record (fieldNames.zip
    [.ofText use.name, .ofOption .ofText use.fallback, .ofNat use.start, .ofNat use.stop])

/-- A missing fallback is the same as a fallback of null. -/
def ofJson? (json : Json) : Option VariableUse := do
  let [name, fallback, start, stop] ← json.fields? fieldNames | none
  let name ← Json.required? Json.text? name
  let fallback ← Json.orDefault? none (Json.optional? Json.text?) fallback
  let start ← Json.required? Json.count? start
  let stop ← Json.required? Json.count? stop
  return ⟨name, fallback, start, stop⟩

end VariableUse

/-! ### Prepared declarations -/

namespace Prepared

def fieldNames : List Text :=
  [ "key".toList, "cssValue".toList, "unoValue".toList, "cssVars".toList, "hasPx".toList,
    "generatedClass".toList ]

def toJson (prepared : Prepared) : Json :=
  .record (fieldNames.zip
    [ .ofText prepared.property, .ofText prepared.value, .ofText prepared.resolved,
      .array (prepared.uses.map VariableUse.toJson), .bool prepared.hasPx,
      .ofText prepared.generated ])

end Prepared

/-! ### Documents -/

/-- The data that a document holds, read by the decoding of its kind. -/
def decode? {Data : Type} (ofJson? : Json → Option Data) (document : Text) : Option Data :=
  (Json.parse? document).bind ofJson?

end AtomicCss
