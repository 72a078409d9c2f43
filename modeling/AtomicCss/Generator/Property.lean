/-
What the generator knows about style properties. Most properties take a length, a color or one of a
few keywords, and for these the class is a stem that the property chooses, with the value behind
it. The tables below say which property has which stem; what is done with the value is decided by
the kind of the property alone.
-/

import AtomicCss.Text.Basic

namespace AtomicCss

/-! ### Tables -/

/-- A table of texts, looked up by its first column. -/
def textTable (rows : List (String × String)) : List (Text × Text) :=
  rows.map fun (key, entry) => (key.toList, entry.toList)

namespace Property

/-- The class for each keyword of each property that takes nothing but keywords. -/
def keywordClasses : List (Text × List (Text × Text)) :=
  [ ("display".toList, textTable
      [ ("flex", "flex"), ("inline-flex", "inline-flex"), ("block", "block"),
        ("inline-block", "inline-block"), ("inline", "inline"), ("grid", "grid"),
        ("inline-grid", "inline-grid"), ("none", "hidden"), ("contents", "contents") ]),
    ("position".toList, textTable
      [ ("static", "static"), ("relative", "relative"), ("absolute", "absolute"),
        ("fixed", "fixed"), ("sticky", "sticky") ]),
    ("flex-direction".toList, textTable
      [ ("row", "flex-row"), ("row-reverse", "flex-row-reverse"), ("column", "flex-col"),
        ("column-reverse", "flex-col-reverse") ]),
    ("flex-wrap".toList, textTable
      [ ("wrap", "flex-wrap"), ("nowrap", "flex-nowrap"), ("wrap-reverse", "flex-wrap-reverse") ]),
    ("align-items".toList, textTable
      [ ("flex-start", "items-start"), ("start", "items-start"), ("flex-end", "items-end"),
        ("end", "items-end"), ("center", "items-center"), ("baseline", "items-baseline"),
        ("stretch", "items-stretch") ]),
    ("align-self".toList, textTable
      [ ("auto", "self-auto"), ("flex-start", "self-start"), ("flex-end", "self-end"),
        ("center", "self-center"), ("stretch", "self-stretch") ]),
    ("justify-content".toList, textTable
      [ ("flex-start", "justify-start"), ("start", "justify-start"), ("flex-end", "justify-end"),
        ("end", "justify-end"), ("center", "justify-center"),
        ("space-between", "justify-between"), ("space-around", "justify-around"),
        ("space-evenly", "justify-evenly") ]),
    ("text-align".toList, textTable
      [ ("left", "text-left"), ("center", "text-center"), ("right", "text-right"),
        ("justify", "text-justify"), ("start", "text-start"), ("end", "text-end") ]),
    ("font-style".toList, textTable
      [ ("italic", "italic"), ("normal", "not-italic") ]),
    ("text-decoration".toList, textTable
      [ ("underline", "underline"), ("line-through", "line-through"), ("none", "no-underline") ]),
    ("text-transform".toList, textTable
      [ ("uppercase", "uppercase"), ("lowercase", "lowercase"), ("capitalize", "capitalize"),
        ("none", "normal-case") ]),
    ("white-space".toList, textTable
      [ ("nowrap", "whitespace-nowrap"), ("normal", "whitespace-normal"),
        ("pre", "whitespace-pre"), ("pre-wrap", "whitespace-pre-wrap"),
        ("pre-line", "whitespace-pre-line") ]),
    ("word-break".toList, textTable
      [ ("break-all", "break-all"), ("keep-all", "break-keep") ]),
    ("vertical-align".toList, textTable
      [ ("top", "align-top"), ("middle", "align-middle"), ("bottom", "align-bottom"),
        ("baseline", "align-baseline") ]),
    ("overflow".toList, textTable
      [ ("hidden", "overflow-hidden"), ("auto", "overflow-auto"), ("scroll", "overflow-scroll"),
        ("visible", "overflow-visible") ]),
    ("overflow-x".toList, textTable
      [ ("hidden", "overflow-x-hidden"), ("auto", "overflow-x-auto") ]),
    ("overflow-y".toList, textTable
      [ ("hidden", "overflow-y-hidden"), ("auto", "overflow-y-auto") ]),
    ("box-sizing".toList, textTable
      [ ("border-box", "box-border"), ("content-box", "box-content") ]),
    ("cursor".toList, textTable
      [ ("pointer", "cursor-pointer"), ("default", "cursor-default"),
        ("not-allowed", "cursor-not-allowed") ]),
    ("visibility".toList, textTable
      [ ("hidden", "invisible"), ("visible", "visible") ]),
    ("pointer-events".toList, textTable
      [ ("none", "pointer-events-none"), ("auto", "pointer-events-auto") ]),
    ("border-style".toList, textTable
      [ ("solid", "border-solid"), ("dashed", "border-dashed"), ("dotted", "border-dotted"),
        ("none", "border-none") ]) ]

/-- The stem of the classes for each property that takes a length. -/
def lengthStems : List (Text × Text) :=
  textTable
    [ ("padding", "p"), ("padding-top", "pt"), ("padding-right", "pr"), ("padding-bottom", "pb"),
      ("padding-left", "pl"), ("padding-inline", "px"), ("padding-block", "py"), ("margin", "m"),
      ("margin-top", "mt"), ("margin-right", "mr"), ("margin-bottom", "mb"),
      ("margin-left", "ml"), ("margin-inline", "mx"), ("margin-block", "my"), ("width", "w"),
      ("height", "h"), ("min-width", "min-w"), ("min-height", "min-h"), ("max-width", "max-w"),
      ("max-height", "max-h"), ("flex-basis", "basis"), ("top", "top"), ("right", "right"),
      ("bottom", "bottom"), ("left", "left"), ("inset", "inset"), ("gap", "gap"),
      ("row-gap", "gap-y"), ("column-gap", "gap-x"), ("font-size", "text"),
      ("line-height", "leading"), ("letter-spacing", "tracking"), ("border-width", "border"),
      ("border-top-width", "border-t"), ("border-right-width", "border-r"),
      ("border-bottom-width", "border-b"), ("border-left-width", "border-l"),
      ("border-radius", "rounded"), ("border-top-left-radius", "rounded-tl"),
      ("border-top-right-radius", "rounded-tr"), ("border-bottom-right-radius", "rounded-br"),
      ("border-bottom-left-radius", "rounded-bl"), ("outline-width", "outline"),
      ("outline-offset", "outline-offset"), ("stroke-width", "stroke") ]

/-- The stem of the classes for each property that takes a color. -/
def colorStems : List (Text × Text) :=
  textTable
    [ ("color", "text"), ("background", "bg"), ("background-color", "bg"),
      ("border-color", "border"), ("border-top-color", "border-t"),
      ("border-right-color", "border-r"), ("border-bottom-color", "border-b"),
      ("border-left-color", "border-l"), ("outline-color", "outline"),
      ("text-decoration-color", "decoration"), ("caret-color", "caret"),
      ("accent-color", "accent"), ("fill", "fill"), ("stroke", "stroke") ]

/-- The stem of the classes for each property that takes the width, the style and the color of a
border at once. -/
def borderStems : List (Text × Text) :=
  textTable
    [ ("border", "border"), ("border-top", "border-t"), ("border-right", "border-r"),
      ("border-bottom", "border-b"), ("border-left", "border-l") ]

/-- The stems that a minus sign may precede. -/
def negatableStems : List Text :=
  [ "m".toList, "mt".toList, "mr".toList, "mb".toList, "ml".toList, "mx".toList, "my".toList,
    "top".toList, "right".toList, "bottom".toList, "left".toList, "inset".toList,
    "tracking".toList ]

/-- The colors that have a class of their own. -/
def colorKeywords : List (Text × Text) :=
  textTable
    [ ("transparent", "transparent"), ("currentcolor", "current"), ("inherit", "inherit"),
      ("white", "white"), ("black", "black") ]

/-- The styles that a border may be drawn in. -/
def borderStyles : List Text :=
  [ "solid".toList, "dashed".toList, "dotted".toList, "double".toList, "none".toList,
    "hidden".toList, "groove".toList, "ridge".toList, "inset".toList, "outset".toList ]

/-- The widths of a border that have a name. -/
def borderWidths : List Text :=
  ["thin".toList, "medium".toList, "thick".toList]

/-! ### Kinds -/

/-- What a property takes, with the stem of its classes or its table of keywords. -/
inductive Kind where
  | keyword (classes : List (Text × Text))
  | border (stem : Text)
  | length (stem : Text)
  | color (stem : Text)
  | opacity
  | layer
  | fontWeight
  | flex
  | flexFactor (stem : Text)
  /-- A property with no class of its own. -/
  | other

/-- The properties that are neither keywords, borders, lengths nor colors. -/
def singleKind (property : Text) : Kind :=
  if property = "opacity".toList then .opacity
  else if property = "z-index".toList then .layer
  else if property = "font-weight".toList then .fontWeight
  else if property = "flex".toList then .flex
  else if property = "flex-grow".toList then .flexFactor "grow".toList
  else if property = "flex-shrink".toList then .flexFactor "shrink".toList
  else .other

/-- The kind of a property whose name is in small letters. -/
def kind (property : Text) : Kind :=
  match keywordClasses.lookup property with
  | some classes => .keyword classes
  | none =>
    match borderStems.lookup property with
    | some stem => .border stem
    | none =>
      match lengthStems.lookup property with
      | some stem => .length stem
      | none =>
        match colorStems.lookup property with
        | some stem => .color stem
        | none => singleKind property

end Property

end AtomicCss
