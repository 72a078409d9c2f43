/-
From a style to its classes. Each declaration is prepared on its own: comments are dropped, the
fallbacks of its variables are filled in, and a generator is asked for a class. The class is then
finished by bringing its numbers to scale and writing the tokens of the variables back. A
transformation does this for every declaration that the settings do not ignore, and gives both the
declarations as a style sheet and the finished classes as one list.
-/

import AtomicCss.ClassNumber
import AtomicCss.Comment
import AtomicCss.Declaration
import AtomicCss.Generator.BuiltIn
import AtomicCss.Settings
import AtomicCss.TokenInjection

namespace AtomicCss

/-! ### One declaration -/

/-- A declaration on its way to a class. -/
structure Prepared where
  property : Text
  /-- The value without comments and without blanks around it. -/
  value : Text
  /-- The value with the fallbacks of its variables filled in. -/
  resolved : Text
  uses : List VariableUse
  /-- Whether a length in pixels may be in the resolved value. -/
  hasPx : Bool
  /-- The class as it was generated, empty if there is none. -/
  generated : Text
  deriving DecidableEq

namespace Prepared

def declaration (prepared : Prepared) : Declaration :=
  ⟨prepared.property, prepared.value⟩

/-- The class with its numbers to scale and the tokens of its variables. -/
def finish (prepared : Prepared) : Text :=
  TokenInjection.inject (ClassNumber.normalize prepared.generated prepared.hasPx) prepared.uses

end Prepared

namespace Declaration

def prepare (declaration : Declaration) (isRem : Bool) (generator : Generator) : Prepared :=
  let value := Text.trim (Comment.strip declaration.value)
  let resolved := Text.trim (Variable.resolve value)
  { property := declaration.property
    value := value
    resolved := resolved
    uses := Variable.uses value
    hasPx := Text.contains "px".toList resolved
    generated := generator.best (Declaration.text ⟨declaration.property, resolved⟩) isRem }

end Declaration

/-! ### Styles -/

/-- How classes are to be written: whether in rem mode, and with what in front of them. -/
structure TransformOptions where
  isRem : Bool
  lead : Text
  deriving DecidableEq

/-- The declarations that were transformed, as a style sheet, and the list of their classes. -/
structure AtomicOutput where
  cssCode : Text
  classList : Text
  deriving DecidableEq

structure Transformer where
  generator : Generator
  settings : Settings

namespace Transformer

def builtIn : Transformer :=
  ⟨BuiltIn.generate, Settings.standard⟩

def withSettings (transformer : Transformer) (settings : Settings) : Transformer :=
  { transformer with settings := settings }

/-- The declarations that take part, prepared, in the order of the style. -/
def prepare (transformer : Transformer) (style : Style) (isRem : Bool) : List Prepared :=
  (style.declarations.filter fun declaration =>
    !transformer.settings.isIgnored declaration.property).map fun declaration =>
      declaration.prepare isRem transformer.generator

/-- A declaration without a class stays in the style sheet and leaves no trace in the list. -/
def outputOf (prepared : List Prepared) (lead : Text) : AtomicOutput where
  cssCode := Text.join ['\n'] (prepared.map fun each => each.declaration.cssLine)
  classList := Text.join [' ']
    (((prepared.map Prepared.finish).filter (!·.isEmpty)).map (lead ++ ·))

def transform (transformer : Transformer) (style : Style) (options : TransformOptions) :
    AtomicOutput :=
  outputOf (transformer.prepare style options.isRem) options.lead

end Transformer

end AtomicCss
