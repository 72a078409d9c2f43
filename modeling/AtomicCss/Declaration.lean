/-
Style declarations, alone and as the ordered style of an element. A style has one value for each of
its properties; giving a property again replaces its value and leaves it in its place.
-/

import AtomicCss.Text.Basic

namespace AtomicCss

/-! ### One declaration -/

structure Declaration where
  property : Text
  value : Text
  deriving DecidableEq

namespace Declaration

/-- The property and the value with a colon between them, as a class generator reads them. -/
def text (declaration : Declaration) : Text :=
  declaration.property ++ ": ".toList ++ declaration.value

/-- The declaration as a line of a style sheet. -/
def cssLine (declaration : Declaration) : Text :=
  declaration.text ++ [';']

end Declaration

/-! ### Styles -/

/-- Declarations in the order in which their properties first came, each property once. -/
structure Style where
  declarations : List Declaration
  nodup : (declarations.map Declaration.property).Nodup
  deriving DecidableEq

namespace Style

def empty : Style :=
  ⟨[], List.nodup_nil⟩

/-- The declaration with a new value, if it is the one that is meant. -/
def replaceValue (property value : Text) (declaration : Declaration) : Declaration :=
  if declaration.property = property then ⟨property, value⟩ else declaration

@[simp] theorem property_replaceValue (property value : Text) (declaration : Declaration) :
    (replaceValue property value declaration).property = declaration.property := by
  unfold replaceValue
  split
  · next same => exact same.symm
  · rfl

/-- A property that is there already takes the new value in its old place. -/
def insert (style : Style) (property value : Text) : Style :=
  if present : (style.declarations.map Declaration.property).contains property then
    ⟨style.declarations.map (replaceValue property value), by
      have same : (style.declarations.map (replaceValue property value)).map
          Declaration.property = style.declarations.map Declaration.property := by
        simp [Function.comp_def]
      rw [same]
      exact style.nodup⟩
  else
    ⟨style.declarations ++ [⟨property, value⟩], by
      rw [List.map_append, List.nodup_append]
      refine ⟨style.nodup, by simp, ?_⟩
      intro old member new single equal
      have named : new = property := by simpa using single
      refine present (List.contains_iff_mem.mpr ?_)
      rwa [equal, named] at member⟩

def ofList (entries : List (Text × Text)) : Style :=
  entries.foldl (fun style entry => style.insert entry.1 entry.2) empty

end Style

end AtomicCss
