import ShaderReducer.Text.Blank
import ShaderReducer.Text.Number

/-!
# Versions of the shading language

A version directive names a dialect: a number, and whether it is the dialect for embedded systems.
-/

namespace ShaderReducer

structure Version where
  number : Nat
  es : Bool
  deriving Repr, DecidableEq

namespace Version

def implicit : Version := ⟨110, false⟩

/-- Reads a directive such as `#version 310 es`. `core` and `compatibility` may stand in place of
`es`; anything else makes it no version directive. -/
def ofDirective? (text : String) : Option Version :=
  match text.toList with
  | '#' :: rest =>
    match Text.trimStartList rest with
    | 'v' :: 'e' :: 'r' :: 's' :: 'i' :: 'o' :: 'n' :: rest =>
      match Text.words rest with
      | [number] => (natural number).map (⟨·, false⟩)
      | [number, profile] =>
        if profile = "core" ∨ profile = "compatibility" then (natural number).map (⟨·, false⟩)
        else if profile = "es" then (natural number).map (⟨·, true⟩)
        else none
      | _ => none
    | _ => none
  | _ => none
where
  /-- A version number has 32 bits. -/
  natural (word : String) : Option Nat := Text.natural? 10 32 word.toList

def supportsUnsigned (v : Version) : Bool :=
  if v.es then 300 ≤ v.number else 130 ≤ v.number

def directive (v : Version) : String :=
  if v.es then "#version " ++ toString v.number ++ " es" else "#version " ++ toString v.number

end Version

end ShaderReducer
