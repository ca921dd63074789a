import Mathlib.Data.List.Basic

/-! Patterns with `*` and `?`, matched byte by byte. -/
namespace Rustfs.Iam

def asBytes (s : String) : List UInt8 := s.toList.flatMap String.utf8EncodeChar

/-- Some end of the name is accepted. -/
def anySuffix (accepts : List UInt8 → Bool) : List UInt8 → Bool
  | [] => accepts []
  | n :: name => accepts (n :: name) || anySuffix accepts name

/-- A `?` takes one byte; with `simple`, it also ends a match where no byte is left. -/
def deepMatch (simple : Bool) : List UInt8 → List UInt8 → Bool
  | [], name => name.isEmpty
  | p :: pattern, name =>
    if p = '?'.toUInt8 then
      match name with
      | [] => simple
      | _ :: name => deepMatch simple pattern name
    else if p = '*'.toUInt8 then pattern.isEmpty || anySuffix (deepMatch simple pattern) name
    else
      match name with
      | [] => false
      | n :: name => n == p && deepMatch simple pattern name

def innerMatch (simple : Bool) (pattern name : String) : Bool :=
  if pattern = "" then name == "" else if pattern = "*" then true
  else deepMatch simple (asBytes pattern) (asBytes name)

/-- `wildcard::is_match`. -/
def isMatch : String → String → Bool := innerMatch false

/-- `wildcard::is_simple_match`. -/
def isSimpleMatch : String → String → Bool := innerMatch true

example : isMatch "my-bucket/In*/Ka*/Ban" "my-bucket/India/Karnataka/Ban/Ban" = true := by
  decide +kernel

end Rustfs.Iam
