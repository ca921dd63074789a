import Mathlib.Data.List.Basic

/-! Slash separated paths: joining, cleaning, and splitting a bucket from the rest. -/
namespace Rustfs.Path

/-- One element of a path is taken into the elements before it, which stand last first. -/
def pushElement (rooted : Bool) (out : List String) (element : String) : List String :=
  if element = "" ∨ element = "." then out
  else if element = ".." then
    match out with
    | last :: before => if last = ".." then ".." :: out else before
    | [] => if rooted then [] else [".."]
  else element :: out

def elements (path : String) : List String := (path.toList.splitOn '/').map String.ofList

def clean (path : String) : String :=
  let rooted := path.toList.head? == some '/'
  let body := String.intercalate "/" ((elements path).foldl (pushElement rooted) []).reverse
  if rooted then "/" ++ body else if body = "" then "." else body

/-- `path_join` of two elements; an element before which nothing stands gets no slash. -/
def pathJoin (a b : String) : String :=
  let joined := if a = "" then b else a ++ "/" ++ b
  if b.toList.getLast? = some '/' then clean joined ++ "/" else clean joined

/-- The text before the first slash and the text after it. -/
def path2BucketObject (path : String) : String × String :=
  let trimmed := match path.toList with
    | '/' :: rest => rest
    | cs => cs
  match trimmed.dropWhile (· ≠ '/') with
  | [] => (String.ofList trimmed, "")
  | _ :: object => (String.ofList (trimmed.takeWhile (· ≠ '/')), String.ofList object)

end Rustfs.Path
