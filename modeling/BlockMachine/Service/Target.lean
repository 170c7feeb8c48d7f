import BlockMachine.Text.Blank
import BlockMachine.Text.Digit

namespace BlockMachine.Service

inductive Endpoint where
  | health
  | kinds
  | compile
deriving DecidableEq, Repr

namespace Target

/-- A target that starts with two slashes names an authority first. -/
def dropAuthority : List Char → List Char
  | '/' :: '/' :: cs => cs.dropWhile (· != '/')
  | cs => cs

/-- What stands between authority and query, without the slashes at its front. -/
def rawPath (cs : List Char) : List Char :=
  (dropAuthority (cs.takeWhile fun c => c != '?' && c != '#')).dropWhile (· == '/')

/-- Segments with those for the same and for the upper level resolved; `done` has the last one
first. -/
def resolveDots (done : List (List Char)) : List (List Char) → List (List Char)
  | [] => done.reverse
  | segment :: rest =>
    if segment = ['.'] then resolveDots done rest
    else if segment = ['.', '.'] then resolveDots done.tail rest
    else resolveDots (segment :: done) rest

/-- Every escape of an ASCII character stands for it. No path of the service has an escape of
another one, so these are left. -/
def unescape : List Char → List Char
  | '%' :: a :: b :: cs =>
    match Text.hexDigit? a, Text.hexDigit? b with
    | some x, some y =>
      if x < 8 then Char.ofNat (16 * x + y) :: unescape cs else '%' :: unescape (a :: b :: cs)
    | _, _ => '%' :: unescape (a :: b :: cs)
  | c :: cs => c :: unescape cs
  | [] => []
termination_by cs => cs.length

/-- The path of a target. Escapes are undone twice, on the way to the service and in it. -/
def path (target : String) : List Char :=
  let segments := resolveDots [] ((rawPath target.toList).splitOn '/')
  unescape (unescape ('/' :: ['/'].intercalate segments))

end Target

/-- The endpoint of a target. Slashes at the end of its path do not count, nor does one line feed
in front of them. -/
def endpoint? (target : String) : Option Endpoint :=
  let path := ((Target.path target).reverse.dropWhile (· == '/')).reverse
  let name := String.ofList (Text.dropFinal '\n' path)
  if name = "/health" then some .health
  else if name = "/compile/kinds" then some .kinds
  else if name = "/compile" then some .compile
  else none

end BlockMachine.Service
