/-!
# Targets of requests

The path that a target names. The query and the fragment do not take part, nor does a host; octets
may be written as a percent sign and two hexadecimal digits, and dot segments are resolved before
they are. A target is decoded twice, once as it is sent and once as it is received.
-/
namespace Metrology.Service.Target

def hexValue? (c : Char) : Option Nat :=
  if c.isDigit then some (c.toNat - '0'.toNat)
  else if 'a' ≤ c && c ≤ 'f' then some (c.toNat - 'a'.toNat + 10)
  else if 'A' ≤ c && c ≤ 'F' then some (c.toNat - 'A'.toNat + 10)
  else none

/-- Decodes octets. The paths of endpoints are ASCII, so octets above ASCII need not be put together
to characters: a path that has one names no endpoint either way. -/
def decode : List Char → List Char
  | '%' :: a :: b :: rest =>
    match hexValue? a, hexValue? b with
    | some m, some n => Char.ofNat (16 * m + n) :: decode rest
    | _, _ => '%' :: decode (a :: b :: rest)
  | c :: rest => c :: decode rest
  | [] => []

/-- The parts between slashes. -/
def segments : List Char → List (List Char)
  | [] => [[]]
  | c :: rest =>
    if c = '/' then [] :: segments rest
    else match segments rest with
      | [] => [[c]]
      | s :: more => (c :: s) :: more

/-- Drops dots, and with two dots the segment before them, unless it is the empty one in front of the
first slash. `kept` holds the segments before, the last one first. -/
def resolve (kept : List (List Char)) : List (List Char) → List (List Char)
  | [] => kept.reverse
  | s :: rest =>
    if s = ['.'] then resolve kept rest
    else if s = ['.', '.'] then
      match kept with
      | [] | [[]] => resolve kept rest
      | _ :: before => resolve before rest
    else resolve (s :: kept) rest

/-- A target without a host in front. -/
def behindHost : List Char → List Char
  | '/' :: '/' :: rest => rest.dropWhile (· ≠ '/')
  | cs => cs

/-- The path that a target names. -/
def path (target : String) : String :=
  let sent := behindHost (target.toList.takeWhile fun c => c ≠ '?' && c ≠ '#')
  let rooted := '/' :: sent.dropWhile (· = '/')
  String.ofList (decode (decode (List.intercalate ['/'] (resolve [] (segments rooted)))))

/-- A path without the slashes at its end. -/
def withoutSlashes (path : String) : String :=
  String.ofList (path.toList.reverse.dropWhile (· = '/')).reverse

end Metrology.Service.Target
