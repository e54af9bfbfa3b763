import CrickerOs.GrantPlan.Word

namespace CrickerOs.Swish

open Library GrantPlan

def maxSegments : ℕ := 8

inductive Joint
  | first
  | always
  | onSuccess
  | onFailure
  deriving DecidableEq

def connector (l : Bytes) : Option (Joint × Bytes) :=
  if [0x3b].isPrefixOf l then some (.always, l.drop 1)
  else if [0x26, 0x26].isPrefixOf l then some (.onSuccess, l.drop 2)
  else if [0x7c, 0x7c].isPrefixOf l then some (.onFailure, l.drop 2)
  else none

def cutSegment (l : Bytes) : Bytes × Bytes × Quote := scan (fun _ l => (connector l).isSome) .bare none l

def lastSegment (joint : Joint) (roomLeft : Bool) (segment : Bytes) : Except Refusal (List (Joint × Bytes)) :=
  if segment = [] then
    match joint with
    | .first => .ok [(.first, [])]
    | .always => .ok []
    | _ => .error .emptySegment
  else if roomLeft then .ok [(joint, segment)]
  else .error .tooManySegments

def segmentsFrom (room : ℕ) (joint : Joint) (l : Bytes) : Except Refusal (List (Joint × Bytes)) :=
  match connector (cutSegment l).2.1 with
  | none =>
    if (cutSegment l).2.2.isOpen then .error .unclosedQuote
    else lastSegment joint (0 < room) (trim (cutSegment l).1)
  | some (next, rest) =>
    if trim (cutSegment l).1 = [] then .error .emptySegment
    else
      match room with
      | 0 => .error .tooManySegments
      | room + 1 => (segmentsFrom room next rest).map ((joint, trim (cutSegment l).1) :: ·)

namespace Sequence

def split (line : Bytes) : Except Refusal (List (Joint × Bytes)) := segmentsFrom maxSegments .first line

end Sequence

end CrickerOs.Swish
