import Tidymark.Text.Quoted
import Tidymark.Text
import Tidymark.Span

/-! # Edits

An edit replaces a range of bytes. Two edits conflict when their ranges share a byte, or when an
insertion lies strictly inside the range of the other. -/
namespace Tidymark

structure Edit where
  start : Nat
  stop : Nat
  replacement : Text
  deriving DecidableEq, Repr

inductive EditError where
  | inverted (start stop : Nat)
  | outOfBounds (start stop size : Nat)
  /-- An end of the range lies inside a character. -/
  | splitsChar (offset : Nat)
  | conflict (first second : Edit)
  deriving DecidableEq, Repr

inductive EditKind where
  | insertion | deletion | replacement
  deriving DecidableEq, Repr

def EditKind.name : EditKind → String
  | insertion => "insertion"
  | deletion => "deletion"
  | replacement => "replacement"

namespace Edit

def insert (offset : Nat) (text : Text) : Edit := ⟨offset, offset, text⟩

def delete (start stop : Nat) : Edit := ⟨start, stop, []⟩

def replaceSpan (s : Span) (text : Text) : Edit := ⟨s.start, s.stop, text⟩

def deleteSpan (s : Span) : Edit := replaceSpan s []

def span (e : Edit) : Span := ⟨e.start, e.stop⟩

def kind (e : Edit) : EditKind :=
  if e.start == e.stop then .insertion
  else if e.replacement.isEmpty then .deletion
  else .replacement

def isDeletion (e : Edit) : Bool := e.kind == .deletion

def conflicts (e f : Edit) : Bool := e.span.overlaps f.span

/-- The order by start, then by stop. -/
def atMost (e f : Edit) : Bool := e.start < f.start || (e.start == f.start && e.stop ≤ f.stop)

/-- Why an edit does not fit a content, if it does not. -/
def fault? (content : Text) (e : Edit) : Option EditError :=
  if e.stop < e.start then some (.inverted e.start e.stop)
  else if content.size < e.stop then some (.outOfBounds e.start e.stop content.size)
  else if !content.isBoundary e.start then some (.splitsChar e.start)
  else if !content.isBoundary e.stop then some (.splitsChar e.stop)
  else none

/-- The range and what takes its place. -/
def describe (e : Edit) : String :=
  "[" ++ toString e.start ++ ", " ++ toString e.stop ++ ") -> " ++ Text.quote e.replacement

theorem conflicts_comm (e f : Edit) : e.conflicts f = f.conflicts e := Span.overlaps_comm _ _

end Edit

def EditError.message : EditError → String
  | inverted start stop =>
    "edit [" ++ toString start ++ ", " ++ toString stop ++ ") has start after end"
  | outOfBounds start stop size =>
    "edit [" ++ toString start ++ ", " ++ toString stop ++ ") is outside content of " ++
      toString size ++ " bytes"
  | splitsChar offset => "edit boundary " ++ toString offset ++ " splits a UTF-8 character"
  | conflict first second => "edit " ++ second.describe ++ " conflicts with " ++ first.describe

namespace Edit

/-- The first fault of edits in the order of their ranges: an inverted range, or a conflict with a
later edit. -/
def clash? : List Edit → Option EditError
  | [] => none
  | first :: rest =>
    if first.stop < first.start then some (.inverted first.start first.stop)
    else match rest.find? first.conflicts with
      | some second => some (.conflict first second)
      | none => clash? rest

/-- The edits of one finding in the order of their ranges. They may not conflict with each
other. -/
def bundle (edits : List Edit) : Except EditError (List Edit) :=
  let sorted := edits.mergeSort atMost
  match clash? sorted with
  | some error => .error error
  | none => .ok sorted

end Edit
end Tidymark
