/-
Writing a course document.

A document is turned into a tree of markup, and the tree is written out behind a
declaration.
-/
import PressCalendar.CourseDocument.Basic
import PressCalendar.Markup.Attribute
import PressCalendar.Markup.Node

namespace PressCalendar

open Markup

namespace CourseDocument

def valued (name : String) (value : List Char) : List Char :=
  Attribute.write name.toList value

def element (name : String) (attributes : List Char) (children : List Node) : Node :=
  .element name.toList attributes children

def dateNode (name : String) (date : Date) : Node :=
  element name (valued "date" date.isoText) []

def flagText (flag : Bool) : List Char := if flag then "true".toList else "false".toList

def issueNode (e : IssueElement) : Node :=
  element "issue"
    (valued "heading" e.heading.toList ++
      Weekday.all.flatMap fun day => valued day.long (flagText (e.pattern.has day)))
    (e.additions.map (dateNode "addition") ++ e.exclusions.map (dateNode "exclusion"))

def blockNode (e : BlockElement) : Node :=
  element "block" (valued "first" e.first.isoText ++ valued "last" e.last.isoText)
    (e.issues.map issueNode)

def appearanceNode (a : Appearance) : Node :=
  element "issue" (valued "heading" a.heading.toList ++ valued "date" a.date.isoText) []

def processNode (p : Process) : Node := element "process" [] (p.map appearanceNode)

/-- A document without processes has no element for them either. -/
def toNode (d : CourseDocument) : Node :=
  element "course" [] (d.blocks.map blockNode ++
    if d.processes.isEmpty then [] else [element "processes" [] (d.processes.map processNode)])

def declaration : List Char := "<?xml version=\"1.0\" encoding=\"UTF-8\"?>\n".toList

def text (d : CourseDocument) : List Char := declaration ++ Node.pretty 0 d.toNode

end CourseDocument

def Course.toXml (c : Course) : String := String.ofList c.toDocument.text

end PressCalendar
