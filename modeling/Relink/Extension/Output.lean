import Relink.Extension.Table
import Relink.Path.Relative

/-!
# Output files and their specifiers

Model of `map_output_path` and `relativize`.

`Table.outputPath` is where the compiled file of a source file goes: beside it, with the extension
replaced. `relativeSpecifier` writes a file as a specifier that is relative to a directory, never as
something that reads as a package name.
-/

namespace Relink

namespace Extension.Table

/-- A file name without the source extension `source` that ends it. A name that is nothing but the
extension is kept whole. -/
def stem (name source : List Char) : List Char :=
  if name.length = source.length then name else name.take (name.length - source.length)

/-- The name of the compiled file, by the first rule whose source ends `name`. -/
def outputName? (t : Table) (name : List Char) : Option (List Char) :=
  t.rules.findSome? fun rule =>
    if rule.1.toList.isSuffixOf name then some (stem name rule.1.toList ++ rule.2.toList) else none

/-- Where the compiled file of `file` goes. A path that is not absolute, whose last component is no
text, or that no rule fits stays as it is. -/
def outputPath (t : Table) (file : Path) : Path :=
  if file.isAbsolute then
    match (file.fileName?.bind Utf8.decode?).bind t.outputName? with
    | some name => file.withFileName (Utf8.encode name)
    | none => file
  else file

end Extension.Table

/-- `file` as a specifier in a module of the directory `dir`. A path that is not absolute is written
as it is. -/
def relativeSpecifier (dir file : Path) : String :=
  if file.isAbsolute then
    let text := dir.wayTo file
    if text = ".." ∨ "../".toList.isPrefixOf text.toList ∨ "./".toList.isPrefixOf text.toList then text
    else "./" ++ text
  else file.display

end Relink
