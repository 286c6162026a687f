/-!
# Module specifiers

Model of `is_relative_specifier`, `is_path_specifier`, `extname` and `is_rewritable_specifier`.

A specifier is the text after `from` in a module declaration. It is read with `/` as the separator
whatever the machine, so everything here looks at characters.

* `isRelative`, `isPath`: which specifiers name a place in a file tree, and which are packages.
* `extension`: the extension of the last segment, dot included; leading dots begin no extension.
* `isCompletable`: relative and without extension, the specifiers that relinking completes.
-/

namespace Relink.Specifier

/-- The specifier starts with the text `start`. -/
def startsWith (specifier start : String) : Bool :=
  start.toList.isPrefixOf specifier.toList

/-- Relative to the importing file: `./…` or `../…`. -/
def isRelative (specifier : String) : Bool :=
  startsWith specifier "./" || startsWith specifier "../"

/-- An ASCII letter, a colon and a slash of either kind. -/
def hasDriveLetter (specifier : String) : Bool :=
  match specifier.toList with
  | letter :: ':' :: separator :: _ => letter.isAlpha && (separator == '/' || separator == '\\')
  | _ => false

/-- A place in a file tree and not a package: relative, absolute, or `.` or `..` alone. -/
def isPath (specifier : String) : Bool :=
  specifier == "." || specifier == ".." || isRelative specifier ||
    startsWith specifier "/" || startsWith specifier "\\" || hasDriveLetter specifier

/-- The last segment, trailing slashes aside, with its last character first. -/
def reversedLastSegment (specifier : List Char) : List Char :=
  (specifier.reverse.dropWhile (· == '/')).takeWhile (· != '/')

/-- What follows the last dot of a segment, dot included, if something stands before that dot. Both
the segment and its dot are found from the end, so the segment is given reversed. -/
def extensionOfReversed (segment : List Char) : List Char :=
  match segment.dropWhile (· != '.') with
  | _ :: _ :: _ => '.' :: (segment.takeWhile (· != '.')).reverse
  | _ => []

/-- The extension of a specifier's characters: from the last dot of the last segment on. A dot that
begins the segment starts none, and the segment `..` has none. -/
def extensionChars (specifier : List Char) : List Char :=
  let segment := reversedLastSegment specifier
  if segment = ['.', '.'] then [] else extensionOfReversed segment

/-- The extension of the specifier's last segment, dot included, or the empty text. -/
def extension (specifier : String) : String :=
  String.ofList (extensionChars specifier.toList)

/-- Relative, and without an extension that would name the file already. -/
def isCompletable (specifier : String) : Bool :=
  isRelative specifier && extensionChars specifier.toList == []

/-- A specifier that can be completed is a relative one. -/
theorem isRelative_of_isCompletable {s : String} (h : isCompletable s = true) :
    isRelative s = true :=
  (Bool.and_eq_true_iff.mp h).1

/-- A relative specifier is a path. -/
theorem isPath_of_isRelative {s : String} (h : isRelative s = true) : isPath s = true := by
  simp [isPath, h]

example : [extension "./bar.js", extension "./.baz", extension "../", extension "./dir.v2/",
    extension "./foo.", extension "./..a", extension "./..."] =
    [".js", "", "", ".v2", ".", ".a", "."] := by decide

end Relink.Specifier
