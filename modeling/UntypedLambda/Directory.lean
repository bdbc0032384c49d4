/-!
# Directories

A directory holds files and further directories. A path is a row of names with slashes between
them; each name but the last one has to lead into a directory. An empty name and a single dot stay
where they are, and two dots lead back out. Beyond the directory nothing is known but the null
device, which can be read and holds nothing.
-/

namespace UntypedLambda

/-- Files and further directories, by the names that lead to them. -/
structure Directory where
  /-- The files, with what they hold. -/
  files : List (List String × String)
  /-- Directories that need not hold anything. -/
  directories : List (List String)

namespace Directory

/-- The directory that holds nothing. -/
def empty : Directory := ⟨[], []⟩

/-- The names that a path is made of. -/
def names (path : String) : List String := (path.toList.splitOn '/').map String.ofList

/-- Whether a name stays where it is. -/
def stays (name : String) : Bool := name.isEmpty || name = "."

/-- The directory with one more file. -/
def addFile (directory : Directory) (path contents : String) : Directory :=
  let place := (names path).filter (!stays ·)
  { directory with files := (place, contents) :: directory.files }

/-- The directory with one more directory in it. -/
def addDirectory (directory : Directory) (path : String) : Directory :=
  let place := (names path).filter (!stays ·)
  { directory with directories := place :: directory.directories }

/-- Whether the names lead to a directory. Whatever something lies in is one. -/
def isDirectory (directory : Directory) (place : List String) : Bool :=
  place.isEmpty || directory.directories.any place.isPrefixOf ||
    directory.files.any fun file => place.isPrefixOf file.1 && place ≠ file.1

/-- Where names lead, starting at a place; `none` if one of them leads nowhere. -/
def walk (directory : Directory) (place : List String) : List String → Option (List String)
  | [] => some place
  | name :: rest =>
    if !directory.isDirectory place then none
    else if stays name then directory.walk place rest
    else if name = ".." then
      if place.isEmpty then none else directory.walk place.dropLast rest
    else directory.walk (place ++ [name]) rest

/-- The path of the null device. -/
def nullDevice : String := "/dev/null"

/-- What the file at a path holds, if there is one. -/
def read? (directory : Directory) (path : String) : Option String :=
  if path = nullDevice then some ""
  else if path.isEmpty || path.toList.head? = some '/' then none
  else (directory.walk [] (names path)).bind fun place => directory.files.lookup place

end Directory

end UntypedLambda
