import WaveGen.Text

/-!
# Files and paths

A path is taken apart at its slashes; a part without characters or with one point stays in a
directory, and one with two points leads back out of it.

* `FileTree.read?` — the text that a path leads to, from the top of a tree of files.
* `FileTree.places` — where a file is looked for: below a directory, and below each one above it. This
  is assumed behaviour of the library that reads the file.
-/

namespace WaveGen

/-- The text files below a directory. -/
structure FileTree where
  /-- The files by the parts of their paths, none of which is empty or consists of points alone. -/
  files : List (List Text × Text)
deriving DecidableEq, Repr

namespace FileTree

/-- The parts of a path. -/
def parts (path : Text) : List Text := Text.split '/' path

/-- Whether a path begins at the root of the file system. -/
def isAbsolute (path : Text) : Bool := path.head? == some '/'

/-- Whether a part of a path stays in the directory that was reached. -/
def staysPut (part : Text) : Bool := part.isEmpty || part == ['.']

/-- The tree of the files with these paths. -/
def ofPaths (files : List (Text × Text)) : FileTree :=
  ⟨files.map fun (path, content) => ((parts path).filter (!staysPut ·), content)⟩

/-- Whether there are files below this directory. -/
def isDirectory (t : FileTree) (directory : List Text) : Bool :=
  t.files.any fun (path, _) => directory.isPrefixOf path && directory.length < path.length

/-- The text that the parts of a path lead to from a directory. A path that ends in a directory
leads to none, and so does one that goes through a file or out of the tree. -/
def follow (t : FileTree) (directory : List Text) : List Text → Option Text
  | [] => none
  | part :: rest =>
    if staysPut part then t.follow directory rest
    else if part = "..".toList then
      if directory.isEmpty then none else t.follow directory.dropLast rest
    else
      let next := directory ++ [part]
      if rest.isEmpty then t.files.lookup next
      else if t.isDirectory next then t.follow next rest
      else none

/-- The text that a path leads to from the top of the tree. -/
def read? (t : FileTree) (path : Text) : Option Text :=
  if isAbsolute path then none else t.follow [] (parts path)

/-- The places where a file is looked for: its path below this directory and below each one above
it, the nearest first. A path from the root of the file system is one place. -/
def places (directory path : Text) : List Text :=
  if isAbsolute path then [path]
  else
    let all := parts directory
    (List.range all.length).reverse.map fun i =>
      Text.join '/' (all.take (i + 1)) ++ '/' :: path

end FileTree

end WaveGen
