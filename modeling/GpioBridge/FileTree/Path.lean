namespace GpioBridge.FilePath

-- The names on a path; several slashes are as good as one.
def names (path : String) : List String := (path.splitOn "/").filter (· != "")

def isAbsolute (path : String) : Bool := path.startsWith "/"

def endsInSlash (path : String) : Bool := path.endsWith "/"

def isDots (name : String) : Bool := name == "." || name == ".."

-- Drops the slashes, and the names for the directory itself, that a path ends in. The path is given
-- from its end.
def dropIdle : List Char → List Char
  | '/' :: rest => dropIdle rest
  | '.' :: '/' :: rest => dropIdle rest
  | path => path

-- A name without its extension: what stands before the last point, unless that point begins it.
def stem (name : List Char) : List Char :=
  match (name.reverse.dropWhile (· != '.')).drop 1 with
  | [] => name
  | reversed => reversed.reverse

-- A path with another extension. One that ends in no name of a file stays as it is; and where
-- nothing is left of the name but two points, that is the name.
def withExtension (extension path : String) : String :=
  let bare := (dropIdle path.toList.reverse).reverse
  let name := (bare.reverse.takeWhile (· != '/')).reverse
  let parents := bare.take (bare.length - name.length)
  if name = [] ∨ name = ['.'] ∨ name = ['.', '.'] then path
  else if stem name = ['.'] ∧ bare = path.toList then String.ofList parents ++ ".."
  else String.ofList (parents ++ stem name) ++ "." ++ extension

end GpioBridge.FilePath
