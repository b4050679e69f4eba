/-!
# Paths

A path is a text whose pieces stand between slashes.  An empty piece and a piece that
is a point lead nowhere.  The parents of a path follow from its text alone: a piece of
two points is a piece like any other here.
-/

namespace FieldQuery

namespace Path

/-- The pieces of a text between slashes. -/
def pieces : List Char → List (List Char)
  | [] => [[]]
  | '/' :: cs => [] :: pieces cs
  | c :: cs => (pieces cs).modifyHead (c :: ·)

/-- Pieces with slashes between them. -/
def join (ps : List (List Char)) : List Char :=
  ['/'].intercalate ps

/-- There is one piece more than there are slashes. -/
theorem length_pieces (cs : List Char) :
    (pieces cs).length = cs.count '/' + 1 := by
  fun_induction pieces cs with
  | case1 => rfl
  | case2 cs ih => simp [ih]
  | case3 c cs hc ih =>
      have hne : c ≠ '/' := by simpa using hc
      simp [ih, hne]

/-- Whether a piece leads nowhere. -/
def isIdle (piece : List Char) : Bool :=
  piece = [] || piece = ['.']

/--
The start of a path and the text behind it.  The start is a slash, or a point that is
a whole piece, or empty.
-/
def splitStart : List Char → List Char × List Char
  | '/' :: cs => (['/'], cs)
  | ['.'] => (['.'], [])
  | '.' :: '/' :: cs => (['.'], '/' :: cs)
  | cs => ([], cs)

/-- The paths that end in one of the given pieces, the last piece first, and the start alone. -/
def pathsTo (start : List Char) : List (List Char) → List (List Char)
  | [] => if start = ['.'] then [start, []] else [start]
  | piece :: before =>
      if isIdle piece then pathsTo start before
      else (start ++ join (piece :: before).reverse) :: pathsTo start before

/-- The parents of a path, the nearest first. -/
def parents (path : String) : List String :=
  let (start, body) := splitStart path.toList
  match (pieces body).reverse.dropWhile isIdle with
  | [] => if start = ['.'] then [""] else []
  | _ :: before => (pathsTo start before).map String.ofList

/-- The nearest parent of a path. -/
def parent? (path : String) : Option String :=
  (parents path).head?

/-- A path and its parents. -/
def lineage (path : String) : List String :=
  path :: parents path

/-- The path of an entry of a directory. -/
def child (directory name : String) : String :=
  match directory.toList.getLast? with
  | none => name
  | some c => if c = '/' then directory ++ name else directory ++ "/" ++ name

/-- What a path comes down to: its start, and the pieces that lead somewhere. -/
def steps (path : String) : List Char × List (List Char) :=
  let (start, body) := splitStart path.toList
  (start, (pieces body).filter (! isIdle ·))

/-- Whether two paths come down to the same. -/
def same (a b : String) : Bool :=
  steps a = steps b

end Path

end FieldQuery
