import MiqroForge.Library.RealPaths
import MiqroForge.Workspace.ToolPaths

/-! The paths of the file tools on a POSIX machine, whose files have symbolic links. -/

namespace MiqroForge.Workspace.PosixHost

open PyText Paths PosixPaths LinkedFiles RealPaths ToolPaths

structure Machine where
  tree : Tree
  /-- How long links that lead to one another can be. -/
  links : Nat
  cwd : List Text
  /-- `os.path.expanduser("~")` -/
  home : Text
  /-- The home directories of named users. -/
  userHome : Text → Option Text
  /-- `str.lower` -/
  lower : Text → Text

/-- What stands before the components of a path. -/
def pathRoot (t : Text) : Text :=
  if "//".toList.isPrefixOf t ∧ !"///".toList.isPrefixOf t then "//".toList
  else if isAbsolute t then ['/'] else []

/-- A path of its root and components, as `str` writes it. -/
def pathText (root : Text) (cs : List Text) : Text :=
  if root = [] ∧ cs = [] then ['.'] else root ++ Paths.join cs

/-- `str(Path(t))` -/
def plain (t : Text) : Text := pathText (pathRoot t) (segments t)

def normpath (t : Text) : Text :=
  pathText (pathRoot t) ((segments t).foldl (collapse (!isAbsolute t)) [])

/-- `str(Path(a) / b)` -/
def pathJoin (a b : Text) : Text :=
  if isAbsolute b ∨ a = [] then plain b else plain (a ++ '/' :: b)

/-- `str(Path(t).expanduser())`; `none` for a user without a home directory. -/
def expanduser (m : Machine) (t : Text) : Option Text :=
  match isAbsolute t, segments t with
  | false, ('~' :: user) :: rest =>
    let home := if user = [] then some m.home else m.userHome user
    (home.filter fun h => h.head? ≠ some '~').map fun h => plain (h ++ '/' :: Paths.join rest)
  | _, _ => some (plain t)

/-- `pathlib` on the machine. -/
def posix (m : Machine) : Host where
  normpath := normpath
  isAbsolute := isAbsolute
  expanduser := expanduser m
  join := pathJoin
  parts t := (if pathRoot t = [] then [] else [pathRoot t]) ++ segments t
  parent t := pathText (pathRoot t) (segments t).dropLast
  lower := m.lower
  resolve t := realpath m.tree (m.links + 1) m.cwd t
  absolute t := (if isAbsolute t then [] else m.cwd) ++ segments t
  text p := '/' :: Paths.join p
  isRoot p := p.isEmpty
  normcase p := p
  normcase_idem _ := rfl

end MiqroForge.Workspace.PosixHost
