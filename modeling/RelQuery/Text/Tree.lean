import RelQuery.Text.Case

/-!
# Drawing trees

The lines of a tree: every node is drawn behind a branch, its children below it behind the lines
that connect it to its later siblings.
-/

namespace RelQuery.Text

/-- The line of one node; `margin` is what its ancestors put in front. -/
def branch (margin : String) (last : Bool) (label : String) : String :=
  margin ++ (if last then "└── " else "├── ") ++ label ++ "\n"

def childMargin (margin : String) (last : Bool) : String :=
  margin ++ (if last then "    " else "│   ")

end RelQuery.Text
