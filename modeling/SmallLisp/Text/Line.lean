/-! Texts of several lines, indented by level. -/

namespace SmallLisp.Text

structure Line where
  level : Nat
  text : String
  deriving DecidableEq

namespace Line

/-- The line with `unit` in front for each level. -/
def indented (unit : String) (l : Line) : String :=
  String.join (List.replicate l.level unit) ++ l.text

/-- Lines with line breaks between them, and none at the end. -/
def join (unit : String) (ls : List Line) : String :=
  "\n".intercalate (ls.map (indented unit))

end Line

end SmallLisp.Text
