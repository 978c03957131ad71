/-! The names that a configuration chooses for generated programs. -/

namespace SmallLisp

structure Config where
  /-- The package of a program without a package form. -/
  package : String := "main"
  /-- The function where a program starts. -/
  entryPoint : String := "main"
  /-- The package of the run-time helpers. -/
  corePackage : String := "core"
  /-- The type of all values, in the core package. -/
  anyType : String := "Any"
  deriving DecidableEq

end SmallLisp
