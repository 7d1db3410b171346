/-!
# Name and version

What the program says about itself.
-/

namespace TextTidy

/-- The name of the program. -/
def programName : String := "textsmith"

/-- The version of the program. -/
def version : String := "0.1.0"

end TextTidy
