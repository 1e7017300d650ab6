/-
# Messages

Every diagnostic reads `title: detail: cause`, where the detail and the cause may
be missing. A title comes in lower case; where a message stands for itself its
first character is put in upper case.
-/
import ClassScript.Text.Upper

namespace ClassScript.Diagnostic

/-- Joins the parts of a message. An empty detail counts as none; an empty cause does not. -/
def message (title : String) (detail cause : Option String) : String :=
  let detail := detail.filter (· ≠ "")
  ": ".intercalate (title :: (detail.toList ++ cause.toList))

end ClassScript.Diagnostic
