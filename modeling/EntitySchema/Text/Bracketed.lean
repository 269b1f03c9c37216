/-!
# Bracketed lists

The written form of a list: its items between square brackets, with a comma and a blank between
neighbours.
-/

namespace EntitySchema.Text

/-- Written items between brackets. -/
def bracketed (items : List String) : String := "[" ++ ", ".intercalate items ++ "]"

end EntitySchema.Text
