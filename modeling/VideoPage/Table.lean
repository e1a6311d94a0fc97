/-! Tables: total maps that are changed one place at a time. -/

namespace VideoPage

abbrev Table (ι α : Type) := ι → α

namespace Table

variable {ι α : Type} [DecidableEq ι]

/-- Replaces what stands at a place. -/
def set (table : Table ι α) (place : ι) (value : α) : Table ι α :=
  fun other => if other = place then value else table other

@[simp] theorem set_same (table : Table ι α) (place : ι) (value : α) :
    table.set place value place = value := if_pos rfl

@[simp] theorem set_other (table : Table ι α) {place other : ι} (value : α)
    (different : other ≠ place) : table.set place value other = table other := if_neg different

end Table
end VideoPage
