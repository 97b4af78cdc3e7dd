/-!
# Length units

Pixels, root font sizes (`rem`) and responsive pixels (`rpx`), which count a design grid.
-/

namespace TokenSheets

/-- A unit of length. -/
inductive LengthUnit where
  | px
  | rem
  | rpx
deriving DecidableEq, Repr

namespace LengthUnit

/-- The units, in the order of the sheets. -/
def all : List LengthUnit := [.px, .rem, .rpx]

/-- How a unit is written. -/
def name : LengthUnit → String
  | .px => "px"
  | .rem => "rem"
  | .rpx => "rpx"

/-- The unit of a name. -/
def ofName? (name : String) : Option LengthUnit := all.find? fun unit => unit.name = name

@[simp] theorem mem_all (unit : LengthUnit) : unit ∈ all := by cases unit <;> simp [all]

theorem ofName?_name (unit : LengthUnit) : ofName? unit.name = some unit := by cases unit <;> rfl

theorem ofName?_eq_some_iff {name : String} {unit : LengthUnit} :
    ofName? name = some unit ↔ name = unit.name := by
  constructor
  · intro h
    have := List.find?_some h
    simpa using (of_decide_eq_true this).symm
  · rintro rfl
    exact ofName?_name unit

end LengthUnit

end TokenSheets
