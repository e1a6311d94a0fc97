/-! Double-precision numbers as sign and rank. The rank of a magnitude counts the
magnitudes below it, so order is order of ranks, and one function, `Magnitude.units`,
gives a rank its exact size. All sizes are whole multiples of the least positive
double, `2 ^ (-1074)`, so no fraction is needed anywhere. -/

namespace VideoPage

/-- How many finite magnitudes there are, which is the rank of infinity. -/
def Magnitude.topRank : Nat := 2047 * Nat.pow 2 52

/-- The absolute value of a number that is not NaN. -/
structure Magnitude where
  rank : Nat
  rank_le : rank ≤ Magnitude.topRank
deriving DecidableEq

namespace Magnitude

theorem ext_rank {a b : Magnitude} (same : a.rank = b.rank) : a = b := by
  cases a; cases b; cases same; rfl

def zero : Magnitude := ⟨0, Nat.zero_le _⟩

def infinity : Magnitude := ⟨topRank, Nat.le_refl _⟩

def isFinite (a : Magnitude) : Bool := a.rank < topRank

/-- The size that a rank stands for, counted in units of `2 ^ (-1074)`. The first
`2 ^ 53` ranks are equally spaced; after that the spacing doubles every `2 ^ 52`
ranks. The top rank is given the size at which finite numbers end. -/
def sizeOfRank (rank : Nat) : Nat :=
  let doublings := rank / Nat.pow 2 52 - 1
  (rank - doublings * Nat.pow 2 52) * Nat.pow 2 doublings

def units (a : Magnitude) : Nat := sizeOfRank a.rank

/-- How many units make the number one. -/
def one : Nat := Nat.pow 2 1074

end Magnitude

/-- A double-precision number. All NaNs are one value; the two zeros are distinct
values that compare equal. -/
inductive Binary64 where
  | nan
  | signed (negative : Bool) (magnitude : Magnitude)
deriving DecidableEq

namespace Binary64

def zero : Binary64 := .signed false .zero

instance : Inhabited Binary64 := ⟨zero⟩

def isNaN : Binary64 → Bool
  | nan => true
  | signed .. => false

def isFinite : Binary64 → Bool
  | nan => false
  | signed _ magnitude => magnitude.isFinite

/-- The place of a number in the order: its rank, counted downwards below zero. -/
def position (negative : Bool) (magnitude : Magnitude) : Int :=
  if negative then -magnitude.rank else magnitude.rank

/-- NaN compares with nothing, and negative zero equals zero. -/
def lessEq : Binary64 → Binary64 → Bool
  | signed n a, signed m b => position n a ≤ position m b
  | _, _ => false

def less : Binary64 → Binary64 → Bool
  | signed n a, signed m b => position n a < position m b
  | _, _ => false

instance : LE Binary64 := ⟨fun a b => a.lessEq b = true⟩

instance : LT Binary64 := ⟨fun a b => a.less b = true⟩

instance (a b : Binary64) : Decidable (a ≤ b) := inferInstanceAs (Decidable (_ = _))

instance (a b : Binary64) : Decidable (a < b) := inferInstanceAs (Decidable (_ = _))

/-- The larger of two numbers. NaN gives way to the other operand. -/
def maximum (a b : Binary64) : Binary64 :=
  if a.isNaN then b else if a < b then b else a

/-- The smaller of two numbers. NaN gives way to the other operand. -/
def minimum (a b : Binary64) : Binary64 :=
  if a.isNaN then b else if b < a then b else a

/-- Moves a number to the nearer end of the range when it lies outside. A number that
compares with neither end is kept, and so is negative zero at a range that starts at
zero. -/
def clamp (a low high : Binary64) : Binary64 :=
  let raised := if a < low then low else a
  if high < raised then high else raised

/-- The word that encodes a number; the sign is its highest bit. NaN has one word. -/
def toBits : Binary64 → Nat
  | nan => 0x7ff8000000000000
  | signed negative magnitude => magnitude.rank + if negative then Nat.pow 2 63 else 0

/-- Reads a word of 64 bits. Every word above infinity's is NaN. -/
def ofBits (bits : Nat) : Binary64 :=
  if rank_le : bits % Nat.pow 2 63 ≤ Magnitude.topRank then
    signed (Nat.pow 2 63 ≤ bits) ⟨bits % Nat.pow 2 63, rank_le⟩
  else nan

end Binary64
end VideoPage
