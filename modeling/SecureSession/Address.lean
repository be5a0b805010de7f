/-! # Addresses

A peer is known by name and has devices under numbers. -/

namespace SecureSession

/-- One device of a peer. -/
structure Address where
  name : String
  device : UInt32
deriving DecidableEq, Inhabited

namespace Address

/-- The number of a peer's primary device. -/
def primaryDevice : UInt32 := 1

/-- The primary device of a peer. -/
def primary (name : String) : Address := ⟨name, primaryDevice⟩

/-- Whether this is the peer's primary device. -/
def isPrimary (a : Address) : Bool := a.device = primaryDevice

/-- Another device of the same peer. -/
def withDevice (a : Address) (device : UInt32) : Address := { a with device }

/-- The name and the number with a dot between them. -/
def display (a : Address) : String := s!"{a.name}.{a.device}"

/-! ### Order -/

/-- By name, then by device, so that all devices of a peer are neighbours. -/
instance : Ord Address := ⟨compareLex (compareOn name) (compareOn device)⟩

instance : Std.TransOrd Address :=
  inferInstanceAs (Std.TransCmp (compareLex (compareOn name) (compareOn device)))

instance : Std.LawfulEqOrd Address where
  eq_of_compare {a b} h := by
    obtain ⟨hn, hd⟩ := Ordering.then_eq_eq.mp h
    cases a; cases b
    exact congr (congrArg mk (Std.LawfulEqCmp.eq_of_compare hn)) (Std.LawfulEqCmp.eq_of_compare hd)

end Address

/-! ### Links -/

/-- The way from one device to another. -/
structure Link where
  source : Address
  target : Address
deriving DecidableEq, Inhabited

namespace Link

/-- By source, then by target. -/
instance : Ord Link := ⟨compareLex (compareOn source) (compareOn target)⟩

instance : Std.TransOrd Link :=
  inferInstanceAs (Std.TransCmp (compareLex (compareOn source) (compareOn target)))

instance : Std.LawfulEqOrd Link where
  eq_of_compare {a b} h := by
    obtain ⟨hs, ht⟩ := Ordering.then_eq_eq.mp h
    cases a; cases b
    exact congr (congrArg mk (Std.LawfulEqCmp.eq_of_compare hs)) (Std.LawfulEqCmp.eq_of_compare ht)

end Link

end SecureSession
