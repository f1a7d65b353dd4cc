/-!
# EpsilonMatch.Record.Binary64

The exact value of a binary64 number.

A record may hold a number that is written with a point or an exponent. Such a
number is a binary64 number, and every finite one is a decimal with finitely many
places: halving is multiplying by five and moving the point. `decimal?` finds that
decimal, in the form in which `EpsilonMatch.Record.Reading` reads numbers.
-/

namespace EpsilonMatch.Binary64

/-- The parts of a binary64 word: its sign, exponent field and fraction field. -/
structure Parts where
  negative : Bool
  exponent : Nat
  fraction : Nat
  deriving Repr, DecidableEq

/-- Takes a word apart. -/
def parts (word : UInt64) : Parts where
  negative := Nat.pow 2 63 ≤ word.toNat
  exponent := word.toNat / Nat.pow 2 52 % Nat.pow 2 11
  fraction := word.toNat % Nat.pow 2 52

/-- A decimal `m / 10 ^ p`, as `(m, p)`, of the value `significand * 2 ^ scale / 2 ^ 1075`. -/
def scaled (significand scale : Nat) : Nat × Nat :=
  if 1075 ≤ scale then (significand * Nat.pow 2 (scale - 1075), 0)
  else (significand * Nat.pow 5 (1075 - scale), 1075 - scale)

/-- A decimal `m / 10 ^ p`, as `(m, p)`, that is exactly the value of a word; none
for infinities and for what is no number. -/
def decimal? (word : UInt64) : Option (Int × Nat) :=
  let w := parts word
  if w.exponent = 2047 then none
  else
    let (magnitude, places) :=
      if w.exponent = 0 then scaled w.fraction 1
      else scaled (Nat.pow 2 52 + w.fraction) w.exponent
    some (if w.negative then -(magnitude : Int) else magnitude, places)

end EpsilonMatch.Binary64
