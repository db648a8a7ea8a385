/-!
# Powers

A power with a natural number as its exponent is the one of the numbers themselves, also in a module
that knows of powers in any monoid. A bound like `2 ^ 64` is then the same term in all modules.
-/

attribute [instance (high + 1), default_instance (high + 1)] instPowNat
