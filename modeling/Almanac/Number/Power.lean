/-!
# Powers

A power of a number is that of the core library, also where numbers are a monoid as well: what
the program computes is the same with algebra in sight and without.
-/

attribute [instance (high + 1), default_instance (high + 1)] instPowNat
