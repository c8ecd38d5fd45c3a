import Mathlib.Data.Nat.Notation

/-!
# `GrafeoLoro.Error`: the error type of the crate

The variants of `GrafeoLoroError` (`src/error.rs`) that the modelled functions return, with
their payloads. The payloads of `loro`, `grafeo` and `lorosurgeon` errors come from those
crates, so the variants that wrap them carry none.
-/

set_option autoImplicit false

namespace GrafeoLoro

/-- The kinds of `std::io::Error` that `hydrate` tells apart. -/
inductive IoErrorKind where
  | notFound
  | other
  deriving DecidableEq, Repr

/-- Errors emitted by the crate. -/
inductive GrafeoLoroError where
  | loro
  | grafeo
  | storageIo (kind : IoErrorKind)
  | compression (msg : String)
  | config (msg : String)
  | unsupportedLoroType (msg : String)
  | bridge (msg : String)
  | hydrate
  | treeMoveCreatesCycle (nodeId newParent : Nat)
  | notYetImplemented (msg : String)
  | invalidEnvelope (msg : String)
  deriving DecidableEq, Repr

/-! ### Keys in error texts -/

/-- A character of a string as `{:?}` writes it. Outside ASCII the character stands for itself
here, and `{:?}` also escapes what the Unicode tables of the standard library call combining or
not printable. -/
def debugChar (c : Char) : String :=
  match c.toNat with
  | 0 => "\\0"
  | 9 => "\\t"
  | 10 => "\\n"
  | 13 => "\\r"
  | 34 => "\\\""
  | 92 => "\\\\"
  | n =>
    if n < 32 || n == 127 then "\\u\x7b" ++ String.ofList (Nat.toDigits 16 n) ++ "\x7d"
    else c.toString

/-- A string as `{:?}` writes it. -/
def debugStr (s : String) : String := "\"" ++ String.join (s.toList.map debugChar) ++ "\""

end GrafeoLoro
