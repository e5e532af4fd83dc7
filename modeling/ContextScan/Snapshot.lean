import ContextScan.Scan

namespace ContextScan

-- The scanner remembers nothing from one call to the next.
structure Scanner where
  deriving DecidableEq, Inhabited

inductive StateError where
  | unexpectedPayload (length : Nat)
  deriving DecidableEq

def StateError.message : StateError → String
  | .unexpectedPayload length =>
      "scanner state is empty, but " ++ toString length ++ " bytes were supplied to deserialize"

namespace Scanner

universe u

def capacity : Nat := 1024

def create : Scanner := {}

def reset (_ : Scanner) : Scanner := create

def store (_ : Scanner) (buffer : List UInt8) : List UInt8 × Nat := (buffer,0)

def restore (s : Scanner) (bytes : List UInt8) : Except StateError Scanner × List Event :=
  if bytes.isEmpty then (.ok s.reset,[])
  else (.error (.unexpectedPayload bytes.length),[.rejected bytes.length])

def scan {σ : Type u} [Cursor σ] (s : Scanner) (valid : TokenSet) (cursor : σ) : Scanner × Scan σ :=
  (s,ContextScan.scan valid cursor)

end Scanner
end ContextScan
