import ContextScan.Text

namespace ContextScan

inductive Fault where
  | addOverflow
  | subOverflow
  | spanReversed
  | regionReversed
  deriving DecidableEq

def Fault.message : Fault → String
  | .addOverflow => "attempt to add with overflow"
  | .subOverflow => "attempt to subtract with overflow"
  | .spanReversed => "assertion failed: end >= start"
  | .regionReversed => "assertion failed: end >= pos"

namespace Offset

def add (a b : UInt32) : Except Fault UInt32 :=
  if a.toNat + b.toNat < UInt32.size then .ok (a + b) else .error .addOverflow

def sub (a b : UInt32) : Except Fault UInt32 :=
  if b ≤ a then .ok (a - b) else .error .subOverflow

theorem add_ok {a b : UInt32} (fits : a.toNat + b.toNat < UInt32.size) :
    add a b = .ok (a + b) ∧ (a + b).toNat = a.toNat + b.toNat := by
  refine ⟨if_pos fits,?_⟩
  rw [UInt32.toNat_add]
  exact Nat.mod_eq_of_lt fits

theorem add_error {a b : UInt32} : add a b = .error .addOverflow ↔ UInt32.size ≤ a.toNat + b.toNat := by
  unfold add
  split
  · rename_i fits
    exact ⟨fun crossed => (by cases crossed),fun large => absurd fits (Nat.not_lt.mpr large)⟩
  · rename_i crossed
    exact ⟨fun _ => Nat.not_lt.mp crossed,fun _ => rfl⟩

theorem sub_ok {a b : UInt32} (ordered : b ≤ a) :
    sub a b = .ok (a - b) ∧ (a - b).toNat = a.toNat - b.toNat :=
  ⟨by simp [sub,ordered],UInt32.toNat_sub_of_le _ _ ordered⟩

theorem sub_error {a b : UInt32} : sub a b = .error .subOverflow ↔ a < b := by
  unfold sub
  split
  · rename_i ordered; simp only [reduceCtorEq,false_iff,UInt32.not_lt]; exact ordered
  · rename_i crossed; simpa using crossed

end Offset

-- Any two numbers make a span; only what needs its end fails where it does not fit 32 bits.
structure Span where
  start : UInt32
  length : UInt32
  deriving DecidableEq

-- A region made by hand may have its end before its start; one that was checked may not.
structure Region where
  start : UInt32
  stop : UInt32
  deriving DecidableEq

namespace Region

def make (start stop : UInt32) : Except Fault Region :=
  if start ≤ stop then .ok ⟨start,stop⟩ else .error .regionReversed

def length (r : Region) : Except Fault UInt32 := Offset.sub r.stop r.start

def isEmpty (r : Region) : Bool := r.start == r.stop

def contains (r : Region) (p : UInt32) : Bool := decide (r.start ≤ p) && decide (p < r.stop)

end Region

def dotted (start stop : UInt32) : String := toString start.toNat ++ ".." ++ toString stop.toNat

namespace Span

def empty (start : UInt32) : Span := ⟨start,0⟩

instance : Inhabited Span := ⟨empty 0⟩

def ofBounds (start stop : UInt32) : Except Fault Span :=
  if start ≤ stop then .ok ⟨start,stop - start⟩ else .error .spanReversed

def stop (s : Span) : Except Fault UInt32 := Offset.add s.start s.length

def reach (s : Span) : Nat := s.start.toNat + s.length.toNat

def isEmpty (s : Span) : Bool := s.length == 0

-- A position before the start is answered without the end, so it never fails.
def contains (s : Span) (p : UInt32) : Except Fault Bool :=
  if s.start ≤ p then s.stop.map (fun stop => decide (p < stop)) else .ok false

def bounds (s : Span) : Except Fault (UInt32 × UInt32) := s.stop.map (fun stop => (s.start,stop))

def toRegion (s : Span) : Except Fault Region := s.stop.bind (Region.make s.start)

def ofRegion (r : Region) : Except Fault Span := ofBounds r.start r.stop

def slice (s : Span) (text : List Char) : Except Fault (Option (List Char)) :=
  s.stop.map (fun stop => Text.slice? s.start.toNat stop.toNat text)

def dotted (s : Span) : Except Fault String := s.stop.map (ContextScan.dotted s.start)

def bracketed (s : Span) : Except Fault String :=
  s.stop.map (fun stop => "[" ++ toString s.start.toNat ++ ", " ++ toString stop.toNat ++ ")")

end Span

def Region.dotted (r : Region) : String := ContextScan.dotted r.start r.stop

end ContextScan
