import ContextScan.Proofs.Boundary
import ContextScan.Proofs.Simulation
import ContextScan.Recorder

namespace ContextScan.CodePoints
open Text Source

def byteOffset (text : List Char) (n : Nat) : Nat := width (text.take n)

-- Where regions end, how often one is listed and what begins inside a character is
-- left open.
def Corresponds (text : List Char) (starts : List Nat) (regions : List Region) : Prop :=
  ∀ n ≤ text.length, (n ∈ starts ↔ RegionAt regions (byteOffset text n))

structure Tracks (text : List Char) (s : Source) (r : Recorder) : Prop where
  ahead : s.place.ahead = r.ahead
  rest : r.ahead = text.drop r.pos
  inside : r.pos ≤ text.length
  offset : s.place.offset = byteOffset text r.pos
  marked : s.tokenEnd = r.marked.map (byteOffset text)
  starts : Corresponds text r.starts s.regions

theorem byteOffset_succ {text rest : List Char} {n : Nat} {c : Char} (found : text.drop n = c :: rest) :
    byteOffset text (n + 1) = byteOffset text n + c.utf8Size := by
  have here : text[n]? = some c := by
    rw [← List.head?_drop,found]
    rfl
  simp only [byteOffset,List.take_add_one,here,width_append,Option.toList_some,width,Nat.add_zero]

theorem byteOffset_grows {text : List Char} {n : Nat} (inside : n < text.length) :
    byteOffset text n < byteOffset text (n + 1) := by
  rw [byteOffset_succ (List.drop_eq_getElem_cons inside)]
  exact Nat.lt_add_of_pos_right (Char.utf8Size_pos _)

theorem byteOffset_lt {text : List Char} {m n : Nat} (before : m < n) (inside : n ≤ text.length) :
    byteOffset text m < byteOffset text n := by
  induction before with
  | refl => exact byteOffset_grows inside
  | step _ ih => exact Nat.lt_trans (ih (Nat.le_of_succ_le inside)) (byteOffset_grows inside)

theorem byteOffset_le (text : List Char) (n : Nat) : byteOffset text n ≤ width text := by
  have parts := width_append (text.take n) (text.drop n)
  rw [List.take_append_drop] at parts
  rw [parts]
  exact Nat.le_add_right _ _

theorem Tracks.next {text : List Char} {s : Source} {r : Recorder} (tracks : Tracks text s r)
    (found : (Cursor.lookahead s).isSome = true) :
    s.place.next.ahead = r.ahead.tail ∧ r.ahead.tail = text.drop (r.pos + 1) ∧ r.pos + 1 ≤ text.length ∧
      s.place.next.offset = byteOffset text (r.pos + 1) := by
  obtain ⟨ahead,rest,inside,offset,_,_⟩ := tracks
  obtain ⟨⟨behind,left,n⟩,_,_,_,_⟩ := s
  cases left with
  | nil => cases found
  | cons c left =>
      have here : text.drop r.pos = c :: left := by rw [← rest]; exact ahead.symm
      refine ⟨?_,?_,?_,?_⟩
      · rw [← ahead]; rfl
      · rw [rest,List.tail_drop]
      · have shorter := congrArg List.length here
        simp only [List.length_drop,List.length_cons] at shorter
        omega
      · rw [byteOffset_succ here,← offset]
        rfl

universe u v

end ContextScan.CodePoints
