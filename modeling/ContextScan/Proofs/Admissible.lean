import ContextScan.Proofs.Dispatch
import Mathlib.Data.Nat.Bitwise

namespace ContextScan

universe u

namespace Token

theorem symbol_lt (t : Token) : t.symbol < 4 := by cases t <;> decide

theorem symbol_injective {t u : Token} (same : t.symbol = u.symbol) : t = u := by
  have found := ofSymbol_symbol t
  rw [same,ofSymbol_symbol] at found
  exact (Option.some.inj found).symm

theorem symbol_reached {n : Nat} (known : n < 4) : ∃ t : Token, t.symbol = n :=
  ⟨all[n],symbol_of_ofSymbol (List.getElem?_eq_getElem known)⟩

end Token

namespace TokenSet

variable {a b : TokenSet} {entries : List Bool} {tokens : List Token}

def bit (a : TokenSet) (n : Nat) : Bool := a.bits.toNat.testBit n

def Low (a : TokenSet) : Prop := ∀ n, 4 ≤ n → a.bit n = false

theorem bit_ext (same : ∀ n, a.bit n = b.bit n) : a = b :=
  bits_injective (UInt8.toNat_inj.mp (Nat.eq_of_testBit_eq same))

theorem bit_union (a b : TokenSet) (n : Nat) : (a.union b).bit n = (a.bit n || b.bit n) := by
  rw [bit,union,UInt8.toNat_or,Nat.testBit_or]
  rfl

theorem single_bits (t : Token) : (single t).bits.toNat = 2 ^ t.symbol := by cases t <;> rfl

theorem bit_single (t : Token) (n : Nat) : (single t).bit n = (t.symbol == n) := by
  rw [bit,single_bits,Nat.testBit_two_pow,Bool.beq_eq_decide_eq]

theorem bit_empty (n : Nat) : empty.bit n = false := Nat.zero_testBit n

-- What a set admits is told by the bit at the token's symbol and by no other.
theorem allows_bit (a : TokenSet) (t : Token) : a.allows t = a.bit t.symbol := by
  have width : 0 < 2 ^ t.symbol := Nat.two_pow_pos _
  rw [Bool.eq_iff_iff,allows,includes,beq_iff_eq,← UInt8.toNat_inj,UInt8.toNat_and,single_bits,Nat.and_two_pow,bit]
  cases set : a.bits.toNat.testBit t.symbol with
  | false => simp [Nat.ne_of_lt width]
  | true => simp

theorem allows_ext (left : a.Low) (right : b.Low) (same : ∀ t, a.allows t = b.allows t) : a = b := by
  apply bit_ext
  intro n
  rcases Nat.lt_or_ge n 4 with known | past
  · obtain ⟨t,rfl⟩ := Token.symbol_reached known
    rw [← allows_bit,← allows_bit,same]
  · rw [left n past,right n past]

theorem collect_bit (tokens : List Token) (a : TokenSet) (n : Nat) :
    (tokens.foldl (fun set t => set.union (single t)) a).bit n = (a.bit n || tokens.any (fun t => t.symbol == n)) := by
  induction tokens generalizing a with
  | nil => simp
  | cons t rest ih => rw [List.foldl_cons,ih,bit_union,bit_single,List.any_cons,Bool.or_assoc]

theorem ofTokens_bit (tokens : List Token) (n : Nat) : (ofTokens tokens).bit n = tokens.any (fun t => t.symbol == n) := by
  rw [ofTokens,collect_bit,bit_empty,Bool.false_or]

theorem ofTokens_low (tokens : List Token) : (ofTokens tokens).Low := by
  intro n past
  rw [ofTokens_bit,List.any_eq_false]
  intro t _ same
  have low := t.symbol_lt
  have symbol : t.symbol = n := beq_iff_eq.mp same
  omega

theorem ofTokens_allows (tokens : List Token) (t : Token) : (ofTokens tokens).allows t = true ↔ t ∈ tokens := by
  rw [allows_bit,ofTokens_bit,List.any_eq_true]
  constructor
  · intro found
    obtain ⟨u,member,same⟩ := found
    cases Token.symbol_injective (beq_iff_eq.mp same)
    exact member
  · intro member
    exact ⟨t,member,beq_self_eq_true _⟩

theorem ofTokens_append (tokens more : List Token) : ofTokens (tokens ++ more) = (ofTokens tokens).union (ofTokens more) := by
  apply bit_ext
  intro n
  rw [bit_union,ofTokens_bit,ofTokens_bit,ofTokens_bit,List.any_append]

theorem ofTokens_ext {other : List Token} (same : ∀ t, t ∈ tokens ↔ t ∈ other) : ofTokens tokens = ofTokens other := by
  apply allows_ext (ofTokens_low tokens) (ofTokens_low other)
  intro t
  rw [Bool.eq_iff_iff,ofTokens_allows,ofTokens_allows,same]

def entered (entries : List Bool) : List Token := ((entries.zip Token.all).filter Prod.fst).map Prod.snd

theorem mem_entered (entries : List Bool) (t : Token) : t ∈ entered entries ↔ entries[t.symbol]? = some true := by
  constructor
  · intro member
    obtain ⟨⟨set,u⟩,kept,rfl⟩ := List.mem_map.mp member
    obtain ⟨paired,holds⟩ := List.mem_filter.mp kept
    obtain ⟨n,there⟩ := List.mem_iff_getElem?.mp paired
    obtain ⟨entry,token⟩ := List.getElem?_zip_eq_some.mp there
    have symbol : u.symbol = n := Token.symbol_of_ofSymbol token
    rw [symbol,entry,show set = true from holds]
  · intro entry
    have there : (entries.zip Token.all)[t.symbol]? = some (true,t) :=
      List.getElem?_zip_eq_some.mpr ⟨entry,Token.ofSymbol_symbol t⟩
    exact List.mem_map.mpr ⟨(true,t),List.mem_filter.mpr ⟨List.mem_of_getElem? there,rfl⟩,rfl⟩

theorem ofSymbols_listed (listed : ∀ t, t ∈ tokens ↔ entries[t.symbol]? = some true) :
    ofSymbols entries = ofTokens tokens := by
  change ofTokens (entered entries) = ofTokens tokens
  apply ofTokens_ext
  intro t
  rw [mem_entered,listed]

theorem ofSymbols_ext {other : List Bool} (same : ∀ n, n < 4 → (entries[n]? = some true ↔ other[n]? = some true)) :
    ofSymbols entries = ofSymbols other := by
  apply ofSymbols_listed
  intro t
  exact (mem_entered other t).trans (same _ t.symbol_lt).symm

theorem scan_allows {σ : Type u} [Cursor σ] {valid : TokenSet} {s : σ} {t : Token}
    (found : (scan valid s).token = some t) : valid.allows t = true := by
  rw [Dispatch.scan_token] at found
  split at found
  · cases found
  · have both := List.find?_some found
    exact (Bool.and_eq_true_iff.mp both).1

-- The entries a host keeps, the tokens they stand for and the set of them admit the
-- same, so nothing is found that the host did not ask for.
theorem admissible_exact {σ : Type u} [Cursor σ] (entries : List Bool) (tokens more : List Token) (s : σ) :
    (∀ t, (ofSymbols entries).allows t = true ↔ entries[t.symbol]? = some true) ∧
    (∀ other : List Bool, (∀ n, n < 4 → (entries[n]? = some true ↔ other[n]? = some true)) →
      ofSymbols entries = ofSymbols other) ∧
    (∀ n, 4 ≤ n → (ofSymbols entries).bits.toNat.testBit n = false) ∧
    (∀ t, (ofTokens tokens).allows t = true ↔ t ∈ tokens) ∧
    (∀ other : List Token, (∀ t, t ∈ tokens ↔ t ∈ other) → ofTokens tokens = ofTokens other) ∧
    ofTokens (tokens ++ more) = (ofTokens tokens).union (ofTokens more) ∧
    ((∀ t, t ∈ tokens ↔ entries[t.symbol]? = some true) → ofSymbols entries = ofTokens tokens) ∧
    ∀ t, (scan (ofSymbols entries) s).token = some t → entries[t.symbol]? = some true := by
  have admits : ∀ t, (ofSymbols entries).allows t = true ↔ entries[t.symbol]? = some true := by
    intro t
    exact (ofTokens_allows (entered entries) t).trans (mem_entered entries t)
  refine ⟨admits,fun other => ofSymbols_ext,ofTokens_low (entered entries),ofTokens_allows tokens,
    fun other => ofTokens_ext,ofTokens_append tokens more,ofSymbols_listed,?_⟩
  intro t found
  exact (admits t).mp (scan_allows found)

theorem admissible_exact_short :
    (ofSymbols [true,false,true]).allows .ternary = true ∧ (ofSymbols [true,false,true]).allows .markup = false ∧
    ofSymbols [true,false,true] = ofSymbols [true,false,true,false,true,true] ∧
    ofTokens [.ternary,.semicolon,.ternary] = ofTokens [.semicolon,.ternary] ∧
    ofSymbols [true,false,true] = ofTokens [.ternary,.semicolon,.ternary] ∧
    (scan (ofSymbols [true,false,true]) (Recorder.startAt ['a'] 0 [])).token ≠ some .markup := by
  obtain ⟨admits,entries,_,_,reordered,_,listed,found⟩ :=
    admissible_exact [true,false,true] [.ternary,.semicolon,.ternary] [] (Recorder.startAt ['a'] 0 [])
  have refused : ¬(ofSymbols [true,false,true]).allows .markup = true := fun allowed => absurd ((admits _).mp allowed) (by decide)
  refine ⟨(admits _).mpr rfl,Bool.eq_false_iff.mpr refused,entries _ (by decide),reordered _ ?_,listed ?_,?_⟩
  · intro t
    cases t <;> decide
  · intro t
    cases t <;> decide
  · intro markup
    exact absurd (found _ markup) (by decide)

end TokenSet
end ContextScan
